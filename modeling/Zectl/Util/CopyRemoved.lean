import Zectl.Util.Clearing
import Zectl.Util.CopyTree

/-!
# Removing a tree of files and directories

Where no call fails, a tree that holds nothing but files and directories is removed in full,
whatever the order its entries are read in. A copy holds nothing else, so that a copy that is
removed again leaves the file system as it was.
-/

namespace Zectl.Util.CopyRemoved

open Zectl.Lib.StateRun Zectl.Lib.FileTree Zectl.Util.CString Zectl.Util.Traverse
open Zectl.Util.FileSystem Zectl.Util.CopyTree Zectl.Util.Clearing

/-- The entries in `done` are gone with all that is below them, and nothing else. -/
structure Emptying (s v : Fs) (T : Loc FileName) (done : List CStr) : Prop where
  below : ∀ m rel, v.node (T ++ m :: rel) = if m.val ∈ done then none else s.node (T ++ m :: rel)
  frame : ∀ y, (T <+: y → y = T) → v.node y = s.node y

/-- All that was below a directory is gone, and nothing else. -/
structure Emptied (s v : Fs) (T : Loc FileName) : Prop where
  below : ∀ m rel, v.node (T ++ m :: rel) = none
  frame : ∀ y, (T <+: y → y = T) → v.node y = s.node y

/-- A directory that can be emptied. Its path leads to it without what is below it. -/
structure Emptiable (env : Env) (s : Fs) (path : CStr) (T : Loc FileName) : Prop where
  leads : ∀ v : Fs, (∀ y, (T <+: y → y = T) → v.node y = s.node y) →
    findPath env.cwd v path = .ok (T, .dir)
  plain : Plain s T
  fits : Fits s T path

section Entries
variable {env : Env} {s t u v : Fs} {path name : CStr} {T : Loc FileName} {n : FileName}
  {done rest : List CStr}

theorem Emptiable.find (hready : Emptiable env s path T) : findPath env.cwd s path = .ok (T, .dir) :=
  hready.leads s fun _ _ => rfl

theorem Emptiable.dir (hready : Emptiable env s path T) : s.node T = some .dir :=
  (findPath_eq_ok_iff.mp hready.find).choose_spec.2

theorem not_below_of_frame {y : Loc FileName} (hy : T <+: y → y = T) : ¬ T ++ [n] <+: y := by
  intro hpre
  have hlen := hpre.length_le
  rw [hy ((List.prefix_append T [n]).trans hpre), List.length_append, List.length_singleton] at hlen
  omega

/-- An entry below which nothing is goes with all that was below it. -/
theorem unlink_gone {hleaf : u.names (T ++ [n]) = []}
    (hnone : ∀ k rel, u.node (T ++ n :: k :: rel) = none) (rel : Loc FileName) :
    (u.unlink T n hleaf).node (T ++ n :: rel) = none := by
  cases rel with
  | nil => exact DirTree.node_unlink_self
  | cons k rel =>
    rw [DirTree.node_unlink_of_ne (by simp), hnone k rel]

theorem unlink_rest {hleaf : u.names (T ++ [n]) = []} {y : Loc FileName} (hy : ¬ T ++ [n] <+: y) :
    (u.unlink T n hleaf).node y = u.node y :=
  DirTree.node_unlink_of_ne fun heq => hy (heq ▸ List.prefix_refl _)

theorem Emptying.dots (h : Emptying s v T done)
    (hname : name = ("." : CStr) ∨ name = (".." : CStr)) : Emptying s v T (done ++ [name]) where
  below m rel := by
    have hne : m.val ≠ name := by
      obtain rfl | rfl := hname
      · exact m.property.2.1
      · exact m.property.2.2.1
    rw [h.below m rel]
    simp only [List.mem_append, List.mem_singleton, hne, or_false]
  frame := h.frame

/-- An entry that is gone is done. -/
theorem Emptying.step (h : Emptying s v T done)
    (hgone : ∀ rel, u.node (T ++ n :: rel) = none)
    (hrest : ∀ y, ¬ T ++ [n] <+: y → u.node y = v.node y) :
    Emptying s u T (done ++ [n.val]) where
  below m rel := by
    by_cases hm : m = n
    · subst hm
      rw [if_pos (List.mem_append_right _ (List.mem_singleton_self _)), hgone]
    · have hne : m.val ≠ n.val := fun heq => hm (Subtype.ext heq)
      have hother : ¬ T ++ [n] <+: T ++ m :: rel := by
        rw [List.prefix_append_right_inj]
        intro ⟨r, hr⟩
        exact hm (List.cons.inj hr).1.symm
      rw [hrest _ hother, h.below m rel]
      simp only [List.mem_append, List.mem_singleton, hne, or_false]
  frame y hy := by
    rw [hrest y (not_below_of_frame hy), h.frame y hy]

/-- What the removal of an entry that is a directory starts from. -/
theorem Emptiable.below (hready : Emptiable env s path T) (h : Emptying s v T done)
    (hn : s.node (T ++ [n]) = some .dir) (hnew : n.val ∉ done) :
    Emptiable env v (path ++ '/' :: n.val) (T ++ [n]) := by
  have hnode : ∀ rel, v.node (T ++ n :: rel) = s.node (T ++ n :: rel) := fun rel => by
    rw [h.below n rel, if_neg hnew]
  have happ : ∀ rel, T ++ [n] ++ rel = T ++ n :: rel := fun rel => by
    rw [List.append_assoc, List.singleton_append]
  constructor
  · intro w hw
    have hdir : w.node (T ++ [n]) = some .dir := by
      rw [hw _ fun _ => rfl, hnode [], hn]
    have hlead : findPath env.cwd w path = .ok (T, .dir) := by
      apply hready.leads
      intro y hy
      rw [hw y fun hpre => absurd hpre (not_below_of_frame hy), h.frame y hy]
    obtain ⟨l, hl, hT⟩ := findPath_eq_ok_iff.mp hlead
    exact findPath_name hl hT hdir fun _ heq => by cases heq
  · intro rel x hx
    rw [happ, hnode] at hx
    exact hready.plain (n :: rel) x hx
  · exact hready.fits.below hnode

/-- The removal of one entry, given that of a directory. -/
theorem rmdirCb_removes (hfaults : NoFaults env) (hready : Emptiable env s path T)
    {descend : CStr → StateM Fs Nat}
    (hdescend : ∀ {w q U}, Emptiable env w q U → path.length < q.length →
      ∃ u, descend q w = (0, u) ∧ Emptied w u U)
    (h : Emptying s v T done)
    (hname : name = ("." : CStr) ∨ name = (".." : CStr) ∨ ∃ m ∈ s.names T, name = m.val)
    (hnew : name ∉ done) :
    path.length + 1 + name.length < libzeMaxPathLen ∧ ∃ x w u,
      findPath env.cwd v (path ++ '/' :: name) = .ok (x, w) ∧
      rmdirCb env.calls.toDirCalls descend path ('/' :: name) (fileMode w) v = (0, u) ∧
      Emptying s u T (done ++ [name]) := by
  have hlen := hready.fits.dir hready.dir
  obtain ⟨l, hl, hT⟩ := findPath_eq_ok_iff.mp (hready.leads v h.frame)
  obtain rfl | rfl | ⟨m, hm, rfl⟩ := hname
  · have hfit : path.length + 1 + (".".toList).length < libzeMaxPathLen := by simp; omega
    refine ⟨hfit, _, _, v, findPath_dot hl hT, ?_, h.dots (.inl rfl)⟩
    rw [rmdirCb_eq hfit]
    rfl
  · have hfit : path.length + 1 + ("..".toList).length < libzeMaxPathLen := by simp; omega
    refine ⟨hfit, _, _, v, findPath_dots hl hT, ?_, h.dots (.inr rfl)⟩
    rw [rmdirCb_eq hfit]
    rfl
  · have hne := (s.mem_names T m).mp hm
    have hfit := hready.fits.entry hne
    obtain ⟨x, hx⟩ := Option.ne_none_iff_exists'.mp hne
    have hxv : v.node (T ++ [m]) = some x := by
      rw [h.below m [], if_neg hnew]
      exact hx
    obtain rfl | ⟨content, rfl⟩ := hready.plain [m] x hx
    · have hfind := findPath_name hl hT hxv fun _ heq => by cases heq
      obtain ⟨u, hrun, hu⟩ := hdescend (hready.below h hx hnew) (by simp)
      have hdir : u.node (T ++ [m]) = some .dir := by rw [hu.frame _ fun _ => rfl, hxv]
      have hleaf : u.names (T ++ [m]) = [] := by
        rw [List.eq_nil_iff_forall_not_mem]
        intro k hk
        have hnone := hu.below k []
        exact (u.mem_names _ k).mp hk hnone
      have hframe : ∀ y, ¬ T ++ [m] <+: y → u.node y = v.node y := fun y hy =>
        hu.frame y fun hpre => absurd hpre hy
      have hlead : findPath env.cwd u path = .ok (T, .dir) := hready.leads u fun y hy => by
        rw [hframe y (not_below_of_frame hy), h.frame y hy]
      obtain ⟨k, hk, hTu⟩ := findPath_eq_ok_iff.mp hlead
      refine ⟨hfit, _, _, u.unlink T m hleaf, hfind, ?_, h.step ?_ ?_⟩
      · rw [rmdirCb_eq hfit]
        show (if m.val = _ ∨ m.val = _ then pure 0 else _ : StateM Fs Nat) v = (0, _)
        rw [if_neg (not_or.mpr ⟨m.property.2.1, m.property.2.2.1⟩), run_guard hrun,
          if_neg (not_not.mpr rfl)]
        exact rmdir_run (hfaults _ _ _) (locatePath_entry hk hTu) hdir hleaf
      · exact unlink_gone fun k rel => by
          have hnone := hu.below k rel
          rwa [List.append_assoc, List.singleton_append] at hnone
      · exact fun y hy => (unlink_rest hy).trans (hframe y hy)
    · have hfind := findPath_name hl hT hxv fun _ heq => by cases heq
      have hleaf : v.names (T ++ [m]) = [] :=
        v.names_eq_nil (by rw [hxv]; intro heq; cases heq)
      refine ⟨hfit, _, _, v.unlink T m hleaf, hfind, ?_, h.step ?_ ?_⟩
      · rw [rmdirCb_eq hfit]
        exact remove_run (hfaults _ _ _) (locatePath_entry hl hT) (by rw [hxv]; exact Option.some_ne_none _) hleaf
          getLast_entry
      · refine unlink_gone fun k rel => ?_
        have hnone := @node_below_absent v (T ++ [m]) (k :: rel)
          (by rw [hxv]; exact fun heq => by cases heq) (List.cons_ne_nil k rel)
        rwa [List.append_assoc, List.singleton_append] at hnone
      · exact fun y hy => unlink_rest hy

theorem traverseEntries_removes (hfaults : NoFaults env) (hready : Emptiable env s path T)
    {descend : CStr → StateM Fs Nat}
    (hdescend : ∀ {w q U}, Emptiable env w q U → path.length < q.length →
      ∃ u, descend q w = (0, u) ∧ Emptied w u U)
    (h : Emptying s v T done)
    (hnames : ∀ name ∈ rest,
      name = ("." : CStr) ∨ name = (".." : CStr) ∨ ∃ m ∈ s.names T, name = m.val)
    (hnodup : (done ++ rest).Nodup) :
    ∃ u, traverseEntries env.calls.toDirCalls (rmdirCb env.calls.toDirCalls descend) path rest v =
        (0, u) ∧ Emptying s u T (done ++ rest) := by
  induction rest generalizing done v with
  | nil =>
    rw [List.append_nil]
    exact ⟨v, rfl, h⟩
  | cons name rest ih =>
    have hnew : name ∉ done := fun hmem =>
      List.disjoint_of_nodup_append hnodup hmem List.mem_cons_self
    obtain ⟨hfit, x, w, u, hfind, hcb, hu⟩ :=
      rmdirCb_removes hfaults hready hdescend h (hnames name List.mem_cons_self) hnew
    have hsplit : done ++ name :: rest = done ++ [name] ++ rest := by
      rw [List.append_assoc, List.singleton_append]
    rw [hsplit] at hnodup ⊢
    rw [traverseEntries_step (hfaults _ _ _) hfit hfind hcb]
    exact ih hu (fun m hm => hnames m (List.mem_cons_of_mem _ hm)) hnodup

/-- A directory all of whose entries are done is empty. -/
theorem Emptying.emptied (h : Emptying s v T done) (hall : ∀ m ∈ s.names T, m.val ∈ done) :
    Emptied s v T where
  below m rel := by
    rw [h.below m rel]
    split
    · rfl
    · rename_i hm
      have hnone : s.node (T ++ [m]) = none := by
        by_contra hne
        exact hm (hall m ((s.mem_names T m).mpr hne))
      cases rel with
      | nil => exact hnone
      | cons k rel =>
        have hbelow := @node_below_absent s (T ++ [m]) (k :: rel)
          (by rw [hnone]; exact fun heq => by cases heq) (List.cons_ne_nil k rel)
        rwa [List.append_assoc, List.singleton_append] at hbelow
  frame := h.frame

theorem removeTree_removes (hfaults : NoFaults env) {depth : Nat}
    (hready : Emptiable env s path T) (hdepth : libzeMaxPathLen ≤ path.length + depth) :
    ∃ u, removeTree env.calls.toDirCalls depth path s = (0, u) ∧ Emptied s u T := by
  induction depth generalizing s path T with
  | zero =>
    have hlen := hready.fits.dir hready.dir
    omega
  | succ depth ih =>
    have hlen := hready.fits.dir hready.dir
    obtain ⟨l, hl, -⟩ := findPath_eq_ok_iff.mp hready.find
    have hlist : env.calls.readdir path s = env.order path T s := Env.readdir_eq hl
    have hstart : Emptying s s T [] := ⟨fun _ _ => rfl, fun _ _ => rfl⟩
    have hnodup : ([] ++ env.order path T s).Nodup := Env.nodup_order
    obtain ⟨u, hrun, hu⟩ := traverseEntries_removes hfaults hready
      (fun hnext hlonger => ih hnext (by omega)) hstart (fun name hname => Env.mem_order.mp hname)
      hnodup
    have hclose : env.calls.closedir path u = (0, u) := Env.closedir_run (hfaults _ _ _)
    refine ⟨u, ?_, hu.emptied fun m hm => Env.mem_order.mpr (.inr (.inr ⟨m, hm, rfl⟩))⟩
    rw [removeTree, recursiveTraverse_run (by omega)
      (Env.opendir_run (hfaults _ _ _) hready.find) (by rw [hlist]; exact hrun), hclose,
      if_neg (fun h => h.1 rfl)]

end Entries

/-! ## A directory -/

/-- A directory of files and directories that can be removed. Its path leads to its name without
what is below it. -/
structure Removable (env : Env) (s : Fs) (path : CStr) (P : Loc FileName) (n : FileName) : Prop where
  located : ∀ v : Fs, (∀ y, (P ++ [n] <+: y → y = P ++ [n]) → v.node y = s.node y) →
    locatePath env.cwd v path = .ok (P, some (.name n))
  there : s.node (P ++ [n]) = some .dir
  plain : Plain s (P ++ [n])
  fits : Fits s (P ++ [n]) path

section Directories
variable {env : Env} {s t : Fs} {path src dest : CStr} {S P : Loc FileName} {n : FileName}

theorem Removable.emptiable (h : Removable env s path P n) : Emptiable env s path (P ++ [n]) where
  leads v hv := by
    have hdir : v.node (P ++ [n]) = some .dir := by rw [hv _ fun _ => rfl, h.there]
    obtain ⟨l, hl⟩ := resolvePath_of_locate (h.located v hv) hdir
    exact findPath_eq_ok_iff.mpr ⟨l, hl, hdir⟩
  plain := h.plain
  fits := h.fits

/-- Where no call fails a directory of files and directories is removed with all that is in it,
and nothing else. -/
theorem plain_removed (hfaults : NoFaults env) (hrefusal : ∀ w, env.refusal path w = 0)
    (h : Removable env s path P n) :
    (libzeUtilRmdir env.calls.toDirCalls path s).1 = 0 ∧
      ∀ y, (libzeUtilRmdir env.calls.toDirCalls path s).2.node y =
        if P ++ [n] <+: y then none else s.node y := by
  obtain ⟨u, htree, hu⟩ :=
    removeTree_removes hfaults h.emptiable (Nat.le_add_left libzeMaxPathLen path.length)
  have haccess : env.calls.access path s = (0, s) := by
    show env.access path s = (0, s)
    unfold Env.access
    rw [if_neg (not_not.mpr (hrefusal s)), h.emptiable.find]
  have hdir : u.node (P ++ [n]) = some .dir := by rw [hu.frame _ fun _ => rfl, h.there]
  have hleaf : u.names (P ++ [n]) = [] := by
    rw [List.eq_nil_iff_forall_not_mem]
    exact fun k hk => (u.mem_names _ k).mp hk (hu.below k [])
  have hrmdir : env.calls.rmdir path u = (0, u.unlink P n hleaf) :=
    rmdir_run (hfaults _ _ _) (h.located u hu.frame) hdir hleaf
  have hrun : libzeUtilRmdir env.calls.toDirCalls path s = (0, u.unlink P n hleaf) := by
    rw [libzeUtilRmdir, run_bind, haccess, run_ite, if_neg (not_not.mpr rfl), run_guard htree,
      if_neg (not_not.mpr rfl), hrmdir]
  rw [hrun]
  refine ⟨rfl, fun y => ?_⟩
  split
  · rename_i hpre
    obtain ⟨rel, rfl⟩ := hpre
    have hbelow : ∀ k rel, u.node (P ++ n :: k :: rel) = none := fun k rel => by
      have hnone := hu.below k rel
      rwa [List.append_assoc, List.singleton_append] at hnone
    rw [List.append_assoc, List.singleton_append]
    exact @unlink_gone u P n hleaf hbelow rel
  · rename_i hnot
    rw [unlink_rest hnot, hu.frame y fun hpre => absurd hpre hnot]

/-- What is copied to a place where nothing is can be removed. -/
theorem removable_of_copied (hready : Ready env s src dest S P n)
    (hcopied : Copied s t S (P ++ [n])) : Removable env t dest P n := by
  have hS : s.node S = some .dir := (findPath_eq_ok_iff.mp hready.source).choose_spec.2
  constructor
  · intro v hv
    refine locatePath_within (fun y => ?_) hready.located
    by_cases hpre : P ++ [n] <+: y
    · obtain ⟨rel, rfl⟩ := hpre
      cases rel with
      | nil => exact .inl (by rw [List.append_nil]; exact hready.absent)
      | cons k rel =>
        exact .inl (node_below_absent (by rw [hready.absent]; exact fun heq => by cases heq)
          (List.cons_ne_nil k rel))
    · right
      rw [hv y fun hpre' => absurd hpre' hpre, hcopied.frame y hpre]
  · have hsame := hcopied.same []
    rwa [List.append_nil, List.append_nil, hS] at hsame
  · intro rel v hv
    rw [hcopied.same] at hv
    exact hready.plain rel v hv
  · intro rel hrel
    rw [hcopied.same] at hrel ⊢
    exact hready.destFits rel hrel

/-- A copy that is removed again leaves every place as it was. -/
theorem copied_removed (hfaults : NoFaults env) (hrefusal : ∀ w, env.refusal dest w = 0)
    (hready : Ready env s src dest S P n) :
    let copied := libzeUtilCopydir env.calls src dest s
    let removed := libzeUtilRmdir env.calls.toDirCalls dest copied.2
    copied.1 = 0 ∧ removed.1 = 0 ∧ ∀ y, removed.2.node y = s.node y := by
  obtain ⟨t, hrun, ht⟩ := copyTree_copies hfaults hready (Nat.le_add_left libzeMaxPathLen _)
  have hcopy : libzeUtilCopydir env.calls src dest s = (0, t) := hrun
  obtain ⟨hzero, hnode⟩ := plain_removed hfaults hrefusal (removable_of_copied hready ht)
  dsimp only
  rw [hcopy]
  refine ⟨rfl, hzero, fun y => ?_⟩
  rw [hnode y]
  split
  · rename_i hpre
    obtain ⟨rel, rfl⟩ := hpre
    cases rel with
    | nil => rw [List.append_nil, hready.absent]
    | cons k rel =>
      exact (node_below_absent (by rw [hready.absent]; exact fun heq => by cases heq)
        (List.cons_ne_nil k rel)).symm
  · rename_i hnot
    exact ht.frame y hnot

end Directories

theorem copied_removed_sample :
    (libzeUtilCopydir Env.faultless.calls "/a" "/b" sampleTree).1 = 0 ∧
      (libzeUtilRmdir Env.faultless.calls.toDirCalls "/b"
        (libzeUtilCopydir Env.faultless.calls "/a" "/b" sampleTree).2).1 = 0 ∧
      ∀ y, (libzeUtilRmdir Env.faultless.calls.toDirCalls "/b"
        (libzeUtilCopydir Env.faultless.calls "/a" "/b" sampleTree).2).2.node y =
          sampleTree.node y :=
  copied_removed (fun _ _ _ => rfl) (fun _ => rfl) sampleTree_ready

end Zectl.Util.CopyRemoved
