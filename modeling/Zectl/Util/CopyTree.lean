import Zectl.Util.FileSystem

/-!
# What a copy of a tree leaves

A file is copied in blocks, an entry into the directory that its first entry makes, a directory
entry by entry. Where no call fails and all paths are short, the copy has the same files under
the same names and nothing else has changed.
-/

namespace Zectl.Util.CopyTree

open Zectl.Lib.StateRun Zectl.Lib.FileTree Zectl.Util.CString Zectl.Util.Traverse
open Zectl.Util.FileSystem

/-- No call fails for reasons of its own. -/
def NoFaults (env : Env) : Prop := ∀ op path s, env.fault op path s = 0

/-- What is below the destination is what is below the source, and the rest is as it was. -/
structure Copied (s t : Fs) (src dest : Loc FileName) : Prop where
  same : ∀ rel, t.node (dest ++ rel) = s.node (src ++ rel)
  frame : ∀ y, ¬ dest <+: y → t.node y = s.node y

/-- The paths below a directory are short, those of `.` and `..` included. -/
def Fits (s : Fs) (x : Loc FileName) (dir : CStr) : Prop :=
  ∀ rel, s.node (x ++ rel) ≠ none → (pathOf dir rel).length < libzeMaxPathLen ∧
    (s.node (x ++ rel) = some .dir → (pathOf dir rel).length + 3 < libzeMaxPathLen)

/-- Only files and directories are below a directory. -/
def Plain (s : Fs) (x : Loc FileName) : Prop :=
  ∀ rel v, s.node (x ++ rel) = some v → v = .dir ∨ ∃ content, v = .file content

section File
variable {env : Env} {s t u : Fs} {src dest : CStr} {S T : Loc FileName} {m : FileName}
  {content done left : List UInt8} {l : Nat}

/-- A tree in which one file was added to another tree. -/
structure Added (s t : Fs) (T : Loc FileName) (m : FileName) (content : List UInt8) : Prop where
  dir : s.node T = some .dir
  absent : s.node (T ++ [m]) = none
  file : t.node (T ++ [m]) = some (.file content)
  rest : ∀ y, y ≠ T ++ [m] → t.node y = s.node y

theorem Added.within (h : Added s t T m content) : Within s.node t.node := by
  intro y
  by_cases hy : y = T ++ [m]
  · rw [hy]
    exact .inl h.absent
  · exact .inr (h.rest y hy).symm

/-- The loop over the blocks. -/
theorem libzeUtilCopyFilepointer_run (hfaults : NoFaults env) {file : CStr} {F : Loc FileName}
    (hfile : findPath env.cwd s file = .ok (F, .file content)) (hdest : resolvePath env.cwd s.node dest = .ok (T, l))
    (hadded : Added s t T m done) :
    ∃ u, libzeUtilCopyFilepointer env.calls file (dest ++ '/' :: m.val) left t = (0, u) ∧
      Added s u T m (done ++ left) := by
  induction hlen : left.length using Nat.strong_induction_on generalizing left done t with
  | _ n ih =>
    obtain ⟨k, hF, hFnode⟩ := findPath_eq_ok_iff.mp hfile
    have hne : F ≠ T ++ [m] := by
      intro heq
      rw [heq, hadded.absent] at hFnode
      cases hFnode
    have hfind : findPath env.cwd t file = .ok (F, .file content) :=
      findPath_eq_ok_iff.mpr
        ⟨k, resolvePath_within hadded.within hF, (hadded.rest F hne).trans hFnode⟩
    have hread : env.calls.fread file t = (0, t) := Env.fread_run (hfaults _ _ _) hfind
    rw [libzeUtilCopyFilepointer_eq, run_guard hread, if_neg (not_not.mpr rfl)]
    by_cases hleft : left = []
    · have hflush : env.calls.fflush (dest ++ '/' :: m.val) t = (0, t) :=
        Env.fflush_run (hfaults _ _ _)
      rw [if_pos hleft, run_bind, hflush, hleft, List.append_nil]
      exact ⟨t, rfl, hadded⟩
    · have hdir : t.node T = some .dir := hadded.within.eq_of_some hadded.dir
      have hnew : findPath env.cwd t (dest ++ '/' :: m.val) = .ok (T ++ [m], .file done) :=
        findPath_eq_ok_iff.mpr ⟨l, resolvePath_name (resolvePath_within hadded.within hdest) hdir
          hadded.file (fun _ heq => by cases heq), hadded.file⟩
      have hwrite : env.calls.fwrite (dest ++ '/' :: m.val) (left.take copyBuflen) t = (0, _) :=
        Env.fwrite_run (hfaults _ _ _) hnew hadded.file
      rw [if_neg hleft, run_guard hwrite, if_neg (not_not.mpr rfl)]
      have hpos : 0 < left.length := List.length_pos_of_ne_nil hleft
      have hdrop : (left.drop copyBuflen).length < n := by
        rw [List.length_drop, copyBuflen]
        omega
      have hnext : Added s (t.write (T ++ [m]) (done ++ left.take copyBuflen)
          ⟨done, hadded.file⟩) T m (done ++ left.take copyBuflen) :=
        { dir := hadded.dir
          absent := hadded.absent
          file := DirTree.node_write_self
          rest := fun y hy => (DirTree.node_write_of_ne hy).trans (hadded.rest y hy) }
      obtain ⟨u, hrun, hu⟩ := ih _ hdrop hnext rfl
      rw [List.append_assoc, List.take_append_drop] at hu
      exact ⟨u, hrun, hu⟩

/-- A file is copied into a directory that has no entry of its name. -/
theorem libzeUtilCopyFile_run (hfaults : NoFaults env) {file : CStr} {F : Loc FileName}
    (hfile : findPath env.cwd s file = .ok (F, .file content)) (hdest : resolvePath env.cwd s.node dest = .ok (T, l))
    (hdir : s.node T = some .dir) (habsent : s.node (T ++ [m]) = none) :
    ∃ u, libzeUtilCopyFile env.calls file (dest ++ '/' :: m.val) s = (0, u) ∧
      Added s u T m content := by
  have hleaf : s.names (T ++ [m]) = [] := s.names_eq_nil (by rw [habsent]; intro h; cases h)
  have hopen : env.calls.fopenRead file s = (0, s) := Env.fopenRead_run (hfaults _ _ _) hfile
  have hwalk : resolvePath env.cwd s.node (dest ++ '/' :: m.val) = .error (.absent T m) := by
    rw [resolvePath_entry hdest m.property.2.2.2, component_val, walk_absent hdir habsent]
  have hnew : env.calls.fopenWrite (dest ++ '/' :: m.val) s = (0, s.put T m (.file []) hdir hleaf) :=
    Env.fopenWrite_new (hfaults _ _ _) hwalk hdir hleaf
  have hadded : Added s (s.put T m (.file []) hdir hleaf) T m [] :=
    { dir := hdir
      absent := habsent
      file := DirTree.node_put_self
      rest := fun y hy => DirTree.node_put_of_ne hy }
  obtain ⟨k, hF, hFnode⟩ := findPath_eq_ok_iff.mp hfile
  have hne : F ≠ T ++ [m] := by
    intro heq
    rw [heq, habsent] at hFnode
    cases hFnode
  have hread : env.content file (s.put T m (.file []) hdir hleaf) = content :=
    Env.content_eq (findPath_eq_ok_iff.mpr
      ⟨k, resolvePath_within hadded.within hF, (hadded.rest F hne).trans hFnode⟩)
  obtain ⟨u, hrun, hu⟩ : ∃ u, libzeUtilCopyFilepointer env.calls file (dest ++ '/' :: m.val)
      content (s.put T m (.file []) hdir hleaf) = (0, u) ∧ Added s u T m ([] ++ content) :=
    libzeUtilCopyFilepointer_run hfaults hfile hdest hadded
  refine ⟨u, ?_, hu⟩
  unfold libzeUtilCopyFile
  rw [run_guard hopen, if_neg (not_not.mpr rfl), run_guard hnew, if_neg (not_not.mpr rfl),
    run_get_bind]
  show libzeUtilCopyFilepointer _ _ _ (env.content file _) _ = _
  rw [hread]
  exact hrun

end File

/-! ## One directory -/

/-- What a directory is copied from and to. -/
structure Ready (env : Env) (s : Fs) (src dest : CStr) (S P : Loc FileName) (n : FileName) :
    Prop where
  source : findPath env.cwd s src = .ok (S, .dir)
  plain : Plain s S
  located : locatePath env.cwd s dest = .ok (P, some (.name n))
  absent : s.node (P ++ [n]) = none
  outside : ¬ S <+: P ++ [n]
  srcFits : Fits s S src
  destFits : Fits s S dest

/-- The entries in `done` are copied; `top` is what there is of the destination itself. -/
structure Partial (s v : Fs) (S T : Loc FileName) (done : List CStr) (top : Option FsNode) :
    Prop where
  top : v.node T = top
  below : ∀ m rel, v.node (T ++ m :: rel) = if m.val ∈ done then s.node (S ++ m :: rel) else none
  frame : ∀ y, ¬ T <+: y → v.node y = s.node y

section Directory
variable {env : Env} {s t u v w : Fs} {src dest : CStr} {S T P : Loc FileName} {n : FileName}
  {done rest : List CStr} {top : Option FsNode} {content : List UInt8} {name : CStr}

theorem node_below_absent {x y : Loc FileName} (h : s.node x ≠ some .dir) (hy : y ≠ []) :
    s.node (x ++ y) = none := by
  by_contra hne
  exact h (s.dir_of_below hy hne)

/-- Nothing of the source is below the destination. -/
theorem apart (habsent : s.node T = none) (hS : s.node S ≠ none) (houtside : ¬ S <+: T)
    (rel : Loc FileName) : ¬ T <+: S ++ rel := by
  intro hT
  obtain h | h := List.prefix_or_prefix_of_prefix hT (List.prefix_append S rel)
  · obtain ⟨r, rfl⟩ := h
    by_cases hr : r = []
    · rw [hr, List.append_nil] at hS
      exact hS habsent
    · exact hS (node_below_absent (by rw [habsent]; intro h; cases h) hr)
  · exact houtside h

theorem Partial.within (h : Partial s v S T done top) (habsent : s.node T = none) :
    Within s.node v.node := by
  intro y
  by_cases hy : T <+: y
  · obtain ⟨r, rfl⟩ := hy
    by_cases hr : r = []
    · rw [hr, List.append_nil]
      exact .inl habsent
    · exact .inl (node_below_absent (by rw [habsent]; intro h; cases h) hr)
  · exact .inr (h.frame y hy).symm

theorem Added.copied (h : Added s t T n content) (hfile : s.node (S ++ [n]) = some (.file content)) :
    Copied s t (S ++ [n]) (T ++ [n]) where
  same rel := by
    by_cases hrel : rel = []
    · rw [hrel, List.append_nil, List.append_nil, h.file, hfile]
    · have hS : s.node (S ++ [n]) ≠ some .dir := by
        rw [hfile]
        intro heq
        cases heq
      have hT : t.node (T ++ [n]) ≠ some .dir := by
        rw [h.file]
        intro heq
        cases heq
      rw [node_below_absent hS hrel, node_below_absent hT hrel]
  frame y hy := h.rest y fun heq => hy (heq ▸ List.prefix_refl _)

/-- An entry that is copied is done. -/
theorem Partial.step (h : Partial s v S T done (some .dir)) (hapart : ∀ rel, ¬ T <+: S ++ rel)
    (hcopied : Copied v u (S ++ [n]) (T ++ [n])) :
    Partial s u S T (done ++ [n.val]) (some .dir) where
  top := by
    rw [hcopied.frame T, h.top]
    intro hpre
    have hlen := hpre.length_le
    rw [List.length_append, List.length_singleton] at hlen
    omega
  below m rel := by
    by_cases hm : m = n
    · subst hm
      have hsame := hcopied.same rel
      rw [List.append_assoc, List.append_assoc, List.singleton_append] at hsame
      rw [if_pos (List.mem_append_right _ (List.mem_singleton_self _)), hsame,
        h.frame _ (hapart _)]
    · have hne : m.val ≠ n.val := fun heq => hm (Subtype.ext heq)
      have hother : ¬ T ++ [n] <+: T ++ m :: rel := by
        rw [List.prefix_append_right_inj]
        intro ⟨r, hr⟩
        exact hm (List.cons.inj hr).1.symm
      rw [hcopied.frame _ hother, h.below m rel]
      simp only [List.mem_append, List.mem_singleton, hne, or_false]
  frame y hy := by
    rw [hcopied.frame y fun hpre => hy ((List.prefix_append T [n]).trans hpre), h.frame y hy]

/-- The directory itself and the one above it need no copy. -/
theorem Partial.dots (h : Partial s v S T done (some .dir))
    (hname : name = ("." : CStr) ∨ name = (".." : CStr)) :
    Partial s v S T (done ++ [name]) (some .dir) where
  top := h.top
  below m rel := by
    have hne : m.val ≠ name := by
      obtain rfl | rfl := hname
      · exact m.property.2.1
      · exact m.property.2.2.1
    rw [h.below m rel]
    simp only [List.mem_append, List.mem_singleton, hne, or_false]
  frame := h.frame

/-- The destination is made by the first entry and is there for the others. -/
theorem mkdirExisting_run (hfaults : NoFaults env) (hready : Ready env s src dest S P n)
    (h : Partial s v S (P ++ [n]) done (if done = [] then none else some .dir)) :
    ∃ w, mkdirExisting env.calls.toDirCalls dest v = (0, w) ∧
      Partial s w S (P ++ [n]) done (some .dir) := by
  have hlocate := locatePath_within (h.within hready.absent) hready.located
  unfold mkdirExisting
  by_cases hdone : done = []
  · have hnone : v.node (P ++ [n]) = none := by
      rw [h.top, if_pos hdone]
    obtain ⟨hx, hv, hrun⟩ := Env.mkdir_new (hfaults _ _ _) hlocate hnone
    have hmkdir : env.calls.mkdir dest v = _ := hrun
    refine ⟨v.put P n .dir hx hv, ?_, ?_⟩
    · rw [run_bind, hmkdir]
      rfl
    · refine ⟨DirTree.node_put_self, ?_, ?_⟩
      · intro m rel
        rw [DirTree.node_put_of_ne (by simp), h.below m rel]
      · intro y hy
        rw [DirTree.node_put_of_ne (fun heq => hy (heq ▸ List.prefix_refl _)), h.frame y hy]
  · have hdir : v.node (P ++ [n]) = some .dir := by
      rw [h.top, if_neg hdone]
    have hmkdir : env.calls.mkdir dest v = (eexist, v) :=
      Env.mkdir_exists (hfaults _ _ _) hlocate (by rw [hdir]; exact Option.some_ne_none _)
    obtain ⟨l, hl⟩ := resolvePath_of_locate hlocate hdir
    have hstat : env.calls.stat dest v = (.ok .directory, v) :=
      Env.stat_run (hfaults _ _ _) (findPath_eq_ok_iff.mpr ⟨l, hl, hdir⟩)
    refine ⟨v, ?_, ?_⟩
    · rw [run_bind, hmkdir, run_ite, if_neg (show ¬ eexist = 0 from Nat.succ_ne_zero _), run_bind,
        hstat]
      rfl
    · rw [if_neg hdone] at h
      exact h

theorem Fits.dir {x : Loc FileName} {dir : CStr} (h : Fits s x dir) (hx : s.node x = some .dir) :
    dir.length + 3 < libzeMaxPathLen := by
  have hnil := h []
  rw [List.append_nil, pathOf, List.flatMap_nil, List.append_nil] at hnil
  exact (hnil (by rw [hx]; exact Option.some_ne_none _)).2 hx

theorem Fits.entry {x : Loc FileName} {dir : CStr} (h : Fits s x dir)
    (hx : s.node (x ++ [n]) ≠ none) : dir.length + 1 + n.val.length < libzeMaxPathLen := by
  have hlen := (h [n] hx).1
  rw [pathOf, List.flatMap_singleton, List.length_append, List.length_cons] at hlen
  omega

theorem Fits.below {x : Loc FileName} {dir : CStr} (h : Fits s x dir)
    (hnode : ∀ rel, t.node (x ++ n :: rel) = s.node (x ++ n :: rel)) :
    Fits t (x ++ [n]) (dir ++ '/' :: n.val) := by
  intro rel hrel
  rw [List.append_assoc, List.singleton_append, hnode] at hrel ⊢
  rw [← pathOf_cons]
  exact h (n :: rel) hrel

/-- What the copy of an entry that is a directory starts from. -/
theorem Ready.below {m : FileName} (hready : Ready env s src dest S P n)
    (h : Partial s w S (P ++ [n]) done (some .dir)) (hapart : ∀ rel, ¬ P ++ [n] <+: S ++ rel)
    (hm : s.node (S ++ [m]) = some .dir) (hnew : m.val ∉ done) :
    Ready env w (src ++ '/' :: m.val) (dest ++ '/' :: m.val) (S ++ [m]) (P ++ [n]) m := by
  have hwithin := h.within hready.absent
  obtain ⟨l, hsrc, hS⟩ := findPath_eq_ok_iff.mp hready.source
  obtain ⟨k, hdest⟩ := resolvePath_of_locate (locatePath_within hwithin hready.located) h.top
  have hnode : ∀ rel, w.node (S ++ m :: rel) = s.node (S ++ m :: rel) :=
    fun rel => h.frame _ (hapart _)
  constructor
  · exact findPath_name (resolvePath_within hwithin hsrc) (hwithin.eq_of_some hS)
      (hwithin.eq_of_some hm) (fun _ heq => by cases heq)
  · intro rel v hv
    rw [List.append_assoc, List.singleton_append, hnode] at hv
    exact hready.plain (m :: rel) v hv
  · exact locatePath_entry hdest h.top
  · have hbelow := h.below m []
    rw [if_neg hnew] at hbelow
    exact hbelow
  · intro hpre
    obtain heq | hpre := List.prefix_concat_iff.mp hpre
    · have hsame : S = P ++ [n] := (List.append_inj' heq rfl).1
      exact hready.outside (hsame ▸ List.prefix_refl S)
    · exact hready.outside ((List.prefix_append S [m]).trans hpre)
  · exact hready.srcFits.below hnode
  · exact hready.destFits.below hnode

/-- The copy of one entry, given the copy of a directory. -/
theorem copyCb_copies (hfaults : NoFaults env) (hready : Ready env s src dest S P n)
    {copyDir : CStr → CStr → StateM Fs Nat}
    (hdescend : ∀ {v path dest S P n}, Ready env v path dest S P n → src.length < path.length →
      ∃ u, copyDir path dest v = (0, u) ∧ Copied v u S (P ++ [n]))
    (h : Partial s v S (P ++ [n]) done (if done = [] then none else some .dir))
    (hname : name = ("." : CStr) ∨ name = (".." : CStr) ∨ ∃ m ∈ s.names S, name = m.val)
    (hnew : name ∉ done) :
    src.length + 1 + name.length < libzeMaxPathLen ∧ ∃ st u,
      env.calls.stat (src ++ '/' :: name) v = (.ok st, v) ∧
      copyCb env.calls.toDirCalls (libzeUtilCopyFile env.calls) copyDir dest src ('/' :: name) st v
        = (0, u) ∧
      Partial s u S (P ++ [n]) (done ++ [name]) (some .dir) := by
  have hwithin := h.within hready.absent
  obtain ⟨l, hsrc, hS⟩ := findPath_eq_ok_iff.mp hready.source
  have hsrcv := resolvePath_within hwithin hsrc
  have hSv := hwithin.eq_of_some hS
  have hapart := apart hready.absent (by rw [hS]; exact Option.some_ne_none _) hready.outside
  obtain ⟨w, hmkdir, hw⟩ := mkdirExisting_run hfaults hready h
  have hwithinw := hw.within hready.absent
  have hsrcLen := hready.srcFits.dir hS
  have hdestLen := hready.destFits.dir hS
  obtain rfl | rfl | ⟨m, hm, rfl⟩ := hname
  · refine ⟨by simp; omega, .directory, w, ?_, ?_, hw.dots (.inl rfl)⟩
    · exact Env.stat_run (hfaults _ _ _) (findPath_dot hsrcv hSv)
    · rw [copyCb_run (by simp; omega) (by simp; omega) hmkdir]
      rfl
  · refine ⟨by simp; omega, .directory, w, ?_, ?_, hw.dots (.inr rfl)⟩
    · exact Env.stat_run (hfaults _ _ _) (findPath_dots hsrcv hSv)
    · rw [copyCb_run (by simp; omega) (by simp; omega) hmkdir]
      rfl
  · have hne := (s.mem_names S m).mp hm
    have hmsrc := hready.srcFits.entry hne
    have hmdest := hready.destFits.entry hne
    obtain ⟨x, hx⟩ := Option.ne_none_iff_exists'.mp hne
    have hplain : ∀ target, x ≠ .link target := by
      intro target heq
      obtain hdir | ⟨content, hfile⟩ := hready.plain [m] x hx
      · rw [heq] at hdir
        cases hdir
      · rw [heq] at hfile
        cases hfile
    have hstat : env.calls.stat (src ++ '/' :: m.val) v = (.ok (fileMode x), v) :=
      Env.stat_run (hfaults _ _ _) (findPath_name hsrcv hSv (hwithin.eq_of_some hx) hplain)
    obtain rfl | ⟨content, rfl⟩ := hready.plain [m] x hx
    · obtain ⟨u, hrun, hu⟩ := hdescend (hready.below hw hapart hx hnew) (by simp)
      refine ⟨hmsrc, .directory, u, hstat, ?_, hw.step hapart hu⟩
      rw [copyCb_run hmsrc hmdest hmkdir]
      dsimp only
      rw [if_neg (not_or.mpr ⟨m.property.2.1, m.property.2.2.1⟩)]
      exact hrun
    · obtain ⟨k, hdest⟩ := resolvePath_of_locate (locatePath_within hwithinw hready.located) hw.top
      have habsent : w.node (P ++ [n] ++ [m]) = none := by
        have hbelow := hw.below m []
        rw [if_neg hnew] at hbelow
        exact hbelow
      have hxw := hwithinw.eq_of_some hx
      have hfile : findPath env.cwd w (src ++ '/' :: m.val) = .ok (S ++ [m], .file content) :=
        findPath_name (resolvePath_within hwithinw hsrc) (hwithinw.eq_of_some hS) hxw hplain
      obtain ⟨u, hrun, hu⟩ := libzeUtilCopyFile_run hfaults hfile hdest hw.top habsent
      refine ⟨hmsrc, .regular, u, hstat, ?_, hw.step hapart (hu.copied hxw)⟩
      rw [copyCb_run hmsrc hmdest hmkdir]
      exact hrun

theorem traverseEntries_copies (hfaults : NoFaults env) (hready : Ready env s src dest S P n)
    {copyDir : CStr → CStr → StateM Fs Nat}
    (hdescend : ∀ {v path dest S P n}, Ready env v path dest S P n → src.length < path.length →
      ∃ u, copyDir path dest v = (0, u) ∧ Copied v u S (P ++ [n]))
    (h : Partial s v S (P ++ [n]) done (if done = [] then none else some .dir))
    (hnames : ∀ name ∈ rest,
      name = ("." : CStr) ∨ name = (".." : CStr) ∨ ∃ m ∈ s.names S, name = m.val)
    (hnodup : (done ++ rest).Nodup) :
    ∃ u, traverseEntries env.calls.toDirCalls
        (copyCb env.calls.toDirCalls (libzeUtilCopyFile env.calls) copyDir dest) src rest v
        = (0, u) ∧
      Partial s u S (P ++ [n]) (done ++ rest) (if done ++ rest = [] then none else some .dir) := by
  induction rest generalizing done v with
  | nil =>
    rw [List.append_nil]
    exact ⟨v, rfl, h⟩
  | cons name rest ih =>
    have hnew : name ∉ done := fun hmem =>
      List.disjoint_of_nodup_append hnodup hmem List.mem_cons_self
    obtain ⟨hfit, st, u, hstat, hcb, hu⟩ :=
      copyCb_copies hfaults hready hdescend h (hnames name List.mem_cons_self) hnew
    have hsplit : done ++ name :: rest = done ++ [name] ++ rest := by
      rw [List.append_assoc, List.singleton_append]
    rw [hsplit] at hnodup ⊢
    have hstep : Partial s u S (P ++ [n]) (done ++ [name])
        (if done ++ [name] = [] then none else some .dir) := by
      rw [if_neg (by simp)]
      exact hu
    obtain ⟨t, hrun, ht⟩ :=
      ih hstep (fun m hm => hnames m (List.mem_cons_of_mem _ hm)) hnodup
    refine ⟨t, ?_, ht⟩
    rw [traverseEntries_cons, if_pos hfit, run_bind, hstat]
    dsimp only
    rw [run_bind, hcb, run_ite, if_neg (not_not.mpr rfl)]
    exact hrun

/-- A directory all of whose entries are done is copied. -/
theorem Partial.copied (h : Partial s v S T done (some .dir)) (hS : s.node S = some .dir)
    (hall : ∀ m : FileName, m.val ∈ done ↔ m ∈ s.names S) : Copied s v S T where
  same rel := by
    cases rel with
    | nil =>
      rw [List.append_nil, List.append_nil, h.top, hS]
    | cons m rel =>
      rw [h.below m rel]
      split
      · rfl
      · rename_i hm
        rw [hall m, s.mem_names, not_not] at hm
        by_contra hne
        have hsplit : S ++ m :: rel = S ++ [m] ++ rel := by
          rw [List.append_assoc, List.singleton_append]
        rw [hsplit] at hne
        by_cases hrel : rel = []
        · rw [hrel, List.append_nil] at hne
          exact hne hm.symm
        · exact hne (node_below_absent (by rw [hm]; intro heq; cases heq) hrel).symm
  frame := h.frame

theorem copyTree_copies (hfaults : NoFaults env) {depth : Nat}
    (hready : Ready env s src dest S P n) (hdepth : libzeMaxPathLen ≤ src.length + depth) :
    ∃ t, copyTree env.calls.toDirCalls (libzeUtilCopyFile env.calls) depth src dest s = (0, t) ∧
      Copied s t S (P ++ [n]) := by
  induction depth generalizing s src dest S P n with
  | zero =>
    obtain ⟨l, hsrc, hS⟩ := findPath_eq_ok_iff.mp hready.source
    have hlen := hready.srcFits.dir hS
    omega
  | succ depth ih =>
    obtain ⟨l, hsrc, hS⟩ := findPath_eq_ok_iff.mp hready.source
    have hlen := hready.srcFits.dir hS
    have hopen : env.calls.opendir src s = (0, s) :=
      Env.opendir_run (hfaults _ _ _) hready.source
    have hlist : env.calls.readdir src s = env.order src S s := Env.readdir_eq hsrc
    have hempty : Partial s s S (P ++ [n]) [] (if ([] : List CStr) = [] then none else some .dir) :=
      { top := hready.absent
        below := fun m rel => node_below_absent (by rw [hready.absent]; intro h; cases h)
          (List.cons_ne_nil m rel)
        frame := fun _ _ => rfl }
    have hnames : ∀ name ∈ env.order src S s,
        name = ("." : CStr) ∨ name = (".." : CStr) ∨ ∃ m ∈ s.names S, name = m.val :=
      fun name hname => Env.mem_order.mp hname
    have hnodup : ([] ++ env.order src S s).Nodup := Env.nodup_order
    obtain ⟨u, hrun, hu⟩ := traverseEntries_copies hfaults hready
      (fun hnext hlonger => ih hnext (by omega)) hempty hnames hnodup
    have hne : env.order src S s ≠ [] := List.ne_nil_of_mem (Env.mem_order.mpr (.inl rfl))
    rw [List.nil_append, if_neg hne] at hu
    have hclose : env.calls.closedir src u = (0, u) := Env.closedir_run (hfaults _ _ _)
    refine ⟨u, ?_, hu.copied hS ?_⟩
    · rw [copyTree, recursiveTraverse_run (by omega) hopen (by rw [hlist]; exact hrun), hclose,
        if_neg (fun h => h.1 rfl)]
    · intro m
      rw [Env.mem_order]
      constructor
      · intro h
        obtain heq | heq | ⟨k, hk, heq⟩ := h
        · exact absurd heq m.property.2.1
        · exact absurd heq m.property.2.2.1
        · rwa [Subtype.ext heq]
      · intro h
        exact .inr (.inr ⟨m, h, rfl⟩)

end Directory

/-- A tree of files and directories is copied to a place where nothing is: under the same names
there are the same files, and nothing else has changed. -/
theorem copydir_copies (env : Env) (s : Fs) (src dest : CStr) (S P : Loc FileName) (n : FileName)
    (hfaults : NoFaults env) (hready : Ready env s src dest S P n) :
    (libzeUtilCopydir env.calls src dest s).1 = 0 ∧
      Copied s (libzeUtilCopydir env.calls src dest s).2 S (P ++ [n]) := by
  obtain ⟨t, hrun, ht⟩ := copyTree_copies hfaults hready (Nat.le_add_left libzeMaxPathLen _)
  rw [libzeUtilCopydir, hrun]
  exact ⟨rfl, ht⟩

def nameA : FileName := ⟨"a".toList, by decide⟩
def nameB : FileName := ⟨"b".toList, by decide⟩

/-- A directory with a file. -/
def sampleTree : Fs :=
  (DirTree.empty.put [] nameA .dir rfl rfl).put [nameA] nameF (.file [1, 2, 3]) rfl rfl

theorem sampleTree_below {rel : Loc FileName} (h : sampleTree.node ([nameA] ++ rel) ≠ none) :
    rel = [] ∨ rel = [nameF] := by
  rw [List.singleton_append] at h
  by_contra hne
  obtain ⟨hnil, hfile⟩ := not_or.mp hne
  apply h
  have hplace : nameA :: rel ≠ [nameA] ++ [nameF] := fun heq => hfile (List.cons.inj heq).2
  have htop : nameA :: rel ≠ [] ++ [nameA] := fun heq => hnil (List.cons.inj heq).2
  have hempty : (DirTree.empty : Fs).node (nameA :: rel) = none :=
    DirTree.node_empty (List.cons_ne_nil _ _)
  exact (DirTree.node_put_of_ne hplace).trans ((DirTree.node_put_of_ne htop).trans hempty)

theorem sampleTree_fits {dir : CStr} (hdir : dir.length = 2) : Fits sampleTree [nameA] dir := by
  intro rel h
  obtain rfl | rfl := sampleTree_below h
  · rw [pathOf, List.flatMap_nil, List.append_nil, hdir]
    exact ⟨by decide, fun _ => by decide⟩
  · rw [pathOf, List.flatMap_singleton, List.length_append, hdir]
    exact ⟨by decide, fun _ => by decide⟩

theorem sampleTree_ready : Ready .faultless sampleTree "/a" "/b" [nameA] [] nameB := by
  constructor
  · exact findPath_eq_ok_iff.mpr ⟨maxSymlinks, by rfl, by rfl⟩
  · intro rel v hv
    obtain rfl | rfl := sampleTree_below (by rw [hv]; exact Option.some_ne_none v)
    · exact .inl (Option.some.inj hv).symm
    · exact .inr ⟨[1, 2, 3], (Option.some.inj hv).symm⟩
  · exact locatePath_eq_ok_iff.mpr ⟨by decide, by rfl, by decide, maxSymlinks, by rfl⟩
  · rfl
  · decide
  · exact sampleTree_fits rfl
  · exact sampleTree_fits rfl

theorem copydir_copies_sample :
    (libzeUtilCopydir Env.faultless.calls "/a" "/b" sampleTree).1 = 0 ∧
      Copied sampleTree (libzeUtilCopydir Env.faultless.calls "/a" "/b" sampleTree).2
        [nameA] [nameB] :=
  copydir_copies .faultless sampleTree "/a" "/b" [nameA] [] nameB (fun _ _ _ => rfl)
    sampleTree_ready

end Zectl.Util.CopyTree
