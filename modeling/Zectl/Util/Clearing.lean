import Zectl.Util.RemoveTree

/-!
# Entries that are cleared one after the other

What is left of a tree when entries of a directory have gone in some order, each of them with all
that is below it. A traversal that succeeds has met such an order, and a traversal without
faults that meets one comes through.
-/

namespace Zectl.Util.Clearing

open Zectl.Lib.StateRun Zectl.Lib.FileTree Zectl.Util.CString Zectl.Util.Traverse
open Zectl.Util.FileSystem Zectl.Util.RemoveTree
open Zectl.Util.Files (enoent enametoolong)

/-- What is listed of a directory. -/
def listing (s : Fs) (x : Loc FileName) : List CStr :=
  ("." : CStr) :: (".." : CStr) :: (s.names x).map (·.val)

/-- The directory at `path` is at `g`: its entries that have been gone through, in this order,
and what is left of the tree. -/
inductive Cleared (cwd : Loc FileName) : CStr → Loc FileName → Fs → List CStr → Fs → Prop
  | start {path g s} : Cleared cwd path g s [] s
  /-- `.` and `..`, and what is no file and no directory, stay. -/
  | stays {path g s done t name x v} (h : Cleared cwd path g s done t)
      (hfit : path.length + 1 + name.length < libzeMaxPathLen)
      (hfind : findPath cwd t (path ++ '/' :: name) = .ok (x, v))
      (hstays : (name = ("." : CStr) ∨ name = (".." : CStr)) ∧ v = .dir ∨ fileMode v = .other) :
      Cleared cwd path g s (done ++ [name]) t
  /-- A file, or a link to one. -/
  | file {path g s done t n x content} (h : Cleared cwd path g s done t)
      (hfit : path.length + 1 + n.val.length < libzeMaxPathLen)
      (hfind : findPath cwd t (path ++ '/' :: n.val) = .ok (x, .file content))
      (hleaf : t.names (g ++ [n]) = []) :
      Cleared cwd path g s (done ++ [n.val]) (t.unlink g n hleaf)
  /-- A directory that is empty once its entries are cleared. -/
  | dir {path g s done t n order u} (h : Cleared cwd path g s done t)
      (hfit : path.length + 1 + n.val.length < libzeMaxPathLen)
      (horder : order.Perm (listing t (g ++ [n])))
      (hbelow : Cleared cwd (path ++ '/' :: n.val) (g ++ [n]) t order u)
      (hfind : findPath cwd u (path ++ '/' :: n.val) = .ok (g ++ [n], .dir))
      (hleaf : u.names (g ++ [n]) = []) :
      Cleared cwd path g s (done ++ [n.val]) (u.unlink g n hleaf)

section Facts
variable {cwd : Loc FileName} {path name : CStr} {g y : Loc FileName} {s t u : Fs}
  {done order order' : List CStr} {n : FileName}

theorem mem_listing : name ∈ listing s g ↔
    name = ("." : CStr) ∨ name = (".." : CStr) ∨ ∃ m ∈ s.names g, name = m.val := by
  rw [listing, List.mem_cons, List.mem_cons, List.mem_map]
  simp only [eq_comm]

theorem Cleared.within (h : Cleared cwd path g s done t) : Within t.node s.node := by
  induction h with
  | start => exact .refl _
  | stays _ _ _ _ ih => exact ih
  | file _ _ _ _ ih => exact DirTree.unlink_within.trans ih
  | dir _ _ _ _ _ _ ih ihbelow => exact DirTree.unlink_within.trans (ihbelow.trans ih)

/-- Only what is below the directory changes. -/
theorem Cleared.outside (h : Cleared cwd path g s done t) :
    (∀ y, (g <+: y → y = g) → t.node y = s.node y) ∧
      ∀ y, ¬ g <+: y → t.names y = s.names y := by
  induction h with
  | start => exact ⟨fun _ _ => rfl, fun _ _ => rfl⟩
  | stays _ _ _ _ ih => exact ih
  | @file path g s done t n x content _ _ _ hleaf ih =>
    refine ⟨fun y hy => ?_, fun y hy => ?_⟩
    · have hne : y ≠ g ++ [n] := by
        intro heq
        have hself := hy (heq ▸ List.prefix_append g [n])
        rw [heq] at hself
        simp at hself
      exact (DirTree.node_unlink_of_ne hne).trans (ih.1 y hy)
    · have hne : y ≠ g := fun heq => hy (heq ▸ List.prefix_refl g)
      exact (if_neg hne).trans (ih.2 y hy)
  | @dir path g s done t n order u _ _ _ _ _ hleaf ih ihbelow =>
    have hpre : ∀ {y}, g ++ [n] <+: y → g <+: y := (List.prefix_append g [n]).trans
    refine ⟨fun y hy => ?_, fun y hy => ?_⟩
    · have hne : ¬ g ++ [n] <+: y := by
        intro hbelow
        rw [hy (hpre hbelow)] at hbelow
        have hlen := hbelow.length_le
        rw [List.length_append, List.length_singleton] at hlen
        omega
      have hself : y ≠ g ++ [n] := fun heq => hne (heq ▸ List.prefix_refl _)
      rw [DirTree.node_unlink_of_ne hself, ihbelow.1 y fun h => absurd h hne]
      exact ih.1 y hy
    · have hne : y ≠ g := fun heq => hy (heq ▸ List.prefix_refl g)
      rw [show (u.unlink g n hleaf).names y = u.names y from if_neg hne,
        ihbelow.2 y fun h => hy (hpre h)]
      exact ih.2 y hy

theorem fs_eq {a b : Fs} (hnode : a.node = b.node) (hnames : a.names = b.names) : a = b := by
  cases a
  cases b
  cases hnode
  cases hnames
  rfl

/-- What is left of a directory that is emptied does not depend on the order. -/
theorem Cleared.unique (h : Cleared cwd path g s order t) (h' : Cleared cwd path g s order' u)
    (ht : t.names g = []) (hu : u.names g = []) : t = u := by
  have hgone : ∀ {w : Fs}, w.names g = [] → ∀ y, g <+: y → y ≠ g → w.node y = none := by
    intro w hw y hy hne
    obtain ⟨m, rfl⟩ := hy
    by_contra hsome
    refine w.names_ne_nil ?_ hsome hw
    intro hnil
    rw [hnil, List.append_nil] at hne
    exact hne rfl
  have hnode : t.node = u.node := by
    funext y
    by_cases hy : g <+: y → y = g
    · rw [h.outside.1 y hy, h'.outside.1 y hy]
    · obtain ⟨hpre, hne⟩ := Classical.not_imp.mp hy
      rw [hgone ht y hpre hne, hgone hu y hpre hne]
  refine fs_eq hnode (funext fun y => ?_)
  by_cases hpre : g <+: y
  · by_cases hself : y = g
    · rw [hself, ht, hu]
    · rw [t.names_eq_nil, u.names_eq_nil]
      · rw [hgone hu y hpre hself]
        exact fun heq => Option.some_ne_none _ heq.symm
      · rw [hgone ht y hpre hself]
        exact fun heq => Option.some_ne_none _ heq.symm
  · rw [h.outside.2 y hpre, h'.outside.2 y hpre]

/-- It does not matter when `.` is met. -/
theorem Cleared.filter_dot (h : Cleared cwd path g s done t) :
    Cleared cwd path g s (done.filter (· != ("." : CStr))) t := by
  have hname : ∀ (n : FileName) (done : List CStr), (done ++ [n.val]).filter (· != ("." : CStr)) =
      done.filter (· != ("." : CStr)) ++ [n.val] := by
    intro n done
    rw [List.filter_append, List.filter_cons_of_pos (by simpa using n.property.2.1),
      List.filter_nil]
  induction h with
  | start => exact .start
  | @stays path g s done t name x v _ hfit hfind hstays ih =>
    rw [List.filter_append]
    by_cases hdot : name = ("." : CStr)
    · rw [List.filter_cons_of_neg (by simpa using hdot), List.filter_nil, List.append_nil]
      exact ih
    · rw [List.filter_cons_of_pos (by simpa using hdot), List.filter_nil]
      exact .stays ih hfit hfind hstays
  | file _ hfit hfind hleaf ih =>
    rw [hname]
    exact .file ih hfit hfind hleaf
  | dir _ hfit horder hbelow hfind hleaf ih _ =>
    rw [hname]
    exact .dir ih hfit horder hbelow hfind hleaf

end Facts

/-! ## A removal that succeeds -/

section Succeeds
variable {env : Env} {path name : CStr} {g : Loc FileName} {s t u : Fs} {done : List CStr}
  {st : FileMode} {depth : Nat}

/-- A callback that succeeds has cleared its entry. -/
theorem Cleared.step {descend : CStr → StateM Fs Nat} (h : Cleared env.cwd path g s done t)
    (hwithin : ∀ q w, Within (descend q w).2.node w.node)
    (hdescend : ∀ q x w u, findPath env.cwd w q = .ok (x, .dir) → descend q w = (0, u) →
      ∃ order, order.Perm (listing w x) ∧ Cleared env.cwd q x w order u)
    (hfind : findPath env.cwd s path = .ok (g, .dir)) (hname : name ∈ listing s g)
    (hfit : path.length + 1 + name.length < libzeMaxPathLen)
    (hstat : (env.stat (path ++ '/' :: name) t).1 = .ok st)
    (hrun : rmdirCb env.calls.toDirCalls descend path ('/' :: name) st t = (0, u)) :
    Cleared env.cwd path g s (done ++ [name]) u := by
  obtain ⟨x, v, hentry, rfl⟩ := stat_ok hstat
  rw [rmdirCb_eq hfit] at hrun
  by_cases hself : name = ("." : CStr) ∨ name = (".." : CStr)
  · obtain rfl := dir_of_dots (findPath_ne_nil hfind) hself hentry
    have hrun' : ((if name = ("." : CStr) ∨ name = (".." : CStr) then pure 0 else _ :
      StateM Fs Nat) t) = (0, u) := hrun
    rw [if_pos hself] at hrun'
    cases hrun'
    exact .stays h hfit hentry (.inl ⟨hself, rfl⟩)
  · obtain ⟨n, -, rfl⟩ : ∃ m ∈ s.names g, name = m.val := by
      obtain hname | hname | hname := mem_listing.mp hname
      · exact absurd (.inl hname) hself
      · exact absurd (.inr hname) hself
      · exact hname
    cases v with
    | link _ | special =>
      cases hrun
      exact .stays h hfit hentry (.inr rfl)
    | file content =>
      have hremoval : Removal _ env.cwd t _ (env.remove (path ++ '/' :: n.val) t) := remove_removal
      have hrun' : env.remove (path ++ '/' :: n.val) t = (0, u) := hrun
      rw [hrun'] at hremoval
      obtain ⟨hcode, -⟩ | ⟨w, hleaf, -, -, heq, -⟩ := hremoval.entry hfind h.within
      · exact absurd rfl hcode
      · cases heq
        exact .file h hfit hentry hleaf
    | dir =>
      have hrun' : ((if n.val = ("." : CStr) ∨ n.val = (".." : CStr) then pure 0
        else descend (path ++ '/' :: n.val) >>= fun ret =>
          if ret ≠ 0 then pure ret else env.rmdir (path ++ '/' :: n.val)) : StateM Fs Nat) t =
          (0, u) := hrun
      rw [if_neg hself] at hrun'
      cases hdown : descend (path ++ '/' :: n.val) t with
      | mk ret w =>
        rw [run_guard hdown] at hrun'
        split at hrun'
        · rename_i hret
          cases hrun'
          exact absurd rfl hret
        · rename_i hret
          rw [not_not.mp hret] at hdown
          have hw : Within w.node t.node := by
            have hall := hwithin (path ++ '/' :: n.val) t
            rw [hdown] at hall
            exact hall
          have hremoval : Removal _ env.cwd w _ (env.rmdir (path ++ '/' :: n.val) w) :=
            rmdir_removal
          rw [hrun'] at hremoval
          obtain ⟨hcode, -⟩ | ⟨v, hleaf, hv, rfl, heq, l, hl⟩ :=
            hremoval.entry hfind (hw.trans h.within)
          · exact absurd rfl hcode
          · have hg : w.node g = some .dir := w.closed g n (by rw [hv]; exact Option.some_ne_none _)
            have hfound := findPath_name hl hg hv fun _ heq => by cases heq
            have hplace := findPath_within hw hfound
            rw [hentry] at hplace
            cases hplace
            obtain ⟨order, horder, hbelow⟩ := hdescend _ _ _ _ hentry hdown
            cases heq
            exact .dir h hfit horder hbelow hfound hleaf

/-- A removal that succeeds has cleared the directory. -/
theorem removeTree_cleared (hpath : findPath env.cwd s path = .ok (g, .dir))
    (hrun : removeTree env.calls.toDirCalls depth path s = (0, u)) :
    ∃ order, order.Perm (listing s g) ∧ Cleared env.cwd path g s order u := by
  induction depth generalizing path g s u with
  | zero => cases hrun
  | succ depth ih =>
    have htraversed := @removeTree_traversed env s path depth
    rw [hrun] at htraversed
    cases htraversed with
    | unread hcode _ => exact absurd rfl hcode
    | read hfit hfind hstate hzero _ =>
      rw [hpath] at hfind
      cases hfind
      have hcb : ∀ done name post st t v, done ++ name :: post = env.order path g s →
          path.length + 1 + name.length < libzeMaxPathLen → Cleared env.cwd path g s done t →
          (env.stat (path ++ '/' :: name) t).1 = .ok st →
          rmdirCb env.calls.toDirCalls (removeTree env.calls.toDirCalls depth) path
            ('/' :: name) st t = (0, v) → Cleared env.cwd path g s (done ++ [name]) v := by
        intro done name post st t v hsplit hfit hcleared hstat hcb
        have hmem : name ∈ env.order path g s := by
          rw [← hsplit]
          exact List.mem_append_right _ List.mem_cons_self
        have hname : name ∈ listing s g := (env.order_perm path g s).mem_iff.mp hmem
        exact hcleared.step (fun _ _ => removeTree_within) (fun _ _ _ _ => ih) hpath hname hfit
          hstat hcb
      obtain ⟨-, hdone⟩ := traverseEntries_done (fun done t => Cleared env.cwd path g s done t)
        (fun _ => False) ⟨id, id, id⟩ (fun _ _ _ _ _ _ _ _ _ => id) hcb
        (List.nil_append (env.order path g s)) .start
      have hall := hdone (hzero rfl)
      rw [← hstate] at hall
      exact ⟨env.order path g s, env.order_perm path g s, hall⟩

end Succeeds

/-! ## A removal without faults -/

section Runs
variable {env : Env} {path name top : CStr} {x g : Loc FileName} {n : FileName} {s t u : Fs}
  {done rest order : List CStr} {st : FileMode} {v : FsNode} {refused : Nat}

theorem removeDir_run (hleaf : s.names (x ++ [n]) = []) :
    removeDir x n s = (0, s.unlink x n hleaf) := dif_pos hleaf

theorem getLast_entry : (path ++ '/' :: n.val).getLast? ≠ some '/' := by
  rw [List.getLast?_append_of_ne_nil _ (List.cons_ne_nil _ _), List.getLast?_cons,
    List.getLast?_eq_some_getLast n.property.1]
  intro heq
  apply n.property.2.2.2
  rw [← Option.some.inj heq]
  exact List.getLast_mem n.property.1

theorem remove_run (hfault : env.fault .remove path s = 0)
    (hlocate : locatePath env.cwd s path = .ok (x, some (.name n)))
    (hnode : s.node (x ++ [n]) ≠ none) (hleaf : s.names (x ++ [n]) = [])
    (hslash : path.getLast? ≠ some '/') : env.remove path s = (0, s.unlink x n hleaf) := by
  obtain ⟨v, hv⟩ := Option.ne_none_iff_exists'.mp hnode
  unfold Env.remove
  rw [Env.faulty_run hfault, hlocate]
  dsimp only [withName]
  rw [hv]
  cases v with
  | dir => exact removeDir_run hleaf
  | file _ | link _ | special =>
    dsimp only
    rw [if_neg hslash]
    exact removeDir_run hleaf

theorem rmdir_run (hfault : env.fault .rmdir path s = 0)
    (hlocate : locatePath env.cwd s path = .ok (x, some (.name n)))
    (hnode : s.node (x ++ [n]) = some .dir) (hleaf : s.names (x ++ [n]) = []) :
    env.rmdir path s = (0, s.unlink x n hleaf) := by
  unfold Env.rmdir
  rw [Env.faulty_run hfault, hlocate]
  dsimp only [withName]
  rw [hnode]
  exact removeDir_run hleaf

/-- An entry that is found is where it is located. -/
theorem locatePath_of_find (hfind : findPath env.cwd s path = .ok (g, .dir))
    (hwithin : Within t.node s.node)
    (hentry : findPath env.cwd t (path ++ '/' :: n.val) = .ok (x, v)) :
    locatePath env.cwd t (path ++ '/' :: n.val) = .ok (g, some (.name n)) ∧
      t.node (g ++ [n]) ≠ none := by
  obtain ⟨l, hl, -⟩ := findPath_eq_ok_iff.mp hentry
  obtain ⟨y, k, hy, hydir, hwalk⟩ :=
    resolvePath_parent (findPath_ne_nil hfind) n.property.2.2.2 hl
  obtain rfl := resolvePath_same hwithin hfind hy
  refine ⟨locatePath_entry hy hydir, fun hnone => ?_⟩
  rw [component_val, walk_absent hydir hnone] at hwalk
  cases hwalk

theorem traverseEntries_step {cb : TraverseCb Fs} (hfault : env.fault .stat (path ++ '/' :: name) t = 0)
    (hfit : path.length + 1 + name.length < libzeMaxPathLen)
    (hfind : findPath env.cwd t (path ++ '/' :: name) = .ok (x, v))
    (hcb : cb path ('/' :: name) (fileMode v) t = (0, u)) :
    traverseEntries env.calls.toDirCalls cb path (name :: rest) t =
      traverseEntries env.calls.toDirCalls cb path rest u := by
  have hstat : env.calls.stat (path ++ '/' :: name) t = (.ok (fileMode v), t) :=
    Env.stat_run hfault hfind
  rw [traverseEntries_cons, if_pos hfit, run_bind, hstat]
  dsimp only
  rw [run_bind, hcb, run_ite, if_neg (not_not.mpr rfl)]

/-- No call fails, and a directory that can be cleared is read in an order that clears it. -/
structure Orderly (env : Env) (top : CStr) : Prop where
  faultless : ∀ op q w, env.fault op q w = 0
  picks : ∀ q x w order u, q ≠ top → order.Perm (listing w x) →
    Cleared env.cwd q x w order u → u.names x = [] →
    ∃ u', Cleared env.cwd q x w (env.order q x w) u' ∧ u'.names x = []

/-- An order for the directory at the top, and for those below one that clears them. -/
theorem exists_orderly (cwd : Loc FileName) (horder : order.Perm (listing s g)) (top : CStr)
    (refused : Nat) : ∃ env : Env, env.cwd = cwd ∧ (∀ q w, env.refusal q w = refused) ∧
      Orderly env top ∧ env.order top g s = order := by
  classical
  let clears : CStr → Loc FileName → Fs → List CStr → Prop := fun q x w order =>
    order.Perm (listing w x) ∧ ∃ u, Cleared cwd q x w order u ∧ u.names x = []
  let pick : CStr → Loc FileName → Fs → List CStr := fun q x w =>
    if q = top then if x = g ∧ w = s then order else listing w x
    else if h : ∃ order, clears q x w order then h.choose else listing w x
  have hpick : ∀ q x w, (pick q x w).Perm (listing w x) := by
    intro q x w
    show (if q = top then _ else _ : List CStr).Perm _
    split
    · split
      · rename_i heq
        rw [heq.1, heq.2]
        exact horder
      · exact .refl _
    · split
      · rename_i h
        exact h.choose_spec.1
      · exact .refl _
  let env : Env :=
    { cwd := cwd
      order := pick
      refusal := fun _ _ => refused
      fault := fun _ _ _ => 0
      order_perm := hpick
      fault_ne := fun _ _ _ => by decide }
  refine ⟨env, rfl, fun _ _ => rfl, ⟨fun _ _ _ => rfl, ?_⟩, ?_⟩
  · intro q x w order u hq horder hcleared hempty
    have hexists : ∃ order, clears q x w order := ⟨order, horder, u, hcleared, hempty⟩
    have hchosen : env.order q x w = hexists.choose := (if_neg hq).trans (dif_pos hexists)
    rw [hchosen]
    exact hexists.choose_spec.2
  · exact (if_pos rfl).trans (if_pos ⟨rfl, rfl⟩)

/-- The loop over the entries, where the directories below are cleared. -/
theorem traverseEntries_of_cleared {descend : CStr → StateM Fs Nat}
    (hfault : ∀ op q w, env.fault op q w = 0)
    (hdescend : ∀ q x w order u, path.length < q.length → findPath env.cwd w q = .ok (x, .dir) →
      order.Perm (listing w x) → Cleared env.cwd q x w order u → u.names x = [] →
      descend q w = (0, u))
    (hfind : findPath env.cwd s path = .ok (g, .dir)) (h : Cleared env.cwd path g s done t) :
    traverseEntries env.calls.toDirCalls (rmdirCb env.calls.toDirCalls descend) path
        (done ++ rest) s =
      traverseEntries env.calls.toDirCalls (rmdirCb env.calls.toDirCalls descend) path rest t := by
  generalize hcwd : env.cwd = cwd at h
  induction h generalizing rest with
  | start => rfl
  | @stays path g s done t name x v h hfit hentry hstays ih =>
    rw [List.append_assoc, List.singleton_append, ih hdescend hfind]
    apply traverseEntries_step (hfault _ _ _) hfit (hcwd ▸ hentry)
    rw [rmdirCb_eq hfit]
    obtain ⟨hdots, rfl⟩ | hother := hstays
    · show (if name = _ ∨ name = _ then pure 0 else _ : StateM Fs Nat) t = (0, t)
      rw [if_pos hdots]
      rfl
    · rw [hother]
      rfl
  | @file path g s done t n x content h hfit hentry hleaf ih =>
    subst hcwd
    rw [List.append_assoc, List.singleton_append, ih hdescend hfind]
    obtain ⟨hlocate, hnode⟩ := locatePath_of_find hfind h.within hentry
    apply traverseEntries_step (hfault _ _ _) hfit hentry
    rw [rmdirCb_eq hfit]
    exact remove_run (hfault _ _ _) hlocate hnode hleaf getLast_entry
  | @dir path g s done t n order u h hfit horder hbelow hentry hleaf ih _ =>
    subst hcwd
    rw [List.append_assoc, List.singleton_append, ih hdescend hfind]
    have hdir := findPath_within hbelow.within hentry
    have hnode := (findPath_eq_ok_iff.mp hentry).choose_spec.2
    have hrun := hdescend _ _ _ _ _ (by rw [List.length_append, List.length_cons]; omega) hdir
      horder hbelow hleaf
    obtain ⟨hlocate, -⟩ := locatePath_of_find hfind (hbelow.within.trans h.within) hentry
    apply traverseEntries_step (hfault _ _ _) hfit hdir
    rw [rmdirCb_eq hfit]
    show (if n.val = _ ∨ n.val = _ then pure 0 else _ : StateM Fs Nat) t = (0, u.unlink g n hleaf)
    rw [if_neg (not_or.mpr ⟨n.property.2.1, n.property.2.2.1⟩), run_guard hrun,
      if_neg (not_not.mpr rfl)]
    exact rmdir_run (hfault _ _ _) hlocate hnode hleaf

theorem Cleared.fits {cwd : Loc FileName} (h : Cleared cwd path g s done t) :
    ∀ name ∈ done, path.length + 1 + name.length < libzeMaxPathLen := by
  have hlast : ∀ {path m : CStr} {done : List CStr}, path.length + 1 + m.length < libzeMaxPathLen →
      (∀ name ∈ done, path.length + 1 + name.length < libzeMaxPathLen) →
      ∀ name ∈ done ++ [m], path.length + 1 + name.length < libzeMaxPathLen := by
    intro path m done hm hall name hname
    obtain hname | hname := List.mem_append.mp hname
    · exact hall name hname
    · rw [List.mem_singleton.mp hname]
      exact hm
  induction h with
  | start => exact fun name hname => absurd hname List.not_mem_nil
  | stays _ hfit _ _ ih => exact hlast hfit ih
  | file _ hfit _ _ ih => exact hlast hfit ih
  | dir _ hfit _ _ _ _ ih _ => exact hlast hfit ih

/-- A directory below the top that can be cleared is cleared. -/
theorem removeTree_of_cleared (horderly : Orderly env top) (depth : Nat)
    (hdepth : libzeMaxPathLen ≤ path.length + depth) (htop : top.length < path.length)
    (hfind : findPath env.cwd s path = .ok (g, .dir)) (horder : order.Perm (listing s g))
    (h : Cleared env.cwd path g s order u) (hempty : u.names g = []) :
    removeTree env.calls.toDirCalls depth path s = (0, u) := by
  induction depth generalizing path g s order u with
  | zero =>
    have hdot := h.fits ("." : CStr) (horder.mem_iff.mpr List.mem_cons_self)
    omega
  | succ depth ih =>
    have hdot := h.fits ("." : CStr) (horder.mem_iff.mpr List.mem_cons_self)
    have hne : path ≠ top := by
      intro heq
      rw [heq] at htop
      exact Nat.lt_irrefl _ htop
    obtain ⟨u', hread, hempty'⟩ := horderly.picks path g s order u hne horder h hempty
    obtain rfl := hread.unique h hempty' hempty
    obtain ⟨l, hl, -⟩ := findPath_eq_ok_iff.mp hfind
    have hlist : env.calls.readdir path s = env.order path g s := Env.readdir_eq hl
    have hentries : traverseEntries env.calls.toDirCalls
        (rmdirCb env.calls.toDirCalls (removeTree env.calls.toDirCalls depth)) path
        (env.calls.readdir path s) s = (0, u') := by
      rw [hlist, ← List.append_nil (env.order path g s),
        traverseEntries_of_cleared horderly.faultless _ hfind hread]
      · rfl
      · intro q x w order u hq hfound horder hcleared hnone
        exact ih (by omega) (by omega) hfound horder hcleared hnone
    have hclose : env.calls.closedir path u' = (0, u') := Env.closedir_run (horderly.faultless _ _ _)
    rw [removeTree, recursiveTraverse_run (by omega)
      (Env.opendir_run (horderly.faultless _ _ _) hfind) hentries, hclose]
    rfl

end Runs

end Zectl.Util.Clearing
