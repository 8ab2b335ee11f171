import Zectl.Util.FileSystem

/-!
# What a removal leaves

A removal only takes places away. It follows the links to directories that it meets, so it may
come to places outside of the directory it was given.
-/

namespace Zectl.Util.RemoveTree

open Zectl.Lib.StateRun Zectl.Lib.FileTree Zectl.Util.CString Zectl.Util.Traverse
open Zectl.Util.FileSystem
open Zectl.Util.Files (enoent enametoolong enotdir)

/-! ## The calls of a removal -/

/-- What `remove` and `rmdir` do: nothing, or an entry of a kind goes that has no entries. -/
inductive Removal (kind : FsNode → Prop) (cwd : Loc FileName) (s : Fs) (path : CStr) :
    Nat × Fs → Prop
  | kept {code} (hcode : code ≠ 0) : Removal kind cwd s path (code, s)
  | gone {x n v} (hlocate : locatePath cwd s path = .ok (x, some (.name n)))
      (hnode : s.node (x ++ [n]) = some v) (hv : kind v) (hleaf : s.names (x ++ [n]) = []) :
      Removal kind cwd s path (0, s.unlink x n hleaf)

section Calls
variable {env : Env} {s t u : Fs} {path dir name : CStr} {x d : Loc FileName} {n : FileName}
  {v : FsNode} {op : FileOp} {kind : FsNode → Prop} {l : Nat} {cwd : Loc FileName}

theorem removeDir_removal (hlocate : locatePath env.cwd s path = .ok (x, some (.name n)))
    (hnode : s.node (x ++ [n]) = some v) (hv : kind v) :
    Removal kind env.cwd s path (removeDir x n s) := by
  unfold removeDir
  split
  · exact .gone hlocate hnode hv _
  · exact .kept (Nat.succ_ne_zero _)

/-- A call on the last component of a path, where each of its outcomes is a removal. -/
theorem faulty_removal {act : Fs → Loc FileName → FileName → StateM Fs Nat}
    (hact : ∀ x n, locatePath env.cwd s path = .ok (x, some (.name n)) →
      Removal kind env.cwd s path (act s x n s)) :
    Removal kind env.cwd s path (env.faulty op path (fun s =>
      match locatePath env.cwd s path with
      | .error code => return code
      | .ok (x, last) => withName last (act s x)) s) := by
  by_cases hfault : env.fault op path s = 0
  · rw [Env.faulty_run hfault]
    cases hlocate : locatePath env.cwd s path with
    | error code =>
      exact .kept fun hzero => locatePath_ne (by rw [hlocate, hzero])
    | ok found =>
      obtain ⟨x, last⟩ := found
      cases last with
      | none => exact .kept (Nat.succ_ne_zero _)
      | some c =>
        cases c with
        | here => exact .kept (Nat.succ_ne_zero _)
        | up => exact .kept (Nat.succ_ne_zero _)
        | name n => exact hact x n hlocate
  · rw [Env.faulty_of_fault hfault]
    exact .kept hfault

theorem rmdir_removal : Removal (· = .dir) env.cwd s path (env.rmdir path s) := by
  apply faulty_removal
  intro x n hlocate
  cases hnode : s.node (x ++ [n]) with
  | none => exact .kept (Nat.succ_ne_zero _)
  | some v =>
    cases v with
    | dir => exact removeDir_removal hlocate hnode rfl
    | file _ | link _ | special => exact .kept (Nat.succ_ne_zero _)

theorem remove_removal : Removal (fun _ => True) env.cwd s path (env.remove path s) := by
  apply faulty_removal
  intro x n hlocate
  cases hnode : s.node (x ++ [n]) with
  | none => exact .kept (Nat.succ_ne_zero _)
  | some v =>
    cases v with
    | dir => exact removeDir_removal hlocate hnode trivial
    | file _ | link _ | special =>
      dsimp only
      split
      · exact .kept (Nat.succ_ne_zero _)
      · exact removeDir_removal hlocate hnode trivial

theorem Removal.within {r : Nat × Fs} (h : Removal kind cwd s path r) : Within r.2.node s.node := by
  cases h with
  | kept hcode => exact .refl _
  | gone hlocate hnode hv hleaf =>
    show Within (s.unlink _ _ hleaf).node s.node
    exact DirTree.unlink_within

theorem opendir_ok (h : (env.opendir path s).1 = 0) :
    ∃ x, findPath env.cwd s path = .ok (x, .dir) := by
  unfold Env.opendir at h
  by_cases hfault : env.fault .opendir path s = 0
  · rw [Env.faulty_run hfault] at h
    cases hfind : findPath env.cwd s path with
    | error code =>
      rw [hfind] at h
      exact absurd (hfind.trans (congrArg _ h)) findPath_ne
    | ok found =>
      obtain ⟨x, v⟩ := found
      rw [hfind] at h
      cases v with
      | dir => exact ⟨x, rfl⟩
      | file _ | link _ | special => cases h
  · rw [Env.faulty_of_fault hfault] at h
    exact absurd h hfault

theorem stat_ok {st : FileMode} (h : (env.stat path s).1 = .ok st) :
    ∃ x v, findPath env.cwd s path = .ok (x, v) ∧ fileMode v = st := by
  unfold Env.stat at h
  split at h
  · cases h
  · cases hfind : findPath env.cwd s path with
    | error code =>
      rw [hfind] at h
      cases h
    | ok found =>
      obtain ⟨x, v⟩ := found
      rw [hfind] at h
      exact ⟨x, v, rfl, Except.ok.inj h⟩

theorem findPath_within (hwithin : Within t.node s.node)
    (h : findPath cwd t path = .ok (x, v)) : findPath cwd s path = .ok (x, v) := by
  obtain ⟨l, hx, hv⟩ := findPath_eq_ok_iff.mp h
  exact findPath_eq_ok_iff.mpr ⟨l, resolvePath_within hwithin hx, hwithin.eq_of_some hv⟩

/-- An entry that is found is in a directory that is found. -/
theorem resolvePath_parent {node : Nodes FileName (List UInt8)} (hdir : dir ≠ [])
    (hname : '/' ∉ name) (h : resolvePath cwd node (dir ++ '/' :: name) = .ok (x, l)) :
    ∃ y k, resolvePath cwd node dir = .ok (y, k) ∧ node y = some .dir ∧
      walk node k y [component name] = .ok (x, l) := by
  rw [resolvePath_eq_walk (by simp), pathComps_entry hname, startOf_entry hdir] at h
  obtain ⟨y, k, hy, hx⟩ := walk_split h
  refine ⟨y, k, ?_, dir_of_walk_cons hx, hx⟩
  rw [resolvePath_eq_walk hdir]
  exact hy

theorem closedir_state : (env.closedir path s).2 = s := by
  unfold Env.closedir
  by_cases hfault : env.fault .closedir path s = 0
  · rw [Env.faulty_run hfault]
    rfl
  · rw [Env.faulty_of_fault hfault]

theorem closedir_ne : (env.closedir path s).1 ≠ enoent := by
  unfold Env.closedir
  by_cases hfault : env.fault .closedir path s = 0
  · rw [Env.faulty_run hfault]
    exact (Nat.succ_ne_zero 1).symm
  · rw [Env.faulty_of_fault hfault]
    exact env.fault_ne _ _ _

theorem opendir_ne (hfind : findPath env.cwd s path = .ok (x, .dir)) :
    (env.opendir path s).1 ≠ enoent := by
  by_cases hfault : env.fault .opendir path s = 0
  · rw [Env.opendir_run hfault hfind]
    exact (Nat.succ_ne_zero 1).symm
  · unfold Env.opendir
    rw [Env.faulty_of_fault hfault]
    exact env.fault_ne _ _ _

/-! ## Traversals -/

section Traversal
variable {cb : TraverseCb Fs} {rest : List CStr}

/-- What the callback keeps, the loop over the entries keeps. -/
theorem traverseEntries_keeps (inv : Fs → Prop)
    (hcb : ∀ name ∈ rest, dir.length + 1 + name.length < libzeMaxPathLen → ∀ st t, inv t →
      (env.stat (dir ++ '/' :: name) t).1 = .ok st → inv (cb dir ('/' :: name) st t).2)
    (h : inv t) : inv (traverseEntries env.calls.toDirCalls cb dir rest t).2 := by
  induction rest generalizing t with
  | nil => exact h
  | cons name rest ih =>
    rw [traverseEntries_cons]
    split
    · rename_i hfit
      have hstate : env.calls.stat (dir ++ '/' :: name) t =
          ((env.stat (dir ++ '/' :: name) t).1, t) := Prod.ext rfl Env.stat_state
      rw [run_bind, hstate]
      cases hstat : (env.stat (dir ++ '/' :: name) t).1 with
      | error code => exact h
      | ok st =>
        have hnext := hcb name List.mem_cons_self hfit st t h hstat
        dsimp only
        rw [run_bind, run_ite]
        split
        · exact hnext
        · exact ih (fun m hm => hcb m (List.mem_cons_of_mem _ hm)) hnext
    · exact h

/-- How a traversal ends: it does not start, or it ends as the loop over the entries does. -/
inductive Traversed (env : Env) (cb : TraverseCb Fs) (dir : CStr) (s : Fs) : Nat × Fs → Prop
  | unread {code} (hcode : code ≠ 0)
      (hne : ∀ x, findPath env.cwd s dir = .ok (x, .dir) → code ≠ enoent) :
      Traversed env cb dir s (code, s)
  | read {x r} (hfit : dir.length < libzeMaxPathLen)
      (hfind : findPath env.cwd s dir = .ok (x, .dir))
      (hstate : r.2 = (traverseEntries env.calls.toDirCalls cb dir (env.order dir x s) s).2)
      (hzero : r.1 = 0 → (traverseEntries env.calls.toDirCalls cb dir (env.order dir x s) s).1 = 0)
      (henoent : r.1 = enoent →
        (traverseEntries env.calls.toDirCalls cb dir (env.order dir x s) s).1 = enoent) :
      Traversed env cb dir s r

theorem recursiveTraverse_traversed :
    Traversed env cb dir s (recursiveTraverse env.calls.toDirCalls cb dir s) := by
  by_cases hfit : dir.length < libzeMaxPathLen
  · by_cases hzero : (env.opendir dir s).1 = 0
    · obtain ⟨x, hfind⟩ := opendir_ok hzero
      have hopen : env.calls.opendir dir s = (0, s) := Prod.ext hzero Env.opendir_state
      obtain ⟨l, hl, -⟩ := findPath_eq_ok_iff.mp hfind
      have hlist : env.calls.readdir dir s = env.order dir x s := Env.readdir_eq hl
      obtain ⟨ret, u, hrun⟩ : ∃ ret u,
          traverseEntries env.calls.toDirCalls cb dir (env.order dir x s) s = (ret, u) :=
        ⟨_, _, rfl⟩
      rw [recursiveTraverse_run hfit hopen (by rw [hlist]; exact hrun)]
      apply Traversed.read hfit hfind
      · rw [hrun]
        exact closedir_state
      · rw [hrun]
        intro h
        dsimp only at h
        split at h
        · rename_i hclose
          exact hclose.2
        · exact h
      · rw [hrun]
        intro h
        dsimp only at h
        split at h
        · exact absurd h closedir_ne
        · exact h
    · have hopen : env.calls.opendir dir s = ((env.opendir dir s).1, s) :=
        Prod.ext rfl Env.opendir_state
      rw [recursiveTraverse_refused hfit hopen hzero]
      exact .unread hzero fun x hfind => opendir_ne hfind
  · rw [recursiveTraverse_long (Nat.not_lt.mp hfit)]
    exact .unread (Nat.succ_ne_zero _) fun _ _ => by decide

theorem traverseEntries_fits (h : (traverseEntries env.calls.toDirCalls cb dir rest s).1 = 0) :
    ∀ name ∈ rest, dir.length + 1 + name.length < libzeMaxPathLen := by
  induction rest generalizing s with
  | nil => exact fun name hname => absurd hname List.not_mem_nil
  | cons m rest ih =>
    rw [traverseEntries_cons] at h
    split at h
    · rename_i hfit
      rw [run_bind] at h
      intro name hname
      obtain rfl | hname := List.mem_cons.mp hname
      · exact hfit
      · cases hstat : env.calls.stat (dir ++ '/' :: m) s with
        | mk r t =>
          rw [hstat] at h
          cases r with
          | error code => exact absurd h (stat_error_ne hstat)
          | ok st =>
            dsimp only at h
            rw [run_bind, run_ite] at h
            split at h
            · cases h
            · exact ih h name hname
    · cases h

end Traversal

end Calls

/-! ## The places a removal comes to -/

/-- The directories that are traversed, by their paths: the entries that `stat` says are
directories, while the paths are short enough. -/
inductive Reached (cwd : Loc FileName) (s : Fs) (dir : CStr) : CStr → Loc FileName → Prop
  | root {d} (hfit : dir.length < libzeMaxPathLen) (hfind : findPath cwd s dir = .ok (d, .dir)) :
      Reached cwd s dir dir d
  | step {path g n x} (h : Reached cwd s dir path g) (hn : n ∈ s.names g)
      (hfit : path.length + 1 + n.val.length < libzeMaxPathLen)
      (hfind : findPath cwd s (path ++ '/' :: n.val) = .ok (x, .dir)) :
      Reached cwd s dir (path ++ '/' :: n.val) x

/-- An entry that is removed when it is met: a file or a link to one, or an empty directory. -/
def Removable (cwd : Loc FileName) (s : Fs) (path : CStr) (g : Loc FileName) (n : FileName) :
    Prop :=
  (∃ x content, findPath cwd s (path ++ '/' :: n.val) = .ok (x, .file content)) ∨
    (s.node (g ++ [n]) = some .dir ∧ s.names (g ++ [n]) = [] ∧
      path.length + 1 + n.val.length + 3 < libzeMaxPathLen)

/-- All that is met and can be removed is in the directory. -/
def Contained (cwd : Loc FileName) (s : Fs) (dir : CStr) (d : Loc FileName) : Prop :=
  ∀ path g n, Reached cwd s dir path g → n ∈ s.names g →
    path.length + 1 + n.val.length < libzeMaxPathLen → Removable cwd s path g n → d <+: g ++ [n]

/-- Some of what is in the directory is gone, and nothing else. -/
structure Kept (s t : Fs) (d : Loc FileName) : Prop where
  within : Within t.node s.node
  outside : ∀ y, ¬ d <+: y → t.node y = s.node y
  present : t.node d = some .dir

section Frame
variable {env : Env} {cwd : Loc FileName} {s t u : Fs} {dir path name : CStr}
  {d g x : Loc FileName} {n : FileName} {v : FsNode} {depth : Nat} {st : FileMode}

theorem Reached.find (h : Reached cwd s dir path g) : findPath cwd s path = .ok (g, .dir) := by
  cases h with
  | root _ hfind => exact hfind
  | step _ _ _ hfind => exact hfind

theorem Reached.exists_names (h : Reached cwd s dir path g) : ∃ ns, path = pathOf dir ns := by
  induction h with
  | root _ _ => exact ⟨[], (List.append_nil dir).symm⟩
  | step _ _ _ _ ih =>
    obtain ⟨ns, rfl⟩ := ih
    exact ⟨_, (pathOf_concat dir ns _).symm⟩

/-- Where a path still leads somewhere, it leads where it did. -/
theorem resolvePath_same {l : Nat} (hwithin : Within t.node s.node)
    (h : findPath cwd s path = .ok (g, v)) (hx : resolvePath cwd t.node path = .ok (x, l)) :
    x = g := by
  obtain ⟨k, hk, -⟩ := findPath_eq_ok_iff.mp h
  have hx' := resolvePath_within hwithin hx
  rw [hk] at hx'
  cases hx'
  rfl

theorem findPath_ne_nil (h : findPath cwd s path = .ok (g, v)) : path ≠ [] := by
  obtain ⟨l, hl, -⟩ := findPath_eq_ok_iff.mp h
  exact resolvePath_ne_nil hl

/-- What a removal does to an entry of a directory that was found. -/
theorem Removal.entry {kind : FsNode → Prop} {r : Nat × Fs}
    (hr : Removal kind cwd t (path ++ '/' :: n.val) r)
    (hfind : findPath cwd s path = .ok (g, .dir)) (hwithin : Within t.node s.node) :
    (r.1 ≠ 0 ∧ r.2 = t) ∨ ∃ v, ∃ hleaf : t.names (g ++ [n]) = [],
      t.node (g ++ [n]) = some v ∧ kind v ∧ r = (0, t.unlink g n hleaf) ∧
      ∃ l, resolvePath cwd t.node path = .ok (g, l) := by
  cases hr with
  | kept hcode => exact .inl ⟨hcode, rfl⟩
  | gone hlocate hnode hv hleaf =>
    obtain ⟨hlast, -, l, hl⟩ := locatePath_entry_ok (findPath_ne_nil hfind) hlocate
    obtain rfl := resolvePath_same hwithin hfind hl
    obtain rfl : _ = n := Comp.name.inj (Option.some.inj hlast)
    exact .inr ⟨_, hleaf, hnode, hv, rfl, l, hl⟩

theorem dir_of_dots (hdir : dir ≠ []) (hname : name = ("." : CStr) ∨ name = (".." : CStr))
    (h : findPath cwd s (dir ++ '/' :: name) = .ok (x, v)) : v = .dir := by
  obtain ⟨l, hl, hv⟩ := findPath_eq_ok_iff.mp h
  have hslash : '/' ∉ name := by
    obtain rfl | rfl := hname <;> decide
  obtain ⟨y, k, hy, hdir', -⟩ := resolvePath_parent hdir hslash hl
  obtain rfl | rfl := hname
  · have hdot := findPath_dot hy hdir'
    rw [h] at hdot
    cases hdot
    rfl
  · have hdots := findPath_dots hy hdir'
    rw [h] at hdots
    cases hdots
    rfl

/-- The directory itself cannot be emptied on the way: a path that comes to it again leads
through a link in it. -/
theorem Reached.ne_self (h : Reached cwd s dir path g) (hd : findPath cwd s dir = .ok (d, .dir))
    (hwithin : Within t.node s.node) (hpath : ∃ l, resolvePath cwd t.node path = .ok (g, l))
    (hleaf : t.names (g ++ [n]) = []) : g ++ [n] ≠ d := by
  intro heq
  obtain ⟨l, hl⟩ := hpath
  obtain ⟨ns, rfl⟩ := h.exists_names
  have hdir := findPath_ne_nil hd
  have hstart : startOf cwd (pathOf dir ns) = startOf cwd dir := by
    obtain ⟨c, dir, rfl⟩ := List.exists_cons_of_ne_nil hdir
    rfl
  rw [resolvePath_eq_walk (findPath_ne_nil h.find), pathComps_pathOf, hstart] at hl
  obtain ⟨y, k, hy, hg⟩ := walk_split hl
  have hyd : y = d := resolvePath_same hwithin hd (by rw [resolvePath_eq_walk hdir]; exact hy)
  rw [hyd] at hg
  obtain hstraight | ⟨m, target, hm, -, hlink⟩ := walk_names hg
  · have hlen := congrArg List.length heq
    rw [hstraight, List.length_append, List.length_append, List.length_singleton] at hlen
    omega
  · rw [← heq] at hlink
    exact t.names_ne_nil hm (by rw [hlink]; exact Option.some_ne_none _) hleaf

/-- An entry that was removable may go. -/
theorem Kept.unlink (h : Kept s t d) (hne : g ++ [n] ≠ d) (hinside : d <+: g ++ [n])
    (hleaf : t.names (g ++ [n]) = []) : Kept s (t.unlink g n hleaf) d where
  within := DirTree.unlink_within.trans h.within
  outside y hy := by
    have hyn : y ≠ g ++ [n] := by
      intro heq
      rw [heq] at hy
      exact hy hinside
    rw [DirTree.node_unlink_of_ne hyn]
    exact h.outside y hy
  present := by
    rw [DirTree.node_unlink_of_ne hne.symm]
    exact h.present

/-- A directory outside that is empty now was empty before. -/
theorem Kept.names_nil (h : Kept s t d) (houtside : ¬ d <+: x) (hleaf : t.names x = []) :
    s.names x = [] := by
  rw [List.eq_nil_iff_forall_not_mem]
  intro m hm
  have hsome := (s.mem_names x m).mp hm
  have hmissing : t.node (x ++ [m]) = none := by
    by_contra hne
    have hmem := (t.mem_names x m).mpr hne
    rw [hleaf] at hmem
    cases hmem
  by_cases hd : d <+: x ++ [m]
  · obtain heq | hpre := List.prefix_concat_iff.mp hd
    · rw [← heq, h.present] at hmissing
      cases hmissing
    · exact houtside hpre
  · rw [h.outside _ hd] at hmissing
    exact hsome hmissing

/-- What the callback does with an entry of a directory that was reached. -/
theorem rmdirCb_kept {descend : CStr → StateM Fs Nat} (hcontained : Contained env.cwd s dir d)
    (hd : findPath env.cwd s dir = .ok (d, .dir)) (hreached : Reached env.cwd s dir path g)
    (hdescend : ∀ {path g t}, Reached env.cwd s dir path g → Kept s t d →
      Kept s (descend path t).2 d)
    (hdots : ∀ path t, (descend path t).1 = 0 → path.length + 3 < libzeMaxPathLen)
    (hname : name = ("." : CStr) ∨ name = (".." : CStr) ∨ ∃ m ∈ s.names g, name = m.val)
    (hfit : path.length + 1 + name.length < libzeMaxPathLen) (h : Kept s t d)
    (hstat : (env.stat (path ++ '/' :: name) t).1 = .ok st) :
    Kept s (rmdirCb env.calls.toDirCalls descend path ('/' :: name) st t).2 d := by
  obtain ⟨x, v, hfind, rfl⟩ := stat_ok hstat
  rw [rmdirCb_eq hfit]
  obtain ⟨l, hl, hv⟩ := findPath_eq_ok_iff.mp hfind
  by_cases hself : name = ("." : CStr) ∨ name = (".." : CStr)
  · have hdir := dir_of_dots (findPath_ne_nil hreached.find) hself hfind
    rw [hdir]
    show Kept s ((if name = _ ∨ name = _ then pure 0 else _ : StateM Fs Nat) t).2 d
    rw [if_pos hself]
    exact h
  · obtain ⟨m, hm, rfl⟩ : ∃ m ∈ s.names g, name = m.val := by
      obtain hname | hname | hname := hname
      · exact absurd (.inl hname) hself
      · exact absurd (.inr hname) hself
      · exact hname
    have hsfind := findPath_within h.within hfind
    cases v with
    | link _ | special => exact h
    | file content =>
      have hremoval : Removal _ env.cwd t _ (env.remove (path ++ '/' :: m.val) t) := remove_removal
      show Kept s (env.remove (path ++ '/' :: m.val) t).2 d
      obtain ⟨-, heq⟩ | ⟨w, hleaf, -, -, heq, hpath⟩ := hremoval.entry hreached.find h.within
      · rw [heq]
        exact h
      · rw [heq]
        have hinside := hcontained _ _ _ hreached hm hfit (.inl ⟨x, content, hsfind⟩)
        exact h.unlink (hreached.ne_self hd h.within hpath hleaf) hinside hleaf
    | dir =>
      show Kept s ((if m.val = _ ∨ m.val = _ then pure 0 else _ : StateM Fs Nat) t).2 d
      rw [if_neg hself]
      have hnext := hdescend (.step hreached hm hfit hsfind) h
      cases hrun : descend (path ++ '/' :: m.val) t with
      | mk ret u =>
        rw [hrun] at hnext
        rw [run_guard hrun]
        split
        · exact hnext
        · rename_i hret
          have hremoval : Removal _ env.cwd u _ (env.rmdir (path ++ '/' :: m.val) u) :=
            rmdir_removal
          show Kept s (env.rmdir (path ++ '/' :: m.val) u).2 d
          obtain ⟨-, heq⟩ | ⟨w, hleaf, hw, rfl, heq, hpath⟩ :=
            hremoval.entry hreached.find hnext.within
          · rw [heq]
            exact hnext
          · rw [heq]
            have hfits := hdots _ _ (by rw [hrun]; exact not_not.mp hret)
            rw [List.length_append, List.length_cons] at hfits
            have hinside : d <+: g ++ [m] := by
              by_contra houtside
              apply houtside
              apply hcontained _ _ _ hreached hm hfit
              exact .inr ⟨hnext.within.eq_of_some hw, hnext.names_nil houtside hleaf, by omega⟩
            exact hnext.unlink (hreached.ne_self hd hnext.within hpath hleaf) hinside hleaf

theorem removeTree_traversed : Traversed env
    (rmdirCb env.calls.toDirCalls (removeTree env.calls.toDirCalls depth)) path t
    (removeTree env.calls.toDirCalls (depth + 1) path t) := recursiveTraverse_traversed

/-- A directory whose removal succeeds was read to the end. -/
theorem removeTree_fits (h : (removeTree env.calls.toDirCalls depth path t).1 = 0) :
    path.length + 3 < libzeMaxPathLen := by
  cases depth with
  | zero => cases h
  | succ depth =>
    have htraversed := @removeTree_traversed env t path depth
    generalize removeTree env.calls.toDirCalls (depth + 1) path t = r at h htraversed
    cases htraversed with
    | unread hcode _ => exact absurd h hcode
    | read hfit hfind hstate hzero _ =>
      have hfits := traverseEntries_fits (hzero h) ("..") (Env.mem_order.mpr (.inr (.inl rfl)))
      exact hfits

theorem removeTree_kept (hcontained : Contained env.cwd s dir d)
    (hd : findPath env.cwd s dir = .ok (d, .dir)) (hreached : Reached env.cwd s dir path g)
    (h : Kept s t d) : Kept s (removeTree env.calls.toDirCalls depth path t).2 d := by
  induction depth generalizing path g t with
  | zero => exact h
  | succ depth ih =>
    have htraversed := @removeTree_traversed env t path depth
    generalize removeTree env.calls.toDirCalls (depth + 1) path t = r at htraversed
    cases htraversed with
    | unread _ _ => exact h
    | read hfit hfind hstate _ _ =>
      rw [hstate]
      have hsame := hreached.find
      rw [findPath_within h.within hfind] at hsame
      cases hsame
      refine traverseEntries_keeps (fun u => Kept s u d) ?_ h
      intro name hname hfit st v hv hstat
      apply rmdirCb_kept hcontained hd hreached ih (fun _ _ => removeTree_fits) _ hfit hv hstat
      obtain hname | hname | ⟨m, hm, rfl⟩ := Env.mem_order.mp hname
      · exact .inl hname
      · exact .inr (.inl hname)
      · refine .inr (.inr ⟨m, ?_, rfl⟩)
        obtain ⟨w, hw⟩ := Option.ne_none_iff_exists'.mp ((t.mem_names _ m).mp hm)
        rw [s.mem_names, h.within.eq_of_some hw]
        exact Option.some_ne_none w

/-! ## A removal only removes -/

theorem rmdirCb_within {descend : CStr → StateM Fs Nat}
    (hdescend : ∀ path t, Within (descend path t).2.node t.node) :
    Within (rmdirCb env.calls.toDirCalls descend path name st t).2.node t.node := by
  unfold rmdirCb
  cases itemPath path name with
  | none => exact .refl _
  | some item =>
    cases st with
    | other => exact .refl _
    | regular => exact (remove_removal : Removal _ env.cwd t item _).within
    | directory =>
      dsimp only
      split
      · exact .refl _
      · rw [run_bind, run_ite]
        split
        · exact hdescend item t
        · have hrmdir : Removal _ env.cwd (descend item t).2 item (env.rmdir item _) :=
            rmdir_removal
          exact hrmdir.within.trans (hdescend item t)

theorem removeTree_within : Within (removeTree env.calls.toDirCalls depth path t).2.node t.node := by
  induction depth generalizing path t with
  | zero => exact .refl _
  | succ depth ih =>
    have htraversed := @removeTree_traversed env t path depth
    generalize removeTree env.calls.toDirCalls (depth + 1) path t = r at htraversed
    cases htraversed with
    | unread _ _ => exact .refl _
    | read _ _ hstate _ _ =>
      rw [hstate]
      refine traverseEntries_keeps (fun u => Within u.node t.node) ?_ (.refl _)
      intro name _ _ st u hu _
      exact (rmdirCb_within fun path t => ih).trans hu

section Loop
variable {cb : TraverseCb Fs} {rest done entries : List CStr}

/-- A property of the entries that are done and of the tree, up to an entry that fails: a loop
that succeeds is done with all of them, and one that fails does not return what no `stat` of an
entry gives. -/
theorem traverseEntries_done (inv : List CStr → Fs → Prop) (bad : Nat → Prop)
    (hbad : ¬ bad 0 ∧ ¬ bad 1 ∧ ¬ bad enametoolong)
    (hstat : ∀ done name post t code, done ++ name :: post = entries →
      dir.length + 1 + name.length < libzeMaxPathLen → inv done t →
      (env.stat (dir ++ '/' :: name) t).1 = .error code → ¬ bad code)
    (hcb : ∀ done name post st t u, done ++ name :: post = entries →
      dir.length + 1 + name.length < libzeMaxPathLen → inv done t →
      (env.stat (dir ++ '/' :: name) t).1 = .ok st → cb dir ('/' :: name) st t = (0, u) →
      inv (done ++ [name]) u)
    (hsplit : done ++ rest = entries) (h : inv done t) :
    ¬ bad (traverseEntries env.calls.toDirCalls cb dir rest t).1 ∧
      ((traverseEntries env.calls.toDirCalls cb dir rest t).1 = 0 →
        inv entries (traverseEntries env.calls.toDirCalls cb dir rest t).2) := by
  obtain ⟨hzeroBad, honeBad, hlongBad⟩ := hbad
  induction rest generalizing done t with
  | nil =>
    rw [List.append_nil] at hsplit
    rw [hsplit] at h
    exact ⟨hzeroBad, fun _ => h⟩
  | cons name rest ih =>
    rw [traverseEntries_cons]
    split
    · rename_i hfit
      have hrun : env.calls.stat (dir ++ '/' :: name) t =
          ((env.stat (dir ++ '/' :: name) t).1, t) := Prod.ext rfl Env.stat_state
      rw [run_bind, hrun]
      cases hst : (env.stat (dir ++ '/' :: name) t).1 with
      | error code =>
        rw [hst] at hrun
        exact ⟨hstat done name rest t code hsplit hfit h hst,
          fun hzero => absurd hzero (stat_error_ne hrun)⟩
      | ok st =>
        dsimp only
        rw [run_bind, run_ite]
        by_cases hzero : (cb dir ('/' :: name) st t).1 = 0
        · rw [if_neg (not_not.mpr hzero)]
          have hnext := hcb done name rest st t _ hsplit hfit h hst (run_eq_of_fst hzero)
          rw [← List.singleton_append, ← List.append_assoc] at hsplit
          exact ih hsplit hnext
        · rw [if_pos hzero]
          exact ⟨honeBad, fun heq => absurd heq Nat.one_ne_zero⟩
    · exact ⟨hlongBad, fun heq => absurd heq (Nat.succ_ne_zero 35)⟩

end Loop

end Frame

end Zectl.Util.RemoveTree
