import Zectl.Util.Clearing

/-!
# When a removal stays in its directory

`libze_util_rmdir` keeps to the directory as long as nothing that it meets outside can be
removed, and answers `ENOENT` for no directory that is there as long as `access` allows it and
no entry dangles.
-/

namespace Zectl.Util.RmdirScope

open Zectl.Lib.StateRun Zectl.Lib.FileTree Zectl.Util.CString Zectl.Util.Traverse
open Zectl.Util.FileSystem Zectl.Util.RemoveTree Zectl.Util.Clearing
open Zectl.Util.Files (enoent enametoolong enotdir)

/-- No entry of the directory is left dangling when some of the others are cleared, in whatever
order. -/
def Lasting (cwd : Loc FileName) (s : Fs) (dir : CStr) (d : Loc FileName) : Prop :=
  ∀ done name rest t, (done ++ name :: rest).Perm (listing s d) → Cleared cwd dir d s done t →
    dir.length + 1 + name.length < libzeMaxPathLen →
    findPath cwd t (dir ++ '/' :: name) ≠ .error enoent

/-- What a removal of a directory is to do: only what is in it goes, all of it is gone after a
success, and `ENOENT` says that it was not there. -/
structure Meets (env : Env) (s : Fs) (dir : CStr) : Prop where
  inside : ∀ y, (libzeUtilRmdir env.calls.toDirCalls dir s).2.node y ≠ s.node y →
    ∃ d, findPath env.cwd s dir = .ok (d, .dir) ∧ d <+: y
  gone : (libzeUtilRmdir env.calls.toDirCalls dir s).1 = 0 →
    ∀ found, findPath env.cwd (libzeUtilRmdir env.calls.toDirCalls dir s).2 dir ≠ .ok found
  absent : (libzeUtilRmdir env.calls.toDirCalls dir s).1 = enoent →
    ∀ d, findPath env.cwd s dir ≠ .ok (d, .dir)

/-- The directory may be accessed, all that is met and can be removed is in it, and no entry of
it comes to dangle. -/
def Harmless (cwd : Loc FileName) (s : Fs) (dir : CStr) (refused : Nat) : Prop :=
  ∀ d, findPath cwd s dir = .ok (d, .dir) →
    refused = 0 ∧ Contained cwd s dir d ∧ Lasting cwd s dir d

section Safe
variable {env : Env} {cwd : Loc FileName} {s t u : Fs} {dir : CStr} {d : Loc FileName}
  {depth : Nat}

theorem stat_ne_enoent {path : CStr} (h : findPath env.cwd t path ≠ .error enoent) :
    (env.stat path t).1 ≠ .error enoent := by
  unfold Env.stat
  split
  · intro heq
    exact env.fault_ne _ _ _ (Except.error.inj heq)
  · intro heq
    apply h
    cases hfind : findPath env.cwd t path with
    | error code =>
      rw [hfind] at heq
      exact congrArg _ (Except.error.inj heq)
    | ok found =>
      rw [hfind] at heq
      cases heq

/-- Among fewer places a path leads where it did, or nowhere. -/
theorem findPath_short {path : CStr} {found : Loc FileName × FsNode}
    (hwithin : Within t.node s.node) (h : findPath cwd s path = .ok found) :
    findPath cwd t path = .ok found ∨ findPath cwd t path = .error enoent := by
  obtain ⟨x, v⟩ := found
  obtain ⟨l, hl, hv⟩ := findPath_eq_ok_iff.mp h
  have hpath := resolvePath_ne_nil hl
  rw [resolvePath_eq_walk hpath] at hl
  unfold findPath
  rw [resolvePath_eq_walk hpath]
  obtain heq | ⟨e, he, hmissing⟩ := walk_short hwithin maxSymlinks (startOf cwd path)
    (pathComps path)
  · rw [heq, hl]
    dsimp only
    obtain hnone | hsame := hwithin x
    · rw [hnone]
      exact .inr rfl
    · rw [hsame, hv]
      exact .inl rfl
  · rw [he]
    cases e with
    | absent _ _ | missing => exact .inr rfl
    | notDirectory | tooManyLinks => exact absurd hmissing id

/-- The loop over the entries of the directory does not end with `ENOENT`. -/
theorem entries_ne (hfind : findPath env.cwd s dir = .ok (d, .dir))
    (hlasting : Lasting env.cwd s dir d) :
    (traverseEntries env.calls.toDirCalls
      (rmdirCb env.calls.toDirCalls (removeTree env.calls.toDirCalls depth)) dir
      (env.order dir d s) s).1 ≠ enoent := by
  have horder := env.order_perm dir d s
  have hstat : ∀ done name post t code, done ++ name :: post = env.order dir d s →
      dir.length + 1 + name.length < libzeMaxPathLen → Cleared env.cwd dir d s done t →
      (env.stat (dir ++ '/' :: name) t).1 = .error code → ¬ code = enoent := by
    intro done name post t code hsplit hfit hcleared hstat hcode
    rw [← hsplit] at horder
    apply stat_ne_enoent (hlasting done name post t horder hcleared hfit)
    rw [hstat, hcode]
  have hcb : ∀ done name post st t v, done ++ name :: post = env.order dir d s →
      dir.length + 1 + name.length < libzeMaxPathLen → Cleared env.cwd dir d s done t →
      (env.stat (dir ++ '/' :: name) t).1 = .ok st →
      rmdirCb env.calls.toDirCalls (removeTree env.calls.toDirCalls depth) dir ('/' :: name) st t =
        (0, v) → Cleared env.cwd dir d s (done ++ [name]) v := by
    intro done name post st t v hsplit hfit hcleared hstat hcb
    have hmem : name ∈ env.order dir d s := by
      rw [← hsplit]
      exact List.mem_append_right _ List.mem_cons_self
    have hname : name ∈ listing s d := (env.order_perm dir d s).mem_iff.mp hmem
    exact hcleared.step (fun _ _ => removeTree_within) (fun _ _ _ _ => removeTree_cleared) hfind
      hname hfit hstat hcb
  exact (traverseEntries_done (fun done t => Cleared env.cwd dir d s done t) (· = enoent)
    (by decide) hstat hcb (List.nil_append _) .start).1

theorem removeTree_ne (hfind : findPath env.cwd s dir = .ok (d, .dir))
    (hlasting : Lasting env.cwd s dir d) :
    (removeTree env.calls.toDirCalls depth dir s).1 ≠ enoent := by
  intro h
  cases depth with
  | zero => cases h
  | succ depth =>
    have htraversed := @removeTree_traversed env s dir depth
    generalize removeTree env.calls.toDirCalls (depth + 1) dir s = r at h htraversed
    cases htraversed with
    | unread hcode hne => exact hne d hfind h
    | read hfit hread hstate hzero henoent =>
      rw [hfind] at hread
      cases hread
      exact entries_ne hfind hlasting (henoent h)

/-- Where no directory is, nothing is removed. -/
theorem removeTree_nowhere (h : ∀ d, findPath env.cwd s dir ≠ .ok (d, .dir)) :
    ∃ code, code ≠ 0 ∧ removeTree env.calls.toDirCalls depth dir s = (code, s) := by
  cases depth with
  | zero => exact ⟨enametoolong, Nat.succ_ne_zero _, rfl⟩
  | succ depth =>
    have htraversed := @removeTree_traversed env s dir depth
    generalize removeTree env.calls.toDirCalls (depth + 1) dir s = r at htraversed
    cases htraversed with
    | unread hcode _ => exact ⟨_, hcode, rfl⟩
    | read _ hread _ _ _ => exact absurd hread (h _)

/-- After a success the path of the directory still leads to it. -/
theorem removeTree_find (hfind : findPath env.cwd s dir = .ok (d, .dir))
    (hlasting : Lasting env.cwd s dir d)
    (hrun : removeTree env.calls.toDirCalls depth dir s = (0, u)) :
    findPath env.cwd u dir = .ok (d, .dir) := by
  obtain ⟨order, horder, hcleared⟩ := removeTree_cleared hfind hrun
  have hfits := hcleared.fits ("." : CStr) (horder.mem_iff.mpr List.mem_cons_self)
  have hnodup : order.Nodup :=
    horder.nodup_iff.mpr ((env.order_perm dir d s).nodup_iff.mp Env.nodup_order)
  have hlast : (order.filter (· != ("." : CStr)) ++ [("." : CStr)]).Perm (listing s d) := by
    rw [← hnodup.erase_eq_filter]
    refine List.Perm.trans ?_ horder
    refine List.perm_append_comm.trans ?_
    exact (List.perm_cons_erase (horder.mem_iff.mpr List.mem_cons_self)).symm
  -- `.` may as well be the last entry that is met
  have hdot := hlasting _ _ _ u hlast hcleared.filter_dot hfits
  obtain ⟨l, hl, hd⟩ := findPath_eq_ok_iff.mp hfind
  have hu := (findPath_short hcleared.within (findPath_dot hl hd)).resolve_right hdot
  obtain ⟨k, hk, -⟩ := findPath_eq_ok_iff.mp hu
  obtain ⟨y, j, hy, hydir, -⟩ := resolvePath_parent (resolvePath_ne_nil hl) (by decide) hk
  obtain rfl := resolvePath_same hcleared.within hfind hy
  exact findPath_eq_ok_iff.mpr ⟨j, hy, hydir⟩

theorem removeDir_ne {x : Loc FileName} {n : FileName} : (removeDir x n s).1 ≠ enoent := by
  unfold removeDir
  split
  · exact (Nat.succ_ne_zero 1).symm
  · show enotempty ≠ enoent
    decide

/-- A directory that a path leads to is located by it. -/
theorem exists_locate (h : findPath cwd s dir = .ok (d, .dir)) :
    ∃ x last, locatePath cwd s dir = .ok (x, last) ∧
      ∀ n, last = some (.name n) → s.node (x ++ [n]) ≠ none := by
  obtain ⟨l, hl, hd⟩ := findPath_eq_ok_iff.mp h
  have hpath := resolvePath_ne_nil hl
  rw [resolvePath_eq_walk hpath] at hl
  have hpieces : dir.splitOn '/' =
      piecesOf dir ++ (dir.splitOn '/').rtakeWhile (· = []) := by
    rw [piecesOf, List.rdropWhile_append_rtakeWhile]
  by_cases hnil : piecesOf dir = []
  · obtain ⟨piece, pieces, hcons⟩ := List.exists_cons_of_ne_nil (List.splitOn_ne_nil '/' dir)
    rw [pathComps, hcons, List.map_cons] at hl
    refine ⟨startOf cwd dir, none, locatePath_eq_ok_iff.mpr
      ⟨hpath, dir_of_walk_cons hl, ?_, maxSymlinks, ?_⟩, fun n hn => by cases hn⟩
    · rw [hnil]
      rfl
    · rw [hnil]
      exact walk_nil
  · rw [← List.dropLast_append_getLast hnil] at hpieces
    rw [pathComps, hpieces, List.append_assoc, List.map_append] at hl
    obtain ⟨z, k, hz, hlast⟩ := walk_split hl
    rw [List.map_append, List.map_singleton, List.singleton_append] at hlast
    have hzdir := dir_of_walk_cons hlast
    refine ⟨z, some (component ((piecesOf dir).getLast hnil)), locatePath_eq_ok_iff.mpr
      ⟨hpath, hzdir, ?_, k, hz⟩, ?_⟩
    · rw [List.getLast?_eq_some_getLast hnil, Option.map_some]
    · intro n hn hnone
      rw [Option.some.inj hn, ← List.singleton_append] at hlast
      obtain ⟨y, j, hy, -⟩ := walk_split hlast
      rw [walk_absent hzdir hnone] at hy
      cases hy

theorem rmdir_ne (h : findPath env.cwd s dir = .ok (d, .dir)) : (env.rmdir dir s).1 ≠ enoent := by
  unfold Env.rmdir
  by_cases hfault : env.fault .rmdir dir s = 0
  · rw [Env.faulty_run hfault]
    obtain ⟨x, last, hlocate, hlast⟩ := exists_locate h
    rw [hlocate]
    cases last with
    | none =>
      show ebusy ≠ enoent
      decide
    | some c =>
      cases c with
      | here =>
        show einval ≠ enoent
        decide
      | up =>
        show enotempty ≠ enoent
        decide
      | name n =>
        dsimp only [withName]
        cases hnode : s.node (x ++ [n]) with
        | none => exact absurd hnode (hlast n rfl)
        | some v =>
          cases v with
          | dir => exact removeDir_ne
          | file _ | link _ | special =>
            show enotdir ≠ enoent
            decide
  · rw [Env.faulty_of_fault hfault]
    exact env.fault_ne _ _ _

/-- How a removal ends: before it starts, in the traversal, or with the directory itself. -/
inductive Ended (env : Env) (s : Fs) (dir : CStr) : Nat × Fs → Prop
  | refused (haccess : (env.access dir s).1 ≠ 0) : Ended env s dir (enoent, s)
  | failed {e : Nat} {u : Fs} (he : e ≠ 0) (haccess : (env.access dir s).1 = 0)
      (htree : removeTree env.calls.toDirCalls libzeMaxPathLen dir s = (e, u)) :
      Ended env s dir (e, u)
  | emptied {u : Fs} (haccess : (env.access dir s).1 = 0)
      (htree : removeTree env.calls.toDirCalls libzeMaxPathLen dir s = (0, u)) :
      Ended env s dir (env.rmdir dir u)

theorem libzeUtilRmdir_ended : Ended env s dir (libzeUtilRmdir env.calls.toDirCalls dir s) := by
  have hrun : env.calls.access dir s = ((env.access dir s).1, s) := Prod.ext rfl Env.access_state
  unfold libzeUtilRmdir
  rw [run_bind, hrun, run_ite]
  by_cases haccess : (env.access dir s).1 = 0
  · rw [if_neg (not_not.mpr haccess)]
    cases htree : removeTree env.calls.toDirCalls libzeMaxPathLen dir s with
    | mk e u =>
      rw [run_guard htree]
      split
      · rename_i he
        exact .failed he haccess htree
      · rename_i he
        rw [not_not.mp he] at htree
        exact .emptied haccess htree
  · rw [if_pos haccess]
    exact .refused haccess

theorem access_ok_iff : (env.access dir s).1 = 0 ↔
    env.refusal dir s = 0 ∧ ∃ found, findPath env.cwd s dir = .ok found := by
  unfold Env.access
  split
  · rename_i hrefused
    exact iff_of_false hrefused fun h => hrefused h.1
  · rename_i hrefused
    cases hfind : findPath env.cwd s dir with
    | error code =>
      refine iff_of_false ?_ fun h => by cases h.2.choose_spec
      intro hzero
      rw [show code = 0 from hzero] at hfind
      exact findPath_ne hfind
    | ok found => exact iff_of_true rfl ⟨not_not.mp hrefused, found, rfl⟩

/-- A directory whose `rmdir` succeeds is not found any more. -/
theorem rmdir_gone (h : (env.rmdir dir s).1 = 0) :
    ∀ found, findPath env.cwd (env.rmdir dir s).2 dir ≠ .ok found := by
  intro found hfound
  have hremoval : Removal (· = .dir) env.cwd s dir (env.rmdir dir s) := rmdir_removal
  generalize env.rmdir dir s = r at h hfound hremoval
  cases hremoval with
  | kept hcode => exact hcode h
  | @gone x n v hlocate hnode hv hleaf =>
    rw [hv] at hnode
    obtain ⟨l, hl⟩ := resolvePath_of_locate hlocate hnode
    obtain ⟨y, w⟩ := found
    obtain ⟨k, hk, hy⟩ := findPath_eq_ok_iff.mp hfound
    have hfind : findPath env.cwd s dir = .ok (x ++ [n], .dir) :=
      findPath_eq_ok_iff.mpr ⟨l, hl, hnode⟩
    have hwithin : Within (s.unlink x n hleaf).node s.node := DirTree.unlink_within
    rw [resolvePath_same hwithin hfind hk] at hy
    have hself : (s.unlink x n hleaf).node (x ++ [n]) = none := DirTree.node_unlink_self
    exact Option.some_ne_none w (hy.symm.trans hself)

/-- `rmdir` changes nothing but the directory a path leads to. -/
theorem rmdir_other {y : Loc FileName} (h : (env.rmdir dir s).2.node y ≠ s.node y) :
    findPath env.cwd s dir = .ok (y, .dir) := by
  have hremoval : Removal (· = .dir) env.cwd s dir (env.rmdir dir s) := rmdir_removal
  generalize env.rmdir dir s = r at h hremoval
  cases hremoval with
  | kept hcode => exact absurd rfl h
  | @gone x n v hlocate hnode hv hleaf =>
    rw [hv] at hnode
    obtain ⟨l, hl⟩ := resolvePath_of_locate hlocate hnode
    by_cases hy : y = x ++ [n]
    · rw [hy]
      exact findPath_eq_ok_iff.mpr ⟨l, hl, hnode⟩
    · have hsame : (s.unlink x n hleaf).node y = s.node y := DirTree.node_unlink_of_ne hy
      exact absurd hsame h

/-- The traversal of the directory itself. -/
theorem removeTree_root (hfind : findPath env.cwd s dir = .ok (d, .dir))
    (hcontained : Contained env.cwd s dir d) :
    Kept s (removeTree env.calls.toDirCalls depth dir s).2 d := by
  obtain ⟨l, hl, hd⟩ := findPath_eq_ok_iff.mp hfind
  have hkept : Kept s s d := ⟨.refl _, fun _ _ => rfl, hd⟩
  by_cases hfit : dir.length < libzeMaxPathLen
  · exact removeTree_kept hcontained hfind (.root hfit hfind) hkept
  · cases depth with
    | zero => exact hkept
    | succ depth =>
      rw [removeTree, recursiveTraverse_long (Nat.not_lt.mp hfit)]
      exact hkept

theorem meets_of_harmless (h : Harmless env.cwd s dir (env.refusal dir s)) : Meets env s dir := by
  have hended : Ended env s dir (libzeUtilRmdir env.calls.toDirCalls dir s) :=
    libzeUtilRmdir_ended
  by_cases hexists : ∃ d, findPath env.cwd s dir = .ok (d, .dir)
  · obtain ⟨d, hfind⟩ := hexists
    obtain ⟨hrefused, hcontained, hlasting⟩ := h d hfind
    have hkept := @removeTree_root env s dir d libzeMaxPathLen hfind hcontained
    have hne := @removeTree_ne env s dir d libzeMaxPathLen hfind hlasting
    have haccess : (env.access dir s).1 = 0 := access_ok_iff.mpr ⟨hrefused, _, hfind⟩
    have hall : (∀ y, (libzeUtilRmdir env.calls.toDirCalls dir s).2.node y ≠ s.node y → d <+: y) ∧
        ((libzeUtilRmdir env.calls.toDirCalls dir s).1 = 0 →
          ∀ found, findPath env.cwd (libzeUtilRmdir env.calls.toDirCalls dir s).2 dir ≠
            .ok found) ∧
        (libzeUtilRmdir env.calls.toDirCalls dir s).1 ≠ enoent := by
      generalize libzeUtilRmdir env.calls.toDirCalls dir s = r at hended
      cases hended with
      | refused hrefused => exact absurd haccess hrefused
      | failed he _ htree =>
        rw [htree] at hkept hne
        refine ⟨fun y hy => ?_, fun hzero => absurd hzero he, hne⟩
        by_contra hout
        exact hy (hkept.outside y hout)
      | @emptied u _ htree =>
        have hfound := removeTree_find hfind hlasting htree
        rw [htree] at hkept
        refine ⟨fun y hy => ?_, rmdir_gone, rmdir_ne hfound⟩
        by_contra hout
        by_cases hsame : (env.rmdir dir u).2.node y = u.node y
        · exact hy (hsame.trans (hkept.outside y hout))
        · have hself := rmdir_other hsame
          rw [hfound] at hself
          cases hself
          exact hout (List.prefix_refl d)
    exact ⟨fun y hy => ⟨d, hfind, hall.1 y hy⟩, hall.2.1, fun heq => absurd heq hall.2.2⟩
  · have hnowhere : ∀ d, findPath env.cwd s dir ≠ .ok (d, .dir) := not_exists.mp hexists
    obtain ⟨code, hcode, htree⟩ := @removeTree_nowhere env s dir libzeMaxPathLen hnowhere
    have hrun : (libzeUtilRmdir env.calls.toDirCalls dir s).1 ≠ 0 ∧
        (libzeUtilRmdir env.calls.toDirCalls dir s).2 = s := by
      generalize libzeUtilRmdir env.calls.toDirCalls dir s = r at hended
      cases hended with
      | refused _ => exact ⟨Nat.succ_ne_zero 1, rfl⟩
      | failed he _ hfailed =>
        rw [htree] at hfailed
        cases hfailed
        exact ⟨hcode, rfl⟩
      | emptied _ hemptied =>
        rw [htree] at hemptied
        exact absurd (congrArg Prod.fst hemptied) hcode
    constructor
    · intro y hy
      rw [hrun.2] at hy
      exact absurd rfl hy
    · exact fun hzero => absurd hzero hrun.1
    · exact fun _ => hnowhere

end Safe

/-! ## Runs that remove something outside -/

/-- The next name on the way from a directory to a path in it. -/
def nextName (target path : CStr) : CStr := (target.drop (path.length + 1)).takeWhile (· ≠ '/')

/-- Nothing fails, and what leads to a path is read first. -/
def towards (cwd : Loc FileName) (refused : Nat) (target : CStr) : Env where
  cwd := cwd
  order path x s :=
    if nextName target path ∈ listing s x then
      nextName target path :: (listing s x).erase (nextName target path)
    else listing s x
  refusal _ _ := refused
  fault _ _ _ := 0
  order_perm path x s := by
    split
    · rename_i hmem
      exact (List.perm_cons_erase hmem).symm
    · exact .refl _
  fault_ne := Env.faultless.fault_ne

section Harm
variable {env : Env} {cwd : Loc FileName} {s t u : Fs} {dir path name target : CStr}
  {d g x y : Loc FileName} {n m : FileName} {v : FsNode} {depth refused : Nat} {st : FileMode}

theorem nextName_entry {rest : CStr} (hname : '/' ∉ name) (hrest : ∀ c ∈ rest.head?, c = '/') :
    nextName (path ++ '/' :: name ++ rest) path = name := by
  have hdrop : (path ++ '/' :: name ++ rest).drop (path.length + 1) = name ++ rest := by
    rw [List.append_assoc, List.cons_append, List.append_cons,
      List.drop_left' (by rw [List.length_append, List.length_singleton])]
  rw [nextName, hdrop, List.takeWhile_append_of_pos]
  · cases rest with
    | nil => exact List.append_nil name
    | cons c rest =>
      rw [List.takeWhile_cons_of_neg (by simpa using hrest c rfl), List.append_nil]
  · intro c hc
    rw [decide_eq_true_iff]
    intro heq
    rw [heq] at hc
    exact hname hc

theorem nextName_pathOf (rel : Loc FileName) :
    nextName (pathOf (path ++ '/' :: m.val) rel) path = m.val := by
  apply nextName_entry m.property.2.2.2
  cases rel with
  | nil =>
    intro c hc
    cases hc
  | cons k rel =>
    intro c hc
    exact (Option.some.inj hc).symm

theorem towards_order (hmem : nextName target path ∈ listing s x) :
    ∃ rest, (towards cwd refused target).order path x s = nextName target path :: rest := by
  exact ⟨_, if_pos hmem⟩

/-- What a traversal does after its first entry only removes more. -/
theorem removeTree_first {rest : List CStr}
    (hfit : path.length + 1 + name.length < libzeMaxPathLen)
    (hfind : findPath env.cwd s path = .ok (x, .dir)) (hfault : env.fault .opendir path s = 0)
    (horder : env.order path x s = name :: rest)
    (hstat : (env.stat (path ++ '/' :: name) s).1 = .ok st) :
    Within (removeTree env.calls.toDirCalls (depth + 1) path s).2.node
      (rmdirCb env.calls.toDirCalls (removeTree env.calls.toDirCalls depth) path ('/' :: name)
        st s).2.node := by
  obtain ⟨l, hl, -⟩ := findPath_eq_ok_iff.mp hfind
  have hlist : env.calls.readdir path s = name :: rest := (Env.readdir_eq hl).trans horder
  have hstatrun : env.calls.stat (path ++ '/' :: name) s = (.ok st, s) :=
    Prod.ext hstat Env.stat_state
  rw [removeTree, recursiveTraverse_run (by omega) (Env.opendir_run hfault hfind) rfl]
  show Within (env.closedir path _).2.node _
  rw [closedir_state, hlist, traverseEntries_cons, if_pos hfit, run_bind, hstatrun]
  dsimp only
  rw [run_bind, run_ite]
  split
  · exact .refl _
  · apply traverseEntries_keeps (fun u => Within u.node (rmdirCb env.calls.toDirCalls
      (removeTree env.calls.toDirCalls depth) path ('/' :: name) st s).2.node)
    · intro k _ _ st v hv _
      exact (rmdirCb_within fun _ _ => removeTree_within).trans hv
    · exact .refl _

/-! ### Calls without faults -/

theorem traverseEntries_dots {cb : TraverseCb Fs} {rest : List CStr}
    (hdots : ∀ name ∈ rest, name = ("." : CStr) ∨ name = (".." : CStr))
    (hstat : ∀ name ∈ rest, env.stat (path ++ '/' :: name) s = (.ok .directory, s))
    (hcb : ∀ name ∈ rest, cb path ('/' :: name) .directory s = (0, s))
    (hfit : path.length + 3 < libzeMaxPathLen) :
    traverseEntries env.calls.toDirCalls cb path rest s = (0, s) := by
  induction rest with
  | nil => rfl
  | cons name rest ih =>
    have hlen : name.length ≤ 2 := by
      obtain rfl | rfl := hdots name List.mem_cons_self <;> decide
    have hrun : env.calls.stat (path ++ '/' :: name) s = (.ok .directory, s) :=
      hstat name List.mem_cons_self
    rw [traverseEntries_cons, if_pos (by omega), run_bind, hrun]
    dsimp only
    rw [run_bind, hcb name List.mem_cons_self, run_ite, if_neg (not_not.mpr rfl)]
    exact ih (fun k hk => hdots k (List.mem_cons_of_mem _ hk))
      (fun k hk => hstat k (List.mem_cons_of_mem _ hk))
      (fun k hk => hcb k (List.mem_cons_of_mem _ hk))

/-- The traversal of an empty directory. -/
theorem removeTree_empty (hfault : ∀ op q, env.fault op q s = 0)
    (hfind : findPath env.cwd s path = .ok (x, .dir)) (hempty : s.names x = [])
    (hfit : path.length + 3 < libzeMaxPathLen) :
    removeTree env.calls.toDirCalls (depth + 1) path s = (0, s) := by
  obtain ⟨l, hl, hx⟩ := findPath_eq_ok_iff.mp hfind
  have hdots : ∀ name ∈ env.order path x s, name = ("." : CStr) ∨ name = (".." : CStr) := by
    intro name hname
    obtain hdot | hdots | ⟨k, hk, -⟩ := Env.mem_order.mp hname
    · exact .inl hdot
    · exact .inr hdots
    · rw [hempty] at hk
      cases hk
  have hstat : ∀ name ∈ env.order path x s,
      env.stat (path ++ '/' :: name) s = (.ok .directory, s) := by
    intro name hname
    obtain rfl | rfl := hdots name hname
    · exact Env.stat_run (hfault _ _) (findPath_dot hl hx)
    · exact Env.stat_run (hfault _ _) (findPath_dots hl hx)
  have hcb : ∀ name ∈ env.order path x s,
      rmdirCb env.calls.toDirCalls (removeTree env.calls.toDirCalls depth) path ('/' :: name)
        .directory s = (0, s) := by
    intro name hname
    have hlen : name.length ≤ 2 := by
      obtain rfl | rfl := hdots name hname <;> decide
    rw [rmdirCb_eq (by omega)]
    dsimp only
    rw [if_pos (hdots name hname)]
    rfl
  have hentries : traverseEntries env.calls.toDirCalls
      (rmdirCb env.calls.toDirCalls (removeTree env.calls.toDirCalls depth)) path
      (env.calls.readdir path s) s = (0, s) := by
    rw [show env.calls.readdir path s = env.order path x s from Env.readdir_eq hl]
    exact traverseEntries_dots hdots hstat hcb hfit
  have hclose : env.calls.closedir path s = (0, s) := Env.closedir_run (hfault _ _)
  rw [removeTree, recursiveTraverse_run (by omega) (Env.opendir_run (hfault _ _) hfind) hentries,
    hclose]
  rfl

/-! ### What is on the way goes -/

/-- A removal at a path takes a place with it. -/
def Taken (env : Env) (s : Fs) (path : CStr) (y : Loc FileName) : Prop :=
  ∀ depth, libzeMaxPathLen ≤ path.length + depth →
    (removeTree env.calls.toDirCalls depth path s).2.node y = none

theorem none_of_within {a b : Nodes FileName (List UInt8)} (h : Within a b) (hb : b y = none) :
    a y = none := by
  obtain hnone | heq := h y
  · exact hnone
  · rw [heq]
    exact hb

/-- The first entry on the way goes, and with it all that its removal takes. -/
theorem taken_of_first (hfit : path.length + 1 + n.val.length < libzeMaxPathLen)
    (hfind : findPath cwd s path = .ok (g, .dir)) (hn : n ∈ s.names g)
    (hnext : nextName target path = n.val) (hstat : findPath cwd s (path ++ '/' :: n.val) = .ok (x, v))
    (hcb : ∀ depth, libzeMaxPathLen ≤ path.length + 1 + depth →
      (rmdirCb (towards cwd refused target).calls.toDirCalls
        (removeTree (towards cwd refused target).calls.toDirCalls depth) path ('/' :: n.val)
        (fileMode v) s).2.node y = none) : Taken (towards cwd refused target) s path y := by
  intro depth hdepth
  obtain ⟨k, rfl⟩ : ∃ k, depth = k + 1 := Nat.exists_eq_succ_of_ne_zero (by omega)
  obtain ⟨rest, horder⟩ := @towards_order cwd s path target g refused
    (mem_listing.mpr (.inr (.inr ⟨n, hn, hnext⟩)))
  rw [hnext] at horder
  have hmode : ((towards cwd refused target).stat (path ++ '/' :: n.val) s).1 =
      .ok (fileMode v) := congrArg Prod.fst (Env.stat_run rfl hstat)
  exact none_of_within (removeTree_first hfit hfind rfl horder hmode) (hcb k (by omega))

/-- A directory on the way. -/
theorem taken_of_below (hfit : path.length + 1 + n.val.length < libzeMaxPathLen)
    (hfind : findPath cwd s path = .ok (g, .dir)) (hn : n ∈ s.names g)
    (hnext : nextName target path = n.val)
    (hdir : findPath cwd s (path ++ '/' :: n.val) = .ok (x, .dir))
    (htaken : Taken (towards cwd refused target) s (path ++ '/' :: n.val) y) :
    Taken (towards cwd refused target) s path y := by
  apply taken_of_first hfit hfind hn hnext hdir
  intro depth hdepth
  have hbelow := htaken depth (by rw [List.length_append, List.length_cons]; omega)
  rw [rmdirCb_eq hfit]
  show ((if n.val = _ ∨ n.val = _ then pure 0 else _ : StateM Fs Nat) s).2.node y = none
  rw [if_neg (not_or.mpr ⟨n.property.2.1, n.property.2.2.1⟩)]
  cases hrun : removeTree (towards cwd refused target).calls.toDirCalls depth
    (path ++ '/' :: n.val) s with
  | mk ret u =>
    rw [hrun] at hbelow
    rw [run_guard hrun]
    split
    · exact hbelow
    · have hremoval : Removal (· = .dir) (towards cwd refused target).cwd u _
        ((towards cwd refused target).rmdir (path ++ '/' :: n.val) u) := rmdir_removal
      exact none_of_within hremoval.within hbelow

/-- An entry that can be removed. -/
theorem taken_of_removable (hfit : path.length + 1 + n.val.length < libzeMaxPathLen)
    (hfind : findPath cwd s path = .ok (g, .dir)) (hn : n ∈ s.names g)
    (hremovable : Removable cwd s path g n) :
    Taken (towards cwd refused (path ++ '/' :: n.val)) s path (g ++ [n]) := by
  obtain ⟨l, hl, hg⟩ := findPath_eq_ok_iff.mp hfind
  have hnext : nextName (path ++ '/' :: n.val) path = n.val := by
    have hself := @nextName_pathOf path n []
    rw [pathOf, List.flatMap_nil, List.append_nil] at hself
    exact hself
  have hnode := (s.mem_names g n).mp hn
  have hlocate : locatePath cwd s (path ++ '/' :: n.val) = .ok (g, some (.name n)) :=
    locatePath_entry hl hg
  obtain ⟨x, content, hfile⟩ | ⟨hdir, hempty, hdots⟩ := hremovable
  · have hne : s.node (g ++ [n]) ≠ some .dir := by
      intro hdir
      have hfound := findPath_name hl hg hdir fun _ heq => by cases heq
      rw [hfile] at hfound
      cases hfound
    have hleaf := s.names_eq_nil hne
    apply taken_of_first hfit hfind hn hnext hfile
    intro depth _
    rw [rmdirCb_eq hfit]
    show ((towards cwd refused (path ++ '/' :: n.val)).remove (path ++ '/' :: n.val) s).2.node
      (g ++ [n]) = none
    rw [remove_run rfl hlocate hnode hleaf getLast_entry]
    exact if_pos rfl
  · have hfound := findPath_name hl hg hdir fun _ heq => by cases heq
    apply taken_of_first hfit hfind hn hnext hfound
    intro depth hdepth
    obtain ⟨k, rfl⟩ : ∃ k, depth = k + 1 := Nat.exists_eq_succ_of_ne_zero (by omega)
    have hbelow := @removeTree_empty (towards cwd refused (path ++ '/' :: n.val)) s
      (path ++ '/' :: n.val) (g ++ [n]) k (fun _ _ => rfl) hfound hempty
      (by rw [List.length_append, List.length_cons]; omega)
    rw [rmdirCb_eq hfit]
    show ((if n.val = _ ∨ n.val = _ then pure 0 else _ : StateM Fs Nat) s).2.node (g ++ [n]) = none
    rw [if_neg (not_or.mpr ⟨n.property.2.1, n.property.2.2.1⟩), run_guard hbelow,
      if_neg (not_not.mpr rfl)]
    show ((towards cwd refused (path ++ '/' :: n.val)).rmdir (path ++ '/' :: n.val) s).2.node
      (g ++ [n]) = none
    rw [rmdir_run rfl hlocate hdir hempty]
    exact if_pos rfl

/-- What goes below a directory that is reached goes with the whole. -/
theorem taken_of_reached (h : Reached cwd s dir path g) (rel : Loc FileName)
    (htarget : target = pathOf path rel) (hrel : rel ≠ [])
    (htaken : Taken (towards cwd refused target) s path y) :
    Taken (towards cwd refused target) s dir y := by
  induction h generalizing rel with
  | root _ _ => exact htaken
  | @step path g n x h hn hfit hfind ih =>
    apply ih (n :: rel)
    · rw [htarget, pathOf_cons]
    · exact List.cons_ne_nil _ _
    · apply taken_of_below hfit h.find hn _ hfind htaken
      rw [htarget]
      exact nextName_pathOf rel

/-- A removal that takes a place takes it whatever becomes of the directory itself. -/
theorem rmdir_taken (haccess : (env.access dir s).1 = 0) (h : Taken env s dir y) :
    (libzeUtilRmdir env.calls.toDirCalls dir s).2.node y = none := by
  have hended : Ended env s dir (libzeUtilRmdir env.calls.toDirCalls dir s) :=
    libzeUtilRmdir_ended
  have hbelow := h libzeMaxPathLen (Nat.le_add_left _ _)
  generalize libzeUtilRmdir env.calls.toDirCalls dir s = r at hended
  cases hended with
  | refused hrefused => exact absurd haccess hrefused
  | failed _ _ htree =>
    rw [htree] at hbelow
    exact hbelow
  | @emptied u _ htree =>
    rw [htree] at hbelow
    have hremoval : Removal (· = .dir) env.cwd u dir (env.rmdir dir u) := rmdir_removal
    exact none_of_within hremoval.within hbelow

/-- A traversal ends with the first entry that dangles. -/
theorem removeTree_dangling {done rest : List CStr} (horderly : Orderly env dir)
    (hdepth : libzeMaxPathLen ≤ dir.length + 1 + depth)
    (hfind : findPath env.cwd s dir = .ok (d, .dir))
    (hread : env.order dir d s = done ++ name :: rest) (hcleared : Cleared env.cwd dir d s done t)
    (hfit : dir.length + 1 + name.length < libzeMaxPathLen)
    (hdangling : findPath env.cwd t (dir ++ '/' :: name) = .error enoent) :
    removeTree env.calls.toDirCalls (depth + 1) dir s = (enoent, t) := by
  obtain ⟨l, hl, -⟩ := findPath_eq_ok_iff.mp hfind
  have hstat : env.calls.stat (dir ++ '/' :: name) t = (.error enoent, t) := by
    show env.stat (dir ++ '/' :: name) t = (.error enoent, t)
    rw [Env.stat, if_neg (not_not.mpr (horderly.faultless _ _ _)), hdangling]
    rfl
  have hdescend : ∀ q x w order u, dir.length < q.length →
      findPath env.cwd w q = .ok (x, .dir) → order.Perm (listing w x) →
      Cleared env.cwd q x w order u → u.names x = [] →
      removeTree env.calls.toDirCalls depth q w = (0, u) := by
    intro q x w order u hq hfound horder hbelow hempty
    exact removeTree_of_cleared horderly depth (by omega) hq hfound horder hbelow hempty
  have hentries : traverseEntries env.calls.toDirCalls
      (rmdirCb env.calls.toDirCalls (removeTree env.calls.toDirCalls depth)) dir
      (env.calls.readdir dir s) s = (enoent, t) := by
    rw [show env.calls.readdir dir s = done ++ name :: rest from (Env.readdir_eq hl).trans hread,
      traverseEntries_of_cleared horderly.faultless hdescend hfind hcleared,
      traverseEntries_cons, if_pos hfit, run_bind, hstat]
    rfl
  have hclose : env.calls.closedir dir t = (0, t) := Env.closedir_run (horderly.faultless _ _ _)
  rw [removeTree, recursiveTraverse_run (by omega)
    (Env.opendir_run (horderly.faultless _ _ _) hfind) hentries, hclose]
  rfl

section Needed
variable (hmeets : ∀ env : Env, env.cwd = cwd → env.refusal dir s = refused → Meets env s dir)
  (hfind : findPath cwd s dir = .ok (d, .dir))
include hmeets hfind

theorem refused_of_meets : refused = 0 := by
  by_contra hrefused
  have hmeet := hmeets (towards cwd refused dir) rfl rfl
  have hended : Ended (towards cwd refused dir) s dir
    (libzeUtilRmdir (towards cwd refused dir).calls.toDirCalls dir s) := libzeUtilRmdir_ended
  have haccess : ((towards cwd refused dir).access dir s).1 ≠ 0 := by
    intro hzero
    exact hrefused (access_ok_iff.mp hzero).1
  have habsent := hmeet.absent
  generalize libzeUtilRmdir (towards cwd refused dir).calls.toDirCalls dir s = r
    at hended habsent
  cases hended with
  | refused _ => exact habsent rfl d hfind
  | failed _ hzero _ | emptied hzero _ => exact haccess hzero

theorem contained_of_meets : Contained cwd s dir d := by
  obtain rfl := refused_of_meets hmeets hfind
  intro path g n hreached hn hfit hremovable
  have hmeet := hmeets (towards cwd 0 (path ++ '/' :: n.val)) rfl rfl
  have htaken : Taken (towards cwd 0 (path ++ '/' :: n.val)) s dir (g ++ [n]) := by
    have hlast := @taken_of_removable cwd s path g n 0 hfit hreached.find hn hremovable
    have hpath : path ++ '/' :: n.val = pathOf path [n] := by rw [pathOf, List.flatMap_singleton]
    exact taken_of_reached hreached [n] hpath (List.cons_ne_nil _ _) hlast
  have haccess : ((towards cwd 0 (path ++ '/' :: n.val)).access dir s).1 = 0 :=
    access_ok_iff.mpr ⟨rfl, _, hfind⟩
  have hchanged : (libzeUtilRmdir (towards cwd 0 (path ++ '/' :: n.val)).calls.toDirCalls dir
      s).2.node (g ++ [n]) ≠ s.node (g ++ [n]) := by
    rw [rmdir_taken haccess htaken]
    exact fun heq => (s.mem_names g n).mp hn heq.symm
  obtain ⟨e, he, hinside⟩ := hmeet.inside _ hchanged
  have hsame : findPath cwd s dir = .ok (e, .dir) := he
  rw [hfind] at hsame
  cases hsame
  exact hinside

theorem lasting_of_meets : Lasting cwd s dir d := by
  obtain rfl := refused_of_meets hmeets hfind
  intro done name rest t horder hcleared hfit hdangling
  obtain ⟨env, rfl, hrefusal, horderly, hread⟩ := exists_orderly cwd horder dir 0
  have hmeet := hmeets env rfl (hrefusal dir s)
  have hended : Ended env s dir (libzeUtilRmdir env.calls.toDirCalls dir s) :=
    libzeUtilRmdir_ended
  have hrun := @removeTree_dangling env s t dir name d (libzeMaxPathLen - 1) done rest horderly
    (by omega) hfind hread hcleared hfit hdangling
  have haccess : (env.access dir s).1 = 0 := access_ok_iff.mpr ⟨hrefusal dir s, _, hfind⟩
  have habsent := hmeet.absent
  generalize libzeUtilRmdir env.calls.toDirCalls dir s = r at hended habsent
  cases hended with
  | refused _ => exact habsent rfl d hfind
  | failed _ _ htree =>
    obtain rfl := congrArg Prod.fst (hrun.symm.trans htree)
    exact habsent rfl d hfind
  | emptied _ htree => cases hrun.symm.trans htree

end Needed

end Harm

/-! ## Directories of files -/

section Files
variable {cwd : Loc FileName} {s t : Fs} {dir path name : CStr} {d g y : Loc FileName}
  {done : List CStr}

/-- A directory of files loses only what has been cleared. -/
theorem node_of_cleared (h : Cleared cwd dir d s done t)
    (hfiles : ∀ n ∈ s.names d, ∃ content, s.node (d ++ [n]) = some (.file content))
    (hy : ∀ n : FileName, n.val ∈ done → y ≠ d ++ [n]) : t.node y = s.node y := by
  induction h with
  | start => rfl
  | stays _ _ _ _ ih => exact ih hfiles fun n hn => hy n (List.mem_append_left _ hn)
  | @file _ g _ _ t n _ _ _ _ _ _ ih =>
    have hne : y ≠ g ++ [n] := hy n (List.mem_append_right _ (List.mem_singleton_self _))
    rw [DirTree.node_unlink_of_ne hne]
    exact ih hfiles fun m hm => hy m (List.mem_append_left _ hm)
  | @dir _ g s _ _ n _ _ h _ _ hbelow hfind _ _ _ =>
    obtain ⟨_, _, hnode⟩ := findPath_eq_ok_iff.mp hfind
    have hdir : s.node (g ++ [n]) = some .dir := (hbelow.within.trans h.within).eq_of_some hnode
    have hmem : n ∈ s.names g := by
      rw [s.mem_names, hdir]
      exact Option.some_ne_none _
    obtain ⟨content, hfile⟩ := hfiles n hmem
    rw [hdir] at hfile
    cases hfile

/-- While the files of a directory are cleared its path and the entries that are left lead where
they did. -/
theorem found_of_cleared (hfind : findPath cwd s dir = .ok (d, .dir))
    (hfiles : ∀ n ∈ s.names d, ∃ content, s.node (d ++ [n]) = some (.file content))
    (h : Cleared cwd dir d s done t) (hdone : ∀ k ∈ done, k ∈ listing s d)
    (hname : name ∈ listing s d) (hleft : name ∉ done) :
    ∃ found, findPath cwd t (dir ++ '/' :: name) = .ok found := by
  obtain ⟨l, hl, hd⟩ := findPath_eq_ok_iff.mp hfind
  have hkept : ∀ y v, s.node y = some v → (∀ content, v ≠ .file content) → t.node y = some v := by
    intro y v hv hno
    rw [← hv]
    apply node_of_cleared h hfiles
    intro m hm heq
    obtain hdot | hdots | ⟨k, hk, hval⟩ := mem_listing.mp (hdone m.val hm)
    · exact m.property.2.1 hdot
    · exact m.property.2.2.1 hdots
    · obtain rfl := Subtype.ext hval
      obtain ⟨content, hfile⟩ := hfiles m hk
      rw [← heq, hv] at hfile
      exact hno content (Option.some.inj hfile)
  have hdir : t.node d = some .dir := hkept d .dir hd fun _ heq => by cases heq
  have hpath : resolvePath cwd t.node dir = .ok (d, l) := by
    have hnil := resolvePath_ne_nil hl
    rw [resolvePath_eq_walk hnil] at hl ⊢
    apply walk_of_leads
    apply (leads_of_walk hl).of_same (hdir.trans hd.symm)
    · exact fun z hz => hkept z .dir hz fun _ heq => by cases heq
    · exact fun z target hz => hkept z (.link target) hz fun _ heq => by cases heq
  obtain rfl | rfl | ⟨n, hn, rfl⟩ := mem_listing.mp hname
  · exact ⟨_, findPath_dot hpath hdir⟩
  · exact ⟨_, findPath_dots hpath hdir⟩
  · obtain ⟨content, hfile⟩ := hfiles n hn
    have hsame : t.node (d ++ [n]) = s.node (d ++ [n]) := by
      apply node_of_cleared h hfiles
      intro m hm heq
      obtain rfl : n = m := by simpa using heq
      exact hleft hm
    exact ⟨_, findPath_name hpath hdir (hsame.trans hfile) fun _ heq => by cases heq⟩

/-- A directory that holds nothing but files can do no harm. -/
theorem harmless_of_files (hfiles : ∀ d, findPath cwd s dir = .ok (d, .dir) → ∀ n ∈ s.names d,
    ∃ content, s.node (d ++ [n]) = some (.file content)) : Harmless cwd s dir 0 := by
  intro d hfind
  have hfiles := hfiles d hfind
  obtain ⟨l, hl, hd⟩ := findPath_eq_ok_iff.mp hfind
  have hroot : ∀ {path g}, Reached cwd s dir path g → path = dir ∧ g = d := by
    intro path g hreached
    induction hreached with
    | root _ hroot =>
      rw [hfind] at hroot
      cases hroot
      exact ⟨rfl, rfl⟩
    | @step path g m x _ hm _ hfound ih =>
      rw [ih.1] at hfound
      rw [ih.2] at hm
      obtain ⟨content, hfile⟩ := hfiles m hm
      rw [findPath_name hl hd hfile fun _ heq => by cases heq] at hfound
      cases hfound
  refine ⟨rfl, fun path g n hreached _ _ _ => ?_, fun done name rest t horder hcleared _ => ?_⟩
  · rw [(hroot hreached).2]
    exact List.prefix_append d [n]
  · have hnodup : (done ++ name :: rest).Nodup :=
      horder.nodup_iff.mpr ((Env.faultless.order_perm dir d s).nodup_iff.mp Env.nodup_order)
    have hlisted : ∀ k ∈ done ++ name :: rest, k ∈ listing s d := fun k hk => horder.mem_iff.mp hk
    obtain ⟨found, hfound⟩ := found_of_cleared hfind hfiles hcleared
      (fun k hk => hlisted k (List.mem_append_left _ hk))
      (hlisted name (List.mem_append_right _ List.mem_cons_self))
      fun hmem => (List.nodup_append.mp hnodup).2.2 _ hmem _ List.mem_cons_self rfl
    rw [hfound]
    exact fun heq => by cases heq

end Files

/-- In every order of the entries and with every fault, a removal does what it is to do exactly if
the directory is one that it can do no harm to. -/
theorem rmdir_meets_iff (cwd : Loc FileName) (s : Fs) (dir : CStr) (refused : Nat) :
    (∀ env : Env, env.cwd = cwd → env.refusal dir s = refused → Meets env s dir) ↔
      Harmless cwd s dir refused := by
  constructor
  · intro hmeets d hfind
    exact ⟨refused_of_meets hmeets hfind, contained_of_meets hmeets hfind,
      lasting_of_meets hmeets hfind⟩
  · intro h env hcwd hrefusal
    rw [← hcwd, ← hrefusal] at h
    exact meets_of_harmless h

/-- A directory with a file. -/
def filledDir : Fs := (DirTree.empty.put [] nameD .dir empty_root empty_vacant).put [nameD] nameF
  (.file [120]) put_empty_node rfl

theorem rmdir_meets_iff_filled : ∀ env : Env, env.cwd = [] → env.refusal "/d" filledDir = 0 →
    Meets env filledDir "/d" := by
  apply (rmdir_meets_iff [] filledDir "/d" 0).mpr
  apply harmless_of_files
  intro d hfind n hn
  have hplace : findPath [] filledDir "/d" = .ok ([nameD], .dir) := by
    decide +kernel
  rw [hplace] at hfind
  cases hfind
  have hnames : filledDir.names [nameD] = [nameF] := by
    decide +kernel
  rw [hnames] at hn
  rw [List.mem_singleton.mp hn]
  exact ⟨[120], by decide +kernel⟩

/-- A directory with a link to another one, which holds a file. -/
def linkedTree : Fs :=
  (((DirTree.empty.put [] nameD .dir empty_root empty_vacant).put [] nameO .dir rfl rfl).put
    [nameD] nameL (.link ⟨true, [.name nameO]⟩) rfl rfl).put [nameO] nameF (.file []) rfl rfl

/-- A directory with a link to nothing. -/
def danglingTree : Fs :=
  (DirTree.empty.put [] nameD .dir empty_root empty_vacant).put [nameD] nameL
    (.link ⟨true, [.name nameO]⟩) put_empty_node rfl

/-- The file behind the link goes, and a link to nothing makes a directory that is there count as
one that is not. -/
theorem not_rmdir_meets :
    ¬ Meets .faultless linkedTree "/d" ∧ ¬ Meets .faultless danglingTree "/d" := by
  have hlinked : findPath [] linkedTree "/d" = .ok ([nameD], .dir) := by
    decide +kernel
  have hdangling : findPath [] danglingTree "/d" = .ok ([nameD], .dir) := by
    decide +kernel
  have hgone : (libzeUtilRmdir Env.faultless.calls.toDirCalls "/d" linkedTree).2.node
      [nameO, nameF] = none := by decide +kernel
  have hcode : (libzeUtilRmdir Env.faultless.calls.toDirCalls "/d" danglingTree).1 = enoent := by
    decide +kernel
  constructor
  · intro hmeets
    have hfile : linkedTree.node [nameO, nameF] ≠ none := by
      decide +kernel
    obtain ⟨d, hd, hinside⟩ := hmeets.inside _ (fun heq => hfile (heq ▸ hgone))
    rw [show Env.faultless.cwd = [] from rfl, hlinked] at hd
    cases hd
    exact absurd hinside (by decide +kernel)
  · exact fun hmeets => hmeets.absent hcode _ hdangling

end Zectl.Util.RmdirScope
