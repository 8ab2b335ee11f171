import Zectl.Util.FileSystem

/-!
# The error numbers of a traversal

A run that fails stops at an operation, in the traversal of the directory that was given or in a
callback, and every failure can be told so. `recursive_traverse` keeps the error number of the
first kind and makes 1 of the second.
-/

namespace Zectl.Util.TraverseErrors

open Zectl.Lib.StateRun Zectl.Lib.FileTree Zectl.Util.CString Zectl.Util.Traverse
open Zectl.Util.FileSystem
open Zectl.Util.Files (enametoolong eacces enotdir)

/-- What may stop a run. -/
inductive Operation
  | opendir | stat | fopen | fread | fwrite | remove | rmdir | pathLength | closedir | notDirectory
deriving DecidableEq, Repr

/-- The traversal of the directory that was given, or a callback. -/
inductive Level
  | here
  | below
deriving DecidableEq, Repr

structure Failure where
  op : Operation
  errno : Nat
  level : Level

def Failure.tooLong : Failure := ⟨.pathLength, enametoolong, .here⟩

/-- How a callback fails. -/
abbrev CbFails (σ : Type) := CStr → CStr → FileMode → σ → Operation → Nat → Prop

section Failures
variable {σ : Type}

section Copy
variable (calls : FileCalls σ)

inductive FilepointerFails (file newFile : CStr) : List UInt8 → σ → Operation → Nat → Prop
  | fread {left s t e} (h : calls.fread file s = (e, t)) (he : e ≠ 0) :
      FilepointerFails file newFile left s .fread e
  | fwrite {left s t u e} (hread : calls.fread file s = (0, t)) (hleft : left ≠ [])
      (h : calls.fwrite newFile (left.take copyBuflen) t = (e, u)) (he : e ≠ 0) :
      FilepointerFails file newFile left s .fwrite e
  | next {left s t u op e} (hread : calls.fread file s = (0, t)) (hleft : left ≠ [])
      (hwrite : calls.fwrite newFile (left.take copyBuflen) t = (0, u))
      (h : FilepointerFails file newFile (left.drop copyBuflen) u op e) :
      FilepointerFails file newFile left s op e

inductive CopyFileFails (file newFile : CStr) : σ → Operation → Nat → Prop
  | fopenRead {s t e} (h : calls.fopenRead file s = (e, t)) (he : e ≠ 0) :
      CopyFileFails file newFile s .fopen e
  | fopenWrite {s t u e} (hopen : calls.fopenRead file s = (0, t))
      (h : calls.fopenWrite newFile t = (e, u)) (he : e ≠ 0) :
      CopyFileFails file newFile s .fopen e
  | copy {s t u op e} (hopen : calls.fopenRead file s = (0, t))
      (hnew : calls.fopenWrite newFile t = (0, u))
      (h : FilepointerFails calls file newFile (calls.content file u) u op e) :
      CopyFileFails file newFile s op e

end Copy

variable (calls : DirCalls σ)

/-- A destination that cannot be made and is not there as a directory. -/
inductive MkdirFails (path : CStr) : σ → Operation → Nat → Prop
  | stat {s t u c e} (hmkdir : calls.mkdir path s = (c, t)) (hc : c ≠ 0)
      (h : calls.stat path t = (.error e, u)) : MkdirFails path s .stat e
  | notDirectory {s t u c mode} (hmkdir : calls.mkdir path s = (c, t)) (hc : c ≠ 0)
      (h : calls.stat path t = (.ok mode, u)) (hmode : mode ≠ .directory) :
      MkdirFails path s .notDirectory enotdir

section Traversal
variable (cb : TraverseCb σ) (cbFails : CbFails σ) (dir : CStr)

/-- How the loop over the entries fails. -/
inductive EntriesFail : List CStr → σ → Failure → Prop
  | long {name rest s} (h : libzeMaxPathLen ≤ dir.length + 1 + name.length) :
      EntriesFail (name :: rest) s .tooLong
  | stat {name rest s t e} (hfit : dir.length + 1 + name.length < libzeMaxPathLen)
      (h : calls.stat (dir ++ '/' :: name) s = (.error e, t)) :
      EntriesFail (name :: rest) s ⟨.stat, e, .here⟩
  | callback {name rest s t st op e} (hfit : dir.length + 1 + name.length < libzeMaxPathLen)
      (hstat : calls.stat (dir ++ '/' :: name) s = (.ok st, t))
      (h : cbFails dir ('/' :: name) st t op e) :
      EntriesFail (name :: rest) s ⟨op, e, .below⟩
  | later {name rest s t u st f} (hfit : dir.length + 1 + name.length < libzeMaxPathLen)
      (hstat : calls.stat (dir ++ '/' :: name) s = (.ok st, t))
      (hcb : cb dir ('/' :: name) st t = (0, u)) (h : EntriesFail rest u f) :
      EntriesFail (name :: rest) s f

inductive TraverseFails : σ → Failure → Prop
  | long {s} (h : libzeMaxPathLen ≤ dir.length) : TraverseFails s .tooLong
  | opendir {s t e} (hfit : dir.length < libzeMaxPathLen) (h : calls.opendir dir s = (e, t))
      (he : e ≠ 0) : TraverseFails s ⟨.opendir, e, .here⟩
  | entry {s t f} (hfit : dir.length < libzeMaxPathLen) (hopen : calls.opendir dir s = (0, t))
      (h : EntriesFail calls cb cbFails dir (calls.readdir dir t) t f) : TraverseFails s f
  | closedir {s t u v e} (hfit : dir.length < libzeMaxPathLen)
      (hopen : calls.opendir dir s = (0, t))
      (hentries : traverseEntries calls cb dir (calls.readdir dir t) t = (0, u))
      (h : calls.closedir dir u = (e, v)) (he : e ≠ 0) : TraverseFails s ⟨.closedir, e, .here⟩

end Traversal

/-- How `copy_cb` fails, given how the traversal of a directory does and how a copy does. -/
inductive CopyCbFails (copyFails : CStr → CStr → σ → Operation → Nat → Prop)
    (descendFails : CStr → CStr → σ → Failure → Prop) (dest : CStr) : CbFails σ
  | mkdir {dirname suffix st s op e} (h : MkdirFails calls dest s op e) :
      CopyCbFails copyFails descendFails dest dirname suffix st s op e
  | long {dirname suffix st s t} (hdest : mkdirExisting calls dest s = (0, t))
      (h : itemPath dirname suffix = none ∨ itemPath dest suffix = none) :
      CopyCbFails copyFails descendFails dest dirname suffix st s .pathLength enametoolong
  | descend {dirname suffix s t path newPath f} (hdest : mkdirExisting calls dest s = (0, t))
      (hitem : itemPath dirname suffix = some path) (hnew : itemPath dest suffix = some newPath)
      (hdots : ¬ (suffix = ("/." : CStr) ∨ suffix = ("/.." : CStr)))
      (h : descendFails path newPath t f) :
      CopyCbFails copyFails descendFails dest dirname suffix .directory s f.op f.errno
  | copy {dirname suffix s t path newPath op e} (hdest : mkdirExisting calls dest s = (0, t))
      (hitem : itemPath dirname suffix = some path) (hnew : itemPath dest suffix = some newPath)
      (h : copyFails path newPath t op e) :
      CopyCbFails copyFails descendFails dest dirname suffix .regular s op e

/-- How `rmdir_cb` fails, given how the traversal of a directory runs and fails. -/
inductive RmdirCbFails (descend : CStr → StateM σ Nat) (descendFails : CStr → σ → Failure → Prop) :
    CbFails σ
  | long {dirname suffix st s} (h : itemPath dirname suffix = none) :
      RmdirCbFails descend descendFails dirname suffix st s .pathLength enametoolong
  | descend {dirname suffix s path f} (hitem : itemPath dirname suffix = some path)
      (hdots : ¬ (suffix = ("/." : CStr) ∨ suffix = ("/.." : CStr)))
      (h : descendFails path s f) :
      RmdirCbFails descend descendFails dirname suffix .directory s f.op f.errno
  | rmdir {dirname suffix s t u path e} (hitem : itemPath dirname suffix = some path)
      (hdots : ¬ (suffix = ("/." : CStr) ∨ suffix = ("/.." : CStr)))
      (hdescend : descend path s = (0, t)) (h : calls.rmdir path t = (e, u)) (he : e ≠ 0) :
      RmdirCbFails descend descendFails dirname suffix .directory s .rmdir e
  | remove {dirname suffix s t path e} (hitem : itemPath dirname suffix = some path)
      (h : calls.remove path s = (e, t)) (he : e ≠ 0) :
      RmdirCbFails descend descendFails dirname suffix .regular s .remove e

def CopyTreeFails (copyFile : CStr → CStr → StateM σ Nat)
    (copyFails : CStr → CStr → σ → Operation → Nat → Prop) :
    Nat → CStr → CStr → σ → Failure → Prop
  | 0, _, _ => fun _ f => f = .tooLong
  | depth + 1, dir, dest =>
    TraverseFails calls (copyCb calls copyFile (copyTree calls copyFile depth) dest)
      (CopyCbFails calls copyFails (CopyTreeFails copyFile copyFails depth) dest) dir

def RemoveTreeFails : Nat → CStr → σ → Failure → Prop
  | 0, _ => fun _ f => f = .tooLong
  | depth + 1, dir => TraverseFails calls (rmdirCb calls (removeTree calls depth))
      (RmdirCbFails calls (removeTree calls depth) (RemoveTreeFails depth)) dir

/-- How `libze_util_rmdir` fails on a directory that `access` finds. -/
inductive RmdirFails (dir : CStr) : σ → Failure → Prop
  | traversal {s t f} (haccess : calls.access dir s = (0, t))
      (h : RemoveTreeFails calls libzeMaxPathLen dir t f) : RmdirFails dir s f
  | rmdir {s t u v e} (haccess : calls.access dir s = (0, t))
      (htraverse : removeTree calls libzeMaxPathLen dir t = (0, u))
      (h : calls.rmdir dir u = (e, v)) (he : e ≠ 0) : RmdirFails dir s ⟨.rmdir, e, .here⟩

/-- How `libze_util_copydir` fails. -/
def CopydirFails (calls : FileCalls σ) (dir newDir : CStr) : σ → Failure → Prop :=
  CopyTreeFails calls.toDirCalls (libzeUtilCopyFile calls) (CopyFileFails calls) libzeMaxPathLen
    dir newDir

end Failures

/-! ## What is returned -/

/-- What a traversal returns for a failure. -/
def Failure.returned (f : Failure) : Nat :=
  match f.level with
  | .here => f.errno
  | .below => 1

section Returned
variable {σ : Type} {s t : σ} {f : Failure} {op : Operation} {e : Nat}
  {dir dest file newFile name suffix path : CStr} {rest : List CStr} {st : FileMode}
  {left : List UInt8}

section Streams
variable {calls : FileCalls σ}

theorem FilepointerFails.result (h : FilepointerFails calls file newFile left s op e) :
    (libzeUtilCopyFilepointer calls file newFile left s).1 = e ∧ e ≠ 0 := by
  induction h with
  | fread h he =>
    rw [libzeUtilCopyFilepointer_eq, run_guard h, if_pos he]
    exact ⟨rfl, he⟩
  | fwrite hread hleft h he =>
    rw [libzeUtilCopyFilepointer_eq, run_guard hread, if_neg (not_not.mpr rfl), if_neg hleft,
      run_guard h, if_pos he]
    exact ⟨rfl, he⟩
  | next hread hleft hwrite _ ih =>
    rw [libzeUtilCopyFilepointer_eq, run_guard hread, if_neg (not_not.mpr rfl), if_neg hleft,
      run_guard hwrite, if_neg (not_not.mpr rfl)]
    exact ih

theorem exists_filepointerFails
    (h : (libzeUtilCopyFilepointer calls file newFile left s).1 ≠ 0) :
    ∃ op e, FilepointerFails calls file newFile left s op e := by
  induction hlen : left.length using Nat.strong_induction_on generalizing left s with
  | _ n ih =>
    rw [libzeUtilCopyFilepointer_eq] at h
    cases hread : calls.fread file s with
    | mk e t =>
      rw [run_guard hread] at h
      by_cases he : e = 0
      · subst he
        rw [if_neg (not_not.mpr rfl)] at h
        by_cases hleft : left = []
        · rw [if_pos hleft] at h
          exact absurd rfl h
        · rw [if_neg hleft] at h
          cases hwrite : calls.fwrite newFile (left.take copyBuflen) t with
          | mk e u =>
            rw [run_guard hwrite] at h
            by_cases he : e = 0
            · subst he
              rw [if_neg (not_not.mpr rfl)] at h
              have hpos : 0 < left.length := List.length_pos_of_ne_nil hleft
              have hdrop : (left.drop copyBuflen).length < n := by
                rw [List.length_drop, copyBuflen]
                omega
              obtain ⟨op, e, hfails⟩ := ih _ hdrop h rfl
              exact ⟨op, e, .next hread hleft hwrite hfails⟩
            · exact ⟨_, _, .fwrite hread hleft hwrite he⟩
      · exact ⟨_, _, .fread hread he⟩

theorem CopyFileFails.result (h : CopyFileFails calls file newFile s op e) :
    (libzeUtilCopyFile calls file newFile s).1 = e ∧ e ≠ 0 := by
  unfold libzeUtilCopyFile
  cases h with
  | fopenRead h he =>
    rw [run_guard h, if_pos he]
    exact ⟨rfl, he⟩
  | fopenWrite hopen h he =>
    rw [run_guard hopen, if_neg (not_not.mpr rfl), run_guard h, if_pos he]
    exact ⟨rfl, he⟩
  | copy hopen hnew h =>
    rw [run_guard hopen, if_neg (not_not.mpr rfl), run_guard hnew, if_neg (not_not.mpr rfl)]
    exact h.result

theorem exists_copyFileFails (h : (libzeUtilCopyFile calls file newFile s).1 ≠ 0) :
    ∃ op e, CopyFileFails calls file newFile s op e := by
  unfold libzeUtilCopyFile at h
  cases hopen : calls.fopenRead file s with
  | mk e t =>
    rw [run_guard hopen] at h
    by_cases he : e = 0
    · subst he
      rw [if_neg (not_not.mpr rfl)] at h
      cases hnew : calls.fopenWrite newFile t with
      | mk e u =>
        rw [run_guard hnew] at h
        by_cases he : e = 0
        · subst he
          rw [if_neg (not_not.mpr rfl)] at h
          obtain ⟨op, e, hfails⟩ := exists_filepointerFails h
          exact ⟨op, e, .copy hopen hnew hfails⟩
        · exact ⟨_, _, .fopenWrite hopen hnew he⟩
    · exact ⟨_, _, .fopenRead hopen he⟩

end Streams

variable {calls : DirCalls σ}

theorem MkdirFails.result (h : MkdirFails calls path s op e) :
    (mkdirExisting calls path s).1 = e ∧ e ≠ 0 := by
  unfold mkdirExisting
  cases h with
  | stat hmkdir hc h =>
    rw [run_bind, hmkdir, run_ite, if_neg hc, run_bind, h]
    exact ⟨rfl, stat_error_ne h⟩
  | notDirectory hmkdir hc h hmode =>
    rw [run_bind, hmkdir, run_ite, if_neg hc, run_bind, h]
    rename_i mode
    cases mode with
    | directory => exact absurd rfl hmode
    | regular | other => exact ⟨rfl, Nat.succ_ne_zero _⟩

theorem exists_mkdirFails (h : (mkdirExisting calls path s).1 ≠ 0) :
    ∃ op e, MkdirFails calls path s op e := by
  unfold mkdirExisting at h
  cases hmkdir : calls.mkdir path s with
  | mk c t =>
    rw [run_bind, hmkdir, run_ite] at h
    by_cases hc : c = 0
    · rw [if_pos hc] at h
      exact absurd rfl h
    · rw [if_neg hc, run_bind] at h
      cases hstat : calls.stat path t with
      | mk r u =>
        rw [hstat] at h
        cases r with
        | error e => exact ⟨_, _, .stat hmkdir hc hstat⟩
        | ok mode =>
          cases mode with
          | directory => exact absurd rfl h
          | regular | other =>
            exact ⟨_, _, .notDirectory hmkdir hc hstat FileMode.noConfusion⟩

/-! ## One level of a traversal -/

section Traversal
variable {cb : TraverseCb σ} {cbFails : CbFails σ}

theorem EntriesFail.result
    (hcb : ∀ name st s op e, cbFails dir ('/' :: name) st s op e → (cb dir ('/' :: name) st s).1 ≠ 0)
    (h : EntriesFail calls cb cbFails dir rest s f) :
    (traverseEntries calls cb dir rest s).1 = f.returned ∧ f.returned ≠ 0 := by
  induction h with
  | long h =>
    rw [traverseEntries_cons, if_neg (Nat.not_lt.mpr h)]
    exact ⟨rfl, Nat.succ_ne_zero _⟩
  | stat hfit h =>
    rw [traverseEntries_cons, if_pos hfit, run_bind, h]
    exact ⟨rfl, stat_error_ne h⟩
  | callback hfit hstat h =>
    rw [traverseEntries_cons, if_pos hfit, run_bind, hstat]
    dsimp only
    rw [run_bind, run_ite, if_pos (hcb _ _ _ _ _ h)]
    exact ⟨rfl, Nat.one_ne_zero⟩
  | later hfit hstat hrun _ ih =>
    rw [traverseEntries_cons, if_pos hfit, run_bind, hstat]
    dsimp only
    rw [run_bind, hrun, run_ite, if_neg (not_not.mpr rfl)]
    exact ih

theorem exists_entriesFail
    (hcb : ∀ name st s, (cb dir ('/' :: name) st s).1 ≠ 0 →
      ∃ op e, cbFails dir ('/' :: name) st s op e)
    (h : (traverseEntries calls cb dir rest s).1 ≠ 0) :
    ∃ f, EntriesFail calls cb cbFails dir rest s f := by
  induction rest generalizing s with
  | nil => exact absurd rfl h
  | cons name rest ih =>
    rw [traverseEntries_cons] at h
    by_cases hfit : dir.length + 1 + name.length < libzeMaxPathLen
    · rw [if_pos hfit, run_bind] at h
      cases hstat : calls.stat (dir ++ '/' :: name) s with
      | mk r t =>
        rw [hstat] at h
        cases r with
        | error e => exact ⟨_, .stat hfit hstat⟩
        | ok st =>
          dsimp only at h
          rw [run_bind, run_ite] at h
          by_cases hzero : (cb dir ('/' :: name) st t).1 = 0
          · rw [if_neg (not_not.mpr hzero)] at h
            obtain ⟨f, hf⟩ := ih h
            exact ⟨f, .later hfit hstat (run_eq_of_fst hzero) hf⟩
          · obtain ⟨op, e, hfails⟩ := hcb name st t hzero
            exact ⟨_, .callback hfit hstat hfails⟩
    · exact ⟨_, .long (Nat.not_lt.mp hfit)⟩

theorem TraverseFails.result
    (hcb : ∀ name st s op e, cbFails dir ('/' :: name) st s op e → (cb dir ('/' :: name) st s).1 ≠ 0)
    (h : TraverseFails calls cb cbFails dir s f) :
    (recursiveTraverse calls cb dir s).1 = f.returned ∧ f.returned ≠ 0 := by
  cases h with
  | long h =>
    rw [recursiveTraverse_long h]
    exact ⟨rfl, Nat.succ_ne_zero _⟩
  | opendir hfit h he =>
    rw [recursiveTraverse_refused hfit h he]
    exact ⟨rfl, he⟩
  | entry hfit hopen h =>
    obtain ⟨hret, hne⟩ := h.result hcb
    rw [recursiveTraverse_run hfit hopen (run_eq_of_fst hret), if_neg fun hzero => hne hzero.2]
    exact ⟨rfl, hne⟩
  | closedir hfit hopen hentries h he =>
    rw [recursiveTraverse_run hfit hopen hentries, h, if_pos ⟨he, rfl⟩]
    exact ⟨rfl, he⟩

theorem exists_traverseFails
    (hcb : ∀ name st s, (cb dir ('/' :: name) st s).1 ≠ 0 →
      ∃ op e, cbFails dir ('/' :: name) st s op e)
    (h : (recursiveTraverse calls cb dir s).1 ≠ 0) :
    ∃ f, TraverseFails calls cb cbFails dir s f := by
  by_cases hfit : dir.length < libzeMaxPathLen
  · cases hopen : calls.opendir dir s with
    | mk e t =>
      by_cases he : e = 0
      · subst he
        cases hentries : traverseEntries calls cb dir (calls.readdir dir t) t with
        | mk ret u =>
          by_cases hret : ret = 0
          · subst hret
            rw [recursiveTraverse_run hfit hopen hentries] at h
            by_cases hclose : (calls.closedir dir u).1 = 0
            · rw [if_neg fun hne => hne.1 hclose] at h
              exact absurd rfl h
            · exact ⟨_, .closedir hfit hopen hentries rfl hclose⟩
          · have hne : (traverseEntries calls cb dir (calls.readdir dir t) t).1 ≠ 0 := by
              rw [hentries]
              exact hret
            obtain ⟨f, hf⟩ := exists_entriesFail hcb hne
            exact ⟨f, .entry hfit hopen hf⟩
      · exact ⟨_, .opendir hfit hopen he⟩
  · exact ⟨_, .long (Nat.not_lt.mp hfit)⟩

end Traversal

/-! ## The callbacks -/

section Callbacks
variable {copyFile copyDir : CStr → CStr → StateM σ Nat} {removeDir : CStr → StateM σ Nat}
  {copyFails : CStr → CStr → σ → Operation → Nat → Prop}
  {copyDirFails : CStr → CStr → σ → Failure → Prop} {removeDirFails : CStr → σ → Failure → Prop}
  {dirname : CStr}

theorem CopyCbFails.result
    (hcopy : ∀ path newPath s op e, copyFails path newPath s op e → (copyFile path newPath s).1 ≠ 0)
    (hdescend : ∀ path newPath s f, copyDirFails path newPath s f → (copyDir path newPath s).1 ≠ 0)
    (h : CopyCbFails calls copyFails copyDirFails dest dirname suffix st s op e) :
    (copyCb calls copyFile copyDir dest dirname suffix st s).1 ≠ 0 := by
  unfold copyCb
  cases h with
  | mkdir h =>
    obtain ⟨hret, hne⟩ := h.result
    rw [run_guard (run_eq_of_fst hret), if_pos hne]
    exact hne
  | long hdest h =>
    rw [run_guard hdest, if_neg (not_not.mpr rfl)]
    obtain hnone | hnone := h
    · rw [hnone]
      cases st <;> exact Nat.succ_ne_zero _
    · rw [hnone]
      cases itemPath dirname suffix <;> cases st <;> exact Nat.succ_ne_zero _
  | descend hdest hitem hnew hdots h =>
    rw [run_guard hdest, if_neg (not_not.mpr rfl), hitem, hnew]
    dsimp only
    rw [if_neg hdots]
    exact hdescend _ _ _ _ h
  | copy hdest hitem hnew h =>
    rw [run_guard hdest, if_neg (not_not.mpr rfl), hitem, hnew]
    exact hcopy _ _ _ _ _ h

theorem exists_copyCbFails
    (hcopy : ∀ path newPath s, (copyFile path newPath s).1 ≠ 0 →
      ∃ op e, copyFails path newPath s op e)
    (hdescend : ∀ path newPath s, (copyDir path newPath s).1 ≠ 0 →
      ∃ f, copyDirFails path newPath s f)
    (h : (copyCb calls copyFile copyDir dest dirname suffix st s).1 ≠ 0) :
    ∃ op e, CopyCbFails calls copyFails copyDirFails dest dirname suffix st s op e := by
  unfold copyCb at h
  by_cases hzero : (mkdirExisting calls dest s).1 = 0
  · have hdest := run_eq_of_fst hzero
    rw [run_guard hdest, if_neg (not_not.mpr rfl)] at h
    cases hitem : itemPath dirname suffix with
    | none => exact ⟨_, _, .long hdest (.inl hitem)⟩
    | some path =>
      cases hnew : itemPath dest suffix with
      | none => exact ⟨_, _, .long hdest (.inr hnew)⟩
      | some newPath =>
        rw [hitem, hnew] at h
        cases st with
        | other => exact absurd rfl h
        | regular =>
          obtain ⟨op, e, hfails⟩ := hcopy _ _ _ h
          exact ⟨op, e, .copy hdest hitem hnew hfails⟩
        | directory =>
          dsimp only at h
          split at h
          · exact absurd rfl h
          · rename_i hdots
            obtain ⟨f, hf⟩ := hdescend _ _ _ h
            exact ⟨_, _, .descend hdest hitem hnew hdots hf⟩
  · obtain ⟨op, e, hfails⟩ := exists_mkdirFails hzero
    exact ⟨op, e, .mkdir hfails⟩

theorem RmdirCbFails.result
    (hdescend : ∀ path s f, removeDirFails path s f → (removeDir path s).1 ≠ 0)
    (h : RmdirCbFails calls removeDir removeDirFails dirname suffix st s op e) :
    (rmdirCb calls removeDir dirname suffix st s).1 ≠ 0 := by
  unfold rmdirCb
  cases h with
  | long h =>
    rw [h]
    exact Nat.succ_ne_zero _
  | descend hitem hdots h =>
    have hne := hdescend _ _ _ h
    rw [hitem]
    dsimp only
    rw [if_neg hdots, run_guard (run_eq_of_fst rfl), if_pos hne]
    exact hne
  | rmdir hitem hdots hrun h he =>
    rw [hitem]
    dsimp only
    rw [if_neg hdots, run_guard hrun, if_neg (not_not.mpr rfl), h]
    exact he
  | remove hitem h he =>
    rw [hitem]
    dsimp only
    rw [h]
    exact he

theorem exists_rmdirCbFails
    (hdescend : ∀ path s, (removeDir path s).1 ≠ 0 → ∃ f, removeDirFails path s f)
    (h : (rmdirCb calls removeDir dirname suffix st s).1 ≠ 0) :
    ∃ op e, RmdirCbFails calls removeDir removeDirFails dirname suffix st s op e := by
  unfold rmdirCb at h
  cases hitem : itemPath dirname suffix with
  | none => exact ⟨_, _, .long hitem⟩
  | some path =>
    rw [hitem] at h
    cases st with
    | other => exact absurd rfl h
    | regular => exact ⟨_, _, .remove hitem rfl h⟩
    | directory =>
      dsimp only at h
      split at h
      · exact absurd rfl h
      · rename_i hdots
        by_cases hzero : (removeDir path s).1 = 0
        · have hrun := run_eq_of_fst hzero
          rw [run_guard hrun, if_neg (not_not.mpr rfl)] at h
          exact ⟨_, _, .rmdir hitem hdots hrun rfl h⟩
        · obtain ⟨f, hf⟩ := hdescend _ _ hzero
          exact ⟨_, _, .descend hitem hdots hf⟩

end Callbacks

/-! ## Whole runs -/

section Trees
variable {copyFile : CStr → CStr → StateM σ Nat}
  {copyFails : CStr → CStr → σ → Operation → Nat → Prop}

theorem CopyTreeFails.result {depth : Nat}
    (hcopy : ∀ path newPath s op e, copyFails path newPath s op e → (copyFile path newPath s).1 ≠ 0)
    (h : CopyTreeFails calls copyFile copyFails depth dir dest s f) :
    (copyTree calls copyFile depth dir dest s).1 = f.returned ∧ f.returned ≠ 0 := by
  induction depth generalizing dir dest s f with
  | zero =>
    obtain rfl : f = .tooLong := h
    exact ⟨rfl, Nat.succ_ne_zero _⟩
  | succ depth ih =>
    apply TraverseFails.result _ h
    intro name st s op e hcb
    apply hcb.result hcopy
    intro path newPath s f hf
    obtain ⟨hret, hne⟩ := ih hf
    rw [hret]
    exact hne

theorem exists_copyTreeFails {depth : Nat}
    (hcopy : ∀ path newPath s, (copyFile path newPath s).1 ≠ 0 →
      ∃ op e, copyFails path newPath s op e)
    (h : (copyTree calls copyFile depth dir dest s).1 ≠ 0) :
    ∃ f, CopyTreeFails calls copyFile copyFails depth dir dest s f := by
  induction depth generalizing dir dest s with
  | zero => exact ⟨_, rfl⟩
  | succ depth ih =>
    exact exists_traverseFails (fun _ _ _ => exists_copyCbFails hcopy fun _ _ _ => ih) h

theorem RemoveTreeFails.result {depth : Nat} (h : RemoveTreeFails calls depth dir s f) :
    (removeTree calls depth dir s).1 = f.returned ∧ f.returned ≠ 0 := by
  induction depth generalizing dir s f with
  | zero =>
    obtain rfl : f = .tooLong := h
    exact ⟨rfl, Nat.succ_ne_zero _⟩
  | succ depth ih =>
    apply TraverseFails.result _ h
    intro name st s op e hcb
    apply hcb.result
    intro path s f hf
    obtain ⟨hret, hne⟩ := ih hf
    rw [hret]
    exact hne

theorem exists_removeTreeFails {depth : Nat} (h : (removeTree calls depth dir s).1 ≠ 0) :
    ∃ f, RemoveTreeFails calls depth dir s f := by
  induction depth generalizing dir s with
  | zero => exact ⟨_, rfl⟩
  | succ depth ih => exact exists_traverseFails (fun _ _ _ => exists_rmdirCbFails fun _ _ => ih) h

theorem CopydirFails.result {calls : FileCalls σ} (h : CopydirFails calls dir dest s f) :
    (libzeUtilCopydir calls dir dest s).1 = f.returned := by
  refine (CopyTreeFails.result ?_ h).1
  intro path newPath s op e hf
  obtain ⟨hret, hne⟩ := hf.result
  rw [hret]
  exact hne

/-- A copy that fails has one of the failures. -/
theorem exists_copydirFails {calls : FileCalls σ}
    (h : (libzeUtilCopydir calls dir dest s).1 ≠ 0) : ∃ f, CopydirFails calls dir dest s f :=
  exists_copyTreeFails (fun _ _ _ => exists_copyFileFails) h

theorem RmdirFails.result (h : RmdirFails calls dir s f) :
    (libzeUtilRmdir calls dir s).1 = f.returned := by
  unfold libzeUtilRmdir
  cases h with
  | traversal haccess h =>
    obtain ⟨hret, hne⟩ := h.result
    rw [run_bind, haccess, run_ite, if_neg (not_not.mpr rfl), run_guard (run_eq_of_fst hret),
      if_pos hne]
  | rmdir haccess htraverse h he =>
    rw [run_bind, haccess, run_ite, if_neg (not_not.mpr rfl), run_guard htraverse,
      if_neg (not_not.mpr rfl), h]
    rfl

/-- A removal that fails on a directory that is found has one of the failures. -/
theorem exists_rmdirFails (haccess : (calls.access dir s).1 = 0)
    (h : (libzeUtilRmdir calls dir s).1 ≠ 0) : ∃ f, RmdirFails calls dir s f := by
  have hfound := run_eq_of_fst haccess
  unfold libzeUtilRmdir at h
  rw [run_bind, hfound, run_ite, if_neg (not_not.mpr rfl)] at h
  by_cases hzero : (removeTree calls libzeMaxPathLen dir (calls.access dir s).2).1 = 0
  · have htraverse := run_eq_of_fst hzero
    rw [run_guard htraverse, if_neg (not_not.mpr rfl)] at h
    exact ⟨_, .rmdir hfound htraverse rfl h⟩
  · obtain ⟨f, hf⟩ := exists_removeTreeFails hzero
    exact ⟨f, .traversal hfound hf⟩

end Trees

theorem returned_iff : f.returned = f.errno ↔ f.level = .here ∨ f.errno = 1 := by
  obtain ⟨op, e, level⟩ := f
  cases level with
  | here => exact iff_of_true rfl (.inl rfl)
  | below =>
    show 1 = e ↔ Level.below = Level.here ∨ e = 1
    constructor
    · intro h
      exact .inr h.symm
    · intro h
      obtain h | h := h
      · cases h
      · exact h.symm

end Returned

/-- A run that fails returns the error number of what failed exactly if that was in the traversal
of the directory it was given, or if the number is 1 anyway. -/
theorem errno_returned_iff {σ : Type} (calls : FileCalls σ) (dir newDir : CStr) (s : σ)
    (f : Failure) :
    (CopydirFails calls dir newDir s f →
      ((libzeUtilCopydir calls dir newDir s).1 = f.errno ↔ f.level = .here ∨ f.errno = 1)) ∧
    (RmdirFails calls.toDirCalls dir s f →
      ((libzeUtilRmdir calls.toDirCalls dir s).1 = f.errno ↔ f.level = .here ∨ f.errno = 1)) := by
  constructor
  · intro h
    rw [h.result]
    exact returned_iff
  · intro h
    rw [h.result]
    exact returned_iff

/-- A directory that holds another one. -/
def nestedDirs : Fs :=
  (DirTree.empty.put [] nameD .dir empty_root empty_vacant).put [nameD] nameX .dir
    put_empty_node rfl

/-- The inner directory may not be read. -/
def lockedEnv : Env :=
  { Env.faultless with
    fault := fun op path _ => if op = .opendir ∧ path = ("/d/x" : CStr) then eacces else 0
    fault_ne := by
      intro op path s
      split <;> decide }

theorem locked_opens {path : CStr} {s : Fs} {code : Nat}
    (h : (lockedEnv.opendir path s).1 = code) : lockedEnv.calls.opendir path s = (code, s) :=
  Prod.ext h Env.opendir_state

theorem locked_stats {path : CStr} {s : Fs} {r : Except Nat FileMode}
    (h : (lockedEnv.stat path s).1 = r) : lockedEnv.calls.stat path s = (r, s) :=
  Prod.ext h Env.stat_state

/-- The inner directory cannot be opened. -/
theorem locked_fails : RmdirFails lockedEnv.calls.toDirCalls "/d" nestedDirs
    ⟨.opendir, eacces, .below⟩ := by
  have haccess : (lockedEnv.access "/d" nestedDirs).1 = 0 := by decide +kernel
  have hopen : (lockedEnv.opendir "/d" nestedDirs).1 = 0 := by decide +kernel
  have hlist : lockedEnv.readdir "/d" nestedDirs = [".".toList, "..".toList, "x".toList] := by
    decide +kernel
  have hlocked : (lockedEnv.opendir "/d/x" nestedDirs).1 = eacces := by decide +kernel
  have hdot : (lockedEnv.stat "/d/." nestedDirs).1 = .ok .directory := by decide +kernel
  have hdots : (lockedEnv.stat "/d/.." nestedDirs).1 = .ok .directory := by decide +kernel
  have hx : (lockedEnv.stat "/d/x" nestedDirs).1 = .ok .directory := by decide +kernel
  have hfit : ("/d" : CStr).length < libzeMaxPathLen := by decide
  apply RmdirFails.traversal (Prod.ext haccess Env.access_state)
  show TraverseFails _ (rmdirCb _ (removeTree _ 254))
    (RmdirCbFails _ (removeTree _ 254) (RemoveTreeFails _ 254)) _ _ _
  apply TraverseFails.entry hfit (locked_opens hopen)
  show EntriesFail _ _ _ _ (lockedEnv.readdir "/d" nestedDirs) _ _
  rw [hlist]
  apply EntriesFail.later (by decide) (locked_stats hdot)
  · rw [rmdirCb_eq (by decide)]
    rfl
  apply EntriesFail.later (by decide) (locked_stats hdots)
  · rw [rmdirCb_eq (by decide)]
    rfl
  apply EntriesFail.callback (by decide) (locked_stats hx)
  have hitem : itemPath "/d" "/x" = some ("/d/x" : CStr) := rfl
  have hfail : RemoveTreeFails lockedEnv.calls.toDirCalls 254 "/d/x" nestedDirs
      ⟨.opendir, eacces, .here⟩ := .opendir (by decide) (locked_opens hlocked) (by decide)
  exact .descend hitem (by decide) hfail

/-- A directory below that cannot be opened for lack of permission makes the removal return
`EPERM`. -/
theorem not_errno_returned : ∃ f, RmdirFails lockedEnv.calls.toDirCalls "/d" nestedDirs f ∧
    (libzeUtilRmdir lockedEnv.calls.toDirCalls "/d" nestedDirs).1 ≠ f.errno := by
  refine ⟨_, locked_fails, ?_⟩
  rw [locked_fails.result]
  decide

theorem errno_returned_locked :
    ((libzeUtilCopydir lockedEnv.calls "/d/x" "/e" nestedDirs).1 = eacces ↔
      Level.here = Level.here ∨ eacces = 1) ∧
    ((libzeUtilRmdir lockedEnv.calls.toDirCalls "/d" nestedDirs).1 = eacces ↔
      Level.below = Level.here ∨ eacces = 1) := by
  have hlocked : (lockedEnv.opendir "/d/x" nestedDirs).1 = eacces := by decide +kernel
  have hcopy : CopydirFails lockedEnv.calls "/d/x" "/e" nestedDirs ⟨.opendir, eacces, .here⟩ :=
    TraverseFails.opendir (by decide) (locked_opens hlocked) (by decide)
  exact ⟨(errno_returned_iff lockedEnv.calls "/d/x" "/e" nestedDirs _).1 hcopy,
    (errno_returned_iff lockedEnv.calls "/d" "/e" nestedDirs _).2 locked_fails⟩

end Zectl.Util.TraverseErrors
