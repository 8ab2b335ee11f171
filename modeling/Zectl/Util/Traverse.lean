import Zectl.Lib.PathOrder
import Zectl.Util.Files

/-!
# Traversals over any system

`recursive_traverse`, its callbacks and their callers, over the calls of a system that is left
open: what a call answers and what it changes are arbitrary, links and special files included.
A file is copied block by block. What is in a directory, and what there is to read of a file,
is settled when it is opened. A path is shorter than the buffer, which bounds the depth.
-/

namespace Zectl.Util.Traverse

open Zectl.Lib.StateRun Zectl.Util.CString
open Zectl.Util.Files (enoent enotdir enametoolong)

/-- What `S_ISREG` and `S_ISDIR` tell apart. -/
inductive FileMode
  | regular
  | directory
  | other
deriving DecidableEq, Repr

/-- The calls on directories and paths: `errno` of each, or 0 where it succeeds. -/
structure DirCalls (σ : Type) where
  access : CStr → StateM σ Nat
  opendir : CStr → StateM σ Nat
  readdir : CStr → σ → List CStr
  closedir : CStr → StateM σ Nat
  stat : CStr → StateM σ (Except Nat FileMode)
  stat_ne : ∀ path s, (stat path s).1 ≠ .error 0
  mkdir : CStr → StateM σ Nat
  remove : CStr → StateM σ Nat
  rmdir : CStr → StateM σ Nat

/-- The calls on streams. A read that fails comes back short. A flush writes what the stream
has held back, and so does the `fclose` behind it. -/
structure FileCalls (σ : Type) extends DirCalls σ where
  fopenRead : CStr → StateM σ Nat
  fopenWrite : CStr → StateM σ Nat
  content : CStr → σ → List UInt8
  fread : CStr → StateM σ Nat
  fwrite : CStr → List UInt8 → StateM σ Nat
  fflush : CStr → StateM σ Nat

/-- `COPY_BUFLEN` -/
def copyBuflen : Nat := 4096

/-- `traverse_cb` -/
abbrev TraverseCb (σ : Type) := CStr → CStr → FileMode → StateM σ Nat

/-- The path of an entry, unless it is too long. -/
def itemPath (dirname filenameSuffix : CStr) : Option CStr :=
  let (len, path) := strlcpy dirname libzeMaxPathLen
  let (len', path) := strlcat path filenameSuffix libzeMaxPathLen
  if libzeMaxPathLen ≤ len ∨ libzeMaxPathLen ≤ len' then none else some path

/-- What is before each slash of a path but a first one. -/
def slashPrefixes (before : CStr) : CStr → List CStr
  | [] => []
  | c :: rest =>
    if c = '/' ∧ before ≠ [] then before :: slashPrefixes (before ++ [c]) rest
    else slashPrefixes (before ++ [c]) rest

section Calls
variable {σ : Type} (calls : DirCalls σ)

/-- The loop of `recursive_traverse`, where `ret` is whether the callback failed. -/
def traverseEntries (cb : TraverseCb σ) (directoryPath : CStr) : List CStr → StateM σ Nat
  | [] => return 0
  | name :: rest => do
    let (len, buf) := strlcat "/" name libzeMaxPathLen
    if libzeMaxPathLen ≤ len then return enametoolong
    let (len, fin) := strlcpy buf (libzeMaxPathLen - directoryPath.length)
    if libzeMaxPathLen - directoryPath.length ≤ len then return enametoolong
    match ← calls.stat (directoryPath ++ fin) with
    | .error code => return code
    | .ok st =>
      if (← cb directoryPath buf st) ≠ 0 then return 1
      traverseEntries cb directoryPath rest

/-- `recursive_traverse` -/
def recursiveTraverse (cb : TraverseCb σ) (directoryPath : CStr) : StateM σ Nat := do
  if libzeMaxPathLen ≤ (strlcpy directoryPath libzeMaxPathLen).1 then return enametoolong
  let code ← calls.opendir directoryPath
  if code ≠ 0 then return code
  let ret ← traverseEntries calls cb directoryPath (calls.readdir directoryPath (← get))
  let code ← calls.closedir directoryPath
  if code ≠ 0 ∧ ret = 0 then return code
  return ret

/-- `mkdir` of the destination, which may be there already. -/
def mkdirExisting (path : CStr) : StateM σ Nat := do
  if (← calls.mkdir path) = 0 then return 0
  match ← calls.stat path with
  | .error code => return code
  | .ok .directory => return 0
  | .ok _ => return enotdir

/-- `copy_cb`; `descend` is the traversal of a directory with the callback for its
destination, `copyFile` is `libze_util_copy_file`. -/
def copyCb (copyFile descend : CStr → CStr → StateM σ Nat) (dest : CStr) : TraverseCb σ :=
  fun dirname filenameSuffix st => do
    let err ← mkdirExisting calls dest
    if err ≠ 0 then return err
    match itemPath dirname filenameSuffix, itemPath dest filenameSuffix with
    | some pathToItem, some newPath =>
      match st with
      | .directory =>
        if filenameSuffix = ("/." : CStr) ∨ filenameSuffix = ("/.." : CStr) then return 0
        descend pathToItem newPath
      | .regular => copyFile pathToItem newPath
      | .other => return 0
    | _, _ => return enametoolong

/-- `recursive_traverse` with `copy_cb`, to a bounded depth. -/
def copyTree (copyFile : CStr → CStr → StateM σ Nat) : Nat → CStr → CStr → StateM σ Nat
  | 0, _, _ => return enametoolong
  | depth + 1, directoryPath, dest =>
    recursiveTraverse calls (copyCb calls copyFile (copyTree copyFile depth) dest) directoryPath

/-- `rmdir_cb` -/
def rmdirCb (descend : CStr → StateM σ Nat) : TraverseCb σ :=
  fun dirname filenameSuffix st => do
    match itemPath dirname filenameSuffix with
    | none => return enametoolong
    | some pathToItem =>
      match st with
      | .directory =>
        if filenameSuffix = ("/." : CStr) ∨ filenameSuffix = ("/.." : CStr) then return 0
        let ret ← descend pathToItem
        if ret ≠ 0 then return ret
        calls.rmdir pathToItem
      | .regular => calls.remove pathToItem
      | .other => return 0

/-- `recursive_traverse` with `rmdir_cb`, to a bounded depth. -/
def removeTree : Nat → CStr → StateM σ Nat
  | 0, _ => return enametoolong
  | depth + 1, directoryPath =>
    recursiveTraverse calls (rmdirCb calls (removeTree depth)) directoryPath

/-- `libze_util_rmdir` -/
def libzeUtilRmdir (directoryPath : CStr) : StateM σ Nat := do
  if (← calls.access directoryPath) ≠ 0 then return enoent
  let ret ← removeTree calls libzeMaxPathLen directoryPath
  if ret ≠ 0 then return ret
  calls.rmdir directoryPath

def mkdirAll : List CStr → StateM σ Nat
  | [] => return 0
  | path :: rest => do
    let err ← mkdirExisting calls path
    if err ≠ 0 then return err
    mkdirAll rest

/-- `libze_util_mkdir` -/
def libzeUtilMkdir (directoryPath : CStr) : StateM σ Nat :=
  let pathBuf := (strlcpy directoryPath libzeMaxPathLen).2
  mkdirAll calls (slashPrefixes [] pathBuf ++ [pathBuf])

end Calls

section Streams
variable {σ : Type} (calls : FileCalls σ)

/-- `libze_util_copy_filepointer`, with what is left to read of the file. Nobody asks whether the
flush at its end has written anything. -/
def libzeUtilCopyFilepointer (file newFile : CStr) (left : List UInt8) : StateM σ Nat := do
  let code ← calls.fread file
  if code ≠ 0 then return code
  match left with
  | [] =>
    let _ ← calls.fflush newFile
    return 0
  | byte :: bytes =>
    let code ← calls.fwrite newFile ((byte :: bytes).take copyBuflen)
    if code ≠ 0 then return code
    libzeUtilCopyFilepointer file newFile ((byte :: bytes).drop copyBuflen)
termination_by left.length
decreasing_by
  rw [List.length_drop, List.length_cons, copyBuflen]
  omega

/-- `libze_util_copy_file` -/
def libzeUtilCopyFile (filename newFilename : CStr) : StateM σ Nat := do
  let code ← calls.fopenRead filename
  if code ≠ 0 then return code
  let code ← calls.fopenWrite newFilename
  if code ≠ 0 then return code
  libzeUtilCopyFilepointer calls filename newFilename (calls.content filename (← get))

/-- `libze_util_copydir` -/
def libzeUtilCopydir (directoryPath newDirectoryPath : CStr) : StateM σ Nat :=
  copyTree calls.toDirCalls (libzeUtilCopyFile calls) libzeMaxPathLen directoryPath newDirectoryPath

end Streams

section Steps
variable {σ : Type} {calls : DirCalls σ} {cb cb' : TraverseCb σ} {dir name suffix : CStr}
  {rest : List CStr} {copyFile : CStr → CStr → StateM σ Nat} {s t u : σ} {e : Nat}

/-- A part of a program that may fail, and what follows it. -/
theorem run_guard {m k : StateM σ Nat} (hm : m s = (e, t)) :
    (m >>= fun code => if code ≠ 0 then pure code else k) s = if e ≠ 0 then (e, t) else k t := by
  rw [run_bind, hm, run_ite]
  rfl

theorem stat_error_ne {path : CStr} (h : calls.stat path s = (.error e, t)) : e ≠ 0 := by
  intro he
  apply calls.stat_ne path s
  rw [h, he]

theorem traverseEntries_cons : traverseEntries calls cb dir (name :: rest) =
    if dir.length + 1 + name.length < libzeMaxPathLen then do
      match ← calls.stat (dir ++ '/' :: name) with
      | .error code => return code
      | .ok st =>
        if (← cb dir ('/' :: name) st) ≠ 0 then return 1
        traverseEntries calls cb dir rest
    else return enametoolong := by
  have hcat : strlcat "/" name libzeMaxPathLen =
      (1 + name.length, '/' :: name.take (libzeMaxPathLen - 1 - 1)) := rfl
  have hcopy : ∀ buf size, strlcpy buf size = (buf.length, buf.take (size - 1)) := fun _ _ => rfl
  rw [traverseEntries, hcat]
  simp only [hcopy]
  by_cases hfit : dir.length + 1 + name.length < libzeMaxPathLen
  · have hname : name.take (libzeMaxPathLen - 1 - 1) = name := List.take_of_length_le (by omega)
    rw [if_pos hfit, if_neg (by omega), hname, List.length_cons, if_neg (by omega),
      List.take_of_length_le (by rw [List.length_cons]; omega)]
  · rw [if_neg hfit]
    by_cases hlong : libzeMaxPathLen ≤ 1 + name.length
    · rw [if_pos hlong]
    · have hname : name.take (libzeMaxPathLen - 1 - 1) = name := List.take_of_length_le (by omega)
      rw [if_neg hlong, hname, List.length_cons, if_pos (by omega)]

theorem itemPath_eq : itemPath dir suffix =
    if dir.length + suffix.length < libzeMaxPathLen then some (dir ++ suffix) else none := by
  unfold itemPath
  by_cases hdir : dir.length < libzeMaxPathLen
  · have hcopy : strlcpy dir libzeMaxPathLen = (dir.length, dir) := by
      rw [strlcpy, take_of_fits hdir]
    have hcat : strlcat dir suffix libzeMaxPathLen = (dir.length + suffix.length,
        dir ++ suffix.take (libzeMaxPathLen - 1 - dir.length)) := by
      rw [strlcat, if_neg (Nat.not_le.mpr hdir)]
    rw [hcopy]
    dsimp only
    rw [hcat]
    by_cases hfit : dir.length + suffix.length < libzeMaxPathLen
    · rw [if_neg (by omega), if_pos hfit, List.take_of_length_le (by omega)]
    · rw [if_pos (by omega), if_neg hfit]
  · dsimp only [strlcpy]
    rw [if_pos (.inl (Nat.not_lt.mp hdir)), if_neg (by omega)]

theorem traverseEntries_congr
    (hcb : ∀ name ∈ rest, ∀ st, cb dir ('/' :: name) st = cb' dir ('/' :: name) st) :
    traverseEntries calls cb dir rest = traverseEntries calls cb' dir rest := by
  induction rest with
  | nil => rfl
  | cons name rest ih =>
    rw [traverseEntries_cons, traverseEntries_cons,
      ih fun name hname => hcb name (List.mem_cons_of_mem _ hname)]
    simp only [hcb name List.mem_cons_self]

theorem recursiveTraverse_congr
    (hcb : ∀ name st, cb dir ('/' :: name) st = cb' dir ('/' :: name) st) :
    recursiveTraverse calls cb dir = recursiveTraverse calls cb' dir := by
  have hentries : ∀ names,
      traverseEntries calls cb dir names = traverseEntries calls cb' dir names :=
    fun names => traverseEntries_congr fun name _ => hcb name
  unfold recursiveTraverse
  simp only [hentries]

theorem recursiveTraverse_long (h : libzeMaxPathLen ≤ dir.length) :
    recursiveTraverse calls cb dir = pure enametoolong := if_pos h

theorem recursiveTraverse_eq (hfit : dir.length < libzeMaxPathLen) :
    recursiveTraverse calls cb dir =
      calls.opendir dir >>= fun code => if code ≠ 0 then pure code else do
        let ret ← traverseEntries calls cb dir (calls.readdir dir (← get))
        let code ← calls.closedir dir
        if code ≠ 0 ∧ ret = 0 then return code
        return ret := if_neg (Nat.not_le.mpr hfit)

theorem recursiveTraverse_refused (hfit : dir.length < libzeMaxPathLen)
    (hopen : calls.opendir dir s = (e, t)) (he : e ≠ 0) :
    recursiveTraverse calls cb dir s = (e, t) := by
  rw [recursiveTraverse_eq hfit, run_guard hopen, if_pos he]

theorem recursiveTraverse_run {ret : Nat} (hfit : dir.length < libzeMaxPathLen)
    (hopen : calls.opendir dir s = (0, t))
    (hentries : traverseEntries calls cb dir (calls.readdir dir t) t = (ret, u)) :
    recursiveTraverse calls cb dir s =
      ((if (calls.closedir dir u).1 ≠ 0 ∧ ret = 0 then (calls.closedir dir u).1 else ret),
        (calls.closedir dir u).2) := by
  rw [recursiveTraverse_eq hfit, run_guard hopen, if_neg (not_not.mpr rfl), run_get_bind,
    run_bind, hentries, run_bind, run_ite]
  split <;> rfl

/-- The bound on the depth is none: the path becomes too long first. -/
theorem copyTree_depth (depth : Nat) (dir dest : CStr) (h : libzeMaxPathLen ≤ dir.length + depth) :
    copyTree calls copyFile (depth + 1) dir dest = copyTree calls copyFile depth dir dest := by
  induction depth generalizing dir dest with
  | zero => exact recursiveTraverse_long h
  | succ depth ih =>
    apply recursiveTraverse_congr
    intro name st
    have hdescend := ih (dir ++ '/' :: name) (dest ++ '/' :: name)
      (by rw [List.length_append, List.length_cons]; omega)
    unfold copyCb
    rw [itemPath_eq, itemPath_eq]
    split
    · rename_i hitem hnew
      obtain rfl := Option.some.inj (Option.ite_none_right_eq_some.mp hitem).2
      obtain rfl := Option.some.inj (Option.ite_none_right_eq_some.mp hnew).2
      rw [hdescend]
    · rfl

theorem removeTree_depth (depth : Nat) (dir : CStr) (h : libzeMaxPathLen ≤ dir.length + depth) :
    removeTree calls (depth + 1) dir = removeTree calls depth dir := by
  induction depth generalizing dir with
  | zero => exact recursiveTraverse_long h
  | succ depth ih =>
    apply recursiveTraverse_congr
    intro name st
    have hdescend := ih (dir ++ '/' :: name) (by rw [List.length_append, List.length_cons]; omega)
    unfold rmdirCb
    rw [itemPath_eq]
    split
    · rfl
    · rename_i hitem
      obtain rfl := Option.some.inj (Option.ite_none_right_eq_some.mp hitem).2
      rw [hdescend]

theorem libzeUtilCopyFilepointer_eq {calls : FileCalls σ} {file newFile : CStr}
    {left : List UInt8} : libzeUtilCopyFilepointer calls file newFile left =
    calls.fread file >>= fun code => if code ≠ 0 then pure code else
      if left = [] then calls.fflush newFile >>= fun _ => pure 0 else
        calls.fwrite newFile (left.take copyBuflen) >>= fun code => if code ≠ 0 then pure code else
          libzeUtilCopyFilepointer calls file newFile (left.drop copyBuflen) := by
  rw [libzeUtilCopyFilepointer.eq_def]
  cases left <;> rfl

theorem dots_iff : ('/' :: name = ("/." : CStr) ∨ '/' :: name = ("/.." : CStr)) ↔
    name = ("." : CStr) ∨ name = (".." : CStr) :=
  or_congr (List.cons_inj_right '/') (List.cons_inj_right '/')

/-- `rmdir_cb` on an entry whose path fits. -/
theorem rmdirCb_eq {descend : CStr → StateM σ Nat} {st : FileMode}
    (hfit : dir.length + 1 + name.length < libzeMaxPathLen) :
    rmdirCb calls descend dir ('/' :: name) st =
      match st with
      | .directory =>
        if name = ("." : CStr) ∨ name = (".." : CStr) then pure 0
        else descend (dir ++ '/' :: name) >>= fun ret =>
          if ret ≠ 0 then pure ret else calls.rmdir (dir ++ '/' :: name)
      | .regular => calls.remove (dir ++ '/' :: name)
      | .other => pure 0 := by
  have hitem : itemPath dir ('/' :: name) = some (dir ++ '/' :: name) := by
    rw [itemPath_eq, if_pos]
    rw [List.length_cons]
    omega
  unfold rmdirCb
  rw [hitem]
  simp only [dots_iff]

/-- `copy_cb` on an entry whose paths fit, once the destination is there. -/
theorem copyCb_run {descend : CStr → CStr → StateM σ Nat} {dest : CStr} {st : FileMode}
    (hfit : dir.length + 1 + name.length < libzeMaxPathLen)
    (hdest : dest.length + 1 + name.length < libzeMaxPathLen)
    (hmkdir : mkdirExisting calls dest s = (0, t)) :
    copyCb calls copyFile descend dest dir ('/' :: name) st s =
      match st with
      | .directory =>
        if name = ("." : CStr) ∨ name = (".." : CStr) then (0, t)
        else descend (dir ++ '/' :: name) (dest ++ '/' :: name) t
      | .regular => copyFile (dir ++ '/' :: name) (dest ++ '/' :: name) t
      | .other => (0, t) := by
  have hitem : itemPath dir ('/' :: name) = some (dir ++ '/' :: name) := by
    rw [itemPath_eq, if_pos]
    rw [List.length_cons]
    omega
  have hnew : itemPath dest ('/' :: name) = some (dest ++ '/' :: name) := by
    rw [itemPath_eq, if_pos]
    rw [List.length_cons]
    omega
  unfold copyCb
  rw [run_guard hmkdir, if_neg (not_not.mpr rfl), hitem, hnew]
  cases st with
  | directory =>
    simp only [dots_iff]
    rw [run_ite]
    rfl
  | regular | other => rfl

end Steps

end Zectl.Util.Traverse
