import Zectl.Lib.FileTree
import Zectl.Util.Traverse

/-!
# A file system with links

The calls of `libze_util.c` on a tree of files, directories, links and special files. The order
in which a directory is read and the faults of a call are those of an environment: a fault
is never `ENOENT`, and leaves the tree as it is but for a flush, which loses what its stream has
held back.
-/

namespace Zectl.Util.FileSystem

open Zectl.Lib.FileTree Zectl.Util.CString Zectl.Util.Traverse
open Zectl.Util.Files (enoent enotdir)

def ebusy : Nat := 16
def eexist : Nat := 17
def eisdir : Nat := 21
def einval : Nat := 22
def enotempty : Nat := 39
def eloop : Nat := 40

/-- The name of an entry of a directory, `.` and `..` apart. -/
def IsFileName (n : CStr) : Prop := n ≠ [] ∧ n ≠ ("." : CStr) ∧ n ≠ (".." : CStr) ∧ '/' ∉ n

instance (n : CStr) : Decidable (IsFileName n) := inferInstanceAs (Decidable (_ ∧ _ ∧ _ ∧ _))

abbrev FileName := {n : CStr // IsFileName n}

abbrev Fs := DirTree FileName (List UInt8)

abbrev FsNode := Node FileName (List UInt8)

/-- A component of a path; an empty one stays where it is. -/
def component (piece : CStr) : Comp FileName :=
  if h : IsFileName piece then .name ⟨piece, h⟩
  else if piece = (".." : CStr) then .up
  else .here

def pathComps (path : CStr) : List (Comp FileName) := (path.splitOn '/').map component

/-- The pieces of a path without the slashes behind the last one. -/
def piecesOf (path : CStr) : List CStr := (path.splitOn '/').rdropWhile (· = [])

/-- The most links of one path. -/
def maxSymlinks : Nat := 40

inductive FileOp
  | opendir | closedir | stat | mkdir | remove | rmdir | fopenRead | fopenWrite | fread | fwrite
  | fflush
deriving DecidableEq, Repr

/-- What the calls depend on besides the tree: the directory paths start from, the order of the
entries of a directory, the outcome of `access`, the faults, and how much of a file that was
written its stream holds back. -/
structure Env where
  cwd : Loc FileName
  order : CStr → Loc FileName → Fs → List CStr
  refusal : CStr → Fs → Nat
  fault : FileOp → CStr → Fs → Nat
  buffered : List UInt8 → Nat := fun content => content.length % copyBuflen
  order_perm : ∀ path x s,
    (order path x s).Perm (("." : CStr) :: (".." : CStr) :: (s.names x).map (·.val))
  fault_ne : ∀ op path s, fault op path s ≠ enoent

def errno : WalkError FileName → Nat
  | .absent _ _ | .missing => enoent
  | .notDirectory => enotdir
  | .tooManyLinks => eloop

def fileMode : FsNode → FileMode
  | .file _ => .regular
  | .dir => .directory
  | .link _ | .special => .other

def startOf (cwd : Loc FileName) (path : CStr) : Loc FileName :=
  if path.head? = some '/' then [] else cwd

/-- Where a path leads, the links on the way and at its end followed. -/
def resolvePath (cwd : Loc FileName) (node : Nodes FileName (List UInt8)) (path : CStr) :
    Walked FileName :=
  if path = [] then .error .missing
  else walk node maxSymlinks (startOf cwd path) (pathComps path)

/-- What a path leads to. -/
def findPath (cwd : Loc FileName) (s : Fs) (path : CStr) : Except Nat (Loc FileName × FsNode) :=
  match resolvePath cwd s.node path with
  | .error e => .error (errno e)
  | .ok (x, _) =>
    match s.node x with
    | none => .error enoent
    | some v => .ok (x, v)

/-- The directory a path leads to up to its last component, and that one. -/
def locatePath (cwd : Loc FileName) (s : Fs) (path : CStr) :
    Except Nat (Loc FileName × Option (Comp FileName)) :=
  if path = [] then .error enoent
  else
    match walk s.node maxSymlinks (startOf cwd path) ((piecesOf path).dropLast.map component) with
    | .error e => .error (errno e)
    | .ok (x, _) =>
      match s.node x with
      | none => .error enoent
      | some .dir => .ok (x, (piecesOf path).getLast?.map component)
      | some _ => .error enotdir

section Calls
variable (env : Env)

/-- A directory without entries goes. -/
def removeDir (x : Loc FileName) (n : FileName) : StateM Fs Nat := fun s =>
  if h : s.names (x ++ [n]) = [] then (0, s.unlink x n h) else (enotempty, s)

/-- The last component of what is removed, which has to be a name. -/
def withName (last : Option (Comp FileName)) (act : FileName → StateM Fs Nat) : StateM Fs Nat :=
  match last with
  | none => return ebusy
  | some .here => return einval
  | some .up => return enotempty
  | some (.name n) => act n

/-- A call that a fault of the environment prevents. -/
def Env.faulty (op : FileOp) (path : CStr) (act : Fs → StateM Fs Nat) : StateM Fs Nat := fun s =>
  if env.fault op path s ≠ 0 then (env.fault op path s, s) else act s s

def Env.opendir (path : CStr) : StateM Fs Nat :=
  env.faulty .opendir path fun s =>
    match findPath env.cwd s path with
    | .error code => return code
    | .ok (_, .dir) => return 0
    | .ok _ => return enotdir

def Env.readdir (path : CStr) (s : Fs) : List CStr :=
  match resolvePath env.cwd s.node path with
  | .error _ => []
  | .ok (x, _) => env.order path x s

def Env.stat (path : CStr) : StateM Fs (Except Nat FileMode) := fun s =>
  if env.fault .stat path s ≠ 0 then (.error (env.fault .stat path s), s)
  else ((findPath env.cwd s path).map fun found => fileMode found.2, s)

def Env.mkdir (path : CStr) : StateM Fs Nat :=
  env.faulty .mkdir path fun s =>
    match locatePath env.cwd s path with
    | .error code => return code
    | .ok (x, some (.name n)) =>
      if h : s.node x = some .dir ∧ s.node (x ++ [n]) = none ∧ s.names (x ++ [n]) = [] then do
        set (s.put x n .dir h.1 h.2.2)
        return 0
      else return eexist
    | .ok _ => return eexist

def Env.remove (path : CStr) : StateM Fs Nat :=
  env.faulty .remove path fun s =>
    match locatePath env.cwd s path with
    | .error code => return code
    | .ok (x, last) => withName last fun n =>
      match s.node (x ++ [n]) with
      | none => return enoent
      | some .dir => removeDir x n
      | some _ => if path.getLast? = some '/' then return enotdir else removeDir x n

def Env.rmdir (path : CStr) : StateM Fs Nat :=
  env.faulty .rmdir path fun s =>
    match locatePath env.cwd s path with
    | .error code => return code
    | .ok (x, last) => withName last fun n =>
      match s.node (x ++ [n]) with
      | none => return enoent
      | some .dir => removeDir x n
      | some _ => return enotdir

def Env.fopenRead (path : CStr) : StateM Fs Nat :=
  env.faulty .fopenRead path fun s =>
    match findPath env.cwd s path with
    | .error code => return code
    | .ok _ => return 0

/-- The content of a file becomes another one. -/
def setContent (s : Fs) (x : Loc FileName) (change : List UInt8 → List UInt8) : Fs :=
  match h : s.node x with
  | some (.file content) => s.write x (change content) ⟨content, h⟩
  | _ => s

/-- `fopen` with `w+b`, which truncates a file or makes it. -/
def Env.fopenWrite (path : CStr) : StateM Fs Nat :=
  env.faulty .fopenWrite path fun s =>
    match resolvePath env.cwd s.node path with
    | .error (.absent x n) =>
      if h : s.node x = some .dir ∧ s.names (x ++ [n]) = [] then do
        set (s.put x n (.file []) h.1 h.2)
        return 0
      else return enoent
    | .error e => return errno e
    | .ok (x, _) => do
      if s.node x = some .dir then return eisdir
      set (setContent s x fun _ => [])
      return 0

def Env.content (path : CStr) (s : Fs) : List UInt8 :=
  match findPath env.cwd s path with
  | .ok (_, .file content) => content
  | _ => []

def Env.fread (path : CStr) : StateM Fs Nat :=
  env.faulty .fread path fun s =>
    match findPath env.cwd s path with
    | .ok (_, .dir) => return eisdir
    | _ => return 0

def Env.fwrite (path : CStr) (block : List UInt8) : StateM Fs Nat :=
  env.faulty .fwrite path fun s =>
    match findPath env.cwd s path with
    | .ok (x, _) => do
      set (setContent s x fun content => content ++ block)
      return 0
    | .error _ => return 0

/-- The flush of a file all of which is in the tree already. -/
def Env.fflush (path : CStr) : StateM Fs Nat := fun s =>
  if env.fault .fflush path s = 0 then (0, s)
  else
    match findPath env.cwd s path with
    | .error _ => (env.fault .fflush path s, s)
    | .ok (x, _) => (env.fault .fflush path s,
        setContent s x fun content => content.take (content.length - env.buffered content))

/-- `access`, which the environment may refuse. -/
def Env.access (path : CStr) : StateM Fs Nat := fun s =>
  if env.refusal path s ≠ 0 then (env.refusal path s, s)
  else
    match findPath env.cwd s path with
    | .error code => (code, s)
    | .ok _ => (0, s)

theorem errno_ne_zero (e : WalkError FileName) : errno e ≠ 0 := by
  cases e <;> exact Nat.succ_ne_zero _

theorem findPath_ne {cwd : Loc FileName} {s : Fs} {path : CStr} :
    findPath cwd s path ≠ .error 0 := by
  unfold findPath
  split
  · intro h
    exact errno_ne_zero _ (Except.error.inj h)
  · split
    · intro h
      cases h
    · intro h
      cases h

theorem locatePath_ne {cwd : Loc FileName} {s : Fs} {path : CStr} :
    locatePath cwd s path ≠ .error 0 := by
  unfold locatePath
  intro h
  split at h
  · cases h
  · split at h
    · exact errno_ne_zero _ (Except.error.inj h)
    · split at h <;> cases h

def Env.closedir (path : CStr) : StateM Fs Nat := env.faulty .closedir path fun _ => return 0

/-- The calls of an environment. -/
def Env.calls : FileCalls Fs where
  access := env.access
  opendir := env.opendir
  readdir := env.readdir
  closedir := env.closedir
  stat := env.stat
  stat_ne path s := by
    intro h
    unfold Env.stat at h
    split at h
    · rename_i hfault
      exact hfault (Except.error.inj h)
    · cases hfind : findPath env.cwd s path with
      | error code =>
        rw [hfind] at h
        obtain rfl := Except.error.inj h
        exact findPath_ne hfind
      | ok found =>
        rw [hfind] at h
        cases h
  mkdir := env.mkdir
  remove := env.remove
  rmdir := env.rmdir
  fopenRead := env.fopenRead
  fopenWrite := env.fopenWrite
  content := env.content
  fread := env.fread
  fwrite := env.fwrite
  fflush := env.fflush

/-! ## What a call answers -/

variable {env} {s t : Fs} {path : CStr} {op : FileOp} {act : Fs → StateM Fs Nat}

theorem Env.faulty_of_fault (h : env.fault op path s ≠ 0) :
    env.faulty op path act s = (env.fault op path s, s) := if_pos h

theorem Env.faulty_run (h : env.fault op path s = 0) : env.faulty op path act s = act s s :=
  if_neg (not_not.mpr h)

theorem Env.access_state : (env.access path s).2 = s := by
  unfold Env.access
  split
  · rfl
  · split <;> rfl

theorem Env.stat_state : (env.stat path s).2 = s := by
  unfold Env.stat
  split <;> rfl

theorem Env.opendir_state : (env.opendir path s).2 = s := by
  unfold Env.opendir
  by_cases h : env.fault .opendir path s = 0
  · rw [Env.faulty_run h]
    cases findPath env.cwd s path with
    | error code => rfl
    | ok found =>
      obtain ⟨x, v⟩ := found
      cases v <;> rfl
  · rw [Env.faulty_of_fault h]

/-! ## Paths -/

variable {node : Nodes FileName (List UInt8)} {dir name : CStr} {x : Loc FileName} {l : Nat}
  {n : FileName} {v : FsNode} {cwd : Loc FileName}

theorem component_val (n : FileName) : component n.val = .name n := dif_pos n.property

theorem component_dot : component ("." : CStr) = .here := by decide

theorem component_dots : component (".." : CStr) = .up := by decide

theorem component_nil : component [] = .here := by decide

theorem splitOn_entry (h : '/' ∉ name) :
    (dir ++ '/' :: name).splitOn '/' = dir.splitOn '/' ++ [name] := by
  rw [List.splitOn_append_cons_self, List.splitOn_eq_singleton h]

theorem pathComps_entry (h : '/' ∉ name) :
    pathComps (dir ++ '/' :: name) = pathComps dir ++ [component name] := by
  rw [pathComps, splitOn_entry h, List.map_append, List.map_singleton, pathComps]

theorem startOf_entry (hdir : dir ≠ []) : startOf cwd (dir ++ '/' :: name) = startOf cwd dir := by
  obtain ⟨c, dir, rfl⟩ := List.exists_cons_of_ne_nil hdir
  rfl

theorem resolvePath_ne_nil (h : resolvePath cwd node dir = .ok (x, l)) : dir ≠ [] := by
  rintro rfl
  cases h

theorem resolvePath_eq_walk (hdir : dir ≠ []) :
    resolvePath cwd node dir = walk node maxSymlinks (startOf cwd dir) (pathComps dir) := if_neg hdir

/-- An entry of a directory is looked up in it. -/
theorem resolvePath_entry (h : resolvePath cwd node dir = .ok (x, l)) (hname : '/' ∉ name) :
    resolvePath cwd node (dir ++ '/' :: name) = walk node l x [component name] := by
  have hdir := resolvePath_ne_nil h
  rw [resolvePath_eq_walk hdir] at h
  rw [resolvePath_eq_walk (by simp), pathComps_entry hname, startOf_entry hdir, walk_append h]

theorem resolvePath_name (h : resolvePath cwd node dir = .ok (x, l)) (hx : node x = some .dir)
    (hn : node (x ++ [n]) = some v) (hv : ∀ target, v ≠ .link target) :
    resolvePath cwd node (dir ++ '/' :: n.val) = .ok (x ++ [n], l) := by
  rw [resolvePath_entry h n.property.2.2.2, component_val, walk_name hx hn hv, walk_nil]

theorem resolvePath_dot (h : resolvePath cwd node dir = .ok (x, l)) (hx : node x = some .dir) :
    resolvePath cwd node (dir ++ '/' :: ".".toList) = .ok (x, l) := by
  rw [resolvePath_entry h (by decide), component_dot, walk_here hx, walk_nil]

theorem resolvePath_dots (h : resolvePath cwd node dir = .ok (x, l)) (hx : node x = some .dir) :
    resolvePath cwd node (dir ++ '/' :: "..".toList) = .ok (x.dropLast, l) := by
  rw [resolvePath_entry h (by decide), component_dots, walk_up hx, walk_nil]

theorem resolvePath_within {t s : Nodes FileName (List UInt8)} (hwithin : Within t s)
    (h : resolvePath cwd t dir = .ok (x, l)) : resolvePath cwd s dir = .ok (x, l) := by
  have hdir := resolvePath_ne_nil h
  rw [resolvePath_eq_walk hdir] at h ⊢
  exact walk_within hwithin h

theorem findPath_eq_ok_iff : findPath cwd s path = .ok (x, v) ↔
    ∃ l, resolvePath cwd s.node path = .ok (x, l) ∧ s.node x = some v := by
  unfold findPath
  constructor
  · intro h
    split at h
    · cases h
    · rename_i y l hy
      split at h
      · cases h
      · rename_i w hw
        cases h
        exact ⟨l, hy, hw⟩
  · intro ⟨l, hx, hv⟩
    rw [hx]
    dsimp only
    rw [hv]

theorem locatePath_entry (h : resolvePath cwd s.node dir = .ok (x, l)) (hx : s.node x = some .dir) :
    locatePath cwd s (dir ++ '/' :: n.val) = .ok (x, some (.name n)) := by
  have hdir := resolvePath_ne_nil h
  have hpieces : piecesOf (dir ++ '/' :: n.val) = dir.splitOn '/' ++ [n.val] := by
    rw [piecesOf, splitOn_entry n.property.2.2.2,
      List.rdropWhile_concat_neg _ _ _ (by simpa using n.property.1)]
  rw [resolvePath_eq_walk hdir, pathComps] at h
  unfold locatePath
  rw [hpieces, if_neg (by simp), startOf_entry hdir, List.dropLast_concat, h]
  dsimp only
  rw [hx, List.getLast?_concat, Option.map_some, component_val]

theorem locatePath_eq_ok_iff {last : Option (Comp FileName)} :
    locatePath cwd s path = .ok (x, last) ↔ path ≠ [] ∧ s.node x = some .dir ∧
      last = (piecesOf path).getLast?.map component ∧
      ∃ l, walk s.node maxSymlinks (startOf cwd path) ((piecesOf path).dropLast.map component) =
        .ok (x, l) := by
  unfold locatePath
  constructor
  · intro h
    split at h
    · cases h
    · rename_i hpath
      split at h
      · cases h
      · rename_i y l hy
        split at h
        · cases h
        · rename_i hdir
          cases h
          exact ⟨hpath, hdir, rfl, l, hy⟩
        · cases h
  · intro ⟨hpath, hdir, hlast, l, hwalk⟩
    rw [if_neg hpath, hwalk, hlast]
    dsimp only
    rw [hdir]

theorem locatePath_within {last : Option (Comp FileName)} (hwithin : Within t.node s.node)
    (h : locatePath cwd t path = .ok (x, last)) : locatePath cwd s path = .ok (x, last) := by
  obtain ⟨hpath, hdir, hlast, l, hwalk⟩ := locatePath_eq_ok_iff.mp h
  exact locatePath_eq_ok_iff.mpr
    ⟨hpath, hwithin.eq_of_some hdir, hlast, l, walk_within hwithin hwalk⟩

theorem walk_heres {k : Nat} (hx : node x = some .dir) (count : Nat) :
    walk node k x (List.replicate count .here) = .ok (x, k) := by
  induction count with
  | zero => exact walk_nil
  | succ count ih => rw [List.replicate_succ, walk_here hx, ih]

/-- A directory is where it is located, slashes behind its path or not. -/
theorem resolvePath_of_locate (h : locatePath cwd s path = .ok (x, some (.name n)))
    (hn : s.node (x ++ [n]) = some .dir) : ∃ l, resolvePath cwd s.node path = .ok (x ++ [n], l) := by
  obtain ⟨hpath, hdir, hlast, l, hwalk⟩ := locatePath_eq_ok_iff.mp h
  have hne : piecesOf path ≠ [] := by
    intro hnil
    rw [hnil] at hlast
    cases hlast
  have hsplit : path.splitOn '/' = (piecesOf path).dropLast ++ [(piecesOf path).getLast hne] ++
      (path.splitOn '/').rtakeWhile (· = []) := by
    rw [List.dropLast_append_getLast, piecesOf, List.rdropWhile_append_rtakeWhile]
  have hname : component ((piecesOf path).getLast hne) = .name n := by
    rw [List.getLast?_eq_some_getLast hne] at hlast
    exact (Option.some.inj hlast).symm
  have hheres : ((path.splitOn '/').rtakeWhile (· = [])).map component =
      List.replicate ((path.splitOn '/').rtakeWhile (· = [])).length .here := by
    rw [List.eq_replicate_iff, List.length_map]
    refine ⟨rfl, fun c hc => ?_⟩
    obtain ⟨piece, hpiece, rfl⟩ := List.mem_map.mp hc
    have hempty := List.mem_rtakeWhile_imp hpiece
    have hnil : piece = [] := of_decide_eq_true hempty
    rw [hnil, component_nil]
  refine ⟨l, ?_⟩
  rw [resolvePath_eq_walk hpath, pathComps, hsplit, List.map_append, List.map_append,
    List.map_singleton, hname, hheres, walk_append, walk_heres hn]
  exact walk_snoc hwalk hdir hn fun target heq => by cases heq

theorem findPath_name (h : resolvePath cwd s.node dir = .ok (x, l)) (hx : s.node x = some .dir)
    (hn : s.node (x ++ [n]) = some v) (hv : ∀ target, v ≠ .link target) :
    findPath cwd s (dir ++ '/' :: n.val) = .ok (x ++ [n], v) :=
  findPath_eq_ok_iff.mpr ⟨l, resolvePath_name h hx hn hv, hn⟩

theorem findPath_dot (h : resolvePath cwd s.node dir = .ok (x, l)) (hx : s.node x = some .dir) :
    findPath cwd s (dir ++ '/' :: ".".toList) = .ok (x, .dir) :=
  findPath_eq_ok_iff.mpr ⟨l, resolvePath_dot h hx, hx⟩

theorem findPath_dots (h : resolvePath cwd s.node dir = .ok (x, l)) (hx : s.node x = some .dir) :
    findPath cwd s (dir ++ '/' :: "..".toList) = .ok (x.dropLast, .dir) :=
  findPath_eq_ok_iff.mpr ⟨l, resolvePath_dots h hx, s.dir_above hx⟩

theorem Env.mem_order {name : CStr} : name ∈ env.order path x s ↔
    name = ("." : CStr) ∨ name = (".." : CStr) ∨ ∃ m ∈ s.names x, name = m.val := by
  rw [(env.order_perm path x s).mem_iff, List.mem_cons, List.mem_cons, List.mem_map]
  simp only [eq_comm]

theorem Env.nodup_order : (env.order path x s).Nodup := by
  rw [(env.order_perm path x s).nodup_iff, List.nodup_cons, List.nodup_cons, List.mem_cons,
    not_or, List.mem_map, List.mem_map]
  refine ⟨⟨by decide, ?_⟩, ?_, List.Nodup.map Subtype.val_injective (s.nodup_names x)⟩
  · intro ⟨m, _, hm⟩
    exact m.property.2.1 hm
  · intro ⟨m, _, hm⟩
    exact m.property.2.2.1 hm

/-- The path of what is below a directory. -/
def pathOf (dir : CStr) (rel : Loc FileName) : CStr := dir ++ rel.flatMap fun n => '/' :: n.val

theorem pathOf_cons (dir : CStr) (n : FileName) (rel : Loc FileName) :
    pathOf dir (n :: rel) = pathOf (dir ++ '/' :: n.val) rel := by
  rw [pathOf, pathOf, List.flatMap_cons, List.append_assoc]

theorem pathOf_concat (dir : CStr) (rel : Loc FileName) (n : FileName) :
    pathOf dir (rel ++ [n]) = pathOf dir rel ++ '/' :: n.val := by
  rw [pathOf, pathOf, List.flatMap_append, List.flatMap_singleton, List.append_assoc]

theorem pathComps_pathOf (dir : CStr) (rel : Loc FileName) :
    pathComps (pathOf dir rel) = pathComps dir ++ rel.map .name := by
  induction rel generalizing dir with
  | nil => rw [pathOf, List.flatMap_nil, List.append_nil, List.map_nil, List.append_nil]
  | cons n rel ih =>
    rw [pathOf_cons, ih, pathComps_entry n.property.2.2.2, component_val, List.append_assoc,
      List.singleton_append, List.map_cons]

theorem locatePath_entry_ok {last : Option (Comp FileName)} (hdir : dir ≠ [])
    (h : locatePath cwd s (dir ++ '/' :: n.val) = .ok (x, last)) :
    last = some (.name n) ∧ s.node x = some .dir ∧ ∃ l, resolvePath cwd s.node dir = .ok (x, l) := by
  have hpieces : piecesOf (dir ++ '/' :: n.val) = dir.splitOn '/' ++ [n.val] := by
    rw [piecesOf, splitOn_entry n.property.2.2.2,
      List.rdropWhile_concat_neg _ _ _ (by simpa using n.property.1)]
  obtain ⟨-, hx, hlast, l, hwalk⟩ := locatePath_eq_ok_iff.mp h
  rw [hpieces, List.getLast?_concat, Option.map_some, component_val] at hlast
  rw [hpieces, List.dropLast_concat, startOf_entry hdir] at hwalk
  exact ⟨hlast, hx, l, by rw [resolvePath_eq_walk hdir]; exact hwalk⟩

/-! ## What a call does where no fault prevents it -/

theorem Env.stat_run (hfault : env.fault .stat path s = 0) (h : findPath env.cwd s path = .ok (x, v)) :
    env.stat path s = (.ok (fileMode v), s) := by
  rw [Env.stat, if_neg (not_not.mpr hfault), h]
  rfl

theorem Env.opendir_run (hfault : env.fault .opendir path s = 0)
    (h : findPath env.cwd s path = .ok (x, .dir)) : env.opendir path s = (0, s) := by
  rw [Env.opendir, Env.faulty_run hfault, h]
  rfl

theorem Env.readdir_eq (h : resolvePath env.cwd s.node path = .ok (x, l)) :
    env.readdir path s = env.order path x s := by
  rw [Env.readdir, h]

theorem Env.mkdir_new (hfault : env.fault .mkdir path s = 0)
    (h : locatePath env.cwd s path = .ok (x, some (.name n))) (hn : s.node (x ++ [n]) = none) :
    ∃ hx hv, env.mkdir path s = (0, s.put x n .dir hx hv) := by
  have hx := (locatePath_eq_ok_iff.mp h).2.1
  have hv : s.names (x ++ [n]) = [] := s.names_eq_nil (by rw [hn]; intro heq; cases heq)
  refine ⟨hx, hv, ?_⟩
  rw [Env.mkdir, Env.faulty_run hfault, h]
  dsimp only
  rw [dif_pos ⟨hx, hn, hv⟩]
  rfl

theorem Env.mkdir_exists (hfault : env.fault .mkdir path s = 0)
    (h : locatePath env.cwd s path = .ok (x, some (.name n))) (hn : s.node (x ++ [n]) ≠ none) :
    env.mkdir path s = (eexist, s) := by
  rw [Env.mkdir, Env.faulty_run hfault, h]
  dsimp only
  rw [dif_neg fun hall => hn hall.2.1]
  rfl

theorem Env.fopenRead_run (hfault : env.fault .fopenRead path s = 0)
    (h : findPath env.cwd s path = .ok (x, v)) : env.fopenRead path s = (0, s) := by
  rw [Env.fopenRead, Env.faulty_run hfault, h]
  rfl

theorem Env.fopenWrite_new (hfault : env.fault .fopenWrite path s = 0)
    (h : resolvePath env.cwd s.node path = .error (.absent x n)) (hx : s.node x = some .dir)
    (hv : s.names (x ++ [n]) = []) :
    env.fopenWrite path s = (0, s.put x n (.file []) hx hv) := by
  rw [Env.fopenWrite, Env.faulty_run hfault, h]
  dsimp only
  rw [dif_pos ⟨hx, hv⟩]
  rfl

theorem Env.content_eq {content : List UInt8} (h : findPath env.cwd s path = .ok (x, .file content)) :
    env.content path s = content := by
  rw [Env.content, h]

theorem Env.fread_run {content : List UInt8} (hfault : env.fault .fread path s = 0)
    (h : findPath env.cwd s path = .ok (x, .file content)) : env.fread path s = (0, s) := by
  rw [Env.fread, Env.faulty_run hfault, h]
  rfl

theorem setContent_eq {content : List UInt8} {change : List UInt8 → List UInt8}
    (h : s.node x = some (.file content)) :
    setContent s x change = s.write x (change content) ⟨content, h⟩ := by
  unfold setContent
  split
  · rename_i c hc
    rw [h] at hc
    cases hc
    rfl
  · rename_i hno
    exact absurd h (hno content)

theorem Env.fwrite_run {content block : List UInt8} (hfault : env.fault .fwrite path s = 0)
    (h : findPath env.cwd s path = .ok (x, .file content)) (hx : s.node x = some (.file content)) :
    env.fwrite path block s = (0, s.write x (content ++ block) ⟨content, hx⟩) := by
  rw [Env.fwrite, Env.faulty_run hfault, h]
  dsimp only
  rw [setContent_eq hx]
  rfl

theorem Env.fflush_run (hfault : env.fault .fflush path s = 0) : env.fflush path s = (0, s) :=
  if_pos hfault

theorem Env.closedir_run (hfault : env.fault .closedir path s = 0) :
    env.closedir path s = (0, s) := by
  rw [Env.closedir, Env.faulty_run hfault]
  rfl

end Calls

/-- An environment without faults. -/
def Env.faultless : Env where
  cwd := []
  order _ x s := ("." : CStr) :: (".." : CStr) :: (s.names x).map (·.val)
  refusal _ _ := 0
  fault _ _ _ := 0
  order_perm _ _ _ := .refl _
  fault_ne _ _ _ := by decide

section Names

def nameD : FileName := ⟨"d".toList, by decide⟩
def nameF : FileName := ⟨"f".toList, by decide⟩
def nameL : FileName := ⟨"l".toList, by decide⟩
def nameO : FileName := ⟨"o".toList, by decide⟩
def nameX : FileName := ⟨"x".toList, by decide⟩

variable {n m : FileName}

theorem empty_root : (DirTree.empty : Fs).node [] = some .dir := rfl

theorem empty_vacant : (DirTree.empty : Fs).names ([] ++ [n]) = [] := rfl

theorem put_empty_node :
    (DirTree.empty.put [] n .dir empty_root empty_vacant : Fs).node [n] = some .dir := by
  exact DirTree.node_put_self

end Names

end Zectl.Util.FileSystem
