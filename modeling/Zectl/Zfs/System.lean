import Zectl.Lib.StateRun
import Zectl.Util.CString

/-!
# The system under the commands

The pools, the files, the directories and the last error, and the calls by which the
code reaches them. Everything outside the repository is in `Host`: it decides for each
call in each state whether the call succeeds, so every combination of outcomes is some
host. A call that succeeds acts on exactly the datasets it is given; one that fails
changes nothing. The trace records every call with the code it returned.
-/

namespace Zectl.Zfs.System

open Zectl.Lib.PathOrder Zectl.Util.CString

/-- `libze_error`, and the other codes a plugin or a helper returns in its place. -/
inductive LibzeError where
  | success | libzfs | zfsOpen | unknown | eperm | mountpoint | nomem | eexist | maxpathlen
  | plugin | pluginEexist
  | other (code : Nat)
  deriving DecidableEq, Repr

/-- The value of the C enumerator, for the callbacks that return it as an `int`. -/
def LibzeError.code : LibzeError → Int
  | .success => 0 | .libzfs => 1 | .zfsOpen => 2 | .unknown => 3 | .eperm => 4 | .mountpoint => 5
  | .nomem => 6 | .eexist => 7 | .maxpathlen => 8 | .plugin => 9 | .pluginEexist => 10
  | .other code => code

/-- A code read as a `libze_error`. -/
def LibzeError.ofCode : Nat → LibzeError
  | 0 => .success | 1 => .libzfs | 2 => .zfsOpen | 3 => .unknown | 4 => .eperm | 5 => .mountpoint
  | 6 => .nomem | 7 => .eexist | 8 => .maxpathlen | 9 => .plugin | 10 => .pluginEexist
  | code => .other code

/-- The code -1 of a helper read as a `libze_error`. -/
def LibzeError.minusOne : LibzeError := .other 4294967295

inductive ZfsType where
  | filesystem | snapshot
  deriving DecidableEq, Repr

/-- The native properties the code names, and all others by their name. -/
inductive ZfsProp where
  | origin | mountpoint | canmount | other (name : CStr)
  deriving DecidableEq, Repr

inductive ZpropSource where
  | none | default | temporary | localSet | inherited | received
  deriving DecidableEq, Repr

/-- A property that is set on a dataset itself. -/
structure PropEntry where
  prop : ZfsProp
  value : CStr
  source : ZpropSource
  deriving DecidableEq, Repr

/-- A filesystem, or a snapshot when its name has an `@`. -/
structure Dataset where
  name : CStr
  origin : Option CStr := none
  mountedAt : Option CStr := none
  props : List PropEntry := []
  deriving DecidableEq, Repr

inductive ZfsCall where
  | poolOpen (pool : CStr)
  | open (name : CStr)
  | propGet (name : CStr) (prop : ZfsProp)
  | snapshot (name : CStr) (recursive : Bool)
  | clone (snap target : CStr) (props : List (ZfsProp × CStr))
  | destroy (name : CStr)
  | rename (name target : CStr)
  | unmount (name : CStr)
  | mount (name : CStr)
  | propSet (name : CStr) (prop : ZfsProp) (value : CStr)
  | propSetList (name : CStr) (props : List (ZfsProp × CStr))
  | promote (name : CStr)
  | setBootfs (value : CStr)
  | temporaryMount (name mountpoint : CStr)
  deriving DecidableEq, Repr

/-- The functions of `libze_plugin_fn_export` with their arguments. -/
inductive Hook where
  | preActivate
  | midActivate (beName beMountpoint : CStr)
  | postActivate (beName : CStr)
  | postDestroy (beName : CStr)
  | postCreate (beName beMountpoint : CStr) (fromSnapshot : Bool)
  | postRename (beNameOld beNameNew : CStr)
  | preSnapshot (beName : CStr) (isRoot : Bool)
  deriving DecidableEq, Repr

inductive FileCall where
  | access (path : CStr)
  | fopenRead (path : CStr)
  | fopenWrite (path : CStr)
  | fwrite (path text : CStr)
  | close (path : CStr)
  | mkstemp (path : CStr)
  | rename (path target : CStr)
  | remove (path : CStr)
  | mkdtemp (path : CStr)
  | rmdir (path : CStr)
  | opendir (path : CStr)
  | closedir (path : CStr)
  | stat (path : CStr)
  | mkdir (path : CStr)
  | renameDirectory (path target : CStr)
  deriving DecidableEq, Repr

inductive Call where
  | zfs (c : ZfsCall)
  | hook (h : Hook)
  | file (c : FileCall)
  deriving DecidableEq, Repr

structure Sys where
  datasets : List Dataset
  bootfs : CStr := []
  files : List (CStr × CStr) := []
  dirs : List CStr := []
  libzeError : LibzeError := .success
  libzeErrorMessage : CStr := []
  trace : List (Call × Nat) := []
  deriving DecidableEq, Repr

/-! ## Names -/

/-- The separators of a dataset name: a snapshot lies below its filesystem. -/
def IsDatasetSep (c : Char) : Prop := c = '/' ∨ c = '@'

instance : DecidablePred IsDatasetSep := fun c => inferInstanceAs (Decidable (c = '/' ∨ c = '@'))

/-- `m` is the dataset `n` or one of its descendants or their snapshots. -/
abbrev AtOrBelow (n m : CStr) : Prop := Under IsDatasetSep n m

def isSnapshotName (n : CStr) : Bool := '@' ∈ n

/-- The name of `m` after its ancestor-or-self `name` has become `target`. -/
def renamePath (name target m : CStr) : CStr :=
  if AtOrBelow name m then target ++ m.drop name.length else m

/-! ## Directories -/

inductive FileKind where
  | regular | directory
  deriving DecidableEq, Repr

/-- A directory without the slash, the `.` or the `..` behind it. -/
def directoryName (path : CStr) : CStr :=
  match splitLast '/' path with
  | some (dir, last) => if last = [] ∨ last = ['.'] ∨ last = ['.', '.'] then dir else path
  | none => path

/-- What a path below a directory has behind it. -/
def belowPath? (dir path : CStr) : Option CStr :=
  if (dir ++ ['/']).isPrefixOf path then some (path.drop (dir.length + 1)) else none

def Sys.paths (s : Sys) : List CStr := s.files.map Prod.fst ++ s.dirs

/-- A directory was made, or something lies below it. -/
def Sys.isDir (s : Sys) (path : CStr) : Bool :=
  directoryName path ∈ s.dirs ∨ ∃ p ∈ s.paths, (belowPath? (directoryName path) p).isSome

/-- What `stat` finds. -/
def Sys.kind (s : Sys) (path : CStr) : Option FileKind :=
  if (s.files.lookup path).isSome then some .regular
  else if s.isDir path then some .directory else none

/-- What `readdir` finds in a directory, in some order. -/
def Sys.entries (s : Sys) (dir : CStr) : List CStr :=
  (['.'] :: ['.', '.'] :: (s.paths.filterMap fun p =>
    (belowPath? dir p).map (·.takeWhile (· ≠ '/'))).filter (· ≠ [])).dedup

/-! ## The host -/

/-- What `strftime` writes for `%F-%T`. -/
structure Timestamp where
  text : CStr
  chars : ∀ c ∈ text, c.isDigit ∨ c = '-' ∨ c = ':'
  short : text.length < zfsMaxDatasetNameLen

/-- libzfs, the plugin, the file system and the clock. -/
structure Host where
  /-- The code a call returns, zero for success. -/
  answer : Sys → Call → Nat
  /-- The value of a property that is not set on the dataset itself. -/
  inherited : Sys → CStr → ZfsProp → CStr
  /-- The properties `zprop_iter` visits. -/
  nativeProps : List ZfsProp
  zfsPropReadonly : ZfsProp → Bool
  /-- The text of a value read without the literal flag. -/
  propText : ZfsProp → CStr → CStr
  /-- The value that setting a text stores. -/
  propStore : ZfsProp → CStr → CStr
  /-- The datasets after the promotion of one of them. -/
  promoted : CStr → List Dataset → List Dataset
  /-- A promotion moves snapshots; the filesystems keep their names and their order. -/
  promoted_filesystems : ∀ name datasets,
    ((promoted name datasets).map Dataset.name).filter (¬ isSnapshotName ·) =
      (datasets.map Dataset.name).filter (¬ isSnapshotName ·)
  now : Sys → Timestamp
  /-- The path `mkstemp` or `mkdtemp` makes of a template. -/
  tmpName : Sys → CStr → CStr
  readdir : Sys → CStr → List CStr := Sys.entries
  readdir_perm : ∀ s dir, (readdir s dir).Perm (s.entries dir) := by exact fun _ _ => .refl _
  /-- What the code finds in a flag that it never sets. -/
  uninitialized : Sys → Bool
  /-- How much of a text that is written to a file its stream holds back until it is flushed. -/
  buffered : CStr → CStr → Nat := fun _ text => text.length % 4096

/-! ## Reading the state -/

def Sys.names (s : Sys) : List CStr := s.datasets.map Dataset.name

def Sys.find (s : Sys) (name : CStr) : Option Dataset := s.datasets.find? fun d => d.name = name

/-- `zfs_dataset_exists` -/
def Sys.datasetExists (s : Sys) (name : CStr) (type : ZfsType) : Bool :=
  name ∈ s.names ∧ (isSnapshotName name ↔ type = .snapshot)

def Sys.originOf (s : Sys) (name : CStr) : Option CStr := (s.find name).bind Dataset.origin

/-- `zfs_is_mounted` -/
def Sys.isMounted (s : Sys) (name : CStr) : Bool :=
  ((s.find name).bind Dataset.mountedAt).isSome

def Dataset.entry (d : Dataset) (prop : ZfsProp) : Option PropEntry :=
  d.props.find? fun e => e.prop = prop

/-- The value and source of a property; a filesystem that is no clone has no origin. -/
def Sys.propValue (host : Host) (s : Sys) (name : CStr) (prop : ZfsProp) :
    Option (CStr × ZpropSource) :=
  match s.find name with
  | none => none
  | some d =>
    match prop with
    | .origin => d.origin.map fun o => (o, .none)
    | p =>
      match d.entry p with
      | some e => some (e.value, e.source)
      | none => some (host.inherited s name p, .inherited)

/-! ## What a successful call does -/

def Sys.mapDataset (s : Sys) (name : CStr) (f : Dataset → Dataset) : Sys :=
  { s with datasets := s.datasets.map fun d => if d.name = name then f d else d }

def Dataset.setProp (d : Dataset) (prop : ZfsProp) (value : CStr) : Dataset :=
  { d with props := ⟨prop, value, .localSet⟩ :: d.props.filter fun e => e.prop ≠ prop }

/-- The snapshots a call for `dataset@suffix` takes. -/
def Sys.newSnapshots (s : Sys) (name : CStr) (recursive : Bool) : List Dataset :=
  match splitLast '@' name with
  | none => []
  | some (ds, suffix) =>
    (s.datasets.filter fun d => ¬ isSnapshotName d.name ∧
      (d.name = ds ∨ (recursive ∧ AtOrBelow ds d.name))).map
      fun d => { name := d.name ++ '@' :: suffix }

def Host.store (host : Host) (p : ZfsProp × CStr) : ZfsProp × CStr := (p.1, host.propStore p.1 p.2)

def ZfsCall.effect (host : Host) (s : Sys) : ZfsCall → Sys
  | .poolOpen _ => s
  | .open _ => s
  | .propGet _ _ => s
  | .snapshot name recursive => { s with datasets := s.datasets ++ s.newSnapshots name recursive }
  | .clone snap target props =>
    { s with datasets := s.datasets ++ [{
        name := target
        origin := some snap
        props := (props.map host.store).map fun p => ⟨p.1, p.2, .localSet⟩ }] }
  | .destroy name => { s with datasets := s.datasets.filter fun d => d.name ≠ name }
  | .rename name target =>
    { s with
      datasets := s.datasets.map fun d => { d with
        name := renamePath name target d.name
        origin := d.origin.map (renamePath name target) }
      bootfs := renamePath name target s.bootfs }
  | .unmount name => s.mapDataset name fun d => { d with mountedAt := none }
  | .mount name =>
    s.mapDataset name fun d =>
      { d with mountedAt := (s.propValue host name .mountpoint).map Prod.fst }
  | .propSet name prop value => s.mapDataset name fun d => d.setProp prop (host.propStore prop value)
  | .propSetList name props =>
    s.mapDataset name fun d =>
      (props.map host.store).foldl (fun d p => d.setProp p.1 p.2) d
  | .promote name => { s with datasets := host.promoted name s.datasets }
  | .setBootfs value => { s with bootfs := value }
  | .temporaryMount name mountpoint =>
    s.mapDataset name fun d => { d with mountedAt := some mountpoint }

def Sys.readFile (s : Sys) (path : CStr) : Option CStr := s.files.lookup path

def Sys.removeFile (s : Sys) (path : CStr) : Sys :=
  { s with files := s.files.filter fun f => f.1 ≠ path }

def Sys.putFile (s : Sys) (path content : CStr) : Sys :=
  { s with files := (path, content) :: s.files.filter fun f => f.1 ≠ path }

/-- A path after a directory has moved. -/
def moveBelow (path target p : CStr) : CStr :=
  if p = path then target else (belowPath? path p).elim p fun rest => target ++ '/' :: rest

def FileCall.effect (s : Sys) : FileCall → Sys
  | .access _ | .fopenRead _ | .close _ | .mkdtemp _ | .opendir _ | .closedir _ | .stat _ => s
  | .fopenWrite path | .mkstemp path => s.putFile path []
  | .fwrite path text =>
    match s.readFile path with
    | none => s
    | some content => s.putFile path (content ++ text)
  | .rename path target =>
    match s.readFile path with
    | none => s
    | some content => (s.removeFile path).putFile target content
  | .remove path => s.removeFile path
  | .rmdir path => { s with dirs := s.dirs.filter fun d => d ≠ path }
  | .mkdir path => { s with dirs := path :: s.dirs }
  | .renameDirectory path target =>
    { s with
      files := s.files.map fun f => (moveBelow path target f.1, f.2)
      dirs := s.dirs.map (moveBelow path target) }

/-- The plugin's functions work on files of their own and leave the pools alone. -/
def Call.effect (host : Host) (s : Sys) : Call → Sys
  | .zfs c => c.effect host s
  | .hook _ => s
  | .file c => c.effect s

abbrev Libze := StateM Sys

def call (host : Host) (c : Call) : Libze Nat := fun s =>
  let r := host.answer s c
  let s' := if r = 0 then c.effect host s else s
  (r, { s' with trace := (c, r) :: s'.trace })

/-! ## The last error -/

/-- `LIBZE_MAX_ERROR_LEN`, the terminator included. -/
def libzeMaxErrorLen : Nat := 1024

/-- `libze_error_set` -/
def libzeErrorSet (err : LibzeError) (message : CStr) : Libze LibzeError := fun s =>
  (err, { s with
    libzeError := err
    libzeErrorMessage := message.take (libzeMaxErrorLen - 1) })

/-- `libze_error_prepend` -/
def libzeErrorPrepend (err : LibzeError) (message : CStr) : Libze LibzeError := fun s =>
  (err, { s with
    libzeError := err
    libzeErrorMessage :=
      (message.take (libzeMaxErrorLen - 1) ++ s.libzeErrorMessage).take (libzeMaxErrorLen - 1) })

/-! ## Calls that return more than a code -/

/-- `zfs_open`: no handle for a dataset that is not there or of another type. -/
def zfsOpen (host : Host) (name : CStr) (type : ZfsType) : Libze Nat := do
  if (← get).datasetExists name type then call host (.zfs (.open name)) else return 1

/-- `zfs_prop_get` with the literal flag. -/
def zfsPropGet (host : Host) (name : CStr) (prop : ZfsProp) : Libze (Nat × CStr) := do
  let r ← call host (.zfs (.propGet name prop))
  if r ≠ 0 then return (r, [])
  match (← get).propValue host name prop with
  | some (value, _) => return (0, value)
  | none => return (1, [])

end Zectl.Zfs.System
