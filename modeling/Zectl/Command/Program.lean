import Zectl.Command.Commands
import Zectl.Systemdboot.Defaults

/-!
# One run of `zectl`

`main` builds the handle, loads the plugin, reads the boot pool, validates the environments and
completes the properties before it looks the command up, so that a word which is no command is
refused only behind all of this. What is outside the repository is a `Machine`.
-/

namespace Zectl.Command.Program

open Zectl.Lib.StateRun Zectl.Util.CString Zectl.Zfs.System Zectl.Libze.Init Zectl.Libze.Listing
open Zectl.Libze.Property Zectl.Libze.Sample Zectl.Libze.Validate Zectl.Systemdboot.Defaults
open Zectl.Command.Commands

/-- An entry of `/proc/mounts`. -/
structure Mntent where
  mntFsname : CStr
  mntDir : CStr
  mntType : CStr

/-- What the initialization of a plugin makes of the properties of the handle. -/
abbrev PluginInit := List (CStr × CStr) → LibzeError × List (CStr × CStr)

/-- The system one run of the program finds. -/
structure Machine where
  host : Host
  beyond : Beyond
  clock : Clock
  /-- The entries of `/proc/mounts`, unless it cannot be opened. -/
  mounts : Option (List Mntent)
  /-- `zfs_path_to_zhandle` for the root directory. -/
  rootHandle : Option CStr
  /-- `zpool_get_prop` succeeds for `bootfs`. -/
  bootfsReadable : Bool
  /-- `PLUGINS_DIRECTORY`, when it is defined. -/
  pluginsDirectory : Option CStr
  /-- `dlopen`, and the exported plugin of the library it finds. -/
  dlopen : CStr → Option (Option PluginInit)
  /-- What `printf` prints for an argument that is missing. -/
  missingArgument : CStr

/-! ## The handle -/

/-- `system_fs_error` -/
inductive SystemFsError where
  | success | mntFile | notFound | wrongFstype | unknown
  deriving DecidableEq

/-- `libze_dataset_from_mountpoint`: the first entry of the mount point decides. -/
def libzeDatasetFromMountpoint (mntFile : Option (List Mntent)) (mountpoint : CStr)
    (buflen : Nat) : SystemFsError × CStr :=
  match mntFile with
  | none => (.mntFile, [])
  | some entries =>
    match entries.find? fun ent => ent.mntDir = mountpoint with
    | none => (.notFound, [])
    | some ent =>
      if ent.mntType ≠ ("zfs" : CStr) then (.wrongFstype, []) else
      let (len, datasetBuf) := strlcpy ent.mntFsname buflen
      if buflen ≤ len then (.unknown, datasetBuf) else (.success, datasetBuf)

/-- The dataset at the root directory, when the mount table calls it one of ZFS. -/
def mountedAtRoot (m : Machine) : Option CStr :=
  if (libzeDatasetFromMountpoint m.mounts "/" zfsMaxDatasetNameLen).1 ≠ .success then none
  else m.rootHandle

/-- `libze_error_clear` -/
def libzeErrorClear : Libze LibzeError := libzeErrorSet .success []

/-- `libze_init` with its calls in their order. -/
def initHandle (m : Machine) : Libze (Option Handle) := do
  match libzeGetRootDataset (mountedAtRoot m) with
  | none => return none
  | some (envRunningPath, _) =>
    let (code, envRoot) := libzeUtilCut envRunningPath zfsMaxDatasetNameLen '/'
    if code ≠ 0 ∨ '/' ∉ envRoot then return none
    if (← call m.host (.zfs (.poolOpen (envRoot.takeWhile (· ≠ '/'))))) ≠ 0 then return none
    if ¬ m.bootfsReadable then return none
    match libzeInit (mountedAtRoot m) true (some (← get).bootfs) (some []) with
    | none => return none
    | some h =>
      let (ret, zeProps) ← libzeBePropsGet m.host m.beyond h zePropNamespace
      if ret ≠ .success then return none
      let _ ← libzeErrorClear
      return some { h with zeProps }

/-! ## The plugin -/

/-- `PLUGIN_MAX_PATHLEN`, the terminator included. -/
def pluginMaxPathlen : Nat := 512

/-- `libze_plugin_manager_error` -/
inductive PluginManagerError where
  | success | maxpathlen | eexist | pdirEexist
  deriving DecidableEq

/-- `libze_plugin_open` with the library it finds. -/
def libzePluginOpen (m : Machine) (zePlugin : CStr) :
    PluginManagerError × Option (Option PluginInit) :=
  match m.pluginsDirectory with
  | none => (.pdirEexist, none)
  | some pluginPath =>
    let (len, pluginPath) := strlcat pluginPath "/libze_plugin_" pluginMaxPathlen
    if pluginMaxPathlen ≤ len then (.maxpathlen, none) else
    let (len, pluginPath) := strlcat pluginPath zePlugin pluginMaxPathlen
    if pluginMaxPathlen ≤ len then (.maxpathlen, none) else
    let (len, pluginPath) := strlcat pluginPath ".so" pluginMaxPathlen
    if pluginMaxPathlen ≤ len then (.maxpathlen, none) else
    match m.dlopen pluginPath with
    | none => (.eexist, none)
    | some library => (.success, some library)

/-- `libze_bootloader_set` with the handle it leaves. -/
def libzeBootloaderSet (m : Machine) (h : Handle) : Libze (LibzeError × Handle) := do
  let (ret, plugin) ← libzeBePropGet h "bootloader"
  if ret ≠ .success then return (ret, h)
  if plugin = [] then return (.success, h)
  let (pRet, pHandle) := libzePluginOpen m plugin
  if pRet = .eexist then
    return (← libzeErrorSet .pluginEexist (format ["Plugin ", plugin, " doesn't exist\n"]), h)
  match pHandle with
  | none => return (← libzeErrorSet .plugin (format ["Failed to open plugin ", plugin, "\n"]), h)
  | some none =>
    return (← libzeErrorSet .plugin (format ["Failed to open ", plugin,
      " export table for plugin ", m.missingArgument, "\n"]), h)
  | some (some pluginInit) =>
    let (code, zeProps) := pluginInit h.zeProps
    if code ≠ .success then
      return (← libzeErrorSet .plugin (format ["Failed to initialize plugin ", plugin, "\n"]),
        { h with lzFuncs := true, zeProps })
    return (.success, { h with lzFuncs := true, zeProps })

/-- The part of `main` that loads the plugin: the handle and the warning, or what is printed
before it gives up. -/
def loadPlugin (m : Machine) (h : Handle) : Libze (Except CStr (Handle × CStr)) := do
  let (ret, h) ← libzeBootloaderSet m h
  if ret = .success then return .ok (h, [])
  if ret ≠ .pluginEexist then return .error (← get).libzeErrorMessage
  let (ret, plugin) ← libzeBePropGet h "bootloader"
  if ret ≠ .success then return .error (← get).libzeErrorMessage
  let _ ← libzeErrorClear
  return .ok (h, format ["WARNING: No bootloader plugin found under bootloader=", plugin, ".\n",
    "Continuing with no bootloader plugin.\n"])

/-! ## The program -/

/-- The defaults of `define_default_props`. -/
def defaultProps : LibzeError × List (CStr × CStr) :=
  addAll zePropNamespace [("bootloader", []), ("bootpoolroot", []), ("bootpoolprefix", [])] []

/-- `define_default_props` with the handle it leaves. -/
def defineDefaultProps (h : Handle) : Int × Handle :=
  let (ret, defaults) := defaultProps
  if ret ≠ .success then (-1, h) else
  let (ret, zeProps) := libzeDefaultPropsSet zePropNamespace defaults h.zeProps
  (if ret ≠ .success then -1 else 0, { h with zeProps })

/-- What `main` does before it looks for the command: the handle and what it has printed, or
what it prints before it gives up. -/
def openSystem (m : Machine) : Libze (Except CStr (Handle × CStr)) := do
  match ← initHandle m with
  | none =>
    return .error (format [zeProgram, ": System may not be configured correctly ",
      "for boot environments\n"])
  | some h =>
    match ← loadPlugin m h with
    | .error message => return .error message
    | .ok (h, warning) =>
      let (ret, h) ← libzeBootPoolSet m.host h
      if ret ≠ .success then return .error (warning ++ (← get).libzeErrorMessage)
      if (← libzeValidateSystem m.host h) ≠ .success then
        return .error (warning ++ (← get).libzeErrorMessage)
      let (code, h) := defineDefaultProps h
      if code ≠ 0 then
        return .error (format [warning, zeProgram, ": Failed to set default properties\n"])
      return .ok (h, warning)

/-- `ZECTL_VERSION` -/
def zectlVersion : CStr := "0.1.6"

def exitSuccess : Nat := 0

def exitFailure : Nat := 1

/-- The end of `main`: the command and its exit code. -/
def runCommand (m : Machine) (h : Handle) (warning name : CStr) (zeArgv : List CStr) :
    Libze (Nat × Output) := do
  match getCommand zeCommandMap name with
  | none =>
    return (exitFailure, ⟨zeUsage, format [warning, "\n", zeProgram,
      ": Invalid input, no match found.\n"]⟩)
  | some zeCommand =>
    let (zeRet, output) ← zeCommand.run m.host m.clock h zeArgv
    if zeRet ≠ .success then
      return (exitFailure, ⟨output.out, format [warning, output.err, zeProgram,
        ": Failed to run '", zeProgram, " ", name, "'.\n", (← get).libzeErrorMessage]⟩)
    return (exitSuccess, ⟨output.out, warning ++ output.err⟩)

/-- `main` -/
def zectlMain (m : Machine) (argv : List CStr) : Libze (Nat × Output) := do
  match argv.tail with
  | [] =>
    return (exitFailure, ⟨zeUsage, format ["\n", zeProgram,
      ": Invalid input, please enter a command.\n"]⟩)
  | name :: args =>
    if name = ("version" : CStr) then return (exitSuccess, ⟨zectlVersion ++ ['\n'], []⟩)
    match ← openSystem m with
    | .error message => return (exitFailure, ⟨[], message⟩)
    | .ok (h, warning) => runCommand m h warning name (name :: args)

/-- A machine that runs from `rpool/ROOT/a` and has no plugins. -/
def sampleMachine : Machine where
  host := obliging
  beyond := ⟨fun _ => [], fun _ => ' '⟩
  clock := ⟨fun _ => "0", some⟩
  mounts := some [⟨"rpool/ROOT/a", "/", "zfs"⟩]
  rootHandle := some "rpool/ROOT/a"
  bootfsReadable := true
  pluginsDirectory := none
  dlopen _ := none
  missingArgument := []

end Zectl.Command.Program
