import Zectl.Libze.MountTree
import Zectl.Systemdboot.Entry
import Zectl.Systemdboot.Rewritten
import Zectl.Util.CopyDir

/-!
# Saving the boot files before a snapshot

The kernels, the entry and the `fstab` of an environment are saved in the environment itself,
which is mounted for it unless it is running. The result of the steps is overwritten by that of
the unmount, a rewriting that fails on a line counts as a success, and for the running
environment the path of the mount is whatever the buffer holds.
-/

namespace Zectl.Systemdboot.PreSnapshot

open Zectl.Lib.StateRun Zectl.Util.CString Zectl.Util.Files Zectl.Util.Writes Zectl.Util.Directory
open Zectl.Util.CopyDir Zectl.Zfs.System Zectl.Zfs.Steps Zectl.Libze.Init Zectl.Libze.Unmount
open Zectl.Libze.MountTree Zectl.Systemdboot.ReplaceMatched Zectl.Systemdboot.Loader
open Zectl.Systemdboot.Fstab Zectl.Systemdboot.Entry Zectl.Systemdboot.Rewritten

/-- The name that stands for the environment in what is saved. -/
def placeholder : CStr := "%ZECTLBE%"

/-- The paths `pre_snapshot` works with. -/
structure SavePaths where
  kernelDirBuf : CStr
  kernelLoaderConf : CStr
  fstabBuf : CStr
  kernelBootDir : CStr
  kernelLoaderDir : CStr
  kernelLoaderConfDest : CStr
  etcBufDir : CStr
  fstabBufDest : CStr
  deriving DecidableEq

/-- `libze_util_concat` into the buffer of a path. -/
def concatPath (pfx separator suffix : CStr) : Option CStr :=
  let (ret, buf) := libzeUtilConcat pfx separator suffix libzeMaxPathLen
  if ret ≠ 0 then none else some buf

/-- The destinations, unless one of them is too long. -/
def saveDests (kernelMountedSnapDir : CStr) : Option (CStr × CStr × CStr × CStr × CStr) := do
  let kernelBootDir ← concatPath kernelMountedSnapDir "" "/env/boot"
  let kernelLoaderDir ← concatPath kernelMountedSnapDir "" "/loader/entries"
  let kernelLoaderConfDest ←
    concatPath kernelMountedSnapDir "/loader/entries/" "org.zectl-%ZECTLBE%.conf"
  let etcBufDir ← concatPath kernelMountedSnapDir "" "/etc/"
  let fstabBufDest ← concatPath kernelMountedSnapDir "/etc/" "fstab"
  return (kernelBootDir, kernelLoaderDir, kernelLoaderConfDest, etcBufDir, fstabBufDest)

/-- The paths, or the message when one of them is too long. -/
def savePaths (beName efiMountpoint kernelSnapDir mountpointBuf : CStr) : Except CStr SavePaths :=
  match concatPath mountpointBuf "" kernelSnapDir with
  | none =>
    .error "Mounted BE kernelsnapshotdirectory subdirectory path exceeds max path length.\n"
  | some kernelMountedSnapDir =>
  match formLoaderEntryPath efiMountpoint "env" beName with
  | none => .error "BE kernel directory path exceeds max path length.\n"
  | some kernelDirBuf =>
  match formLoaderEntryConfig efiMountpoint beName with
  | none => .error "BE config file path exceeds max path length.\n"
  | some kernelLoaderConf =>
  match concatPath mountpointBuf "" "/etc/fstab" with
  | none =>
    .error "Mounted BE kernelsnapshotdirectory subdirectory path exceeds max path length.\n"
  | some fstabBuf =>
  match saveDests kernelMountedSnapDir with
  | none => .error "BE kernelsnapshotdirectory subdirectory path exceeds max path length.\n"
  | some (kernelBootDir, kernelLoaderDir, kernelLoaderConfDest, etcBufDir, fstabBufDest) =>
    .ok { kernelDirBuf, kernelLoaderConf, fstabBuf, kernelBootDir, kernelLoaderDir,
          kernelLoaderConfDest, etcBufDir, fstabBufDest }

/-- A directory for what is saved. -/
def createDirectory (host : Host) (path : CStr) : Libze LibzeError := do
  if (← libzeUtilMkdir host path) ≠ 0 then
    return ← libzeErrorSet .maxpathlen (format ["Failed to create directory (", path, ").\n"])
  return .success

/-- The directories for what is saved, and the kernels. -/
def saveKernels (host : Host) (p : SavePaths) : Libze LibzeError := do
  let ret ← createDirectory host p.kernelBootDir
  if ret ≠ .success then return ret
  let ret ← createDirectory host p.kernelLoaderDir
  if ret ≠ .success then return ret
  let ret ← createDirectory host p.etcBufDir
  if ret ≠ .success then return ret
  if (← libzeUtilCopydir host p.kernelDirBuf p.kernelBootDir) ≠ 0 then
    return ← libzeErrorSet .maxpathlen (format ["Failed to copy directory (", p.kernelLoaderConf,
      " -> ", p.kernelLoaderConfDest, ").\n"])
  return .success

/-- What is handed to the callback for `fstab`. -/
def saveFstabData (beName efiMountpoint bootMountpoint : CStr) : ReplaceFstabData where
  beName := placeholder
  activeBe := beName
  bootMountpoint
  efiMountpoint

/-- `libze_plugin_systemdboot_pre_snapshot` from the mount to the label `err`. -/
def saveBootFiles (host : Host) (h : Handle)
    (beName efiMountpoint bootMountpoint kernelSnapDir mountpointBuf : CStr) :
    Libze LibzeError := do
  match savePaths beName efiMountpoint kernelSnapDir mountpointBuf with
  | .error message => libzeErrorSet .maxpathlen message
  | .ok p =>
    let ret ← saveKernels host p
    if ret ≠ .success then return ret
    let ret ← replaceBeName host h placeholder beName p.kernelLoaderConf p.kernelLoaderConfDest
    if ret ≠ .success then return ret
    let ret ← replaceMatched host p.fstabBuf p.fstabBufDest
      (getFstabLineFromRegex (saveFstabData beName efiMountpoint bootMountpoint))
    if ret ≠ .success then
      return ← libzeErrorSet .unknown (format ["Failed to replace lines in ", p.fstabBufDest, ".\n"])
    return .success

/-- `libze_plugin_systemdboot_pre_snapshot`; `mountpointBuf` is the string in the buffer before
anything is written to it. -/
def preSnapshot (host : Host) (h : Handle) (mountpointBuf beName : CStr) (isRoot : Bool) :
    Libze LibzeError := do
  let (ret, efiMountpoint) ← pluginPropGet h "efi"
  if ret ≠ .success then return ← libzeErrorSet .unknown (noAccess "efi")
  let (ret, bootMountpoint) ← pluginPropGet h "boot"
  if ret ≠ .success then return ← libzeErrorSet .unknown (noAccess "boot")
  let (ret, kernelSnapDir) ← pluginPropGet h "kernelsnapshotdirectory"
  if ret ≠ .success then return ← libzeErrorSet .unknown (noAccess "kernelsnapshotdirectory")
  if isRoot then
    let (_, mountpointBuf) := strlcat mountpointBuf "" libzeMaxPathLen
    saveBootFiles host h beName efiMountpoint bootMountpoint kernelSnapDir mountpointBuf
  else
    let (ret, mountpointBuf) ← libzeMount host h beName none
    if ret ≠ .success then return ret
    let _ ← saveBootFiles host h beName efiMountpoint bootMountpoint kernelSnapDir mountpointBuf
    libzeUnmount host h beName

/-! ## The paths -/

/-- The directory in an environment for what is saved. -/
def saveDir (h : Handle) (mountpoint : CStr) : CStr :=
  mountpoint ++ propertyOf h "kernelsnapshotdirectory"

/-- Where the kernels are saved. -/
def bootDest (saveDir : CStr) : CStr := saveDir ++ ("/env/boot" : CStr)

/-- Where the entry is saved. -/
def entryDest (saveDir : CStr) : CStr :=
  saveDir ++ ("/loader/entries/" : CStr) ++ ("org.zectl-%ZECTLBE%.conf" : CStr)

/-- Where `fstab` is saved. -/
def fstabDest (saveDir : CStr) : CStr := saveDir ++ ("/etc/" : CStr) ++ ("fstab" : CStr)

def fstabOf (mountpoint : CStr) : CStr := mountpoint ++ ("/etc/fstab" : CStr)

/-- The paths when none is too long. -/
def pathsIn (beName efiMountpoint kernelSnapDir mountpoint : CStr) : SavePaths where
  kernelDirBuf := kernelDir efiMountpoint beName
  kernelLoaderConf := entryPath efiMountpoint beName
  fstabBuf := fstabOf mountpoint
  kernelBootDir := bootDest (mountpoint ++ kernelSnapDir)
  kernelLoaderDir := mountpoint ++ kernelSnapDir ++ ("/loader/entries" : CStr)
  kernelLoaderConfDest := entryDest (mountpoint ++ kernelSnapDir)
  etcBufDir := mountpoint ++ kernelSnapDir ++ ("/etc/" : CStr)
  fstabBufDest := fstabDest (mountpoint ++ kernelSnapDir)

section Paths
variable {beName efi ksd mnt : CStr} {p : SavePaths}

theorem concatPath_eq (pfx separator suffix : CStr) : concatPath pfx separator suffix =
    if (pfx ++ separator ++ suffix).length < libzeMaxPathLen then some (pfx ++ separator ++ suffix)
    else none := by
  rw [concatPath, libzeUtilConcat_eq _ _ _ (by decide)]
  by_cases hfit : (pfx ++ separator ++ suffix).length < libzeMaxPathLen
  · rw [if_pos hfit, if_pos hfit, take_of_fits hfit]
    rfl
  · rw [if_neg hfit, if_neg hfit]
    rfl

theorem concatPath_some {pfx separator suffix buf : CStr}
    (h : concatPath pfx separator suffix = some buf) : buf = pfx ++ separator ++ suffix := by
  rw [concatPath_eq] at h
  exact (Option.some.inj (Option.ite_none_right_eq_some.mp h).2).symm

theorem savePaths_ok (h : savePaths beName efi ksd mnt = .ok p) : p = pathsIn beName efi ksd mnt := by
  unfold savePaths at h
  rw [formLoaderEntryPath_env, formLoaderEntryConfig_eq] at h
  split at h
  · cases h
  rename_i dir hdir
  split at h
  · cases h
  rename_i kernels hkernels
  split at h
  · cases h
  rename_i conf hconf
  split at h
  · cases h
  rename_i fstab hfstab
  split at h
  · cases h
  rename_i dests b l c e f hdests
  cases h
  obtain rfl := concatPath_some hdir
  obtain rfl := concatPath_some hfstab
  obtain rfl := Option.some.inj (Option.ite_none_left_eq_some.mp hkernels).2
  obtain rfl := Option.some.inj (Option.ite_none_left_eq_some.mp hconf).2
  simp only [saveDests, Option.bind_eq_bind, Option.bind_eq_some_iff, Option.pure_def] at hdests
  obtain ⟨_, hb, _, hl, _, hc, _, he, _, hf, heq⟩ := hdests
  obtain rfl := concatPath_some hb
  obtain rfl := concatPath_some hl
  obtain rfl := concatPath_some hc
  obtain rfl := concatPath_some he
  obtain rfl := concatPath_some hf
  cases heq
  simp [pathsIn, bootDest, entryDest, fstabDest, fstabOf]

end Paths

end Zectl.Systemdboot.PreSnapshot
