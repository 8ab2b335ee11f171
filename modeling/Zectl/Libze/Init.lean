import Zectl.Zfs.Steps
import Zectl.Zfs.Forest

/-!
# The handle

`libze_init` and `libze_boot_pool_set` build the handle, so the shape of its names
is a field of the handle and later proofs take it from there. Loading the plugin
library is not modelled; the handle says whether one is loaded.
-/

namespace Zectl.Libze.Init

open Zectl.Lib.StateRun Zectl.Lib.PathOrder Zectl.Util.CString Zectl.Zfs.System Zectl.Zfs.Steps

/-- `libze_bootpool` with an open pool. -/
structure Bootpool where
  zpoolName : CStr
  rootPath : CStr
  rootPathFull : CStr
  datasetPrefix : CStr
  full_eq : rootPathFull = rootPath ++ '/' ::
    (if datasetPrefix = [] then [] else datasetPrefix ++ "-".toList)
  full_fits : rootPathFull.length < zfsMaxDatasetNameLen
  deriving DecidableEq

/-- `libze_handle` after initialization. -/
structure Handle where
  envPool : CStr
  envRoot : CStr
  envActivated : CStr
  envActivatedPath : CStr
  envRunning : CStr
  envRunningPath : CStr
  bootpool : Option Bootpool := none
  /-- A plugin is loaded. -/
  lzFuncs : Bool := false
  zeProps : List (CStr × CStr) := []
  pool_eq : envPool = envRoot.takeWhile (· ≠ '/')
  root_slash : '/' ∈ envRoot
  runningPath_eq : envRunningPath = envRoot ++ '/' :: envRunning
  running_flat : '/' ∉ envRunning
  runningPath_fits : envRunningPath.length < zfsMaxDatasetNameLen
  activatedPath_eq : ∃ before, envActivatedPath = before ++ '/' :: envActivated
  activated_flat : '/' ∉ envActivated
  activatedPath_fits : envActivatedPath.length < zfsMaxDatasetNameLen

/-- The root dataset and its last component, as `libze_get_root_dataset` stores them. -/
def libzeGetRootDataset (mountedAtRoot : Option CStr) : Option (CStr × CStr) :=
  match mountedAtRoot with
  | none => none
  | some name =>
    if zfsMaxDatasetNameLen ≤ name.length then none else
    match libzeBootEnvName name zfsMaxDatasetNameLen with
    | (0, envRunning) => some (name, envRunning)
    | _ => none

theorem libzeGetRootDataset_eq_some {mountedAtRoot : Option CStr} {path be : CStr}
    (h : libzeGetRootDataset mountedAtRoot = some (path, be)) :
    path.length < zfsMaxDatasetNameLen ∧ '/' ∉ be ∧ ∃ before, path = before ++ '/' :: be := by
  unfold libzeGetRootDataset at h
  split at h
  · cases h
  · split at h
    · cases h
    · split at h
      · rename_i hname
        cases h
        exact libzeBootEnvName_eq_ok_iff.mp hname
      · cases h

/-- `libze_init`: the dataset mounted at the root, whether the pool opens, the value
of its `bootfs` and the user properties of the root of the boot environments are
read from the system; a missing one stands for a call that fails. -/
def libzeInit (mountedAtRoot : Option CStr) (poolOpens : Bool) (bootfs : Option CStr)
    (zeProps : Option (List (CStr × CStr))) : Option Handle :=
  match hrun : libzeGetRootDataset mountedAtRoot with
  | none => none
  | some (envRunningPath, envRunning) =>
    match hcut : libzeUtilCut envRunningPath zfsMaxDatasetNameLen '/' with
    | (0, envRoot) =>
      if hslash : '/' ∈ envRoot then
        if ¬ poolOpens then none else
        match bootfs with
        | none => none
        | some value =>
          let envActivatedPath := value.take (zfsMaxDatasetNameLen - 1)
          match hact : libzeBootEnvName envActivatedPath zfsMaxDatasetNameLen with
          | (0, envActivated) =>
            match zeProps with
            | none => none
            | some zeProps => some {
                envPool := envRoot.takeWhile (· ≠ '/')
                envRoot, envActivated, envActivatedPath, envRunning, envRunningPath, zeProps
                pool_eq := rfl
                root_slash := hslash
                runningPath_eq := by
                  obtain ⟨_, after, he, ha⟩ := libzeUtilCut_eq_ok_iff.mp hcut
                  obtain ⟨_, hflat, before, he'⟩ := libzeGetRootDataset_eq_some hrun
                  rw [he'] at he
                  obtain ⟨rfl, rfl⟩ := append_cons_inj hflat ha he
                  exact he'
                running_flat := (libzeGetRootDataset_eq_some hrun).2.1
                runningPath_fits := (libzeGetRootDataset_eq_some hrun).1
                activatedPath_eq := (libzeBootEnvName_eq_ok_iff.mp hact).2.2
                activated_flat := (libzeBootEnvName_eq_ok_iff.mp hact).2.1
                activatedPath_fits := (libzeBootEnvName_eq_ok_iff.mp hact).1 }
          | _ => none
      else none
    | _ => none

/-- `libze_be_prop_get`: the value in `ze_props`, empty when it is not there. -/
def libzeBePropGet (h : Handle) (property : CStr) : Libze (LibzeError × CStr) := do
  let (code, propBuf) := libzeUtilConcat zePropNamespace ":" property zfsMaxproplen
  if code ≠ 0 then
    return (← libzeErrorSet .maxpathlen "Exceeded length of property.\n", [])
  match h.zeProps.lookup propBuf with
  | none => return (.success, [])
  | some value =>
    if zfsMaxproplen ≤ value.length then
      return (← libzeErrorSet .unknown "Property is too large.\n", value.take (zfsMaxproplen - 1))
    return (.success, value)

theorem nameLen_pos : 0 < zfsMaxDatasetNameLen := by decide

/-- `libze_boot_pool_set`: the handle it leaves, with the boot pool when one is
configured and can be opened. -/
def libzeBootPoolSet (host : Host) (h : Handle) : Libze (LibzeError × Handle) := do
  let (ret, rootPath) ← libzeBePropGet h "bootpoolroot"
  if ret ≠ .success then return (ret, h)
  let (ret, datasetPrefix) ← libzeBePropGet h "bootpoolprefix"
  if ret ≠ .success then return (ret, h)
  if rootPath = [] then return (.success, { h with bootpool := none })
  let (code, zpoolName) := libzeGetZpoolNameFromDataset rootPath zfsMaxDatasetNameLen
  if code ≠ 0 then
    return (← libzeErrorSet .eexist (format [
      "Can't determine ZFS pool name of specified root path (", rootPath, ").\n"]), h)
  if (← call host (.zfs (.poolOpen zpoolName))) ≠ 0 then
    return (← libzeErrorSet .zfsOpen (format [
      "Can't open ZFS bootpool (", zpoolName, ").\n"]), h)
  if rootPath ∉ (← get).names then
    return (← libzeErrorSet .eexist (format [
      "Root path (bootpool:root) which holds all boot datasets on the bootpool (", rootPath,
      ") does not exist.\n"]), h)
  if (← zfsOpen host rootPath .filesystem) ≠ 0 then
    return (← libzeErrorSet .zfsOpen (format [
      "Failed to open root dataset from bootpool (", rootPath, ").\n"]), h)
  if (← zfsPropGet host rootPath .mountpoint).1 ≠ 0 then
    return (← libzeErrorSet .libzfs (format [
      "Failed to get ZFS mountpoint property for ", rootPath, ".\n"]), h)
  match hpath : libzeUtilConcat rootPath "/" datasetPrefix zfsMaxDatasetNameLen with
  | (0, pathTemp) =>
    if hpre : datasetPrefix = [] then
      return (.success, { h with bootpool := some {
        zpoolName, rootPath, datasetPrefix
        rootPathFull := pathTemp
        full_eq := by
          obtain ⟨_, rfl⟩ := (libzeUtilConcat_eq_ok_iff nameLen_pos).mp hpath
          simp [hpre]
        full_fits := by
          obtain ⟨hfit, rfl⟩ := (libzeUtilConcat_eq_ok_iff nameLen_pos).mp hpath
          exact hfit } })
    else
      match hfull : libzeUtilConcat pathTemp "-" "" zfsMaxDatasetNameLen with
      | (0, rootPathFull) =>
        return (.success, { h with bootpool := some {
          zpoolName, rootPath, datasetPrefix, rootPathFull
          full_eq := by
            obtain ⟨_, rfl⟩ := (libzeUtilConcat_eq_ok_iff nameLen_pos).mp hpath
            obtain ⟨_, rfl⟩ := (libzeUtilConcat_eq_ok_iff nameLen_pos).mp hfull
            simp [hpre]
          full_fits := by
            obtain ⟨hfit, rfl⟩ := (libzeUtilConcat_eq_ok_iff nameLen_pos).mp hfull
            exact hfit } })
      | _ =>
        return (← libzeErrorSet .maxpathlen (format [
          "Requested subpath for activated boot environment on bootpool (", pathTemp,
          "-) exceeds max length (256).\n"]), h)
  | _ =>
    return (← libzeErrorSet .maxpathlen (format [
      "Requested path to bootpool (", rootPath, "/", datasetPrefix,
      ") exceeds max length (256).\n"]), h)

/-- `libze_is_active_be` -/
def libzeIsActiveBe (h : Handle) (be : CStr) : Bool :=
  if '/' ∉ be then h.envActivated = be else h.envActivatedPath = be

/-- `libze_is_root_be` -/
def libzeIsRootBe (h : Handle) (be : CStr) : Bool :=
  if '/' ∉ be then h.envRunning = be else h.envRunningPath = be

/-- The dataset of a boot environment on the root pool. -/
def Handle.beDataset (h : Handle) (be : CStr) : CStr := h.envRoot ++ '/' :: be

/-- The dataset of a boot environment on the boot pool. -/
def Bootpool.beDataset (bp : Bootpool) (be : CStr) : CStr := bp.rootPathFull ++ be

/-- What the checks write for the boot pool: nothing without one. -/
def Handle.bpoolDataset (h : Handle) (be : CStr) : CStr :=
  h.bootpool.elim [] fun bp => bp.beDataset be

theorem bpoolDataset_none {h : Handle} (hbp : h.bootpool = none) (be : CStr) :
    h.bpoolDataset be = [] := by
  rw [Handle.bpoolDataset, hbp, Option.elim_none]

theorem bpoolDataset_some {h : Handle} {bp : Bootpool} (hbp : h.bootpool = some bp) (be : CStr) :
    h.bpoolDataset be = bp.beDataset be := by
  rw [Handle.bpoolDataset, hbp, Option.elim_some]

theorem beDataset_slash (h : Handle) (be : CStr) : '/' ∈ h.beDataset be := by
  simp [Handle.beDataset]

theorem bootBeDataset_ne_nil (bp : Bootpool) (be : CStr) : bp.beDataset be ≠ [] := by
  simp [Bootpool.beDataset, bp.full_eq]

end Zectl.Libze.Init
