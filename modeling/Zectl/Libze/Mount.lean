import Zectl.Libze.Validate

/-!
# Temporary mounts for the plugin hooks

A hook that needs the files of an environment runs while the environment's dataset is
mounted on a directory under `/tmp`. The check behind `mkdtemp` tests the address of
its result and never fires; a directory that was not created is the empty path here.
-/

namespace Zectl.Libze.Mount

open Zectl.Lib.StateRun Zectl.Util.CString Zectl.Zfs.System Zectl.Zfs.Steps Zectl.Libze.Init

/-- `mkdtemp`: the directory and what the template buffer then holds. -/
def mkdtemp (host : Host) (template : CStr) : Libze (CStr × CStr) := do
  let name := host.tmpName (← get) template
  if (← call host (.file (.mkdtemp template))) ≠ 0 then return ([], template)
  return (name, name)

/-- `temp_unmount_be` -/
def tempUnmountBe (host : Host) (tmpDirname beZh : CStr) : Libze LibzeError := do
  if ¬ (← get).isMounted beZh then return .success
  if (← call host (.zfs (.unmount beZh))) ≠ 0 then
    return ← libzeErrorPrepend .unknown (format ["Failed to unmount ", tmpDirname])
  let _ ← call host (.file (.rmdir tmpDirname))
  if (← call host (.zfs (.propSetList beZh [(.canmount, "noauto"), (.mountpoint, "/")]))) ≠ 0 then
    return ← libzeErrorPrepend .unknown (format ["Failed to unset mountpoint ", tmpDirname, ":\n"])
  return .success

/-- `temp_mount_be` with the directory it writes back. The source writes back a pointer to its own
buffer, which has gone when it returns; the model goes on with the name that was in it. -/
def tempMountBe (host : Host) (beName beZh : CStr) : Libze (LibzeError × CStr) := do
  let (code, template) := libzeUtilConcat "/tmp/ze." beName ".XXXXXX" zfsMaxDatasetNameLen
  if code ≠ 0 then
    return (← libzeErrorSet .unknown "Could not create directory template\n", "/")
  let (tmpDirname, template) ← mkdtemp host template
  if (← call host (.zfs (.propSet beZh .mountpoint tmpDirname))) ≠ 0 then
    let ret ← libzeErrorSet .unknown (format ["Failed to set mountpoint=", template, " for ", beZh,
      "\n"])
    let _ ← tempUnmountBe host tmpDirname beZh
    return (ret, tmpDirname)
  if (← call host (.zfs (.mount beZh))) ≠ 0 then
    let ret ← libzeErrorSet .unknown (format ["Failed to mount ", beZh, " to ", template, "\n"])
    let _ ← tempUnmountBe host tmpDirname beZh
    return (ret, tmpDirname)
  return (.success, tmpDirname)

/-- The directory of an environment for a hook: the running one is at `/`. -/
def mountForHook (host : Host) (h : Handle) (beName beZh : CStr) : Libze (LibzeError × CStr) := do
  if libzeIsRootBe h beZh then return (.success, "/")
  tempMountBe host beName beZh

/-- What `mid_activate` and `post_create` share: the hook runs on the mounted dataset,
which is unmounted again after a success unless it is the running one. -/
def hookInMount (host : Host) (h : Handle) (beName beZh : CStr) (hook : CStr → Hook)
    (message : CStr) : Libze LibzeError := do
  let (ret, tmpDirname) ← mountForHook host h beName beZh
  if ret ≠ .success then return ret
  if (← call host (.hook (hook tmpDirname))) ≠ 0 then return ← libzeErrorSet .plugin message
  if libzeIsRootBe h beZh then return .success
  tempUnmountBe host tmpDirname beZh

/-! ## The calls around a hook -/

/-- Mounts, properties and files of one dataset, and one hook. -/
inductive MountCall (beZh : CStr) (hook : CStr → Hook) : Call → Prop
  | unmount : MountCall beZh hook (.zfs (.unmount beZh))
  | mount : MountCall beZh hook (.zfs (.mount beZh))
  | set (prop : ZfsProp) (value : CStr) : MountCall beZh hook (.zfs (.propSet beZh prop value))
  | setList (props : List (ZfsProp × CStr)) : MountCall beZh hook (.zfs (.propSetList beZh props))
  | mkdtemp (path : CStr) : MountCall beZh hook (.file (.mkdtemp path))
  | rmdir (path : CStr) : MountCall beZh hook (.file (.rmdir path))
  | hook (dir : CStr) : MountCall beZh hook (.hook (hook dir))

section Calls
variable {host : Host} {h : Handle} {beZh : CStr} {hook : CStr → Hook}

theorem tempUnmountBe_issues (tmpDirname : CStr) :
    Issues host (MountCall beZh hook) (tempUnmountBe host tmpDirname beZh) := by
  unfold tempUnmountBe
  refine moves_bind moves_get fun _ => moves_ite (fun _ => moves_pure _) fun _ => ?_
  refine moves_bind (issues_call .unmount) fun _ => moves_ite (fun _ => ?_) fun _ => ?_
  · exact moves_bind (issues_errorPrepend _ _) fun _ => moves_pure _
  · refine moves_bind (issues_call (.rmdir _)) fun _ => ?_
    refine moves_bind (issues_call (.setList _)) fun _ => moves_ite (fun _ => ?_) fun _ => ?_
    · exact moves_bind (issues_errorPrepend _ _) fun _ => moves_pure _
    · exact moves_pure _

theorem tempMountBe_issues (beName : CStr) :
    Issues host (MountCall beZh hook) (tempMountBe host beName beZh) := by
  have hfail : ∀ (message tmpDirname : CStr), Issues host (MountCall beZh hook)
      (libzeErrorSet .unknown message >>= fun ret =>
        tempUnmountBe host tmpDirname beZh >>= fun _ => pure (ret, tmpDirname)) :=
    fun message tmpDirname => moves_bind (issues_errorSet _ _) fun _ =>
      moves_bind (tempUnmountBe_issues _) fun _ => moves_pure _
  unfold tempMountBe mkdtemp
  refine moves_ite (fun _ => moves_bind (issues_errorSet _ _) fun _ => moves_pure _) fun _ => ?_
  refine moves_bind (moves_bind moves_get fun _ => moves_bind (issues_call (.mkdtemp _)) fun _ =>
    moves_ite (fun _ => moves_pure _) fun _ => moves_pure _) fun dir => ?_
  refine moves_bind (issues_call (.set _ _)) fun _ => moves_ite (fun _ => hfail _ _) fun _ => ?_
  refine moves_bind (issues_call .mount) fun _ => moves_ite (fun _ => hfail _ _) fun _ => ?_
  exact moves_pure _

theorem hookInMount_issues (beName message : CStr) :
    Issues host (MountCall beZh hook) (hookInMount host h beName beZh hook message) := by
  unfold hookInMount mountForHook
  refine moves_bind (moves_ite (fun _ => moves_pure _) fun _ => tempMountBe_issues _) fun _ => ?_
  refine moves_ite (fun _ => moves_pure _) fun _ => ?_
  refine moves_bind (issues_call (.hook _)) fun _ => moves_ite (fun _ => ?_) fun _ => ?_
  · exact moves_bind (issues_errorSet _ _) fun _ => moves_pure _
  · exact moves_ite (fun _ => moves_pure _) fun _ => tempUnmountBe_issues _

theorem foldl_setProp_shape (props : List (ZfsProp × CStr)) (d : Dataset) :
    (props.foldl (fun d p => d.setProp p.1 p.2) d).name = d.name ∧
      (props.foldl (fun d p => d.setProp p.1 p.2) d).origin = d.origin := by
  induction props generalizing d with
  | nil => exact ⟨rfl, rfl⟩
  | cons p rest ih => exact ih (d.setProp p.1 p.2)

theorem MountCall.shape {c : Call} (hc : MountCall beZh hook c) (s : Sys) :
    SameShape s (c.effect host s) := by
  cases hc with
  | unmount => exact mapDataset_shape fun _ => rfl
  | mount => exact mapDataset_shape fun _ => rfl
  | set => exact mapDataset_shape fun _ => rfl
  | setList props =>
    refine mapDataset_shape fun d => ?_
    obtain ⟨hname, horigin⟩ := foldl_setProp_shape (props.map host.store) d
    rw [hname, horigin]
  | mkdtemp => exact .refl s
  | rmdir => exact .refl s
  | hook => exact .refl s

end Calls

end Zectl.Libze.Mount
