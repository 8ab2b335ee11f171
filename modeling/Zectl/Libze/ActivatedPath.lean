import Zectl.Libze.Sample
import Zectl.Libze.Validate

/-!
# The activated environment by name and by path

`libze_init` takes the name of the activated environment from the last component of the
`bootfs` property and the root of the environments from the running dataset.
`libze_validate_system` looks for that name below that root, and never at the path.
-/

namespace Zectl.Libze.ActivatedPath

open Zectl.Lib.PathOrder Zectl.Util.CString Zectl.Zfs.System Zectl.Libze.Init
open Zectl.Libze.Validate Zectl.Libze.Sample

/-- The dataset directly above one. -/
def above (dataset : CStr) : Option CStr := (splitLast '/' dataset).map Prod.fst

/-- What `zpool_get_prop` writes into the buffer of the handle. -/
def bootfsBuf (bootfs : CStr) : CStr := bootfs.take (zfsMaxDatasetNameLen - 1)

/-- The name and the path of the activated environment are those of one environment, so the
two uses of `libze_is_active_be` agree. -/
structure Agrees (h : Handle) : Prop where
  path : h.envActivatedPath = h.beDataset h.envActivated
  checks : ∀ be, '/' ∉ be → libzeIsActiveBe h be = libzeIsActiveBe h (h.beDataset be)

theorem above_append {a b : CStr} (hb : '/' ∉ b) : above (a ++ '/' :: b) = some a := by
  rw [above, splitLast_append hb, Option.map_some]

theorem checks_of_path {h : Handle} (hpath : h.envActivatedPath = h.beDataset h.envActivated)
    {be : CStr} (hbe : '/' ∉ be) :
    libzeIsActiveBe h be = libzeIsActiveBe h (h.beDataset be) := by
  have hslash := beDataset_slash h be
  have hinj : h.beDataset h.envActivated = h.beDataset be ↔ h.envActivated = be := by
    simp [Handle.beDataset]
  rw [libzeIsActiveBe, libzeIsActiveBe, if_pos hbe, if_neg (not_not.mpr hslash), hpath]
  exact (decide_eq_decide.mpr hinj).symm

theorem mountedAtRoot_of_getRootDataset {mountedAtRoot : Option CStr} {path running : CStr}
    (hrun : libzeGetRootDataset mountedAtRoot = some (path, running)) :
    mountedAtRoot = some path := by
  unfold libzeGetRootDataset at hrun
  split at hrun
  · cases hrun
  split at hrun
  · cases hrun
  split at hrun
  · cases hrun
    rfl
  · cases hrun

/-- What `libze_init` reads of the two properties. -/
theorem libzeInit_eq_some {mountedAtRoot bootfs : Option CStr} {poolOpens : Bool}
    {zeProps : Option (List (CStr × CStr))} {h : Handle}
    (hinit : libzeInit mountedAtRoot poolOpens bootfs zeProps = some h) :
    mountedAtRoot = some h.envRunningPath ∧ bootfs.map bootfsBuf = some h.envActivatedPath := by
  unfold libzeInit at hinit
  split at hinit
  · cases hinit
  rename_i path running hrun
  split at hinit
  swap
  · cases hinit
  split at hinit
  swap
  · cases hinit
  split at hinit
  · cases hinit
  split at hinit
  · cases hinit
  rename_i value
  dsimp only at hinit
  split at hinit
  swap
  · cases hinit
  split at hinit
  · cases hinit
  cases hinit
  constructor
  · exact mountedAtRoot_of_getRootDataset hrun
  · rfl

/-- The two fields name one environment exactly when the running dataset and the boot file
system are directly below the same dataset. -/
theorem agrees_iff_siblings (host : Host) (mountedAtRoot bootfs : Option CStr) (poolOpens : Bool)
    (zeProps : Option (List (CStr × CStr))) (h : Handle) (s : Sys)
    (hinit : libzeInit mountedAtRoot poolOpens bootfs zeProps = some h)
    (_hvalid : (libzeValidateSystem host h s).1 = .success) :
    Agrees h ↔ mountedAtRoot.bind above = (bootfs.map bootfsBuf).bind above := by
  obtain ⟨hrunning, hactivated⟩ := libzeInit_eq_some hinit
  obtain ⟨before, hbefore⟩ := h.activatedPath_eq
  have hroot : above h.envRunningPath = some h.envRoot := by
    rw [h.runningPath_eq, above_append h.running_flat]
  have habove : above h.envActivatedPath = some before := by
    rw [hbefore, above_append h.activated_flat]
  rw [hrunning, hactivated, Option.bind_some, Option.bind_some, hroot, habove, Option.some_inj]
  constructor
  · intro hagrees
    have hpath := hbefore.symm.trans hagrees.path
    exact (append_cons_inj h.activated_flat h.activated_flat hpath).1.symm
  · intro heq
    have hpath : h.envActivatedPath = h.beDataset h.envActivated := by
      rw [hbefore, Handle.beDataset, heq]
    exact ⟨hpath, fun be hbe => checks_of_path hpath hbe⟩

/-! ## An activated environment outside the root -/

/-- `b` below another root, beside the environment `b` of the root. -/
def outsideSys : Sys :=
  { sampleSys [{ name := "rpool/OLD" }, { name := "rpool/OLD/b" }] with bootfs := "rpool/OLD/b" }

def siblingHandle : Handle :=
  (libzeInit (some "rpool/ROOT/a") true (some "rpool/ROOT/b") (some [])).get (by decide +kernel)

theorem agrees_iff_siblings_sample :
    Agrees siblingHandle ↔ above "rpool/ROOT/a" = above (bootfsBuf "rpool/ROOT/b") :=
  agrees_iff_siblings allowing (some "rpool/ROOT/a") (some "rpool/ROOT/b") true (some [])
    siblingHandle (sampleSys []) (Option.some_get _).symm (by decide +kernel)

def outsideHandle : Handle :=
  (libzeInit (some "rpool/ROOT/a") true (some "rpool/OLD/b") (some [])).get (by decide +kernel)

/-- `rpool/OLD/b` is activated. The name `b` counts as activated, the path `rpool/ROOT/b` does
not, and `libze_destroy` asks for the path. -/
theorem not_agrees_outside :
    ¬ ∀ (host : Host) (mountedAtRoot bootfs : Option CStr) (poolOpens : Bool)
      (zeProps : Option (List (CStr × CStr))) (h : Handle) (s : Sys),
      libzeInit mountedAtRoot poolOpens bootfs zeProps = some h →
      (libzeValidateSystem host h s).1 = .success → Agrees h := by
  intro hall
  have hagrees := hall allowing (some "rpool/ROOT/a") (some "rpool/OLD/b") true (some [])
    outsideHandle outsideSys (Option.some_get _).symm (by decide +kernel)
  have hchecks := hagrees.checks "b" (by decide)
  exact absurd hchecks (by decide +kernel)

end Zectl.Libze.ActivatedPath
