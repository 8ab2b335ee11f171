import Zectl.Libze.Init

/-!
# The checks on boot environment names

`validate_existing_be`, `validate_new_be`, `open_boot_environment` and
`libze_validate_system`. The checks only look at the pools, and a successful check
fixes the names it writes back: callers use these two facts and not the bodies.
-/

namespace Zectl.Libze.Validate

open Zectl.Lib.StateRun Zectl.Util.CString Zectl.Zfs.System Zectl.Zfs.Steps Zectl.Libze.Init

/-- `validate_existing_be` with the two names it writes back on success. -/
def validateExistingBe (host : Host) (h : Handle) (be : CStr) :
    Libze (LibzeError × CStr × CStr) := do
  let (code, beDs) := libzeUtilConcat h.envRoot "/" be zfsMaxDatasetNameLen
  if code ≠ 0 then
    return (← libzeErrorSet .maxpathlen (format ["Boot environment dataset (", h.envRoot, "/", be,
      ") exceeds max length (256).\n"]), [], [])
  if ¬ (← get).datasetExists beDs .filesystem then
    return (← libzeErrorSet .eexist (format ["Boot environment dataset (", beDs,
      ") doesn't exist.\n"]), [], [])
  if (← zfsOpen host beDs .filesystem) ≠ 0 then
    return (← libzeErrorSet .zfsOpen (format ["Failed to open boot environment dataset (", beDs,
      ").\n"]), [], [])
  let (r, propBuf) ← zfsPropGet host beDs .mountpoint
  if r ≠ 0 then
    return (← libzeErrorSet .libzfs (format [
      "Failed to get mountpoint property of boot environment dataset (", beDs, ").\n"]), [], [])
  if propBuf = ("none" : CStr) then
    return (← libzeErrorSet .mountpoint (format ["Mountpoint of boot environment dataset (", beDs,
      ") is set to 'none'.\n"]), [], [])
  match h.bootpool with
  | none => return (.success, beDs, [])
  | some bp =>
    let (code, beBpoolDs) := libzeUtilConcat bp.rootPathFull "" be zfsMaxDatasetNameLen
    if code ≠ 0 then
      return (← libzeErrorSet .maxpathlen (format ["Boot environment dataset on bootpool (",
        bp.rootPathFull, be, ") exceeds max length (256).\n"]), [], [])
    if ¬ (← get).datasetExists beBpoolDs .filesystem then
      return (← libzeErrorSet .eexist (format ["Boot environment dataset on bootpool (", beBpoolDs,
        ") doesn't exist.\n"]), [], [])
    if (← zfsOpen host beBpoolDs .filesystem) ≠ 0 then
      return (← libzeErrorSet .zfsOpen (format ["Failed to open boot environment dataset on ",
        "bootpool (", beBpoolDs, ").\n"]), [], [])
    return (.success, beDs, beBpoolDs)

/-- `validate_new_be` with the two names it writes back on success. -/
def validateNewBe (h : Handle) (be : CStr) : Libze (LibzeError × CStr × CStr) := do
  let (code, beDs) := libzeUtilConcat h.envRoot "/" be zfsMaxDatasetNameLen
  if code ≠ 0 then
    return (← libzeErrorSet .maxpathlen (format ["Boot environment dataset (", h.envRoot, "/", be,
      ") exceeds max length (256).\n"]), [], [])
  if (← get).datasetExists beDs .filesystem then
    return (← libzeErrorSet .eexist (format ["Boot environment dataset (", beDs,
      ") exists.\n"]), [], [])
  match h.bootpool with
  | none => return (.success, beDs, [])
  | some bp =>
    let (code, beBpoolDs) := libzeUtilConcat bp.rootPathFull "" be zfsMaxDatasetNameLen
    if code ≠ 0 then
      return (← libzeErrorSet .maxpathlen (format ["Boot environment dataset on bootpool (",
        bp.rootPathFull, be, ") exceeds max length (256).\n"]), [], [])
    if (← get).datasetExists beBpoolDs .filesystem then
      return (← libzeErrorSet .eexist (format ["Boot environment dataset on bootpool (", beBpoolDs,
        ") exists.\n"]), [], [])
    return (.success, beDs, beBpoolDs)

/-- `open_boot_environment`: the names of the opened datasets, the second empty
where the C function leaves no handle for the boot pool. -/
def openBootEnvironment (host : Host) (h : Handle) (be : CStr) :
    Libze (LibzeError × CStr × CStr) := do
  let (ret, beDs, beBpoolDs) ← validateExistingBe host h be
  if ret ≠ .success then return (ret, [], [])
  if (← zfsOpen host beDs .filesystem) ≠ 0 then
    return (← libzeErrorSet .zfsOpen (format ["Failed to open boot environment dataset (", beDs,
      ").\n"]), [], [])
  if beBpoolDs ≠ [] then
    if (← zfsOpen host beBpoolDs .filesystem) ≠ 0 then
      return (← libzeErrorSet .zfsOpen (format [
        "Failed to open boot environment datast on bootpool (", beBpoolDs, ").\n"]), [], [])
  return (.success, beDs, beBpoolDs)

/-- `libze_validate_system` -/
def libzeValidateSystem (host : Host) (h : Handle) : Libze LibzeError := do
  let (ret, _) ← validateExistingBe host h h.envActivated
  if ret ≠ .success then
    return ← libzeErrorPrepend ret (format ["Failed to validate the activated boot environment (",
      h.envActivated, ")! Error:\n"])
  if ¬ libzeIsRootBe h h.envActivated then
    let (ret, _) ← validateExistingBe host h h.envRunning
    if ret ≠ .success then
      return ← libzeErrorPrepend ret (format ["Failed to validate the running boot environment (",
        h.envRunning, ")! Error:\n"])
  return .success

/-! ## The checks only look -/

theorem validateExistingBe_issues (host : Host) (h : Handle) (be : CStr) :
    Issues host IsLookup (validateExistingBe host h be) := by
  unfold validateExistingBe
  repeat' first
    | exact moves_pure _
    | exact moves_get
    | exact issues_errorSet _ _
    | exact issues_zfsOpen trivial
    | exact issues_zfsPropGet trivial
    | refine moves_bind ?_ fun _ => ?_
    | split

theorem validateNewBe_issues (host : Host) (h : Handle) (be : CStr) :
    Issues host IsLookup (validateNewBe h be) := by
  unfold validateNewBe
  repeat' first
    | exact moves_pure _
    | exact moves_get
    | exact issues_errorSet _ _
    | refine moves_bind ?_ fun _ => ?_
    | split

theorem openBootEnvironment_issues (host : Host) (h : Handle) (be : CStr) :
    Issues host IsLookup (openBootEnvironment host h be) := by
  unfold openBootEnvironment
  refine moves_bind (validateExistingBe_issues host h be) fun _ => ?_
  repeat' first
    | exact moves_pure _
    | exact issues_errorSet _ _
    | exact issues_zfsOpen trivial
    | refine moves_bind ?_ fun _ => ?_
    | split

theorem libzeValidateSystem_issues (host : Host) (h : Handle) :
    Issues host IsLookup (libzeValidateSystem host h) := by
  unfold libzeValidateSystem
  repeat' first
    | exact moves_pure _
    | exact validateExistingBe_issues host h _
    | exact issues_errorPrepend _ _
    | refine moves_bind ?_ fun _ => ?_
    | split

/-! ## What a successful check establishes -/

/-- The names of a boot environment on both pools are short enough for the buffers. -/
structure Fits (h : Handle) (be : CStr) : Prop where
  root : (h.beDataset be).length < zfsMaxDatasetNameLen
  boot : ∀ bp ∈ h.bootpool, (bp.beDataset be).length < zfsMaxDatasetNameLen

theorem exists_filesystem {s : Sys} {n : CStr} (hn : s.datasetExists n .filesystem = true) :
    n ∈ s.names ∧ isSnapshotName n = false := by
  simpa [Sys.datasetExists] using hn

/-- Both datasets of a boot environment are there. -/
structure Exists (h : Handle) (s : Sys) (be : CStr) : Prop where
  root : s.datasetExists (h.beDataset be) .filesystem
  boot : ∀ bp ∈ h.bootpool, s.datasetExists (bp.beDataset be) .filesystem

theorem Exists.of_same {h : Handle} {s t : Sys} {be : CStr} (ht : Exists h t be)
    (hst : SamePools s t) : Exists h s be :=
  ⟨hst.datasetExists _ _ ▸ ht.root, fun bp hbp => hst.datasetExists _ _ ▸ ht.boot bp hbp⟩

/-- Neither dataset of a boot environment is there. -/
structure Absent (h : Handle) (s : Sys) (be : CStr) : Prop where
  root : s.datasetExists (h.beDataset be) .filesystem = false
  boot : ∀ bp ∈ h.bootpool, s.datasetExists (bp.beDataset be) .filesystem = false

theorem Absent.of_same {h : Handle} {s t : Sys} {be : CStr} (hs : Absent h s be)
    (hst : SamePools s t) : Absent h t be :=
  ⟨hst.datasetExists _ _ ▸ hs.root, fun bp hbp => hst.datasetExists _ _ ▸ hs.boot bp hbp⟩

theorem beDataset_of_concat {h : Handle} {be buf : CStr}
    (hcat : libzeUtilConcat h.envRoot "/" be zfsMaxDatasetNameLen = (0, buf)) :
    buf = h.beDataset be ∧ (h.beDataset be).length < zfsMaxDatasetNameLen := by
  obtain ⟨hfit, rfl⟩ := (libzeUtilConcat_eq_ok_iff nameLen_pos).mp hcat
  have heq : h.envRoot ++ ("/" : CStr) ++ be = h.beDataset be := by simp [Handle.beDataset]
  exact ⟨heq, heq ▸ hfit⟩

theorem bpoolDataset_of_concat {bp : Bootpool} {be buf : CStr}
    (hcat : libzeUtilConcat bp.rootPathFull "" be zfsMaxDatasetNameLen = (0, buf)) :
    buf = bp.beDataset be ∧ (bp.beDataset be).length < zfsMaxDatasetNameLen := by
  obtain ⟨hfit, rfl⟩ := (libzeUtilConcat_eq_ok_iff nameLen_pos).mp hcat
  have heq : bp.rootPathFull ++ ("" : CStr) ++ be = bp.beDataset be := by
    simp [Bootpool.beDataset]
  exact ⟨heq, heq ▸ hfit⟩

theorem validateExistingBe_success {host : Host} {h : Handle} {be ds bds : CStr} {s t : Sys}
    (hr : validateExistingBe host h be s = ((.success, ds, bds), t)) :
    ds = h.beDataset be ∧ bds = h.bpoolDataset be ∧ Fits h be ∧ Exists h s be := by
  unfold validateExistingBe at hr
  rcases hcat : libzeUtilConcat h.envRoot "/" be zfsMaxDatasetNameLen with ⟨code, beDs⟩
  simp only [hcat] at hr
  obtain ⟨hcode, hr⟩ := elim_fail hr (by simp)
  obtain ⟨rfl, hfit⟩ := beDataset_of_concat (hcat.trans (by rw [not_not.mp hcode]))
  rw [run_get_bind] at hr
  obtain ⟨hexists, hr⟩ := elim_fail hr (by simp)
  obtain ⟨opened, s1, hopen, hr⟩ := bind_run hr
  obtain ⟨_, hr⟩ := elim_fail hr (by simp)
  obtain ⟨⟨r, propBuf⟩, s2, hprop, hr⟩ := bind_run hr
  obtain ⟨_, hr⟩ := elim_fail hr (by simp)
  obtain ⟨_, hr⟩ := elim_fail hr (by simp)
  have hsame : SamePools s s2 :=
    (zfsOpen_samePools hopen).trans (zfsPropGet_samePools hprop)
  cases hbp : h.bootpool with
  | none =>
    simp only [hbp] at hr
    cases hr
    exact ⟨rfl, by simp [Handle.bpoolDataset, hbp], ⟨hfit, by simp [hbp]⟩,
      ⟨by simpa using hexists, by simp [hbp]⟩⟩
  | some bp =>
    simp only [hbp] at hr
    rcases hcat' : libzeUtilConcat bp.rootPathFull "" be zfsMaxDatasetNameLen with ⟨code', beBpoolDs⟩
    simp only [hcat'] at hr
    obtain ⟨hcode', hr⟩ := elim_fail hr (by simp)
    obtain ⟨rfl, hfit'⟩ := bpoolDataset_of_concat (hcat'.trans (by rw [not_not.mp hcode']))
    rw [run_get_bind] at hr
    obtain ⟨hexists', hr⟩ := elim_fail hr (by simp)
    obtain ⟨opened', s3, _, hr⟩ := bind_run hr
    obtain ⟨_, hr⟩ := elim_fail hr (by simp)
    cases hr
    rw [hsame.datasetExists] at hexists'
    refine ⟨rfl, by simp [Handle.bpoolDataset, hbp], ⟨hfit, ?_⟩, ⟨by simpa using hexists, ?_⟩⟩
    · rintro bp' hbp'
      cases hbp.symm.trans hbp'
      exact hfit'
    · rintro bp' hbp'
      cases hbp.symm.trans hbp'
      simpa using hexists'

theorem validateNewBe_success {h : Handle} {be ds bds : CStr} {s t : Sys}
    (hr : validateNewBe h be s = ((.success, ds, bds), t)) :
    ds = h.beDataset be ∧ bds = h.bpoolDataset be ∧ Fits h be ∧ Absent h s be := by
  unfold validateNewBe at hr
  rcases hcat : libzeUtilConcat h.envRoot "/" be zfsMaxDatasetNameLen with ⟨code, beDs⟩
  simp only [hcat] at hr
  obtain ⟨hcode, hr⟩ := elim_fail hr (by simp)
  obtain ⟨rfl, hfit⟩ := beDataset_of_concat (hcat.trans (by rw [not_not.mp hcode]))
  rw [run_get_bind] at hr
  obtain ⟨habsent, hr⟩ := elim_fail hr (by simp)
  cases hbp : h.bootpool with
  | none =>
    simp only [hbp] at hr
    cases hr
    exact ⟨rfl, by simp [Handle.bpoolDataset, hbp], ⟨hfit, by simp [hbp]⟩,
      ⟨by simpa using habsent, by simp [hbp]⟩⟩
  | some bp =>
    simp only [hbp] at hr
    rcases hcat' : libzeUtilConcat bp.rootPathFull "" be zfsMaxDatasetNameLen with ⟨code', beBpoolDs⟩
    simp only [hcat'] at hr
    obtain ⟨hcode', hr⟩ := elim_fail hr (by simp)
    obtain ⟨rfl, hfit'⟩ := bpoolDataset_of_concat (hcat'.trans (by rw [not_not.mp hcode']))
    rw [run_get_bind] at hr
    obtain ⟨habsent', hr⟩ := elim_fail hr (by simp)
    cases hr
    refine ⟨rfl, by simp [Handle.bpoolDataset, hbp], ⟨hfit, ?_⟩, ⟨by simpa using habsent, ?_⟩⟩
    · rintro bp' hbp'
      cases hbp.symm.trans hbp'
      exact hfit'
    · rintro bp' hbp'
      cases hbp.symm.trans hbp'
      simpa using habsent'

theorem validateNewBe_complete {h : Handle} {be : CStr} {s : Sys} (hfits : Fits h be)
    (habsent : Absent h s be) :
    validateNewBe h be s = ((.success, h.beDataset be, h.bpoolDataset be), s) := by
  have heq : h.envRoot ++ ("/" : CStr) ++ be = h.beDataset be := by simp [Handle.beDataset]
  have hcat : libzeUtilConcat h.envRoot "/" be zfsMaxDatasetNameLen = (0, h.beDataset be) :=
    (libzeUtilConcat_eq_ok_iff nameLen_pos).mpr ⟨heq ▸ hfits.root, heq.symm⟩
  unfold validateNewBe
  simp only [hcat]
  rw [if_neg (by simp), run_get_bind, if_neg (by simp [habsent.root])]
  cases hbp : h.bootpool with
  | none =>
    rw [bpoolDataset_none hbp]
    rfl
  | some bp =>
    have heq' : bp.rootPathFull ++ ("" : CStr) ++ be = bp.beDataset be := by
      simp [Bootpool.beDataset]
    have hcat' : libzeUtilConcat bp.rootPathFull "" be zfsMaxDatasetNameLen
        = (0, bp.beDataset be) :=
      (libzeUtilConcat_eq_ok_iff nameLen_pos).mpr ⟨heq' ▸ hfits.boot bp hbp, heq'.symm⟩
    simp only [hcat']
    rw [if_neg (by simp), run_get_bind, if_neg (by simp [habsent.boot bp hbp]),
      bpoolDataset_some hbp]
    rfl

theorem openBootEnvironment_success {host : Host} {h : Handle} {be ds bds : CStr} {s t : Sys}
    (hr : openBootEnvironment host h be s = ((.success, ds, bds), t)) :
    ds = h.beDataset be ∧ bds = h.bpoolDataset be ∧ Fits h be ∧ Exists h s be := by
  unfold openBootEnvironment at hr
  obtain ⟨⟨ret, beDs, beBpoolDs⟩, s1, hval, hr⟩ := bind_run hr
  by_cases hret : ret = .success
  · subst hret
    obtain ⟨hds, hbds, hfits, hexists⟩ := validateExistingBe_success hval
    simp only [ne_eq, not_true_eq_false, if_false] at hr
    obtain ⟨opened, s2, _, hr⟩ := bind_run hr
    obtain ⟨_, hr⟩ := elim_fail hr (by simp)
    have hout : beDs = ds ∧ beBpoolDs = bds := by
      split at hr
      · obtain ⟨opened', s3, _, hr⟩ := bind_run hr
        obtain ⟨_, hr⟩ := elim_fail hr (by simp)
        cases hr
        exact ⟨rfl, rfl⟩
      · cases hr
        exact ⟨rfl, rfl⟩
    exact ⟨hout.1 ▸ hds, hout.2 ▸ hbds, hfits, hexists⟩
  · simp only [ne_eq, hret, not_false_eq_true, if_true] at hr
    cases hr
    exact absurd rfl hret

/-- A validated system has both datasets of the activated and the running environment. -/
theorem libzeValidateSystem_success {host : Host} {h : Handle} {s : Sys}
    (hr : (libzeValidateSystem host h s).1 = .success) :
    (Fits h h.envActivated ∧ Exists h s h.envActivated) ∧
      Fits h h.envRunning ∧ Exists h s h.envRunning := by
  replace hr := run_eq_of_fst hr
  generalize (libzeValidateSystem host h s).2 = t at hr
  unfold libzeValidateSystem at hr
  obtain ⟨⟨ret, ds, bds⟩, s1, hval, hr⟩ := bind_run hr
  have hs1 := (validateExistingBe_issues host h _).samePools_of hval
  dsimp only at hr
  split at hr
  · rename_i hret
    cases hr
    exact absurd rfl hret
  rename_i hret
  rw [not_not.mp hret] at hval
  obtain ⟨-, -, hfits, hexist⟩ := validateExistingBe_success hval
  split at hr
  · obtain ⟨⟨ret', ds', bds'⟩, s2, hval', hr⟩ := bind_run hr
    dsimp only at hr
    split at hr
    · rename_i hret'
      cases hr
      exact absurd rfl hret'
    rename_i hret'
    rw [not_not.mp hret'] at hval'
    obtain ⟨-, -, hfits', hexist'⟩ := validateExistingBe_success hval'
    exact ⟨⟨hfits, hexist⟩, hfits', hexist'.of_same hs1⟩
  · rename_i hroot
    have heq : h.envRunning = h.envActivated := by
      simpa [libzeIsRootBe, h.activated_flat] using hroot
    rw [heq]
    exact ⟨⟨hfits, hexist⟩, hfits, hexist⟩

end Zectl.Libze.Validate
