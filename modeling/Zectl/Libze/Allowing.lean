import Zectl.Libze.DestroyOutcome
import Zectl.Libze.Rename
import Zectl.Libze.Unmount

/-!
# Runs in which everything succeeds

When every call succeeds the checks accept what exists, and the recursions of
destroying and unmounting return zero. These runs show what the guards let through.
-/

namespace Zectl.Libze.Allowing

open Zectl.Lib.StateRun Zectl.Lib.Visit Zectl.Lib.PathOrder Zectl.Util.CString Zectl.Zfs.System
open Zectl.Zfs.Steps Zectl.Zfs.Forest Zectl.Libze.Init Zectl.Libze.Validate Zectl.Libze.Destroy
open Zectl.Libze.DestroyOutcome Zectl.Libze.Rename Zectl.Libze.Unmount Zectl.Libze.Sample

/-- Datasets that are no clones and have no properties of their own. -/
def Plain (s : Sys) : Prop := ∀ d ∈ s.datasets, d.origin = none ∧ d.props = []

section Checks
variable {h : Handle} {be : CStr} {s : Sys}

theorem Plain.of_same {t : Sys} (hs : Plain s) (hst : SamePools s t) : Plain t :=
  fun d hd => hs d (hst.datasets ▸ hd)

theorem call_allowing (c : Call) (s : Sys) :
    call allowing c s = (0, { c.effect allowing s with trace := (c, 0) :: s.trace }) := by
  have hcode : allowing.answer s c = 0 := rfl
  simp only [call, hcode, if_true, effect_trace]

theorem call_allowing_ok (c : Call) (s : Sys) : ∃ t, call allowing c s = (0, t) :=
  ⟨_, call_allowing c s⟩

theorem zfsOpen_allowing {name : CStr} {type : ZfsType} (hs : s.datasetExists name type = true) :
    ∃ t, zfsOpen allowing name type s = (0, t) := by
  refine ⟨_, run_eq_of_fst ?_⟩
  rw [zfsOpen, run_get_bind, if_pos hs, call_allowing]

theorem zfsPropGet_allowing {name : CStr} (hs : Plain s) (hname : name ∈ s.names) :
    ∃ t, zfsPropGet allowing name .mountpoint s = ((0, ['/']), t) := by
  obtain ⟨d, hd, hfind⟩ := find_of_mem hname
  have hvalue : s.propValue allowing name .mountpoint = some (['/'], .inherited) := by
    simp only [Sys.propValue, hfind, Dataset.entry, (hs d hd).2]
    rfl
  refine ⟨_, run_eq_of_fst ?_⟩
  obtain ⟨t, hcall⟩ : ∃ t, call allowing (.zfs (.propGet name .mountpoint)) s = (0, t) :=
    ⟨_, call_allowing _ s⟩
  have hsame := call_samePools hcall trivial
  have hvalue' : t.propValue allowing name .mountpoint = some (['/'], .inherited) := by
    rw [Sys.propValue, hsame.find, hfind]
    rw [Sys.propValue, hfind] at hvalue
    exact hvalue
  rw [zfsPropGet, run_bind, hcall]
  dsimp only
  rw [if_neg (by simp), run_get_bind]
  simp only [hvalue', run_pure]

theorem mem_of_exists {n : CStr} {type : ZfsType} (hn : s.datasetExists n type = true) :
    n ∈ s.names := by
  simp only [Sys.datasetExists, decide_eq_true_eq] at hn
  exact hn.1

theorem validateExistingBe_allowing (hs : Plain s) (hfits : Fits h be) (hexist : Exists h s be) :
    ∃ t, validateExistingBe allowing h be s
      = ((.success, h.beDataset be, h.bpoolDataset be), t) := by
  refine ⟨_, run_eq_of_fst ?_⟩
  have heq : h.envRoot ++ ("/" : CStr) ++ be = h.beDataset be := by simp [Handle.beDataset]
  have hcat : libzeUtilConcat h.envRoot "/" be zfsMaxDatasetNameLen = (0, h.beDataset be) :=
    (libzeUtilConcat_eq_ok_iff nameLen_pos).mpr ⟨heq ▸ hfits.root, heq.symm⟩
  obtain ⟨s1, hopen⟩ := zfsOpen_allowing hexist.root
  have hs1 := zfsOpen_samePools hopen
  obtain ⟨s2, hprop⟩ := zfsPropGet_allowing (hs.of_same hs1)
    (hs1.names ▸ mem_of_exists hexist.root)
  have hs2 := hs1.trans (zfsPropGet_samePools hprop)
  unfold validateExistingBe
  simp only [hcat]
  rw [if_neg (by simp), run_get_bind, if_neg (by simp [hexist.root]), run_bind, hopen]
  dsimp only
  rw [if_neg (by simp), run_bind, hprop]
  dsimp only
  rw [if_neg (by simp), if_neg (by decide)]
  cases hbp : h.bootpool with
  | none =>
    rw [bpoolDataset_none hbp]
    rfl
  | some bp =>
    have heq' : bp.rootPathFull ++ ("" : CStr) ++ be = bp.beDataset be := by
      simp [Bootpool.beDataset]
    have hcat' : libzeUtilConcat bp.rootPathFull "" be zfsMaxDatasetNameLen
        = (0, bp.beDataset be) :=
      (libzeUtilConcat_eq_ok_iff nameLen_pos).mpr ⟨heq' ▸ hfits.boot bp hbp, heq'.symm⟩
    have hexist' : s2.datasetExists (bp.beDataset be) .filesystem = true := by
      rw [hs2.datasetExists]
      exact hexist.boot bp hbp
    obtain ⟨s3, hopen'⟩ := zfsOpen_allowing hexist'
    simp only [hcat']
    rw [if_neg (by simp), run_get_bind, if_neg (by simp [hexist']), run_bind, hopen']
    dsimp only
    rw [if_neg (by simp), bpoolDataset_some hbp]
    rfl

theorem openBootEnvironment_allowing (hs : Plain s) (hfits : Fits h be)
    (hexist : Exists h s be) :
    ∃ t, openBootEnvironment allowing h be s
      = ((.success, h.beDataset be, h.bpoolDataset be), t) := by
  refine ⟨_, run_eq_of_fst ?_⟩
  obtain ⟨s1, hval⟩ := validateExistingBe_allowing hs hfits hexist
  have hs1 := (validateExistingBe_issues allowing h be).samePools_of hval
  obtain ⟨s2, hopen⟩ := zfsOpen_allowing ((hs1.datasetExists _ _).trans hexist.root)
  have hs2 := hs1.trans (zfsOpen_samePools hopen)
  unfold openBootEnvironment
  rw [run_bind, hval]
  dsimp only
  rw [if_neg (by simp), run_bind, hopen]
  dsimp only
  rw [if_neg (by simp)]
  cases hbp : h.bootpool with
  | none =>
    rw [bpoolDataset_none hbp, if_neg (by simp)]
    rfl
  | some bp =>
    rw [bpoolDataset_some hbp, if_pos (bootBeDataset_ne_nil bp be)]
    obtain ⟨s3, hopen'⟩ := zfsOpen_allowing
      ((hs2.datasetExists _ _).trans (hexist.boot bp hbp))
    rw [run_bind, hopen']
    dsimp only
    rw [if_neg (by simp)]
    rfl

theorem libzeValidateSystem_allowing (hs : Plain s)
    (hactivated : Fits h h.envActivated ∧ Exists h s h.envActivated)
    (hrunning : Fits h h.envRunning ∧ Exists h s h.envRunning) :
    (libzeValidateSystem allowing h s).1 = .success := by
  obtain ⟨s1, hval⟩ := validateExistingBe_allowing hs hactivated.1 hactivated.2
  have hs1 := (validateExistingBe_issues allowing h _).samePools_of hval
  have hexist : Exists h s1 h.envRunning :=
    ⟨(hs1.datasetExists _ _).trans hrunning.2.root,
      fun bp hbp => (hs1.datasetExists _ _).trans (hrunning.2.boot bp hbp)⟩
  obtain ⟨s2, hval'⟩ := validateExistingBe_allowing (hs.of_same hs1) hrunning.1 hexist
  unfold libzeValidateSystem
  rw [run_bind, hval]
  dsimp only
  rw [if_neg (by simp)]
  split
  · rw [run_bind, hval']
    dsimp only
    rw [if_neg (by simp)]
    rfl
  · rfl

end Checks

/-! ## The recursions -/

section Recursion
variable {options : DestroyOptions}

theorem Plain.of_mayDestroy {inside : CStr → Prop} {s : Sys} {c : Call} (hs : Plain s)
    (hc : MayDestroy inside c) : Plain (c.effect allowing s) := by
  match c, hc with
  | .zfs (.unmount name), _ =>
    intro d hd
    obtain ⟨e, he, rfl⟩ := List.mem_map.mp hd
    split
    · exact hs e he
    · exact hs e he
  | .zfs (.destroy name), _ => exact fun d hd => hs d (List.mem_of_mem_filter hd)
  | .zfs (.poolOpen _), _ => exact hs
  | .zfs (.open _), _ => exact hs
  | .zfs (.propGet _ _), _ => exact hs

theorem Plain.of_issues {α : Type} {inside : CStr → Prop} {m : Libze α} {s t : Sys} {a : α}
    (hs : Plain s) (hm : Issues allowing (MayDestroy inside) m) (hr : m s = (a, t)) : Plain t := by
  have hkeep : Plain (m s).2 :=
    hm.keeps Plain (fun _ _ _ _ h => h) (fun _ _ hc _ hu => hu.of_mayDestroy hc) hs
  rwa [hr] at hkeep

theorem unmountOrRefuse_allowing (hforce : options.force = true) (ds : CStr) (s : Sys) :
    ∃ t, unmountOrRefuse allowing options ds s = (0, t) := by
  refine ⟨_, run_eq_of_fst ?_⟩
  rw [unmountOrRefuse, run_get_bind]
  simp only [hforce, if_true]
  split
  · rfl
  · rfl

theorem openOrigin_allowing {ds : CStr} {s : Sys} (hs : Plain s) :
    ∃ t, openOrigin allowing options ds s = ((0, none), t) := by
  refine ⟨_, run_eq_of_fst ?_⟩
  unfold openOrigin
  split
  · rcases hprop : zfsPropGet allowing ds .origin s with ⟨⟨code, buf⟩, t⟩
    have hcode : code ≠ 0 := by
      rintro rfl
      obtain ⟨d, hd, _, ho⟩ := zfsPropGet_origin hprop
      rw [(hs d hd).1] at ho
      cases ho
    rw [run_bind, hprop]
    dsimp only
    rw [if_pos hcode]
    rfl
  · rfl

theorem destroyCb_allowing (hforce : options.force = true) (depth : Nat) {ds : CStr} {s : Sys}
    (hs : IsForest s.names) (hplain : Plain s) (henough : Enough s ds depth) :
    (libzeDestroyCb allowing options depth ds s).1 = 0 := by
  induction depth generalizing ds s with
  | zero => obtain ⟨h, _⟩ | ⟨h, _⟩ := henough <;> omega
  | succ depth ih =>
    rw [libzeDestroyCb]
    obtain ⟨s1, hunmount⟩ := unmountOrRefuse_allowing hforce ds s
    have hs1 := unmountOrRefuse_shape hunmount
    let all : CStr → Prop := fun _ => True
    have hall : ∀ n, all n := fun _ => trivial
    have hplain1 : Plain s1 := hplain.of_issues (unmountOrRefuse_issues (hall ds)) hunmount
    obtain ⟨s2, hopen⟩ := @openOrigin_allowing options ds s1 hplain1
    have hs2 := (openOrigin_spec hopen).1
    have hnames : s2.names = s.names := hs2.names.trans hs1.names
    rw [run_bind, hunmount]
    dsimp only
    rw [if_neg (by simp), run_bind, hopen]
    dsimp only
    rw [if_neg (by simp), run_get_bind, run_bind]
    have hvisit : (visit (fun s n => n ∈ s.names) (libzeDestroyCb allowing options depth)
        (children s2 ds) s2).1 = 0 := by
      refine visit_zero (fun u => IsForest u.names ∧ Plain u ∧ ∀ n ∈ u.names, n ∈ s2.names) ?_
        ⟨hnames ▸ hs, hplain1.of_same hs2, fun _ h => h⟩
      intro c hc u hu _
      have hchild := (henough.of_subset fun n hn => hnames ▸ hn).child (hnames ▸ hs) hc
      refine ⟨ih hu.1 hu.2.1 (hchild.of_subset hu.2.2), (destroyCb_clears depth hu.1 rfl).1, ?_,
        fun n hn => hu.2.2 n (destroyCb_names_subset rfl hn)⟩
      exact hu.2.1.of_issues (destroyCb_issues (fun n _ => hall n) depth fun n _ => hall n) rfl
    rw [hvisit, if_neg (by simp), run_bind, call_allowing]
    dsimp only
    rw [if_neg (by simp)]
    rfl

theorem unmountCallback_allowing (depth : Nat) {dataset : CStr} {s : Sys}
    (hs : IsForest s.names) (henough : Enough s dataset depth) :
    (unmountCallback allowing depth dataset s).1 = 0 := by
  induction depth generalizing dataset s with
  | zero => obtain ⟨h, _⟩ | ⟨h, _⟩ := henough <;> omega
  | succ depth ih =>
    have hvisit : (visit (fun _ _ => true) (unmountCallback allowing depth)
        (childFilesystems s dataset) s).1 = 0 := by
      refine visit_zero (SameShape s) (fun c hc u hu _ => ?_) (.refl s)
      obtain ⟨hmem, hparent, _⟩ := mem_childFilesystems.mp hc
      have hchild := henough.child hs (mem_children.mpr ⟨hmem, hparent⟩)
      exact ⟨ih (hu.names ▸ hs) (hchild.of_subset fun n hn => hu.names ▸ hn),
        hu.trans (unmountCallback_shape rfl)⟩
    rw [unmountCallback, run_get_bind, run_bind, hvisit, if_neg (by simp), run_get_bind]
    split
    · rfl
    · rw [run_bind, call_allowing]
      rfl

end Recursion

/-! ## The operations -/

section Operations
variable {h : Handle} {s : Sys}

theorem runDestroyCb_allowing {options : DestroyOptions} (hforce : options.force = true)
    {ds : CStr} (hs : IsForest s.names) (hplain : Plain s) :
    ∃ t, runDestroyCb allowing options ds s = (0, t) ∧ IsForest t.names ∧ Plain t := by
  have hrun : runDestroyCb allowing options ds s = (0, (runDestroyCb allowing options ds s).2) :=
    run_eq_of_fst (destroyCb_allowing hforce _ hs hplain (enough_recursionDepth s ds))
  let all : CStr → Prop := fun _ => True
  have hissues : Issues allowing (MayDestroy all) (runDestroyCb allowing options ds) :=
    moves_bind moves_get fun _ => destroyCb_issues (fun _ _ => trivial) _ fun _ _ => trivial
  exact ⟨_, hrun, (runDestroyCb_clears options hs hrun).1, hplain.of_issues hissues hrun⟩

theorem destroyFilesystem_allowing {options : DestroyOptions} (hforce : options.force = true)
    {ds : CStr} (hs : IsForest s.names) (hplain : Plain s)
    (hexist : s.datasetExists ds .filesystem = true) :
    ∃ t, destroyFilesystem allowing options ds s = (.success, t) ∧ IsForest t.names ∧ Plain t := by
  obtain ⟨s1, hopen⟩ := zfsOpen_allowing hexist
  have hs1 := zfsOpen_samePools hopen
  obtain ⟨s2, hrun, hs2, hplain2⟩ := @runDestroyCb_allowing s1 options hforce ds
    (hs1.names ▸ hs) (hplain.of_same hs1)
  refine ⟨s2, ?_, hs2, hplain2⟩
  rw [destroyFilesystem, run_get_bind, if_neg (by simp [hexist]), run_bind, hopen]
  dsimp only
  rw [if_neg (by simp), run_bind, hrun]
  rfl

theorem pluginPostDestroy_allowing (be : CStr) :
    (pluginPostDestroy allowing h be s).1 = .success := by
  unfold pluginPostDestroy
  split
  · obtain ⟨t, hcall⟩ := call_allowing_ok (.hook (.postDestroy be)) s
    rw [run_bind, hcall]
    rfl
  · rfl

theorem libzeDestroy_allowing {options : DestroyOptions} (hforce : options.force = true)
    (hname : isSnapshotName options.beName = false) (hs : IsForest s.names) (hplain : Plain s)
    (hbe : Destroyable allowing h s options.beName) :
    (libzeDestroy allowing h options s).1 = .success := by
  have hslash := beDataset_slash h options.beName
  have hactive : libzeIsActiveBe h (h.beDataset options.beName) = false := by
    simpa [libzeIsActiveBe, hslash] using hbe.notActivated
  have hrunning : libzeIsRootBe h (h.beDataset options.beName) = false := by
    simpa [libzeIsRootBe, hslash] using hbe.notRunning
  obtain ⟨s1, hopen⟩ := hbe.opened
  have hs1 := (openBootEnvironment_issues allowing h _).samePools_of hopen
  obtain ⟨s2, hroot, hs2, hplain2⟩ := destroyFilesystem_allowing hforce (hs1.names ▸ hs)
    (hplain.of_same hs1) ((hs1.datasetExists _ _).trans hbe.exist.root)
  rw [libzeDestroy_of_flat hname, destroyBootEnvironment, run_bind, hopen]
  dsimp only
  rw [if_neg (by simp), hactive, if_neg (by simp), hrunning, if_neg (by simp), run_bind, hroot]
  dsimp only
  rw [if_neg (by simp)]
  cases hbp : h.bootpool with
  | none =>
    rw [bpoolDataset_none hbp, if_neg (by simp)]
    exact pluginPostDestroy_allowing _
  | some bp =>
    obtain ⟨s3, hboot, _⟩ := @runDestroyCb_allowing s2 options hforce
      (bp.beDataset options.beName) hs2 hplain2
    rw [bpoolDataset_some hbp, if_pos (bootBeDataset_ne_nil bp _), run_bind, hboot]
    rfl

theorem renameBootDataset_allowing (be bds newBds : CStr) :
    ∃ t, renameBootDataset allowing be bds newBds s = (.success, t) := by
  refine ⟨_, run_eq_of_fst ?_⟩
  unfold renameBootDataset
  split
  · obtain ⟨t, hcall⟩ := call_allowing_ok (.zfs (.rename bds newBds)) s
    rw [run_bind, hcall]
    rfl
  · rfl

theorem libzeRename_allowing {be newBe : CStr} (hplain : Plain s)
    (hbe : Renamable h s be newBe) : (libzeRename allowing h be newBe s).1 = .success := by
  have hnew := validateNewBe_complete hbe.newFits hbe.absent
  obtain ⟨s1, hopen⟩ := openBootEnvironment_allowing hplain hbe.fits hbe.exist
  have hs1 := (openBootEnvironment_issues allowing h be).samePools_of hopen
  have hroot : s1.isMounted (h.beDataset be) = false :=
    (isMounted_of_same hs1 _).trans hbe.rootUnmounted
  have hboot : ¬ (h.bpoolDataset be ≠ [] ∧ s1.isMounted (h.bpoolDataset be) = true) := by
    rintro ⟨hne, hmounted⟩
    cases hbp : h.bootpool with
    | none => exact hne (bpoolDataset_none hbp be)
    | some bp =>
      rw [bpoolDataset_some hbp, isMounted_of_same hs1, hbe.bootUnmounted bp hbp] at hmounted
      cases hmounted
  obtain ⟨s2, hcall⟩ := call_allowing_ok (.zfs (.rename (h.beDataset be) (h.beDataset newBe))) s1
  obtain ⟨s3, hrename⟩ := @renameBootDataset_allowing s2 be (h.bpoolDataset be)
    (h.bpoolDataset newBe)
  rw [libzeRename, run_bind, hnew]
  dsimp only
  rw [if_neg (by simp), run_bind, hopen]
  dsimp only
  rw [if_neg (by simp), hbe.notRunning, if_neg (by simp), hbe.notActivated, if_neg (by simp),
    run_get_bind, if_neg (by simp [hroot]), run_get_bind, if_neg hboot, run_bind, hcall]
  dsimp only
  rw [if_neg (by simp), run_bind, hrename]
  dsimp only
  split
  · obtain ⟨s4, hpost⟩ := call_allowing_ok (.hook (.postRename be newBe)) s3
    rw [run_bind, hpost]
    rfl
  · rfl

/-- The checks of `libze_unmount`, and that both datasets are mounted. -/
structure Unmountable (h : Handle) (s : Sys) (be : CStr) : Prop where
  fits : Fits h be
  exist : Exists h s be
  notRunning : libzeIsRootBe h be = false
  root : s.isMounted (h.beDataset be) = true
  boot : ∀ bp ∈ h.bootpool, s.isMounted (bp.beDataset be) = true

theorem runUnmountCallback_allowing (ds : CStr) (hs : IsForest s.names) :
    ∃ t, runUnmountCallback allowing ds s = (0, t) ∧ SameShape s t ∧ Unmounted ds t := by
  have hrun : runUnmountCallback allowing ds s = (0, (runUnmountCallback allowing ds s).2) :=
    run_eq_of_fst (unmountCallback_allowing _ hs (enough_recursionDepth s ds))
  exact ⟨_, hrun, @unmountCallback_shape allowing _ ds s _ _ hrun,
    unmountCallback_unmounts (recursionDepth s) hs hrun⟩

theorem unmountBootDataset_allowing {be : CStr} (hs : IsForest s.names)
    (hboot : ∀ bp ∈ h.bootpool, s.isMounted (bp.beDataset be) = true) :
    ∃ t, unmountBootDataset allowing (h.bpoolDataset be) s = (.success, t) ∧ SameShape s t ∧
      ∀ bp ∈ h.bootpool, Unmounted (bp.beDataset be) t := by
  unfold unmountBootDataset
  cases hbp : h.bootpool with
  | none =>
    rw [bpoolDataset_none hbp]
    exact ⟨s, rfl, .refl s, by simp⟩
  | some bp =>
    obtain ⟨t, hrun, hshape, hdone⟩ := runUnmountCallback_allowing (bp.beDataset be) hs
    refine ⟨t, ?_, hshape, fun bp' hbp' => ?_⟩
    · rw [bpoolDataset_some hbp, if_neg (bootBeDataset_ne_nil bp be), run_get_bind,
        if_neg (by simp [hboot bp hbp]), run_bind, hrun]
      rfl
    · cases hbp'
      exact hdone

theorem libzeUnmount_allowing {be : CStr} (hs : IsForest s.names) (hplain : Plain s)
    (hbe : Unmountable h s be) :
    ∃ t, libzeUnmount allowing h be s = (.success, t) ∧ t.names = s.names ∧
      Unmounted (h.beDataset be) t ∧ ∀ bp ∈ h.bootpool, Unmounted (bp.beDataset be) t := by
  obtain ⟨s1, hopen⟩ := openBootEnvironment_allowing hplain hbe.fits hbe.exist
  have hs1 := (openBootEnvironment_issues allowing h be).samePools_of hopen
  obtain ⟨s2, hboot, hshape2, hdone2⟩ := @unmountBootDataset_allowing h s1 be (hs1.names ▸ hs)
    fun bp hbp => (isMounted_of_same hs1 _).trans (hbe.boot bp hbp)
  have hs2 : s2.names = s.names := hshape2.names.trans hs1.names
  obtain ⟨t, hroot, hshape, hdone⟩ := runUnmountCallback_allowing (h.beDataset be) (hs2 ▸ hs)
  refine ⟨t, ?_, hshape.names.trans hs2, hdone, fun bp hbp m hm hfs hbelow => ?_⟩
  · rw [libzeUnmount, if_neg (by simp [hbe.notRunning]), run_bind, hopen]
    dsimp only
    rw [if_neg (by simp), run_get_bind, if_neg (by simp [isMounted_of_same hs1, hbe.root]),
      run_bind, hboot]
    dsimp only
    rw [if_neg (by simp), run_bind, hroot]
    rfl
  · exact @unmountCallback_isMounted allowing s2 t _ (h.beDataset be) m _ hroot
      (hdone2 bp hbp m (hshape.names ▸ hm) hfs hbelow)

end Operations

end Zectl.Libze.Allowing
