import Zectl.Libze.Destroy
import Zectl.Libze.MountTree
import Zectl.Libze.Sample

/-!
# Destroying a snapshot

`destroy_snapshot` destroys the first snapshot before it looks at the second one, and it takes
the empty name it is given without a boot pool for the name of a second one.
-/

namespace Zectl.Libze.DestroySnapshot

open Zectl.Lib.StateRun Zectl.Util.CString Zectl.Zfs.System Zectl.Zfs.Steps Zectl.Zfs.Forest
open Zectl.Libze.Init Zectl.Libze.Sample Zectl.Libze.Validate Zectl.Libze.Destroy
open Zectl.Libze.MountTree

/-- A filesystem is a clone of the snapshot. -/
def HasClone (s : Sys) (n : CStr) : Prop :=
  ∃ d ∈ s.datasets, isSnapshotName d.name = false ∧ d.origin = some n

/-- Only a snapshot that has clones cannot be destroyed. -/
structure SnapshotRules (host : Host) : Prop extends LookupRules host where
  destroy : ∀ s n, s.datasetExists n .snapshot = true →
    (host.answer s (.zfs (.destroy n)) = 0 ↔ ¬ HasClone s n)

/-- The snapshot is there and has no clones. -/
def Removable (s : Sys) (n : CStr) : Prop := s.datasetExists n .snapshot = true ∧ ¬ HasClone s n

/-- A boot environment by its datasets and its mount point. -/
structure Valid (host : Host) (h : Handle) (s : Sys) (be : CStr) : Prop where
  fits : Fits h be
  exist : Exists h s be
  mountpoint : ∀ value source, s.propValue host (h.beDataset be) .mountpoint =
    some (value, source) → value ≠ ("none" : CStr)

section Validate
variable {host : Host} {h : Handle} {be n : CStr} {s t : Sys}

theorem zfsPropGet_granted (hrules : LookupRules host) {value : CStr} {source : ZpropSource}
    {prop : ZfsProp} (hvalue : s.propValue host n prop = some (value, source)) :
    ∃ t, zfsPropGet host n prop s = ((0, value), t) := by
  have hanswer := hrules.lookups s (.zfs (.propGet n prop)) trivial
  refine ⟨_, run_eq_of_fst ?_⟩
  rw [zfsPropGet, run_bind, call_granted hanswer, if_neg (by simp), run_get_bind]
  have hsame : ∀ log, ({ s with trace := log } : Sys).propValue host n prop =
      some (value, source) := by
    intro log
    have hsame : SameProps s { s with trace := log } := rfl
    exact (hsame.propValue hrules n prop).trans hvalue
  dsimp only [Call.effect, ZfsCall.effect]
  rw [hsame]
  rfl

theorem exists_mountpoint (hn : n ∈ s.names) :
    ∃ value source, s.propValue host n .mountpoint = some (value, source) := by
  obtain ⟨d, -, hfind⟩ := find_of_mem hn
  unfold Sys.propValue
  rw [hfind]
  dsimp only
  cases d.entry .mountpoint with
  | none => exact ⟨_, _, rfl⟩
  | some e => exact ⟨_, _, rfl⟩

/-- Where looking succeeds, the check is passed by the valid environments. -/
theorem validateExistingBe_success_iff (hrules : LookupRules host) :
    (validateExistingBe host h be s).1.1 = .success ↔ Valid host h s be := by
  constructor
  · intro hret
    rcases hr : validateExistingBe host h be s with ⟨⟨ret, ds, bds⟩, t⟩
    rw [hr] at hret
    obtain rfl : ret = .success := hret
    obtain ⟨-, -, hfits, hexist⟩ := validateExistingBe_success hr
    refine ⟨hfits, hexist, ?_⟩
    intro value source hvalue
    unfold validateExistingBe at hr
    rcases hcat : libzeUtilConcat h.envRoot "/" be zfsMaxDatasetNameLen with ⟨code, beDs⟩
    simp only [hcat] at hr
    obtain ⟨hcode, hr⟩ := elim_fail hr (by simp)
    obtain ⟨rfl, -⟩ := beDataset_of_concat (hcat.trans (by rw [not_not.mp hcode]))
    rw [run_get_bind] at hr
    obtain ⟨-, hr⟩ := elim_fail hr (by simp)
    obtain ⟨opened, s1, hopen, hr⟩ := bind_run hr
    obtain ⟨-, hr⟩ := elim_fail hr (by simp)
    obtain ⟨⟨r, propBuf⟩, s2, hprop, hr⟩ := bind_run hr
    obtain ⟨-, hr⟩ := elim_fail hr (by simp)
    obtain ⟨hnone, -⟩ := elim_fail hr (by simp)
    have hsame := SameProps.of_samePools (zfsOpen_samePools hopen)
    obtain ⟨u, hget⟩ :=
      zfsPropGet_granted hrules ((hsame.propValue hrules _ _).trans hvalue)
    rw [hget] at hprop
    cases hprop
    exact hnone
  · rintro ⟨hfits, hexist, hmountpoint⟩
    have heq : h.envRoot ++ ("/" : CStr) ++ be = h.beDataset be := by simp [Handle.beDataset]
    have hcat : libzeUtilConcat h.envRoot "/" be zfsMaxDatasetNameLen = (0, h.beDataset be) :=
      (libzeUtilConcat_eq_ok_iff nameLen_pos).mpr ⟨heq ▸ hfits.root, heq.symm⟩
    obtain ⟨s1, hopen⟩ := zfsOpen_granted hexist.root
      (hrules.lookups s (.zfs (.open (h.beDataset be))) trivial)
    have hsame1 := zfsOpen_samePools hopen
    obtain ⟨value, source, hvalue⟩ := @exists_mountpoint host _ _
      (exists_filesystem hexist.root).1
    obtain ⟨s2, hget⟩ := zfsPropGet_granted hrules
      (((SameProps.of_samePools hsame1).propValue hrules _ _).trans hvalue)
    have hsame2 := hsame1.trans (zfsPropGet_samePools hget)
    unfold validateExistingBe
    simp only [hcat]
    rw [if_neg (by simp), run_get_bind, if_neg (by simp [hexist.root]), run_bind, hopen,
      if_neg (by simp), run_bind, hget]
    dsimp only
    rw [if_neg (by simp), if_neg (hmountpoint value source hvalue)]
    cases hbp : h.bootpool with
    | none => rfl
    | some bp =>
      have heq' : bp.rootPathFull ++ ("" : CStr) ++ be = bp.beDataset be := by
        simp [Bootpool.beDataset]
      have hcat' : libzeUtilConcat bp.rootPathFull "" be zfsMaxDatasetNameLen =
          (0, bp.beDataset be) :=
        (libzeUtilConcat_eq_ok_iff nameLen_pos).mpr ⟨heq' ▸ hfits.boot bp hbp, heq'.symm⟩
      have hboot : s2.datasetExists (bp.beDataset be) .filesystem = true := by
        rw [hsame2.datasetExists]
        exact hexist.boot bp hbp
      obtain ⟨s3, hopen'⟩ := zfsOpen_granted hboot
        (hrules.lookups s2 (.zfs (.open (bp.beDataset be))) trivial)
      simp only [hcat']
      rw [if_neg (by simp), run_get_bind, if_neg (by simp [hboot]), run_bind, hopen',
        if_neg (by simp)]
      rfl

end Validate

/-! ## The two snapshots -/

/-- Everything up to the first `zfs_destroy` succeeds. -/
structure FirstStage (host : Host) (h : Handle) (s : Sys) (be beName : CStr) : Prop where
  fits : Fits h beName
  valid : Valid host h s be
  removable : Removable s (h.beDataset beName)

/-- The snapshots of the two pools that a state has and the next one may not have. -/
def IsTarget (h : Handle) (beName n : CStr) : Prop :=
  n = h.beDataset beName ∨ ∃ bp ∈ h.bootpool, n = bp.beDataset beName

/-- A success means that the environment is valid and that exactly its snapshots were there and
are gone, and an error that no snapshot is gone. -/
structure DestroysSnapshots (host : Host) (h : Handle) (be beName : CStr) (s : Sys)
    (ret : LibzeError) (t : Sys) : Prop where
  success_iff : ret = .success ↔ Valid host h s be ∧ ∀ n, IsTarget h beName n → Removable s n
  gone : ret = .success → ∀ n, n ∈ t.names ↔ n ∈ s.names ∧ ¬ IsTarget h beName n
  kept : ret ≠ .success → ∀ n ∈ s.names, isSnapshotName n = true → n ∈ t.names

section Stages
variable {host : Host} {h : Handle} {options : DestroyOptions} {be snap n : CStr} {s t u : Sys}

theorem names_destroyed (hr : call host (.zfs (.destroy n)) s = (0, t)) (m : CStr) :
    m ∈ t.names ↔ m ∈ s.names ∧ m ≠ n := by
  rw [(call_done hr).2]
  simp only [Sys.names, Call.effect, ZfsCall.effect, List.mem_map, List.mem_filter,
    decide_eq_true_eq]
  constructor
  · rintro ⟨d, ⟨hd, hne⟩, rfl⟩
    exact ⟨⟨d, hd, rfl⟩, hne⟩
  · rintro ⟨⟨d, hd, rfl⟩, hne⟩
    exact ⟨d, ⟨hd, hne⟩, rfl⟩

/-- Destroying a snapshot makes no other one easier or harder to destroy. -/
theorem removable_destroyed (hn : isSnapshotName n = true)
    (hr : call host (.zfs (.destroy n)) s = (0, t)) (m : CStr) :
    Removable t m ↔ Removable s m ∧ m ≠ n := by
  have hclones : HasClone t m ↔ HasClone s m := by
    unfold HasClone
    rw [(call_done hr).2]
    simp only [Call.effect, ZfsCall.effect, List.mem_filter, decide_eq_true_eq]
    constructor
    · rintro ⟨d, ⟨hd, -⟩, hclone⟩
      exact ⟨d, hd, hclone⟩
    · rintro ⟨d, hd, hfs, horigin⟩
      refine ⟨d, ⟨hd, ?_⟩, hfs, horigin⟩
      rintro rfl
      rw [hn] at hfs
      cases hfs
  have hnames := names_destroyed hr m
  simp only [Removable, Sys.datasetExists, decide_eq_true_eq, iff_true, hclones, hnames]
  tauto

theorem Removable.of_same (h : Removable s n) (hst : SamePools s t) : Removable t n := by
  obtain ⟨hexists, hfree⟩ := h
  refine ⟨by rw [hst.datasetExists, hexists], ?_⟩
  unfold HasClone at hfree ⊢
  rw [hst.datasets]
  exact hfree

/-- A snapshot that is there is destroyed unless it has clones. -/
theorem destroy_granted_iff (hrules : SnapshotRules host)
    (hexists : s.datasetExists n .snapshot = true) :
    host.answer s (.zfs (.destroy n)) = 0 ↔ Removable s n := by
  rw [hrules.destroy s n hexists, Removable, and_iff_right hexists]

theorem destroyBootSnapshot_removable (hrules : SnapshotRules host) (hn : Removable s n) :
    ∃ s1 t, SamePools s s1 ∧ call host (.zfs (.destroy n)) s1 = (0, t) ∧
      destroyBootSnapshot host n s = (.success, t) := by
  obtain ⟨s1, hopen⟩ := zfsOpen_granted hn.1 (hrules.lookups s (.zfs (.open n)) trivial)
  have hsame := zfsOpen_samePools hopen
  have hn1 := hn.of_same hsame
  have hanswer := (destroy_granted_iff hrules hn1.1).mpr hn1
  refine ⟨s1, _, hsame, call_granted hanswer, ?_⟩
  unfold destroyBootSnapshot
  rw [run_get_bind, if_neg (by simp [hn.1]), run_bind, hopen, if_neg (by simp), run_bind,
    call_granted hanswer, if_neg (by simp)]
  rfl

theorem destroyBootSnapshot_error (hrules : SnapshotRules host) (hn : ¬ Removable s n) :
    (destroyBootSnapshot host n s).1 ≠ .success ∧ SamePools s (destroyBootSnapshot host n s).2 := by
  unfold destroyBootSnapshot
  rw [run_get_bind]
  by_cases hexists : s.datasetExists n .snapshot = true
  swap
  · rw [if_pos hexists]
    exact ⟨LibzeError.noConfusion, ⟨rfl, rfl, rfl⟩⟩
  obtain ⟨s1, hopen⟩ := zfsOpen_granted hexists (hrules.lookups s (.zfs (.open n)) trivial)
  have hsame := zfsOpen_samePools hopen
  have hexists1 : s1.datasetExists n .snapshot = true := by
    rw [hsame.datasetExists]
    exact hexists
  have hrefused : host.answer s1 (.zfs (.destroy n)) ≠ 0 := by
    intro hanswer
    apply hn
    exact ((destroy_granted_iff hrules hexists1).mp hanswer).of_same
      ⟨hsame.datasets.symm, hsame.bootfs.symm, hsame.files.symm⟩
  have hcode : (call host (.zfs (.destroy n)) s1).1 ≠ 0 := hrefused
  have hkept := samePools_of_refused (run_eq_of_fst (x := call host _) rfl) hrefused
  rw [if_neg (by simp [hexists]), run_bind, hopen, if_neg (by simp), run_bind, if_pos hcode]
  exact ⟨LibzeError.noConfusion, (hsame.trans hkept).trans ⟨rfl, rfl, rfl⟩⟩

/-- The first stage ends in an error and changes nothing, or destroys the first snapshot. -/
theorem destroySnapshot_cases (hrules : SnapshotRules host)
    (hname : options.beName = be ++ '@' :: snap) (hsnap : '@' ∉ snap)
    (hfits : Fits h options.beName) (nb : CStr) :
    (¬ FirstStage host h s be options.beName ∧
      (destroySnapshot host h options (h.beDataset options.beName) nb s).1 ≠ .success ∧
      SamePools s (destroySnapshot host h options (h.beDataset options.beName) nb s).2) ∨
    (FirstStage host h s be options.beName ∧ ∃ s1 s2, SamePools s s1 ∧
      call host (.zfs (.destroy (h.beDataset options.beName))) s1 = (0, s2) ∧
      destroySnapshot host h options (h.beDataset options.beName) nb s =
        destroyBootSnapshot host nb s2) := by
  have hlength : options.beName.length < zfsMaxDatasetNameLen := by
    have hroot := hfits.root
    rw [Handle.beDataset, List.length_append, List.length_cons] at hroot
    omega
  have hcut : libzeUtilCut options.beName zfsMaxDatasetNameLen '@' = (0, be) :=
    libzeUtilCut_eq_ok_iff.mpr ⟨hlength, snap, hname, hsnap⟩
  unfold destroySnapshot
  rw [run_get_bind]
  by_cases hexists : s.datasetExists (h.beDataset options.beName) .snapshot = true
  swap
  · rw [if_pos hexists]
    refine .inl ⟨fun hstage => hexists hstage.removable.1, LibzeError.noConfusion, rfl, rfl, rfl⟩
  rw [if_neg (by simp [hexists]), hcut, run_bind]
  have hvalid := @validateExistingBe_success_iff host h be s hrules.toLookupRules
  rcases hval : validateExistingBe host h be s with ⟨⟨ret, names⟩, s1⟩
  have hsame1 := (validateExistingBe_issues host h be).samePools_of hval
  rw [hval] at hvalid
  dsimp only at hvalid ⊢
  by_cases hret : ret = .success
  swap
  · rw [if_pos hret]
    exact .inl ⟨fun hstage => hret (hvalid.mpr hstage.valid), hret, hsame1.trans ⟨rfl, rfl, rfl⟩⟩
  rw [if_neg (not_not.mpr hret)]
  have hexists1 : s1.datasetExists (h.beDataset options.beName) .snapshot = true := by
    rw [hsame1.datasetExists]
    exact hexists
  obtain ⟨s2, hopen⟩ := zfsOpen_granted hexists1 (hrules.lookups s1 (.zfs (.open _)) trivial)
  have hsame2 := hsame1.trans (zfsOpen_samePools hopen)
  rw [run_bind, hopen, if_neg (by simp), run_bind]
  have hexists2 : s2.datasetExists (h.beDataset options.beName) .snapshot = true := by
    rw [hsame2.datasetExists]
    exact hexists
  have hback : SamePools s2 s :=
    ⟨hsame2.datasets.symm, hsame2.bootfs.symm, hsame2.files.symm⟩
  by_cases hremovable : Removable s (h.beDataset options.beName)
  · have hanswer := (destroy_granted_iff hrules hexists2).mpr (hremovable.of_same hsame2)
    apply Or.inr
    refine ⟨⟨hfits, hvalid.mp hret, hremovable⟩, s2, _, hsame2, call_granted hanswer, ?_⟩
    rw [call_granted hanswer, if_neg (by simp)]
  · have hrefused : host.answer s2 (.zfs (.destroy (h.beDataset options.beName))) ≠ 0 := by
      intro hanswer
      exact hremovable (((destroy_granted_iff hrules hexists2).mp hanswer).of_same hback)
    have hcode : (call host (.zfs (.destroy (h.beDataset options.beName))) s2).1 ≠ 0 := hrefused
    have hkept := samePools_of_refused (run_eq_of_fst (x := call host _) rfl) hrefused
    rw [if_pos hcode]
    exact .inl ⟨fun hstage => hremovable hstage.removable, LibzeError.noConfusion,
      (hsame2.trans hkept).trans ⟨rfl, rfl, rfl⟩⟩

theorem destroy_without_plugin {x : Libze LibzeError} {beName : CStr} (hfuncs : h.lzFuncs = false) :
    (x >>= fun ret => if ret ≠ .success then pure ret else pluginPostDestroy host h beName) s =
      x s := by
  rw [run_bind]
  rcases x s with ⟨ret, t⟩
  dsimp only
  by_cases hret : ret = .success
  · rw [if_neg (not_not.mpr hret), pluginPostDestroy, hfuncs, hret]
    rfl
  · rw [if_pos hret]
    rfl

/-- With a plugin set aside, `libze_destroy` of a snapshot is the two stages, or the names are
too long. -/
theorem libzeDestroy_snapshot (hfuncs : h.lzFuncs = false)
    (hname : isSnapshotName options.beName = true) :
    (Fits h options.beName ∧ libzeDestroy host h options s =
      destroySnapshot host h options (h.beDataset options.beName)
        (h.bpoolDataset options.beName) s) ∨
    (¬ Fits h options.beName ∧ (libzeDestroy host h options s).1 ≠ .success ∧
      SamePools s (libzeDestroy host h options s).2) := by
  unfold libzeDestroy
  rw [if_neg (by simp [hname])]
  rcases hcat : libzeUtilConcat h.envRoot "/" options.beName zfsMaxDatasetNameLen with
    ⟨code, beDs⟩
  by_cases hcode : code = 0
  swap
  · refine .inr ⟨fun hfits => ?_, ?_⟩
    · have heq : h.envRoot ++ ("/" : CStr) ++ options.beName = h.beDataset options.beName := by
        simp [Handle.beDataset]
      have hfit := (libzeUtilConcat_eq_ok_iff nameLen_pos).mpr ⟨heq ▸ hfits.root, rfl⟩
      rw [hcat] at hfit
      exact hcode (Prod.mk.inj hfit).1
    · dsimp only
      rw [if_pos hcode]
      exact ⟨LibzeError.noConfusion, rfl, rfl, rfl⟩
  subst hcode
  obtain ⟨rfl, hroot⟩ := beDataset_of_concat hcat
  dsimp only
  rw [if_neg (by simp)]
  cases hbp : h.bootpool with
  | none =>
    have hfits : Fits h options.beName := ⟨hroot, by simp [hbp]⟩
    refine .inl ⟨hfits, ?_⟩
    rw [bpoolDataset_none hbp]
    dsimp only
    rw [if_neg (by simp)]
    exact destroy_without_plugin hfuncs
  | some bp =>
    obtain ⟨code, beBpoolDs, hcat'⟩ : ∃ code buf,
        libzeUtilConcat bp.rootPathFull "" options.beName zfsMaxDatasetNameLen = (code, buf) :=
      ⟨_, _, rfl⟩
    simp only [hcat']
    by_cases hcode : code = 0
    swap
    · refine .inr ⟨fun hfits => ?_, ?_⟩
      · have heq : bp.rootPathFull ++ ("" : CStr) ++ options.beName =
            bp.beDataset options.beName := by simp [Bootpool.beDataset]
        have hfit := (libzeUtilConcat_eq_ok_iff nameLen_pos).mpr
          ⟨heq ▸ hfits.boot bp hbp, rfl⟩
        rw [hcat'] at hfit
        exact hcode (Prod.mk.inj hfit).1
      · rw [if_pos hcode]
        exact ⟨LibzeError.noConfusion, rfl, rfl, rfl⟩
    subst hcode
    obtain ⟨rfl, hboot⟩ := bpoolDataset_of_concat hcat'
    have hfits : Fits h options.beName := by
      refine ⟨hroot, fun bp' hbp' => ?_⟩
      cases hbp.symm.trans hbp'
      exact hboot
    refine .inl ⟨hfits, ?_⟩
    rw [bpoolDataset_some hbp, if_neg (by simp)]
    exact destroy_without_plugin hfuncs

theorem isSnapshotName_target {beName : CStr} (hname : isSnapshotName beName = true)
    (hn : IsTarget h beName n) : isSnapshotName n = true := by
  have hmem : '@' ∈ beName := by simpa [isSnapshotName] using hname
  obtain rfl | ⟨bp, -, rfl⟩ := hn
  · simp [isSnapshotName, Handle.beDataset, hmem]
  · simp [isSnapshotName, Bootpool.beDataset, hmem]

/-- The function does this exactly when the first stage fails, or there is a boot pool with
another snapshot that can be destroyed; and the names in the pools fit the buffers. -/
theorem destroysSnapshots_iff (hrules : SnapshotRules host) (hfuncs : h.lzFuncs = false)
    (hname : options.beName = be ++ '@' :: snap) (hsnap : '@' ∉ snap) :
    DestroysSnapshots host h be options.beName s (libzeDestroy host h options s).1
      (libzeDestroy host h options s).2 ↔
    (FirstStage host h s be options.beName → ∃ bp ∈ h.bootpool,
      Removable s (bp.beDataset options.beName) ∧
        bp.beDataset options.beName ≠ h.beDataset options.beName) ∧
    (Valid host h s be → (∀ n, IsTarget h options.beName n → Removable s n) →
      Fits h options.beName) := by
  have hsnapshot : isSnapshotName options.beName = true := by simp [isSnapshotName, hname]
  obtain ⟨hfits, hrun⟩ | ⟨hlong, herror, hsame⟩ :=
    @libzeDestroy_snapshot host h options s hfuncs hsnapshot
  swap
  · -- nothing is done
    constructor
    · intro hall
      refine ⟨fun hstage => absurd hstage.fits hlong, fun hvalid htargets => ?_⟩
      exact absurd (hall.success_iff.mpr ⟨hvalid, htargets⟩) herror
    · rintro ⟨-, hshort⟩
      refine ⟨iff_of_false herror fun hall => hlong (hshort hall.1 hall.2), ?_, ?_⟩
      · exact fun hret => absurd hret herror
      · exact fun _ n hn _ => hsame.names ▸ hn
  rw [hrun]
  obtain ⟨hfirst, herror, hsame⟩ | ⟨hfirst, s1, s2, hsame, hcall, hsecond⟩ :=
    @destroySnapshot_cases host h options be snap s hrules hname hsnap hfits
      (h.bpoolDataset options.beName)
  · refine iff_of_true ⟨iff_of_false herror fun hall => hfirst ?_, ?_, ?_⟩
      ⟨fun hstage => absurd hstage hfirst, fun _ _ => hfits⟩
    · exact ⟨hfits, hall.1, hall.2 _ (.inl rfl)⟩
    · exact fun hret => absurd hret herror
    · exact fun _ n hn _ => hsame.names ▸ hn
  have hn1 := @isSnapshotName_target h _ options.beName hsnapshot (.inl rfl)
  have hgone1 := names_destroyed hcall
  have hlost : h.beDataset options.beName ∉ s2.names := fun hmem => ((hgone1 _).mp hmem).2 rfl
  have hthere : h.beDataset options.beName ∈ s.names := by
    have hexists := hfirst.removable.1
    simp only [Sys.datasetExists, decide_eq_true_eq] at hexists
    exact hexists.1
  rw [hsecond]
  by_cases hboot : ∃ bp ∈ h.bootpool, Removable s (bp.beDataset options.beName) ∧
      bp.beDataset options.beName ≠ h.beDataset options.beName
  · obtain ⟨bp, hbp, hremovable, hne⟩ := hboot
    refine iff_of_true ?_ ⟨fun _ => ⟨bp, hbp, hremovable, hne⟩, fun _ _ => hfits⟩
    have hremovable2 : Removable s2 (bp.beDataset options.beName) :=
      (removable_destroyed hn1 hcall _).mpr ⟨hremovable.of_same hsame, hne⟩
    obtain ⟨s3, t, hsame3, hcall3, hdone⟩ := destroyBootSnapshot_removable hrules hremovable2
    rw [bpoolDataset_some hbp, hdone]
    refine ⟨iff_of_true rfl ⟨hfirst.valid, ?_⟩, ?_, fun hret => absurd rfl hret⟩
    · rintro n (rfl | ⟨bp', hbp', rfl⟩)
      · exact hfirst.removable
      · cases hbp.symm.trans hbp'
        exact hremovable
    · intro _ n
      rw [names_destroyed hcall3, hsame3.names, hgone1, hsame.names, and_assoc]
      have htarget : IsTarget h options.beName n ↔
          n = h.beDataset options.beName ∨ n = bp.beDataset options.beName := by
        simp [IsTarget, Option.mem_def.mp hbp]
      rw [htarget, not_or]
  · -- the first snapshot is gone, and the second stage fails
    have herror : (destroyBootSnapshot host (h.bpoolDataset options.beName) s2).1 ≠ .success ∧
        SamePools s2 (destroyBootSnapshot host (h.bpoolDataset options.beName) s2).2 := by
      apply destroyBootSnapshot_error hrules
      intro hremovable
      obtain ⟨hremovable1, hne⟩ := (removable_destroyed hn1 hcall _).mp hremovable
      cases hbp : h.bootpool with
      | none =>
        rw [bpoolDataset_none hbp] at hremovable1
        exact absurd hremovable1.1 (by simp [Sys.datasetExists, isSnapshotName])
      | some bp =>
        rw [bpoolDataset_some hbp] at hremovable1 hne
        exact hboot ⟨bp, hbp, hremovable1.of_same
          ⟨hsame.datasets.symm, hsame.bootfs.symm, hsame.files.symm⟩, hne⟩
    apply iff_of_false
    · intro hall
      have hmem := hall.kept herror.1 _ hthere hn1
      rw [herror.2.names] at hmem
      exact hlost hmem
    · exact fun hcond => hboot (hcond.1 hfirst)

end Stages

/-- Everything succeeds but destroying a snapshot that has clones. -/
def cloneHost : Host :=
  plainHost fun s c =>
    match c with
    | .zfs (.destroy n) =>
      if s.datasets.any fun d => ¬ isSnapshotName d.name ∧ d.origin = some n then 1 else 0
    | _ => 0

theorem cloneHost_rules : SnapshotRules cloneHost where
  lookups s c hc := by
    match c, hc with
    | .zfs (.poolOpen _), _ => rfl
    | .zfs (.open _), _ => rfl
    | .zfs (.propGet _ _), _ => rfl
  inherited _ _ _ := rfl
  destroy s n _ := by
    show (if (s.datasets.any fun d => ¬ isSnapshotName d.name ∧ d.origin = some n) = true then 1
      else 0) = 0 ↔ _
    simp [HasClone]

def snapshotOptions : DestroyOptions where
  beName := "b@x"
  destroyOrigin := false
  force := false

/-- The environment `b` and its snapshot `x`. -/
def snapshotSys : Sys := sampleSys [{ name := "rpool/ROOT/b@x" }]

theorem destroysSnapshots_iff_sample :
    DestroysSnapshots cloneHost (sampleHandle none false) "b" "b@x" snapshotSys
      (libzeDestroy cloneHost (sampleHandle none false) snapshotOptions snapshotSys).1
      (libzeDestroy cloneHost (sampleHandle none false) snapshotOptions snapshotSys).2 ↔
    (FirstStage cloneHost (sampleHandle none false) snapshotSys "b" "b@x" →
      ∃ bp ∈ (sampleHandle none false).bootpool, Removable snapshotSys (bp.beDataset "b@x") ∧
        bp.beDataset "b@x" ≠ (sampleHandle none false).beDataset "b@x") ∧
    (Valid cloneHost (sampleHandle none false) snapshotSys "b" →
      (∀ n, IsTarget (sampleHandle none false) "b@x" n → Removable snapshotSys n) →
        Fits (sampleHandle none false) "b@x") :=
  @destroysSnapshots_iff cloneHost (sampleHandle none false) snapshotOptions "b" "x" snapshotSys
    cloneHost_rules rfl (by decide) (by decide)

/-- Without a boot pool the snapshot is destroyed and an error is returned. -/
theorem not_destroysSnapshots_without_boot_pool :
    (libzeDestroy cloneHost (sampleHandle none false) snapshotOptions snapshotSys).1 = .eexist ∧
    ¬ DestroysSnapshots cloneHost (sampleHandle none false) "b" "b@x" snapshotSys
      (libzeDestroy cloneHost (sampleHandle none false) snapshotOptions snapshotSys).1
      (libzeDestroy cloneHost (sampleHandle none false) snapshotOptions snapshotSys).2 := by
  have hret : (libzeDestroy cloneHost (sampleHandle none false) snapshotOptions
      snapshotSys).1 = .eexist := by decide +kernel
  refine ⟨hret, fun hall => ?_⟩
  have hkept := hall.kept (by rw [hret]; exact LibzeError.noConfusion) "rpool/ROOT/b@x"
    (by decide +kernel) (by decide)
  have hgone : ("rpool/ROOT/b@x" : CStr) ∉ (libzeDestroy cloneHost (sampleHandle none false)
    snapshotOptions snapshotSys).2.names := by decide +kernel
  exact hgone hkept

end Zectl.Libze.DestroySnapshot
