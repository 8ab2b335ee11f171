import Zectl.Libze.Create

/-!
# What a create leaves

The two datasets of a new environment are clones of snapshots on the two pools. Without
`-e` they come from one environment exactly when the activated and the running one are
the same; with `-e` and a boot pool there is no successful run.
-/

namespace Zectl.Libze.CreateOutcome

open Zectl.Lib.StateRun Zectl.Lib.PathOrder Zectl.Util.CString Zectl.Zfs.System Zectl.Zfs.Steps
open Zectl.Zfs.Forest Zectl.Libze.Init Zectl.Libze.Sample Zectl.Libze.Validate Zectl.Libze.Clone
open Zectl.Libze.Create

/-- The new environment `n` is cloned from snapshots of one name of the environment `x`. -/
def CreatedFrom (h : Handle) (bp : Bootpool) (x n : CStr) (t : Sys) : Prop :=
  ∃ suffix, '@' ∉ suffix ∧ t.originOf (h.beDataset n) = some (h.beDataset x ++ '@' :: suffix) ∧
    t.originOf (bp.beDataset n) = some (bp.beDataset x ++ '@' :: suffix)

/-! ## Creating from the activated environment -/

section Bootfs
variable {host : Host} {h : Handle} {options : CreateOptions} {s t : Sys}

theorem timestamp_flat (now : Timestamp) : '@' ∉ now.text := by
  intro hat
  obtain hdigit | hdash | hcolon := now.chars '@' hat
  · revert hdigit
    decide
  · revert hdash
    decide
  · revert hcolon
    decide

/-- A buffer that leaves room for a suffix was not cut off. -/
theorem concat_not_cut {pfx suffix buf snap rest : CStr} {code : Int}
    (hbuf : libzeUtilConcat pfx suffix "" zfsMaxDatasetNameLen = (code, buf))
    (hsnap : libzeUtilConcat buf "@" rest zfsMaxDatasetNameLen = (0, snap)) :
    buf = pfx ++ suffix := by
  rw [libzeUtilConcat_eq _ _ _ nameLen_pos] at hbuf
  have heq : pfx ++ suffix ++ ("" : CStr) = pfx ++ suffix := by simp
  rw [heq] at hbuf
  obtain rfl := congrArg Prod.snd hbuf
  obtain ⟨hlen, -⟩ := (libzeUtilConcat_eq_ok_iff nameLen_pos).mp hsnap
  have hat : ("@" : CStr).length = 1 := rfl
  simp only [List.length_append, List.length_take, hat] at hlen
  show (pfx ++ suffix).take (zfsMaxDatasetNameLen - 1) = pfx ++ suffix
  refine List.take_of_length_le ?_
  rw [List.length_append]
  omega

/-- A snapshot was requested of `ds`, whose name fits. -/
def Snapshots (host : Host) (ds suffix : CStr) (recursive : Bool) (s t : Sys) : Prop :=
  (ds ++ '@' :: suffix).length < zfsMaxDatasetNameLen ∧
    call host (.zfs (.snapshot (ds ++ '@' :: suffix) recursive)) s = (0, t)

/-- The sources: the activated environment on the root pool, the running one on the
boot pool. -/
theorem sourcesFromBootfs_success {bp : Bootpool} (hbp : h.bootpool = some bp)
    {cdata bootPoolCdata : CreateData}
    (hr : sourcesFromBootfs host h options s = ((.success, cdata, bootPoolCdata), t)) :
    ∃ suffix u, '@' ∉ suffix ∧ suffix = (host.now s).text ∧
      cdata = ⟨suffix, h.envActivatedPath, false⟩ ∧
      bootPoolCdata = ⟨suffix, bp.beDataset h.envRunning, false⟩ ∧
      Snapshots host h.envActivatedPath suffix options.recursive s u ∧
      Snapshots host (bp.beDataset h.envRunning) suffix options.recursive u t := by
  unfold sourcesFromBootfs strlcpy at hr
  have hfits := h.activatedPath_fits
  dsimp only at hr
  rw [if_neg (by omega), take_of_fits hfits] at hr
  obtain ⟨suffix, s1, hsuffix, hr⟩ := bind_run hr
  have hnow := timestamp_flat (host.now s)
  have hshort := (host.now s).short
  cases hsuffix
  rcases hcat : libzeUtilConcat h.envActivatedPath "@" (host.now s).text zfsMaxDatasetNameLen
    with ⟨code, snapBuf⟩
  rw [hcat] at hr
  dsimp only at hr
  split at hr
  · cases hr
  rename_i hcode
  rw [not_not.mp hcode] at hcat
  obtain ⟨hlen, rfl⟩ := (libzeUtilConcat_eq_ok_iff nameLen_pos).mp hcat
  have happend : ∀ ds : CStr, ds ++ ("@" : CStr) ++ (host.now s).text =
      ds ++ '@' :: (host.now s).text := by simp
  rw [happend] at hlen hr
  obtain ⟨code, s2, hroot, hr⟩ := bind_run hr
  split at hr
  · cases hr
  rename_i hcode
  rw [not_not.mp hcode] at hroot
  rw [hbp] at hr
  dsimp only at hr
  rcases hds : libzeUtilConcat bp.rootPathFull h.envRunning "" zfsMaxDatasetNameLen
    with ⟨code, bootDataset⟩
  rw [hds, take_of_fits hshort] at hr
  dsimp only at hr
  rcases hcat' : libzeUtilConcat bootDataset "@" (host.now s).text zfsMaxDatasetNameLen
    with ⟨code, bootSnapBuf⟩
  rw [hcat'] at hr
  dsimp only at hr
  split at hr
  · cases hr
  rename_i hcode
  rw [not_not.mp hcode] at hcat'
  have hbuf : bootDataset = bp.beDataset h.envRunning := concat_not_cut hds hcat'
  obtain ⟨hlen', rfl⟩ := (libzeUtilConcat_eq_ok_iff nameLen_pos).mp hcat'
  rw [happend, hbuf] at hlen' hr
  obtain ⟨code, s3, hboot, hr⟩ := bind_run hr
  split at hr
  · cases hr
  rename_i hcode
  rw [not_not.mp hcode] at hboot
  cases hr
  exact ⟨(host.now s).text, s2, hnow, rfl, rfl, rfl, ⟨hlen, hroot⟩, hlen', hboot⟩

/-- A clone onto a free name has the snapshot as its origin. -/
theorem libzeClone_origin (hrule : CloneRule host) {root suffix be : CStr} {recursive : Bool}
    (hr : libzeClone host root suffix be recursive s = (.success, t)) :
    t.originOf be = some (root ++ '@' :: suffix) := by
  obtain ⟨u, v, props, -, -, hcall, hgrows⟩ := libzeClone_success hr
  obtain ⟨hgranted, rfl⟩ := call_done hcall
  have hfree : be ∉ u.names := fun hmem => hrule u _ be props hmem hgranted
  refine hgrows.originOf ?_
  have hnone : u.find be = none := by
    refine List.find?_eq_none.mpr fun d hd => ?_
    have hne : d.name ≠ be := fun heq => hfree (heq ▸ List.mem_map_of_mem hd)
    simpa using hne
  rw [Sys.find] at hnone
  simp [Sys.originOf, Sys.find, Call.effect, ZfsCall.effect, hnone]

theorem cloneBootDataset_origin (hrule : CloneRule host) {bp : Bootpool}
    (hbp : h.bootpool = some bp) {cdata : CreateData} {be : CStr} {recursive : Bool}
    (hr : cloneBootDataset host cdata (h.bpoolDataset be) recursive s = (.success, t)) :
    t.originOf (bp.beDataset be) = some (cdata.sourceDataset ++ '@' :: cdata.snapSuffix) ∧
      Grows s t := by
  rw [bpoolDataset_some hbp, cloneBootDataset, if_neg (bootBeDataset_ne_nil bp be)] at hr
  obtain ⟨ret, s1, hclone, hr⟩ := bind_run hr
  split at hr
  · cases hr
  rename_i hret
  cases hr
  rw [not_not.mp hret] at hclone
  exact ⟨libzeClone_origin hrule hclone, (libzeClone_issues _).grows (fun s c hc => hc.grows s) hclone⟩

/-- A successful create without `-e` has one source exactly when the activated
environment is the running one. -/
theorem libzeCreate_createdFrom_iff (host : Host) (h : Handle) (bp : Bootpool)
    (options : CreateOptions) (s t : Sys) (hbp : h.bootpool = some bp)
    (hexisting : options.existing = false) (hrule : CloneRule host)
    (hr : libzeCreate host h options s = (.success, t)) :
    (∃ x, CreatedFrom h bp x options.beName t) ↔ h.envActivatedPath = h.envRunningPath := by
  obtain ⟨s1, s2, s3, s4, s5, cdata, bootPoolCdata, -, -, hsources, -, hclone, hboot, hgrows⟩ :=
    libzeCreate_success hr
  rw [createSources, hexisting, if_neg (by decide)] at hsources
  obtain ⟨suffix, -, hflat, -, rfl, rfl, -, -⟩ := sourcesFromBootfs_success hbp hsources
  obtain ⟨hbootOrigin, hgrows'⟩ := cloneBootDataset_origin hrule hbp hboot
  have hroot : t.originOf (h.beDataset options.beName) =
      some (h.envActivatedPath ++ '@' :: suffix) :=
    (hgrows'.trans hgrows).originOf (libzeClone_origin hrule hclone)
  have hbootRoot : t.originOf (bp.beDataset options.beName) =
      some (bp.beDataset h.envRunning ++ '@' :: suffix) := hgrows.originOf hbootOrigin
  constructor
  · rintro ⟨x, sfx, hsfx, hx, hxBoot⟩
    rw [hroot, Option.some.injEq] at hx
    rw [hbootRoot, Option.some.injEq] at hxBoot
    obtain ⟨hpath, -⟩ := append_cons_inj hflat hsfx hx
    obtain ⟨hboot, -⟩ := append_cons_inj hflat hsfx hxBoot
    have hrunning : h.envRunning = x := List.append_cancel_left hboot
    rw [hpath, h.runningPath_eq, hrunning, Handle.beDataset]
  · intro hsame
    refine ⟨h.envRunning, suffix, hflat, ?_, hbootRoot⟩
    rw [hroot, hsame, h.runningPath_eq, Handle.beDataset]

/-- `b` is activated while `a` runs. -/
def switchedHandle : Handle :=
  { sampleHandle (some sampleBootpool) false with
    envActivated := "b"
    envActivatedPath := "rpool/ROOT/b"
    activatedPath_eq := ⟨"rpool/ROOT", by decide⟩
    activated_flat := by decide
    activatedPath_fits := by decide }

theorem obliging_cloneRule : CloneRule obliging := by
  intro s snap target props htarget
  simp [obliging, plainHost, htarget]

theorem libzeCreate_createdFrom_iff_sample :
    (∃ x, CreatedFrom (sampleHandle (some sampleBootpool) false) sampleBootpool x "c"
      (libzeCreate obliging (sampleHandle (some sampleBootpool) false) ⟨false, false, "c", []⟩
        (sampleSys [])).2) ↔
      (sampleHandle (some sampleBootpool) false).envActivatedPath =
        (sampleHandle (some sampleBootpool) false).envRunningPath :=
  libzeCreate_createdFrom_iff obliging (sampleHandle (some sampleBootpool) false) sampleBootpool
    ⟨false, false, "c", []⟩ (sampleSys []) _ rfl rfl obliging_cloneRule
    (run_eq_of_fst (by decide +kernel))

/-- The new root dataset is a clone of `b`, the new boot dataset one of `a`. -/
theorem not_createdFrom_when_switched :
    ¬ ∀ (host : Host) (h : Handle) (bp : Bootpool) (options : CreateOptions) (s t : Sys),
      h.bootpool = some bp → options.existing = false → CloneRule host →
      libzeCreate host h options s = (.success, t) →
      ∃ x, CreatedFrom h bp x options.beName t := by
  intro hall
  obtain ⟨x, suffix, hsuffix, hroot, hboot⟩ := hall obliging switchedHandle sampleBootpool
    ⟨false, false, "c", []⟩ (sampleSys []) _ rfl rfl obliging_cloneRule
    (run_eq_of_fst (by decide +kernel))
  have hrootIs : (libzeCreate obliging switchedHandle ⟨false, false, "c", []⟩
      (sampleSys [])).2.originOf (switchedHandle.beDataset "c") =
      some (switchedHandle.beDataset "b" ++ '@' :: ("2024-05-01-12:00:00" : CStr)) := by
    decide +kernel
  have hbootIs : (libzeCreate obliging switchedHandle ⟨false, false, "c", []⟩
      (sampleSys [])).2.originOf (sampleBootpool.beDataset "c") =
      some (sampleBootpool.beDataset "a" ++ '@' :: ("2024-05-01-12:00:00" : CStr)) := by
    decide +kernel
  rw [hrootIs, Option.some.injEq] at hroot
  rw [hbootIs, Option.some.injEq] at hboot
  obtain ⟨hb, -⟩ := append_cons_inj (by decide) hsuffix hroot
  obtain ⟨ha, -⟩ := append_cons_inj (by decide) hsuffix hboot
  have hxb : ("b" : CStr) = x := by simpa [Handle.beDataset] using hb
  have hxa : ("a" : CStr) = x := by simpa [Bootpool.beDataset] using ha
  exact absurd (hxb.trans hxa.symm) (by decide)

end Bootfs

/-! ## Creating from an existing source -/

section Existing
variable {host : Host} {h : Handle} {s : Sys}

/-- What `-e` may be given for the environment `x`: its dataset, or a snapshot that its
boot pool dataset has too. -/
inductive SourceOf (h : Handle) (bp : Bootpool) (s : Sys) (x : CStr) : CStr → Prop
  | dataset (hx : Exists h s x) : SourceOf h bp s x (h.beDataset x)
  | snapshot {suffix : CStr} (hroot : h.beDataset x ++ '@' :: suffix ∈ s.names)
      (hboot : bp.beDataset x ++ '@' :: suffix ∈ s.names) :
      SourceOf h bp s x (h.beDataset x ++ '@' :: suffix)

/-- With a boot pool `-e` never creates the environment, whatever the source, the name
and the outcomes of the calls. -/
theorem not_created_from_existing (host : Host) (h : Handle) (bp : Bootpool)
    (options : CreateOptions) (s : Sys) (hbp : h.bootpool = some bp)
    (hexisting : options.existing = true) :
    ¬ ((libzeCreate host h options s).1 = .success ∧
      ∃ x, CreatedFrom h bp x options.beName (libzeCreate host h options s).2) :=
  fun hcreated => libzeCreate_existing_ne_success hbp hexisting hcreated.1

theorem not_created_from_existing_sample :
    ¬ ((libzeCreate allowing (sampleHandle (some sampleBootpool) false)
        ⟨true, false, "c", "rpool/ROOT/b"⟩ (sampleSys [])).1 = .success ∧
      ∃ x, CreatedFrom (sampleHandle (some sampleBootpool) false) sampleBootpool x "c"
        (libzeCreate allowing (sampleHandle (some sampleBootpool) false)
          ⟨true, false, "c", "rpool/ROOT/b"⟩ (sampleSys [])).2) :=
  not_created_from_existing allowing (sampleHandle (some sampleBootpool) false) sampleBootpool
    ⟨true, false, "c", "rpool/ROOT/b"⟩ (sampleSys []) rfl rfl

/-- A create from the environment `b` fails although every call succeeds. -/
theorem not_always_created_from_existing :
    ¬ ∀ (host : Host) (h : Handle) (bp : Bootpool) (options : CreateOptions) (s : Sys) (x : CStr),
      h.bootpool = some bp → options.existing = true → SourceOf h bp s x options.beSource →
      (validateNewBe h options.beName s).1.1 = .success → (∀ u c, host.answer u c = 0) →
      (libzeCreate host h options s).1 = .success ∧
        CreatedFrom h bp x options.beName (libzeCreate host h options s).2 := by
  intro hall
  have hx : Exists (sampleHandle (some sampleBootpool) false) (sampleSys []) "b" :=
    ⟨by decide, by decide⟩
  obtain ⟨hret, -⟩ := hall allowing (sampleHandle (some sampleBootpool) false) sampleBootpool
    ⟨true, false, "c", "rpool/ROOT/b"⟩ (sampleSys []) "b" rfl rfl (.dataset hx)
    (by decide +kernel) (fun _ _ => rfl)
  exact absurd hret (by decide +kernel)

end Existing

end Zectl.Libze.CreateOutcome
