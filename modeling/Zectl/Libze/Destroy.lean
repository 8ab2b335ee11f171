import Zectl.Libze.Validate
import Zectl.Lib.Visit

/-!
# Destroying a boot environment

`libze_destroy_cb` destroys children first and, on request, the origin snapshot of
each clone last. One run of it is described by `DestroyRun`, from which the facts
about whole runs follow by induction on the recursion depth.
-/

namespace Zectl.Libze.Destroy

open Zectl.Lib.StateRun Zectl.Lib.Visit Zectl.Lib.PathOrder Zectl.Util.CString Zectl.Zfs.System
open Zectl.Zfs.Steps Zectl.Zfs.Forest Zectl.Libze.Init Zectl.Libze.Validate

structure DestroyOptions where
  beName : CStr
  destroyOrigin : Bool
  force : Bool

/-- The mount check at the start of `libze_destroy_cb`; the result of the forced
unmount is not looked at. -/
def unmountOrRefuse (host : Host) (options : DestroyOptions) (ds : CStr) : Libze Int := do
  if (← get).isMounted ds then
    if options.force then
      let _ ← call host (.zfs (.unmount ds))
      return 0
    else
      return (← libzeErrorSet .unknown (format ["Dataset ", ds,
        " is mounted, run with force or unmount dataset\n"])).code
  return 0

/-- The origin snapshot `libze_destroy_cb` opens for later, none for a snapshot or
for a dataset that is no clone. -/
def openOrigin (host : Host) (options : DestroyOptions) (ds : CStr) :
    Libze (Int × Option CStr) := do
  if ¬ isSnapshotName ds ∧ options.destroyOrigin then
    let (r, buf) ← zfsPropGet host ds .origin
    if r ≠ 0 then return (0, none)
    if (← zfsOpen host buf .snapshot) ≠ 0 then
      return ((← libzeErrorSet .unknown (format ["Failed to open origin snapshot ", buf,
        "\n"])).code, none)
    return (0, some buf)
  return (0, none)

/-- `libze_destroy_cb`, to a bounded depth; the bound the callers pass is never
reached in a forest, see `destroyCb_depth`. -/
def libzeDestroyCb (host : Host) (options : DestroyOptions) : Nat → CStr → Libze Int
  | 0, _ => return LibzeError.unknown.code
  | depth + 1, ds => do
    let r ← unmountOrRefuse host options ds
    if r ≠ 0 then return r
    let (r, origin) ← openOrigin host options ds
    if r ≠ 0 then return r
    let r ← visit (fun s n => n ∈ s.names) (libzeDestroyCb host options depth)
      (children (← get) ds)
    if r ≠ 0 then
      return (← libzeErrorSet .unknown (format ["Failed to iterate over children of ", ds,
        "\n"])).code
    if (← call host (.zfs (.destroy ds))) ≠ 0 then
      return (← libzeErrorSet .unknown (format ["Failed to destroy dataset ", ds, "\n"])).code
    match origin with
    | none => return 0
    | some origin =>
      let ret ← libzeDestroyCb host options depth origin
      if ret ≠ 0 then
        let _ ← libzeErrorSet .unknown (format ["Failed to destroy origin snapshot ", origin,
          "\n"])
      return ret

/-- `libze_destroy_cb` as the callers outside of the recursion run it. -/
def runDestroyCb (host : Host) (options : DestroyOptions) (ds : CStr) : Libze Int := do
  libzeDestroyCb host options (recursionDepth (← get)) ds

/-- `destroy_filesystem` -/
def destroyFilesystem (host : Host) (options : DestroyOptions) (filesystem : CStr) :
    Libze LibzeError := do
  if ¬ (← get).datasetExists filesystem .filesystem then
    return ← libzeErrorSet .eexist (format ["Dataset ", filesystem, " does not exist\n"])
  if (← zfsOpen host filesystem .filesystem) ≠ 0 then
    return ← libzeErrorSet .zfsOpen (format ["Failed opening dataset ", filesystem, "\n"])
  if (← runDestroyCb host options filesystem) ≠ 0 then
    return .unknown
  return .success

/-- `destroy_snapshot` behind its first `zfs_destroy`. -/
def destroyBootSnapshot (host : Host) (snapshotBpool : CStr) : Libze LibzeError := do
  if ¬ (← get).datasetExists snapshotBpool .snapshot then
    return ← libzeErrorSet .eexist (format ["Snapshot on bootpool (", snapshotBpool,
      ") does not exist.\n"])
  if (← zfsOpen host snapshotBpool .snapshot) ≠ 0 then
    return ← libzeErrorSet .zfsOpen (format ["Failed opening snapshot on bootpool (",
      snapshotBpool, ").\n"])
  if (← call host (.zfs (.destroy snapshotBpool))) ≠ 0 then
    return ← libzeErrorSet .eexist (format ["Failed to destroy snapshot on bootpool (",
      snapshotBpool, ").\n"])
  return .success

/-- `destroy_snapshot`; its callers always pass a buffer for the boot pool, empty
without one. -/
def destroySnapshot (host : Host) (h : Handle) (options : DestroyOptions)
    (snapshot snapshotBpool : CStr) : Libze LibzeError := do
  if ¬ (← get).datasetExists snapshot .snapshot then
    return ← libzeErrorSet .eexist (format ["Snapshot ", snapshot, " does not exist\n"])
  let beSnapDs := (libzeUtilCut options.beName zfsMaxDatasetNameLen '@').2
  let (ret, _) ← validateExistingBe host h beSnapDs
  if ret ≠ .success then
    return ← libzeErrorPrepend ret (format ["Failed to validate corresponding boot environment (",
      beSnapDs, ") to  snapshot!\n"])
  if (← zfsOpen host snapshot .snapshot) ≠ 0 then
    return ← libzeErrorSet .zfsOpen (format ["Failed opening snapshot (", snapshot, ").\n"])
  if (← call host (.zfs (.destroy snapshot))) ≠ 0 then
    return ← libzeErrorSet .eexist (format ["Failed to destroy snapshot ", snapshot, "\n"])
  destroyBootSnapshot host snapshotBpool

/-- The `plugin_post_destroy` call at the end of `libze_destroy`. -/
def pluginPostDestroy (host : Host) (h : Handle) (beName : CStr) : Libze LibzeError := do
  if h.lzFuncs then
    if (← call host (.hook (.postDestroy beName))) ≠ 0 then
      return .plugin
  return .success

/-- The branch of `libze_destroy` for a name without `@`. -/
def destroyBootEnvironment (host : Host) (h : Handle) (options : DestroyOptions) :
    Libze LibzeError := do
  let (ret, beDs, beBpoolDs) ← openBootEnvironment host h options.beName
  if ret ≠ .success then
    return ← libzeErrorPrepend ret (format ["Failed to open boot environment (", options.beName,
      ") which should be destroyed.\n"])
  if libzeIsActiveBe h beDs then
    return ← libzeErrorSet .unknown (format ["Cannot destroy active boot environment (",
      options.beName, ").\n"])
  if libzeIsRootBe h beDs then
    return ← libzeErrorSet .unknown (format ["Cannot destroy root boot environment (",
      options.beName, ").\n"])
  if (← destroyFilesystem host options beDs) ≠ .success then
    return ← libzeErrorSet .unknown (format [
      "Failed to destroy the requested boot environment (", options.beName, ").\n"])
  if beBpoolDs ≠ [] then
    if (← runDestroyCb host options beBpoolDs) ≠ 0 then
      return ← libzeErrorSet .unknown (format [
        "Failed to destroy the requested boot environment on bootpool (", options.beName, ").\n"])
    -- the label `err` and its `return` stand inside this branch
    return .success
  pluginPostDestroy host h options.beName

/-- `libze_destroy` -/
def libzeDestroy (host : Host) (h : Handle) (options : DestroyOptions) : Libze LibzeError := do
  if ¬ isSnapshotName options.beName then
    destroyBootEnvironment host h options
  else
    let (code, beDs) := libzeUtilConcat h.envRoot "/" options.beName zfsMaxDatasetNameLen
    if code ≠ 0 then
      return ← libzeErrorSet .maxpathlen (format ["The snapshot name (", h.envRoot,
        options.beName, ") exceeds max length (256).\n"])
    let (code, beBpoolDs) := match h.bootpool with
      | none => (0, [])
      | some bp => libzeUtilConcat bp.rootPathFull "" options.beName zfsMaxDatasetNameLen
    if code ≠ 0 then
      return ← libzeErrorSet .maxpathlen (format ["The snapshot name for the bootpool (",
        h.envRoot, options.beName, ") exceeds max length (256).\n"])
    let ret ← destroySnapshot host h options beDs beBpoolDs
    if ret ≠ .success then return ret
    pluginPostDestroy host h options.beName

/-! ## One run of the callback -/

section Callback
variable {host : Host} {options : DestroyOptions} {depth : Nat} {ds : CStr} {s t : Sys}

theorem unknown_code_ne : LibzeError.unknown.code ≠ 0 := by decide

theorem unmountOrRefuse_shape {r : Int} (hr : unmountOrRefuse host options ds s = (r, t)) :
    SameShape s t := by
  unfold unmountOrRefuse at hr
  rw [run_get_bind] at hr
  split at hr
  · split at hr
    · obtain ⟨code, u, hcall, hr⟩ := bind_run hr
      cases hr
      by_cases hcode : code = 0
      · subst hcode
        rw [(call_done hcall).2]
        exact mapDataset_shape (s := s) fun _ => rfl
      · exact (samePools_of_refused hcall hcode).shape
    · cases hr
      exact .refl s
  · cases hr
    exact .refl s

/-- The origin snapshot of a clone, which is opened only on request. -/
structure IsOrigin (options : DestroyOptions) (s : Sys) (ds origin : CStr) : Prop where
  requested : options.destroyOrigin = true
  filesystem : isSnapshotName ds = false
  snapshot : isSnapshotName origin = true
  clone : ∃ d ∈ s.datasets, d.name = ds ∧ d.origin = some origin

theorem zfsPropGet_origin {buf : CStr} (hr : zfsPropGet host ds .origin s = ((0, buf), t)) :
    ∃ d ∈ s.datasets, d.name = ds ∧ d.origin = some buf := by
  unfold zfsPropGet at hr
  obtain ⟨code, u, hcall, hr⟩ := bind_run hr
  have hsame : SamePools s u := call_samePools hcall trivial
  split at hr
  · rename_i hcode
    cases hr
    exact absurd rfl hcode
  · rw [run_get_bind] at hr
    cases hfind : u.find ds with
    | none =>
      simp only [Sys.propValue, hfind] at hr
      cases hr
    | some d =>
      rw [hsame.find] at hfind
      have hname : d.name = ds := by simpa using List.find?_some hfind
      cases horigin : d.origin with
      | none =>
        simp only [Sys.propValue, hsame.find, hfind, horigin, Option.map_none] at hr
        cases hr
      | some o =>
        simp only [Sys.propValue, hsame.find, hfind, horigin, Option.map_some] at hr
        cases hr
        exact ⟨d, List.mem_of_find?_eq_some hfind, hname, horigin⟩

theorem openOrigin_spec {r : Int} {origin : Option CStr}
    (hr : openOrigin host options ds s = ((r, origin), t)) :
    SamePools s t ∧ ∀ o ∈ origin, IsOrigin options s ds o := by
  unfold openOrigin at hr
  split at hr
  · rename_i hcond
    obtain ⟨⟨code, buf⟩, u, hprop, hr⟩ := bind_run hr
    have hsu : SamePools s u := zfsPropGet_samePools hprop
    dsimp only at hr
    split at hr
    · cases hr
      exact ⟨hsu, by simp⟩
    · rename_i hcode
      obtain ⟨opened, v, hopen, hr⟩ := bind_run hr
      have hsv : SamePools s v := hsu.trans (zfsOpen_samePools hopen)
      split at hr
      · cases hr
        exact ⟨⟨hsv.1, hsv.2, hsv.3⟩, by simp⟩
      · rename_i hopened
        cases hr
        refine ⟨hsv, ?_⟩
        rintro o ⟨⟩
        rw [not_not.mp hcode] at hprop
        rw [not_not.mp hopened] at hopen
        have hexists := zfsOpen_exists hopen
        simp only [Sys.datasetExists, decide_eq_true_eq, iff_true] at hexists
        exact ⟨hcond.2, by simpa using hcond.1, hexists.2, zfsPropGet_origin hprop⟩
  · cases hr
    exact ⟨.refl s, by simp⟩

/-- How a run of `libze_destroy_cb` on `ds` in `s` can end. -/
inductive DestroyRun (host : Host) (options : DestroyOptions) (depth : Nat) (ds : CStr)
    (s : Sys) : Int → Sys → Prop
  | refused {r : Int} {t : Sys} (hr : r ≠ 0) (ht : SameShape s t) :
      DestroyRun host options depth ds s r t
  | childFailed {r : Int} {s1 s2 t : Sys} (hs : SameShape s s1)
      (hvisit : visit (fun s n => n ∈ s.names) (libzeDestroyCb host options depth)
        (children s1 ds) s1 = (r, s2)) (ht : SameShape s2 t) :
      DestroyRun host options depth ds s LibzeError.unknown.code t
  | kept {code : Nat} {s1 s2 s3 t : Sys} (hs : SameShape s s1)
      (hvisit : visit (fun s n => n ∈ s.names) (libzeDestroyCb host options depth)
        (children s1 ds) s1 = (0, s2)) (hcall : call host (.zfs (.destroy ds)) s2 = (code, s3))
      (hcode : code ≠ 0) (ht : SameShape s3 t) :
      DestroyRun host options depth ds s LibzeError.unknown.code t
  | destroyed {s1 s2 t : Sys} (hs : SameShape s s1)
      (hvisit : visit (fun s n => n ∈ s.names) (libzeDestroyCb host options depth)
        (children s1 ds) s1 = (0, s2)) (hcall : call host (.zfs (.destroy ds)) s2 = (0, t)) :
      DestroyRun host options depth ds s 0 t
  | withOrigin {origin : CStr} {r : Int} {s1 s2 s3 s4 t : Sys} (hs : SameShape s s1)
      (hvisit : visit (fun s n => n ∈ s.names) (libzeDestroyCb host options depth)
        (children s1 ds) s1 = (0, s2)) (hcall : call host (.zfs (.destroy ds)) s2 = (0, s3))
      (horigin : IsOrigin options s ds origin)
      (hrec : libzeDestroyCb host options depth origin s3 = (r, s4)) (ht : SameShape s4 t) :
      DestroyRun host options depth ds s r t

theorem IsOrigin.of_shape {origin : CStr} (h : IsOrigin options t ds origin)
    (hst : SameShape s t) : IsOrigin options s ds origin := by
  obtain ⟨d, hd, hname, ho⟩ := h.clone
  obtain ⟨e, he, hen, heo⟩ := hst.exists_origin hd
  exact ⟨h.requested, h.filesystem, h.snapshot, e, he, hen.trans hname, heo.trans ho⟩

theorem destroyRun {r : Int} (hr : libzeDestroyCb host options (depth + 1) ds s = (r, t)) :
    DestroyRun host options depth ds s r t := by
  rw [libzeDestroyCb] at hr
  obtain ⟨r1, s1, hunmount, hr⟩ := bind_run hr
  have hs1 := unmountOrRefuse_shape hunmount
  split at hr
  · rename_i hr1
    cases hr
    exact .refused hr1 hs1
  obtain ⟨⟨r2, origin⟩, s2, hopen, hr⟩ := bind_run hr
  obtain ⟨hs2, horigin⟩ := openOrigin_spec hopen
  have hs := hs1.trans hs2.shape
  dsimp only at hr
  split at hr
  · rename_i hr2
    cases hr
    exact .refused hr2 hs
  rw [run_get_bind] at hr
  obtain ⟨r3, s3, hvisit, hr⟩ := bind_run hr
  split at hr
  · cases hr
    exact .childFailed hs hvisit (.refl s3)
  rename_i hr3
  rw [not_not.mp hr3] at hvisit
  obtain ⟨code, s4, hcall, hr⟩ := bind_run hr
  split at hr
  · rename_i hcode
    cases hr
    exact .kept hs hvisit hcall hcode (.refl s4)
  rename_i hcode
  rw [not_not.mp hcode] at hcall
  cases origin with
  | none =>
    cases hr
    exact .destroyed hs hvisit hcall
  | some o =>
    obtain ⟨r5, s5, hrec, hr⟩ := bind_run hr
    have ho := (horigin o rfl).of_shape hs1
    split at hr
    · cases hr
      exact .withOrigin hs hvisit hcall ho hrec rfl
    · cases hr
      exact .withOrigin hs hvisit hcall ho hrec rfl

end Callback

/-! ## The calls of the callback -/

/-- Lookups, and unmounting or destroying one of the datasets `inside`. -/
def MayDestroy (inside : CStr → Prop) : Call → Prop
  | .zfs (.unmount n) | .zfs (.destroy n) => inside n
  | c => IsLookup c

section Calls
variable {host : Host} {options : DestroyOptions} {inside : CStr → Prop}

theorem destroy_names (host : Host) (s : Sys) (name : CStr) :
    (ZfsCall.effect host s (.destroy name)).names = s.names.filter fun n => n ≠ name := by
  simp only [ZfsCall.effect, Sys.names, List.filter_map]
  rfl

theorem MayDestroy.remains {s : Sys} {c : Call} (hc : MayDestroy inside c) :
    Remains s (c.effect host s) := by
  match c, hc with
  | .zfs (.unmount name), _ =>
    have hshape : SameShape s ((ZfsCall.unmount name).effect host s) := mapDataset_shape fun _ => rfl
    exact fun d hd => hshape.exists_origin hd
  | .zfs (.destroy name), _ => exact fun d hd => ⟨d, List.mem_of_mem_filter hd, rfl, rfl⟩
  | .zfs (.poolOpen _), _ => exact .refl s
  | .zfs (.open _), _ => exact .refl s
  | .zfs (.propGet _ _), _ => exact .refl s

theorem unmountOrRefuse_issues {ds : CStr} (hds : inside ds) :
    Issues host (MayDestroy inside) (unmountOrRefuse host options ds) := by
  unfold unmountOrRefuse
  refine moves_bind moves_get fun s => ?_
  split
  · split
    · exact moves_bind (issues_call hds) fun _ => moves_pure _
    · exact moves_bind (issues_errorSet _ _) fun _ => moves_pure _
  · exact moves_pure _

theorem openOrigin_issues {ds : CStr} :
    Issues host (MayDestroy inside) (openOrigin host options ds) := by
  unfold openOrigin
  repeat' first
    | exact moves_pure _
    | exact issues_errorSet _ _
    | exact issues_zfsOpen trivial
    | exact issues_zfsPropGet trivial
    | refine moves_bind ?_ fun _ => ?_
    | split

/-- The recursion stays below its dataset but for origin snapshots. -/
theorem destroyCb_issues (hsnap : ∀ n, isSnapshotName n = true → inside n) (depth : Nat)
    {ds : CStr} (hsub : ∀ n, AtOrBelow ds n → inside n) :
    Issues host (MayDestroy inside) (libzeDestroyCb host options depth ds) := by
  induction depth generalizing ds with
  | zero => exact moves_pure _
  | succ depth ih =>
    rw [libzeDestroyCb]
    refine moves_bind (unmountOrRefuse_issues (hsub ds under_refl)) fun r => ?_
    refine moves_ite (fun _ => moves_pure _) (fun _ => ?_)
    refine moves_bind_of openOrigin_issues fun s => ?_
    rcases hopen : openOrigin host options ds s with ⟨⟨r, origin⟩, s1⟩
    have horigin := (openOrigin_spec hopen).2
    refine moves_ite (fun _ => moves_pure _) (fun _ => ?_) s1
    refine moves_bind moves_get fun s2 => ?_
    refine moves_bind (moves_visit fun c hc => ?_) fun r => ?_
    · have hbelow := atOrBelow_of_parentOf (mem_children.mp hc).2
      exact ih fun n hn => hsub n (hbelow.trans hn)
    refine moves_ite (fun _ => moves_bind (issues_errorSet _ _) fun _ => moves_pure _) (fun _ => ?_)
    refine moves_bind (issues_call (hsub ds under_refl)) fun code => ?_
    refine moves_ite (fun _ => moves_bind (issues_errorSet _ _) fun _ => moves_pure _) (fun _ => ?_)
    cases origin with
    | none => exact moves_pure _
    | some o =>
      have hosnap := (horigin o rfl).snapshot
      refine moves_bind (ih fun n hn => hsnap n ?_) fun ret => ?_
      · by_contra hns
        rw [isSnapshotName_of_atOrBelow hn (by simpa using hns)] at hosnap
        cases hosnap
      · refine moves_ite (fun _ => ?_) (fun _ => moves_pure _)
        exact moves_bind (issues_errorSet _ _) fun _ => moves_pure _

theorem destroyFilesystem_issues (hsnap : ∀ n, isSnapshotName n = true → inside n) {ds : CStr}
    (hsub : ∀ n, AtOrBelow ds n → inside n) :
    Issues host (MayDestroy inside) (destroyFilesystem host options ds) := by
  unfold destroyFilesystem
  refine moves_bind moves_get fun s => ?_
  refine moves_ite (fun _ => moves_bind (issues_errorSet _ _) fun _ => moves_pure _) (fun _ => ?_)
  refine moves_bind (issues_zfsOpen trivial) fun opened => ?_
  refine moves_ite (fun _ => moves_bind (issues_errorSet _ _) fun _ => moves_pure _) (fun _ => ?_)
  refine moves_bind (moves_bind moves_get fun s => destroyCb_issues hsnap _ hsub) fun c => ?_
  exact moves_ite (fun _ => moves_pure _) (fun _ => moves_pure _)

theorem destroyCb_remains {depth : Nat} {ds : CStr} {s t : Sys} {r : Int}
    (hr : libzeDestroyCb host options depth ds s = (r, t)) : Remains s t := by
  have hissues : Issues host (MayDestroy fun _ => True) (libzeDestroyCb host options depth ds) :=
    destroyCb_issues (fun _ _ => trivial) depth fun _ _ => trivial
  have hkeep : Remains s (libzeDestroyCb host options depth ds s).2 :=
    hissues.keeps (Remains s) (fun _ _ _ _ h => h) (fun u c hc _ hu => hu.trans hc.remains)
      (.refl s)
  rwa [hr] at hkeep

theorem destroyCb_names_subset {depth : Nat} {ds : CStr} {s t : Sys} {r : Int}
    (hr : libzeDestroyCb host options depth ds s = (r, t)) {n : CStr} (hn : n ∈ t.names) :
    n ∈ s.names := (destroyCb_remains hr).names hn

end Calls

/-! ## What the callback leaves -/

/-- Nothing is left at or below the dataset. -/
def Gone (ds : CStr) (s : Sys) : Prop := ∀ n, AtOrBelow ds n → n ∉ s.names

section Outcome
variable {host : Host} {options : DestroyOptions}

/-- A callback that keeps forests, only takes away, and clears what it succeeds on. -/
def Clears (cb : CStr → Libze Int) : Prop :=
  ∀ {c : CStr} {s t : Sys} {r : Int}, IsForest s.names → cb c s = (r, t) →
    IsForest t.names ∧ (∀ n ∈ t.names, n ∈ s.names) ∧ (r = 0 → Gone c t)

/-- After a successful visit of its children only the dataset itself is left. -/
theorem clears_children {cb : CStr → Libze Int} (hcb : Clears cb) {ds : CStr} {s t : Sys} {r : Int}
    (hs : IsForest s.names)
    (hvisit : visit (fun s n => n ∈ s.names) cb (children s ds) s = (r, t)) :
    IsForest t.names ∧ (∀ n ∈ t.names, n ∈ s.names) ∧
      (r = 0 → ∀ n ∈ t.names, AtOrBelow ds n → n = ds) := by
  let inv : Sys → Prop := fun u => IsForest u.names ∧ ∀ n ∈ u.names, n ∈ s.names
  have hinv : inv s := ⟨hs, fun _ h => h⟩
  have hkeep : ∀ c ∈ children s ds, ∀ u, inv u → decide (c ∈ u.names) = true →
      inv (cb c u).2 := by
    intro c _ u hu _
    obtain ⟨hforest, hsub, _⟩ := hcb hu.1 rfl
    exact ⟨hforest, fun n hn => hu.2 n (hsub n hn)⟩
  have hfinal := visit_keeps inv hkeep hinv
  rw [hvisit] at hfinal
  refine ⟨hfinal.1, hfinal.2, ?_⟩
  rintro rfl n hn hbelow
  by_contra hne
  obtain ⟨c, hc, hcn⟩ := hs.exists_child (hfinal.2 n hn) hbelow hne
  have hdone : Gone c (visit (fun s n => n ∈ s.names) cb (children s ds) s).2 := by
    refine visit_done inv Gone hkeep ?_ ?_ ?_ hinv (by rw [hvisit]) c hc
    · intro c _ u hu hdead n hcn hn
      simp only [decide_eq_false_iff_not] at hdead
      exact hdead (hu.1.mem_of_atOrBelow hn hcn)
    · exact fun c _ u hu _ hzero => (hcb hu.1 rfl).2.2 hzero
    · exact fun c _ m u hu _ hm n hmn hn => hm n hmn ((hcb hu.1 rfl).2.1 n hn)
  rw [hvisit] at hdone
  exact hdone n hcn hn

/-- With nothing below it, a dataset is taken out of the forest. -/
theorem destroy_leaf {ds : CStr} {s t : Sys} (hs : IsForest s.names)
    (hleaf : ∀ n ∈ s.names, AtOrBelow ds n → n = ds)
    (hcall : call host (.zfs (.destroy ds)) s = (0, t)) : IsForest t.names ∧ Gone ds t := by
  have hnames : t.names = s.names.filter fun n => n ≠ ds := by
    rw [(call_done hcall).2]
    exact destroy_names host s ds
  rw [Gone, hnames]
  refine ⟨hs.remove_leaf fun m hm hparent => ?_, fun n hbelow hn => ?_⟩
  · have hlt := parentOf_length_lt hparent
    rw [hleaf m hm (atOrBelow_of_parentOf hparent)] at hlt
    exact lt_irrefl _ hlt
  · obtain ⟨hn, hne⟩ := List.mem_filter.mp hn
    exact absurd (hleaf n hn hbelow) (by simpa using hne)

/-- Whatever is answered on the way, the callback leaves a forest, and nothing of
the dataset when it returns zero. -/
theorem destroyCb_clears (depth : Nat) : Clears (libzeDestroyCb host options depth) := by
  intro ds s t r hs hr
  suffices h : IsForest t.names ∧ (r = 0 → Gone ds t) from
    ⟨h.1, fun n => destroyCb_names_subset hr, h.2⟩
  induction depth generalizing ds s t r with
  | zero =>
    cases hr
    exact ⟨hs, fun h => absurd h unknown_code_ne⟩
  | succ depth ih =>
    have hcb : Clears (libzeDestroyCb host options depth) := fun hs hr =>
      ⟨(ih hs hr).1, fun n => destroyCb_names_subset hr, (ih hs hr).2⟩
    cases destroyRun hr with
    | refused hr ht => exact ⟨ht.names ▸ hs, fun h => absurd h hr⟩
    | childFailed hshape hvisit ht =>
      have hs2 := clears_children hcb (hshape.names ▸ hs) hvisit
      exact ⟨ht.names ▸ hs2.1, fun h => absurd h unknown_code_ne⟩
    | kept hshape hvisit hcall hcode ht =>
      have hs2 := clears_children hcb (hshape.names ▸ hs) hvisit
      have hnames := (samePools_of_refused hcall hcode).names
      exact ⟨ht.names ▸ hnames ▸ hs2.1, fun h => absurd h unknown_code_ne⟩
    | destroyed hshape hvisit hcall =>
      obtain ⟨hs2, _, hleaf⟩ := clears_children hcb (hshape.names ▸ hs) hvisit
      obtain ⟨ht, hgone⟩ := destroy_leaf hs2 (hleaf rfl) hcall
      exact ⟨ht, fun _ => hgone⟩
    | withOrigin hshape hvisit hcall horigin hrec ht =>
      obtain ⟨hs2, _, hleaf⟩ := clears_children hcb (hshape.names ▸ hs) hvisit
      obtain ⟨hs3, hgone⟩ := destroy_leaf hs2 (hleaf rfl) hcall
      refine ⟨ht.names ▸ (ih hs3 hrec).1, fun _ n hbelow hn => ?_⟩
      rw [ht.names] at hn
      exact hgone n hbelow (destroyCb_names_subset hrec hn)

/-- What destroying `ds` may take: the dataset with everything below it and, on
request, the origins of the clones among them. -/
def Takes (options : DestroyOptions) (s : Sys) (ds n : CStr) : Prop :=
  AtOrBelow ds n ∨ (options.destroyOrigin = true ∧ ∃ d ∈ s.datasets,
    isSnapshotName d.name = false ∧ AtOrBelow ds d.name ∧ d.origin = some n)

theorem Takes.of_child {s : Sys} {ds c n : CStr} (h : Takes options s c n)
    (hc : AtOrBelow ds c) : Takes options s ds n := by
  obtain hn | ⟨horigin, d, hd, hfs, hcd, hdn⟩ := h
  · exact .inl (hc.trans hn)
  · exact .inr ⟨horigin, d, hd, hfs, hc.trans hcd, hdn⟩

theorem Takes.of_remains {s t : Sys} {ds n : CStr} (h : Takes options t ds n)
    (hst : Remains s t) : Takes options s ds n := by
  obtain hn | ⟨horigin, d, hd, hfs, hbelow, hdn⟩ := h
  · exact .inl hn
  · obtain ⟨e, he, hname, heo⟩ := hst d hd
    exact .inr ⟨horigin, e, he, hname ▸ hfs, hname ▸ hbelow, heo.trans hdn⟩

/-- Whatever the callback returns, it takes no more than it may. -/
theorem destroyCb_takes (depth : Nat) {ds : CStr} {s t : Sys} {r : Int} (hs : IsForest s.names)
    (hr : libzeDestroyCb host options depth ds s = (r, t)) :
    ∀ n ∈ s.names, n ∉ t.names → Takes options s ds n := by
  induction depth generalizing ds s t r with
  | zero =>
    cases hr
    exact fun n hn hmiss => absurd hn hmiss
  | succ depth ih =>
    have hchildren : ∀ {s1 s2 : Sys} {r : Int}, SameShape s s1 →
        visit (fun s n => n ∈ s.names) (libzeDestroyCb host options depth) (children s1 ds) s1
          = (r, s2) → ∀ n ∈ s.names, n ∉ s2.names → Takes options s ds n := by
      intro s1 s2 r hshape hvisit
      let inv : Sys → Prop := fun u => IsForest u.names ∧ Remains s u ∧
        ∀ n ∈ s.names, n ∉ u.names → Takes options s ds n
      have hinv : inv s1 :=
        ⟨hshape.names ▸ hs, hshape.remains, fun n hn hmiss => absurd (hshape.names ▸ hn) hmiss⟩
      have hfinal : inv (visit (fun s n => n ∈ s.names) (libzeDestroyCb host options depth)
          (children s1 ds) s1).2 := by
        refine visit_keeps inv (fun c hc u hu _ => ?_) hinv
        have hbelow := atOrBelow_of_parentOf (mem_children.mp hc).2
        refine ⟨(destroyCb_clears depth hu.1 rfl).1, hu.2.1.trans (destroyCb_remains rfl), ?_⟩
        intro n hn hmiss
        by_cases hnu : n ∈ u.names
        · exact ((ih hu.1 rfl n hnu hmiss).of_child hbelow).of_remains hu.2.1
        · exact hu.2.2 n hn hnu
      rw [hvisit] at hfinal
      exact hfinal.2.2
    have hself : ∀ {s1 s2 s3 : Sys}, SameShape s s1 →
        visit (fun s n => n ∈ s.names) (libzeDestroyCb host options depth) (children s1 ds) s1
          = (0, s2) → call host (.zfs (.destroy ds)) s2 = (0, s3) →
        ∀ n ∈ s.names, n ∉ s3.names → Takes options s ds n := by
      intro s1 s2 s3 hshape hvisit hcall n hn hmiss
      by_cases hn2 : n ∈ s2.names
      · have hnames : s3.names = s2.names.filter fun n => n ≠ ds := by
          rw [(call_done hcall).2]
          exact destroy_names host s2 ds
        by_cases hne : n = ds
        · exact .inl (hne ▸ under_refl)
        · rw [hnames] at hmiss
          exact absurd (List.mem_filter.mpr ⟨hn2, by simpa using hne⟩) hmiss
      · exact hchildren hshape hvisit n hn hn2
    cases destroyRun hr with
    | refused hr ht => exact fun n hn hmiss => absurd (ht.names ▸ hn) hmiss
    | childFailed hshape hvisit ht =>
      exact fun n hn hmiss => hchildren hshape hvisit n hn (ht.names ▸ hmiss)
    | kept hshape hvisit hcall hcode ht =>
      have hnames := ht.names.trans (samePools_of_refused hcall hcode).names
      exact fun n hn hmiss => hchildren hshape hvisit n hn (hnames ▸ hmiss)
    | destroyed hshape hvisit hcall => exact hself hshape hvisit hcall
    | @withOrigin origin _ s1 s2 s3 s4 _ hshape hvisit hcall horigin hrec ht =>
      intro n hn hmiss
      by_cases hn3 : n ∈ s3.names
      · obtain ⟨hs2, _, hleaf⟩ :=
          clears_children (destroyCb_clears depth) (hshape.names ▸ hs) hvisit
        have hs3 := (destroy_leaf hs2 (hleaf rfl) hcall).1
        obtain hbelow | ⟨_, d, _, hfs, hbelow, _⟩ := ih hs3 hrec n hn3 (ht.names ▸ hmiss)
        · -- the origin is a snapshot, so it is all that its own run takes
          obtain rfl := eq_of_atOrBelow_snapshot hbelow horigin.snapshot (hs.valid n hn)
          obtain ⟨d, hd, hname, hdo⟩ := horigin.clone
          exact .inr ⟨horigin.requested, d, hd, hname ▸ horigin.filesystem,
            hname ▸ under_refl, hdo⟩
        · have hsnap := isSnapshotName_of_atOrBelow hbelow hfs
          rw [horigin.snapshot] at hsnap
          cases hsnap
      · exact hself hshape hvisit hcall n hn hn3

/-- With enough depth one more changes nothing, so the recursion is the unbounded
one of the C function. -/
theorem destroyCb_depth (depth : Nat) {ds : CStr} {s : Sys} (hs : IsForest s.names)
    (henough : Enough s ds depth) :
    libzeDestroyCb host options (depth + 1) ds s = libzeDestroyCb host options depth ds s := by
  induction depth generalizing ds s with
  | zero => obtain ⟨h, _⟩ | ⟨h, _⟩ := henough <;> omega
  | succ depth ih =>
    rw [libzeDestroyCb, libzeDestroyCb]
    refine run_bind_congr rfl fun r s1 hunmount => ?_
    have hs1 := unmountOrRefuse_shape hunmount
    split
    · rfl
    refine run_bind_congr rfl ?_
    rintro ⟨r2, origin⟩ s2 hopen
    obtain ⟨hs2, horigin⟩ := openOrigin_spec hopen
    have hnames : s2.names = s.names := hs2.names.trans hs1.names
    dsimp only
    split
    · rfl
    rw [run_get_bind, run_get_bind]
    have hkeep : ∀ c ∈ children s2 ds, ∀ u, IsForest u.names ∧ (∀ n ∈ u.names, n ∈ s2.names) →
        decide (c ∈ u.names) = true →
        libzeDestroyCb host options (depth + 1) c u = libzeDestroyCb host options depth c u ∧
          IsForest (libzeDestroyCb host options (depth + 1) c u).2.names ∧
            ∀ n ∈ (libzeDestroyCb host options (depth + 1) c u).2.names, n ∈ s2.names := by
      intro c hc u hu _
      have hchild := (henough.of_subset fun n hn => hnames ▸ hn).child (hnames ▸ hs) hc
      refine ⟨ih hu.1 (hchild.of_subset hu.2), (destroyCb_clears _ hu.1 rfl).1, fun n hn => ?_⟩
      exact hu.2 n (destroyCb_names_subset rfl hn)
    have hs2' : IsForest s2.names ∧ ∀ n ∈ s2.names, n ∈ s2.names := ⟨hnames ▸ hs, fun _ h => h⟩
    refine run_bind_congr (visit_congr _ hkeep hs2') fun r3 s3 hvisit => ?_
    split
    · rfl
    rename_i hr3
    refine run_bind_congr rfl fun code s4 hcall => ?_
    split
    · rfl
    rename_i hcode
    cases origin with
    | none => rfl
    | some o =>
      have ho := horigin o rfl
      rw [not_not.mp hr3] at hvisit
      rw [not_not.mp hcode] at hcall
      obtain ⟨hs3, _, hleaf⟩ := clears_children (destroyCb_clears depth.succ) hs2'.1 hvisit
      have hdepth : 1 ≤ depth := by
        obtain ⟨h, _⟩ | ⟨_, h⟩ := henough
        · omega
        · rw [ho.filesystem] at h
          cases h
      refine run_bind_congr (ih (destroy_leaf hs3 (hleaf rfl) hcall).1 ?_) fun _ _ _ => rfl
      exact .inr ⟨hdepth, ho.snapshot⟩

end Outcome

end Zectl.Libze.Destroy
