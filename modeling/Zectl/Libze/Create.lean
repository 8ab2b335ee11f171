import Zectl.Libze.Clone
import Zectl.Libze.Mount

/-!
# Creating a boot environment

`libze_create` takes or finds a snapshot on each pool and clones it. The source of the
clones is the activated environment, or with `-e` a dataset or snapshot that is given.
-/

namespace Zectl.Libze.Create

open Zectl.Lib.StateRun Zectl.Lib.PathOrder Zectl.Util.CString Zectl.Zfs.System Zectl.Zfs.Steps
open Zectl.Zfs.Forest Zectl.Libze.Init Zectl.Libze.Sample Zectl.Libze.Validate Zectl.Libze.Clone
open Zectl.Libze.Mount

/-- `libze_create_options` -/
structure CreateOptions where
  existing : Bool
  recursive : Bool
  beName : CStr
  beSource : CStr
  deriving DecidableEq

/-- `create_data` without the flag that only the snapshot of a source reads. -/
structure CreateData where
  snapSuffix : CStr := []
  sourceDataset : CStr := []
  isSnap : Bool := false
  deriving DecidableEq

/-- `gen_snap_suffix` -/
def genSnapSuffix (host : Host) : Libze CStr := do
  return (host.now (← get)).text

/-- `get_snap_and_dataset`: the dataset and the suffix. -/
def getSnapAndDataset (sourceSnap : CStr) : LibzeError × CStr × CStr :=
  let (code, dataset) := libzeUtilCut sourceSnap zfsMaxDatasetNameLen '@'
  if code ≠ 0 then (.maxpathlen, dataset, []) else
  let (code, snapshot) := libzeUtilSuffixAfterString dataset sourceSnap zfsMaxDatasetNameLen
  if code ≠ 0 then (.unknown, dataset, snapshot) else (.success, dataset, snapshot)

/-- The message of both callers for a source that `get_snap_and_dataset` refuses. -/
def snapAndDatasetError (err : LibzeError) (sourceSnap : CStr) : Libze LibzeError :=
  libzeErrorSet err (format ["Source snapshot ", sourceSnap,
    if err = .maxpathlen then " is too long.\n"
    else " doesn't contain snapshot suffix or is too long.\n"])

/-- `prepare_existing_boot_pool_data` with the suffix it writes; it never writes the
dataset. -/
def prepareExistingBootPoolData (host : Host) (h : Handle) (sourceSnap sourceBeName : CStr) :
    Libze (LibzeError × CStr) := do
  let (ret, _, destSnapshotSuffix) := getSnapAndDataset sourceSnap
  if ret ≠ .success then return (← snapAndDatasetError ret sourceSnap, destSnapshotSuffix)
  let (ret, _, sourceBpoolDs) ← validateExistingBe host h sourceBeName
  if ret ≠ .success then
    return (← libzeErrorPrepend ret (format ["Failed to validate existing boot environment (",
      sourceBeName, ")!\n"]), destSnapshotSuffix)
  let (code, dsSnapBuf) := libzeUtilConcat sourceBpoolDs "@" sourceSnap zfsMaxDatasetNameLen
  if code ≠ 0 then
    return (← libzeErrorSet .maxpathlen (format ["Boot pool snapshot (", sourceBpoolDs, "@",
      sourceSnap, ") is too long (256).\n"]), destSnapshotSuffix)
  if ¬ (← get).datasetExists dsSnapBuf .snapshot then
    return (← libzeErrorSet .maxpathlen (format ["Source boot pool snapshot (", dsSnapBuf,
      ") doesn't exist.\n"]), destSnapshotSuffix)
  return (.success, destSnapshotSuffix)

/-- `prepare_create_from_existing` -/
def prepareCreateFromExisting (host : Host) (beSource : CStr) :
    Libze (LibzeError × CreateData) := do
  if '@' ∈ beSource then
    if ¬ (← get).datasetExists beSource .snapshot then
      return (← libzeErrorSet .eexist (format ["Source snapshot ", beSource,
        " doesn't exist.\n"]), {})
    let (ret, dataset, suffix) := getSnapAndDataset beSource
    if ret ≠ .success then return (← snapAndDatasetError ret beSource, {})
    return (.success, ⟨suffix, dataset, true⟩)
  let suffix ← genSnapSuffix host
  let (code, snapBuf) := libzeUtilConcat beSource "@" suffix zfsMaxDatasetNameLen
  if code ≠ 0 then
    return (← libzeErrorSet .maxpathlen
      "Source dataset snapshot will exceed max dataset length.\n", {})
  if (← call host (.zfs (.snapshot snapBuf (host.uninitialized (← get))))) ≠ 0 then
    return (← libzeErrorSet .maxpathlen (format ["Failed to create snapshot ", snapBuf, ".\n"]), {})
  if ¬ (← get).datasetExists beSource .filesystem then
    return (← libzeErrorSet .eexist (format ["Source dataset ", beSource,
      " doesn't exist.\n"]), {})
  let (len, dataset) := strlcpy beSource zfsMaxDatasetNameLen
  if zfsMaxDatasetNameLen ≤ len then
    return (← libzeErrorSet .maxpathlen (format ["Source dataset ", beSource,
      " exceeds max dataset length.\n"]), {})
  return (.success, ⟨suffix, dataset, false⟩)

/-- The sources of a create with `-e`, for the root pool and the boot pool. -/
def sourcesFromExisting (host : Host) (h : Handle) (options : CreateOptions) :
    Libze (LibzeError × CreateData × CreateData) := do
  let (ret, cdata) ← prepareCreateFromExisting host options.beSource
  if ret ≠ .success then return (ret, cdata, {})
  match h.bootpool with
  | none => return (.success, cdata, {})
  | some _ =>
    let destDsBuf := []
    let (ret, _) ← prepareExistingBootPoolData host h options.beSource options.beName
    if ret ≠ .success then return (ret, cdata, {})
    let (ret, bootPoolCdata) ← prepareCreateFromExisting host destDsBuf
    if ret ≠ .success then return (ret, cdata, {})
    return (.success, cdata, bootPoolCdata)

/-- The sources of a create without `-e`, with their snapshots taken. -/
def sourcesFromBootfs (host : Host) (h : Handle) (options : CreateOptions) :
    Libze (LibzeError × CreateData × CreateData) := do
  let (len, dataset) := strlcpy h.envActivatedPath zfsMaxDatasetNameLen
  if zfsMaxDatasetNameLen ≤ len then
    return (← libzeErrorSet .maxpathlen (format ["Source dataset ", h.envActivatedPath,
      " exceeds max dataset length.\n"]), {}, {})
  let suffix ← genSnapSuffix host
  let (code, snapBuf) := libzeUtilConcat dataset "@" suffix zfsMaxDatasetNameLen
  if code ≠ 0 then
    return (← libzeErrorSet .maxpathlen
      "Source dataset snapshot will exceed max dataset length.\n", {}, {})
  if (← call host (.zfs (.snapshot snapBuf options.recursive))) ≠ 0 then
    return (← libzeErrorSet .maxpathlen (format ["Failed to create snapshot ", snapBuf,
      ".\n"]), {}, {})
  match h.bootpool with
  | none => return (.success, ⟨suffix, dataset, false⟩, {})
  | some bp =>
    let (_, bootDataset) := libzeUtilConcat bp.rootPathFull h.envRunning "" zfsMaxDatasetNameLen
    let (_, bootSuffix) := strlcpy suffix zfsMaxDatasetNameLen
    let (code, snapBuf) := libzeUtilConcat bootDataset "@" bootSuffix zfsMaxDatasetNameLen
    if code ≠ 0 then
      return (← libzeErrorSet .maxpathlen (format ["Source boot pool dataset snapshot (",
        bootDataset, "@", bootSuffix, ") exceeds max dataset length (256).\n"]), {}, {})
    if (← call host (.zfs (.snapshot snapBuf options.recursive))) ≠ 0 then
      return (← libzeErrorSet .unknown (format ["Failed to create snapshot (", snapBuf,
        ").\n"]), {}, {})
    return (.success, ⟨suffix, dataset, false⟩, ⟨bootSuffix, bootDataset, false⟩)

def createSources (host : Host) (h : Handle) (options : CreateOptions) :
    Libze (LibzeError × CreateData × CreateData) :=
  if options.existing then sourcesFromExisting host h options else sourcesFromBootfs host h options

/-- `post_create` -/
def postCreate (host : Host) (h : Handle) (beName : CStr) (isSnap : Bool) : Libze LibzeError := do
  if ¬ h.lzFuncs then return .success
  let (ret, beDs, _) ← openBootEnvironment host h beName
  if ret ≠ .success then
    return ← libzeErrorPrepend ret (format ["Failed to open boot environment (", beName,
      ") for post-create!\n"])
  hookInMount host h beName beDs (fun dir => .postCreate beName dir isSnap)
    "Failed to run post-create hook\n"

/-- The boot pool part of the cloning. -/
def cloneBootDataset (host : Host) (bootPoolCdata : CreateData) (newBpoolDs : CStr)
    (recursive : Bool) : Libze LibzeError := do
  if newBpoolDs = [] then return .success
  if (← libzeClone host bootPoolCdata.sourceDataset bootPoolCdata.snapSuffix newBpoolDs
      recursive) ≠ .success then
    return ← libzeErrorSet .unknown (format ["The dataset on the bootpool (", newBpoolDs,
      ") can't be cloned.\n"])
  return .success

/-- `libze_create` -/
def libzeCreate (host : Host) (h : Handle) (options : CreateOptions) : Libze LibzeError := do
  let (ret, _) ← validateNewBe h options.beName
  if ret ≠ .success then
    return ← libzeErrorPrepend ret (format ["Failed to validate new boot environment (",
      options.beName, ")!\n"])
  let (ret, cdata, bootPoolCdata) ← createSources host h options
  if ret ≠ .success then return ret
  let (ret, newDs, newBpoolDs) ← validateNewBe h options.beName
  if ret ≠ .success then
    return ← libzeErrorPrepend ret (format ["Failed to validate new boot environment (",
      options.beName, ")!\n"])
  if (← libzeClone host cdata.sourceDataset cdata.snapSuffix newDs options.recursive) ≠
      .success then
    return .unknown
  let ret ← cloneBootDataset host bootPoolCdata newBpoolDs options.recursive
  if ret ≠ .success then return ret
  postCreate host h options.beName cdata.isSnap

/-! ## The calls of a create -/

/-- Lookups and snapshots. -/
def SourceCall (c : Call) : Prop :=
  IsLookup c ∨ ∃ name recursive, c = .zfs (.snapshot name recursive)

/-- What `libze_create` may call. -/
inductive CreateCall (h : Handle) (be : CStr) : Call → Prop
  | lookup {c : Call} (hc : IsLookup c) : CreateCall h be c
  | snapshot (name : CStr) (recursive : Bool) : CreateCall h be (.zfs (.snapshot name recursive))
  | root {c : Call} (hc : CloneCall (h.beDataset be) c) : CreateCall h be c
  | boot {c : Call} {bp : Bootpool} (hbp : h.bootpool = some bp)
      (hc : CloneCall (bp.beDataset be) c) : CreateCall h be c
  | mount {c : Call} {isSnap : Bool}
      (hc : MountCall (h.beDataset be) (fun dir => .postCreate be dir isSnap) c) :
      CreateCall h be c

section Calls
variable {host : Host} {h : Handle} {options : CreateOptions}

theorem SourceCall.grows {c : Call} (hc : SourceCall c) (s : Sys) : Grows s (c.effect host s) := by
  obtain hc | ⟨name, recursive, rfl⟩ := hc
  · rw [lookup_effect hc]
    exact (SameShape.refl s).grows
  · show Grows s { s with datasets := s.datasets ++ _ }
    rw [Grows, List.map_append]
    exact List.prefix_append _ _

theorem CreateCall.grows {be : CStr} {c : Call} (hc : CreateCall h be c) (s : Sys) :
    Grows s (c.effect host s) := by
  cases hc with
  | lookup hc => exact SourceCall.grows (.inl hc) s
  | snapshot name recursive => exact SourceCall.grows (.inr ⟨name, recursive, rfl⟩) s
  | root hc => exact hc.grows s
  | boot _ hc => exact hc.grows s
  | mount hc => exact (hc.shape s).grows

theorem genSnapSuffix_issues {may : Call → Prop} : Issues host may (genSnapSuffix host) :=
  moves_bind moves_get fun _ => moves_pure _

theorem snapAndDatasetError_issues {may : Call → Prop} (err : LibzeError) (sourceSnap : CStr) :
    Issues host may (snapAndDatasetError err sourceSnap) := issues_errorSet _ _

theorem prepareExistingBootPoolData_issues (sourceSnap sourceBeName : CStr) :
    Issues host IsLookup (prepareExistingBootPoolData host h sourceSnap sourceBeName) := by
  unfold prepareExistingBootPoolData
  split
  refine moves_ite (fun _ => ?_) fun _ => ?_
  · exact moves_bind (snapAndDatasetError_issues _ _) fun _ => moves_pure _
  refine moves_bind (validateExistingBe_issues host h sourceBeName) fun _ => ?_
  refine moves_ite (fun _ => ?_) fun _ => ?_
  · exact moves_bind (issues_errorPrepend _ _) fun _ => moves_pure _
  split
  refine moves_ite (fun _ => ?_) fun _ => ?_
  · exact moves_bind (issues_errorSet _ _) fun _ => moves_pure _
  refine moves_bind moves_get fun _ => moves_ite (fun _ => ?_) fun _ => moves_pure _
  exact moves_bind (issues_errorSet _ _) fun _ => moves_pure _

theorem prepareCreateFromExisting_issues (beSource : CStr) :
    Issues host SourceCall (prepareCreateFromExisting host beSource) := by
  unfold prepareCreateFromExisting
  repeat' first
    | exact moves_pure _
    | exact moves_get
    | exact genSnapSuffix_issues
    | exact issues_errorSet _ _
    | exact issues_call (.inr ⟨_, _, rfl⟩)
    | refine moves_bind ?_ fun _ => ?_
    | split

theorem sourcesFromExisting_issues :
    Issues host SourceCall (sourcesFromExisting host h options) := by
  unfold sourcesFromExisting
  refine moves_bind (prepareCreateFromExisting_issues _) fun _ => ?_
  refine moves_ite (fun _ => moves_pure _) fun _ => ?_
  split
  · exact moves_pure _
  refine moves_bind ((prepareExistingBootPoolData_issues _ _).weaken fun _ => .inl) fun _ => ?_
  refine moves_ite (fun _ => moves_pure _) fun _ => ?_
  refine moves_bind (prepareCreateFromExisting_issues _) fun _ => ?_
  exact moves_ite (fun _ => moves_pure _) fun _ => moves_pure _

theorem sourcesFromBootfs_issues :
    Issues host SourceCall (sourcesFromBootfs host h options) := by
  unfold sourcesFromBootfs
  repeat' first
    | exact moves_pure _
    | exact moves_get
    | exact genSnapSuffix_issues
    | exact issues_errorSet _ _
    | exact issues_call (.inr ⟨_, _, rfl⟩)
    | refine moves_bind ?_ fun _ => ?_
    | split

theorem postCreate_issues (be : CStr) (isSnap : Bool) :
    Issues host (CreateCall h be) (postCreate host h be isSnap) := by
  unfold postCreate
  refine moves_ite (fun _ => moves_pure _) fun _ => ?_
  refine moves_bind_of ((openBootEnvironment_issues host h be).weaken fun _ => .lookup) fun s => ?_
  rcases hopen : openBootEnvironment host h be s with ⟨⟨ret, ds, bds⟩, s1⟩
  refine moves_ite (fun _ => ?_) (fun hret => ?_) s1
  · exact moves_bind (issues_errorPrepend _ _) fun _ => moves_pure _
  · rw [not_not.mp hret] at hopen
    obtain ⟨rfl, rfl, -, -⟩ := openBootEnvironment_success hopen
    exact (hookInMount_issues _ _).weaken fun _ => .mount

theorem cloneBootDataset_issues (be : CStr) (cdata : CreateData) (recursive : Bool) :
    Issues host (CreateCall h be)
      (cloneBootDataset host cdata (h.bpoolDataset be) recursive) := by
  unfold cloneBootDataset
  refine moves_ite (fun _ => moves_pure _) fun hne => ?_
  cases hbp : h.bootpool with
  | none => exact absurd (bpoolDataset_none hbp be) hne
  | some bp =>
    rw [bpoolDataset_some hbp]
    refine moves_bind ((libzeClone_issues _).weaken fun _ => .boot hbp) fun _ => ?_
    refine moves_ite (fun _ => ?_) fun _ => moves_pure _
    exact moves_bind (issues_errorSet _ _) fun _ => moves_pure _

theorem createSources_issues : Issues host SourceCall (createSources host h options) :=
  moves_ite (fun _ => sourcesFromExisting_issues) fun _ => sourcesFromBootfs_issues

theorem libzeCreate_issues :
    Issues host (CreateCall h options.beName) (libzeCreate host h options) := by
  have hsource : ∀ c, SourceCall c → CreateCall h options.beName c := by
    rintro c (hc | ⟨name, recursive, rfl⟩)
    · exact .lookup hc
    · exact .snapshot name recursive
  have hprepend : ∀ (err : LibzeError) (message : CStr),
      Issues host (CreateCall h options.beName) (libzeErrorPrepend err message >>= fun e => pure e) :=
    fun err message => moves_bind (issues_errorPrepend err message) fun _ => moves_pure _
  unfold libzeCreate
  refine moves_bind ((validateNewBe_issues host h _).weaken fun _ => .lookup) fun _ => ?_
  refine moves_ite (fun _ => hprepend _ _) fun _ => ?_
  refine moves_bind (createSources_issues.weaken hsource) fun _ => ?_
  refine moves_ite (fun _ => moves_pure _) fun _ => ?_
  refine moves_bind_of ((validateNewBe_issues host h _).weaken fun _ => .lookup) fun s => ?_
  rcases hnew : validateNewBe h options.beName s with ⟨⟨ret, newDs, newBds⟩, s1⟩
  refine moves_ite (fun _ => hprepend _ _) (fun hret => ?_) s1
  rw [not_not.mp hret] at hnew
  obtain ⟨rfl, rfl, -, -⟩ := validateNewBe_success hnew
  refine moves_bind ((libzeClone_issues _).weaken fun _ => .root) fun _ => ?_
  refine moves_ite (fun _ => moves_pure _) fun _ => ?_
  refine moves_bind (cloneBootDataset_issues _ _ _) fun _ => ?_
  exact moves_ite (fun _ => moves_pure _) fun _ => postCreate_issues _ _

/-- What is new below a snapshot call is a snapshot. -/
theorem isSnapshotName_of_newSnapshots {s : Sys} {name : CStr} {recursive : Bool} {d : Dataset}
    (hd : d ∈ s.newSnapshots name recursive) : isSnapshotName d.name = true := by
  unfold Sys.newSnapshots at hd
  split at hd
  · cases hd
  · obtain ⟨e, -, rfl⟩ := List.mem_map.mp hd
    simp [isSnapshotName]

/-- The sources leave the filesystems alone. -/
theorem SourceCall.names {c : Call} (hc : SourceCall c) (s : Sys) {n : CStr}
    (hn : isSnapshotName n = false) : n ∈ (c.effect host s).names ↔ n ∈ s.names := by
  obtain hc | ⟨name, recursive, rfl⟩ := hc
  · rw [lookup_effect hc]
  · have heffect : ((Call.zfs (.snapshot name recursive)).effect host s).names =
        s.names ++ (s.newSnapshots name recursive).map Dataset.name := by
      rw [Sys.names, Call.effect, ZfsCall.effect, List.map_append]
      rfl
    have hnone : n ∉ (s.newSnapshots name recursive).map Dataset.name := by
      intro hmem
      obtain ⟨d, hd, rfl⟩ := List.mem_map.mp hmem
      rw [isSnapshotName_of_newSnapshots hd] at hn
      cases hn
    rw [heffect, List.mem_append, or_iff_left hnone]

/-- The calls of a run that cloned something to `target`. -/
def ClonedTo (calls : List (Call × Nat)) (target : CStr) : Prop :=
  ∃ snap props, (.zfs (.clone snap target props), 0) ∈ calls

theorem CreateCall.names {be : CStr} {c : Call} (hc : CreateCall h be c) (s : Sys) {n : CStr}
    (hn : isSnapshotName n = false) :
    n ∈ (c.effect host s).names ↔ n ∈ s.names ∨ ClonedTo [(c, 0)] n := by
  have hclone : ∀ b, CloneCall b c → (n ∈ (c.effect host s).names ↔
      n ∈ s.names ∨ ClonedTo [(c, 0)] n) := by
    intro b hb
    cases hb with
    | lookup hc =>
      rw [lookup_effect hc, iff_self_or]
      rintro ⟨snap, props, hmem⟩
      obtain ⟨rfl, -⟩ := Prod.mk.inj (List.mem_singleton.mp hmem)
      exact absurd hc id
    | @clone snap target props _ =>
      have heffect : ((Call.zfs (.clone snap target props)).effect host s).names =
          s.names ++ [target] := by
        rw [Sys.names, Call.effect, ZfsCall.effect, List.map_append]
        rfl
      rw [heffect, List.mem_append, List.mem_singleton]
      refine or_congr_right ⟨?_, ?_⟩
      · rintro rfl
        exact ⟨snap, props, List.mem_singleton_self _⟩
      · rintro ⟨snap', props', hmem⟩
        cases List.mem_singleton.mp hmem
        rfl
  cases hc with
  | lookup hc => exact hclone be (.lookup hc)
  | root hc => exact hclone _ hc
  | boot _ hc => exact hclone _ hc
  | snapshot name recursive =>
    rw [SourceCall.names (.inr ⟨name, recursive, rfl⟩) s hn, iff_self_or]
    rintro ⟨snap, props, hmem⟩
    cases List.mem_singleton.mp hmem
  | mount hc =>
    rw [(hc.shape s).names, iff_self_or]
    rintro ⟨snap, props, hmem⟩
    obtain ⟨rfl, -⟩ := Prod.mk.inj (List.mem_singleton.mp hmem)
    cases hc

/-- A create adds no filesystem but what it clones. -/
theorem libzeCreate_names {r : LibzeError} {s t : Sys} (hr : libzeCreate host h options s = (r, t))
    {n : CStr} (hn : isSnapshotName n = false) :
    n ∈ t.names ↔ n ∈ s.names ∨ ClonedTo (since s t) n := by
  have hall := (@libzeCreate_issues host h options).related
    (fun new s t => n ∈ t.names ↔ n ∈ s.names ∨ ClonedTo new n) ?_ ?_ ?_ ?_ s
  · rwa [hr] at hall
  · intro s log err message
    have hnone : ¬ ClonedTo [] n := by
      rintro ⟨snap, props, hmem⟩
      cases hmem
    exact (or_iff_left hnone).symm
  · intro s c code log hcode
    have hnone : ¬ ClonedTo [(c, code)] n := by
      rintro ⟨snap, props, hmem⟩
      exact hcode (Prod.mk.inj (List.mem_singleton.mp hmem)).2.symm
    exact (or_iff_left hnone).symm
  · exact fun s c log hc => hc.names s hn
  · intro new new' s t u hst htu
    have hsplit : ClonedTo (new' ++ new) n ↔ ClonedTo new' n ∨ ClonedTo new n := by
      simp only [ClonedTo, List.mem_append, exists_or]
    rw [htu, hst, hsplit, or_assoc, or_comm (a := ClonedTo new n)]

/-- The stages of a successful create. -/
theorem libzeCreate_success {s t : Sys} (hr : libzeCreate host h options s = (.success, t)) :
    ∃ s1 s2 s3 s4 s5 cdata bootPoolCdata, SamePools s s1 ∧ Absent h s options.beName ∧
      createSources host h options s1 = ((.success, cdata, bootPoolCdata), s2) ∧
      SamePools s2 s3 ∧
      libzeClone host cdata.sourceDataset cdata.snapSuffix (h.beDataset options.beName)
        options.recursive s3 = (.success, s4) ∧
      cloneBootDataset host bootPoolCdata (h.bpoolDataset options.beName) options.recursive s4 =
        (.success, s5) ∧ Grows s5 t := by
  unfold libzeCreate at hr
  obtain ⟨⟨ret, names⟩, s1, hnew, hr⟩ := bind_run hr
  have hs1 := (validateNewBe_issues host h options.beName).samePools_of hnew
  dsimp only at hr
  split at hr
  · rename_i hret
    cases hr
    exact absurd rfl hret
  rename_i hret
  rw [not_not.mp hret] at hnew
  obtain ⟨-, -, -, habsent⟩ := validateNewBe_success hnew
  obtain ⟨⟨ret, cdata, bootPoolCdata⟩, s2, hsources, hr⟩ := bind_run hr
  dsimp only at hr
  split at hr
  · rename_i hret
    cases hr
    exact absurd rfl hret
  rename_i hret
  rw [not_not.mp hret] at hsources
  obtain ⟨⟨ret, newDs, newBds⟩, s3, hnew', hr⟩ := bind_run hr
  have hs3 := (validateNewBe_issues host h options.beName).samePools_of hnew'
  dsimp only at hr
  split at hr
  · rename_i hret
    cases hr
    exact absurd rfl hret
  rename_i hret
  rw [not_not.mp hret] at hnew'
  obtain ⟨rfl, rfl, -, -⟩ := validateNewBe_success hnew'
  obtain ⟨ret, s4, hclone, hr⟩ := bind_run hr
  split at hr
  · cases hr
  rename_i hret
  rw [not_not.mp hret] at hclone
  obtain ⟨ret, s5, hboot, hr⟩ := bind_run hr
  split at hr
  · rename_i hret
    cases hr
    exact absurd rfl hret
  rename_i hret
  rw [not_not.mp hret] at hboot
  exact ⟨s1, s2, s3, s4, s5, cdata, bootPoolCdata, hs1, habsent, hsources, hs3, hclone, hboot,
    (postCreate_issues _ _).grows (fun s c hc => hc.grows s) hr⟩

end Calls

/-! ## Creating from an existing source -/

section Existing
variable {host : Host} {h : Handle} {options : CreateOptions} {s t : Sys}

/-- Only a name with `@` can be cut. -/
theorem getSnapAndDataset_success {sourceSnap ds suffix : CStr}
    (hr : getSnapAndDataset sourceSnap = (.success, ds, suffix)) : '@' ∈ sourceSnap := by
  unfold getSnapAndDataset at hr
  rcases hcut : libzeUtilCut sourceSnap zfsMaxDatasetNameLen '@' with ⟨code, dataset⟩
  rw [hcut] at hr
  dsimp only at hr
  split at hr
  · cases hr
  rename_i hcode
  rw [not_not.mp hcode] at hcut
  obtain ⟨_, after, rfl, _⟩ := libzeUtilCut_eq_ok_iff.mp hcut
  simp

/-- For a snapshot nothing is changed. -/
theorem prepareCreateFromExisting_snapshot {beSource : CStr} {r : LibzeError × CreateData}
    (hsnap : '@' ∈ beSource) (hr : prepareCreateFromExisting host beSource s = (r, t)) :
    SamePools s t := by
  unfold prepareCreateFromExisting at hr
  rw [if_pos hsnap, run_get_bind] at hr
  split at hr
  · cases hr
    exact ⟨rfl, rfl, rfl⟩
  rcases hcut : getSnapAndDataset beSource with ⟨ret, ds, suffix⟩
  rw [hcut] at hr
  dsimp only at hr
  split at hr
  · cases hr
    exact ⟨rfl, rfl, rfl⟩
  · cases hr
    exact .refl s

/-- The boot pool's part of `-e` asks for the new environment to exist already. -/
theorem prepareExistingBootPoolData_success {sourceSnap be suffix : CStr}
    (hr : prepareExistingBootPoolData host h sourceSnap be s = ((.success, suffix), t)) :
    '@' ∈ sourceSnap ∧ Exists h s be := by
  unfold prepareExistingBootPoolData at hr
  rcases hcut : getSnapAndDataset sourceSnap with ⟨ret, ds, suffix'⟩
  rw [hcut] at hr
  dsimp only at hr
  split at hr
  · rename_i hret
    obtain ⟨e, s1, he, hr⟩ := bind_run hr
    cases he
    cases hr
    exact absurd rfl hret
  rename_i hret
  rw [not_not.mp hret] at hcut
  obtain ⟨⟨ret, ds, bds⟩, s1, hval, hr⟩ := bind_run hr
  dsimp only at hr
  split at hr
  · rename_i hret
    obtain ⟨e, s2, he, hr⟩ := bind_run hr
    cases he
    cases hr
    exact absurd rfl hret
  rename_i hret
  rw [not_not.mp hret] at hval
  obtain ⟨-, -, -, hexist⟩ := validateExistingBe_success hval
  exact ⟨getSnapAndDataset_success hcut, hexist⟩

/-- With a boot pool `-e` finds no sources for a name that is free. -/
theorem sourcesFromExisting_ne_success {bp : Bootpool} {cdata bootPoolCdata : CreateData}
    (hbp : h.bootpool = some bp) (habsent : Absent h s options.beName) :
    sourcesFromExisting host h options s ≠ ((.success, cdata, bootPoolCdata), t) := by
  intro hr
  rw [sourcesFromExisting] at hr
  obtain ⟨⟨ret, cdata'⟩, u, hroot, hr⟩ := bind_run hr
  dsimp only at hr
  split at hr
  · rename_i hne
    cases hr
    exact hne rfl
  rw [hbp] at hr
  dsimp only at hr
  obtain ⟨⟨ret, suffix⟩, v, hboot, hr⟩ := bind_run hr
  dsimp only at hr
  split at hr
  · rename_i hne
    cases hr
    exact hne rfl
  rename_i hne
  rw [not_not.mp hne] at hboot
  obtain ⟨hsnap, hexist⟩ := prepareExistingBootPoolData_success hboot
  have hthere := (hexist.of_same (prepareCreateFromExisting_snapshot hsnap hroot)).root
  rw [habsent.root] at hthere
  cases hthere

/-- With a boot pool `libze_create -e` never succeeds. -/
theorem libzeCreate_existing_ne_success {bp : Bootpool} (hbp : h.bootpool = some bp)
    (hexisting : options.existing = true) : (libzeCreate host h options s).1 ≠ .success := by
  intro hret
  obtain ⟨s1, s2, s3, s4, s5, cdata, bootPoolCdata, hs1, habsent, hsources, -⟩ :=
    libzeCreate_success (run_eq_of_fst hret)
  rw [createSources, if_pos hexisting] at hsources
  exact sourcesFromExisting_ne_success hbp (habsent.of_same hs1) hsources

end Existing

end Zectl.Libze.Create
