import Zectl.Libze.Create

/-!
# Taking a snapshot

`libze_snapshot` parses its argument on two branches, runs the hook of the plugin, and takes
a recursive snapshot on the root pool and, with a boot pool, one on the boot pool.
-/

namespace Zectl.Libze.Snapshot

open Zectl.Lib.StateRun Zectl.Lib.PathOrder Zectl.Util.CString Zectl.Zfs.System Zectl.Zfs.Steps
open Zectl.Libze.Init Zectl.Libze.Validate Zectl.Libze.Create Zectl.Libze.Sample

/-- The environment and the suffix that the argument of `libze_snapshot` stands for, unless
the caller has to return at once. Without an `@` the error of an argument that is too long is
the success that `ret` still holds. -/
def parseSnapshot (host : Host) (bootEnvironment : CStr) :
    Libze (Except LibzeError (CStr × CStr)) := do
  if '@' ∈ bootEnvironment then
    let (code, bootEnvironmentBuf, snapSuffix) :=
      libzeUtilSplit bootEnvironment zfsMaxDatasetNameLen '@'
    if code ≠ 0 then
      return .error (← libzeErrorPrepend .minusOne (format ["Failed parsing snapshot (",
        bootEnvironment, ").\n"]))
    return .ok (bootEnvironmentBuf, snapSuffix)
  let (len, bootEnvironmentBuf) := strlcpy bootEnvironment zfsMaxDatasetNameLen
  if zfsMaxDatasetNameLen ≤ len then
    return .error (← libzeErrorPrepend .success (format ["Failed parsing dataset (",
      bootEnvironment, ").\n"]))
  return .ok (bootEnvironmentBuf, ← genSnapSuffix host)

/-- The name of the snapshot on the boot pool, when there is one. -/
def snapBpoolName (h : Handle) (beBpoolDs snapSuffix : CStr) : Int × CStr :=
  match h.bootpool with
  | none => (0, [])
  | some _ => libzeUtilConcat beBpoolDs "@" snapSuffix zfsMaxDatasetNameLen

def preSnapshotHook (host : Host) (h : Handle) (bootEnvironmentBuf beDs : CStr) : Libze Nat := do
  if ¬ h.lzFuncs then return 0
  call host (.hook (.preSnapshot bootEnvironmentBuf (libzeIsRootBe h beDs)))

/-- The hook and the snapshots of `libze_snapshot`. -/
def takeSnapshots (host : Host) (h : Handle) (bootEnvironmentBuf beDs beBpoolDs snapBuf
    snapBpoolBuf : CStr) : Libze LibzeError := do
  let ret ← preSnapshotHook host h bootEnvironmentBuf beDs
  if ret ≠ 0 then return .ofCode ret
  if (← call host (.zfs (.snapshot snapBuf true))) ≠ 0 then
    return ← libzeErrorSet .unknown (format ["Failed to take snapshot (", snapBuf, ").\n"])
  if beBpoolDs.length > 0 then
    if (← call host (.zfs (.snapshot snapBpoolBuf true))) ≠ 0 then
      return ← libzeErrorSet .unknown (format ["Failed to take snapshot (", snapBpoolBuf, ").\n"])
  return .success

/-- `libze_snapshot` -/
def libzeSnapshot (host : Host) (h : Handle) (bootEnvironment : CStr) : Libze LibzeError := do
  match ← parseSnapshot host bootEnvironment with
  | .error ret => return ret
  | .ok (bootEnvironmentBuf, snapSuffix) =>
    let (ret, beDs, beBpoolDs) ← validateExistingBe host h bootEnvironmentBuf
    if ret ≠ .success then
      return ← libzeErrorPrepend ret (format ["Failed validating boot environment (",
        bootEnvironmentBuf, ") for snapshot.\n"])
    let (code, snapBuf) := libzeUtilConcat beDs "@" snapSuffix zfsMaxDatasetNameLen
    if code ≠ 0 then
      return ← libzeErrorSet .maxpathlen (format ["Requested snapshot (", beDs, "@", snapSuffix,
        ") exceeds max length (8).\n"])
    let (code, snapBpoolBuf) := snapBpoolName h beBpoolDs snapSuffix
    if code ≠ 0 then
      return ← libzeErrorSet .maxpathlen (format ["Snapshot (", beBpoolDs, "@", snapSuffix,
        ") for bootpool exceeds max length (256).\n"])
    takeSnapshots host h bootEnvironmentBuf beDs beBpoolDs snapBuf snapBpoolBuf

/-! ## What a success stands for -/

/-- The environment and the suffix an argument names. -/
def snapshotParts (host : Host) (bootEnvironment : CStr) (s : Sys) : CStr × CStr :=
  match splitLast '@' bootEnvironment with
  | some parts => parts
  | none => (bootEnvironment, (host.now s).text)

/-- A recursive snapshot of a dataset was taken between two states: the call succeeded, and
the dataset and all filesystems below it have the snapshot. -/
structure Taken (dataset suffix : CStr) (s t : Sys) : Prop where
  call : (.zfs (.snapshot (dataset ++ '@' :: suffix) true), 0) ∈ since s t
  names : ∀ n ∈ s.names, isSnapshotName n = false → AtOrBelow dataset n →
    n ++ '@' :: suffix ∈ t.names

/-- The snapshots that a successful `libze_snapshot` promises. -/
structure Restorable (host : Host) (h : Handle) (bootEnvironment : CStr) (s t : Sys) : Prop where
  root : Taken (h.beDataset (snapshotParts host bootEnvironment s).1)
    (snapshotParts host bootEnvironment s).2 s t
  boot : ∀ bp, h.bootpool = some bp → Taken (bp.beDataset (snapshotParts host bootEnvironment s).1)
    (snapshotParts host bootEnvironment s).2 s t

section Run
variable {host : Host} {h : Handle} {bootEnvironment be suffix : CStr} {s t : Sys}

theorem parseSnapshot_ok (hr : parseSnapshot host bootEnvironment s = (.ok (be, suffix), t)) :
    t = s ∧ snapshotParts host bootEnvironment s = (be, suffix) ∧ '@' ∉ suffix := by
  unfold parseSnapshot at hr
  split at hr
  · rcases hsplit : libzeUtilSplit bootEnvironment zfsMaxDatasetNameLen '@' with ⟨code, a, b⟩
    rw [hsplit] at hr
    dsimp only at hr
    split at hr
    · cases hr
    rename_i hcode
    cases hr
    have hparts := libzeUtilSplit_ok hsplit hcode
    refine ⟨rfl, ?_, (eq_append_of_splitLast hparts).2⟩
    rw [snapshotParts, hparts]
  · rename_i hat
    dsimp only [strlcpy] at hr
    split at hr
    · cases hr
    rename_i hlen
    rw [take_of_fits (Nat.not_le.mp hlen)] at hr
    cases hr
    refine ⟨rfl, ?_, ?_⟩
    · rw [snapshotParts, splitLast_eq_none.mpr hat]
    · intro hmem
      obtain hdigit | heq | heq := (host.now s).chars '@' hmem
      · exact absurd hdigit (by decide)
      · exact absurd heq (by decide)
      · exact absurd heq (by decide)

theorem fits_of_parseSnapshot {parts : CStr × CStr}
    (hr : parseSnapshot host bootEnvironment s = (.ok parts, t)) :
    '@' ∈ bootEnvironment ∨ bootEnvironment.length < zfsMaxDatasetNameLen := by
  unfold parseSnapshot at hr
  split at hr
  · exact .inl ‹_›
  · dsimp only [strlcpy] at hr
    split at hr
    · cases hr
    · exact .inr (Nat.not_le.mp ‹_›)

theorem parseSnapshot_error {ret : LibzeError}
    (hr : parseSnapshot host bootEnvironment s = (.error ret, t)) :
    t.trace = s.trace ∧ (ret = .success ↔
      ¬ ('@' ∈ bootEnvironment ∨ bootEnvironment.length < zfsMaxDatasetNameLen)) := by
  unfold parseSnapshot at hr
  split at hr
  · rename_i hat
    rcases hsplit : libzeUtilSplit bootEnvironment zfsMaxDatasetNameLen '@' with ⟨code, a, b⟩
    rw [hsplit] at hr
    dsimp only at hr
    split at hr
    · cases hr
      exact ⟨rfl, by simp [LibzeError.minusOne, hat]⟩
    · cases hr
  · rename_i hat
    dsimp only [strlcpy] at hr
    split at hr
    · rename_i hlen
      cases hr
      exact ⟨rfl, by simp [hat, hlen]⟩
    · cases hr

/-- What a granted snapshot call leaves, seen from an earlier and a later state. -/
theorem taken_of_call {dataset : CStr} {u v : Sys} (hsuffix : '@' ∉ suffix)
    (hcall : call host (.zfs (.snapshot (dataset ++ '@' :: suffix) true)) u = (0, v))
    (hnames : ∀ n ∈ s.names, n ∈ u.names) (htrace : s.trace <:+ u.trace)
    (hkeep : ∀ n ∈ v.names, n ∈ t.names) (hlater : v.trace <:+ t.trace) :
    Taken dataset suffix s t := by
  refine ⟨mem_since htrace hcall hlater, fun n hn hfs hbelow => ?_⟩
  apply hkeep
  obtain ⟨-, rfl⟩ := call_done hcall
  obtain ⟨d, hd, rfl⟩ := List.mem_map.mp (hnames n hn)
  show _ ∈ (u.datasets ++ u.newSnapshots (dataset ++ '@' :: suffix) true).map Dataset.name
  rw [List.map_append, List.mem_append]
  right
  rw [Sys.newSnapshots, splitLast_append hsuffix]
  apply List.mem_map.mpr
  refine ⟨{ name := d.name ++ '@' :: suffix }, List.mem_map.mpr ⟨d, ?_, rfl⟩, rfl⟩
  exact List.mem_filter.mpr ⟨hd, by simp [hfs, hbelow]⟩

theorem names_of_snapshot {name : CStr} {code : Nat}
    (hcall : call host (.zfs (.snapshot name true)) s = (code, t)) {n : CStr} (hn : n ∈ s.names) :
    n ∈ t.names := by
  by_cases hcode : code = 0
  · subst hcode
    obtain ⟨-, rfl⟩ := call_done hcall
    show n ∈ (s.datasets ++ s.newSnapshots name true).map Dataset.name
    rw [List.map_append]
    exact List.mem_append_left _ hn
  · rwa [(samePools_of_refused hcall hcode).names]

theorem samePools_of_hook {hook : Hook} {code : Nat} (hcall : call host (.hook hook) s = (code, t)) :
    SamePools s t := by
  by_cases hcode : code = 0
  · subst hcode
    obtain ⟨-, rfl⟩ := call_done hcall
    exact ⟨rfl, rfl, rfl⟩
  · exact samePools_of_refused hcall hcode

theorem preSnapshotHook_run {beDs : CStr} {code : Nat}
    (hr : preSnapshotHook host h be beDs s = (code, t)) : SamePools s t ∧ s.trace <:+ t.trace := by
  unfold preSnapshotHook at hr
  split at hr
  · cases hr
    exact ⟨.refl _, List.suffix_refl _⟩
  · exact ⟨samePools_of_hook hr, call_suffix hr⟩

theorem takeSnapshots_success {beDs beBpoolDs snapBpoolBuf : CStr} {s' : Sys} (hsuffix : '@' ∉ suffix)
    (hnames : ∀ n ∈ s.names, n ∈ s'.names) (htrace : s.trace <:+ s'.trace)
    (hbuf : beBpoolDs ≠ [] → snapBpoolBuf = beBpoolDs ++ '@' :: suffix)
    (hr : takeSnapshots host h be beDs beBpoolDs (beDs ++ '@' :: suffix) snapBpoolBuf s' =
      (.success, t)) :
    Taken beDs suffix s t ∧ (beBpoolDs ≠ [] → Taken beBpoolDs suffix s t) := by
  unfold takeSnapshots at hr
  obtain ⟨code, s1, hhook, hr⟩ := bind_run hr
  obtain ⟨hsame, hsuffix1⟩ := preSnapshotHook_run hhook
  have hnames1 : ∀ n ∈ s.names, n ∈ s1.names := fun n hn => hsame.names ▸ hnames n hn
  have htrace1 : s.trace <:+ s1.trace := htrace.trans hsuffix1
  split at hr
  · rename_i hcode
    exact absurd (Prod.mk.inj hr).1 (ofCode_ne_success hcode)
  obtain ⟨code1, s2, hcall1, hr⟩ := bind_run hr
  split at hr
  · cases hr
  rename_i hcode1
  rw [not_not.mp hcode1] at hcall1
  split at hr
  · rename_i hlen
    rw [hbuf (List.length_pos_iff.mp hlen)] at hr
    obtain ⟨code2, s3, hcall2, hr⟩ := bind_run hr
    split at hr
    · cases hr
    rename_i hcode2
    rw [not_not.mp hcode2] at hcall2
    cases hr
    have hnames2 : ∀ n ∈ s.names, n ∈ s2.names := fun n hn =>
      names_of_snapshot hcall1 (hnames1 n hn)
    have htrace2 : s.trace <:+ s2.trace := htrace1.trans (call_suffix hcall1)
    constructor
    · exact taken_of_call hsuffix hcall1 hnames1 htrace1 (fun n hn => names_of_snapshot hcall2 hn)
        (call_suffix hcall2)
    · intro _
      exact taken_of_call hsuffix hcall2 hnames2 htrace2 (fun n hn => hn) (List.suffix_refl _)
  · rename_i hlen
    cases hr
    constructor
    · exact taken_of_call hsuffix hcall1 hnames1 htrace1 (fun n hn => hn) (List.suffix_refl _)
    · intro hne
      exact absurd (List.length_pos_iff.mpr hne) hlen

/-- Behind the parse, success is what it says. -/
theorem restorable_of_parse {u : Sys}
    (hparse : parseSnapshot host bootEnvironment s = (.ok (be, suffix), u))
    (hr : libzeSnapshot host h bootEnvironment s = (.success, t)) :
    Restorable host h bootEnvironment s t := by
  obtain ⟨hu, hparts, hat⟩ := parseSnapshot_ok hparse
  rw [hu] at hparse
  unfold libzeSnapshot at hr
  rw [run_bind, hparse] at hr
  obtain ⟨⟨ret, beDs, beBpoolDs⟩, s1, hval, hr⟩ := bind_run hr
  have hlooked := (validateExistingBe_issues host h be).looked hval
  dsimp only at hr
  split at hr
  · rename_i hret
    cases hr
    exact absurd rfl hret
  rename_i hret
  rw [not_not.mp hret] at hval
  obtain ⟨rfl, rfl, -, -⟩ := validateExistingBe_success hval
  rcases hcat : libzeUtilConcat (h.beDataset be) "@" suffix zfsMaxDatasetNameLen with ⟨code, snapBuf⟩
  rw [hcat] at hr
  dsimp only at hr
  split at hr
  · cases hr
  rename_i hcode
  rw [not_not.mp hcode] at hcat
  obtain ⟨-, rfl⟩ := (libzeUtilConcat_eq_ok_iff nameLen_pos).mp hcat
  rcases hcat' : snapBpoolName h (h.bpoolDataset be) suffix with ⟨code', snapBpoolBuf⟩
  rw [hcat'] at hr
  dsimp only at hr
  split at hr
  · cases hr
  rename_i hcode'
  rw [not_not.mp hcode'] at hcat'
  have hcons : ∀ ds : CStr, ds ++ ("@" : CStr) ++ suffix = ds ++ '@' :: suffix := fun ds => by
    rw [List.append_assoc]
    rfl
  have hbuf : h.bpoolDataset be ≠ [] → snapBpoolBuf = h.bpoolDataset be ++ '@' :: suffix := by
    intro hne
    cases hbp : h.bootpool with
    | none => exact absurd (bpoolDataset_none hbp be) hne
    | some bp =>
      rw [snapBpoolName, hbp] at hcat'
      exact ((libzeUtilConcat_eq_ok_iff nameLen_pos).mp hcat').2.trans (hcons _)
  rw [hcons] at hr
  have hnames : ∀ n ∈ s.names, n ∈ s1.names := fun n hn => hlooked.same.names ▸ hn
  obtain ⟨htaken, htakenBoot⟩ := takeSnapshots_success hat hnames hlooked.suffix hbuf hr
  constructor
  · rw [hparts]
    exact htaken
  · intro bp hbp
    rw [bpoolDataset_some hbp] at htakenBoot
    rw [hparts]
    exact htakenBoot (bootBeDataset_ne_nil bp be)

end Run

/-- A success is what it says exactly when the argument has an `@` or fits into a dataset name. -/
theorem restorable_iff (host : Host) (h : Handle) (bootEnvironment : CStr) (s : Sys) :
    ((libzeSnapshot host h bootEnvironment s).1 = .success →
      Restorable host h bootEnvironment s (libzeSnapshot host h bootEnvironment s).2) ↔
      '@' ∈ bootEnvironment ∨ bootEnvironment.length < zfsMaxDatasetNameLen := by
  rcases hparse : parseSnapshot host bootEnvironment s with ⟨ret | ⟨be, suffix⟩, u⟩
  · have hrun : libzeSnapshot host h bootEnvironment s = (ret, u) := by
      rw [libzeSnapshot, run_bind, hparse]
      rfl
    obtain ⟨htrace, hret⟩ := parseSnapshot_error hparse
    have hnone : ¬ Restorable host h bootEnvironment s u := by
      intro hrestorable
      have hmem := hrestorable.root.call
      rw [since, htrace, Nat.sub_self] at hmem
      simp at hmem
    rw [hrun]
    constructor
    · intro hall
      by_contra hcond
      exact hnone (hall (hret.mpr hcond))
    · intro hcond hsuccess
      exact absurd hcond (hret.mp hsuccess)
  · constructor
    · intro _
      exact fits_of_parseSnapshot hparse
    · intro _ hsuccess
      exact restorable_of_parse hparse (run_eq_of_fst hsuccess)

/-- A name of 256 characters, which no dataset has. -/
def overlongName : CStr := List.replicate 256 'n'

/-- The error of the copy is prepended to a `ret` that is still success. -/
theorem not_restorable_when_overlong :
    ¬ ∀ (host : Host) (h : Handle) (bootEnvironment : CStr) (s : Sys),
      (libzeSnapshot host h bootEnvironment s).1 = .success →
      Restorable host h bootEnvironment s (libzeSnapshot host h bootEnvironment s).2 := by
  intro hall
  have hrestorable := hall allowing (sampleHandle none true) overlongName (sampleSys [])
    (by decide +kernel)
  have hmem := hrestorable.root.call
  have hempty : since (sampleSys [])
      (libzeSnapshot allowing (sampleHandle none true) overlongName (sampleSys [])).2 = [] := by
    decide +kernel
  rw [hempty] at hmem
  exact absurd hmem (List.not_mem_nil)

end Zectl.Libze.Snapshot
