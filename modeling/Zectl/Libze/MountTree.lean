import Zectl.Lib.MountTable
import Zectl.Libze.Mount
import Zectl.Libze.Unmount

/-!
# Mounting a boot environment with its children

`libze_mount` mounts the dataset of an environment on a directory and every dataset below it
on its own mount point under that directory, parents before children, then the dataset on
the boot pool on `boot`. What is mounted where follows from the mount point properties.
-/

namespace Zectl.Libze.MountTree

open Zectl.Lib.StateRun Zectl.Lib.Visit Zectl.Lib.PathOrder Zectl.Lib.Preorder
open Zectl.Util.CString Zectl.Zfs.System Zectl.Zfs.Steps Zectl.Zfs.Forest Zectl.Libze.Init
open Zectl.Libze.Validate Zectl.Libze.Mount

/-- `directory_create_if_nonexistent` -/
def directoryCreateIfNonexistent (host : Host) (path : CStr) : Libze Nat := do
  if (← call host (.file (.opendir path))) = 0 then
    return ← call host (.file (.closedir path))
  call host (.file (.mkdir path))

/-- What `mount_callback` does for the dataset itself. -/
def mountDataset (host : Host) (mountpoint dataset : CStr) : Libze Int := do
  let (r, propBuf) ← zfsPropGet host dataset .mountpoint
  if r ≠ 0 then
    let _ ← libzeErrorSet .unknown (format ["Failed to get mountpoint for ", dataset, "\n."])
    return -1
  if propBuf = ("none" : CStr) ∨ propBuf = ("legacy" : CStr) then return 0
  let (code, mountpointBuf) := libzeUtilConcat mountpoint "" propBuf libzeMaxPathLen
  if code ≠ 0 then
    let _ ← libzeErrorSet .maxpathlen "Exceeded max path length for mount\n."
    return -1
  if (← get).isMounted dataset then
    let _ ← libzeErrorSet .zfsOpen (format ["Dataset ", dataset, " is already mounted\n"])
    return -1
  if (← directoryCreateIfNonexistent host mountpointBuf) ≠ 0 then
    let _ ← libzeErrorSet .maxpathlen (format ["Failed to create mountpoint ", mountpointBuf,
      " for ", dataset, ", or a file existed there\n."])
    return -1
  if (← call host (.zfs (.temporaryMount dataset mountpointBuf))) ≠ 0 then
    let _ ← libzeErrorSet .unknown (format ["Failed to mount ", dataset, " to ", mountpointBuf,
      ".\n"])
    return -1
  return 0

/-- `mount_callback`, to a bounded depth. -/
def mountCallback (host : Host) (mountpoint : CStr) : Nat → CStr → Libze Int
  | 0, _ => return -1
  | depth + 1, dataset => do
    let r ← mountDataset host mountpoint dataset
    if r ≠ 0 then return r
    visit (fun _ _ => true) (mountCallback host mountpoint depth) (childFilesystems (← get) dataset)

/-- The boot pool part of `libze_mount`. -/
def mountBootDataset (host : Host) (be realMountpoint beBpoolDs : CStr) : Libze LibzeError := do
  if beBpoolDs = [] then return .success
  let (r, propBuf) ← zfsPropGet host beBpoolDs .mountpoint
  if r ≠ 0 then
    return ← libzeErrorSet .libzfs (format [
      "Failed to get the mountpoint for the requested boot dataset (", beBpoolDs, ").\n"])
  if propBuf ≠ ("legacy" : CStr) then
    return ← libzeErrorSet .unknown (format ["Mounting a boot dataset which is not set to ",
      "'legacy' is currently not supported.\n"])
  let (code, mountDirectoryBoot) := libzeUtilConcat realMountpoint "/" "boot" libzeMaxPathLen
  if code ≠ 0 then
    return ← libzeErrorSet .maxpathlen (format ["Path to the boot directory (", realMountpoint,
      "/boot) for the requested bootdataset (", be, ") is too long (255).\n"])
  if (← directoryCreateIfNonexistent host mountDirectoryBoot) ≠ 0 then
    return ← libzeErrorSet .unknown (format ["Failed to create mountpoint (", mountDirectoryBoot,
      ") for (", beBpoolDs, "), or a file existed there.\n."])
  if (← call host (.zfs (.temporaryMount beBpoolDs mountDirectoryBoot))) ≠ 0 then
    return ← libzeErrorSet .unknown (format ["Failed to mount the boot directory (",
      mountDirectoryBoot, ") for the requested boot dataset (", be, ") in legacy mode.\n."])
  return .success

/-- The directory `libze_mount` mounts on: the one it is given or a new one. -/
def realMountpoint (host : Host) (template : CStr) : Option CStr → Libze (Option CStr)
  | some mountpoint => return some mountpoint
  | none => do
    let (dir, _) ← mkdtemp host template
    if dir = [] then return none
    return some dir

/-- A directory that was made for the mount is removed again. -/
def discardDirectory (host : Host) (mountpoint : Option CStr) (real : CStr) : Libze Nat :=
  if mountpoint = none then call host (.file (.rmdir real)) else return 0

/-- `libze_mount` with the mount point it writes back. -/
def libzeMount (host : Host) (h : Handle) (be : CStr) (mountpoint : Option CStr) :
    Libze (LibzeError × CStr) := do
  let (ret, beDs, beBpoolDs) ← openBootEnvironment host h be
  if ret ≠ .success then
    return (← libzeErrorPrepend ret (format ["Failed to open boot environment (", be,
      ") for mount!\n"]), [])
  if libzeIsRootBe h beDs then
    return (← libzeErrorSet .unknown (format [
      "Can't mount the currently running boot environment (", be, ").\n"]), [])
  if (← get).isMounted beDs then
    return (← libzeErrorSet .zfsOpen (format ["The dataset of the boot environment (", be,
      ") is already mounted.\n"]), [])
  let (code, template) := libzeUtilConcat "/tmp/ze." be ".XXXXXX" zfsMaxDatasetNameLen
  if code ≠ 0 then
    return (← libzeErrorSet .unknown "Could not create directory template\n", [])
  let dir ← realMountpoint host template mountpoint
  match dir with
  | none =>
    return (← libzeErrorSet .unknown (format ["Could not create tmp directory ", template,
      "\n"]), [])
  | some real =>
    if libzeMaxPathLen ≤ real.length then
      return (← libzeErrorSet .maxpathlen "Mountpoint exceeds max length\n",
        real.take (libzeMaxPathLen - 1))
    if (← call host (.zfs (.temporaryMount beDs real))) ≠ 0 then
      let _ ← discardDirectory host mountpoint real
      return (← libzeErrorSet .unknown (format ["Failed to mount ", be, " to ", real, ".\n"]), real)
    let s ← get
    let r ← visit (fun _ _ => true) (mountCallback host real (recursionDepth s))
      (childFilesystems s beDs)
    if r ≠ 0 then return ((← get).libzeError, real)
    let ret ← mountBootDataset host be real beBpoolDs
    return (ret, real)

/-! ## What is mounted where -/

/-- The mount table of the datasets. -/
def mountOf (s : Sys) (n : CStr) : Option CStr := (s.find n).bind Dataset.mountedAt

/-- Two states that differ only in what is mounted. -/
def SameProps (s t : Sys) : Prop :=
  t.datasets.map (fun d => { d with mountedAt := none }) =
    s.datasets.map fun d => { d with mountedAt := none }

/-- The mount point of a dataset below the environment's, unless it is `none` or `legacy`. -/
def childMount (host : Host) (s : Sys) (mountpoint n : CStr) : Option CStr :=
  match s.propValue host n .mountpoint with
  | some (value, _) =>
    if value = ("none" : CStr) ∨ value = ("legacy" : CStr) then none else some (mountpoint ++ value)
  | none => none

section Props
variable {host : Host} {s t u : Sys} {n : CStr}

theorem SameProps.refl (s : Sys) : SameProps s s := rfl

theorem SameProps.trans (hst : SameProps s t) (htu : SameProps t u) : SameProps s u :=
  Eq.trans htu hst

theorem SameProps.of_samePools (h : SamePools s t) : SameProps s t := by
  rw [SameProps, h.datasets]

theorem SameProps.shape (h : SameProps s t) : SameShape s t := by
  have hmap := congrArg (List.map fun d : Dataset => (d.name, d.origin)) h
  simpa [SameShape, List.map_map, Function.comp_def] using hmap

theorem SameProps.find (h : SameProps s t) (n : CStr) :
    (t.find n).map (fun d => { d with mountedAt := none }) =
      (s.find n).map fun d => { d with mountedAt := none } := by
  have hfind : ∀ l : List Dataset, (l.find? fun d => d.name = n).map
      (fun d => { d with mountedAt := none }) =
        (l.map fun d => { d with mountedAt := none }).find? fun d => d.name = n := by
    intro l
    rw [List.find?_map]
    rfl
  rw [Sys.find, Sys.find, hfind, hfind, h]

theorem mapDataset_sameProps {f : Dataset → Dataset}
    (hf : ∀ d, { f d with mountedAt := none } = { d with mountedAt := none }) :
    SameProps s (s.mapDataset n f) := by
  simp only [SameProps, Sys.mapDataset, List.map_map]
  apply List.map_congr_left
  intro d _
  simp only [Function.comp_apply]
  split
  · exact hf d
  · rfl

theorem mountOf_of_find {d : Dataset} {path : Option CStr} (hfind : s.find n = some d) (m : CStr) :
    mountOf (s.mapDataset n fun d => { d with mountedAt := path }) m =
      if m = n then path else mountOf s m := by
  have hname : ∀ {k e}, s.find k = some e → e.name = k := fun he => by
    simpa using List.find?_some he
  have hf : ∀ d : Dataset, ({ d with mountedAt := path } : Dataset).name = d.name := fun _ => rfl
  rw [mountOf, find_mapDataset hf]
  by_cases hm : m = n
  · rw [hm, hfind, Option.map_some, if_pos (hname hfind), if_pos rfl]
    rfl
  · rw [if_neg hm, mountOf]
    cases hm' : s.find m with
    | none => rfl
    | some e => rw [Option.map_some, if_neg (hname hm' ▸ hm)]

end Props

/-- Looking succeeds, and inheriting does not depend on what is mounted. -/
structure LookupRules (host : Host) : Prop where
  lookups : ∀ s c, IsLookup c → host.answer s c = 0
  inherited : ∀ s t, SameProps s t → host.inherited s = host.inherited t

section Lookups
variable {host : Host} {h : Handle} {be : CStr} {s t : Sys} {n : CStr}

theorem SameProps.propValue (hrules : LookupRules host) (hst : SameProps s t) (n : CStr)
    (prop : ZfsProp) : t.propValue host n prop = s.propValue host n prop := by
  have hfind := hst.find n
  rw [Sys.propValue, Sys.propValue, hrules.inherited s t hst]
  cases hs : s.find n with
  | none =>
    rw [hs] at hfind
    rw [Option.map_eq_none_iff.mp hfind]
  | some d =>
    rw [hs, Option.map_some] at hfind
    obtain ⟨e, ht, heq⟩ := Option.map_eq_some_iff.mp hfind
    obtain ⟨-, horigin, -, hprops⟩ := Dataset.mk.inj heq
    rw [ht]
    simp only [Dataset.entry, horigin, hprops]

theorem agree_call (hrules : LookupRules host) {c : Call} (hc : IsLookup c) :
    Agree SameProps (call host c) (call host c) := by
  intro s t hst
  have hs := hrules.lookups s c hc
  have ht := hrules.lookups t c hc
  rw [call_granted hs, call_granted ht, lookup_effect hc, lookup_effect hc]
  exact ⟨rfl, hst⟩

theorem agree_errorSet (err : LibzeError) (message : CStr) :
    Agree SameProps (libzeErrorSet err message) (libzeErrorSet err message) :=
  fun _ _ hst => ⟨rfl, hst⟩

theorem agree_zfsOpen (hrules : LookupRules host) (n : CStr) (type : ZfsType) :
    Agree SameProps (zfsOpen host n type) (zfsOpen host n type) := by
  apply agree_get_bind
  intro s t hst
  apply agree_ite
  · simp only [Sys.datasetExists, hst.shape.names]
  · exact agree_call hrules trivial
  · exact agree_pure 1

theorem agree_zfsPropGet (hrules : LookupRules host) (n : CStr) (prop : ZfsProp) :
    Agree SameProps (zfsPropGet host n prop) (zfsPropGet host n prop) := by
  have hcall : Agree SameProps (call host (.zfs (.propGet n prop))) _ := agree_call hrules trivial
  apply agree_bind hcall
  intro r
  apply agree_ite Iff.rfl (agree_pure _)
  apply agree_get_bind
  intro s t hst
  rw [hst.propValue hrules]
  split
  · exact agree_pure _
  · exact agree_pure _

theorem agree_fail {α : Type} (err : LibzeError) (message : CStr) (mk : LibzeError → α) :
    Agree SameProps (do return mk (← libzeErrorSet err message))
      (do return mk (← libzeErrorSet err message) : Libze α) :=
  agree_bind (agree_errorSet _ _) fun _ => agree_pure _

theorem agree_datasetExists {α : Type} {x y : Libze α} (n : CStr) (hx : Agree SameProps x x)
    (hy : Agree SameProps y y) :
    Agree SameProps (do if ¬ (← get).datasetExists n .filesystem then x else y)
      (do if ¬ (← get).datasetExists n .filesystem then x else y) := by
  apply agree_get_bind
  intro s t hst
  apply agree_ite _ hx hy
  simp only [Sys.datasetExists, hst.shape.names]

theorem agree_validateExistingBe (hrules : LookupRules host) :
    Agree SameProps (validateExistingBe host h be) (validateExistingBe host h be) := by
  unfold validateExistingBe
  rcases libzeUtilConcat h.envRoot "/" be zfsMaxDatasetNameLen with ⟨code, beDs⟩
  apply agree_ite Iff.rfl (agree_fail _ _ _)
  apply agree_datasetExists _ (agree_fail _ _ _)
  apply agree_bind (agree_zfsOpen hrules _ _)
  intro opened
  apply agree_ite Iff.rfl (agree_fail _ _ _)
  apply agree_bind (agree_zfsPropGet hrules _ _)
  rintro ⟨r, propBuf⟩
  apply agree_ite Iff.rfl (agree_fail _ _ _)
  apply agree_ite Iff.rfl (agree_fail _ _ _)
  cases h.bootpool with
  | none => exact agree_pure _
  | some bp =>
    dsimp only
    rcases libzeUtilConcat bp.rootPathFull "" be zfsMaxDatasetNameLen with ⟨code, beBpoolDs⟩
    apply agree_ite Iff.rfl (agree_fail _ _ _)
    apply agree_datasetExists _ (agree_fail _ _ _)
    apply agree_bind (agree_zfsOpen hrules _ _)
    intro opened
    exact agree_ite Iff.rfl (agree_fail _ _ _) (agree_pure _)

/-- Whether an environment can be opened does not depend on what is mounted. -/
theorem agree_openBootEnvironment (hrules : LookupRules host) :
    Agree SameProps (openBootEnvironment host h be) (openBootEnvironment host h be) := by
  unfold openBootEnvironment
  apply agree_bind (agree_validateExistingBe hrules)
  rintro ⟨ret, beDs, beBpoolDs⟩
  apply agree_ite Iff.rfl (agree_pure _)
  apply agree_bind (agree_zfsOpen hrules _ _)
  intro opened
  apply agree_ite Iff.rfl (agree_fail _ _ _)
  apply agree_ite Iff.rfl
  · apply agree_bind (agree_zfsOpen hrules _ _)
    intro opened'
    exact agree_ite Iff.rfl (agree_fail _ _ _) (agree_pure _)
  · exact agree_pure _

end Lookups

/-! ## Mounting the tree -/

theorem mountOf_samePools {s t : Sys} (h : SamePools s t) (n : CStr) : mountOf t n = mountOf s n := by
  rw [mountOf, h.find, mountOf]

/-- The first state with the mounts of a list of datasets added. -/
structure Mounted (host : Host) (mountpoint : CStr) (s u : Sys) (l : List CStr) (t : Sys) : Prop where
  props : SameProps s t
  mounts : ∀ m, mountOf t m = if m ∈ l then childMount host s mountpoint m else mountOf u m

section Mount
variable {host : Host} {mountpoint n : CStr} {s t u : Sys}

theorem samePools_directoryCreate {path : CStr} {code : Nat}
    (hr : directoryCreateIfNonexistent host path s = (code, t)) : SamePools s t := by
  unfold directoryCreateIfNonexistent at hr
  obtain ⟨code1, s1, hopen, hr⟩ := bind_run hr
  have hsame := samePools_of_call ⟨rfl, rfl, rfl⟩ hopen
  split at hr
  · exact hsame.trans (samePools_of_call ⟨rfl, rfl, rfl⟩ hr)
  · exact hsame.trans (samePools_of_call ⟨rfl, rfl, rfl⟩ hr)

/-- A dataset that was found is mounted where the call says. -/
theorem mountOf_temporaryMount {path : CStr} (hmem : n ∈ s.names)
    (hr : call host (.zfs (.temporaryMount n path)) s = (0, t)) :
    SameProps s t ∧ ∀ m, mountOf t m = if m = n then some path else mountOf s m := by
  obtain ⟨d, -, hfind⟩ := find_of_mem hmem
  rw [(call_done hr).2]
  exact ⟨mapDataset_sameProps fun _ => rfl, mountOf_of_find hfind⟩

theorem zfsPropGet_zero {prop : ZfsProp} {value : CStr}
    (hr : zfsPropGet host n prop s = ((0, value), t)) :
    SamePools s t ∧ ∃ source, t.propValue host n prop = some (value, source) := by
  have hsame := zfsPropGet_samePools hr
  unfold zfsPropGet at hr
  obtain ⟨code, u, hcall, hr⟩ := bind_run hr
  split at hr
  · cases hr
    contradiction
  rw [run_get_bind] at hr
  cases hvalue : u.propValue host n prop with
  | none =>
    rw [hvalue] at hr
    cases hr
  | some pair =>
    obtain ⟨v, source⟩ := pair
    rw [hvalue] at hr
    cases hr
    exact ⟨hsame, source, hvalue⟩

theorem mem_names_of_propValue {prop : ZfsProp} {r : CStr × ZpropSource}
    (h : s.propValue host n prop = some r) : n ∈ s.names := by
  cases hfind : s.find n with
  | none => simp [Sys.propValue, hfind] at h
  | some d =>
    have hname : d.name = n := by simpa using List.find?_some hfind
    exact hname ▸ List.mem_map_of_mem (List.mem_of_find?_eq_some hfind)

theorem mountDataset_zero (hrules : LookupRules host) (hsu : SameProps s u)
    (hfree : mountOf u n = none) (hr : mountDataset host mountpoint n u = (0, t)) :
    Mounted host mountpoint s u [n] t := by
  unfold mountDataset at hr
  obtain ⟨⟨r, propBuf⟩, u1, hget, hr⟩ := bind_run hr
  dsimp only at hr
  split at hr
  · cases hr
  rename_i hzero
  obtain rfl : r = 0 := by simpa using hzero
  obtain ⟨hsame1, source, hvalue⟩ := zfsPropGet_zero hget
  have hsu1 := hsu.trans (.of_samePools hsame1)
  have hread : s.propValue host n .mountpoint = some (propBuf, source) := by
    rw [← hvalue, hsu1.propValue hrules]
  split at hr
  · rename_i hskip
    cases hr
    refine ⟨hsu1, fun m => ?_⟩
    rw [mountOf_samePools hsame1]
    by_cases hm : m = n
    · rw [if_pos (by simp [hm]), hm, hfree, childMount, hread]
      simp only [hskip, if_true]
    · rw [if_neg (by simp [hm])]
  rename_i hmanaged
  rcases hcat : libzeUtilConcat mountpoint "" propBuf libzeMaxPathLen with ⟨code, mountpointBuf⟩
  rw [hcat] at hr
  dsimp only at hr
  split at hr
  · cases hr
  rename_i hcode
  rw [not_not.mp hcode] at hcat
  obtain ⟨-, hpath⟩ := (libzeUtilConcat_eq_ok_iff (by decide)).mp hcat
  rw [run_get_bind] at hr
  split at hr
  · cases hr
  obtain ⟨code2, u2, hdir, hr⟩ := bind_run hr
  split at hr
  · cases hr
  obtain ⟨code3, u3, hmount, hr⟩ := bind_run hr
  split at hr
  · cases hr
  rename_i hmounted
  cases hr
  rw [not_not.mp hmounted] at hmount
  have hsame2 := samePools_directoryCreate hdir
  have hmem : n ∈ u2.names := by
    rw [hsame2.names]
    exact mem_names_of_propValue hvalue
  obtain ⟨hprops, hmounts⟩ := mountOf_temporaryMount hmem hmount
  refine ⟨(hsu1.trans (.of_samePools hsame2)).trans hprops, fun m => ?_⟩
  rw [hmounts, mountOf_samePools (hsame1.trans hsame2)]
  by_cases hm : m = n
  · rw [if_pos hm, if_pos (by simp [hm]), hm, childMount, hread]
    simp only [hmanaged, if_false, hpath]
    simp
  · rw [if_neg hm, if_neg (by simp [hm])]

/-- The calls that mount datasets. -/
inductive MountsOnly : Call → Prop
  | look (prop : ZfsProp) (n : CStr) : MountsOnly (.zfs (.propGet n prop))
  | opendir (path : CStr) : MountsOnly (.file (.opendir path))
  | closedir (path : CStr) : MountsOnly (.file (.closedir path))
  | mkdir (path : CStr) : MountsOnly (.file (.mkdir path))
  | mount (n path : CStr) : MountsOnly (.zfs (.temporaryMount n path))

theorem MountsOnly.sameProps {c : Call} (hc : MountsOnly c) : SameProps s (c.effect host s) := by
  cases hc with
  | mount n path => exact mapDataset_sameProps fun _ => rfl
  | look | opendir | closedir | mkdir => exact .refl s

theorem directoryCreate_issues (path : CStr) :
    Issues host MountsOnly (directoryCreateIfNonexistent host path) := by
  unfold directoryCreateIfNonexistent
  refine moves_bind (issues_call (.opendir _)) fun code => ?_
  exact moves_ite (fun _ => issues_call (.closedir _)) fun _ => issues_call (.mkdir _)

theorem mountDataset_issues : Issues host MountsOnly (mountDataset host mountpoint n) := by
  have hfail : ∀ (err : LibzeError) (message : CStr),
      Issues host MountsOnly (libzeErrorSet err message >>= fun _ => pure (-1 : Int)) :=
    fun err message => moves_bind (issues_errorSet err message) fun _ => moves_pure _
  unfold mountDataset
  refine moves_bind (issues_zfsPropGet (.look _ _)) fun r => ?_
  refine moves_ite (fun _ => hfail _ _) fun _ => ?_
  refine moves_ite (fun _ => moves_pure _) fun _ => ?_
  rcases libzeUtilConcat mountpoint "" r.2 libzeMaxPathLen with ⟨code, mountpointBuf⟩
  refine moves_ite (fun _ => hfail _ _) fun _ => moves_bind moves_get fun s => ?_
  refine moves_ite (fun _ => hfail _ _) fun _ => ?_
  refine moves_bind (directoryCreate_issues _) fun made => ?_
  refine moves_ite (fun _ => hfail _ _) fun _ => ?_
  refine moves_bind (issues_call (.mount _ _)) fun mounted => ?_
  exact moves_ite (fun _ => hfail _ _) fun _ => moves_pure _

theorem mountCallback_issues (depth : Nat) (n : CStr) :
    Issues host MountsOnly (mountCallback host mountpoint depth n) := by
  induction depth generalizing n with
  | zero => exact moves_pure _
  | succ depth ih =>
    rw [mountCallback]
    refine moves_bind mountDataset_issues fun r => ?_
    refine moves_ite (fun _ => moves_pure _) fun _ => ?_
    exact moves_bind moves_get fun s => moves_visit fun c _ => ih c

theorem sameProps_of_issues {α : Type} {m : Libze α} (h : Issues host MountsOnly m) (s : Sys) :
    SameProps s (m s).2 :=
  h.keeps (SameProps s) (fun _ _ _ _ ht => ht) (fun _ _ hc _ ht => ht.trans hc.sameProps) (.refl s)

theorem childFilesystems_of_shape (h : SameShape s u) : childFilesystems u = childFilesystems s := by
  funext n
  simp only [childFilesystems, children, h.names]

/-- The recursion mounts the datasets of the tree in turn, parents first. -/
theorem mountCallback_visits (hforest : IsForest s.names) (depth : Nat) (n : CStr)
    (henough : Enough s n depth) (hsu : SameProps s u) (t : Sys) :
    mountCallback host mountpoint depth n u = (0, t) ↔
      visitAll (mountDataset host mountpoint) (preorder (childFilesystems s) depth n) u = (0, t) := by
  induction depth generalizing n u t with
  | zero => obtain ⟨h, -⟩ | ⟨h, -⟩ := henough <;> omega
  | succ depth ih =>
    rw [preorder, visitAll_cons_zero, mountCallback, run_bind]
    rcases hone : mountDataset host mountpoint n u with ⟨r, u1⟩
    have hsu1 : SameProps s u1 := by
      have hstep := sameProps_of_issues (@mountDataset_issues host mountpoint n) u
      rw [hone] at hstep
      exact hsu.trans hstep
    have hkids : ∀ c ∈ childFilesystems s n, ∀ v, SameProps s v →
        (∀ t, mountCallback host mountpoint depth c v = (0, t) ↔
          visitAll (mountDataset host mountpoint) (preorder (childFilesystems s) depth c) v =
            (0, t)) ∧ SameProps s (mountCallback host mountpoint depth c v).2 := by
      intro c hc v hv
      obtain ⟨hmem, hparent, -⟩ := mem_childFilesystems.mp hc
      have hchild := henough.child hforest (mem_children.mpr ⟨hmem, hparent⟩)
      exact ⟨ih c hchild hv, hv.trans (sameProps_of_issues (mountCallback_issues depth c) v)⟩
    by_cases hr : r = 0
    · subst hr
      rw [if_neg (by simp), run_get_bind, childFilesystems_of_shape hsu1.shape]
      rw [visitAll_flatMap_zero (SameProps s) _ hkids hsu1]
      constructor
      · exact fun hrest => ⟨u1, rfl, hrest⟩
      · rintro ⟨v, hv, hrest⟩
        cases hv
        exact hrest
    · rw [if_pos hr]
      constructor
      · intro hzero
        cases hzero
        exact absurd rfl hr
      · rintro ⟨v, hv, -⟩
        cases hv
        exact absurd rfl hr

/-- Datasets of a list that are mounted in turn. -/
theorem mounted_of_visitAll (hrules : LookupRules host) (l : List CStr) (hnodup : l.Nodup)
    (hsu : SameProps s u) (hfree : ∀ m ∈ l, mountOf u m = none)
    (hr : visitAll (mountDataset host mountpoint) l u = (0, t)) :
    Mounted host mountpoint s u l t := by
  induction l generalizing u with
  | nil =>
    cases hr
    exact ⟨hsu, fun m => by simp⟩
  | cons n rest ih =>
    obtain ⟨hn, hrest⟩ := List.nodup_cons.mp hnodup
    obtain ⟨v, hv, hr⟩ := visitAll_cons_zero.mp hr
    have hone := mountDataset_zero hrules hsu (hfree n List.mem_cons_self) hv
    have hfree' : ∀ m ∈ rest, mountOf v m = none := by
      intro m hm
      have hmn : m ≠ n := fun heq => hn (heq ▸ hm)
      rw [hone.mounts, if_neg (by simpa using hmn)]
      exact hfree m (List.mem_cons_of_mem n hm)
    have hall := ih hrest hone.props hfree' hr
    refine ⟨hall.props, fun m => ?_⟩
    rw [hall.mounts, hone.mounts]
    by_cases hm : m ∈ rest
    · rw [if_pos hm, if_pos (List.mem_cons_of_mem n hm)]
    · by_cases hmn : m = n
      · simp [hmn, hn]
      · simp [hmn, hm]

theorem mountDataset_error {r : Int} (hr : mountDataset host mountpoint n u = (r, t)) (hne : r ≠ 0) :
    t.libzeError ≠ .success := by
  unfold mountDataset at hr
  obtain ⟨⟨r', propBuf⟩, u1, -, hr⟩ := bind_run hr
  dsimp only at hr
  split at hr
  · cases hr
    simp
  split at hr
  · cases hr
    exact absurd rfl hne
  rcases libzeUtilConcat mountpoint "" propBuf libzeMaxPathLen with ⟨code, mountpointBuf⟩
  split at hr
  · cases hr
    simp
  rw [run_get_bind] at hr
  split at hr
  · cases hr
    simp
  obtain ⟨code2, u2, -, hr⟩ := bind_run hr
  split at hr
  · cases hr
    simp
  obtain ⟨code3, u3, -, hr⟩ := bind_run hr
  split at hr
  · cases hr
    simp
  · cases hr
    exact absurd rfl hne

/-- A mount that fails has set an error. -/
theorem mountCallback_error (hforest : IsForest s.names) (depth : Nat) {n : CStr} {r : Int}
    (henough : Enough s n depth) (hsu : SameProps s u)
    (hr : mountCallback host mountpoint depth n u = (r, t)) (hne : r ≠ 0) :
    t.libzeError ≠ .success := by
  induction depth generalizing n u with
  | zero => obtain ⟨h, -⟩ | ⟨h, -⟩ := henough <;> omega
  | succ depth ih =>
    rw [mountCallback] at hr
    obtain ⟨r1, u1, hone, hr⟩ := bind_run hr
    split at hr
    · cases hr
      exact mountDataset_error hone hne
    have hsu1 : SameProps s u1 := by
      have hstep := sameProps_of_issues (@mountDataset_issues host mountpoint n) u
      rw [hone] at hstep
      exact hsu.trans hstep
    rw [run_get_bind, childFilesystems_of_shape hsu1.shape] at hr
    obtain ⟨c, hc, v, hv, -, hfail⟩ := exists_of_visit_ne_zero (SameProps s)
      (fun c _ v hv _ => hv.trans (sameProps_of_issues (mountCallback_issues depth c) v)) hsu1 hr hne
    obtain ⟨hmem, hparent, -⟩ := mem_childFilesystems.mp hc
    exact ih (henough.child hforest (mem_children.mpr ⟨hmem, hparent⟩)) hv hfail

end Mount

end Zectl.Libze.MountTree
