import Zectl.Systemdboot.SavedKernels
import Zectl.Util.EmptiedDir

/-!
# The hooks of the plugin

What the plugin exports, as one function of the hook that is called, and where each of them
works. No hook touches the kernels or the entry of an environment that it is not called for,
whether it succeeds or fails.
-/

namespace Zectl.Systemdboot.Hooks

open Zectl.Lib.StateRun Zectl.Lib.PathOrder Zectl.Util.CString Zectl.Util.Files Zectl.Util.Writes
open Zectl.Util.Directory Zectl.Util.CopyDir Zectl.Zfs.System Zectl.Zfs.Steps Zectl.Libze.Init
open Zectl.Libze.MountTree Zectl.Systemdboot.ReplaceMatched Zectl.Systemdboot.Loader
open Zectl.Systemdboot.Fstab Zectl.Systemdboot.Rewritten Zectl.Systemdboot.Entry
open Zectl.Systemdboot.PreSnapshot Zectl.Systemdboot.PreSnapshotOutcome
open Zectl.Systemdboot.PostCreate Zectl.Systemdboot.SavedKernels

/-- `libze_plugin_systemdboot_pre_activate` -/
def preActivate : Libze LibzeError := return .success

/-- `libze_plugin_systemdboot_mid_activate` -/
def midActivate : Libze LibzeError := return .success

/-- `libze_plugin_systemdboot_post_activate` -/
def postActivate (host : Host) (h : Handle) (beName : CStr) : Libze LibzeError := do
  if (libzeBootEnvName h.envActivatedPath zfsMaxDatasetNameLen).1 ≠ 0 then
    return ← libzeErrorSet .maxpathlen "Bootfs exceeds max path length.\n"
  let (ret, efiMountpoint) ← pluginPropGet h "efi"
  if ret ≠ .success then return ← libzeErrorSet .unknown (noAccess "efi")
  match concatPath efiMountpoint "/" "loader/loader.conf" with
  | none => libzeErrorSet .maxpathlen "BE loader path exceeds max path length.\n"
  | some loaderBuf => updateLoaderDefault host h loaderBuf beName

/-- A file that can be accessed cannot be removed. -/
def removeFails (host : Host) (path : CStr) : Libze Bool := do
  if (← call host (.file (.access path))) ≠ 0 then return false
  return (← call host (.file (.remove path))) ≠ 0

/-- `remove_kernels` -/
def removeKernels (host : Host) (efiMountpoint beName : CStr) : Libze LibzeError := do
  match formLoaderEntryConfig efiMountpoint beName, formLoaderEntryPath efiMountpoint "env" beName with
  | some loaderBuf, some kernelsBuf =>
    if ← removeFails host loaderBuf then
      return ← libzeErrorSet .unknown (format ["Failed to remove ", loaderBuf, ".\n"])
    let interr ← libzeUtilRmdir host kernelsBuf
    if interr ≠ enoent ∧ interr ≠ 0 then
      return ← libzeErrorSet .unknown (format ["Failed to remove ", kernelsBuf, ".\n"])
    return .success
  | _, _ => libzeErrorSet .maxpathlen "BE loader path exceeds max path length.\n"

/-- `libze_plugin_systemdboot_post_destroy` -/
def postDestroy (host : Host) (h : Handle) (beName : CStr) : Libze LibzeError := do
  if (libzeBootEnvName h.envActivatedPath zfsMaxDatasetNameLen).1 ≠ 0 then
    return ← libzeErrorSet .maxpathlen "Bootfs exceeds max path length.\n"
  let (ret, efiMountpoint) ← pluginPropGet h "efi"
  if ret ≠ .success then return ← libzeErrorSet .unknown (noAccess "efi")
  removeKernels host efiMountpoint beName

/-- `libze_plugin_systemdboot_post_rename` behind the rename of the directory. -/
def renameEntry (host : Host) (h : Handle) (efiMountpoint beNameOld beNameNew : CStr) :
    Libze LibzeError := do
  match formLoaderEntryConfig efiMountpoint beNameOld,
      formLoaderEntryConfig efiMountpoint beNameNew with
  | some loaderBufOld, some loaderBufNew =>
    let ret ← replaceBeName host h beNameNew beNameOld loaderBufOld loaderBufNew
    if ret ≠ .success then return ret
    if (← call host (.file (.remove loaderBufOld))) ≠ 0 then
      return ← libzeErrorSet .unknown (format ["Failed to remove old configuration ", loaderBufOld,
        ".\n"])
    return .success
  | _, _ => libzeErrorSet .maxpathlen "BE loader path exceeds max path length.\n"

/-- `libze_plugin_systemdboot_post_rename` -/
def postRename (host : Host) (h : Handle) (beNameOld beNameNew : CStr) : Libze LibzeError := do
  let (ret, efiMountpoint) ← pluginPropGet h "efi"
  if ret ≠ .success then return ← libzeErrorSet .unknown (noAccess "efi")
  match formLoaderEntryPath efiMountpoint "env" beNameOld,
      formLoaderEntryPath efiMountpoint "env" beNameNew with
  | some loaderBufOld, some loaderBufNew =>
    if (← call host (.file (.renameDirectory loaderBufOld loaderBufNew))) ≠ 0 then
      return ← libzeErrorSet .unknown (format ["Failed to rename ", loaderBufOld, " to ",
        loaderBufNew, ".\n"])
    renameEntry host h efiMountpoint beNameOld beNameNew
  | _, _ => libzeErrorSet .maxpathlen "BE loader path exceeds max path length.\n"

/-- `exported_plugin`; the buffer is what the snapshot hook finds in the path of the mount. -/
def exportedPlugin (host : Host) (h : Handle) (mountpointBuf : CStr) : Hook → Libze LibzeError
  | .preActivate => preActivate
  | .midActivate _ _ => midActivate
  | .postActivate beName => postActivate host h beName
  | .postDestroy beName => postDestroy host h beName
  | .postCreate beName beMountpoint fromSnapshot =>
    postCreate host h { beName, beMountpoint, fromSnapshot }
  | .postRename beNameOld beNameNew => postRename host h beNameOld beNameNew
  | .preSnapshot beName isRoot => preSnapshot host h mountpointBuf beName isRoot

/-! ## Directories that move -/

/-- The paths the call makes, changes, moves or takes away are among those `inside`. -/
def Works (inside : CStr → Prop) : Call → Prop
  | .file (.renameDirectory p q) =>
    inside p ∧ inside q ∧ (∀ path, Below p path → inside path) ∧ ∀ path, Below q path → inside path
  | c => TouchesIn inside c

section Moves
variable {host : Host} {inside : CStr → Prop} {p q path rel : CStr} {s t : Sys} {c : Call}

theorem lookup_map_key {files : List (CStr × CStr)} {f : CStr → CStr} {path' : CStr}
    (h : ∀ e ∈ files, f e.1 = path ↔ e.1 = path') :
    (files.map fun e => (f e.1, e.2)).lookup path = files.lookup path' := by
  induction files with
  | nil => rfl
  | cons e rest ih =>
    have hhead : (path == f e.1) = (path' == e.1) := by
      rw [Bool.eq_iff_iff, beq_iff_eq, beq_iff_eq, eq_comm, h e List.mem_cons_self, eq_comm]
    rw [List.map_cons, List.lookup_cons, List.lookup_cons, hhead,
      ih fun e he => h e (List.mem_cons_of_mem _ he)]

theorem belowPath_some {rest : CStr} (h : belowPath? p path = some rest) : path = p ++ '/' :: rest := by
  unfold belowPath? at h
  split at h
  · rename_i hpre
    obtain ⟨tail, rfl⟩ := List.isPrefixOf_iff_prefix.mp hpre
    have hdrop : (p ++ ['/'] ++ tail).drop (p.length + 1) = tail := List.drop_left' (by simp)
    rw [hdrop] at h
    cases h
    simp
  · cases h

/-- Where a path goes when a directory moves. -/
theorem moveBelow_cases (p q path : CStr) :
    path = p ∧ moveBelow p q path = q ∨
    (∃ rest, path = p ++ '/' :: rest ∧ moveBelow p q path = q ++ '/' :: rest) ∨
    path ≠ p ∧ ¬ Below p path ∧ moveBelow p q path = path := by
  by_cases hpath : path = p
  · exact .inl ⟨hpath, by rw [moveBelow, if_pos hpath]⟩
  rw [moveBelow, if_neg hpath]
  cases hrest : belowPath? p path with
  | some rest => exact .inr (.inl ⟨rest, belowPath_some hrest, rfl⟩)
  | none =>
    refine .inr (.inr ⟨hpath, ?_, rfl⟩)
    rintro ⟨rest, rfl⟩
    rw [belowPath_append] at hrest
    cases hrest

theorem readFile_renameDirectory_of_apart (hp : path ≠ p) (hpb : ¬ Below p path) (hq : path ≠ q)
    (hqb : ¬ Below q path) :
    (FileCall.effect s (.renameDirectory p q)).readFile path = s.readFile path := by
  apply lookup_map_key
  intro e _
  obtain ⟨he, hmove⟩ | ⟨rest, he, hmove⟩ | ⟨-, -, hmove⟩ := moveBelow_cases p q e.1
  · rw [hmove, he]
    exact ⟨fun h => absurd h.symm hq, fun h => absurd h.symm hp⟩
  · rw [hmove, he]
    exact ⟨fun h => absurd ⟨rest, h.symm⟩ hqb, fun h => absurd ⟨rest, h.symm⟩ hpb⟩
  · rw [hmove]

/-- What a directory holds moves with it to where nothing was. -/
theorem below_renameDirectory_target (hempty : ∀ rel, below s q rel = none) (rel : CStr) :
    below (FileCall.effect s (.renameDirectory p q)) q rel = below s p rel := by
  apply lookup_map_key
  intro e he
  obtain ⟨hpath, hmove⟩ | ⟨rest, hpath, hmove⟩ | ⟨hne, hnot, hmove⟩ := moveBelow_cases p q e.1
  · rw [hmove, hpath]
    simp
  · rw [hmove, hpath]
    simp
  · rw [hmove]
    constructor
    · intro heq
      have hnone := hempty rel
      rw [below, Sys.readFile, List.lookup_eq_none_iff] at hnone
      exact absurd (beq_iff_eq.mpr heq.symm) (by simpa using hnone e he)
    · intro heq
      exact absurd ⟨rel, heq⟩ hnot

theorem below_renameDirectory_source (hq : ¬ Below p q) (hqb : ∀ path, Below q path → ¬ Below p path)
    (rel : CStr) : below (FileCall.effect s (.renameDirectory p q)) p rel = none := by
  rw [below, Sys.readFile, List.lookup_eq_none_iff]
  intro e he
  obtain ⟨f, -, rfl⟩ := List.mem_map.mp he
  rw [bne_iff_ne]
  intro heq
  obtain ⟨-, hmove⟩ | ⟨rest, -, hmove⟩ | ⟨-, hnot, hmove⟩ := moveBelow_cases p q f.1
  · exact hq ⟨rel, hmove.symm.trans heq.symm⟩
  · exact hqb _ ⟨rest, rfl⟩ ⟨rel, hmove.symm.trans heq.symm⟩
  · exact hnot ⟨rel, hmove.symm.trans heq.symm⟩

theorem Works.readFile (hc : Works inside c) (hpath : ¬ inside path) :
    (c.effect host s).readFile path = s.readFile path := by
  have hne : ∀ {p}, inside p → path ≠ p := fun hp heq => hpath (heq ▸ hp)
  unfold Works at hc
  split at hc
  · obtain ⟨hp, hq, hpb, hqb⟩ := hc
    exact readFile_renameDirectory_of_apart (hne hp) (fun h => hpath (hpb _ h)) (hne hq)
      fun h => hpath (hqb _ h)
  · exact hc.readFile hpath

theorem works_of_touches (hc : TouchesIn inside c) : Works inside c := by
  unfold Works
  split
  · exact hc.elim
  · exact hc

theorem readFile_of_works {α : Type} {m : Libze α} {a : α} (h : Issues host (Works inside) m)
    (hr : m s = (a, t)) (hpath : ¬ inside path) : t.readFile path = s.readFile path := by
  have hkeep := h.keeps (fun u => u.readFile path = s.readFile path) (fun _ _ _ _ hu => hu)
    (fun u c hc _ hu => (hc.readFile hpath).trans hu) rfl
  rwa [hr] at hkeep

end Moves

/-! ## Where the hooks work -/

/-- `loader.conf` on the EFI system partition. -/
def loaderConf (efiMountpoint : CStr) : CStr := efiMountpoint ++ "/" ++ "loader/loader.conf"

/-- The entry and the kernels of an environment. -/
def BootFile (efiMountpoint beName path : CStr) : Prop :=
  path = entryPath efiMountpoint beName ∨ path = kernelDir efiMountpoint beName ∨
    Below (kernelDir efiMountpoint beName) path

/-- The path of the mount that the snapshot hook works with. -/
def mountedAt (host : Host) (h : Handle) (mountpointBuf beName : CStr) (isRoot : Bool) (s : Sys) :
    CStr :=
  if isRoot then mountpointBuf else (libzeMount host h beName none s).1.2

/-- Where a hook works. -/
def Area (host : Host) (h : Handle) (mountpointBuf : CStr) (s : Sys) (path : CStr) : Hook → Prop
  | .preActivate | .midActivate _ _ => False
  | .postActivate _ => loaderConf (propertyOf h "efi") <+: path
  | .postDestroy beName => BootFile (propertyOf h "efi") beName path
  | .postCreate beName beMountpoint fromSnapshot =>
    BootFile (propertyOf h "efi") beName path ∨ Below beMountpoint path ∨
      fromSnapshot = true ∧ Below (saveDir h beMountpoint) path
  | .postRename beNameOld beNameNew =>
    BootFile (propertyOf h "efi") beNameOld path ∨ BootFile (propertyOf h "efi") beNameNew path
  | .preSnapshot beName isRoot =>
    Below (saveDir h (mountedAt host h mountpointBuf beName isRoot s)) path

section Area
variable {host : Host} {h : Handle} {mountpointBuf efi beName old new path : CStr} {r : LibzeError}
  {s t : Sys}

theorem pluginPropGet_issues {may : Call → Prop} {property : CStr}
    {k : LibzeError × CStr → Libze LibzeError}
    (hk : Issues host may (k (.success, propertyOf h property))) :
    Issues host may (pluginPropGet h property >>= fun r =>
      if r.1 ≠ .success then do return ← libzeErrorSet .unknown (noAccess property) else k r) := by
  by_cases hfit : (propertyOf h property).length < zfsMaxproplen
  · rw [pluginPropGet_eq hfit, pure_bind, if_neg (by simp)]
    exact hk
  · have hlong := Nat.not_lt.mp hfit
    have hget : Issues host may (pluginPropGet h property) := by
      rw [pluginPropGet, if_pos hlong]
      exact fail_issues
    apply moves_bind_of hget
    intro s
    rw [if_pos (pluginPropGet_long hlong s)]
    exact issues_errorSet _ _ _

theorem getLoaderLineFromRegex_quiet (line buf : CStr) :
    Issues host (fun _ => False) (getLoaderLineFromRegex beName line buf) :=
  getLoaderLineFromRegex_issues line buf

theorem postActivate_works (hrule : TemplateRule host) :
    Issues host (Works (loaderConf (propertyOf h "efi") <+: ·)) (postActivate host h beName) := by
  unfold postActivate
  apply moves_ite (fun _ => issues_errorSet _ _)
  intro _
  apply pluginPropGet_issues
  dsimp only
  split
  · exact issues_errorSet _ _
  · rename_i hconcat
    obtain rfl := concatPath_some hconcat
    apply moves_ite (fun _ => issues_errorSet _ _)
    intro _
    exact (updateFile_touches_of_quiet hrule getLoaderLineFromRegex_quiet).weaken
      fun _ => works_of_touches

theorem removeFails_issues {may : Call → Prop} (haccess : may (.file (.access path)))
    (hremove : may (.file (.remove path))) : Issues host may (removeFails host path) := by
  apply moves_bind (issues_call haccess)
  intro code
  apply moves_ite (fun _ => moves_pure _)
  intro _
  exact moves_bind (issues_call hremove) fun _ => moves_pure _

theorem bootFile_entry : BootFile efi beName (entryPath efi beName) := .inl rfl

theorem bootFile_kernels (hbelow : Below (kernelDir efi beName) path) : BootFile efi beName path :=
  .inr (.inr hbelow)

theorem removeKernels_works :
    Issues host (Works (BootFile efi beName)) (removeKernels host efi beName) := by
  unfold removeKernels
  split
  · rename_i hentry hkernels
    rw [formLoaderEntryConfig_eq] at hentry
    rw [formLoaderEntryPath_env] at hkernels
    obtain rfl := Option.some.inj (Option.ite_none_left_eq_some.mp hentry).2
    obtain rfl := Option.some.inj (Option.ite_none_left_eq_some.mp hkernels).2
    apply moves_bind (removeFails_issues trivial bootFile_entry)
    intro fails
    apply moves_ite (fun _ => issues_errorSet _ _)
    intro _
    apply moves_bind
    · apply libzeUtilRmdir_touches.weaken
      intro c hc
      exact works_of_touches (hc.mono fun _ => bootFile_kernels)
    intro code
    exact moves_ite (fun _ => issues_errorSet _ _) fun _ => moves_pure _
  · exact issues_errorSet _ _

theorem postDestroy_works :
    Issues host (Works (BootFile (propertyOf h "efi") beName)) (postDestroy host h beName) := by
  unfold postDestroy
  apply moves_ite (fun _ => issues_errorSet _ _)
  intro _
  apply pluginPropGet_issues
  exact removeKernels_works

/-- The files of two environments. -/
def BootFiles (efi old new path : CStr) : Prop := BootFile efi old path ∨ BootFile efi new path

theorem renameEntry_works :
    Issues host (Works (BootFiles efi old new)) (renameEntry host h efi old new) := by
  unfold renameEntry
  split
  · rename_i hold hnew
    rw [formLoaderEntryConfig_eq] at hold hnew
    obtain rfl := Option.some.inj (Option.ite_none_left_eq_some.mp hold).2
    obtain rfl := Option.some.inj (Option.ite_none_left_eq_some.mp hnew).2
    apply moves_bind
    · apply replaceBeName_saves.weaken
      intro c hc
      apply works_of_touches (hc.1.mono _)
      rintro p rfl
      exact .inr bootFile_entry
    intro ret
    apply moves_ite (fun _ => moves_pure _)
    intro _
    apply moves_bind (issues_call (.inl bootFile_entry))
    intro code
    exact moves_ite (fun _ => issues_errorSet _ _) fun _ => moves_pure _
  · exact issues_errorSet _ _

theorem postRename_works :
    Issues host (Works (BootFiles (propertyOf h "efi") old new)) (postRename host h old new) := by
  unfold postRename
  apply pluginPropGet_issues
  dsimp only
  split
  · rename_i hold hnew
    rw [formLoaderEntryPath_env] at hold hnew
    obtain rfl := Option.some.inj (Option.ite_none_left_eq_some.mp hold).2
    obtain rfl := Option.some.inj (Option.ite_none_left_eq_some.mp hnew).2
    apply moves_bind
    · exact issues_call ⟨.inl (.inr (.inl rfl)), .inr (.inr (.inl rfl)),
        fun _ hp => .inl (bootFile_kernels hp), fun _ hp => .inr (bootFile_kernels hp)⟩
    intro code
    apply moves_ite (fun _ => issues_errorSet _ _)
    intro _
    exact renameEntry_works
  · exact issues_errorSet _ _

/-- Where a creation works: at the files of the environment, in its file system, and where a
snapshot has saved its kernels. -/
def CreateArea (h : Handle) (createData : LibzeCreateData) (path : CStr) : Prop :=
  BootFile (propertyOf h "efi") createData.beName path ∨ Below createData.beMountpoint path ∨
    createData.fromSnapshot = true ∧ Below (saveDir h createData.beMountpoint) path

theorem snapshotSource_touches {createData : LibzeCreateData} :
    Issues host (TouchesIn (CreateArea h createData))
      (snapshotSource host createData.beMountpoint (propertyOf h "kernelsnapshotdirectory")) := by
  unfold snapshotSource
  split
  · exact moves_bind (issues_errorSet _ _) fun _ => moves_pure _
  · rename_i hpaths
    obtain ⟨-, rfl, rfl⟩ := snapshotPaths_ok hpaths
    have hbelow : CreateArea h createData (fstabOf createData.beMountpoint) := by
      refine .inr (.inl ?_)
      rw [← List.append_nil (fstabOf _)]
      exact fstabOf_below []
    apply moves_bind (copyFile_issues trivial hbelow fun _ => hbelow)
    intro code
    exact moves_ite (fun _ => moves_bind (issues_errorSet _ _) fun _ => moves_pure _)
      fun _ => moves_pure _

theorem createFrom_touches (hrule : TemplateRule host) {createData : LibzeCreateData}
    {source : CreateSource} (hsource : createData.fromSnapshot = true →
      source.kernelMountedSnapDir = saveDir h createData.beMountpoint) :
    Issues host (TouchesIn (CreateArea h createData))
      (createFrom host h createData (propertyOf h "efi") (propertyOf h "boot")
        (entryPath (propertyOf h "efi") createData.beName) source) := by
  unfold createFrom
  apply moves_bind
  · apply replaceBeName_saves.weaken
    intro c hc
    apply hc.1.mono
    rintro p rfl
    exact .inl bootFile_entry
  intro ret
  apply moves_ite (fun _ => moves_pure _)
  intro _
  rw [formLoaderEntryPath_env]
  split
  · exact issues_errorSet _ _
  · rename_i hkernels
    obtain rfl := Option.some.inj (Option.ite_none_left_eq_some.mp hkernels).2
    apply moves_bind
    · apply (copyTree_saves _ _ _).weaken
      intro c hc
      exact hc.1.mono fun p hp => .inl (bootFile_kernels hp)
    intro code
    apply moves_ite (fun _ => issues_errorSet _ _)
    intro _
    have hupdate : Issues host (TouchesIn (CreateArea h createData))
        (updateFstab host h createData (propertyOf h "boot") (propertyOf h "efi")) :=
      (updateFstab_touches hrule).weaken fun c hc => hc.mono fun p hp => .inr (.inl hp)
    apply moves_ite _ fun _ => hupdate
    intro hfrom
    rw [hsource hfrom]
    apply moves_bind _ fun _ => hupdate
    exact libzeUtilRmdir_touches.weaken fun c hc => hc.mono fun p hp => .inr (.inr ⟨hfrom, hp⟩)

theorem snapshotSource_dir {createData : LibzeCreateData} {source : CreateSource}
    (hr : snapshotSource host createData.beMountpoint (propertyOf h "kernelsnapshotdirectory") s =
      (.ok source, t)) : source.kernelMountedSnapDir = saveDir h createData.beMountpoint := by
  unfold snapshotSource at hr
  cases hpaths : snapshotPaths createData.beMountpoint (propertyOf h "kernelsnapshotdirectory") with
  | error message =>
    rw [hpaths] at hr
    cases hr
  | ok paths =>
    obtain ⟨source', fstabBuf, fstabDestBuf⟩ := paths
    rw [hpaths] at hr
    obtain ⟨code, s1, -, hr⟩ := bind_run hr
    split at hr
    · cases hr
    · cases hr
      rw [(snapshotPaths_ok hpaths).1]
      rfl

theorem activatedSource_issues {may : Call → Prop} :
    Issues host may (activatedSource h efi) := by
  unfold activatedSource
  dsimp only
  apply moves_ite (fun _ => moves_bind (issues_errorSet _ _) fun _ => moves_pure _)
  intro _
  split
  · exact moves_pure _
  · exact moves_bind (issues_errorSet _ _) fun _ => moves_pure _

theorem postCreate_works (hrule : TemplateRule host) {createData : LibzeCreateData} :
    Issues host (Works (CreateArea h createData)) (postCreate host h createData) := by
  apply Issues.weaken _ fun _ => works_of_touches
  unfold postCreate
  apply pluginPropGet_issues
  apply pluginPropGet_issues
  apply pluginPropGet_issues
  dsimp only
  split
  · exact issues_errorSet _ _
  rename_i hentry
  rw [formLoaderEntryConfig_eq] at hentry
  obtain rfl := Option.some.inj (Option.ite_none_left_eq_some.mp hentry).2
  by_cases hfrom : createData.fromSnapshot = true
  · rw [if_pos hfrom]
    apply moves_bind_of snapshotSource_touches
    intro s
    cases hsource : snapshotSource host createData.beMountpoint
      (propertyOf h "kernelsnapshotdirectory") s with
    | mk source s1 =>
    cases source with
    | error ret => exact .refl
    | ok source => exact createFrom_touches hrule (fun _ => snapshotSource_dir hsource) s1
  · rw [if_neg hfrom]
    apply moves_bind activatedSource_issues
    intro source
    split
    · exact moves_pure _
    · exact createFrom_touches hrule fun htrue => absurd htrue hfrom

/-- Whatever a hook returns, it leaves the files outside of its area as they are. -/
theorem hook_outside (hrule : TemplateRule host) {hook : Hook}
    (hr : exportedPlugin host h mountpointBuf hook s = (r, t))
    (hpath : ¬ Area host h mountpointBuf s path hook) : t.readFile path = s.readFile path := by
  cases hook with
  | preActivate | midActivate =>
    cases hr
    rfl
  | postActivate beName => exact readFile_of_works (postActivate_works hrule) hr hpath
  | postDestroy beName => exact readFile_of_works postDestroy_works hr hpath
  | postCreate beName beMountpoint fromSnapshot =>
    exact readFile_of_works (postCreate_works hrule) hr hpath
  | postRename beNameOld beNameNew => exact readFile_of_works postRename_works hr hpath
  | preSnapshot beName isRoot =>
    obtain ⟨-, huntouched⟩ | ⟨r', s2, hbefore, hsave, hafter⟩ := preSnapshot_cases hr
    · exact huntouched.same _
    · have hkeep := readFile_of_touches (saveAll_saves.weaken fun _ hc => hc.1) hsave hpath
      exact (hafter.same _).trans (hkeep.trans (hbefore.same _))

end Area

/-! ## The files of another environment -/

/-- A name that is one component of a path. -/
@[ext] structure BeName where
  text : CStr
  flat : '/' ∉ text
  deriving DecidableEq

section Apart
variable {efi path : CStr} {b b' : BeName}

theorem entryPath_inj (h : entryPath efi b.text = entryPath efi b'.text) : b = b' :=
  BeName.ext (by simpa [entryPath, format] using h)

theorem kernelDir_inj (h : kernelDir efi b.text = kernelDir efi b'.text) : b = b' :=
  BeName.ext (by simpa [kernelDir, format] using h)

theorem kernelDir_not_below : ¬ Below (kernelDir efi b'.text) (kernelDir efi b.text) := by
  rintro ⟨rel, heq⟩
  have hname : b.text = b'.text ++ '/' :: rel := by simpa [kernelDir, format] using heq
  apply b.flat
  rw [hname]
  simp

theorem kernelDir_disjoint (hne : b ≠ b') (h : Below (kernelDir efi b.text) path) :
    ¬ Below (kernelDir efi b'.text) path := by
  obtain ⟨rel, rfl⟩ := h
  rintro ⟨rel', heq⟩
  have hname : b.text ++ '/' :: rel = b'.text ++ '/' :: rel' := by
    simpa [kernelDir, format] using heq
  have hhead := congrArg headName hname
  rw [headName_append b.flat, headName_append b'.flat] at hhead
  exact hne (BeName.ext hhead)

theorem entryPath_not_kernels {name name' : CStr} :
    ¬ Below (kernelDir efi name') (entryPath efi name) := by
  rintro ⟨rel, heq⟩
  exact kernelDir_ne_entryPath heq.symm

theorem entryPath_ne_kernelDir {name name' : CStr} : entryPath efi name ≠ kernelDir efi name' := by
  simp [entryPath, kernelDir, format]

theorem bootFile_disjoint (hne : b ≠ b') (h : BootFile efi b.text path) :
    ¬ BootFile efi b'.text path := by
  rintro (rfl | rfl | h')
  · obtain heq | heq | hbelow := h
    · exact hne (entryPath_inj heq).symm
    · exact entryPath_ne_kernelDir heq
    · exact entryPath_not_kernels hbelow
  · obtain heq | heq | hbelow := h
    · exact entryPath_ne_kernelDir heq.symm
    · exact hne (kernelDir_inj heq).symm
    · exact kernelDir_not_below hbelow
  · obtain rfl | rfl | hbelow := h
    · exact entryPath_not_kernels h'
    · exact kernelDir_not_below h'
    · exact kernelDir_disjoint hne hbelow h'

theorem bootFile_not_loaderConf {name : CStr} (h : BootFile efi name path) :
    ¬ loaderConf efi <+: path := by
  rintro ⟨rest, rfl⟩
  obtain heq | heq | ⟨rel, heq⟩ := h
  · simp [loaderConf, entryPath, format] at heq
  · simp [loaderConf, kernelDir, format] at heq
  · simp [loaderConf, kernelDir, format] at heq

theorem bootFile_below {name : CStr} (h : BootFile efi name path) : Below efi path := by
  obtain rfl | rfl | ⟨rel, rfl⟩ := h
  · exact entryPath_below
  · exact ⟨"env/" ++ systemdbootEntryPrefix ++ "-" ++ name, by simp [kernelDir, format]⟩
  · exact kernelDir_below

end Apart

/-! ## Runs of hooks -/

/-- Hooks that are called one after the other, each in a state of which only the files are what
the one before it has left, and whatever each of them returns. -/
inductive HookRun (host : Host) (may : Handle → CStr → Sys → Hook → Prop) : Sys → Sys → Prop
  | start (s : Sys) : HookRun host may s s
  | between {s u v : Sys} (hrun : HookRun host may s u) (hfiles : v.files = u.files) :
      HookRun host may s v
  | hook {s u : Sys} {h : Handle} {mountpointBuf : CStr} {hook : Hook}
      (hrun : HookRun host may s u) (hmay : may h mountpointBuf u hook) :
      HookRun host may s (exportedPlugin host h mountpointBuf hook u).2

/-- A name of another environment. -/
def Other (b : BeName) (name : CStr) : Prop := '/' ∉ name ∧ name ≠ b.text

/-- The hook is called for other environments, and what it mounts is not on the EFI system
partition. -/
def Elsewhere (host : Host) (efi : CStr) (b : BeName) (h : Handle) (mountpointBuf : CStr) (s : Sys)
    (hook : Hook) : Prop :=
  propertyOf h "efi" = efi ∧
  match hook with
  | .preActivate | .midActivate _ _ | .postActivate _ => True
  | .postDestroy beName => Other b beName
  | .postCreate beName beMountpoint fromSnapshot =>
    Other b beName ∧ EspApart efi beMountpoint ∧
      (fromSnapshot = true → EspApart efi (saveDir h beMountpoint))
  | .postRename beNameOld beNameNew => Other b beNameOld ∧ Other b beNameNew
  | .preSnapshot beName isRoot =>
    EspApart efi (saveDir h (mountedAt host h mountpointBuf beName isRoot s))

section Runs
variable {host : Host} {efi path : CStr} {b : BeName} {s t : Sys}

theorem Other.disjoint {name : CStr} (hother : Other b name) (h : BootFile efi b.text path) :
    ¬ BootFile efi name path := by
  have hne : b ≠ ⟨name, hother.1⟩ := fun heq => hother.2 (congrArg BeName.text heq).symm
  exact bootFile_disjoint hne h

theorem Elsewhere.outside {h : Handle} {mountpointBuf : CStr} {hook : Hook}
    (hmay : Elsewhere host efi b h mountpointBuf s hook) (hfile : BootFile efi b.text path) :
    ¬ Area host h mountpointBuf s path hook := by
  obtain ⟨rfl, hmay⟩ := hmay
  cases hook with
  | preActivate | midActivate => exact id
  | postActivate beName => exact bootFile_not_loaderConf hfile
  | postDestroy beName => exact hmay.disjoint hfile
  | postCreate beName beMountpoint fromSnapshot =>
    obtain ⟨hother, hmount, hsave⟩ := hmay
    rintro (hown | hbelow | ⟨hfrom, hbelow⟩)
    · exact hother.disjoint hfile hown
    · exact hmount path (bootFile_below hfile) hbelow
    · exact hsave hfrom path (bootFile_below hfile) hbelow
  | postRename beNameOld beNameNew =>
    rintro (hold | hnew)
    · exact hmay.1.disjoint hfile hold
    · exact hmay.2.disjoint hfile hnew
  | preSnapshot beName isRoot => exact hmay path (bootFile_below hfile)

/-- No run of hooks touches the entry or a kernel of an environment that none of them is called
for, whether they succeed or fail. -/
theorem hooks_spare (hrule : TemplateRule host) (hrun : HookRun host (Elsewhere host efi b) s t)
    (hfile : BootFile efi b.text path) : t.readFile path = s.readFile path := by
  induction hrun with
  | start => rfl
  | between _ hfiles ih => exact (readFile_of_files hfiles).trans ih
  | hook _ hmay ih => exact (hook_outside hrule (run_eq_of_fst rfl) (hmay.outside hfile)).trans ih

/-- A kernel of `a` behind the destruction of `n` and an activation. -/
theorem hooks_spare_sample :
    (exportedPlugin (careful none) pluginHandle [] (.postActivate "n")
      (exportedPlugin (careful none) pluginHandle [] (.postDestroy "n") kernelSys).2).2.readFile
        (kernelDir "/efi" "a" ++ "/new") = kernelSys.readFile (kernelDir "/efi" "a" ++ "/new") := by
  have hrun : HookRun (careful none) (Elsewhere (careful none) "/efi" ⟨"a", by decide⟩) kernelSys
      (exportedPlugin (careful none) pluginHandle [] (.postActivate "n")
        (exportedPlugin (careful none) pluginHandle [] (.postDestroy "n") kernelSys).2).2 :=
    .hook (.hook (.start _) ⟨plugin_efi, by decide, by decide⟩) ⟨plugin_efi, trivial⟩
  exact hooks_spare (fun _ _ => ⟨_, rfl⟩) hrun (.inr (.inr ⟨"new", rfl⟩))

end Runs

end Zectl.Systemdboot.Hooks
