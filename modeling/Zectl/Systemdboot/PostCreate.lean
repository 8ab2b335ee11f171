import Zectl.Systemdboot.PreSnapshot

/-!
# The boot files of a new environment

An environment gets its entry and its kernels from the activated one, or from what a snapshot
has saved. The saved directory is removed behind that, and nobody asks whether it is gone.
-/

namespace Zectl.Systemdboot.PostCreate

open Zectl.Lib.StateRun Zectl.Util.CString Zectl.Util.Files Zectl.Util.Writes Zectl.Util.Directory
open Zectl.Util.CopyDir Zectl.Zfs.System Zectl.Zfs.Steps Zectl.Libze.Init
open Zectl.Systemdboot.ReplaceMatched Zectl.Systemdboot.Loader Zectl.Systemdboot.Fstab
open Zectl.Systemdboot.Entry Zectl.Systemdboot.Rewritten Zectl.Systemdboot.PreSnapshot

/-- What an environment is made from. -/
structure CreateSource where
  loaderReplace : CStr
  loaderBuf : CStr
  kernelSourceDir : CStr
  kernelMountedSnapDir : CStr := []

/-- The paths in a mounted snapshot with those of `fstab`. The second message has a `%` of its
own, so its text is undefined. -/
def snapshotPaths (beMountpoint kernelSnapDir : CStr) : Except CStr (CreateSource × CStr × CStr) :=
  match concatPath beMountpoint "" kernelSnapDir with
  | none => .error "Mounted BE kernelsnapshotdirectory exceeds max path length.\n"
  | some kernelMountedSnapDir =>
  match concatPath kernelMountedSnapDir "/loader/entries/" "org.zectl-%ZECTLBE%.conf" with
  | none => .error (format ["BE kernelsnapshotdirectory subdirectory path to ",
      "org.zectl-%ZECTLBE%.conf exceeds max path length.\n"])
  | some loaderBuf =>
  match concatPath kernelMountedSnapDir "" "/env/boot" with
  | none => .error (format ["Mounted BE kernelsnapshotdirectory subdirectory path ",
      "to kernels exceeds max path length.\n"])
  | some kernelSourceDir =>
  match concatPath kernelMountedSnapDir "" "/etc/fstab" with
  | none => .error (format ["Mounted BE kernelsnapshotdirectory subdirectory path ",
      "to fstab exceeds max path length.\n"])
  | some fstabBuf =>
  match concatPath beMountpoint "" "/etc/fstab" with
  | none => .error "Path to fstab exceeds max path length.\n"
  | some fstabDestBuf =>
    .ok ({ loaderReplace := placeholder, loaderBuf, kernelSourceDir, kernelMountedSnapDir },
      fstabBuf, fstabDestBuf)

/-- The source in a snapshot, whose `fstab` is put in place. -/
def snapshotSource (host : Host) (beMountpoint kernelSnapDir : CStr) :
    Libze (Except LibzeError CreateSource) := do
  match snapshotPaths beMountpoint kernelSnapDir with
  | .error message => return .error (← libzeErrorSet .maxpathlen message)
  | .ok (source, fstabBuf, fstabDestBuf) =>
    if (← libzeUtilCopyFile host fstabBuf fstabDestBuf) ≠ 0 then
      return .error (← libzeErrorSet .unknown (format ["Failed to copy ", fstabBuf, " to ",
        fstabDestBuf, ".\n"]))
    return .ok source

/-- The source in the activated environment. -/
def activatedSource (h : Handle) (efiMountpoint : CStr) : Libze (Except LibzeError CreateSource) := do
  let (ret, loaderReplace) := libzeBootEnvName h.envActivatedPath zfsMaxDatasetNameLen
  if ret ≠ 0 then
    return .error (← libzeErrorSet .maxpathlen "Bootfs exceeds max path length.\n")
  match formLoaderEntryConfig efiMountpoint loaderReplace,
      formLoaderEntryPath efiMountpoint "env" loaderReplace with
  | some loaderBuf, some kernelSourceDir => return .ok { loaderReplace, loaderBuf, kernelSourceDir }
  | _, _ =>
    return .error (← libzeErrorSet .maxpathlen "BE loader path exceeds max path length.\n")

/-- `libze_plugin_systemdboot_post_create` behind the choice of the source. -/
def createFrom (host : Host) (h : Handle) (createData : LibzeCreateData)
    (efiMountpoint bootMountpoint newLoaderBuf : CStr) (source : CreateSource) :
    Libze LibzeError := do
  let ret ← replaceBeName host h createData.beName source.loaderReplace source.loaderBuf newLoaderBuf
  if ret ≠ .success then return ret
  match formLoaderEntryPath efiMountpoint "env" createData.beName with
  | none => libzeErrorSet .maxpathlen "BE loader path exceeds max path length.\n"
  | some newLoaderBuf =>
    if (← libzeUtilCopydir host source.kernelSourceDir newLoaderBuf) ≠ 0 then
      return ← libzeErrorSet .unknown (format ["Failed to copy ", source.kernelSourceDir, " to ",
        newLoaderBuf, ".\n"])
    if createData.fromSnapshot then
      let _ ← libzeUtilRmdir host source.kernelMountedSnapDir
    updateFstab host h createData bootMountpoint efiMountpoint

/-- `libze_plugin_systemdboot_post_create` -/
def postCreate (host : Host) (h : Handle) (createData : LibzeCreateData) : Libze LibzeError := do
  let (ret, bootMountpoint) ← pluginPropGet h "boot"
  if ret ≠ .success then return ← libzeErrorSet .unknown (noAccess "boot")
  let (ret, efiMountpoint) ← pluginPropGet h "efi"
  if ret ≠ .success then return ← libzeErrorSet .unknown (noAccess "efi")
  let (ret, kernelSnapDir) ← pluginPropGet h "kernelsnapshotdirectory"
  if ret ≠ .success then return ← libzeErrorSet .unknown (noAccess "kernelsnapshotdirectory")
  match formLoaderEntryConfig efiMountpoint createData.beName with
  | none => libzeErrorSet .maxpathlen "BE loader path exceeds max path length.\n"
  | some newLoaderBuf =>
    let source ←
      if createData.fromSnapshot then snapshotSource host createData.beMountpoint kernelSnapDir
      else activatedSource h efiMountpoint
    match source with
    | .error ret => return ret
    | .ok source =>
      createFrom host h createData efiMountpoint bootMountpoint newLoaderBuf source

/-! ## Creating from a snapshot -/

section Snapshot
variable {host : Host} {h : Handle} {createData : LibzeCreateData} {s t : Sys}

theorem snapshotPaths_ok {beMountpoint kernelSnapDir fstabBuf fstabDestBuf : CStr}
    {source : CreateSource}
    (hpaths : snapshotPaths beMountpoint kernelSnapDir = .ok (source, fstabBuf, fstabDestBuf)) :
    source = { loaderReplace := placeholder, loaderBuf := entryDest (beMountpoint ++ kernelSnapDir),
               kernelSourceDir := bootDest (beMountpoint ++ kernelSnapDir),
               kernelMountedSnapDir := beMountpoint ++ kernelSnapDir } ∧
    fstabBuf = fstabDest (beMountpoint ++ kernelSnapDir) ∧ fstabDestBuf = fstabOf beMountpoint := by
  unfold snapshotPaths at hpaths
  split at hpaths
  · cases hpaths
  rename_i dir hdir
  split at hpaths
  · cases hpaths
  rename_i loader hloader
  split at hpaths
  · cases hpaths
  rename_i kernels hkernels
  split at hpaths
  · cases hpaths
  rename_i fstab hfstab
  split at hpaths
  · cases hpaths
  rename_i dest hdest
  cases hpaths
  obtain rfl := concatPath_some hdir
  obtain rfl := concatPath_some hloader
  obtain rfl := concatPath_some hkernels
  obtain rfl := concatPath_some hfstab
  obtain rfl := concatPath_some hdest
  simp [bootDest, entryDest, fstabDest, fstabOf]

/-- The steps of a creation from a snapshot that succeeds. -/
theorem postCreate_snapshot (hfrom : createData.fromSnapshot = true)
    (hr : postCreate host h createData s = (.success, t)) :
    ∃ s1 s2 s3 s4 code,
      libzeUtilCopyFile host (fstabDest (saveDir h createData.beMountpoint))
        (fstabOf createData.beMountpoint) s = (0, s1) ∧
      replaceBeName host h createData.beName placeholder
        (entryDest (saveDir h createData.beMountpoint))
        (entryPath (propertyOf h "efi") createData.beName) s1 = (.success, s2) ∧
      libzeUtilCopydir host (bootDest (saveDir h createData.beMountpoint))
        (kernelDir (propertyOf h "efi") createData.beName) s2 = (0, s3) ∧
      libzeUtilRmdir host (saveDir h createData.beMountpoint) s3 = (code, s4) ∧
      updateFstab host h createData (propertyOf h "boot") (propertyOf h "efi") s4 =
        (.success, t) := by
  obtain ⟨-, hr⟩ := pluginPropGet_bind hr
  obtain ⟨-, hr⟩ := pluginPropGet_bind hr
  obtain ⟨-, hr⟩ := pluginPropGet_bind hr
  rw [formLoaderEntryConfig_eq] at hr
  dsimp only at hr
  by_cases hlong : libzeMaxPathLen ≤ (entryPath (propertyOf h "efi") createData.beName).length
  · rw [if_pos hlong] at hr
    cases hr
  rw [if_neg hlong] at hr
  dsimp only at hr
  rw [if_pos hfrom] at hr
  obtain ⟨source, s1, hsource, hr⟩ := bind_run hr
  cases hpaths : snapshotPaths createData.beMountpoint (propertyOf h "kernelsnapshotdirectory") with
  | error message =>
    rw [snapshotSource, hpaths] at hsource
    cases hsource
    cases hr
  | ok paths =>
  obtain ⟨source', fstabBuf, fstabDestBuf⟩ := paths
  rw [snapshotSource, hpaths] at hsource
  obtain ⟨rfl, rfl, rfl⟩ := snapshotPaths_ok hpaths
  obtain ⟨code, u, hcopy, hsource⟩ := bind_run hsource
  split at hsource
  · cases hsource
    cases hr
  rename_i hcode
  rw [not_not.mp hcode] at hcopy
  cases hsource
  obtain ⟨ret, s2, hentry, hr⟩ := bind_run hr
  split at hr
  · rename_i hret
    exact absurd (Prod.mk.inj hr).1 hret
  rename_i hret
  rw [not_not.mp hret] at hentry
  rw [formLoaderEntryPath_env] at hr
  by_cases hlong' : libzeMaxPathLen ≤ (kernelDir (propertyOf h "efi") createData.beName).length
  · rw [if_pos hlong'] at hr
    cases hr
  rw [if_neg hlong'] at hr
  obtain ⟨code', s3, hcopydir, hr⟩ := bind_run hr
  split at hr
  · cases hr
  rename_i hcode'
  rw [not_not.mp hcode'] at hcopydir
  obtain ⟨code4, s4, hrmdir, hr⟩ := bind_run hr
  exact ⟨_, s2, s3, s4, code4, hcopy, hentry, hcopydir, hrmdir, hr⟩

end Snapshot

/-! ## The kernels of an environment that is created from a snapshot -/

/-- Nothing on the EFI system partition lies below the directory. -/
def EspApart (efiMountpoint dir : CStr) : Prop := ∀ path, Below efiMountpoint path → ¬ Below dir path

section Kernels
variable {host : Host} {h : Handle} {createData : LibzeCreateData} {efi beName dir rel : CStr}
  {s t : Sys}

theorem kernelDir_below : Below efi (kernelDir efi beName ++ '/' :: rel) :=
  ⟨"env/" ++ systemdbootEntryPrefix ++ "-" ++ beName ++ '/' :: rel, by simp [kernelDir, format]⟩

theorem entryPath_below : Below efi (entryPath efi beName) :=
  ⟨"loader/entries/" ++ systemdbootEntryPrefix ++ "-" ++ beName ++ ".conf", by
    simp [entryPath, format]⟩

theorem kernelDir_ne_entryPath {beName' : CStr} :
    kernelDir efi beName ++ '/' :: rel ≠ entryPath efi beName' := by
  simp [kernelDir, entryPath, format]

theorem bootDest_below : Below dir (bootDest dir ++ '/' :: rel) :=
  ⟨"env/boot/" ++ rel, by simp [bootDest]⟩

theorem bootDest_ne_fstabOf {mountpoint : CStr} :
    bootDest (saveDir h mountpoint) ++ '/' :: rel ≠ fstabOf mountpoint := by
  rw [saveDir]
  generalize propertyOf h "kernelsnapshotdirectory" = dir
  intro heq
  have hlength := congrArg List.length heq
  simp only [bootDest, fstabOf, List.length_append, List.length_cons] at hlength
  have hdir : dir = [] := by
    rw [← List.length_eq_zero_iff]
    simp at hlength
    omega
  simp [bootDest, fstabOf, hdir] at heq

theorem fstabOf_below (suffix : CStr) : Below dir (fstabOf dir ++ suffix) :=
  ⟨"etc/fstab" ++ suffix, by simp [fstabOf]⟩

theorem updateFstab_touches (hrule : TemplateRule host) :
    Issues host (TouchesIn (Below createData.beMountpoint))
      (updateFstab host h createData (propertyOf h "boot") (propertyOf h "efi")) := by
  by_cases hpath : (fstabPath createData).length < libzeMaxPathLen
  · rw [updateFstab_eq hpath]
    apply (updateFile_touches hrule (getFstabLineFromRegex_steady _)).weaken
    intro c hc
    apply hc.mono
    rintro p ⟨suffix, rfl⟩
    exact fstabOf_below suffix
  · have hlong : libzeMaxPathLen ≤ (strlcpy createData.beMountpoint libzeMaxPathLen).1 ∨
        libzeMaxPathLen ≤ (strlcat (strlcpy createData.beMountpoint libzeMaxPathLen).2 "/etc/fstab"
          libzeMaxPathLen).1 := by
      by_cases hmnt : libzeMaxPathLen ≤ createData.beMountpoint.length
      · exact .inl hmnt
      · apply Or.inr
        rw [fstabPath, List.length_append] at hpath
        rw [strlcpy, take_of_fits (Nat.not_le.mp hmnt), strlcat, if_neg hmnt]
        dsimp only
        omega
    unfold updateFstab
    apply moves_ite (fun _ => issues_errorSet _ _)
    intro _
    dsimp only
    rw [if_pos hlong]
    exact issues_errorSet _ _

/-- What a creation from a snapshot leaves in a kernel directory that was empty, when no write to
it was refused. -/
theorem postCreate_kernels (hopen : OpenRule host) (htemplate : TemplateRule host)
    (hmount : EspApart (propertyOf h "efi") createData.beMountpoint)
    (hsave : EspApart (propertyOf h "efi") (saveDir h createData.beMountpoint))
    (htree : IsTree (below s (bootDest (saveDir h createData.beMountpoint))))
    (hfresh : ∀ rel, below s (kernelDir (propertyOf h "efi") createData.beName) rel = none)
    (hfrom : createData.fromSnapshot = true)
    (hgranted : ∀ rel, WritesGranted s t
      (kernelDir (propertyOf h "efi") createData.beName ++ '/' :: rel))
    (hr : postCreate host h createData s = (.success, t)) :
    below t (kernelDir (propertyOf h "efi") createData.beName) =
      below s (bootDest (saveDir h createData.beMountpoint)) := by
  obtain ⟨s1, s2, s3, s4, code, hfstab, hentry, hcopy, hrmdir, hupdate⟩ :=
    postCreate_snapshot hfrom hr
  have hfstab' := @copyFile_issues host (fstabDest (saveDir h createData.beMountpoint))
    (fstabOf createData.beMountpoint) (TouchesIn (· = fstabOf createData.beMountpoint)) trivial rfl
    fun _ => rfl
  have hentry' := (@replaceBeName_saves host h createData.beName placeholder
    (entryDest (saveDir h createData.beMountpoint))
    (entryPath (propertyOf h "efi") createData.beName)).weaken fun _ hc => hc.1
  have hsource : below s2 (bootDest (saveDir h createData.beMountpoint)) =
      below s (bootDest (saveDir h createData.beMountpoint)) := by
    funext rel
    have hne : bootDest (saveDir h createData.beMountpoint) ++ '/' :: rel ≠
        entryPath (propertyOf h "efi") createData.beName := by
      intro heq
      exact hsave _ entryPath_below (heq ▸ bootDest_below)
    rw [below, readFile_of_touches hentry' hentry hne,
      readFile_of_touches hfstab' hfstab bootDest_ne_fstabOf]
    rfl
  have hdest : ∀ rel, below s2 (kernelDir (propertyOf h "efi") createData.beName) rel = none := by
    intro rel
    have hne : kernelDir (propertyOf h "efi") createData.beName ++ '/' :: rel ≠
        fstabOf createData.beMountpoint := by
      intro heq
      apply hmount _ kernelDir_below
      rw [heq, ← List.append_nil (fstabOf _)]
      exact fstabOf_below []
    rw [below, readFile_of_touches hentry' hentry kernelDir_ne_entryPath,
      readFile_of_touches hfstab' hfstab hne]
    exact hfresh rel
  have hapart : Apart (bootDest (saveDir h createData.beMountpoint))
      (kernelDir (propertyOf h "efi") createData.beName) := by
    rintro rel ⟨rel', heq⟩
    exact hsave _ (heq ▸ kernelDir_below) bootDest_below
  have hran2 : Ran s s2 := (ran_of_issues hfstab' hfstab).trans (ran_of_issues hentry' hentry)
  have hran3 : Ran s2 s3 := ran_of_issues (copyTree_saves _ _ _) hcopy
  have hrest : Ran s3 t := (ran_of_issues libzeUtilRmdir_touches hrmdir).trans
    (ran_of_issues (updateFstab_touches htemplate) hupdate)
  funext rel
  have hcopied := copyTree_below hopen hapart (hsource ▸ htree) hcopy
    (fun rel => (hgranted rel).within hran2 hran3 hrest) rel
  rw [hdest, Option.or_none, hsource] at hcopied
  rw [← hcopied, below, readFile_of_touches (updateFstab_touches htemplate) hupdate
    (hmount _ kernelDir_below), readFile_of_touches libzeUtilRmdir_touches hrmdir
    (hsave _ kernelDir_below)]
  rfl

end Kernels

end Zectl.Systemdboot.PostCreate
