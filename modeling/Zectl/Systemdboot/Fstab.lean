import Zectl.Systemdboot.Loader

/-!
# Updates that fail on a line

The `fstab` of a new environment is rewritten as `loader.conf` is. Neither caller learns
that the callback failed, as `replace_matched` does not return it, so a file that is cut
off at the failing line takes the place of the original.
-/

namespace Zectl.Systemdboot.Fstab

open Zectl.Lib.StateRun Zectl.Lib.BasicRegex Zectl.Util.CString Zectl.Util.Files
open Zectl.Util.Replace Zectl.Zfs.System Zectl.Zfs.Steps Zectl.Libze.Init Zectl.Libze.Sample
open Zectl.Systemdboot.ReplaceMatched Zectl.Systemdboot.Loader

/-- `REGEX_BUFLEN`, the terminator included. -/
def regexBuflen : Nat := 512

/-- `libze_create_data` -/
structure LibzeCreateData where
  beName : CStr
  beMountpoint : CStr
  fromSnapshot : Bool

structure ReplaceFstabData where
  beName : CStr
  activeBe : CStr
  bootMountpoint : CStr
  efiMountpoint : CStr

/-- A text with its dots made ordinary. -/
def noDots (text : CStr) : LibzeError × CStr :=
  libzeUtilReplaceString "." "\\." zfsMaxDatasetNameLen text zfsMaxDatasetNameLen

/-- `form_fstab_regex` -/
def formFstabRegex (bootMountpoint efiMountpoint : CStr) : Except LibzeError Bre :=
  match noDots zePropNamespace, noDots efiMountpoint, noDots bootMountpoint with
  | (.success, nsNoDots), (.success, efiNoDots), (.success, bootNoDots) =>
    let regBuf := format ["\\(^[\t ]*", efiNoDots, "/env/", nsNoDots, "-\\)\\(.*\\)\\([\t ]*",
      bootNoDots, ".*$\\)"]
    if regexBuflen ≤ regBuf.length then .error .maxpathlen else
    match regcomp regBuf with
    | none => .error .unknown
    | some re => .ok re
  | (.success, _), (.success, _), (ret, _) => .error ret
  | (.success, _), (ret, _), _ => .error ret
  | (ret, _), _, _ => .error ret

/-- `get_fstab_line_from_regex` -/
def getFstabLineFromRegex (rmd : ReplaceFstabData) : LineReplaceFn :=
  fun line replaceLineBuf => do
    match formFstabRegex rmd.bootMountpoint rmd.efiMountpoint with
    | .error err => return (← libzeErrorSet err "Failed to match fstab regex.\n", replaceLineBuf)
    | .ok re =>
      let (ret, replaceTwo) := libzeUtilConcat "\\1" rmd.beName "    \\3" libzeMaxPathLen
      if ret ≠ 0 then
        return (← libzeErrorSet .maxpathlen "Exceeded max path length for regex buffer.\n",
          replaceLineBuf)
      rewriteLine re replaceTwo line replaceLineBuf

/-- What `update_fstab` hands to the callback. -/
def fstabData (h : Handle) (createData : LibzeCreateData) (bootMountpoint efiMountpoint : CStr) :
    ReplaceFstabData where
  beName := createData.beName
  activeBe :=
    if createData.fromSnapshot then "%ZECTLBE%"
    else (libzeBootEnvName h.envActivatedPath zfsMaxDatasetNameLen).2
  bootMountpoint
  efiMountpoint

/-- `update_fstab`. The message of a path that is too long prints a number as a string; what the
code does there is undefined, and the model goes on as if the number were not printed. -/
def updateFstab (host : Host) (h : Handle) (createData : LibzeCreateData)
    (bootMountpoint efiMountpoint : CStr) : Libze LibzeError := do
  if (libzeBootEnvName h.envActivatedPath zfsMaxDatasetNameLen).1 ≠ 0 then
    return ← libzeErrorSet .maxpathlen "Bootfs exceeds max path length.\n"
  let (len, fstabBuf) := strlcpy createData.beMountpoint libzeMaxPathLen
  let (len', fstabBuf) := strlcat fstabBuf "/etc/fstab" libzeMaxPathLen
  if libzeMaxPathLen ≤ len ∨ libzeMaxPathLen ≤ len' then
    return ← libzeErrorSet .maxpathlen "fstab exceeds max path length"
  updateFile host fstabBuf "Backup fstab exceeds max path length.\n" "close fd"
    (getFstabLineFromRegex (fstabData h createData bootMountpoint efiMountpoint))

/-! ## What the callers are when they get to the file -/

section Callers
variable {host : Host} {h : Handle} {createData : LibzeCreateData}
  {bootMountpoint efiMountpoint loaderPath beName : CStr} {s : Sys}

theorem getFstabLineFromRegex_issues {may : Call → Prop} (rmd : ReplaceFstabData)
    (line buf : CStr) : Issues host may (getFstabLineFromRegex rmd line buf) := by
  unfold getFstabLineFromRegex
  cases formFstabRegex rmd.bootMountpoint rmd.efiMountpoint with
  | error err => exact moves_bind (issues_errorSet _ _) fun _ => moves_pure _
  | ok re =>
    refine moves_ite (fun _ => ?_) fun _ => rewriteLine_issues _ _ _ _
    exact moves_bind (issues_errorSet _ _) fun _ => moves_pure _

theorem bootEnvName_activated (h : Handle) :
    (libzeBootEnvName h.envActivatedPath zfsMaxDatasetNameLen).1 = 0 := by
  rw [libzeBootEnvName_eq_ok_iff.mpr
    ⟨h.activatedPath_fits, h.activated_flat, h.activatedPath_eq⟩]

theorem updateLoaderDefault_eq : updateLoaderDefault host h loaderPath beName =
    updateFile host loaderPath "Backup loader.conf exceeds max path length.\n"
      "Failed to close fd" (getLoaderLineFromRegex beName) := by
  rw [updateLoaderDefault, if_neg (by simp [bootEnvName_activated])]

/-- The path of the table of an environment. -/
def fstabPath (createData : LibzeCreateData) : CStr :=
  createData.beMountpoint ++ ("/etc/fstab" : CStr)

theorem updateFstab_eq (hpath : (fstabPath createData).length < libzeMaxPathLen) :
    updateFstab host h createData bootMountpoint efiMountpoint =
      updateFile host (fstabPath createData) "Backup fstab exceeds max path length.\n" "close fd"
        (getFstabLineFromRegex (fstabData h createData bootMountpoint efiMountpoint)) := by
  have hmount : createData.beMountpoint.length + ("/etc/fstab" : CStr).length < libzeMaxPathLen := by
    simpa [fstabPath] using hpath
  have hcat : strlcat createData.beMountpoint "/etc/fstab" libzeMaxPathLen =
      (createData.beMountpoint.length + ("/etc/fstab" : CStr).length, fstabPath createData) := by
    rw [strlcat, if_neg (by omega), List.take_of_length_le (by omega), fstabPath]
  rw [updateFstab, if_neg (by simp [bootEnvName_activated])]
  simp only [strlcpy, hcat,
    take_of_fits (show createData.beMountpoint.length < libzeMaxPathLen by omega)]
  rw [if_neg (by omega)]

/-- A path that is too long is refused where a temporary file is made. -/
theorem makeTmpfile_long {filename backupError tmpfile : CStr} {t : Sys}
    (hpath : libzeMaxPathLen ≤ filename.length) :
    makeTmpfile host filename backupError s ≠ ((.success, tmpfile), t) := by
  intro hr
  unfold makeTmpfile at hr
  obtain ⟨ret, s1, -, hr⟩ := bind_run hr
  split at hr
  · rename_i hret
    cases hr
    exact hret rfl
  rcases hconcat : libzeUtilConcat filename "." "bak" libzeMaxPathLen with ⟨err, newFilename⟩
  rw [hconcat] at hr
  dsimp only at hr
  split at hr
  · cases hr
  rename_i herr
  rw [not_not.mp herr] at hconcat
  obtain ⟨hlen, -⟩ := (libzeUtilConcat_eq_ok_iff (by decide)).mp hconcat
  simp only [List.length_append] at hlen
  omega

end Callers

/-! ## Failures -/

/-- A failure of the callback is what `replace_matched` returns. -/
def Reported (host : Host) (filename filenameNew : CStr) (replaceFn : LineReplaceFn) (s : Sys) :
    Prop :=
  ∀ err, MatchedFails host filename filenameNew replaceFn s err →
    (replaceMatched host filename filenameNew replaceFn s).1 = err

/-- After a failure of the callback the caller reports one and leaves the file alone. -/
def Kept (host : Host) (filename backupError : CStr) (replaceFn : LineReplaceFn)
    (update : Libze LibzeError) (s : Sys) : Prop :=
  ∀ err, UpdateFails host filename backupError replaceFn s err →
    (update s).1 ≠ .success ∧ (update s).2.readFile filename = s.readFile filename

def loaderBackupError : CStr := "Backup loader.conf exceeds max path length.\n"

def fstabBackupError : CStr := "Backup fstab exceeds max path length.\n"

/-- `replace_matched` never reports a failure. Its callers do when the temporary file is closed
and cannot be renamed. -/
theorem failures_reported_iff (host : Host) (h : Handle) (filename filenameNew loaderPath beName : CStr)
    (replaceFn : LineReplaceFn) (createData : LibzeCreateData) (bootMountpoint efiMountpoint : CStr)
    (s : Sys) (hrule : MkstempRule host)
    (hloader : CloseGranted host loaderPath loaderBackupError (getLoaderLineFromRegex beName) s)
    (hfstab : CloseGranted host (fstabPath createData) fstabBackupError
      (getFstabLineFromRegex (fstabData h createData bootMountpoint efiMountpoint)) s) :
    (Reported host filename filenameNew replaceFn s ↔
      ∀ err, ¬ MatchedFails host filename filenameNew replaceFn s err) ∧
    (Kept host loaderPath loaderBackupError (getLoaderLineFromRegex beName)
        (updateLoaderDefault host h loaderPath beName) s ↔
      (∀ err, ¬ UpdateFails host loaderPath loaderBackupError (getLoaderLineFromRegex beName) s
        err) ∨ Refused host loaderPath loaderBackupError (getLoaderLineFromRegex beName) s) ∧
    (Kept host (fstabPath createData) fstabBackupError
        (getFstabLineFromRegex (fstabData h createData bootMountpoint efiMountpoint))
        (updateFstab host h createData bootMountpoint efiMountpoint) s ↔
      (∀ err, ¬ UpdateFails host (fstabPath createData) fstabBackupError
        (getFstabLineFromRegex (fstabData h createData bootMountpoint efiMountpoint)) s err) ∨
      Refused host (fstabPath createData) fstabBackupError
        (getFstabLineFromRegex (fstabData h createData bootMountpoint efiMountpoint)) s) := by
  refine ⟨replaceMatched_reports_iff, ?_, ?_⟩
  · rw [updateLoaderDefault_eq]
    exact updateFile_keeps_iff hrule (fun _ _ => getLoaderLineFromRegex_issues _ _) hloader rfl
  · by_cases hpath : (fstabPath createData).length < libzeMaxPathLen
    · rw [updateFstab_eq hpath]
      exact updateFile_keeps_iff hrule (fun _ _ => getFstabLineFromRegex_issues _ _ _) hfstab rfl
    · have hno : ∀ err, ¬ UpdateFails host (fstabPath createData) fstabBackupError
          (getFstabLineFromRegex (fstabData h createData bootMountpoint efiMountpoint)) s err := by
        rintro err ⟨tmpfile, s1, hmade, -⟩
        exact makeTmpfile_long (Nat.not_lt.mp hpath) hmade
      exact iff_of_true (fun err hfail => absurd hfail (hno err)) (.inl hno)

theorem failures_reported_iff_sample :
    Kept obliging "/loader.conf" loaderBackupError (getLoaderLineFromRegex "b")
        (updateLoaderDefault obliging (sampleHandle none true) "/loader.conf" "b")
        (sampleFile "default x\n") ↔
      (∀ err, ¬ UpdateFails obliging "/loader.conf" loaderBackupError (getLoaderLineFromRegex "b")
        (sampleFile "default x\n") err) ∨
      Refused obliging "/loader.conf" loaderBackupError (getLoaderLineFromRegex "b")
        (sampleFile "default x\n") :=
  (failures_reported_iff obliging (sampleHandle none true) "/loader.conf" "/tmp" "/loader.conf" "b"
    (getLoaderLineFromRegex "b") ⟨"b", "/tmp/be", false⟩ "/boot" "/efi" (sampleFile "default x\n")
    obliging_mkstempRule (fun _ _ _ => rfl) (fun _ _ _ => rfl)).2.1

def longName : CStr := List.replicate 236 'n'

/-- The entry of a long name makes the second line too long for the buffer; the file is cut off
behind the first one, and the update succeeds. -/
theorem not_kept_when_line_too_long :
    ¬ ∀ (host : Host) (h : Handle) (loaderPath beName : CStr) (s : Sys), MkstempRule host →
      Kept host loaderPath loaderBackupError (getLoaderLineFromRegex beName)
        (updateLoaderDefault host h loaderPath beName) s := by
  intro hall
  let s := sampleFile "timeout 3\ndefault x\n"
  let fn := getLoaderLineFromRegex longName
  let s1 := (makeTmpfile obliging "/loader.conf" loaderBackupError s).2
  let tmpfile : CStr := "/loader.conf.zectl-sdboot.XXXXXX"
  let s2 := (call obliging (.file (.fopenWrite tmpfile)) s1).2
  let s3 := (fopenRead obliging "/loader.conf" s2).2
  have hfails : FailsOn obliging tmpfile fn (readLines "timeout 3\ndefault x\n") [] s3 .maxpathlen :=
    (failsOn_iff (by decide)).mpr (by decide +kernel)
  have hfail : UpdateFails obliging "/loader.conf" loaderBackupError fn s .maxpathlen := by
    refine ⟨tmpfile, s1, run_eq_of_fst (by decide +kernel), _, s2, s3, ?_, ?_, hfails⟩
    · exact run_eq_of_fst (by decide +kernel)
    · exact run_eq_of_fst (by rfl)
  have hkept := hall obliging (sampleHandle none true) "/loader.conf" longName s
    obliging_mkstempRule .maxpathlen hfail
  exact hkept.1 (by decide +kernel)

end Zectl.Systemdboot.Fstab
