import Zectl.Systemdboot.Fstab
import Zectl.Systemdboot.Rewritten

/-!
# Loader entries

The entry of a boot environment in `loader/entries` and its kernels in `env` carry its name.
An entry is copied for another name line by line: the title, the paths of the kernel and the
dataset are rewritten, any other line stays.
-/

namespace Zectl.Systemdboot.Entry

open Zectl.Lib.StateRun Zectl.Lib.BasicRegex Zectl.Util.CString Zectl.Util.Files Zectl.Util.Replace
open Zectl.Util.Writes Zectl.Zfs.System Zectl.Zfs.Steps Zectl.Libze.Init
open Zectl.Systemdboot.ReplaceMatched Zectl.Systemdboot.Loader Zectl.Systemdboot.Fstab
open Zectl.Systemdboot.Rewritten

/-- `libze_plugin_form_namespace` for this plugin. -/
def namespaceBuf : CStr := format [zePropNamespace, ".", "systemdboot"]

/-- The value of a property of the plugin, empty when it is not set. -/
def propertyOf (h : Handle) (property : CStr) : CStr :=
  (h.zeProps.lookup (format [namespaceBuf, ":", property])).getD []

/-- `libze_be_prop_get` in the namespace of the plugin, whose names go into the buffer. -/
def pluginPropGet (h : Handle) (property : CStr) : Libze (LibzeError × CStr) := do
  if zfsMaxproplen ≤ (propertyOf h property).length then
    return (← libzeErrorSet .unknown "Property is too large.\n",
      (propertyOf h property).take (zfsMaxproplen - 1))
  return (.success, propertyOf h property)

def noAccess (property : CStr) : CStr :=
  format ["Couldn't access systemdboot:", property, " property.\n"]

/-! ## Paths -/

/-- `form_loader_entry_path` -/
def formLoaderEntryPath (efiMountpoint middleDir beName : CStr) : Option CStr :=
  let loaderBuf := format [efiMountpoint, "/", middleDir, "/", systemdbootEntryPrefix, "-", beName]
  if libzeMaxPathLen ≤ loaderBuf.length then none else some loaderBuf

/-- `form_loader_entry_config` -/
def formLoaderEntryConfig (efiMountpoint beName : CStr) : Option CStr :=
  match formLoaderEntryPath efiMountpoint "loader/entries" beName with
  | none => none
  | some loaderBuf =>
    let (len, loaderBuf) := strlcat loaderBuf ".conf" libzeMaxPathLen
    if libzeMaxPathLen ≤ len then none else some loaderBuf

/-- The directory with the kernels of a boot environment. -/
def kernelDir (efiMountpoint beName : CStr) : CStr :=
  format [efiMountpoint, "/env/", systemdbootEntryPrefix, "-", beName]

/-- The entry of a boot environment. -/
def entryPath (efiMountpoint beName : CStr) : CStr :=
  format [efiMountpoint, "/loader/entries/", systemdbootEntryPrefix, "-", beName, ".conf"]

/-! ## Lines -/

/-- `regcomp` of what `snprintf` wrote, unless that was cut. -/
def compileRegex (regBuf : CStr) : Except LibzeError Bre :=
  if regexBuflen ≤ regBuf.length then .error .maxpathlen else
  match regcomp regBuf with
  | none => .error .unknown
  | some re => .ok re

/-- `form_title_regex`, where the dots of the name stand for any character. -/
def formTitleRegex (beName : CStr) : Except LibzeError Bre :=
  let (ret, regBuf) := libzeUtilConcat "\\(title.*\\)\\(" beName "\\)\\(.*\\)" regexBuflen
  if ret ≠ 0 then .error .minusOne else
  match regcomp regBuf with
  | none => .error .unknown
  | some re => .ok re

/-- `form_linux_regex` -/
def formLinuxRegex (beName : CStr) : Except LibzeError Bre :=
  match noDots beName, noDots zePropNamespace with
  | (.success, beNoDots), (.success, nsNoDots) =>
    compileRegex (format ["\\(linux\\|initrd\\)\\(.*\\)\\(", nsNoDots, "-\\)\\(", beNoDots,
      "\\)\\(/.*\\)"])
  | (.success, _), (ret, _) => .error ret
  | (ret, _), _ => .error ret

/-- `form_dataset_regex` -/
def formDatasetRegex (beRoot beName : CStr) : Except LibzeError Bre :=
  match noDots beName, noDots beRoot with
  | (.success, beNoDots), (.success, beRootNoDots) =>
    compileRegex (format ["\\(options.*zfs=", beRootNoDots, "/\\)\\(", beNoDots, "\\)\\(.*\\)"])
  | (.success, _), (ret, _) => .error ret
  | (ret, _), _ => .error ret

/-- The message `regex_msg`. -/
def regexMessage (key : CStr) : CStr :=
  format ["Failed to set up regular expression for '", key,
    "' in bootloader configuration file.\n"]

/-- `get_cfg_line_from_regex` -/
def getCfgLineFromRegex (h : Handle) (beName activeBe : CStr) : LineReplaceFn :=
  fun line replaceLineBuf => do
    match formLinuxRegex activeBe with
    | .error err => return (← libzeErrorSet err (regexMessage "linux|initrd"), replaceLineBuf)
    | .ok reLinux =>
    match formTitleRegex activeBe with
    | .error err => return (← libzeErrorSet err (regexMessage "title"), replaceLineBuf)
    | .ok reTitle =>
    match formDatasetRegex h.envRoot activeBe with
    | .error err => return (← libzeErrorSet err (regexMessage "options"), replaceLineBuf)
    | .ok reDataset =>
      let (ret, replaceTwo) := libzeUtilConcat "\\1" beName "\\3" libzeMaxPathLen
      if ret ≠ 0 then return (.minusOne, replaceLineBuf)
      let (ret, replaceFour) := libzeUtilConcat "\\1\\2\\3" beName "\\5" libzeMaxPathLen
      if ret ≠ 0 then return (.minusOne, replaceLineBuf)
      if (regexec reTitle (cString line)).isSome then
        return ← rewriteLine reTitle replaceTwo line replaceLineBuf
      if (regexec reLinux (cString line)).isSome then
        return ← rewriteLine reLinux replaceFour line replaceLineBuf
      rewriteLine reDataset replaceTwo line replaceLineBuf

/-- `replace_be_name` -/
def replaceBeName (host : Host) (h : Handle) (beName activeBe filename newFilename : CStr) :
    Libze LibzeError := do
  let ret ← fileAccessible host filename
  if ret ≠ .success then return ret
  if zfsMaxDatasetNameLen ≤ (strlcpy activeBe zfsMaxDatasetNameLen).1 then
    return ← libzeErrorSet .maxpathlen "Regex exceeds max path length.\n"
  replaceMatched host filename newFilename (getCfgLineFromRegex h beName activeBe)

/-! ## What the callback does -/

section Callback
variable {host : Host} {h : Handle} {beName activeBe efiMountpoint : CStr} {may : Call → Prop}

theorem fail_issues {err : LibzeError} {message buf : CStr} :
    Issues host may (libzeErrorSet err message >>= fun e => pure (e, buf)) :=
  moves_bind (issues_errorSet _ _) fun _ => moves_pure _

theorem getCfgLineFromRegex_issues (line buf : CStr) :
    Issues host may (getCfgLineFromRegex h beName activeBe line buf) := by
  unfold getCfgLineFromRegex
  cases formLinuxRegex activeBe with
  | error err => exact fail_issues
  | ok reLinux =>
  cases formTitleRegex activeBe with
  | error err => exact fail_issues
  | ok reTitle =>
  cases formDatasetRegex h.envRoot activeBe with
  | error err => exact fail_issues
  | ok reDataset =>
    dsimp only
    apply moves_ite (fun _ => moves_pure _)
    intro _
    apply moves_ite (fun _ => moves_pure _)
    intro _
    apply moves_ite (fun _ => rewriteLine_issues _ _ _ _)
    intro _
    exact moves_ite (fun _ => rewriteLine_issues _ _ _ _) fun _ => rewriteLine_issues _ _ _ _

theorem formLoaderEntryPath_env : formLoaderEntryPath efiMountpoint "env" beName =
    if libzeMaxPathLen ≤ (kernelDir efiMountpoint beName).length then none
    else some (kernelDir efiMountpoint beName) := by
  have heq : format [efiMountpoint, "/", "env", "/", systemdbootEntryPrefix, "-", beName] =
      kernelDir efiMountpoint beName := by
    simp [kernelDir, format]
  rw [formLoaderEntryPath, heq]

theorem formLoaderEntryConfig_eq : formLoaderEntryConfig efiMountpoint beName =
    if libzeMaxPathLen ≤ (entryPath efiMountpoint beName).length then none
    else some (entryPath efiMountpoint beName) := by
  have heq : entryPath efiMountpoint beName = format [efiMountpoint, "/", "loader/entries", "/",
      systemdbootEntryPrefix, "-", beName] ++ (".conf" : CStr) := by
    simp [entryPath, format]
  rw [formLoaderEntryConfig, formLoaderEntryPath, heq]
  generalize format [efiMountpoint, "/", "loader/entries", "/", systemdbootEntryPrefix, "-",
    beName] = path
  rw [List.length_append]
  by_cases hlong : libzeMaxPathLen ≤ path.length
  · rw [if_pos hlong, if_pos (by omega)]
  · rw [if_neg hlong]
    dsimp only [strlcat]
    rw [if_neg hlong]
    by_cases hfit : libzeMaxPathLen ≤ path.length + (".conf" : CStr).length
    · rw [if_pos hfit, if_pos hfit]
    · rw [if_neg hfit, if_neg hfit, List.take_of_length_le (by omega)]

end Callback

/-! ## Reading a property -/

section Property
variable {h : Handle} {property : CStr} {s t : Sys}

theorem pluginPropGet_eq (hfit : (propertyOf h property).length < zfsMaxproplen) :
    pluginPropGet h property = pure (.success, propertyOf h property) := by
  rw [pluginPropGet, if_neg (Nat.not_le.mpr hfit)]

theorem pluginPropGet_long (hlong : zfsMaxproplen ≤ (propertyOf h property).length) (s : Sys) :
    (pluginPropGet h property s).1.1 ≠ .success := by
  rw [pluginPropGet, if_pos hlong]
  intro hret
  cases hret

/-- A hook goes on with the value of a property, or it fails there. -/
theorem pluginPropGet_cases {k : LibzeError × CStr → Libze LibzeError} {r : LibzeError}
    (hr : (pluginPropGet h property >>= fun r =>
      if r.1 ≠ .success then do return ← libzeErrorSet .unknown (noAccess property) else k r) s =
        (r, t)) :
    (r ≠ .success ∧ Untouched s t) ∨ ((propertyOf h property).length < zfsMaxproplen ∧
      k (.success, propertyOf h property) s = (r, t)) := by
  by_cases hlong : zfsMaxproplen ≤ (propertyOf h property).length
  · rw [run_bind, if_pos (pluginPropGet_long hlong s), pluginPropGet, if_pos hlong] at hr
    have hsame := Untouched.refl s
    cases hr
    exact .inl ⟨by decide, ⟨List.suffix_refl _, hsame.ran.files⟩, fun _ => rfl, hsame.idle⟩
  · have hfit := Nat.not_le.mp hlong
    rw [pluginPropGet_eq hfit, run_bind] at hr
    exact .inr ⟨hfit, hr⟩

theorem pluginPropGet_bind {k : LibzeError × CStr → Libze LibzeError}
    (hr : (pluginPropGet h property >>= fun r =>
      if r.1 ≠ .success then do return ← libzeErrorSet .unknown (noAccess property) else k r) s =
        (.success, t)) :
    (propertyOf h property).length < zfsMaxproplen ∧
      k (.success, propertyOf h property) s = (.success, t) := by
  obtain ⟨hne, -⟩ | hgoes := pluginPropGet_cases hr
  · exact absurd rfl hne
  · exact hgoes

end Property

/-! ## The callbacks are steady -/

section Steady
variable {host : Host} {re : Bre} {template line buf : CStr} {s : Sys}

theorem rewriteLine_makes {out : CStr}
    (hr : (rewriteLine re template line buf s).1 = (.success, out)) :
    Makes (rewriteLine re template) line out := by
  intro buf' s'
  unfold rewriteLine at hr ⊢
  cases hmatch : regexec re (cString line) with
  | none =>
    rw [hmatch] at hr
    dsimp only at hr ⊢
    by_cases hlong : libzeMaxPathLen ≤ (strlcpy (cString line) libzeMaxPathLen).1
    · rw [if_pos hlong] at hr
      cases hr
    · rw [if_neg hlong] at hr ⊢
      exact hr
  | some groups =>
    rw [hmatch] at hr
    dsimp only at hr ⊢
    cases hreplace : libzeUtilRegexSubexprReplace re libzeMaxPathLen template (cString line)
      libzeMaxPathLen with
    | none =>
      rw [hreplace] at hr
      cases hr
    | some result =>
      obtain ⟨ret, replaced⟩ := result
      rw [hreplace] at hr
      dsimp only at hr ⊢
      by_cases hret : ret ≠ .success
      · rw [if_pos hret] at hr
        exact absurd (Prod.mk.inj hr).1 hret
      · rw [if_neg hret] at hr ⊢
        exact hr

theorem compileRegex_error {regBuf : CStr} {err : LibzeError} (h : compileRegex regBuf = .error err) :
    err ≠ .success := by
  unfold compileRegex at h
  split at h
  · cases h
    decide
  · split at h
    · cases h
      decide
    · cases h

theorem formLinuxRegex_error {beName : CStr} {err : LibzeError}
    (h : formLinuxRegex beName = .error err) : err ≠ .success := by
  unfold formLinuxRegex at h
  split at h
  · exact compileRegex_error h
  · cases h
    assumption
  · rename_i hne
    cases h
    exact hne _ _ rfl

theorem formDatasetRegex_error {beRoot beName : CStr} {err : LibzeError}
    (h : formDatasetRegex beRoot beName = .error err) : err ≠ .success := by
  unfold formDatasetRegex at h
  split at h
  · exact compileRegex_error h
  · cases h
    assumption
  · rename_i hne
    cases h
    exact hne _ _ rfl

theorem formTitleRegex_error {beName : CStr} {err : LibzeError}
    (h : formTitleRegex beName = .error err) : err ≠ .success := by
  unfold formTitleRegex at h
  dsimp only at h
  split at h
  · cases h
    decide
  · split at h
    · cases h
      decide
    · cases h

theorem formFstabRegex_error {bootMountpoint efiMountpoint : CStr} {err : LibzeError}
    (h : formFstabRegex bootMountpoint efiMountpoint = .error err) : err ≠ .success := by
  unfold formFstabRegex at h
  split at h
  · extract_lets regBuf at h
    clear_value regBuf
    exact compileRegex_error h
  · cases h
    assumption
  · rename_i hne
    cases h
    exact hne _ _ rfl
  · rename_i hne _ _
    cases h
    exact hne _ _ rfl

/-- A form of a regular expression that fails never gives a line. -/
theorem fail_ne {err : LibzeError} {message out : CStr} (herr : err ≠ .success) :
    ((libzeErrorSet err message >>= fun e => pure (e, buf)) s).1 ≠ (.success, out) :=
  fun h => herr (Prod.mk.inj h).1

theorem getCfgLineFromRegex_steady (h : Handle) (beName activeBe : CStr) :
    Steady (getCfgLineFromRegex h beName activeBe) := by
  constructor
  · intro line buf s out hr buf' s'
    unfold getCfgLineFromRegex at hr ⊢
    cases hlinux : formLinuxRegex activeBe with
    | error err =>
      rw [hlinux] at hr
      exact absurd hr (fail_ne (formLinuxRegex_error hlinux))
    | ok reLinux =>
    cases htitle : formTitleRegex activeBe with
    | error err =>
      rw [hlinux, htitle] at hr
      exact absurd hr (fail_ne (formTitleRegex_error htitle))
    | ok reTitle =>
    cases hdataset : formDatasetRegex h.envRoot activeBe with
    | error err =>
      rw [hlinux, htitle, hdataset] at hr
      exact absurd hr (fail_ne (formDatasetRegex_error hdataset))
    | ok reDataset =>
      rw [hlinux, htitle, hdataset] at hr
      dsimp only at hr ⊢
      split at hr
      · cases hr
      rename_i htwo
      rw [if_neg htwo]
      split at hr
      · cases hr
      rename_i hfour
      rw [if_neg hfour]
      split at hr
      · rename_i hmatch
        rw [if_pos hmatch]
        exact rewriteLine_makes hr buf' s'
      rename_i hmatch
      rw [if_neg hmatch]
      split at hr
      · rename_i hmatch'
        rw [if_pos hmatch']
        exact rewriteLine_makes hr buf' s'
      · rename_i hmatch'
        rw [if_neg hmatch']
        exact rewriteLine_makes hr buf' s'
  · intro host line buf
    exact getCfgLineFromRegex_issues line buf

theorem getFstabLineFromRegex_steady (rmd : ReplaceFstabData) :
    Steady (getFstabLineFromRegex rmd) := by
  constructor
  · intro line buf s out hr buf' s'
    unfold getFstabLineFromRegex at hr ⊢
    cases hre : formFstabRegex rmd.bootMountpoint rmd.efiMountpoint with
    | error err =>
      rw [hre] at hr
      exact absurd hr (fail_ne (formFstabRegex_error hre))
    | ok re =>
      rw [hre] at hr
      dsimp only at hr ⊢
      split at hr
      · cases hr
      rename_i htwo
      rw [if_neg htwo]
      exact rewriteLine_makes hr buf' s'
  · intro host line buf
    exact getFstabLineFromRegex_issues rmd line buf

/-- The copy of an entry is the one file that is written. -/
theorem replaceBeName_saves {h : Handle} {beName activeBe filename newFilename : CStr} :
    Issues host (SavesIn (· = newFilename))
      (replaceBeName host h beName activeBe filename newFilename) := by
  apply moves_bind (fileAccessible_issues ⟨trivial, trivial⟩)
  intro ret
  apply moves_ite (fun _ => moves_pure _)
  intro _
  apply moves_ite (fun _ => issues_errorSet _ _)
  intro _
  exact replaceMatched_saves (getCfgLineFromRegex_steady h beName activeBe)

end Steady

end Zectl.Systemdboot.Entry
