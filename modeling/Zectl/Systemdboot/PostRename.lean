import Zectl.Systemdboot.Hooks

/-!
# A rename of the boot files

The kernels of an environment move to its new name first, then its entry is copied for that
name, and the old one is removed last. The hook can fail in between; the kernels are then under
one of the two names and the old entry is still there, but nothing goes back.
-/

namespace Zectl.Systemdboot.PostRename

open Zectl.Lib.StateRun Zectl.Util.CString Zectl.Util.Files Zectl.Util.Writes Zectl.Util.CopyDir
open Zectl.Zfs.System Zectl.Zfs.Steps Zectl.Libze.Init Zectl.Libze.Sample
open Zectl.Systemdboot.ReplaceMatched Zectl.Systemdboot.Rewritten Zectl.Systemdboot.Entry
open Zectl.Systemdboot.PreSnapshotOutcome Zectl.Systemdboot.PostCreate Zectl.Systemdboot.SavedKernels
open Zectl.Systemdboot.Hooks

/-- A directory is never renamed to one that holds something. -/
def RenameRule (host : Host) : Prop :=
  ∀ s path target rel, (below s target rel).isSome →
    host.answer s (.file (.renameDirectory path target)) ≠ 0

/-- How far the hook gets. -/
inductive RenameEnd (host : Host) (h : Handle) (old new : CStr) (s : Sys) : LibzeError → Sys → Prop
  | unmoved {r : LibzeError} {t : Sys} (hr : r ≠ .success)
      (hkeep : ∀ path, t.readFile path = s.readFile path) : RenameEnd host h old new s r t
  | moved {r : LibzeError} {s1 t : Sys}
      (hmove : call host (.file (.renameDirectory (kernelDir (propertyOf h "efi") old)
        (kernelDir (propertyOf h "efi") new))) s = (0, s1))
      (hr : r ≠ .success)
      (hkeep : ∀ path, path ≠ entryPath (propertyOf h "efi") new → t.readFile path = s1.readFile path) :
      RenameEnd host h old new s r t
  | done {s1 s2 t : Sys}
      (hmove : call host (.file (.renameDirectory (kernelDir (propertyOf h "efi") old)
        (kernelDir (propertyOf h "efi") new))) s = (0, s1))
      (hentry : replaceBeName host h new old (entryPath (propertyOf h "efi") old)
        (entryPath (propertyOf h "efi") new) s1 = (.success, s2))
      (hremove : call host (.file (.remove (entryPath (propertyOf h "efi") old))) s2 = (0, t)) :
      RenameEnd host h old new s .success t

section Outcome
variable {host : Host} {h : Handle} {old new efi path : CStr} {r : LibzeError} {s t : Sys}

theorem renameEntry_end {s1 : Sys}
    (hmove : call host (.file (.renameDirectory (kernelDir (propertyOf h "efi") old)
      (kernelDir (propertyOf h "efi") new))) s = (0, s1))
    (hr : renameEntry host h (propertyOf h "efi") old new s1 = (r, t)) :
    RenameEnd host h old new s r t := by
  unfold renameEntry at hr
  rw [formLoaderEntryConfig_eq, formLoaderEntryConfig_eq] at hr
  by_cases hold : libzeMaxPathLen ≤ (entryPath (propertyOf h "efi") old).length
  · rw [if_pos hold] at hr
    cases hr
    exact .moved hmove (by decide) fun _ _ => rfl
  by_cases hnew : libzeMaxPathLen ≤ (entryPath (propertyOf h "efi") new).length
  · rw [if_neg hold, if_pos hnew] at hr
    cases hr
    exact .moved hmove (by decide) fun _ _ => rfl
  rw [if_neg hold, if_neg hnew] at hr
  dsimp only at hr
  obtain ⟨ret, s2, hentry, hr⟩ := bind_run hr
  have hkeep : ∀ path, path ≠ entryPath (propertyOf h "efi") new →
      s2.readFile path = s1.readFile path := fun path hne =>
    readFile_of_touches (replaceBeName_saves.weaken fun _ hc => hc.1) hentry hne
  split at hr
  · rename_i hret
    cases hr
    exact .moved hmove hret hkeep
  rename_i hret
  rw [not_not.mp hret] at hentry
  obtain ⟨code, s3, hremove, hr⟩ := bind_run hr
  split at hr
  · rename_i hcode
    cases hr
    rw [call_refused hremove hcode]
    exact .moved hmove (by decide) hkeep
  · rename_i hcode
    rw [not_not.mp hcode] at hremove
    cases hr
    exact .done hmove hentry hremove

theorem postRename_end (hr : postRename host h old new s = (r, t)) :
    RenameEnd host h old new s r t := by
  obtain ⟨hne, huntouched⟩ | ⟨-, hr⟩ := pluginPropGet_cases hr
  · exact .unmoved hne huntouched.same
  dsimp only at hr
  rw [formLoaderEntryPath_env, formLoaderEntryPath_env] at hr
  by_cases hold : libzeMaxPathLen ≤ (kernelDir (propertyOf h "efi") old).length
  · rw [if_pos hold] at hr
    cases hr
    exact .unmoved (by decide) fun _ => rfl
  by_cases hnew : libzeMaxPathLen ≤ (kernelDir (propertyOf h "efi") new).length
  · rw [if_neg hold, if_pos hnew] at hr
    cases hr
    exact .unmoved (by decide) fun _ => rfl
  rw [if_neg hold, if_neg hnew] at hr
  dsimp only at hr
  obtain ⟨code, s1, hmove, hr⟩ := bind_run hr
  split at hr
  · rename_i hcode
    cases hr
    rw [call_refused hmove hcode]
    exact .unmoved (by decide) fun _ => rfl
  · rename_i hcode
    rw [not_not.mp hcode] at hmove
    exact renameEntry_end hmove hr

end Outcome

/-! ## What a rename leaves -/

/-- The kernels are under one of the names, and the old entry is there until all is done. -/
structure Left (efi : CStr) (old new : BeName) (s t : Sys) (r : LibzeError) : Prop where
  kernels : (below t (kernelDir efi new.text) = below s (kernelDir efi old.text) ∧
      ∀ rel, below t (kernelDir efi old.text) rel = none) ∨
    (r ≠ .success ∧ below t (kernelDir efi new.text) = below s (kernelDir efi new.text) ∧
      below t (kernelDir efi old.text) = below s (kernelDir efi old.text))
  failed : r ≠ .success →
    t.readFile (entryPath efi old.text) = s.readFile (entryPath efi old.text)
  done : r = .success → t.readFile (entryPath efi old.text) = none ∧
    (t.readFile (entryPath efi new.text)).isSome
  others : ∀ path, ¬ BootFiles efi old.text new.text path → t.readFile path = s.readFile path

section Left
variable {host : Host} {h : Handle} {old new : BeName} {efi : CStr} {r : LibzeError} {s s1 t : Sys}

theorem moved_kernels (hrule : RenameRule host) (hne : old ≠ new)
    (hmove : call host (.file (.renameDirectory (kernelDir efi old.text) (kernelDir efi new.text))) s =
      (0, s1)) : below s1 (kernelDir efi new.text) = below s (kernelDir efi old.text) ∧
      ∀ rel, below s1 (kernelDir efi old.text) rel = none := by
  obtain ⟨hgranted, rfl⟩ := call_done hmove
  have hempty : ∀ rel, below s (kernelDir efi new.text) rel = none := by
    intro rel
    by_contra hsome
    exact hrule s _ _ rel (Option.isSome_iff_ne_none.mpr hsome) hgranted
  constructor
  · funext rel
    exact below_renameDirectory_target hempty rel
  · exact below_renameDirectory_source kernelDir_not_below fun _ => kernelDir_disjoint hne.symm

theorem moved_entry {name : CStr}
    (hmove : call host (.file (.renameDirectory (kernelDir efi old.text) (kernelDir efi new.text))) s =
      (0, s1)) : s1.readFile (entryPath efi name) = s.readFile (entryPath efi name) := by
  rw [(call_done hmove).2]
  exact readFile_renameDirectory_of_apart entryPath_ne_kernelDir entryPath_not_kernels
    entryPath_ne_kernelDir entryPath_not_kernels

theorem replaceBeName_made {beName activeBe filename newFilename : CStr}
    (hr : replaceBeName host h beName activeBe filename newFilename s = (.success, t)) :
    (t.readFile newFilename).isSome := by
  obtain ⟨ret, s1, -, hr⟩ := bind_run hr
  split at hr
  · rename_i hret
    cases hr
    exact absurd rfl hret
  split at hr
  · cases hr
  obtain ⟨content, s2, s3, hopen, hread, hlines⟩ := ReplaceMatched.replaceMatched_ran hr
  have hempty : (s3.readFile newFilename).isSome := by
    rw [readFile_of_files (fopenRead_ok hread).2, (fopenWrite_written hopen).2]
    rfl
  have hsteady := getCfgLineFromRegex_steady h beName activeBe
  have hsaves : Issues host (SavesIn (· = newFilename))
      (replaceLines host newFilename (getCfgLineFromRegex h beName activeBe) (readLines content)
        []) :=
    replaceLines_saves hsteady (readLines content) []
  have hkeep := hsaves.keeps (fun u => (u.readFile newFilename).isSome) (fun _ _ _ _ hu => hu)
    (fun u c hc _ hu => hc.2.isSome hu) hempty
  rwa [hlines] at hkeep

/-- The kernels are where they were when no file but the new entry has changed. -/
theorem below_of_entry (hkeep : ∀ path, path ≠ entryPath efi new.text → t.readFile path = s.readFile path)
    (name : CStr) : below t (kernelDir efi name) = below s (kernelDir efi name) :=
  funext fun _ => hkeep _ kernelDir_ne_entryPath

/-- A hook that succeeds has moved the kernels and the entry. -/
theorem postRename_done (hrule : RenameRule host) (hne : old ≠ new)
    (hr : postRename host h old.text new.text s = (.success, t)) :
    (below t (kernelDir (propertyOf h "efi") new.text) =
        below s (kernelDir (propertyOf h "efi") old.text) ∧
      ∀ rel, below t (kernelDir (propertyOf h "efi") old.text) rel = none) ∧
    t.readFile (entryPath (propertyOf h "efi") old.text) = none ∧
      (t.readFile (entryPath (propertyOf h "efi") new.text)).isSome := by
  cases postRename_end hr with
  | unmoved hret | moved _ hret => exact absurd rfl hret
  | @done s1 s2 _ hmove hentry hremove =>
    obtain ⟨hnew, hold⟩ := moved_kernels hrule hne hmove
    have hsame := below_of_entry fun path hpath =>
      readFile_of_touches (replaceBeName_saves.weaken fun _ hc => hc.1) hentry hpath
    have ht : ∀ path, path ≠ entryPath (propertyOf h "efi") old.text →
        t.readFile path = s2.readFile path := by
      intro path hpath
      rw [(call_done hremove).2]
      exact readFile_removeFile_of_ne hpath
    refine ⟨⟨?_, ?_⟩, ?_, ?_⟩
    · rw [below_of_entry ht, hsame]
      exact hnew
    · rw [below_of_entry ht, hsame]
      exact hold
    · rw [(call_done hremove).2]
      exact readFile_removeFile_self
    · rw [ht _ fun heq => hne (entryPath_inj heq).symm]
      exact replaceBeName_made hentry

/-- However the hook ends, no kernel is lost and none is there twice. -/
theorem postRename_left (hrule : RenameRule host) (hne : old ≠ new)
    (hr : postRename host h old.text new.text s = (r, t)) :
    Left (propertyOf h "efi") old new s t r := by
  have hothers : ∀ path, ¬ BootFiles (propertyOf h "efi") old.text new.text path →
      t.readFile path = s.readFile path := fun path => readFile_of_works postRename_works hr
  have hdone := fun hok : r = .success => postRename_done hrule hne (hok ▸ hr)
  cases postRename_end hr with
  | unmoved hret hkeep =>
    have hsame := @below_of_entry new (propertyOf h "efi") s t fun path _ => hkeep path
    exact ⟨.inr ⟨hret, hsame _, hsame _⟩, fun _ => hkeep _, fun hok => absurd hok hret, hothers⟩
  | moved hmove hret hkeep =>
    obtain ⟨hnew, hold⟩ := moved_kernels hrule hne hmove
    have hsame := below_of_entry hkeep
    refine ⟨.inl ⟨(hsame _).trans hnew, ?_⟩, ?_, fun hok => absurd hok hret, hothers⟩
    · rw [hsame]
      exact hold
    · intro _
      exact (hkeep _ fun heq => hne (entryPath_inj heq)).trans (moved_entry hmove)
  | done => exact ⟨.inl (hdone rfl).1, fun hnot => absurd rfl hnot, fun _ => (hdone rfl).2, hothers⟩

end Left

/-! ## A rename of the running environment -/

/-- No directory is opened for writing, none is renamed to one that holds something, and only
what is there is accessed. -/
def tidy : Host :=
  plainHost fun s c =>
    match c with
    | .file (.fopenWrite path) => if s.isDir path then 21 else 0
    | .file (.renameDirectory _ target) =>
      if s.paths.any fun p => (belowPath? target p).isSome then 39 else 0
    | .file (.access path) => if s.kind path = none then 2 else 0
    | _ => 0

theorem tidy_renameRule : RenameRule tidy := by
  intro s path target rel hsome
  have hany : s.paths.any (fun p => (belowPath? target p).isSome) = true :=
    List.any_eq_true.mpr ⟨_, mem_paths_of_readFile hsome, by rw [belowPath_append]; rfl⟩
  simp only [tidy, plainHost]
  rw [if_pos hany]
  decide

theorem kernelSys_renamed : (postRename tidy pluginHandle "a" "n" kernelSys).1 = .success := by
  decide +kernel

theorem postRename_left_sample :
    (postRename tidy pluginHandle "a" "n" kernelSys).1 = .success ∧
    Left (propertyOf pluginHandle "efi") ⟨"a", by decide⟩ ⟨"n", by decide⟩ kernelSys
      (postRename tidy pluginHandle "a" "n" kernelSys).2
      (postRename tidy pluginHandle "a" "n" kernelSys).1 :=
  ⟨kernelSys_renamed, postRename_left tidy_renameRule (by decide) (run_eq_of_fst rfl)⟩

end Zectl.Systemdboot.PostRename
