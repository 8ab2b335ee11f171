import Zectl.Libze.Guards
import Zectl.Libze.Sample
import Zectl.Systemdboot.PreSnapshot

/-!
# What a snapshot saves

A success means that all of it is saved when each step between the mount and the unmount has
completed, the rewriting of every line and the last write of every copy included. For the running environment the buffer of the
mount point has to hold the empty string as well.
-/

namespace Zectl.Systemdboot.PreSnapshotOutcome

open Zectl.Lib.StateRun Zectl.Lib.BasicRegex Zectl.Util.CString Zectl.Util.Files Zectl.Util.Replace
open Zectl.Util.Writes Zectl.Util.Directory Zectl.Util.CopyDir Zectl.Zfs.System Zectl.Zfs.Steps
open Zectl.Lib.Visit Zectl.Libze.Init Zectl.Libze.Validate Zectl.Libze.Mount Zectl.Libze.Unmount
open Zectl.Libze.MountTree Zectl.Libze.Guards Zectl.Libze.Sample
open Zectl.Systemdboot.ReplaceMatched Zectl.Systemdboot.Loader Zectl.Systemdboot.Fstab
open Zectl.Systemdboot.Entry Zectl.Systemdboot.Rewritten Zectl.Systemdboot.PreSnapshot

/-- The callback for the entry. -/
def saveCfgLine (h : Handle) (beName : CStr) : LineReplaceFn :=
  getCfgLineFromRegex h placeholder beName

/-- The callback for `fstab`. -/
def saveFstabLine (h : Handle) (beName : CStr) : LineReplaceFn :=
  getFstabLineFromRegex (saveFstabData beName (propertyOf h "efi") (propertyOf h "boot"))

/-- Each kernel is read and all it held is below the directory in the end, and the entry and
`fstab` are there as rewritten from what they held. -/
structure Saved (h : Handle) (beName mountpoint : CStr) (s t : Sys) : Prop where
  kernels : ∀ rel, FileAt s (kernelDir (propertyOf h "efi") beName) rel →
    CopiedFile s t (kernelDir (propertyOf h "efi") beName ++ '/' :: rel)
      (bootDest (saveDir h mountpoint) ++ '/' :: rel)
  entry : RewrittenFile (saveCfgLine h beName) s t (entryPath (propertyOf h "efi") beName)
    (entryDest (saveDir h mountpoint))
  fstab : RewrittenFile (saveFstabLine h beName) s t (fstabOf mountpoint)
    (fstabDest (saveDir h mountpoint))

/-! ## The calls -/

section Calls
variable {host : Host} {h : Handle} {be path : CStr} {p : SavePaths} {may : Call → Prop}

theorem createDirectory_issues (hmkdir : ∀ p, may (.file (.mkdir p)))
    (hstat : ∀ p, may (.file (.stat p))) : Issues host may (createDirectory host path) := by
  apply moves_bind (libzeUtilMkdir_issues hmkdir hstat)
  intro code
  exact moves_ite (fun _ => issues_errorSet _ _) fun _ => moves_pure _

theorem saveKernels_saves : Issues host (SavesIn (Below p.kernelBootDir)) (saveKernels host p) := by
  have hcreate : ∀ path, Issues host (SavesIn (Below p.kernelBootDir)) (createDirectory host path) :=
    fun _ => createDirectory_issues (fun _ => ⟨trivial, trivial⟩) fun _ => ⟨trivial, trivial⟩
  apply moves_bind (hcreate _)
  intro ret
  apply moves_ite (fun _ => moves_pure _)
  intro _
  apply moves_bind (hcreate _)
  intro ret
  apply moves_ite (fun _ => moves_pure _)
  intro _
  apply moves_bind (hcreate _)
  intro ret
  apply moves_ite (fun _ => moves_pure _)
  intro _
  apply moves_bind (copyTree_saves _ _ _)
  intro code
  exact moves_ite (fun _ => issues_errorSet _ _) fun _ => moves_pure _

theorem idle_of_mountsOnly {c : Call} (hc : MountsOnly c) : Idle c := by
  cases hc <;> trivial

theorem idle_of_mayUnmount {inside : CStr → Prop} {c : Call} (hc : MayUnmount inside c) : Idle c := by
  match c, hc with
  | .zfs (.unmount _), _ => trivial
  | .zfs (.poolOpen _), _ | .zfs (.open _), _ | .zfs (.propGet _ _), _ => trivial

theorem mountBootDataset_idle {real beBpoolDs : CStr} :
    Issues host Idle (mountBootDataset host be real beBpoolDs) := by
  unfold mountBootDataset
  apply moves_ite (fun _ => moves_pure _)
  intro _
  apply moves_bind (issues_zfsPropGet trivial)
  intro r
  apply moves_ite (fun _ => issues_errorSet _ _)
  intro _
  apply moves_ite (fun _ => issues_errorSet _ _)
  intro _
  rcases libzeUtilConcat real "/" "boot" libzeMaxPathLen with ⟨code, mountDirectoryBoot⟩
  apply moves_ite (fun _ => issues_errorSet _ _)
  intro _
  apply moves_bind ((directoryCreate_issues _).weaken fun _ => idle_of_mountsOnly)
  intro made
  apply moves_ite (fun _ => issues_errorSet _ _)
  intro _
  apply moves_bind (issues_call trivial)
  intro code
  exact moves_ite (fun _ => issues_errorSet _ _) fun _ => moves_pure _

theorem realMountpoint_idle {template : CStr} (mountpoint : Option CStr) :
    Issues host Idle (realMountpoint host template mountpoint) := by
  cases mountpoint with
  | some mountpoint => exact moves_pure _
  | none =>
    have hmkdtemp : Issues host Idle (mkdtemp host template) := by
      apply moves_bind moves_get
      intro s
      apply moves_bind (issues_call trivial)
      intro code
      exact moves_ite (fun _ => moves_pure _) fun _ => moves_pure _
    apply moves_bind hmkdtemp
    intro r
    exact moves_ite (fun _ => moves_pure _) fun _ => moves_pure _

theorem discardDirectory_idle {mountpoint : Option CStr} {real : CStr} :
    Issues host Idle (discardDirectory host mountpoint real) :=
  moves_ite (fun _ => issues_call trivial) fun _ => moves_pure _

theorem libzeMount_idle {mountpoint : Option CStr} :
    Issues host Idle (libzeMount host h be mountpoint) := by
  have hfail : ∀ (err : LibzeError) (message real : CStr), Issues host Idle
      (libzeErrorSet err message >>= fun e => pure (e, real)) :=
    fun err message _ => moves_bind (issues_errorSet err message) fun _ => moves_pure _
  unfold libzeMount
  apply moves_bind ((openBootEnvironment_issues host h be).weaken fun _ => idle_of_isLookup)
  intro r
  apply moves_ite (fun _ => moves_bind (issues_errorPrepend _ _) fun _ => moves_pure _)
  intro _
  apply moves_ite (fun _ => hfail _ _ _)
  intro _
  apply moves_bind moves_get
  intro s
  apply moves_ite (fun _ => hfail _ _ _)
  intro _
  rcases libzeUtilConcat "/tmp/ze." be ".XXXXXX" zfsMaxDatasetNameLen with ⟨code, template⟩
  apply moves_ite (fun _ => hfail _ _ _)
  intro _
  apply moves_bind (realMountpoint_idle mountpoint)
  intro dir
  cases dir with
  | none => exact hfail _ _ _
  | some real =>
    dsimp only
    apply moves_ite (fun _ => hfail _ _ _)
    intro _
    apply moves_bind (issues_call trivial)
    intro mounted
    apply moves_ite (fun _ => moves_bind discardDirectory_idle fun _ => hfail _ _ _)
    intro _
    apply moves_bind moves_get
    intro s
    apply moves_bind
    · apply moves_visit
      intro c _
      exact (mountCallback_issues _ c).weaken fun _ => idle_of_mountsOnly
    intro r
    apply moves_ite (fun _ => moves_bind moves_get fun _ => moves_pure _)
    intro _
    exact moves_bind mountBootDataset_idle fun _ => moves_pure _

theorem libzeUnmount_idle : Issues host Idle (libzeUnmount host h be) :=
  libzeUnmount_issues.weaken fun _ => idle_of_mayUnmount

end Calls

/-! ## The saved files have paths of their own -/

section Paths
variable {dir rel : CStr}

theorem entryDest_not_below : ¬ Below (bootDest dir) (entryDest dir) := by
  rintro ⟨rel, heq⟩
  simp [entryDest, bootDest] at heq

theorem fstabDest_not_below : ¬ Below (bootDest dir) (fstabDest dir) := by
  rintro ⟨rel, heq⟩
  simp [fstabDest, bootDest] at heq

theorem fstabDest_ne_entryDest : fstabDest dir ≠ entryDest dir := by
  simp [fstabDest, entryDest]

theorem bootDest_ne_entryDest : bootDest dir ++ '/' :: rel ≠ entryDest dir :=
  fun heq => entryDest_not_below ⟨rel, heq.symm⟩

theorem bootDest_ne_fstabDest : bootDest dir ++ '/' :: rel ≠ fstabDest dir :=
  fun heq => fstabDest_not_below ⟨rel, heq.symm⟩

end Paths

/-! ## The steps between the mount and the unmount -/

/-- The steps that come before the entry is opened. -/
def Prepares (host : Host) (h : Handle) (beName mountpoint : CStr) (p : SavePaths) (s s1 s2 : Sys) :
    Prop :=
  savePaths beName (propertyOf h "efi") (propertyOf h "kernelsnapshotdirectory") mountpoint =
    .ok p ∧
  saveKernels host p s = (.success, s1) ∧
  fileAccessible host p.kernelLoaderConf s1 = (.success, s2) ∧
  beName.length < zfsMaxDatasetNameLen

/-- How one file is rewritten to another. -/
abbrev Rewriter := CStr → CStr → LineReplaceFn → Sys → Sys → Prop

/-- No step of `saveBootFiles` fails, where each file is rewritten as `rewrites` says. -/
def Passes (rewrites : Rewriter) (host : Host) (h : Handle) (beName mountpoint : CStr) (s t : Sys) :
    Prop :=
  ∃ p s1 s2 s3, Prepares host h beName mountpoint p s s1 s2 ∧
    rewrites p.kernelLoaderConf p.kernelLoaderConfDest (saveCfgLine h beName) s2 s3 ∧
    rewrites p.fstabBuf p.fstabBufDest (saveFstabLine h beName) s3 t

/-- `replace_matched` returns a success. -/
def Returns (host : Host) : Rewriter := fun filename filenameNew replaceFn s t =>
  replaceMatched host filename filenameNew replaceFn s = (.success, t)

/-- All of it is saved in full: each line of the rewritten files is rewritten and written, and no
write to the copy of a kernel is refused. -/
def Completes (host : Host) (h : Handle) (beName mountpoint : CStr) (s t : Sys) : Prop :=
  Passes (Rewrites host) host h beName mountpoint s t ∧
    ∀ rel, FileAt s (kernelDir (propertyOf h "efi") beName) rel →
      WritesGranted s t (bootDest (saveDir h mountpoint) ++ '/' :: rel)

/-- The steps between the mount and the unmount. -/
def saveAll (host : Host) (h : Handle) (beName mountpoint : CStr) : Libze LibzeError :=
  saveBootFiles host h beName (propertyOf h "efi") (propertyOf h "boot")
    (propertyOf h "kernelsnapshotdirectory") mountpoint

section Passes
variable {host : Host} {h : Handle} {beName mountpoint : CStr} {s t : Sys} {r : LibzeError}

theorem saveKernels_ran {p : SavePaths} (hr : saveKernels host p s = (r, t)) : Ran s t :=
  ran_of_issues saveKernels_saves hr

theorem fileAccessible_untouched {path : CStr} (hr : fileAccessible host path s = (r, t)) :
    Untouched s t := untouched_of_issues (fileAccessible_issues trivial) hr

theorem errorSet_untouched {err : LibzeError} {message : CStr}
    (hr : libzeErrorSet err message s = (r, t)) : Untouched s t := by
  obtain rfl := (Prod.mk.inj hr).2
  have hsame := Untouched.refl s
  exact ⟨⟨List.suffix_refl _, hsame.ran.files⟩, fun _ => rfl, hsame.idle⟩

/-- A run stops before the entry is opened, or it goes on to it. -/
theorem saveAll_cases (hr : saveAll host h beName mountpoint s = (r, t)) :
    (r ≠ .success ∧ ∃ u, Ran s u ∧ Untouched u t ∧
      (.file (.fopenWrite (entryDest (saveDir h mountpoint))), 0) ∉ since s u) ∨
    ∃ p s1 s2 s3 r3, Prepares host h beName mountpoint p s s1 s2 ∧
      replaceMatched host p.kernelLoaderConf p.kernelLoaderConfDest (saveCfgLine h beName) s2 =
        (r3, s3) ∧
      (r3 ≠ .success ∧ r = r3 ∧ t = s3 ∨ r3 = .success ∧ ∃ r4 s4,
        replaceMatched host p.fstabBuf p.fstabBufDest (saveFstabLine h beName) s3 = (r4, s4) ∧
        Untouched s4 t ∧ (r4 ≠ .success ∧ r ≠ .success ∨ r4 = .success ∧ r = .success ∧ t = s4)) := by
  unfold saveAll saveBootFiles at hr
  cases hpaths : savePaths beName (propertyOf h "efi") (propertyOf h "kernelsnapshotdirectory")
    mountpoint with
  | error message =>
    rw [hpaths] at hr
    have hsuntouched : Untouched s t := errorSet_untouched hr
    have hne : r ≠ .success := by
      cases hr
      decide
    have hnot : (.file (.fopenWrite (entryDest (saveDir h mountpoint))), 0) ∉ since s s :=
      (Untouched.refl s).unopened _
    exact .inl ⟨hne, s, .refl s, hsuntouched, hnot⟩
  | ok p =>
  rw [hpaths] at hr
  obtain ⟨r1, s1, hkernels, hr⟩ := bind_run hr
  have hran1 := saveKernels_ran hkernels
  have hnot1 : (.file (.fopenWrite (entryDest (saveDir h mountpoint))), 0) ∉ since s s1 := by
    apply not_opened (saveKernels_saves.weaken fun _ hc => hc.1) hkernels
    rw [savePaths_ok hpaths]
    exact entryDest_not_below
  split at hr
  · rename_i hne
    cases hr
    exact .inl ⟨hne, _, hran1, .refl _, hnot1⟩
  rename_i hr1
  rw [not_not.mp hr1] at hkernels
  obtain ⟨r3, s3, hentry, hr⟩ := bind_run hr
  obtain ⟨r2, s2, haccess, hentry⟩ := bind_run hentry
  have huntouched2 := fileAccessible_untouched haccess
  split at hentry
  · rename_i hne
    cases hentry
    rw [if_pos hne] at hr
    cases hr
    exact .inl ⟨hne, s1, hran1, huntouched2, hnot1⟩
  rename_i hr2
  rw [not_not.mp hr2] at haccess
  split at hentry
  · have hlong : Untouched s2 s3 := errorSet_untouched hentry
    have hne : r3 ≠ .success := by
      cases hentry
      decide
    rw [if_pos hne] at hr
    cases hr
    exact .inl ⟨hne, s1, hran1, huntouched2.trans hlong, hnot1⟩
  rename_i hlength
  have hprepares : Prepares host h beName mountpoint p s s1 s2 :=
    ⟨hpaths, hkernels, haccess, Nat.not_le.mp hlength⟩
  apply Or.inr
  split at hr
  · rename_i hne
    cases hr
    exact ⟨p, s1, s2, _, _, hprepares, hentry, .inl ⟨hne, rfl, rfl⟩⟩
  rename_i hr3
  obtain ⟨r4, s4, hfstab, hr⟩ := bind_run hr
  refine ⟨p, s1, s2, s3, r3, hprepares, hentry, .inr ⟨not_not.mp hr3, r4, s4, hfstab, ?_⟩⟩
  split at hr
  · rename_i hne
    have hfail : Untouched s4 t := errorSet_untouched hr
    have hne' : r ≠ .success := by
      cases hr
      decide
    exact ⟨hfail, .inl ⟨hne, hne'⟩⟩
  · rename_i hr4
    cases hr
    exact ⟨.refl _, .inr ⟨not_not.mp hr4, rfl, rfl⟩⟩

theorem createDirectory_untouched {path : CStr} (hr : createDirectory host path s = (r, t)) :
    Untouched s t :=
  untouched_of_issues (createDirectory_issues (fun _ => trivial) fun _ => trivial) hr

/-- What the kernels are copied in. -/
theorem saveKernels_success {p : SavePaths} (hr : saveKernels host p s = (.success, t)) :
    ∃ u, Untouched s u ∧ libzeUtilCopydir host p.kernelDirBuf p.kernelBootDir u = (0, t) := by
  obtain ⟨r1, s1, hboot, hr⟩ := bind_run hr
  split at hr
  · rename_i hne
    exact absurd (Prod.mk.inj hr).1 hne
  obtain ⟨r2, s2, hloader, hr⟩ := bind_run hr
  split at hr
  · rename_i hne
    exact absurd (Prod.mk.inj hr).1 hne
  obtain ⟨r3, s3, hetc, hr⟩ := bind_run hr
  split at hr
  · rename_i hne
    exact absurd (Prod.mk.inj hr).1 hne
  obtain ⟨code, s4, hcopy, hr⟩ := bind_run hr
  split at hr
  · cases hr
  rename_i hcode
  cases hr
  rw [not_not.mp hcode] at hcopy
  have huntouched := (createDirectory_untouched hboot).trans (createDirectory_untouched hloader)
  exact ⟨s3, huntouched.trans (createDirectory_untouched hetc), hcopy⟩

theorem saveKernels_copied {p : SavePaths} {rel : CStr} (hrule : OpenRule host)
    (hr : saveKernels host p s = (.success, t)) (hfile : FileAt s p.kernelDirBuf rel) :
    CopiedOnce host s t (p.kernelDirBuf ++ '/' :: rel) (p.kernelBootDir ++ '/' :: rel) := by
  obtain ⟨u, huntouched, hcopy⟩ := saveKernels_success hr
  have hcopied := copyTree_copies hrule _ hcopy (hfile.of_reads huntouched.same)
  apply hcopied.extend huntouched.ran (fun e he => elsewhere_of_idle (huntouched.idle e he)) (.refl t)
  simp

/-- The two rewritings write their own file each. -/
theorem replaceMatched_same {src dst path : CStr} {replaceFn : LineReplaceFn}
    (hsteady : Steady replaceFn) (hr : replaceMatched host src dst replaceFn s = (r, t))
    (hpath : path ≠ dst) : t.readFile path = s.readFile path :=
  readFile_of_touches ((replaceMatched_saves hsteady).weaken fun _ hc => hc.1) hr hpath

theorem replaceMatched_unopened {src dst path : CStr} {replaceFn : LineReplaceFn}
    (hsteady : Steady replaceFn) (hr : replaceMatched host src dst replaceFn s = (r, t))
    (hpath : path ≠ dst) : (.file (.fopenWrite path), 0) ∉ since s t :=
  not_opened ((replaceMatched_saves hsteady).weaken fun _ hc => hc.1) hr hpath

theorem replaceMatched_ran {src dst : CStr} {replaceFn : LineReplaceFn}
    (hsteady : Steady replaceFn) (hr : replaceMatched host src dst replaceFn s = (r, t)) :
    Ran s t := ran_of_issues (replaceMatched_saves hsteady) hr

theorem saveCfgLine_steady : Steady (saveCfgLine h beName) := getCfgLineFromRegex_steady _ _ _

theorem saveFstabLine_steady : Steady (saveFstabLine h beName) := getFstabLineFromRegex_steady _

/-- Each kernel is copied once in a run whose steps pass. -/
theorem kernel_copiedOnce {t1 t2 : Sys} {rel : CStr} (hrule : OpenRule host)
    (hbefore : Untouched s t1) (hpass : Passes (Rewrites host) host h beName mountpoint t1 t2)
    (hafter : Untouched t2 t) (hfile : FileAt s (kernelDir (propertyOf h "efi") beName) rel) :
    CopiedOnce host s t (kernelDir (propertyOf h "efi") beName ++ '/' :: rel)
      (bootDest (saveDir h mountpoint) ++ '/' :: rel) := by
  obtain ⟨p, s1, s2, s3, ⟨hpaths, hkernels, haccess, -⟩, hentry, hfstab⟩ := hpass
  obtain rfl := savePaths_ok hpaths
  have hidle : ∀ {u v}, Untouched u v → ∀ e ∈ since u v,
      Elsewhere (kernelDir (propertyOf h "efi") beName ++ '/' :: rel)
        (bootDest (saveDir h mountpoint) ++ '/' :: rel) e.1 :=
    fun huv e he => elsewhere_of_idle (huv.idle e he)
  have hran3 := replaceMatched_ran saveCfgLine_steady hentry.run
  have hran4 := replaceMatched_ran saveFstabLine_steady hfstab.run
  have hentryCalls : ∀ e ∈ since s2 s3,
      TouchesIn (· ≠ bootDest (saveDir h mountpoint) ++ '/' :: rel) e.1 := by
    intro e he
    apply (since_of_issues (replaceMatched_saves saveCfgLine_steady) hentry.run e he).1.mono
    rintro p rfl
    exact bootDest_ne_entryDest.symm
  have hfstabCalls : ∀ e ∈ since s3 t2,
      TouchesIn (· ≠ bootDest (saveDir h mountpoint) ++ '/' :: rel) e.1 := by
    intro e he
    apply (since_of_issues (replaceMatched_saves saveFstabLine_steady) hfstab.run e he).1.mono
    rintro p rfl
    exact bootDest_ne_fstabDest.symm
  have haccess' := fileAccessible_untouched haccess
  have hran := (haccess'.ran.trans hran3).trans hran4
  have hcalls := forall_since (haccess'.ran.trans hran3) hran4
    (forall_since haccess'.ran hran3 (fun e he => (hidle haccess' e he).2) hentryCalls) hfstabCalls
  exact (saveKernels_copied hrule hkernels (hfile.of_reads hbefore.same)).extend hbefore.ran
    (hidle hbefore) (hran.trans hafter.ran)
    (forall_since hran hafter.ran hcalls fun e he => (hidle hafter e he).2)

/-- The writes to the copies are those of the steps in between. -/
theorem kernelWrites_iff {t1 t2 : Sys} {path : CStr} (hbefore : Untouched s t1) (hran : Ran t1 t2)
    (hafter : Untouched t2 t) : WritesGranted s t path ↔ WritesGranted t1 t2 path := by
  rw [writesGranted_append hbefore.ran (hran.trans hafter.ran),
    writesGranted_append hran hafter.ran]
  have hquiet : ∀ {u v}, Untouched u v → WritesGranted u v path := fun huv =>
    writesGranted_of_touches (fun e he => (huv.idle e he).touches) id
  exact ⟨fun hall => hall.2.1, fun hbetween => ⟨hquiet hbefore, hbetween, hquiet hafter⟩⟩

theorem Passes.ran {t1 t2 : Sys} (hpass : Passes (Rewrites host) host h beName mountpoint t1 t2) :
    Ran t1 t2 := by
  obtain ⟨p, s1, s2, s3, ⟨-, hkernels, haccess, -⟩, hentry, hfstab⟩ := hpass
  have hran1 := (saveKernels_ran hkernels).trans (fileAccessible_untouched haccess).ran
  exact (hran1.trans (replaceMatched_ran saveCfgLine_steady hentry.run)).trans
    (replaceMatched_ran saveFstabLine_steady hfstab.run)

/-- Steps that complete save all of it. -/
theorem saved_of_completes {t1 t2 : Sys} (hrule : OpenRule host) (hbefore : Untouched s t1)
    (hall : Completes host h beName mountpoint t1 t2) (hafter : Untouched t2 t) :
    Saved h beName mountpoint s t := by
  obtain ⟨hpass, hgranted⟩ := hall
  have hpass' := hpass
  obtain ⟨p, s1, s2, s3, ⟨hpaths, hkernels, haccess, -⟩, hentry, hfstab⟩ := hpass'
  obtain rfl := savePaths_ok hpaths
  have hran1 := saveKernels_ran hkernels
  have huntouched2 := fileAccessible_untouched haccess
  have hran3 := replaceMatched_ran saveCfgLine_steady hentry.run
  have hran4 := replaceMatched_ran saveFstabLine_steady hfstab.run
  constructor
  · intro rel hfile
    apply (kernel_copiedOnce hrule hbefore hpass hafter hfile).copied_iff.mpr
    rw [kernelWrites_iff hbefore hpass.ran hafter]
    exact hgranted rel (hfile.of_reads hbefore.same)
  · have hsu : Ran s s2 := (hbefore.ran.trans hran1).trans huntouched2.ran
    apply (hentry.file saveCfgLine_steady).extend hsu hran3.suffix (hran4.trans hafter.ran).suffix
    rw [hafter.same]
    exact replaceMatched_same saveFstabLine_steady hfstab.run fstabDest_ne_entryDest.symm
  · have hsu : Ran s s3 := ((hbefore.ran.trans hran1).trans huntouched2.ran).trans hran3
    exact (hfstab.file saveFstabLine_steady).extend hsu hran4.suffix hafter.ran.suffix
      (hafter.same _)

theorem RewrittenFile.opened {replaceFn : LineReplaceFn} {src dst : CStr}
    (hfile : RewrittenFile replaceFn s t src dst) : (.file (.fopenWrite dst), 0) ∈ since s t := by
  obtain ⟨before, after, content, text, hsince, -⟩ := hfile
  simp [hsince]

/-- Only steps that complete save all of it. -/
theorem passes_of_saved {t1 t2 : Sys} (hbefore : Untouched s t1)
    (hr : saveAll host h beName mountpoint t1 = (r, t2)) (hafter : Untouched t2 t)
    (hsaved : Saved h beName mountpoint s t) :
    Passes (Rewrites host) host h beName mountpoint t1 t2 := by
  obtain ⟨-, u, hran, huntouched, hnot⟩ |
    ⟨p, s1, s2, s3, r3, hprepares, hentry, hrest⟩ := saveAll_cases hr
  · have hclosed := not_mem_since hbefore.ran hran (hbefore.unopened _) hnot
    have hrest := huntouched.trans hafter
    exact absurd (RewrittenFile.opened hsaved.entry)
      (not_mem_since (hbefore.ran.trans hran) hrest.ran hclosed (hrest.unopened _))
  have hprepares' := hprepares
  obtain ⟨hpaths, hkernels, haccess, -⟩ := hprepares'
  obtain rfl := savePaths_ok hpaths
  have hran1 := hbefore.ran.trans (saveKernels_ran hkernels)
  have huntouched2 := fileAccessible_untouched haccess
  have hran3 := replaceMatched_ran saveCfgLine_steady hentry
  have hnot : ∀ {path}, ¬ Below (bootDest (saveDir h mountpoint)) path →
      (.file (.fopenWrite path), 0) ∉ since s s2 := by
    intro path hpath
    have hkernels' := not_opened (saveKernels_saves.weaken fun _ hc => hc.1) hkernels hpath
    exact not_mem_since hran1 huntouched2.ran (not_mem_since hbefore.ran (saveKernels_ran hkernels)
      (hbefore.unopened _) hkernels') (huntouched2.unopened _)
  have hran2 := hran1.trans huntouched2.ran
  obtain ⟨hne, -, rfl⟩ | ⟨rfl, r4, s4, hfstab, huntouched4, hend⟩ := hrest
  · -- the entry is the last file that is opened
    have hdone := rewrites_of_file saveCfgLine_steady hran2 (hnot entryDest_not_below) hentry
      hafter.ran.suffix (hafter.unopened _) (fun _ => hafter.unread _) (hafter.same _) hsaved.entry
    have heq := hdone.run.symm.trans hentry
    exact absurd (Prod.mk.inj heq).1.symm hne
  have hran4 := replaceMatched_ran saveFstabLine_steady hfstab
  have hrest := huntouched4.trans hafter
  have hclosed3 := not_mem_since hran4 hrest.ran
    (replaceMatched_unopened saveFstabLine_steady hfstab fstabDest_ne_entryDest.symm)
    (hrest.unopened _)
  have hkeep3 := (hrest.same _).trans
    (replaceMatched_same saveFstabLine_steady hfstab fstabDest_ne_entryDest.symm)
  have hentryDone := rewrites_of_file saveCfgLine_steady hran2 (hnot entryDest_not_below) hentry
    (hran4.trans hrest.ran).suffix hclosed3 (fun hne => absurd rfl hne) hkeep3 hsaved.entry
  have hclosed4 := not_mem_since hran2 hran3 (hnot fstabDest_not_below)
    (replaceMatched_unopened saveCfgLine_steady hentry fstabDest_ne_entryDest)
  have hfstabDone := rewrites_of_file saveFstabLine_steady (hran2.trans hran3) hclosed4 hfstab
    hrest.ran.suffix (hrest.unopened _) (fun _ => hrest.unread _) (hrest.same _) hsaved.fstab
  have hr4 : r4 = .success := by
    have heq := hfstabDone.run.symm.trans hfstab
    exact (Prod.mk.inj heq).1.symm
  obtain ⟨hne, -⟩ | ⟨-, -, rfl⟩ := hend
  · exact absurd hr4 hne
  · exact ⟨_, s1, s2, s3, hprepares, hentryDone, hfstabDone⟩

/-- No write to the copies was refused either. -/
theorem completes_of_saved {t1 t2 : Sys} (hrule : OpenRule host) (hbefore : Untouched s t1)
    (hr : saveAll host h beName mountpoint t1 = (r, t2)) (hafter : Untouched t2 t)
    (hsaved : Saved h beName mountpoint s t) : Completes host h beName mountpoint t1 t2 := by
  have hpass := passes_of_saved hbefore hr hafter hsaved
  refine ⟨hpass, fun rel hfile => ?_⟩
  have hfile' : FileAt s (kernelDir (propertyOf h "efi") beName) rel :=
    hfile.of_reads fun path => (hbefore.same path).symm
  rw [← kernelWrites_iff hbefore hpass.ran hafter]
  exact (kernel_copiedOnce hrule hbefore hpass hafter hfile').copied_iff.mp
    (hsaved.kernels rel hfile')

theorem Passes.mono {rewrites rewrites' : Rewriter}
    (himp : ∀ src dst fn s t, rewrites src dst fn s t → rewrites' src dst fn s t)
    (hpass : Passes rewrites host h beName mountpoint s t) :
    Passes rewrites' host h beName mountpoint s t := by
  obtain ⟨p, s1, s2, s3, hprepares, hentry, hfstab⟩ := hpass
  exact ⟨p, s1, s2, s3, hprepares, himp _ _ _ _ _ hentry, himp _ _ _ _ _ hfstab⟩

theorem saveAll_success_iff : saveAll host h beName mountpoint s = (.success, t) ↔
    Passes (Returns host) host h beName mountpoint s t := by
  constructor
  · intro hr
    obtain ⟨hne, -⟩ | ⟨p, s1, s2, s3, r3, hprepares, hentry, hrest⟩ := saveAll_cases hr
    · exact absurd rfl hne
    obtain ⟨hne, heq, -⟩ | ⟨rfl, r4, s4, hfstab, -, hend⟩ := hrest
    · exact absurd heq.symm hne
    obtain ⟨-, hne⟩ | ⟨rfl, -, rfl⟩ := hend
    · exact absurd rfl hne
    exact ⟨p, s1, s2, s3, hprepares, hentry, hfstab⟩
  · rintro ⟨p, s1, s2, s3, ⟨hpaths, hkernels, haccess, hlength⟩, hentry, hfstab⟩
    have hreplace : replaceBeName host h placeholder beName p.kernelLoaderConf
        p.kernelLoaderConfDest s1 = (.success, s3) := by
      unfold replaceBeName
      rw [run_bind, haccess]
      dsimp only
      have hshort : ¬ zfsMaxDatasetNameLen ≤ (strlcpy beName zfsMaxDatasetNameLen).1 :=
        Nat.not_le.mpr hlength
      rw [if_neg (by simp), if_neg hshort]
      exact hentry
    unfold saveAll saveBootFiles
    rw [hpaths]
    dsimp only
    rw [run_bind, hkernels]
    dsimp only
    rw [if_neg (by simp), run_bind, hreplace]
    dsimp only
    rw [if_neg (by simp), run_bind]
    have hfstab' : replaceMatched host p.fstabBuf p.fstabBufDest (getFstabLineFromRegex
        (saveFstabData beName (propertyOf h "efi") (propertyOf h "boot"))) s3 = (.success, t) := hfstab
    rw [hfstab']
    rfl

end Passes

/-! ## When a success means that all of it is saved -/

/-- The properties fit into the buffers. -/
structure Readable (h : Handle) : Prop where
  efi : (propertyOf h "efi").length < zfsMaxproplen
  boot : (propertyOf h "boot").length < zfsMaxproplen
  kernelSnapDir : (propertyOf h "kernelsnapshotdirectory").length < zfsMaxproplen

/-- Where the environment is mounted for the snapshot. -/
def mountpointOf (host : Host) (h : Handle) (beName : CStr) (isRoot : Bool) (s : Sys) : CStr :=
  if isRoot then [] else (libzeMount host h beName none s).1.2

/-- The steps in between complete, those included that nobody tests, when the ones that decide the
result do not fail; for the running environment the buffer of the mount point is empty then. -/
def Sound (host : Host) (h : Handle) (mountpointBuf beName : CStr) (isRoot : Bool) (s : Sys) : Prop :=
  Readable h →
    if isRoot then
      (∃ t, Passes (Returns host) host h beName mountpointBuf s t) →
        mountpointBuf = [] ∧ ∃ t, Completes host h beName [] s t
    else
      ∀ mountpoint s1, libzeMount host h beName none s = ((.success, mountpoint), s1) →
        (libzeUnmount host h beName (saveAll host h beName mountpoint s1).2).1 = .success →
        ∃ s2, Completes host h beName mountpoint s1 s2

section Outcome
variable {host : Host} {h : Handle} {mountpointBuf beName dir : CStr} {s t : Sys}

theorem readable_of_success {isRoot : Bool}
    (hr : (preSnapshot host h mountpointBuf beName isRoot s).1 = .success) : Readable h := by
  obtain ⟨hefi, hr⟩ := pluginPropGet_bind (run_eq_of_fst hr)
  obtain ⟨hboot, hr⟩ := pluginPropGet_bind hr
  obtain ⟨hdir, -⟩ := pluginPropGet_bind hr
  exact ⟨hefi, hboot, hdir⟩

theorem preSnapshot_root (hread : Readable h) :
    preSnapshot host h mountpointBuf beName true = saveAll host h beName mountpointBuf := by
  have hbuf : (strlcat mountpointBuf "" libzeMaxPathLen).2 = mountpointBuf := by
    rw [strlcat]
    split
    · rfl
    · simp
  unfold preSnapshot
  rw [pluginPropGet_eq hread.efi, pluginPropGet_eq hread.boot, pluginPropGet_eq hread.kernelSnapDir]
  simp only [pure_bind, if_true]
  rw [if_neg (by simp), if_neg (by simp), if_neg (by simp)]
  show saveBootFiles host h beName _ _ _ (strlcat mountpointBuf "" libzeMaxPathLen).2 = _
  rw [hbuf]
  rfl

theorem preSnapshot_mounted (hread : Readable h) {mountpoint : CStr} {s1 : Sys}
    (hmount : libzeMount host h beName none s = ((.success, mountpoint), s1)) :
    preSnapshot host h mountpointBuf beName false s =
      libzeUnmount host h beName (saveAll host h beName mountpoint s1).2 := by
  unfold preSnapshot
  rw [pluginPropGet_eq hread.efi, pluginPropGet_eq hread.boot, pluginPropGet_eq hread.kernelSnapDir]
  simp only [pure_bind, Bool.false_eq_true, if_false]
  rw [if_neg (by simp), if_neg (by simp), if_neg (by simp), run_bind, hmount]
  rfl

theorem mount_success (hread : Readable h)
    (hr : (preSnapshot host h mountpointBuf beName false s).1 = .success) :
    ∃ mountpoint s1, libzeMount host h beName none s = ((.success, mountpoint), s1) := by
  rcases hmount : libzeMount host h beName none s with ⟨⟨ret, mountpoint⟩, s1⟩
  by_cases hret : ret = .success
  · rw [hret]
    exact ⟨mountpoint, s1, rfl⟩
  · unfold preSnapshot at hr
    rw [pluginPropGet_eq hread.efi, pluginPropGet_eq hread.boot,
      pluginPropGet_eq hread.kernelSnapDir] at hr
    simp only [pure_bind, Bool.false_eq_true, if_false] at hr
    rw [if_neg (by simp), if_neg (by simp), if_neg (by simp), run_bind, hmount] at hr
    dsimp only at hr
    rw [if_pos hret] at hr
    exact absurd hr hret

/-- The state in which the hook begins to save. -/
def mountedState (host : Host) (h : Handle) (beName : CStr) (isRoot : Bool) (s : Sys) : Sys :=
  if isRoot then s else (libzeMount host h beName none s).2

/-- A run of the hook fails before anything is saved, or it saves below the mount point. -/
theorem preSnapshot_cases {isRoot : Bool} {r : LibzeError}
    (hr : preSnapshot host h mountpointBuf beName isRoot s = (r, t)) :
    (r ≠ .success ∧ Untouched s t) ∨ ∃ r' s2,
      Untouched s (mountedState host h beName isRoot s) ∧
      saveAll host h beName
        (if isRoot then mountpointBuf else (libzeMount host h beName none s).1.2)
        (mountedState host h beName isRoot s) = (r', s2) ∧
      Untouched s2 t := by
  have hall := hr
  obtain hfail | ⟨hefi, hr⟩ := pluginPropGet_cases hr
  · exact .inl hfail
  obtain hfail | ⟨hboot, hr⟩ := pluginPropGet_cases hr
  · exact .inl hfail
  obtain hfail | ⟨hdir, hr⟩ := pluginPropGet_cases hr
  · exact .inl hfail
  have hread : Readable h := ⟨hefi, hboot, hdir⟩
  cases isRoot with
  | true =>
    rw [preSnapshot_root hread] at hall
    exact .inr ⟨r, t, .refl s, hall, .refl t⟩
  | false =>
    rcases hmount : libzeMount host h beName none s with ⟨⟨ret, mountpoint⟩, s1⟩
    have huntouched : Untouched s s1 := untouched_of_issues libzeMount_idle hmount
    by_cases hret : ret = .success
    · subst hret
      rw [preSnapshot_mounted hread hmount] at hall
      simp only [mountedState, hmount, Bool.false_eq_true, if_false]
      exact .inr ⟨_, _, huntouched, run_eq_of_fst rfl, untouched_of_issues libzeUnmount_idle hall⟩
    · dsimp only at hr
      rw [if_neg (by simp), run_bind, hmount] at hr
      dsimp only at hr
      rw [if_pos hret] at hr
      cases hr
      exact .inl ⟨hret, huntouched⟩

/-- What is written below another directory in the buffer is not where it should be. -/
theorem empty_of_saved (hpass : Passes (Returns host) host h beName mountpointBuf s t)
    (hsaved : Saved h beName [] s t) : mountpointBuf = [] := by
  by_contra hne
  have hpos := List.length_pos_iff.mpr hne
  obtain ⟨p, s1, s2, s3, ⟨hpaths, hkernels, haccess, -⟩, hentry, hfstab⟩ := hpass
  obtain rfl := savePaths_ok hpaths
  have hbelow : ¬ Below (bootDest (saveDir h mountpointBuf)) (fstabDest (saveDir h [])) := by
    rintro ⟨rel, heq⟩
    have hlength := congrArg List.length heq
    simp [fstabDest, bootDest, saveDir] at hlength
    omega
  have hentryDest : fstabDest (saveDir h []) ≠ entryDest (saveDir h mountpointBuf) := by
    intro heq
    have hlength := congrArg List.length heq
    simp [fstabDest, entryDest, saveDir] at hlength
    omega
  have hfstabDest : fstabDest (saveDir h []) ≠ fstabDest (saveDir h mountpointBuf) := by
    intro heq
    have hlength := congrArg List.length heq
    simp only [fstabDest, saveDir, List.length_append, List.length_nil] at hlength
    omega
  have huntouched2 := fileAccessible_untouched haccess
  have hclosed1 := not_opened (saveKernels_saves.weaken fun _ hc => hc.1) hkernels hbelow
  have hran1 := saveKernels_ran hkernels
  have hclosed2 := not_mem_since hran1 huntouched2.ran hclosed1 (huntouched2.unopened _)
  have hran2 := hran1.trans huntouched2.ran
  have hran3 := replaceMatched_ran saveCfgLine_steady hentry
  have hclosed3 := not_mem_since hran2 hran3 hclosed2
    (replaceMatched_unopened saveCfgLine_steady hentry hentryDest)
  have hclosed4 := not_mem_since (hran2.trans hran3) (replaceMatched_ran saveFstabLine_steady hfstab)
    hclosed3 (replaceMatched_unopened saveFstabLine_steady hfstab hfstabDest)
  exact hclosed4 (RewrittenFile.opened hsaved.fstab)

/-- A success of `pre_snapshot` means that the kernels, the entry and `fstab` are saved in full
exactly when the steps that decide it let no other one fail. -/
theorem saved_iff (hrule : OpenRule host) (isRoot : Bool) :
    ((preSnapshot host h mountpointBuf beName isRoot s).1 = .success →
      Saved h beName (mountpointOf host h beName isRoot s) s
        (preSnapshot host h mountpointBuf beName isRoot s).2) ↔
    Sound host h mountpointBuf beName isRoot s := by
  cases isRoot with
  | true =>
    constructor
    · rintro hsaved hread
      rw [if_pos rfl]
      rintro ⟨t, hpass⟩
      have hrun := saveAll_success_iff.mpr hpass
      rw [preSnapshot_root hread, hrun] at hsaved
      have hall := hsaved rfl
      obtain rfl := empty_of_saved hpass hall
      exact ⟨rfl, t, completes_of_saved hrule (.refl s) hrun (.refl t) hall⟩
    · intro hsound hr
      have hread := readable_of_success hr
      rw [Sound, if_pos rfl] at hsound
      rw [preSnapshot_root hread] at hr ⊢
      have hrun := run_eq_of_fst hr
      obtain ⟨rfl, t, hall⟩ := hsound hread ⟨_, saveAll_success_iff.mp hrun⟩
      have hdone := saveAll_success_iff.mpr (hall.1.mono fun _ _ _ _ _ h => h.run)
      rw [hdone]
      exact saved_of_completes hrule (.refl s) hall (.refl t)
  | false =>
    constructor
    · rintro hsaved hread
      rw [if_neg (by simp)]
      intro mountpoint s1 hmount hunmount
      rw [preSnapshot_mounted hread hmount, mountpointOf, if_neg (by simp), hmount] at hsaved
      have hall := hsaved hunmount
      exact ⟨_, completes_of_saved hrule (untouched_of_issues libzeMount_idle hmount)
        (run_eq_of_fst rfl) (untouched_of_issues libzeUnmount_idle (run_eq_of_fst rfl)) hall⟩
    · intro hsound hr
      have hread := readable_of_success hr
      rw [Sound, if_neg (by simp)] at hsound
      obtain ⟨mountpoint, s1, hmount⟩ := mount_success hread hr
      rw [preSnapshot_mounted hread hmount] at hr ⊢
      obtain ⟨s2, hall⟩ := hsound hread mountpoint s1 hmount hr
      have hdone := saveAll_success_iff.mpr (hall.1.mono fun _ _ _ _ _ h => h.run)
      rw [hdone, mountpointOf, if_neg (by simp), hmount]
      exact saved_of_completes hrule (untouched_of_issues libzeMount_idle hmount) hall
        (untouched_of_issues libzeUnmount_idle (run_eq_of_fst rfl))

end Outcome

/-! ## A copy that is refused -/

/-- No directory is opened for writing, and one call is refused when it is given. -/
def careful (refused : Option Call) : Host :=
  plainHost fun s c =>
    if some c = refused then 28
    else
      match c with
      | .file (.fopenWrite path) => if s.isDir path then 21 else 0
      | _ => 0

theorem careful_openRule (refused : Option Call) : OpenRule (careful refused) := by
  intro s path hdir
  simp only [careful, plainHost]
  rw [if_pos hdir]
  split <;> decide

def pluginHandle : Handle :=
  { sampleHandle none true with
    zeProps := [("org.zectl.systemdboot:efi", "/efi"), ("org.zectl.systemdboot:boot", "/boot"),
      ("org.zectl.systemdboot:kernelsnapshotdirectory", "/var/lib")] }

/-- A kernel, the entry and `fstab` of `b`. -/
def bootSys : Sys :=
  { sampleSys [] with
    files := [("/efi/env/org.zectl-b/vmlinuz", "kernel"),
      ("/efi/loader/entries/org.zectl-b.conf", "title b\n"),
      ("/tmp/ze.b.XXXXXX/etc/fstab", "/efi/env/org.zectl-b /boot none\n")] }

theorem saved_iff_sample :
    ((preSnapshot (careful none) pluginHandle [] "b" false bootSys).1 = .success →
      Saved pluginHandle "b" (mountpointOf (careful none) pluginHandle "b" false bootSys) bootSys
        (preSnapshot (careful none) pluginHandle [] "b" false bootSys).2) ↔
    Sound (careful none) pluginHandle [] "b" false bootSys :=
  saved_iff (careful_openRule none) false

/-- The copy of the kernel is refused, so neither it nor the entry is saved; the unmount
succeeds, and so does the hook. -/
theorem not_saved_when_copy_refused :
    ¬ ∀ (host : Host) (h : Handle) (mountpointBuf beName : CStr) (isRoot : Bool) (s : Sys),
      OpenRule host → (preSnapshot host h mountpointBuf beName isRoot s).1 = .success →
      Saved h beName (mountpointOf host h beName isRoot s) s
        (preSnapshot host h mountpointBuf beName isRoot s).2 := by
  intro hall
  let refused : Call := .file (.fopenWrite "/tmp/ze.b.XXXXXX/var/lib/env/boot/vmlinuz")
  have hsaved := hall (careful (some refused)) pluginHandle [] "b" false bootSys
    (careful_openRule _) (by decide +kernel)
  have hopened := RewrittenFile.opened hsaved.entry
  revert hopened
  decide +kernel

end Zectl.Systemdboot.PreSnapshotOutcome
