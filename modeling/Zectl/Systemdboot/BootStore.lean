import Zectl.Lib.NamedStore
import Zectl.Systemdboot.PostRename

/-!
# The EFI system partition as a store

To the hooks the partition is a store of kernels by the names of environments, with the entries
as the names that are listed. A creation copies, a destruction drops and a rename moves; an
activation and a snapshot change nothing in it. The files refine this store over every run of
hooks that succeed: which kernels there are always, and what is in them as long as no write is
refused, as a copy does not report one that is lost at its last flush.
-/

namespace Zectl.Systemdboot.BootStore

open Zectl.Lib.StateRun Zectl.Lib.NamedStore Zectl.Util.CString Zectl.Util.Files Zectl.Util.Writes
open Zectl.Util.Directory Zectl.Util.CopyDir Zectl.Util.EmptiedDir Zectl.Zfs.System Zectl.Zfs.Steps
open Zectl.Libze.Init Zectl.Libze.Sample Zectl.Systemdboot.ReplaceMatched Zectl.Systemdboot.Loader
open Zectl.Systemdboot.Fstab Zectl.Systemdboot.Rewritten Zectl.Systemdboot.Entry
open Zectl.Systemdboot.PreSnapshot
open Zectl.Systemdboot.PreSnapshotOutcome Zectl.Systemdboot.PostCreate
open Zectl.Systemdboot.SavedKernels Zectl.Systemdboot.Hooks Zectl.Systemdboot.PostRename

/-- A copied directory over one that is there. -/
def overlay (source dest : Tree) : Tree := fun rel => (source rel).or (dest rel)

def noFiles : Tree := fun _ => none

/-- What the partition holds. -/
abbrev Esp := Store BeName Tree

/-- The kernels of each environment, and the environments with an entry. -/
def store (efi : CStr) (s : Sys) : Esp where
  content b := below s (kernelDir efi b.text)
  listed := { b | (s.readFile (entryPath efi b.text)).isSome }

def Esp.after (w : Esp) (changes : List (Change BeName Tree)) : Esp :=
  w.run overlay noFiles changes

/-- What is told of the files of a directory, and of one that is copied over another. -/
structure View (α : Type) where
  of : Tree → α
  merge : α → α → α

/-- The files with all they hold. -/
def contents : View Tree := ⟨id, overlay⟩

/-- The files that are there. -/
def names : View (Set CStr) := ⟨fun tree => { rel | (tree rel).isSome }, (· ∪ ·)⟩

/-- The store as the view shows it. -/
def View.store {α : Type} (view : View α) (efi : CStr) (s : Sys) : Store BeName α :=
  (BootStore.store efi s).map view.of

def View.after {α : Type} (view : View α) (w : Store BeName α) (changes : List (Change BeName Tree)) :
    Store BeName α :=
  w.run view.merge (view.of noFiles) (changes.map (Change.map view.of))

/-- What the view tells of a copy is what it tells of the two directories. -/
def Carries {α : Type} (host : Host) (view : View α) : Prop :=
  ∀ {dir dest : CStr} {s t : Sys}, Apart dir dest → IsTree (below s dir) →
    libzeUtilCopydir host dir dest s = (0, t) →
    view.of (below t dest) = view.merge (view.of (below s dir)) (view.of (below s dest))

theorem names_carries {host : Host} (hopen : OpenRule host) : Carries host names :=
  fun hapart htree hcopy => Set.ext (copyTree_present hopen hapart htree hcopy)

theorem contents_carries {host : Host} (hopen : OpenRule host) (hwrites : GrantsWrites host) :
    Carries host contents := by
  intro dir dest s t hapart htree hcopy
  have hgranted : ∀ rel, WritesGranted s t (dest ++ '/' :: rel) := fun rel =>
    writesGranted_of_host hwrites (copyTree_saves _ dir dest) hcopy
  exact funext (copyTree_below hopen hapart htree hcopy hgranted)

/-- A hook that succeeds, or that has nothing to do there, and its change of the store. -/
inductive Done (host : Host) (efi : CStr) (h : Handle) (mountpointBuf : CStr) (s : Sys) :
    Hook → Change BeName Tree → Prop
  | preActivate : Done host efi h mountpointBuf s .preActivate .keep
  | midActivate {beName beMountpoint : CStr} :
      Done host efi h mountpointBuf s (.midActivate beName beMountpoint) .keep
  | postActivate {beName : CStr} : Done host efi h mountpointBuf s (.postActivate beName) .keep
  | preSnapshot {beName : CStr} {isRoot : Bool}
      (hsave : EspApart efi (saveDir h (mountedAt host h mountpointBuf beName isRoot s))) :
      Done host efi h mountpointBuf s (.preSnapshot beName isRoot) .keep
  | postDestroy {b : BeName} (htree : IsTree (below s (kernelDir efi b.text)))
      (hok : (postDestroy host h b.text s).1 = .success) :
      Done host efi h mountpointBuf s (.postDestroy b.text) (.drop b)
  | postRename {old new : BeName} (hne : old ≠ new)
      (hok : (postRename host h old.text new.text s).1 = .success) :
      Done host efi h mountpointBuf s (.postRename old.text new.text) (.move old new)
  | postCreate {active b : BeName} {beMountpoint : CStr} (hne : active ≠ b)
      (hactive : libzeBootEnvName h.envActivatedPath zfsMaxDatasetNameLen = (0, active.text))
      (htree : IsTree (below s (kernelDir efi active.text))) (hmount : EspApart efi beMountpoint)
      (hok : (postCreate host h ⟨b.text, beMountpoint, false⟩ s).1 = .success) :
      Done host efi h mountpointBuf s (.postCreate b.text beMountpoint false) (.copy active b)
  | restored {b : BeName} {beMountpoint : CStr}
      (htree : IsTree (below s (bootDest (saveDir h beMountpoint))))
      (hmount : EspApart efi beMountpoint) (hsave : EspApart efi (saveDir h beMountpoint))
      (hok : (postCreate host h ⟨b.text, beMountpoint, true⟩ s).1 = .success) :
      Done host efi h mountpointBuf s (.postCreate b.text beMountpoint true)
        (.restore (below s (bootDest (saveDir h beMountpoint))) b)

/-- Hooks that succeed, with the changes they make to the store. -/
inductive StoreRun (host : Host) (efi : CStr) : Sys → List (Change BeName Tree) → Sys → Prop
  | start (s : Sys) : StoreRun host efi s [] s
  | between {s u v : Sys} {changes : List (Change BeName Tree)}
      (hrun : StoreRun host efi s changes u) (hfiles : v.files = u.files) :
      StoreRun host efi s changes v
  | hook {s u : Sys} {changes : List (Change BeName Tree)} {h : Handle} {mountpointBuf : CStr}
      {hook : Hook} {change : Change BeName Tree} (hrun : StoreRun host efi s changes u)
      (hefi : propertyOf h "efi" = efi) (hdone : Done host efi h mountpointBuf u hook change) :
      StoreRun host efi s (changes ++ [change]) (exportedPlugin host h mountpointBuf hook u).2

/-! ## One hook -/

section Hook
variable {α : Type} {view : View α} {host : Host} {h : Handle} {efi mountpointBuf : CStr} {b : BeName}
  {s t : Sys} {change : Change BeName Tree}

/-- The store behind a hook, from the files it is about. -/
theorem store_apply
    (hothers : ∀ b : BeName, ¬ change.About b → ∀ path, BootFile efi b.text path →
      t.readFile path = s.readFile path)
    (hcontent : ∀ b, change.About b → view.of (below t (kernelDir efi b.text)) =
      ((view.store efi s).apply view.merge (view.of noFiles) (change.map view.of)).content b)
    (hlisted : ∀ b, change.About b → (b ∈ (store efi t).listed ↔
      b ∈ ((view.store efi s).apply view.merge (view.of noFiles) (change.map view.of)).listed)) :
    view.store efi t =
      (view.store efi s).apply view.merge (view.of noFiles) (change.map view.of) := by
  apply Store.ext
  · funext b
    by_cases habout : change.About b
    · exact hcontent b habout
    · rw [apply_content (mt about_map.mp habout)]
      apply congrArg view.of
      funext rel
      exact hothers b habout _ (bootFile_kernels ⟨rel, rfl⟩)
  · ext b
    by_cases habout : change.About b
    · exact hlisted b habout
    · rw [apply_listed (mt about_map.mp habout)]
      show (t.readFile (entryPath efi b.text)).isSome ↔ (s.readFile (entryPath efi b.text)).isSome
      rw [hothers b habout _ bootFile_entry]

theorem not_listed (hnone : t.readFile (entryPath efi b.text) = none) : b ∉ (store efi t).listed := by
  show ¬ (t.readFile (entryPath efi b.text)).isSome
  rw [hnone]
  simp

theorem kernelDir_name (b : BeName) : kernelDir efi b.text =
    (efi ++ "/env") ++ '/' :: (systemdbootEntryPrefix ++ "-" ++ b.text) := by
  simp [kernelDir, format]

theorem isName_of_length {name : CStr} (hflat : '/' ∉ name) (hlength : 2 < name.length) :
    IsName name := by
  refine ⟨?_, hflat, ?_, ?_⟩
  · rintro rfl
    simp at hlength
  · rintro rfl
    simp at hlength
  · rintro rfl
    simp at hlength

theorem isName_kernels (b : BeName) : IsName (systemdbootEntryPrefix ++ "-" ++ b.text) := by
  apply isName_of_length
  · rw [List.mem_append, List.mem_append, not_or, not_or]
    exact ⟨⟨by decide, by decide⟩, b.flat⟩
  · have hlen : systemdbootEntryPrefix.length = 9 := by decide
    rw [List.length_append, List.length_append]
    omega

theorem removeFails_false {path : CStr} (hfound : FoundRule host)
    (hr : removeFails host path s = (false, t)) : t.readFile path = none := by
  obtain ⟨access, s1, haccess, hr⟩ := bind_run hr
  split at hr
  · rename_i hne
    cases hr
    rw [call_refused haccess hne]
    cases hread : s.readFile path with
    | none => exact hread
    | some content =>
      have hkind : s.kind path ≠ none := by
        have hsome : (s.files.lookup path).isSome := by
          rw [show s.files.lookup path = some content from hread]
          rfl
        rw [Sys.kind, if_pos hsome]
        simp
      obtain rfl : host.answer s (.file (.access path)) = access := congrArg Prod.fst haccess
      exact absurd (hfound.access s path hkind) hne
  · obtain ⟨removed, s2, hremove, hr⟩ := bind_run hr
    obtain ⟨hzero, rfl⟩ := Prod.mk.inj hr
    obtain rfl : removed = 0 := by simpa using hzero
    rw [(call_done hremove).2]
    exact readFile_removeFile_self

/-- Behind a destruction that succeeds nothing is left. -/
theorem postDestroy_gone (hfound : FoundRule host) (hefi : propertyOf h "efi" = efi)
    (htree : IsTree (below s (kernelDir efi b.text)))
    (hr : postDestroy host h b.text s = (.success, t)) :
    (∀ rel, below t (kernelDir efi b.text) rel = none) ∧
      t.readFile (entryPath efi b.text) = none := by
  subst hefi
  unfold postDestroy at hr
  split at hr
  · cases hr
  obtain ⟨-, hr⟩ := pluginPropGet_bind hr
  dsimp only at hr
  unfold removeKernels at hr
  rw [formLoaderEntryConfig_eq, formLoaderEntryPath_env] at hr
  by_cases hentry : libzeMaxPathLen ≤ (entryPath (propertyOf h "efi") b.text).length
  · rw [if_pos hentry] at hr
    cases hr
  by_cases hkernels : libzeMaxPathLen ≤ (kernelDir (propertyOf h "efi") b.text).length
  · rw [if_neg hentry, if_pos hkernels] at hr
    cases hr
  rw [if_neg hentry, if_neg hkernels] at hr
  dsimp only at hr
  obtain ⟨fails, s1, hfails, hr⟩ := bind_run hr
  cases fails with
  | true => cases hr
  | false =>
  rw [if_neg (by simp)] at hr
  obtain ⟨code, s2, hrmdir, hr⟩ := bind_run hr
  split at hr
  · cases hr
  rename_i hcode
  cases hr
  have hcode' : code = 0 ∨ code = enoent := by
    by_contra hnot
    exact hcode ⟨fun heq => hnot (.inr heq), fun heq => hnot (.inl heq)⟩
  have hsame : below s1 (kernelDir (propertyOf h "efi") b.text) =
      below s (kernelDir (propertyOf h "efi") b.text) := by
    funext rel
    have hissues : Issues host (TouchesIn (· = entryPath (propertyOf h "efi") b.text))
        (removeFails host (entryPath (propertyOf h "efi") b.text)) := removeFails_issues trivial rfl
    exact readFile_of_touches hissues hfails kernelDir_ne_entryPath
  constructor
  · intro rel
    rw [kernelDir_name] at hrmdir hsame htree ⊢
    exact libzeUtilRmdir_removes hfound (isName_kernels b) (hsame ▸ htree) hrmdir hcode' rel
  · exact none_of_takes libzeUtilRmdir_takes hrmdir (removeFails_false hfound hfails)

/-- The steps of a creation from the activated environment that succeeds. -/
theorem postCreate_active {active beMountpoint : CStr}
    (hactive : libzeBootEnvName h.envActivatedPath zfsMaxDatasetNameLen = (0, active))
    (hr : postCreate host h ⟨b.text, beMountpoint, false⟩ s = (.success, t)) :
    ∃ s1 s2, replaceBeName host h b.text active (entryPath (propertyOf h "efi") active)
        (entryPath (propertyOf h "efi") b.text) s = (.success, s1) ∧
      libzeUtilCopydir host (kernelDir (propertyOf h "efi") active)
        (kernelDir (propertyOf h "efi") b.text) s1 = (0, s2) ∧
      updateFstab host h ⟨b.text, beMountpoint, false⟩ (propertyOf h "boot") (propertyOf h "efi") s2 =
        (.success, t) := by
  obtain ⟨-, hr⟩ := pluginPropGet_bind hr
  obtain ⟨-, hr⟩ := pluginPropGet_bind hr
  obtain ⟨-, hr⟩ := pluginPropGet_bind hr
  rw [formLoaderEntryConfig_eq] at hr
  dsimp only at hr
  by_cases hlong : libzeMaxPathLen ≤ (entryPath (propertyOf h "efi") b.text).length
  · rw [if_pos hlong] at hr
    cases hr
  rw [if_neg hlong] at hr
  dsimp only at hr
  rw [if_neg (by simp)] at hr
  obtain ⟨source, u, hsource, hr⟩ := bind_run hr
  unfold activatedSource at hsource
  rw [hactive] at hsource
  dsimp only at hsource
  rw [if_neg (by simp), formLoaderEntryConfig_eq, formLoaderEntryPath_env] at hsource
  by_cases hentry : libzeMaxPathLen ≤ (entryPath (propertyOf h "efi") active).length
  · rw [if_pos hentry] at hsource
    cases hsource
    cases hr
  by_cases hkernels : libzeMaxPathLen ≤ (kernelDir (propertyOf h "efi") active).length
  · rw [if_neg hentry, if_pos hkernels] at hsource
    cases hsource
    cases hr
  rw [if_neg hentry, if_neg hkernels] at hsource
  cases hsource
  dsimp only at hr
  unfold createFrom at hr
  obtain ⟨ret, s1, hreplace, hr⟩ := bind_run hr
  split at hr
  · rename_i hret
    exact absurd (Prod.mk.inj hr).1 hret
  rename_i hret
  rw [not_not.mp hret] at hreplace
  rw [formLoaderEntryPath_env] at hr
  by_cases hlong' : libzeMaxPathLen ≤ (kernelDir (propertyOf h "efi") b.text).length
  · rw [if_pos hlong'] at hr
    cases hr
  rw [if_neg hlong'] at hr
  dsimp only at hr
  obtain ⟨code, s2, hcopy, hr⟩ := bind_run hr
  split at hr
  · cases hr
  rename_i hcode
  rw [not_not.mp hcode] at hcopy
  exact ⟨s1, s2, hreplace, hcopy, hr⟩

/-- What a creation leaves on the partition, from where it copies the kernels on. -/
theorem created {active filename source : CStr} {s1 s2 : Sys} (hcarries : Carries host view)
    (hentry : replaceBeName host h b.text active filename (entryPath efi b.text) s = (.success, s1))
    (hcopy : libzeUtilCopydir host source (kernelDir efi b.text) s1 = (0, s2))
    (hrest : ∀ path, Below efi path → t.readFile path = s2.readFile path)
    (htree : IsTree (below s source)) (hapart : Apart source (kernelDir efi b.text))
    (hsource : ∀ rel, source ++ '/' :: rel ≠ entryPath efi b.text) :
    view.of (below t (kernelDir efi b.text)) =
        view.merge (view.of (below s source)) (view.of (below s (kernelDir efi b.text))) ∧
      (t.readFile (entryPath efi b.text)).isSome := by
  have hkeep : ∀ path, path ≠ entryPath efi b.text → s1.readFile path = s.readFile path :=
    fun path => readFile_of_touches (replaceBeName_saves.weaken fun _ hc => hc.1) hentry
  have hread : below s1 source = below s source := funext fun rel => hkeep _ (hsource rel)
  have hdest : below s1 (kernelDir efi b.text) = below s (kernelDir efi b.text) :=
    funext fun rel => hkeep _ kernelDir_ne_entryPath
  have hlast : below t (kernelDir efi b.text) = below s2 (kernelDir efi b.text) :=
    funext fun rel => hrest _ kernelDir_below
  constructor
  · rw [hlast, hcarries hapart (hread ▸ htree) hcopy, hread, hdest]
  · rw [hrest _ entryPath_below]
    have hsame := readFile_of_touches ((copyTree_saves _ _ _).weaken fun _ hc => hc.1) hcopy
      (@entryPath_not_kernels efi b.text b.text)
    rw [hsame]
    exact replaceBeName_made hentry

theorem postCreate_copied {active : BeName} {beMountpoint : CStr} (hcarries : Carries host view)
    (htemplate : TemplateRule host) (hefi : propertyOf h "efi" = efi) (hne : active ≠ b)
    (hactive : libzeBootEnvName h.envActivatedPath zfsMaxDatasetNameLen = (0, active.text))
    (htree : IsTree (below s (kernelDir efi active.text))) (hmount : EspApart efi beMountpoint)
    (hr : postCreate host h ⟨b.text, beMountpoint, false⟩ s = (.success, t)) :
    view.of (below t (kernelDir efi b.text)) = view.merge
        (view.of (below s (kernelDir efi active.text))) (view.of (below s (kernelDir efi b.text))) ∧
      (t.readFile (entryPath efi b.text)).isSome := by
  subst hefi
  obtain ⟨s1, s2, hentry, hcopy, hupdate⟩ := postCreate_active hactive hr
  apply created hcarries hentry hcopy _ htree
  · intro rel
    exact kernelDir_disjoint hne ⟨rel, rfl⟩
  · intro rel
    exact kernelDir_ne_entryPath
  · intro path hpath
    exact readFile_of_touches (updateFstab_touches htemplate) hupdate (hmount path hpath)

theorem postCreate_restored {beMountpoint : CStr} (hcarries : Carries host view)
    (htemplate : TemplateRule host) (hefi : propertyOf h "efi" = efi)
    (htree : IsTree (below s (bootDest (saveDir h beMountpoint)))) (hmount : EspApart efi beMountpoint)
    (hsave : EspApart efi (saveDir h beMountpoint))
    (hr : postCreate host h ⟨b.text, beMountpoint, true⟩ s = (.success, t)) :
    view.of (below t (kernelDir efi b.text)) = view.merge
        (view.of (below s (bootDest (saveDir h beMountpoint))))
        (view.of (below s (kernelDir efi b.text))) ∧
      (t.readFile (entryPath efi b.text)).isSome := by
  subst hefi
  obtain ⟨s1, s2, s3, s4, code, hfstab, hentry, hcopy, hrmdir, hupdate⟩ := postCreate_snapshot rfl hr
  dsimp only at hfstab hentry hcopy hrmdir
  have hissues : Issues host (TouchesIn (· = fstabOf beMountpoint))
      (libzeUtilCopyFile host (fstabDest (saveDir h beMountpoint)) (fstabOf beMountpoint)) :=
    copyFile_issues trivial rfl fun _ => rfl
  have hfirst : ∀ path, path ≠ fstabOf beMountpoint → s1.readFile path = s.readFile path :=
    fun path => readFile_of_touches hissues hfstab
  have hsaved : below s1 (bootDest (saveDir h beMountpoint)) =
      below s (bootDest (saveDir h beMountpoint)) := funext fun rel => hfirst _ bootDest_ne_fstabOf
  have hkernels : below s1 (kernelDir (propertyOf h "efi") b.text) =
      below s (kernelDir (propertyOf h "efi") b.text) := by
    funext rel
    apply hfirst
    intro heq
    apply hmount _ kernelDir_below
    rw [heq, ← List.append_nil (fstabOf _)]
    exact fstabOf_below []
  rw [← hsaved, ← hkernels]
  apply created hcarries hentry hcopy _ (hsaved ▸ htree)
  · rintro rel ⟨rel', heq⟩
    exact hsave _ (heq ▸ kernelDir_below) bootDest_below
  · intro rel heq
    exact hsave _ entryPath_below (heq ▸ bootDest_below)
  · intro path hpath
    have hlast := readFile_of_touches (updateFstab_touches htemplate) hupdate (hmount path hpath)
    exact hlast.trans (readFile_of_touches libzeUtilRmdir_touches hrmdir (hsave path hpath))

/-- A hook that succeeds changes the store as its call says. -/
theorem done_apply (hcarries : change.Copies → Carries host view) (htemplate : TemplateRule host)
    (hfound : FoundRule host) (hrename : RenameRule host) {hook : Hook}
    (hefi : propertyOf h "efi" = efi) (hdone : Done host efi h mountpointBuf s hook change) :
    view.store efi (exportedPlugin host h mountpointBuf hook s).2 =
      (view.store efi s).apply view.merge (view.of noFiles) (change.map view.of) := by
  have houtside : ∀ path, ¬ Area host h mountpointBuf s path hook →
      (exportedPlugin host h mountpointBuf hook s).2.readFile path = s.readFile path :=
    fun path => hook_outside htemplate (run_eq_of_fst rfl)
  subst hefi
  cases hdone with
  | preActivate | midActivate => rfl
  | postActivate =>
    apply store_apply _ (fun _ => False.elim) fun _ => False.elim
    intro b _ path hfile
    exact houtside path (bootFile_not_loaderConf hfile)
  | preSnapshot hsave =>
    apply store_apply _ (fun _ => False.elim) fun _ => False.elim
    intro b _ path hfile
    exact houtside path (hsave path (bootFile_below hfile))
  | @postDestroy b htree hok =>
    obtain ⟨hkernels, hentry⟩ := postDestroy_gone hfound rfl htree (run_eq_of_fst hok)
    apply store_apply
    · intro b' hnot path hfile
      exact houtside path (bootFile_disjoint hnot hfile)
    · rintro b' rfl
      rw [Change.map, content_drop]
      exact congrArg view.of (funext hkernels)
    · rintro b' rfl
      exact iff_of_false (not_listed hentry) not_mem_drop
  | @postRename old new hne hok =>
    obtain ⟨⟨hmoved, hempty⟩, hold, hnew⟩ := postRename_done hrename hne (run_eq_of_fst hok)
    apply store_apply
    · intro b' hnot path hfile
      obtain ⟨hnold, hnnew⟩ := not_or.mp hnot
      exact houtside path fun harea => harea.elim (bootFile_disjoint hnold hfile)
        (bootFile_disjoint hnnew hfile)
    · rintro b' (rfl | rfl)
      · rw [Change.map, content_move_source]
        exact congrArg view.of (funext hempty)
      · rw [Change.map, content_move_target hne.symm]
        exact congrArg view.of hmoved
    · rintro b' (rfl | rfl)
      · exact iff_of_false (not_listed hold) (not_mem_move hne.symm)
      · exact iff_of_true hnew mem_move
  | @postCreate active b beMountpoint hne hactive htree hmount hok =>
    obtain ⟨hkernels, hentry⟩ := postCreate_copied (hcarries trivial) htemplate rfl hne hactive htree hmount
      (run_eq_of_fst hok)
    apply store_apply
    · intro b' hnot path hfile
      apply houtside path
      rintro (hown | hbelow | ⟨hfrom, -⟩)
      · exact bootFile_disjoint hnot hfile hown
      · exact hmount path (bootFile_below hfile) hbelow
      · cases hfrom
    · rintro b' rfl
      rw [Change.map, content_copy]
      exact hkernels
    · rintro b' rfl
      exact iff_of_true hentry mem_copy
  | @restored b beMountpoint htree hmount hsave hok =>
    obtain ⟨hkernels, hentry⟩ := postCreate_restored (hcarries trivial) htemplate rfl htree hmount hsave
      (run_eq_of_fst hok)
    apply store_apply
    · intro b' hnot path hfile
      apply houtside path
      rintro (hown | hbelow | ⟨-, hbelow⟩)
      · exact bootFile_disjoint hnot hfile hown
      · exact hmount path (bootFile_below hfile) hbelow
      · exact hsave path (bootFile_below hfile) hbelow
    · rintro b' rfl
      rw [Change.map, content_restore]
      exact hkernels
    · rintro b' rfl
      exact iff_of_true hentry mem_restore

end Hook

/-! ## Runs of hooks -/

section Runs
variable {α : Type} {view : View α} {host : Host} {efi : CStr} {s t : Sys}
  {changes : List (Change BeName Tree)}

theorem View.store_of_files (view : View α) (hfiles : t.files = s.files) :
    view.store efi t = view.store efi s := by
  have hread : ∀ path, t.readFile path = s.readFile path := fun path => readFile_of_files hfiles
  apply Store.ext
  · funext b
    exact congrArg view.of (funext fun rel => hread _)
  · exact Set.ext fun b => by simp [View.store, BootStore.store, hread]

/-- Behind every run of hooks that succeed the partition is the store that the changes make, as far
as the view tells. -/
theorem StoreRun.store_after (hcarries : ∀ change ∈ changes, change.Copies → Carries host view)
    (htemplate : TemplateRule host) (hfound : FoundRule host) (hrename : RenameRule host)
    (hrun : StoreRun host efi s changes t) :
    view.store efi t = view.after (view.store efi s) changes := by
  induction hrun with
  | start => rfl
  | between _ hfiles ih => exact (view.store_of_files hfiles).trans (ih hcarries)
  | hook _ hefi hdone ih =>
    have hfirst := ih fun change hmem => hcarries change (List.mem_append_left _ hmem)
    have hlast := hcarries _ (List.mem_append_right _ (List.mem_singleton_self _))
    rw [done_apply hlast htemplate hfound hrename hefi hdone, hfirst, View.after, View.after,
      List.map_append, List.map_singleton, run_concat]

theorem contents_after (w : Esp) : contents.after w changes = w.after changes := by
  have hmap : changes.map (Change.map contents.of) = changes :=
    (List.map_congr_left fun _ _ => change_map_id).trans (List.map_id _)
  rw [View.after, hmap]
  rfl

/-- Of every environment the partition holds the kernels that the store has, and an entry exactly
when the store lists it, where no write is refused. -/
theorem partition_run (hopen : OpenRule host) (hwrites : GrantsWrites host)
    (htemplate : TemplateRule host) (hfound : FoundRule host) (hrename : RenameRule host)
    (hrun : StoreRun host efi s changes t) (b : BeName) :
    (∀ rel, t.readFile (kernelDir efi b.text ++ '/' :: rel) =
        ((store efi s).after changes).content b rel) ∧
      ((t.readFile (entryPath efi b.text)).isSome ↔ b ∈ ((store efi s).after changes).listed) := by
  have hstore : store efi t = (store efi s).after changes := by
    rw [← contents_after]
    exact hrun.store_after (fun _ _ _ => contents_carries hopen hwrites) htemplate hfound hrename
  rw [← hstore]
  exact ⟨fun _ => rfl, Iff.rfl⟩

theorem names_noFiles : names.of noFiles = ∅ := by
  ext rel
  simp [names, noFiles]

theorem names_ne_iff {tree : Tree} : names.of tree ≠ names.of noFiles ↔ ∃ rel, (tree rel).isSome := by
  rw [names_noFiles, ← Set.nonempty_iff_ne_empty]
  rfl

theorem noFiles_ne_iff {tree : Tree} : tree ≠ noFiles ↔ ∃ rel, (tree rel).isSome := by
  rw [Function.ne_iff]
  exact exists_congr fun rel => Option.isSome_iff_ne_none.symm

/-- No environment has kernels without an entry to boot them by, behind any such run. -/
theorem kernels_bootable (hopen : OpenRule host) (htemplate : TemplateRule host)
    (hfound : FoundRule host) (hrename : RenameRule host) (hrun : StoreRun host efi s changes t)
    (hstart : Paired noFiles (store efi s)) {b : BeName} {rel : CStr}
    (hkernel : (below t (kernelDir efi b.text) rel).isSome) :
    (t.readFile (entryPath efi b.text)).isSome := by
  have hshown : Paired (names.of noFiles) (names.store efi s) := fun b hb =>
    hstart b (noFiles_ne_iff.mpr (names_ne_iff.mp hb))
  have hpaired : Paired (names.of noFiles) (names.store efi t) := by
    rw [hrun.store_after (fun _ _ _ => names_carries hopen) htemplate hfound hrename]
    exact hshown.run
  exact hpaired b (names_ne_iff.mpr ⟨rel, hkernel⟩)

/-- A rename and one back leave the kernels where they were, and the same environments with an
entry. -/
theorem renamed_back (htemplate : TemplateRule host) (hfound : FoundRule host)
    (hrename : RenameRule host) {old new : BeName}
    (hrun : StoreRun host efi s [.move old new, .move new old] t) (hne : old ≠ new)
    (hlisted : old ∈ (store efi s).listed) (hnew : new ∉ (store efi s).listed)
    (hfresh : (store efi s).content new = noFiles) : store efi t = store efi s := by
  have hmoves : ∀ change ∈ ([.move old new, .move new old] : List (Change BeName Tree)),
      change.Copies → Carries host contents := by simp [Change.Copies]
  have hstore : store efi t = (store efi s).after [.move old new, .move new old] := by
    rw [← contents_after]
    exact hrun.store_after hmoves htemplate hfound hrename
  rw [hstore]
  exact move_back hne hlisted hfresh hnew

end Runs

/-! ## A rename of the running environment -/

theorem tidy_openRule : OpenRule tidy := by
  intro s path hdir
  simp only [tidy, plainHost]
  rw [if_pos hdir]
  decide

theorem tidy_grants : GrantsWrites tidy := fun _ _ _ => rfl

theorem tidy_foundRule : FoundRule tidy := by
  constructor
  · intro s path hkind
    simp only [tidy, plainHost]
    rw [if_neg hkind]
  · intro s path _
    show 0 ≠ enoent
    decide
  · intro s path _
    show 0 ≠ enoent
    decide

theorem nameA_flat : '/' ∉ ("a" : CStr) := by decide

def nameA : BeName := ⟨"a", nameA_flat⟩

theorem nameN_flat : '/' ∉ ("n" : CStr) := by decide

def nameN : BeName := ⟨"n", nameN_flat⟩

/-- The system behind the rename. -/
def renamedSys : Sys := (exportedPlugin tidy pluginHandle [] (.postRename "a" "n") kernelSys).2

theorem renamed_run : StoreRun tidy "/efi" kernelSys [.move nameA nameN] renamedSys := by
  exact .hook (.start _) plugin_efi
    (@Done.postRename _ _ _ _ _ nameA nameN (by decide) kernelSys_renamed)

theorem partition_run_sample :
    (∀ rel, renamedSys.readFile (kernelDir "/efi" nameN.text ++ '/' :: rel) =
        ((store "/efi" kernelSys).after [.move nameA nameN]).content nameN rel) ∧
      ((renamedSys.readFile (entryPath "/efi" nameN.text)).isSome ↔
        nameN ∈ ((store "/efi" kernelSys).after [.move nameA nameN]).listed) :=
  partition_run tidy_openRule tidy_grants (fun _ _ => ⟨_, rfl⟩) tidy_foundRule tidy_renameRule renamed_run nameN

theorem kernelSys_listed : nameA ∈ (store "/efi" kernelSys).listed := by
  show (kernelSys.readFile (entryPath "/efi" "a")).isSome = true
  decide +kernel

/-- Only `a` has kernels. -/
theorem kernelSys_kernels {b : BeName} (hne : (store "/efi" kernelSys).content b ≠ noFiles) :
    b = nameA := by
  obtain ⟨rel, hrel⟩ := Function.ne_iff.mp hne
  have hmem := mem_paths_of_readFile (Option.isSome_iff_ne_none.mpr hrel)
  have hpaths : kernelSys.paths = [kernelDir "/efi" nameA.text ++ '/' :: ("old" : CStr),
      kernelDir "/efi" nameA.text ++ '/' :: ("new" : CStr), entryPath "/efi" "a", fstabOf []] := by
    decide +kernel
  rw [hpaths] at hmem
  by_contra hnot
  have hapart : ¬ Below (kernelDir "/efi" nameA.text) (kernelDir "/efi" b.text ++ '/' :: rel) :=
    kernelDir_disjoint hnot ⟨rel, rfl⟩
  simp only [List.mem_cons, List.not_mem_nil, or_false] at hmem
  obtain hpath | hpath | hpath | hpath := hmem
  · exact hapart ⟨_, hpath⟩
  · exact hapart ⟨_, hpath⟩
  · exact kernelDir_ne_entryPath hpath
  · simp [kernelDir, format, fstabOf] at hpath

theorem kernelSys_paired : Paired noFiles (store "/efi" kernelSys) := by
  intro b hne
  rw [kernelSys_kernels hne]
  exact kernelSys_listed

theorem kernelSys_fresh : nameN ∉ (store "/efi" kernelSys).listed ∧
    (store "/efi" kernelSys).content nameN = noFiles := by
  constructor
  · exact not_listed (by decide +kernel)
  · by_contra hne
    exact absurd (kernelSys_kernels hne) (by decide)

theorem renamed_back_sample :
    store "/efi" (exportedPlugin tidy pluginHandle [] (.postRename "n" "a") renamedSys).2 =
      store "/efi" kernelSys := by
  have hok : (postRename tidy pluginHandle nameN.text nameA.text renamedSys).1 = .success := by
    decide +kernel
  have hback : StoreRun tidy "/efi" kernelSys [.move nameA nameN, .move nameN nameA]
      (exportedPlugin tidy pluginHandle [] (.postRename "n" "a") renamedSys).2 :=
    .hook renamed_run plugin_efi (@Done.postRename _ _ _ _ _ nameN nameA (by decide) hok)
  exact renamed_back (fun _ _ => ⟨_, rfl⟩) tidy_foundRule tidy_renameRule hback
    (by decide) kernelSys_listed kernelSys_fresh.1 kernelSys_fresh.2

theorem kernels_bootable_sample : (renamedSys.readFile (entryPath "/efi" "n")).isSome := by
  exact @kernels_bootable _ _ _ _ _ tidy_openRule (fun _ _ => ⟨_, rfl⟩) tidy_foundRule
    tidy_renameRule renamed_run kernelSys_paired nameN "old" (by decide +kernel)

end Zectl.Systemdboot.BootStore
