import Zectl.Systemdboot.PostCreate
import Zectl.Systemdboot.PreSnapshotOutcome

/-!
# Kernels through snapshots

A snapshot holds the kernels it found and, as the directory they are saved in is never
emptied, those that earlier snapshots have left there. They are what its environment had as
long as no saved kernel has been removed since.
-/

namespace Zectl.Systemdboot.SavedKernels

open Zectl.Lib.StateRun Zectl.Util.CString Zectl.Util.Files Zectl.Util.Writes Zectl.Util.Directory
open Zectl.Util.CopyDir Zectl.Zfs.System Zectl.Zfs.Steps Zectl.Libze.Init Zectl.Libze.MountTree
open Zectl.Libze.Sample Zectl.Systemdboot.Loader Zectl.Systemdboot.Fstab Zectl.Systemdboot.Entry Zectl.Systemdboot.Rewritten
open Zectl.Systemdboot.PreSnapshot Zectl.Systemdboot.PreSnapshotOutcome Zectl.Systemdboot.PostCreate

/-- A snapshot: the kernels of the environment when it was taken, and those in it. -/
structure Taken where
  kernels : Tree
  saved : Tree

/-- The kernels of an environment, those saved in its own file system, and its snapshots. -/
structure World where
  kernels : Tree
  saved : Tree
  snapshots : List Taken

/-- The kernels change, or the hook of a snapshot runs in a state and succeeds or fails. -/
inductive Action where
  | update (kernels : Tree)
  | snapshot (mountpointBuf : CStr) (isRoot : Bool) (s : Sys)
  | attempt (mountpointBuf : CStr) (isRoot : Bool) (s : Sys)

/-- Where the hook should save the kernels. -/
def savedIn (host : Host) (h : Handle) (b : CStr) (isRoot : Bool) (s : Sys) : CStr :=
  bootDest (saveDir h (mountpointOf host h b isRoot s))

/-- The state of the system is one of the world. -/
def World.ShownBy (w : World) (host : Host) (h : Handle) (b : CStr) (isRoot : Bool) (s : Sys) : Prop :=
  below s (kernelDir (propertyOf h "efi") b) = w.kernels ∧
  below s (savedIn host h b isRoot s) = w.saved

/-- What can be done in a world. -/
def Action.Occurs (host : Host) (h : Handle) (b : CStr) (w : World) : Action → Prop
  | .update kernels => IsTree kernels
  | .snapshot mountpointBuf isRoot s =>
    w.ShownBy host h b isRoot s ∧ (preSnapshot host h mountpointBuf b isRoot s).1 = .success
  | .attempt mountpointBuf isRoot s =>
    w.ShownBy host h b isRoot s ∧ (preSnapshot host h mountpointBuf b isRoot s).1 ≠ .success

/-- What the hook leaves of the kernels. -/
def World.afterHook (w : World) (host : Host) (h : Handle) (b mountpointBuf : CStr) (isRoot : Bool)
    (s : Sys) : World :=
  let t := (preSnapshot host h mountpointBuf b isRoot s).2
  { w with
    kernels := below t (kernelDir (propertyOf h "efi") b)
    saved := below t (savedIn host h b isRoot s) }

/-- A snapshot is taken behind the hook. -/
def World.act (host : Host) (h : Handle) (b : CStr) (w : World) : Action → World
  | .update kernels => { w with kernels }
  | .snapshot mountpointBuf isRoot s =>
    let u := w.afterHook host h b mountpointBuf isRoot s
    { u with snapshots := { kernels := w.kernels, saved := u.saved } :: w.snapshots }
  | .attempt mountpointBuf isRoot s => w.afterHook host h b mountpointBuf isRoot s

section Act
variable {host : Host} {h : Handle} {b mountpointBuf : CStr} {isRoot : Bool} {s : Sys}

theorem act_saved (w : World) :
    (w.act host h b (.snapshot mountpointBuf isRoot s)).saved =
      below (preSnapshot host h mountpointBuf b isRoot s).2 (savedIn host h b isRoot s) := rfl

theorem act_snapshots (w : World) :
    (w.act host h b (.snapshot mountpointBuf isRoot s)).snapshots =
      { kernels := w.kernels
        saved := below (preSnapshot host h mountpointBuf b isRoot s).2
          (savedIn host h b isRoot s) } :: w.snapshots := rfl

end Act

/-- Updates and snapshots in any order. -/
inductive Run (host : Host) (h : Handle) (b : CStr) (may : World → Action → Prop) :
    World → World → Prop
  | start (w : World) : Run host h b may w w
  | act {w u : World} {a : Action} (hrun : Run host h b may w u) (hoccurs : a.Occurs host h b u)
      (hmay : may u a) : Run host h b may w (u.act host h b a)

/-- A creation from the snapshot that succeeds, and has no write to a kernel refused, leaves the
kernels of the environment. -/
def Restores (host : Host) (h : Handle) (snap : Taken) : Prop :=
  ∀ createData s t, createData.fromSnapshot = true →
    EspApart (propertyOf h "efi") createData.beMountpoint →
    EspApart (propertyOf h "efi") (saveDir h createData.beMountpoint) →
    below s (bootDest (saveDir h createData.beMountpoint)) = snap.saved →
    (∀ rel, below s (kernelDir (propertyOf h "efi") createData.beName) rel = none) →
    postCreate host h createData s = (.success, t) →
    (∀ rel, WritesGranted s t (kernelDir (propertyOf h "efi") createData.beName ++ '/' :: rel)) →
    below t (kernelDir (propertyOf h "efi") createData.beName) = snap.kernels

/-- The kernels have been copied without a failure, those included that nobody tests. -/
def KernelsCopied (host : Host) (h : Handle) (b mountpoint : CStr) (s : Sys) : Prop :=
  ∃ p t, savePaths b (propertyOf h "efi") (propertyOf h "kernelsnapshotdirectory") mountpoint =
    .ok p ∧ saveKernels host p s = (.success, t) ∧
    ∀ rel, WritesGranted s t (p.kernelBootDir ++ '/' :: rel)

/-- The kernels are saved where they belong, and that is not on their own partition. -/
structure Placed (host : Host) (h : Handle) (b mountpointBuf : CStr) (isRoot : Bool) (s : Sys) :
    Prop where
  apart : EspApart (propertyOf h "efi") (saveDir h (mountpointOf host h b isRoot s))
  buffer : isRoot = true → mountpointBuf = []

/-- When a snapshot is taken, the kernels are copied without a failure and every kernel that
was saved before is still one of them. -/
def Action.Keeps (host : Host) (h : Handle) (b : CStr) (w : World) : Action → Prop
  | .update _ => True
  | .snapshot mountpointBuf isRoot s =>
    Placed host h b mountpointBuf isRoot s ∧
    KernelsCopied host h b (mountpointOf host h b isRoot s) (mountedState host h b isRoot s) ∧
    ∀ rel, (w.saved rel).isSome → (w.kernels rel).isSome
  | .attempt mountpointBuf isRoot s => Placed host h b mountpointBuf isRoot s

/-! ## What one run of the hook does to the kernels -/

section Hook
variable {host : Host} {h : Handle} {b mountpoint mountpointBuf : CStr} {isRoot : Bool}
  {r : LibzeError} {s t u : Sys}

theorem entryDest_below {dir : CStr} : Below dir (entryDest dir) :=
  ⟨"loader/entries/org.zectl-%ZECTLBE%.conf", by simp [entryDest]⟩

theorem fstabDest_below {dir : CStr} : Below dir (fstabDest dir) :=
  ⟨"etc/fstab", by simp [fstabDest]⟩

/-- Everything is saved below one directory. -/
theorem saveAll_saves :
    Issues host (SavesIn (Below (saveDir h mountpoint))) (saveAll host h b mountpoint) := by
  have hmono : ∀ {inside : CStr → Prop} {c : Call}, (∀ p, inside p → Below (saveDir h mountpoint) p) →
      SavesIn inside c → SavesIn (Below (saveDir h mountpoint)) c :=
    fun himp hc => ⟨hc.1.mono himp, hc.2⟩
  unfold saveAll saveBootFiles
  cases hpaths : savePaths b (propertyOf h "efi") (propertyOf h "kernelsnapshotdirectory") mountpoint with
  | error message => exact issues_errorSet _ _
  | ok p =>
    obtain rfl := savePaths_ok hpaths
    apply moves_bind
    · apply saveKernels_saves.weaken
      intro c hc
      apply hmono _ hc
      rintro p ⟨rel, rfl⟩
      exact bootDest_below
    intro ret
    apply moves_ite (fun _ => moves_pure _)
    intro _
    apply moves_bind
    · apply replaceBeName_saves.weaken
      intro c hc
      apply hmono _ hc
      rintro p rfl
      exact entryDest_below
    intro ret
    apply moves_ite (fun _ => moves_pure _)
    intro _
    apply moves_bind
    · apply (replaceMatched_saves (getFstabLineFromRegex_steady _)).weaken
      intro c hc
      apply hmono _ hc
      rintro p rfl
      exact fstabDest_below
    intro ret
    exact moves_ite (fun _ => issues_errorSet _ _) fun _ => moves_pure _

theorem Placed.mountpoint_eq (hplaced : Placed host h b mountpointBuf isRoot s) :
    (if isRoot then mountpointBuf else (libzeMount host h b none s).1.2) =
      mountpointOf host h b isRoot s := by
  cases isRoot with
  | true => exact hplaced.buffer rfl
  | false => rfl

/-- The kernels themselves are left alone. -/
theorem hook_kernels (hplaced : Placed host h b mountpointBuf isRoot s)
    (hr : preSnapshot host h mountpointBuf b isRoot s = (r, t)) :
    below t (kernelDir (propertyOf h "efi") b) = below s (kernelDir (propertyOf h "efi") b) := by
  funext rel
  obtain ⟨-, huntouched⟩ | ⟨r', s2, hbefore, hsave, hafter⟩ := preSnapshot_cases hr
  · exact huntouched.same _
  · rw [hplaced.mountpoint_eq] at hsave
    have hkeep := readFile_of_touches (saveAll_saves.weaken fun _ hc => hc.1) hsave
      (hplaced.apart _ (@kernelDir_below _ b rel))
    exact (hafter.same _).trans (hkeep.trans (hbefore.same _))

/-- Behind the copy of the kernels only the entry and `fstab` are written. -/
theorem saveAll_after {p : SavePaths} {path : CStr}
    (hpaths : savePaths b (propertyOf h "efi") (propertyOf h "kernelsnapshotdirectory") mountpoint =
      .ok p)
    (hkernels : saveKernels host p s = (.success, u)) (hr : saveAll host h b mountpoint s = (r, t))
    (hentry : path ≠ entryDest (saveDir h mountpoint))
    (hfstab : path ≠ fstabDest (saveDir h mountpoint)) : t.readFile path = u.readFile path := by
  unfold saveAll saveBootFiles at hr
  rw [hpaths] at hr
  dsimp only at hr
  rw [run_bind, hkernels] at hr
  obtain rfl := savePaths_ok hpaths
  dsimp only at hr
  rw [if_neg (by simp)] at hr
  obtain ⟨r3, s3, hreplace, hr⟩ := bind_run hr
  have hkeep3 := readFile_of_touches (replaceBeName_saves.weaken fun _ hc => hc.1) hreplace hentry
  split at hr
  · cases hr
    exact hkeep3
  obtain ⟨r4, s4, hmatched, hr⟩ := bind_run hr
  have hkeep4 := replaceMatched_same (getFstabLineFromRegex_steady _) hmatched hfstab
  split at hr
  · have hend := (errorSet_untouched hr).same path
    exact hend.trans (hkeep4.trans hkeep3)
  · cases hr
    exact hkeep4.trans hkeep3

/-- What is saved in the end: the kernels, and of what was saved before the rest. -/
theorem hook_saved (hopen : OpenRule host) (hplaced : Placed host h b mountpointBuf isRoot s)
    (hcopied : KernelsCopied host h b (mountpointOf host h b isRoot s)
      (mountedState host h b isRoot s))
    (htree : IsTree (below s (kernelDir (propertyOf h "efi") b)))
    (hr : preSnapshot host h mountpointBuf b isRoot s = (.success, t)) (rel : CStr) :
    below t (savedIn host h b isRoot s) rel =
      (below s (kernelDir (propertyOf h "efi") b) rel).or (below s (savedIn host h b isRoot s) rel) := by
  obtain ⟨hne, -⟩ | ⟨r', s2, hbefore, hsave, hafter⟩ := preSnapshot_cases hr
  · exact absurd rfl hne
  rw [hplaced.mountpoint_eq] at hsave
  obtain ⟨p, u, hpaths, hkernels, hgranted⟩ := hcopied
  have hkeep := @saveAll_after host h b _ r' _ s2 u p (savedIn host h b isRoot s ++ '/' :: rel) hpaths
    hkernels hsave bootDest_ne_entryDest bootDest_ne_fstabDest
  obtain ⟨v, huntouched, hcopy⟩ := saveKernels_success hkernels
  obtain rfl := savePaths_ok hpaths
  have hsame := hbefore.trans huntouched
  have hbelow : ∀ dir, below v dir = below s dir := fun dir => funext fun rel => hsame.same _
  have hapart : Apart (kernelDir (propertyOf h "efi") b) (savedIn host h b isRoot s) := by
    rintro rel ⟨rel', heq⟩
    apply hplaced.apart _ (@kernelDir_below _ b rel)
    rw [heq]
    exact bootDest_below
  have hrun : Ran v u := ran_of_issues (copyTree_saves _ _ _) hcopy
  have hcopied := copyTree_below hopen hapart (hbelow _ ▸ htree) hcopy
    (fun rel => (hgranted rel).within huntouched.ran hrun (.refl u)) rel
  rw [hbelow, hbelow] at hcopied
  exact (hafter.same _).trans (hkeep.trans hcopied)

/-- The saved kernels are those of the environment when nothing else was saved before. -/
theorem saved_eq_iff {kernels saved : Tree} :
    (fun rel => (kernels rel).or (saved rel)) = kernels ↔
      ∀ rel, (saved rel).isSome → (kernels rel).isSome := by
  constructor
  · intro heq rel hsome
    rw [← heq]
    cases hrel : kernels rel with
    | none =>
      dsimp only
      rw [hrel]
      exact hsome
    | some content =>
      dsimp only
      rw [hrel]
      rfl
  · intro hpresent
    funext rel
    cases hrel : kernels rel with
    | some content => rfl
    | none =>
      have hnone := mt (hpresent rel)
      rw [hrel] at hnone
      exact Option.not_isSome_iff_eq_none.mp (hnone (by simp))

end Hook

/-! ## Runs -/

/-- What holds in every world of a run: each snapshot holds the kernels of its time. -/
structure Good (w : World) : Prop where
  kernels : IsTree w.kernels
  snapshots : ∀ snap ∈ w.snapshots, IsTree snap.kernels ∧ snap.saved = snap.kernels

section Runs
variable {host : Host} {h : Handle} {b : CStr} {w u : World} {a : Action}

theorem good_act (hopen : OpenRule host) (hgood : Good w) (hoccurs : a.Occurs host h b w)
    (hkeeps : a.Keeps host h b w) : Good (w.act host h b a) := by
  cases a with
  | update kernels => exact ⟨hoccurs, hgood.snapshots⟩
  | attempt mountpointBuf isRoot s =>
    obtain ⟨⟨hkernels, -⟩, -⟩ := hoccurs
    constructor
    · have hsame := hook_kernels hkeeps (run_eq_of_fst rfl)
      show IsTree (below _ (kernelDir (propertyOf h "efi") b))
      rw [hsame, hkernels]
      exact hgood.kernels
    · exact hgood.snapshots
  | snapshot mountpointBuf isRoot s =>
    obtain ⟨⟨hkernels, hsaved⟩, hsuccess⟩ := hoccurs
    obtain ⟨hplaced, hcopied, hpresent⟩ := hkeeps
    have hr := run_eq_of_fst hsuccess
    constructor
    · have hsame := hook_kernels hplaced hr
      show IsTree (below _ (kernelDir (propertyOf h "efi") b))
      rw [hsame, hkernels]
      exact hgood.kernels
    intro snap hsnap
    obtain rfl | hsnap := List.mem_cons.mp hsnap
    · refine ⟨hgood.kernels, ?_⟩
      have htree : IsTree (below s (kernelDir (propertyOf h "efi") b)) := hkernels ▸ hgood.kernels
      have hmerged := funext (hook_saved hopen hplaced hcopied htree hr)
      rw [hkernels, hsaved] at hmerged
      exact hmerged.trans (saved_eq_iff.mpr hpresent)
    · exact hgood.snapshots snap hsnap

theorem Run.good (hopen : OpenRule host) (hgood : Good w)
    (hrun : Run host h b (Action.Keeps host h b) w u) : Good u := by
  induction hrun with
  | start => exact hgood
  | act _ hoccurs hkeeps ih => exact good_act hopen ih hoccurs hkeeps

theorem restores_of_eq (hopen : OpenRule host) (htemplate : TemplateRule host) {snap : Taken}
    (htree : IsTree snap.kernels) (heq : snap.saved = snap.kernels) : Restores host h snap := by
  intro createData s t hfrom hmount hsave hshown hfresh hr hgranted
  rw [← heq] at htree ⊢
  rw [← hshown] at htree ⊢
  exact postCreate_kernels hopen htemplate hmount hsave htree hfresh hfrom hgranted hr

/-- In a run in which nothing that was saved is removed before the next snapshot, every
snapshot gives back the kernels of its time. -/
theorem restores_of_run (hopen : OpenRule host) (htemplate : TemplateRule host)
    (htree : IsTree w.kernels) (hnone : w.snapshots = [])
    (hrun : Run host h b (Action.Keeps host h b) w u) :
    ∀ snap ∈ u.snapshots, Restores host h snap := by
  have hstart : Good w := ⟨htree, by simp [hnone]⟩
  have hgood := hrun.good hopen hstart
  intro snap hsnap
  obtain ⟨htree', heq⟩ := hgood.snapshots snap hsnap
  exact restores_of_eq hopen htemplate htree' heq

/-- A snapshot fails to restore when one creation from it leaves a kernel too many. -/
theorem not_restores {kernels saved : Tree} {createData : LibzeCreateData} {s : Sys}
    {rel content : CStr} (hfrom : createData.fromSnapshot = true)
    (hmount : EspApart (propertyOf h "efi") createData.beMountpoint)
    (hsave : EspApart (propertyOf h "efi") (saveDir h createData.beMountpoint))
    (hshown : below s (bootDest (saveDir h createData.beMountpoint)) = saved)
    (hfresh : ∀ rel, below s (kernelDir (propertyOf h "efi") createData.beName) rel = none)
    (hsuccess : (postCreate host h createData s).1 = .success)
    (hgranted : ∀ path, WritesGranted s (postCreate host h createData s).2 path)
    (hleft : below (postCreate host h createData s).2
      (kernelDir (propertyOf h "efi") createData.beName) rel = some content)
    (hremoved : kernels rel = none) : ¬ Restores host h { kernels, saved } := by
  intro hrestores
  have hlost := hrestores createData s _ hfrom hmount hsave hshown hfresh (run_eq_of_fst hsuccess)
    fun _ => hgranted _
  rw [hlost] at hleft
  exact absurd (hremoved.symm.trans hleft) (by simp)

end Runs

/-! ## A kernel that is removed between two snapshots -/

/-- Two kernels of the running environment. -/
def kernelSys : Sys :=
  { sampleSys [] with
    files := [("/efi/env/org.zectl-a/old", "1"), ("/efi/env/org.zectl-a/new", "2"),
      ("/efi/loader/entries/org.zectl-a.conf", "title a\n"),
      ("/etc/fstab", "/efi/env/org.zectl-a /boot none\n")] }

def kernelWorld : World where
  kernels := below kernelSys (kernelDir "/efi" "a")
  saved := below kernelSys "/var/lib/env/boot"
  snapshots := []

def savedFiles : List (CStr × CStr) :=
  [("/var/lib/etc/fstab", "/efi/env/org.zectl-%ZECTLBE%    /boot none\n"),
    ("/var/lib/loader/entries/org.zectl-%ZECTLBE%.conf", "title %ZECTLBE%\n"),
    ("/var/lib/env/boot/new", "2"), ("/var/lib/env/boot/old", "1")]

/-- The system behind the first snapshot without the old kernel. -/
def updatedSys : Sys := { sampleSys [] with files := savedFiles ++ kernelSys.files.tail }

/-- The environment of the second snapshot, mounted for a new one. -/
def clonedSys : Sys :=
  { sampleSys [] with files := updatedSys.files.map fun f => ("/tmp/n" ++ f.1, f.2) }

theorem isTree_of_flat {tree : Tree} (hflat : ∀ rel, (tree rel).isSome → IsName rel) : IsTree tree :=
  fun rel hsome => .entry (hflat rel hsome) hsome

theorem kernelDir_a : kernelDir "/efi" "a" = "/efi/env/org.zectl-a" := by decide

theorem kernelSys_names {rel : CStr} (hsome : (below kernelSys (kernelDir "/efi" "a") rel).isSome) :
    rel = "old" ∨ rel = "new" := by
  rw [kernelDir_a] at hsome
  have hmem : ("/efi/env/org.zectl-a" : CStr) ++ '/' :: rel ∈ kernelSys.paths :=
    mem_paths_of_readFile hsome
  have hpaths : kernelSys.paths = ["/efi/env/org.zectl-a/old", "/efi/env/org.zectl-a/new",
      "/efi/loader/entries/org.zectl-a.conf", "/etc/fstab"] := rfl
  rw [hpaths] at hmem
  simpa using hmem

theorem kernelWorld_names {rel : CStr} (hsome : (kernelWorld.kernels rel).isSome) : IsName rel := by
  obtain rfl | rfl := kernelSys_names hsome
  · exact ⟨by decide, by decide, by decide, by decide⟩
  · exact ⟨by decide, by decide, by decide, by decide⟩

theorem kernelWorld_tree : IsTree kernelWorld.kernels := isTree_of_flat fun _ => kernelWorld_names

theorem plugin_efi : propertyOf pluginHandle "efi" = "/efi" := by decide +kernel

theorem plugin_saveDir (mountpoint : CStr) :
    saveDir pluginHandle mountpoint = mountpoint ++ ("/var/lib" : CStr) := by
  have hdir : propertyOf pluginHandle "kernelsnapshotdirectory" = "/var/lib" := by decide +kernel
  rw [saveDir, hdir]

theorem root_placed (s : Sys) : Placed (careful none) pluginHandle "a" [] true s := by
  constructor
  · rw [plugin_efi, plugin_saveDir]
    rintro path ⟨rel, rfl⟩ ⟨rel', heq⟩
    simp [mountpointOf] at heq
  · intro _
    rfl

theorem root_savedIn (s : Sys) :
    savedIn (careful none) pluginHandle "a" true s = "/var/lib/env/boot" := by
  rw [savedIn, plugin_saveDir]
  rfl

theorem kernelWorld_shown : kernelWorld.ShownBy (careful none) pluginHandle "a" true kernelSys := by
  constructor
  · rw [plugin_efi]
    rfl
  · rw [root_savedIn]
    rfl

theorem first_run :
    (preSnapshot (careful none) pluginHandle [] "a" true kernelSys).1 = .success ∧
    (preSnapshot (careful none) pluginHandle [] "a" true kernelSys).2.files =
      savedFiles ++ kernelSys.files := by decide +kernel

theorem careful_grants : GrantsWrites (careful none) := fun _ _ _ => rfl

theorem kernelSys_copied : KernelsCopied (careful none) pluginHandle "a"
    (mountpointOf (careful none) pluginHandle "a" true kernelSys)
    (mountedState (careful none) pluginHandle "a" true kernelSys) :=
  ⟨pathsIn "a" "/efi" "/var/lib" [], _, by decide +kernel, run_eq_of_fst (by decide +kernel),
    fun _ => writesGranted_of_host careful_grants saveKernels_saves (run_eq_of_fst rfl)⟩

theorem kernelWorld_present {rel : CStr} (hsome : (kernelWorld.saved rel).isSome) :
    (kernelWorld.kernels rel).isSome := by
  have hmem : ("/var/lib/env/boot" : CStr) ++ '/' :: rel ∈ kernelSys.paths :=
    mem_paths_of_readFile hsome
  simp [kernelSys, sampleSys, Sys.paths] at hmem

theorem restores_of_run_sample : ∃ snap, snap ∈ (kernelWorld.act (careful none) pluginHandle "a"
    (.snapshot [] true kernelSys)).snapshots ∧ Restores (careful none) pluginHandle snap := by
  have hrun : Run (careful none) pluginHandle "a" (Action.Keeps (careful none) pluginHandle "a")
      kernelWorld (kernelWorld.act (careful none) pluginHandle "a" (.snapshot [] true kernelSys)) :=
    .act (.start _) ⟨kernelWorld_shown, first_run.1⟩
      ⟨root_placed _, kernelSys_copied, fun _ => kernelWorld_present⟩
  have hall := restores_of_run (careful_openRule none) (fun _ _ => ⟨_, rfl⟩) kernelWorld_tree rfl
    hrun
  exact ⟨_, List.mem_cons_self, hall _ List.mem_cons_self⟩

theorem lookup_under (pfx path : CStr) (files : List (CStr × CStr)) :
    (files.map fun f => (pfx ++ f.1, f.2)).lookup (pfx ++ path) = files.lookup path := by
  induction files with
  | nil => rfl
  | cons f rest ih =>
    have hkey : (pfx ++ path == pfx ++ f.1) = (path == f.1) := by
      rw [Bool.eq_iff_iff, beq_iff_eq, beq_iff_eq, List.append_cancel_left_eq]
    rw [List.map_cons, List.lookup_cons, List.lookup_cons, hkey, ih]

theorem second_run :
    (preSnapshot (careful none) pluginHandle [] "a" true updatedSys).1 = .success ∧
    (preSnapshot (careful none) pluginHandle [] "a" true updatedSys).2.files = updatedSys.files := by
  decide +kernel

theorem updatedSys_tree : IsTree (below updatedSys (kernelDir "/efi" "a")) := by
  apply isTree_of_flat
  intro rel hsome
  rw [kernelDir_a] at hsome
  have hmem : ("/efi/env/org.zectl-a" : CStr) ++ '/' :: rel ∈ updatedSys.paths :=
    mem_paths_of_readFile hsome
  have hpaths : updatedSys.paths = ["/var/lib/etc/fstab",
      "/var/lib/loader/entries/org.zectl-%ZECTLBE%.conf", "/var/lib/env/boot/new",
      "/var/lib/env/boot/old", "/efi/env/org.zectl-a/new",
      "/efi/loader/entries/org.zectl-a.conf", "/etc/fstab"] := rfl
  rw [hpaths] at hmem
  have hrel : rel = "new" := by simpa using hmem
  rw [hrel]
  exact ⟨by decide, by decide, by decide, by decide⟩

/-- Nothing outside of the saved files is below the directory for the kernels. -/
theorem lookup_saved (rel : CStr) (files : List (CStr × CStr))
    (hfiles : ∀ f ∈ files, f.1 ≠ ("/var/lib/env/boot" : CStr) ++ '/' :: rel) :
    (savedFiles ++ files).lookup (("/var/lib/env/boot" : CStr) ++ '/' :: rel) =
      savedFiles.lookup (("/var/lib/env/boot" : CStr) ++ '/' :: rel) := by
  have hnone : files.lookup (("/var/lib/env/boot" : CStr) ++ '/' :: rel) = none := by
    rw [List.lookup_eq_none_iff]
    intro f hf
    exact bne_iff_ne.mpr (hfiles f hf).symm
  rw [List.lookup_append, hnone, Option.or_none]

theorem kernelSys_unsaved (rel : CStr) :
    ∀ f ∈ kernelSys.files, f.1 ≠ ("/var/lib/env/boot" : CStr) ++ '/' :: rel := by
  simp [kernelSys]

theorem updatedSys_saved : below updatedSys "/var/lib/env/boot" =
    below (preSnapshot (careful none) pluginHandle [] "a" true kernelSys).2 "/var/lib/env/boot" := by
  funext rel
  rw [below, below, Sys.readFile, Sys.readFile, first_run.2, updatedSys,
    lookup_saved rel _ (kernelSys_unsaved rel),
    lookup_saved rel _ fun f hf => kernelSys_unsaved rel f (List.mem_of_mem_tail hf)]

theorem clonedSys_saved : below clonedSys (bootDest (saveDir pluginHandle "/tmp/n")) =
    below (preSnapshot (careful none) pluginHandle [] "a" true updatedSys).2 "/var/lib/env/boot" := by
  funext rel
  have hpath : bootDest (saveDir pluginHandle "/tmp/n") ++ '/' :: rel =
      ("/tmp/n" : CStr) ++ (("/var/lib/env/boot" : CStr) ++ '/' :: rel) := by
    rw [plugin_saveDir]
    simp [bootDest]
  rw [below, hpath, below, Sys.readFile, Sys.readFile, second_run.2, clonedSys, lookup_under]

theorem clonedSys_fresh (rel : CStr) : below clonedSys (kernelDir "/efi" "n") rel = none := by
  have hdir : kernelDir "/efi" "n" = "/efi/env/org.zectl-n" := by decide
  have hfar : ∀ files : List (CStr × CStr), (files.map fun f => (("/tmp/n" : CStr) ++ f.1, f.2)).lookup
      (("/efi/env/org.zectl-n" : CStr) ++ '/' :: rel) = none := by
    intro files
    rw [List.lookup_eq_none_iff]
    intro f hf
    obtain ⟨g, -, rfl⟩ := List.mem_map.mp hf
    simp
  rw [hdir, below, Sys.readFile, clonedSys, hfar]

/-- The world behind the first snapshot, and behind the update. -/
def firstWorld : World :=
  kernelWorld.act (careful none) pluginHandle "a" (.snapshot [] true kernelSys)

def updatedWorld : World := { firstWorld with kernels := below updatedSys (kernelDir "/efi" "a") }

theorem updatedWorld_saved : updatedWorld.saved =
    below (preSnapshot (careful none) pluginHandle [] "a" true kernelSys).2
      (savedIn (careful none) pluginHandle "a" true kernelSys) := by
  rw [updatedWorld, firstWorld, act_saved]

theorem updatedWorld_shown :
    updatedWorld.ShownBy (careful none) pluginHandle "a" true updatedSys := by
  constructor
  · rw [plugin_efi]
    exact Eq.refl (below updatedSys (kernelDir "/efi" "a"))
  · rw [updatedWorld_saved, root_savedIn, root_savedIn]
    exact updatedSys_saved

theorem updated_run : Run (careful none) pluginHandle "a" (fun _ _ => True) kernelWorld
    (updatedWorld.act (careful none) pluginHandle "a" (.snapshot [] true updatedSys)) := by
  have hfirst : Run (careful none) pluginHandle "a" (fun _ _ => True) kernelWorld firstWorld :=
    .act (.start _) ⟨kernelWorld_shown, first_run.1⟩ trivial
  have hupdated : Run (careful none) pluginHandle "a" (fun _ _ => True) kernelWorld updatedWorld :=
    @Run.act _ _ _ _ _ _ (.update (below updatedSys (kernelDir "/efi" "a"))) hfirst updatedSys_tree
      trivial
  have hoccurs : (Action.snapshot [] true updatedSys).Occurs (careful none) pluginHandle "a"
      updatedWorld := ⟨updatedWorld_shown, second_run.1⟩
  exact .act hupdated hoccurs trivial

def newData : LibzeCreateData := ⟨"n", "/tmp/n", true⟩

theorem newData_shown : below clonedSys (bootDest (saveDir pluginHandle newData.beMountpoint)) =
    below (preSnapshot (careful none) pluginHandle [] "a" true updatedSys).2
      (savedIn (careful none) pluginHandle "a" true updatedSys) := by
  rw [newData, clonedSys_saved, root_savedIn]

theorem newData_fresh (rel : CStr) :
    below clonedSys (kernelDir (propertyOf pluginHandle "efi") newData.beName) rel = none := by
  rw [newData, plugin_efi]
  exact clonedSys_fresh rel

theorem newData_apart : EspApart (propertyOf pluginHandle "efi") newData.beMountpoint ∧
    EspApart (propertyOf pluginHandle "efi") (saveDir pluginHandle newData.beMountpoint) := by
  rw [newData, plugin_efi, plugin_saveDir]
  constructor
  · rintro path ⟨rel, rfl⟩ ⟨rel', heq⟩
    simp at heq
  · rintro path ⟨rel, rfl⟩ ⟨rel', heq⟩
    simp at heq

theorem newData_left : (postCreate (careful none) pluginHandle newData clonedSys).1 = .success ∧
    below (postCreate (careful none) pluginHandle newData clonedSys).2
      (kernelDir (propertyOf pluginHandle "efi") newData.beName) "old" = some "1" := by
  decide +kernel

theorem newData_granted (path : CStr) :
    WritesGranted clonedSys (postCreate (careful none) pluginHandle newData clonedSys).2 path := by
  have hgranted : ∀ e ∈ since clonedSys (postCreate (careful none) pluginHandle newData clonedSys).2,
      e.2 = 0 := by decide +kernel
  exact fun text code hmem => hgranted (.file (.fwrite path text), code) hmem

/-- A kernel that an update has removed is in the next snapshot all the same, as the first one
has left it in the directory the kernels are saved in. -/
theorem not_restored_after_removal :
    ¬ ∀ (host : Host) (h : Handle) (b : CStr) (w u : World), OpenRule host → TemplateRule host →
      IsTree w.kernels → w.snapshots = [] → Run host h b (fun _ _ => True) w u →
      ∀ snap ∈ u.snapshots, Restores host h snap := by
  intro hall
  have hrestores := hall (careful none) pluginHandle "a" kernelWorld _ (careful_openRule none)
    (fun _ _ => ⟨_, rfl⟩) kernelWorld_tree rfl updated_run
  rw [act_snapshots] at hrestores
  have hremoved : updatedWorld.kernels "old" = none := by decide +kernel
  exact not_restores rfl newData_apart.1 newData_apart.2 newData_shown newData_fresh newData_left.1
    newData_granted newData_left.2 hremoved (hrestores _ List.mem_cons_self)

end Zectl.Systemdboot.SavedKernels
