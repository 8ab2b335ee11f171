import Zectl.Libze.Guards
import Zectl.Libze.Allowing
import Mathlib.Data.List.Perm.Subperm

/-!
# Where the guards fail

When `Separate` does not hold, a system on which the handle validates and a run in
which every call succeeds destroys, renames or unmounts a protected filesystem. The
system is the given one cut down to the datasets that matter.
-/

namespace Zectl.Libze.GuardsExact

open Zectl.Lib.StateRun Zectl.Lib.PathOrder Zectl.Util.CString Zectl.Zfs.System Zectl.Zfs.Steps
open Zectl.Zfs.Forest Zectl.Libze.Init Zectl.Libze.Validate Zectl.Libze.Destroy
open Zectl.Libze.DestroyOutcome Zectl.Libze.Rename Zectl.Libze.Unmount Zectl.Libze.Guards
open Zectl.Libze.Sample Zectl.Libze.Allowing

/-! ## Cutting a system down -/

/-- The names at or above one of the keys, as plain datasets. -/
def pruned (names keys : List CStr) (mounted : CStr → Bool) (bootfs : CStr) : Sys where
  datasets := (names.filter fun n => ∃ k ∈ keys, AtOrBelow n k).map fun n =>
    { name := n, mountedAt := if mounted n then some ['/'] else none }
  bootfs := bootfs

section Pruned
variable {names keys : List CStr} {mounted : CStr → Bool} {bootfs n : CStr}

theorem mem_pruned :
    n ∈ (pruned names keys mounted bootfs).names ↔ n ∈ names ∧ ∃ k ∈ keys, AtOrBelow n k := by
  simp [pruned, Sys.names]

theorem pruned_names :
    (pruned names keys mounted bootfs).names = names.filter fun n => ∃ k ∈ keys, AtOrBelow n k := by
  simp only [pruned, Sys.names, List.map_map]
  exact List.map_id _

theorem pruned_forest (hs : IsForest names) : IsForest (pruned names keys mounted bootfs).names := by
  rw [pruned_names]
  refine ⟨hs.nodup.filter _, fun n hn => hs.valid n (List.mem_of_mem_filter hn), ?_⟩
  intro n hn p hp
  obtain ⟨hmem, habove⟩ := List.mem_filter.mp hn
  simp only [decide_eq_true_eq] at habove
  obtain ⟨k, hk, hnk⟩ := habove
  refine List.mem_filter.mpr ⟨hs.parent n hmem p hp, ?_⟩
  simp only [decide_eq_true_eq]
  exact ⟨k, hk, (atOrBelow_of_parentOf hp).trans hnk⟩

theorem pruned_plain : Plain (pruned names keys mounted bootfs) := by
  intro d hd
  obtain ⟨n, _, rfl⟩ := List.mem_map.mp hd
  exact ⟨rfl, rfl⟩

theorem pruned_isMounted (hn : n ∈ (pruned names keys mounted bootfs).names) :
    (pruned names keys mounted bootfs).isMounted n = mounted n := by
  obtain ⟨d, hd, hfind⟩ := find_of_mem hn
  have hname : d.name = n := by simpa using List.find?_some hfind
  obtain ⟨x, _, rfl⟩ := List.mem_map.mp hd
  rw [Sys.isMounted, hfind, ← hname]
  cases mounted x <;> simp

theorem pruned_not_isMounted (hn : mounted n = false) :
    (pruned names keys mounted bootfs).isMounted n = false := by
  cases hfind : (pruned names keys mounted bootfs).find n with
  | none => simp [Sys.isMounted, hfind]
  | some d =>
    have hmem := List.mem_of_find?_eq_some hfind
    have hname : d.name = n := by simpa using List.find?_some hfind
    rw [pruned_isMounted (hname ▸ List.mem_map_of_mem hmem), hn]

theorem pruned_exists (hk : n ∈ keys) (hfs : isSnapshotName n = false) (hn : n ∈ names) :
    (pruned names keys mounted bootfs).datasetExists n .filesystem = true := by
  have hmem : n ∈ (pruned names keys mounted bootfs).names := mem_pruned.mpr ⟨hn, n, hk, under_refl⟩
  simp [Sys.datasetExists, hmem, hfs]

end Pruned

/-! ## The system of the failing runs -/

/-- The environments whose datasets the runs look at. -/
def actors (h : Handle) (be : CStr) : List CStr := [be, h.envActivated, h.envRunning]

def keys (h : Handle) (be : CStr) : List CStr :=
  h.envRunningPath :: h.envActivatedPath :: ((actors h be).map h.beDataset ++
    (actors h be).flatMap fun b => (h.bootpool.map fun bp => bp.beDataset b).toList)

section System
variable {h : Handle} {be bootfs : CStr} {host : Host} {s : Sys} {mounted : CStr → Bool}

theorem beDataset_mem_keys {b : CStr} (hb : b ∈ actors h be) : h.beDataset b ∈ keys h be :=
  List.mem_cons_of_mem _ (List.mem_cons_of_mem _
    (List.mem_append_left _ (List.mem_map_of_mem hb)))

theorem boot_mem_keys {b : CStr} (hb : b ∈ actors h be) {bp : Bootpool}
    (hbp : h.bootpool = some bp) : bp.beDataset b ∈ keys h be := by
  refine List.mem_cons_of_mem _ (List.mem_cons_of_mem _ (List.mem_append_right _ ?_))
  exact List.mem_flatMap.mpr ⟨b, hb, by simp [hbp]⟩

/-- What one system shows about a handle and a name the checks accept. -/
structure Accepted (h : Handle) (be : CStr) (s : Sys) : Prop where
  forest : IsForest s.names
  running : s.datasetExists h.envRunningPath .filesystem
  activated : s.datasetExists h.envActivatedPath .filesystem
  fits : ∀ b ∈ actors h be, Fits h b
  exist : ∀ b ∈ actors h be, Exists h s b

theorem accepted_of_opened (hopen : Opened host h s)
    (hbe : (validateExistingBe host h be s).1.1 = .success) : Accepted h be s := by
  obtain ⟨hactivated, hrunning⟩ := libzeValidateSystem_success hopen.valid
  rcases hval : validateExistingBe host h be s with ⟨⟨ret, ds, bds⟩, t⟩
  rw [hval] at hbe
  obtain rfl : ret = .success := hbe
  obtain ⟨-, -, hfits, hexist⟩ := validateExistingBe_success hval
  refine ⟨hopen.forest, hopen.running, hopen.activated, ?_, ?_⟩
  · intro b hb
    simp only [actors, List.mem_cons, List.not_mem_nil, or_false] at hb
    obtain rfl | rfl | rfl := hb
    · exact hfits
    · exact hactivated.1
    · exact hrunning.1
  · intro b hb
    simp only [actors, List.mem_cons, List.not_mem_nil, or_false] at hb
    obtain rfl | rfl | rfl := hb
    · exact hexist
    · exact hactivated.2
    · exact hrunning.2

theorem Accepted.exists_pruned (hacc : Accepted h be s) {b : CStr} (hb : b ∈ actors h be) :
    Exists h (pruned s.names (keys h be) mounted bootfs) b := by
  refine ⟨?_, fun bp hbp => ?_⟩
  · obtain ⟨hmem, hfs⟩ := exists_filesystem (hacc.exist b hb).root
    exact pruned_exists (beDataset_mem_keys hb) hfs hmem
  · obtain ⟨hmem, hfs⟩ := exists_filesystem ((hacc.exist b hb).boot bp hbp)
    exact pruned_exists (boot_mem_keys hb hbp) hfs hmem

theorem Accepted.opened_pruned (hacc : Accepted h be s) (hmounted : mounted h.envRunningPath = true) :
    Opened allowing h (pruned s.names (keys h be) mounted h.envActivatedPath) := by
  obtain ⟨hrun, hrunFs⟩ := exists_filesystem hacc.running
  obtain ⟨hact, hactFs⟩ := exists_filesystem hacc.activated
  have hrunKey : h.envRunningPath ∈ keys h be := List.mem_cons_self
  have hactKey : h.envActivatedPath ∈ keys h be := List.mem_cons_of_mem _ List.mem_cons_self
  refine ⟨pruned_forest hacc.forest, pruned_exists hrunKey hrunFs hrun, ?_,
    pruned_exists hactKey hactFs hact, rfl, ?_⟩
  · rw [pruned_isMounted (mem_pruned.mpr ⟨hrun, _, hrunKey, under_refl⟩), hmounted]
  · exact libzeValidateSystem_allowing pruned_plain
      ⟨hacc.fits _ (by simp [actors]), hacc.exists_pruned (by simp [actors])⟩
      ⟨hacc.fits _ (by simp [actors]), hacc.exists_pruned (by simp [actors])⟩

/-- Where a path is not apart from the environment, some filesystem is in both trees. -/
theorem exists_common {path : CStr} (hno : ¬ BeApart h be path) :
    ∃ m, (m = path ∨ m = h.beDataset be ∨ ∃ bp ∈ h.bootpool, m = bp.beDataset be) ∧
      InTrees h be m ∧ AtOrBelow path m := by
  have hmeet : ∀ ds, ¬ Apart ds path → ∃ m, (m = path ∨ m = ds) ∧ AtOrBelow ds m ∧
      AtOrBelow path m := by
    intro ds hds
    rw [Apart, not_and_or, not_not, not_not] at hds
    obtain hdown | hup := hds
    · exact ⟨path, .inl rfl, hdown, under_refl⟩
    · exact ⟨ds, .inr rfl, under_refl, hup⟩
  rw [BeApart, not_and_or] at hno
  obtain hroot | hboot := hno
  · obtain ⟨m, hm, hds, hpath⟩ := hmeet _ hroot
    exact ⟨m, hm.imp_right .inl, .inl hds, hpath⟩
  · simp only [not_forall] at hboot
    obtain ⟨bp, hbp, hapart⟩ := hboot
    obtain ⟨m, hm, hds, hpath⟩ := hmeet _ hapart
    exact ⟨m, hm.imp_right fun he => .inr ⟨bp, hbp, he⟩, .inr ⟨bp, hbp, hds⟩, hpath⟩

/-- A run that acts on all of the environment's trees spares no path that is not apart. -/
theorem beApart_of_spared {path : CStr} {t : Sys} (hbe : Exists h s be)
    (hpath : s.datasetExists path .filesystem = true)
    (hacts : ∀ m ∈ s.names, isSnapshotName m = false → InTrees h be m →
      ∃ c, (c, 0) ∈ since s t ∧ ActsOn c m)
    (hspared : Spared s t path) : BeApart h be path := by
  by_contra hno
  obtain ⟨m, hm, hin, hbelow⟩ := exists_common hno
  have hmem : m ∈ s.names ∧ isSnapshotName m = false := by
    obtain rfl | rfl | ⟨bp, hbp, rfl⟩ := hm
    · exact exists_filesystem hpath
    · exact exists_filesystem hbe.root
    · exact exists_filesystem (hbe.boot bp hbp)
  obtain ⟨c, hc, hact⟩ := hacts m hmem.1 hmem.2 hin
  exact hspared c hc m hmem.1 hmem.2 hbelow hact

end System

/-! ## What a successful run acts on -/

section Runs
variable {h : Handle} {be newBe : CStr} {s t : Sys}

theorem libzeDestroy_acts {host : Host} {options : DestroyOptions} (hs : IsForest s.names)
    (hname : isSnapshotName options.beName = false)
    (hr : libzeDestroy host h options s = (.success, t)) {m : CStr} (hm : m ∈ s.names)
    (hin : InTrees h options.beName m) : ∃ c, (c, 0) ∈ since s t ∧ ActsOn c m := by
  obtain ⟨hroot, hboot⟩ := libzeDestroy_gone hs hname hr
  have hgone : m ∉ t.names := by
    obtain hbelow | ⟨bp, hbp, hbelow⟩ := hin
    · exact hroot m hbelow
    · exact hboot bp hbp m hbelow
  have hevent : (.zfs (.destroy m), 0) ∈ since s t := by
    by_contra hno
    exact hgone ((libzeDestroy_names hr m).mpr ⟨hm, hno⟩)
  exact ⟨_, hevent, rfl⟩

theorem mayUnmount_unmounts {host : Host} {inside : CStr → Prop} {c : Call} {n : CStr}
    (hc : MayUnmount inside c) (hn : s.isMounted n = true)
    (hnot : ¬ (c.effect host s).isMounted n = true) : c = .zfs (.unmount n) := by
  match c, hc with
  | .zfs (.poolOpen _), _ => exact absurd hn hnot
  | .zfs (.open _), _ => exact absurd hn hnot
  | .zfs (.propGet _ _), _ => exact absurd hn hnot
  | .zfs (.unmount name), _ =>
    rw [Call.effect, isMounted_unmount, hn, Bool.true_and, decide_eq_true_eq, not_not] at hnot
    rw [hnot]

theorem libzeUnmount_acts {host : Host} (hr : libzeUnmount host h be s = (.success, t))
    {m : CStr} (hm : s.isMounted m = true) (hnot : t.isMounted m = false) :
    ∃ c, (c, 0) ∈ since s t ∧ ActsOn c m := by
  have hcaused := (@libzeUnmount_issues host h be).caused (fun s n => s.isMounted n = true)
    (fun n => .zfs (.unmount n)) (fun _ _ _ _ _ => .rfl)
    (fun _ _ _ hc => mayUnmount_unmounts hc) hm (by simp [hr, hnot])
  rw [hr] at hcaused
  exact ⟨_, hcaused, rfl⟩

theorem libzeRename_acts (hr : libzeRename allowing h be newBe s = (.success, t)) {m : CStr}
    (hin : InTrees h be m) : ∃ c, (c, 0) ∈ since s t ∧ ActsOn c m := by
  cases renameBe hr with
  | refused hne _ => exact absurd rfl hne
  | rootFailed _ _ _ _ hne _ => exact absurd rfl hne
  | @rootRenamed _ _ _ s3 _ _ hs hroot hboot hpost =>
    have hbefore := hs.suffix
    have hlast : s3.trace <:+ t.trace := by
      obtain ⟨_, _, rfl⟩ | ⟨code, _, hcall, _⟩ := hpost
      · exact List.suffix_rfl
      · exact call_suffix hcall
    obtain hbelow | ⟨bp, hbp, hbelow⟩ := hin
    · have hafter := (@renameBootDataset_issues allowing h be newBe).suffix hboot
      exact ⟨_, mem_since hbefore hroot (hafter.trans hlast), hbelow⟩
    · obtain ⟨hnone, _⟩ | ⟨bp', code, u, hbp', hcall, hlook⟩ := renameBootDataset_cases hboot
      · rw [hnone] at hbp
        cases hbp
      · cases hbp.symm.trans hbp'
        have hroot' := call_suffix hroot
        obtain rfl : code = 0 := (congrArg Prod.fst hcall).symm
        exact ⟨_, mem_since (hbefore.trans hroot') hcall (hlook.suffix.trans hlast), hbelow⟩

end Runs

/-! ## A new name -/

section NewName
variable {h : Handle} {be : CStr}

def letters : List Char := "abcdefghijklmnopqrstuvwxyz".toList

theorem exists_letter_not_mem {used : List Char} (hlen : used.length < 26) :
    ∃ c ∈ letters, c ∉ used := by
  by_contra hno
  have hsub : letters ⊆ used := fun c hc => by
    by_contra hused
    exact hno ⟨c, hc, hused⟩
  have hle := (List.Nodup.subperm (by decide) hsub).length_le
  have hletters : letters.length = 26 := by decide
  omega

/-- The symbols a one letter name has to avoid on the two pools. -/
def usedLetters (h : Handle) (be : CStr) : List Char :=
  (keys h be).flatMap fun k => k.getD (h.envRoot.length + 1) '/' ::
    (h.bootpool.map fun bp => k.getD bp.rootPathFull.length '/').toList

theorem usedLetters_length : (usedLetters h be).length < 26 := by
  unfold usedLetters keys actors
  cases h.bootpool <;> simp

theorem getD_of_atOrBelow {a k : CStr} {c : Char} (hbelow : AtOrBelow (a ++ [c]) k) :
    k.getD a.length '/' = c := by
  obtain ⟨r, rfl⟩ := hbelow.isPrefix
  simp

theorem exists_absent (h : Handle) (be : CStr) : ∃ newBe : CStr, newBe.length = 1 ∧
    ∀ names mounted bootfs, Absent h (pruned names (keys h be) mounted bootfs) newBe := by
  obtain ⟨c, _, hc⟩ := exists_letter_not_mem (@usedLetters_length h be)
  refine ⟨[c], rfl, fun names mounted bootfs => ⟨?_, fun bp hbp => ?_⟩⟩
  · by_contra hex
    obtain ⟨hmem, _⟩ := exists_filesystem (by simpa using hex)
    obtain ⟨_, k, hk, hbelow⟩ := mem_pruned.mp hmem
    have hat := getD_of_atOrBelow (a := h.envRoot ++ ['/']) (c := c)
      (by simpa [Handle.beDataset] using hbelow)
    refine hc (List.mem_flatMap.mpr ⟨k, hk, ?_⟩)
    simp [← hat]
  · by_contra hex
    obtain ⟨hmem, _⟩ := exists_filesystem (by simpa using hex)
    obtain ⟨_, k, hk, hbelow⟩ := mem_pruned.mp hmem
    have hat := getD_of_atOrBelow hbelow
    refine hc (List.mem_flatMap.mpr ⟨k, hk, ?_⟩)
    rw [Option.mem_def.mp hbp, ← hat]
    simp

end NewName

/-! ## The guards and the condition -/

section Exact
variable {h : Handle} {be : CStr} {s : Sys}

theorem Accepted.flat (hacc : Accepted h be s) : isSnapshotName be = false := by
  obtain ⟨_, hfs⟩ := exists_filesystem (hacc.exist be (by simp [actors])).root
  unfold isSnapshotName Handle.beDataset at hfs
  unfold isSnapshotName
  rw [decide_eq_false_iff_not] at hfs ⊢
  exact fun hat => hfs (List.mem_append_right _ (List.mem_cons_of_mem _ hat))

theorem Accepted.ne_nil (hacc : Accepted h be s) : be ≠ [] := by
  rintro rfl
  obtain ⟨hmem, _⟩ := exists_filesystem (hacc.exist [] (by simp [actors])).root
  have hvalid := hacc.forest.valid _ hmem
  have hbad := (validFrom_append (.inl rfl) hvalid).2.2
  cases hbad

/-- A one letter name is not longer than an accepted one. -/
theorem Accepted.fits_of_length (hacc : Accepted h be s) {newBe : CStr}
    (hlen : newBe.length = 1) : Fits h newBe := by
  have hpos := List.length_pos_iff.mpr hacc.ne_nil
  have hfits := hacc.fits be (by simp [actors])
  refine ⟨?_, fun bp hbp => ?_⟩
  · have hroot := hfits.root
    simp only [Handle.beDataset, List.length_append, List.length_cons] at hroot ⊢
    omega
  · have hboot := hfits.boot bp hbp
    simp only [Bootpool.beDataset, List.length_append] at hboot ⊢
    omega

/-- A name that `libze_rename` takes for another than the running one is another. -/
theorem beDataset_ne_running (hroot : libzeIsRootBe h be ≠ true) :
    h.beDataset be ≠ h.envRunningPath := by
  intro heq
  refine hroot ?_
  have hname : be = h.envRunning := by
    have hpath := heq.trans h.runningPath_eq
    simpa [Handle.beDataset] using hpath
  simp [libzeIsRootBe, hname, h.running_flat]

theorem Accepted.destroy_separate (hacc : Accepted h be s) (hguard : Guarded h be) :
    h.envActivatedPath = h.beDataset be ∨ h.envRunningPath = h.beDataset be ∨
      (BeApart h be h.envRunningPath ∧ BeApart h be h.envActivatedPath) := by
  by_contra hno
  obtain ⟨hactivated, hno⟩ := not_or.mp hno
  obtain ⟨hrunning, hno⟩ := not_or.mp hno
  let small := pruned s.names (keys h be) (fun n => n = h.envRunningPath) h.envActivatedPath
  have hopen : Opened allowing h small := hacc.opened_pruned (by simp)
  have hexist : Exists h small be := hacc.exists_pruned (by simp [actors])
  have hfits := hacc.fits be (by simp [actors])
  have hbe : Destroyable allowing h small be :=
    ⟨openBootEnvironment_allowing pruned_plain hfits hexist, hactivated, hrunning⟩
  have hrun := run_eq_of_fst (@libzeDestroy_allowing h small ⟨be, false, true⟩ rfl hacc.flat
    hopen.forest pruned_plain hbe)
  have hacts : ∀ m ∈ small.names, isSnapshotName m = false → InTrees h be m → ∃ c,
      (c, 0) ∈ since small (libzeDestroy allowing h ⟨be, false, true⟩ small).2 ∧ ActsOn c m :=
    fun m hm _ hin => libzeDestroy_acts hopen.forest hacc.flat hrun hm hin
  obtain ⟨hspared, hspared'⟩ := hguard.destroy allowing small ⟨be, false, true⟩ rfl hopen
  exact hno ⟨beApart_of_spared hexist hopen.running hacts hspared,
    beApart_of_spared hexist hopen.activated hacts hspared'⟩

theorem Accepted.rename_separate (hacc : Accepted h be s) (hguard : Guarded h be) :
    libzeIsRootBe h be = true ∨ libzeIsActiveBe h be = true ∨
      (∃ bp ∈ h.bootpool, bp.beDataset be = h.envRunningPath) ∨
      (BeApart h be h.envRunningPath ∧ BeApart h be h.envActivatedPath) := by
  by_contra hno
  obtain ⟨hroot, hno⟩ := not_or.mp hno
  obtain ⟨hactive, hno⟩ := not_or.mp hno
  obtain ⟨hboot, hno⟩ := not_or.mp hno
  let small := pruned s.names (keys h be) (fun n => n = h.envRunningPath) h.envActivatedPath
  have hopen : Opened allowing h small := hacc.opened_pruned (by simp)
  have hexist : Exists h small be := hacc.exists_pruned (by simp [actors])
  obtain ⟨newBe, hlen, habsent⟩ := exists_absent h be
  have hbe : Renamable h small be newBe := {
    fits := hacc.fits be (by simp [actors])
    exist := hexist
    newFits := hacc.fits_of_length hlen
    absent := habsent _ _ _
    notRunning := by simpa using hroot
    notActivated := by simpa using hactive
    rootUnmounted := pruned_not_isMounted (by simpa using beDataset_ne_running hroot)
    bootUnmounted := fun bp hbp => pruned_not_isMounted
      (by simpa using fun heq => hboot ⟨bp, hbp, heq⟩) }
  have hrun := run_eq_of_fst (libzeRename_allowing pruned_plain hbe)
  have hacts : ∀ m ∈ small.names, isSnapshotName m = false → InTrees h be m → ∃ c,
      (c, 0) ∈ since small (libzeRename allowing h be newBe small).2 ∧ ActsOn c m :=
    fun m _ _ hin => libzeRename_acts hrun hin
  obtain ⟨hspared, hspared'⟩ := hguard.rename allowing small newBe hopen
  exact hno ⟨beApart_of_spared hexist hopen.running hacts hspared,
    beApart_of_spared hexist hopen.activated hacts hspared'⟩

theorem Accepted.unmount_separate (hacc : Accepted h be s) (hguard : Guarded h be) :
    libzeIsRootBe h be = true ∨ BeApart h be h.envRunningPath := by
  by_contra hno
  obtain ⟨hroot, hno⟩ := not_or.mp hno
  let small := pruned s.names (keys h be) (fun _ => true) h.envActivatedPath
  have hopen : Opened allowing h small := hacc.opened_pruned rfl
  have hexist : Exists h small be := hacc.exists_pruned (by simp [actors])
  have hmounted : ∀ m ∈ small.names, small.isMounted m = true := fun m hm => pruned_isMounted hm
  have hbe : Unmountable h small be := {
    fits := hacc.fits be (by simp [actors])
    exist := hexist
    notRunning := by simpa using hroot
    root := hmounted _ (exists_filesystem hexist.root).1
    boot := fun bp hbp => hmounted _ (exists_filesystem (hexist.boot bp hbp)).1 }
  obtain ⟨t, hrun, hnames, hdone, hbootDone⟩ :=
    libzeUnmount_allowing hopen.forest pruned_plain hbe
  have hacts : ∀ m ∈ small.names, isSnapshotName m = false → InTrees h be m →
      ∃ c, (c, 0) ∈ since small t ∧ ActsOn c m := by
    intro m hm hfs hin
    refine libzeUnmount_acts hrun (hmounted m hm) ?_
    obtain hbelow | ⟨bp, hbp, hbelow⟩ := hin
    · exact hdone m (hnames ▸ hm) hfs hbelow
    · exact hbootDone bp hbp m (hnames ▸ hm) hfs hbelow
  have hspared := hguard.unmount allowing small hopen
  rw [hrun] at hspared
  exact hno (beApart_of_spared hexist hopen.running hacts hspared)

/-- The guards spare both trees exactly when `Separate` holds. -/
theorem guarded_iff_separate (h : Handle) (be : CStr)
    (hbe : ∃ host s, Opened host h s ∧ (validateExistingBe host h be s).1.1 = .success) :
    Guarded h be ↔ Separate h be := by
  obtain ⟨host, s, hopen, hvalid⟩ := hbe
  have hacc : Accepted h be s := accepted_of_opened hopen hvalid
  constructor
  · intro hguard
    exact ⟨hacc.destroy_separate hguard, hacc.rename_separate hguard, hacc.unmount_separate hguard⟩
  · exact guarded_of_separate hacc.flat

theorem guarded_iff_separate_sample :
    Guarded (sampleHandle none true) "b" ↔ Separate (sampleHandle none true) "b" :=
  guarded_iff_separate (sampleHandle none true) "b" ⟨allowing, sampleSys [],
    ⟨by decide +kernel, by decide, by decide, by decide, by decide, by decide +kernel⟩,
    by decide +kernel⟩

end Exact

/-! ## An activated environment below another one -/

/-- `bootfs` is `rpool/ROOT/b/x`, whose last component is also an environment. -/
def nestedHandle : Handle :=
  { sampleHandle none false with
    envActivated := "x"
    envActivatedPath := "rpool/ROOT/b/x"
    activatedPath_eq := ⟨"rpool/ROOT/b", by decide⟩
    activated_flat := by decide
    activatedPath_fits := by decide }

def nestedSys : Sys :=
  { sampleSys [{ name := "rpool/ROOT/b/x" }, { name := "rpool/ROOT/x" }] with
    bootfs := "rpool/ROOT/b/x" }

/-- The guard of `libze_rename` compares the path with the bare name `b/x`, and the
activated dataset is renamed. -/
theorem not_guarded_nested :
    ¬ ∀ (h : Handle) (be : CStr),
      (∃ host s, Opened host h s ∧ (validateExistingBe host h be s).1.1 = .success) →
      Guarded h be := by
  intro hall
  have hopen : Opened allowing nestedHandle nestedSys :=
    ⟨by decide +kernel, by decide, by decide, by decide, by decide, by decide +kernel⟩
  have hguard := hall nestedHandle "b/x" ⟨allowing, nestedSys, hopen, by decide +kernel⟩
  obtain ⟨_, hspared⟩ := hguard.rename allowing nestedSys "c" hopen
  have hrenamed : (.zfs (.rename "rpool/ROOT/b/x" "rpool/ROOT/c"), 0) ∈
      since nestedSys (libzeRename allowing nestedHandle "b/x" "c" nestedSys).2 := by
    decide +kernel
  exact hspared _ hrenamed "rpool/ROOT/b/x" (by decide) (by decide) under_refl under_refl

end Zectl.Libze.GuardsExact
