import Zectl.Libze.MountRoundTrip

/-!
# What a mount that fails leaves

The environment's own dataset is mounted first, and no later failure unmounts it again.
-/

namespace Zectl.Libze.MountFailure

open Zectl.Lib.StateRun Zectl.Lib.Visit Zectl.Lib.Preorder Zectl.Lib.PathOrder
open Zectl.Util.CString Zectl.Zfs.System Zectl.Zfs.Steps Zectl.Zfs.Forest Zectl.Libze.Init
open Zectl.Libze.Sample Zectl.Libze.Validate Zectl.Libze.MountTree Zectl.Libze.MountRoundTrip

/-- What was unmounted of the environment, on both pools, is not mounted. -/
def NothingLeft (h : Handle) (be : CStr) (s t : Sys) : Prop :=
  ∀ n, AtOrBelow (h.beDataset be) n ∨ (∃ bp ∈ h.bootpool, AtOrBelow (bp.beDataset be) n) →
    s.isMounted n = false → t.isMounted n = false

/-! ## The mounts behind the first one -/

/-- The mount point of a dataset can be read and is not ours to mount, or it fits, the dataset
is not mounted, the directory is there or can be made, and the mount is granted. -/
def Mountable (host : Host) (mountpoint n : CStr) (u : Sys) : Prop :=
  ∃ value u1, zfsPropGet host n .mountpoint u = ((0, value), u1) ∧
    (value = ("none" : CStr) ∨ value = ("legacy" : CStr) ∨
      (mountpoint ++ value).length < libzeMaxPathLen ∧ u1.isMounted n = false ∧
      ∃ u2, directoryCreateIfNonexistent host (mountpoint ++ value) u1 = (0, u2) ∧
        host.answer u2 (.zfs (.temporaryMount n (mountpoint ++ value))) = 0)

/-- Each of the datasets can be mounted at its turn. -/
def AllMountable (host : Host) (mountpoint : CStr) : List CStr → Sys → Prop
  | [], _ => True
  | n :: rest, u => Mountable host mountpoint n u ∧
      AllMountable host mountpoint rest (mountDataset host mountpoint n u).2

/-- The dataset on the boot pool has the mount point `legacy`, its directory fits and is there
or can be made, and the mount is granted. -/
def BootMountable (host : Host) (h : Handle) (be real : CStr) (u : Sys) : Prop :=
  ∀ bp ∈ h.bootpool, ∃ u1, zfsPropGet host (bp.beDataset be) .mountpoint u =
      ((0, ("legacy" : CStr)), u1) ∧
    (real ++ "/" ++ "boot").length < libzeMaxPathLen ∧
    ∃ u2, directoryCreateIfNonexistent host (real ++ "/" ++ "boot") u1 = (0, u2) ∧
      host.answer u2 (.zfs (.temporaryMount (bp.beDataset be) (real ++ "/" ++ "boot"))) = 0

/-- The datasets below that of the environment, in the order they are mounted. -/
def childOrder (s : Sys) (n : CStr) : List CStr := (childFilesystems s n).flatMap (subtree s)

/-- The checks are passed and the environment's dataset is mounted on `real`. -/
def TopMounted (host : Host) (h : Handle) (be : CStr) (mountpoint : Option CStr) (real : CStr)
    (s t : Sys) : Prop :=
  ∃ s1 s2, openBootEnvironment host h be s =
      ((.success, h.beDataset be, h.bpoolDataset be), s1) ∧
    libzeIsRootBe h (h.beDataset be) = false ∧ s1.isMounted (h.beDataset be) = false ∧
    ("/tmp/ze." ++ be ++ ".XXXXXX").length < zfsMaxDatasetNameLen ∧
    realMountpoint host ("/tmp/ze." ++ be ++ ".XXXXXX") mountpoint s1 = (some real, s2) ∧
    real.length < libzeMaxPathLen ∧
    call host (.zfs (.temporaryMount (h.beDataset be) real)) s2 = (0, t)

/-- All that follows the first mount succeeds. -/
def RestMounts (host : Host) (h : Handle) (be real : CStr) (s t : Sys) : Prop :=
  AllMountable host real (childOrder s (h.beDataset be)) t ∧
    BootMountable host h be real
      (visitAll (mountDataset host real) (childOrder s (h.beDataset be)) t).2

section Each
variable {host : Host} {h : Handle} {be real mountpoint n : CStr} {s t u : Sys}

theorem concat_cases (pfx separator suffix : CStr) {buflen : Nat} (hpos : 0 < buflen) :
    ((pfx ++ separator ++ suffix).length < buflen ∧
      libzeUtilConcat pfx separator suffix buflen = (0, pfx ++ separator ++ suffix)) ∨
    (¬ (pfx ++ separator ++ suffix).length < buflen ∧
      (libzeUtilConcat pfx separator suffix buflen).1 ≠ 0) := by
  by_cases hfit : (pfx ++ separator ++ suffix).length < buflen
  · exact .inl ⟨hfit, (libzeUtilConcat_eq_ok_iff hpos).mpr ⟨hfit, rfl⟩⟩
  · apply Or.inr
    rw [libzeUtilConcat_eq _ _ _ hpos, if_neg hfit]
    exact ⟨hfit, by simp⟩

theorem mountDataset_zero_iff :
    (mountDataset host mountpoint n u).1 = 0 ↔ Mountable host mountpoint n u := by
  unfold mountDataset Mountable
  rw [run_bind]
  rcases hget : zfsPropGet host n .mountpoint u with ⟨⟨r, value⟩, u1⟩
  dsimp only
  by_cases hr : r = 0
  swap
  · rw [if_pos hr]
    apply iff_of_false
    · intro hzero
      cases hzero
    · rintro ⟨value', u1', heq, -⟩
      cases heq
      exact hr rfl
  subst hr
  rw [if_neg (by simp)]
  by_cases hskip : value = ("none" : CStr) ∨ value = ("legacy" : CStr)
  · rw [if_pos hskip]
    apply iff_of_true rfl
    exact ⟨value, u1, rfl, hskip.imp_right .inl⟩
  rw [if_neg hskip]
  have hneed : (∃ value' u1', ((0, value), u1) = ((0, value'), u1') ∧
      (value' = ("none" : CStr) ∨ value' = ("legacy" : CStr) ∨
        (mountpoint ++ value').length < libzeMaxPathLen ∧ u1'.isMounted n = false ∧
        ∃ u2, directoryCreateIfNonexistent host (mountpoint ++ value') u1' = (0, u2) ∧
          host.answer u2 (.zfs (.temporaryMount n (mountpoint ++ value'))) = 0)) ↔
      (mountpoint ++ value).length < libzeMaxPathLen ∧ u1.isMounted n = false ∧
        ∃ u2, directoryCreateIfNonexistent host (mountpoint ++ value) u1 = (0, u2) ∧
          host.answer u2 (.zfs (.temporaryMount n (mountpoint ++ value))) = 0 := by
    constructor
    · rintro ⟨value', u1', heq, hnone | hlegacy | hmount⟩
      · cases heq
        exact absurd (.inl hnone) hskip
      · cases heq
        exact absurd (.inr hlegacy) hskip
      · cases heq
        exact hmount
    · exact fun hmount => ⟨value, u1, rfl, .inr (.inr hmount)⟩
  rw [hneed]
  obtain ⟨hfit, hcat⟩ | ⟨hlong, hcat⟩ :=
    @concat_cases mountpoint [] value libzeMaxPathLen (by decide)
  swap
  · rw [List.append_nil] at hlong
    rcases hconcat : libzeUtilConcat mountpoint "" value libzeMaxPathLen with ⟨code, buf⟩
    have hcode : code ≠ 0 := by
      have hempty : (("" : String) : CStr) = [] := rfl
      rw [hempty] at hconcat
      rw [hconcat] at hcat
      exact hcat
    dsimp only
    rw [if_pos hcode]
    apply iff_of_false
    · intro hzero
      cases hzero
    · exact fun hmount => hlong hmount.1
  rw [List.append_nil] at hfit hcat
  have hconcat : libzeUtilConcat mountpoint "" value libzeMaxPathLen =
      (0, mountpoint ++ value) := hcat
  rw [hconcat]
  dsimp only
  rw [if_neg (by simp), run_get_bind, and_iff_right hfit]
  by_cases hmounted : u1.isMounted n = true
  · rw [if_pos hmounted]
    apply iff_of_false
    · intro hzero
      cases hzero
    · intro hmount
      rw [hmounted] at hmount
      exact absurd hmount.1 (by simp)
  rw [if_neg hmounted, run_bind, and_iff_right (by simpa using hmounted)]
  rcases hdir : directoryCreateIfNonexistent host (mountpoint ++ value) u1 with ⟨made, u2⟩
  dsimp only
  by_cases hmade : made = 0
  swap
  · rw [if_pos hmade]
    apply iff_of_false
    · intro hzero
      cases hzero
    · rintro ⟨u2', heq, -⟩
      cases heq
      exact hmade rfl
  subst hmade
  rw [if_neg (by simp), run_bind]
  by_cases hgrant : host.answer u2 (.zfs (.temporaryMount n (mountpoint ++ value))) = 0
  · rw [call_granted hgrant]
    exact iff_of_true rfl ⟨u2, rfl, hgrant⟩
  · have hcode : (call host (.zfs (.temporaryMount n (mountpoint ++ value))) u2).1 ≠ 0 := hgrant
    rw [if_pos hcode]
    apply iff_of_false
    · intro hzero
      cases hzero
    · rintro ⟨u2', heq, hgrant'⟩
      cases heq
      exact hgrant hgrant'

theorem visitAll_zero_iff {l : List CStr} :
    (visitAll (mountDataset host mountpoint) l u).1 = 0 ↔ AllMountable host mountpoint l u := by
  induction l generalizing u with
  | nil => exact iff_of_true rfl trivial
  | cons n rest ih =>
    rw [AllMountable, ← mountDataset_zero_iff, ← ih, visitAll, visit_cons, if_pos rfl]
    by_cases hone : (mountDataset host mountpoint n u).1 = 0
    · rw [if_neg (by simpa using hone), and_iff_right hone]
    · rw [if_pos hone]
      exact iff_of_false hone fun hboth => hone hboth.1

theorem mountBootDataset_success_iff :
    (mountBootDataset host be real (h.bpoolDataset be) u).1 = .success ↔
      BootMountable host h be real u := by
  unfold mountBootDataset BootMountable
  cases hbp : h.bootpool with
  | none =>
    rw [bpoolDataset_none hbp, if_pos rfl]
    exact iff_of_true rfl (by simp)
  | some bp =>
    rw [bpoolDataset_some hbp, if_neg (bootBeDataset_ne_nil bp be), run_bind]
    simp only [Option.mem_def, Option.some.injEq, forall_eq']
    rcases hget : zfsPropGet host (bp.beDataset be) .mountpoint u with ⟨⟨r, value⟩, u1⟩
    dsimp only
    by_cases hr : r = 0
    swap
    · rw [if_pos hr]
      apply iff_of_false
      · intro hret
        cases hret
      · rintro ⟨u1', heq, -⟩
        cases heq
        exact hr rfl
    subst hr
    rw [if_neg (by simp)]
    by_cases hlegacy : value = ("legacy" : CStr)
    swap
    · rw [if_pos hlegacy]
      apply iff_of_false
      · intro hret
        cases hret
      · rintro ⟨u1', heq, -⟩
        cases heq
        exact hlegacy rfl
    subst hlegacy
    rw [if_neg (by simp)]
    obtain ⟨hfit, hcat⟩ | ⟨hlong, hcat⟩ :=
      @concat_cases real "/" "boot" libzeMaxPathLen (by decide)
    swap
    · rcases hconcat : libzeUtilConcat real "/" "boot" libzeMaxPathLen with ⟨code, buf⟩
      rw [hconcat] at hcat
      dsimp only
      rw [if_pos hcat]
      apply iff_of_false
      · intro hret
        cases hret
      · rintro ⟨u1', -, hfit, -⟩
        exact hlong hfit
    rw [hcat]
    dsimp only
    rw [if_neg (by simp), run_bind]
    rcases hdir : directoryCreateIfNonexistent host (real ++ "/" ++ "boot") u1 with ⟨made, u2⟩
    dsimp only
    by_cases hmade : made = 0
    swap
    · rw [if_pos hmade]
      apply iff_of_false
      · intro hret
        cases hret
      · rintro ⟨u1', heq, -, u2', hdir', -⟩
        cases heq
        rw [hdir] at hdir'
        cases hdir'
        exact hmade rfl
    subst hmade
    rw [if_neg (by simp), run_bind]
    by_cases hgrant : host.answer u2 (.zfs (.temporaryMount (bp.beDataset be)
        (real ++ "/" ++ "boot"))) = 0
    · rw [call_granted hgrant]
      exact iff_of_true rfl ⟨u1, rfl, hfit, u2, hdir, hgrant⟩
    · have hcode : (call host (.zfs (.temporaryMount (bp.beDataset be)
          (real ++ "/" ++ "boot"))) u2).1 ≠ 0 := hgrant
      rw [if_pos hcode]
      apply iff_of_false
      · intro hret
        cases hret
      · rintro ⟨u1', heq, -, u2', hdir', hgrant'⟩
        cases heq
        rw [hdir] at hdir'
        cases hdir'
        exact hgrant hgrant'

/-! ## The whole mount -/

/-- What runs behind the first mount. -/
def mountRest (host : Host) (h : Handle) (be real : CStr) (s : Sys) : Libze (LibzeError × CStr) := do
  let r ← visit (fun _ _ => true) (mountCallback host real (recursionDepth s))
    (childFilesystems s (h.beDataset be))
  if r ≠ 0 then return ((← get).libzeError, real)
  let ret ← mountBootDataset host be real (h.bpoolDataset be)
  return (ret, real)

/-- Without the first mount the call fails and mounts nothing. -/
theorem libzeMount_early {mountpoint? : Option CStr}
    (hnone : ∀ real t, ¬ TopMounted host h be mountpoint? real s t) :
    (libzeMount host h be mountpoint? s).1.1 ≠ .success ∧
      SamePools s (libzeMount host h be mountpoint? s).2 := by
  unfold libzeMount
  rw [run_bind]
  rcases hopen : openBootEnvironment host h be s with ⟨⟨ret, ds, bds⟩, s1⟩
  have hsame1 := (Issues.looked (openBootEnvironment_issues host h be) hopen).same
  dsimp only
  by_cases hret : ret = .success
  swap
  · rw [if_pos hret]
    exact ⟨hret, hsame1.trans ⟨rfl, rfl, rfl⟩⟩
  subst hret
  obtain ⟨rfl, rfl, -, -⟩ := openBootEnvironment_success hopen
  rw [if_neg (by simp)]
  by_cases hroot : libzeIsRootBe h (h.beDataset be) = true
  · rw [if_pos hroot]
    exact ⟨LibzeError.noConfusion, hsame1.trans ⟨rfl, rfl, rfl⟩⟩
  rw [if_neg hroot, run_get_bind]
  by_cases hmounted : s1.isMounted (h.beDataset be) = true
  · rw [if_pos hmounted]
    exact ⟨LibzeError.noConfusion, hsame1.trans ⟨rfl, rfl, rfl⟩⟩
  rw [if_neg hmounted]
  obtain ⟨hfit, hcat⟩ | ⟨-, hcat⟩ :=
    @concat_cases "/tmp/ze." be ".XXXXXX" zfsMaxDatasetNameLen (by decide)
  swap
  · rcases hconcat : libzeUtilConcat "/tmp/ze." be ".XXXXXX" zfsMaxDatasetNameLen with
      ⟨code, template⟩
    rw [hconcat] at hcat
    dsimp only
    rw [if_pos hcat]
    exact ⟨LibzeError.noConfusion, hsame1.trans ⟨rfl, rfl, rfl⟩⟩
  rw [hcat]
  dsimp only
  rw [if_neg (by simp), run_bind]
  rcases hdir : realMountpoint host ("/tmp/ze." ++ be ++ ".XXXXXX") mountpoint? s1 with ⟨dir, s2⟩
  have hsame2 := hsame1.trans (samePools_realMountpoint hdir)
  cases dir with
  | none => exact ⟨LibzeError.noConfusion, hsame2.trans ⟨rfl, rfl, rfl⟩⟩
  | some real =>
    dsimp only
    by_cases hlong : libzeMaxPathLen ≤ real.length
    · rw [if_pos hlong]
      exact ⟨LibzeError.noConfusion, hsame2.trans ⟨rfl, rfl, rfl⟩⟩
    rw [if_neg hlong, run_bind]
    rcases hmount : call host (.zfs (.temporaryMount (h.beDataset be) real)) s2 with ⟨code, s3⟩
    dsimp only
    by_cases hcode : code = 0
    · subst hcode
      exact absurd ⟨s1, s2, hopen, by simpa using hroot, by simpa using hmounted, hfit, hdir,
        Nat.lt_of_not_le hlong, hmount⟩ (hnone real s3)
    have hsame3 : SamePools s s3 := by
      rw [call_refused hmount hcode]
      exact hsame2.trans ⟨rfl, rfl, rfl⟩
    rw [if_pos hcode, run_bind]
    rcases hdiscard : discardDirectory host mountpoint? real s3 with ⟨gone, s4⟩
    have hsame4 : SamePools s3 s4 := by
      unfold discardDirectory at hdiscard
      split at hdiscard
      · exact samePools_of_call ⟨rfl, rfl, rfl⟩ hdiscard
      · cases hdiscard
        exact .refl s3
    exact ⟨LibzeError.noConfusion, (hsame3.trans hsame4).trans ⟨rfl, rfl, rfl⟩⟩

/-- With it the call is what follows. -/
theorem libzeMount_rest {mountpoint? : Option CStr} (htop : TopMounted host h be mountpoint? real s t) :
    libzeMount host h be mountpoint? s = mountRest host h be real s t := by
  obtain ⟨s1, s2, hopen, hroot, hmounted, hfit, hdir, hlength, hmount⟩ := htop
  have hsame1 := (Issues.looked (openBootEnvironment_issues host h be) hopen).same
  have hsame2 := hsame1.trans (samePools_realMountpoint hdir)
  have hshape : SameShape s t := by
    rw [(call_done hmount).2]
    exact hsame2.shape.trans (mapDataset_shape fun _ => rfl)
  have hdepth : recursionDepth t = recursionDepth s := by
    rw [recursionDepth, recursionDepth, maxNameLength, maxNameLength, hshape.names]
  have hcat := (libzeUtilConcat_eq_ok_iff (by decide)).mpr ⟨hfit, rfl⟩
  unfold libzeMount mountRest
  rw [run_bind, hopen]
  dsimp only
  rw [if_neg (by simp), if_neg (by simp [hroot]), run_get_bind, if_neg (by simp [hmounted]), hcat]
  dsimp only
  rw [if_neg (by simp), run_bind, hdir]
  dsimp only
  rw [if_neg (Nat.not_le_of_lt hlength), run_bind, hmount, if_neg (by simp), run_get_bind, hdepth,
    childFilesystems_of_shape hshape]

/-- Behind the first mount the call succeeds when every further mount does. -/
theorem mountRest_success_iff (hforest : IsForest s.names) (hst : SameProps s t) :
    (mountRest host h be real s t).1.1 = .success ↔ RestMounts host h be real s t := by
  have hkids : ∀ c ∈ childFilesystems s (h.beDataset be), ∀ v, SameProps s v →
      (∀ w, mountCallback host real (recursionDepth s) c v = (0, w) ↔
        visitAll (mountDataset host real) (subtree s c) v = (0, w)) ∧
      SameProps s (mountCallback host real (recursionDepth s) c v).2 := by
    intro c _ v hv
    constructor
    · exact mountCallback_visits hforest _ c (enough_recursionDepth s c) hv
    · exact hv.trans (sameProps_of_issues (mountCallback_issues _ c) v)
  have hflat := fun w => visitAll_flatMap_zero (SameProps s) (subtree s) hkids hst w
  unfold mountRest RestMounts
  rw [run_bind, ← visitAll_zero_iff]
  rcases hvisit : visitAll (mountCallback host real (recursionDepth s))
    (childFilesystems s (h.beDataset be)) t with ⟨r, u⟩
  by_cases hr : r = 0
  · subst hr
    have hall := (hflat u).mp hvisit
    rw [show visit (fun _ _ => true) (mountCallback host real (recursionDepth s))
      (childFilesystems s (h.beDataset be)) t = (0, u) from hvisit, if_neg (by simp), childOrder,
      hall, and_iff_right rfl, ← mountBootDataset_success_iff]
    rfl
  · rw [show visit (fun _ _ => true) (mountCallback host real (recursionDepth s))
      (childFilesystems s (h.beDataset be)) t = (r, u) from hvisit, if_pos hr]
    apply iff_of_false
    · obtain ⟨c, -, v, hv, -, hfail⟩ := exists_of_visit_ne_zero (SameProps s)
        (fun c _ v hv _ => hv.trans (sameProps_of_issues (mountCallback_issues _ c) v)) hst hvisit hr
      exact mountCallback_error hforest _ (enough_recursionDepth s c) hv hfail hr
    · rintro ⟨hzero, -⟩
      have hagain := (hflat _).mpr (run_eq_of_fst hzero)
      rw [hvisit] at hagain
      cases hagain
      exact hr rfl

/-- What is mounted stays mounted. -/
def StaysMounted (n : CStr) (s t : Sys) : Prop := s.isMounted n = true → t.isMounted n = true

theorem stays_mounted {c : Call} (hc : MountsOnly c) (n : CStr) (s : Sys) :
    StaysMounted n s (c.effect host s) := by
  intro hmounted
  cases hc with
  | mount m path =>
    have hname : ∀ d : Dataset, ({ d with mountedAt := some path } : Dataset).name = d.name :=
      fun _ => rfl
    have hfind : (Call.effect host s (.zfs (.temporaryMount m path))).find n =
        (s.find n).map fun d => if d.name = m then { d with mountedAt := some path } else d :=
      find_mapDataset hname n
    rw [Sys.isMounted] at hmounted ⊢
    rw [hfind]
    cases hn : s.find n with
    | none => simp [hn] at hmounted
    | some d =>
      rw [hn] at hmounted
      rw [Option.map_some, Option.bind_some]
      split
      · rfl
      · exact hmounted
  | look | opendir | closedir | mkdir => exact hmounted

theorem mountBootDataset_issues (bds : CStr) :
    Issues host MountsOnly (mountBootDataset host be real bds) := by
  unfold mountBootDataset
  apply moves_ite (fun _ => moves_pure _)
  intro _
  apply moves_bind (issues_zfsPropGet (.look _ _))
  intro r
  apply moves_ite (fun _ => moves_bind (issues_errorSet _ _) fun _ => moves_pure _)
  intro _
  apply moves_ite (fun _ => moves_bind (issues_errorSet _ _) fun _ => moves_pure _)
  intro _
  rcases libzeUtilConcat real "/" "boot" libzeMaxPathLen with ⟨code, mountDirectoryBoot⟩
  apply moves_ite (fun _ => moves_bind (issues_errorSet _ _) fun _ => moves_pure _)
  intro _
  apply moves_bind (directoryCreate_issues _)
  intro made
  apply moves_ite (fun _ => moves_bind (issues_errorSet _ _) fun _ => moves_pure _)
  intro _
  apply moves_bind (issues_call (.mount _ _))
  intro mounted
  exact moves_ite (fun _ => moves_bind (issues_errorSet _ _) fun _ => moves_pure _)
    fun _ => moves_pure _

theorem mountRest_issues : Issues host MountsOnly (mountRest host h be real s) := by
  unfold mountRest
  apply moves_bind (moves_visit fun c _ => mountCallback_issues _ c)
  intro r
  apply moves_ite (fun _ => moves_bind moves_get fun _ => moves_pure _)
  intro _
  exact moves_bind (mountBootDataset_issues _) fun _ => moves_pure _

theorem staysMounted_of_issues {α : Type} {m : Libze α} (hm : Issues host MountsOnly m) (n : CStr)
    (s : Sys) : StaysMounted n s (m s).2 := by
  intro hmounted
  apply hm.keeps (fun t => t.isMounted n = true) _ _ hmounted
  · exact fun _ _ _ _ ht => ht
  · exact fun t c hc _ ht => stays_mounted hc n t ht

/-- A failing mount leaves nothing mounted exactly when it does not come as far as the first
mount, or nothing can fail behind that. -/
theorem nothingLeft_iff (hforest : IsForest s.names) (mountpoint? : Option CStr) :
    ((libzeMount host h be mountpoint? s).1.1 ≠ .success →
      NothingLeft h be s (libzeMount host h be mountpoint? s).2) ↔
    ∀ real t, TopMounted host h be mountpoint? real s t → RestMounts host h be real s t := by
  by_cases hsome : ∃ real t, TopMounted host h be mountpoint? real s t
  · obtain ⟨real, t, htop⟩ := hsome
    have hrest := libzeMount_rest htop
    obtain ⟨s1, s2, hopen, -, hmounted, -, hdir, -, hmount⟩ := id htop
    have hsame1 := (Issues.looked (openBootEnvironment_issues host h be) hopen).same
    have hsame2 := hsame1.trans (samePools_realMountpoint hdir)
    obtain ⟨-, -, -, hexists⟩ := openBootEnvironment_success hopen
    obtain ⟨hroot, -⟩ := exists_filesystem hexists.root
    obtain ⟨hprops, hmounts⟩ := mountOf_temporaryMount (hsame2.names ▸ hroot) hmount
    have hst : SameProps s t := (SameProps.of_samePools hsame2).trans hprops
    constructor
    · intro hclean real' t' htop'
      obtain ⟨s1', s2', hopen', -, -, -, hdir', -, hmount'⟩ := htop'
      cases hopen.symm.trans hopen'
      cases hdir.symm.trans hdir'
      cases hmount.symm.trans hmount'
      rw [← mountRest_success_iff hforest hst, ← hrest]
      by_contra hfail
      -- the environment's own dataset is still mounted
      have hfree : s.isMounted (h.beDataset be) = false := by
        rw [Sys.isMounted, ← hsame1.find]
        exact hmounted
      have hgone := hclean hfail _ (.inl under_refl) hfree
      have hheld : t.isMounted (h.beDataset be) = true := by
        rw [isMounted_eq, hmounts, if_pos rfl]
        rfl
      rw [hrest] at hgone
      have hstays := staysMounted_of_issues (@mountRest_issues host h be real s) _ t hheld
      rw [hgone] at hstays
      cases hstays
    · intro hall hfail
      rw [hrest] at hfail
      exact absurd ((mountRest_success_iff hforest hst).mpr (hall real t htop)) hfail
  · have hnone : ∀ real t, ¬ TopMounted host h be mountpoint? real s t := by
      intro real t htop
      exact hsome ⟨real, t, htop⟩
    apply iff_of_true
    · intro _ n _ hfree
      rw [Sys.isMounted, (libzeMount_early hnone).2.find]
      exact hfree
    · intro real t htop
      exact absurd htop (hnone real t)

end Each

/-- The mount of the child `y` is refused. -/
def refusingChild : Host :=
  plainHost fun _ c =>
    match c with
    | .zfs (.temporaryMount n _) => if n = ("rpool/ROOT/b/y" : CStr) then 1 else 0
    | _ => 0

theorem nothingLeft_iff_child :
    ((libzeMount refusingChild (sampleHandle none false) "b" none (treeSys "/x" "/y")).1.1 ≠
        .success →
      NothingLeft (sampleHandle none false) "b" (treeSys "/x" "/y")
        (libzeMount refusingChild (sampleHandle none false) "b" none (treeSys "/x" "/y")).2) ↔
    ∀ real t,
      TopMounted refusingChild (sampleHandle none false) "b" none real (treeSys "/x" "/y") t →
      RestMounts refusingChild (sampleHandle none false) "b" real (treeSys "/x" "/y") t :=
  nothingLeft_iff (by decide +kernel) none

theorem left_behind_child : IsForest (treeSys "/x" "/y").names ∧
    (libzeMount refusingChild (sampleHandle none false) "b" none (treeSys "/x" "/y")).1.1 ≠
      .success ∧
    ¬ NothingLeft (sampleHandle none false) "b" (treeSys "/x" "/y")
      (libzeMount refusingChild (sampleHandle none false) "b" none (treeSys "/x" "/y")).2 := by
  refine ⟨by decide +kernel, by decide +kernel, fun hclean => ?_⟩
  have hgone := hclean "rpool/ROOT/b" (.inl (by decide)) (by decide +kernel)
  have hheld : (libzeMount refusingChild (sampleHandle none false) "b" none
      (treeSys "/x" "/y")).2.isMounted "rpool/ROOT/b" = true := by decide +kernel
  rw [hgone] at hheld
  cases hheld

end Zectl.Libze.MountFailure
