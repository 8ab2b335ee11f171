import Zectl.Libze.MountTree
import Zectl.Libze.Sample

/-!
# Unmounting what was mounted

`libze_unmount` takes the children of a dataset in the order in which they were mounted.
Unmounting a dataset fails while something is mounted strictly below it, so a mount can be
taken back exactly when no dataset comes before one that is mounted below it.
-/

namespace Zectl.Libze.MountRoundTrip

open Zectl.Lib.StateRun Zectl.Lib.Visit Zectl.Lib.PathOrder Zectl.Lib.Preorder
open Zectl.Lib.MountTable Zectl.Util.CString Zectl.Zfs.System Zectl.Zfs.Steps Zectl.Zfs.Forest
open Zectl.Libze.Init Zectl.Libze.Validate Zectl.Libze.Mount Zectl.Libze.Unmount
open Zectl.Libze.MountTree Zectl.Libze.Sample

/-- The parts of a path, without the empty ones. -/
def components (path : CStr) : List CStr := (path.splitOn '/').filter fun c => c ≠ []

def StrictlyBelow (p q : CStr) : Prop := components p <+: components q ∧ components p ≠ components q

instance (p q : CStr) : Decidable (StrictlyBelow p q) :=
  inferInstanceAs (Decidable (_ ∧ _))

/-- Looking succeeds, and an unmount fails exactly when another mount lies strictly below; the
mounts that are no datasets of the pools are `foreign`. -/
structure MountRules (host : Host) (foreign : List CStr) : Prop extends LookupRules host where
  busy : ∀ s n, s.isMounted n = true → (host.answer s (.zfs (.unmount n)) = 0 ↔
    ¬ Busy StrictlyBelow (· ∈ foreign) (mountOf s) n)

/-- The datasets at or below one in the order in which the recursion unmounts them. -/
def treeOrder (s : Sys) (n : CStr) : List CStr :=
  postorder (childFilesystems s) (recursionDepth s) n

/-- The datasets on the boot pool, which are unmounted first. -/
def bootOrder (h : Handle) (be : CStr) (s : Sys) : List CStr :=
  if h.bpoolDataset be = [] then [] else treeOrder s (h.bpoolDataset be)

/-- The order in which the datasets of an environment are unmounted. -/
def unmountOrder (h : Handle) (be : CStr) (s : Sys) : List CStr :=
  bootOrder h be s ++ (treeOrder s (h.beDataset be)).filter fun n => n ∉ bootOrder h be s

/-- What is mounted where behind `libze_mount`. -/
def mountPlan (host : Host) (h : Handle) (be mountpoint : CStr) (s : Sys) (m : CStr) : Option CStr :=
  if h.bpoolDataset be ≠ [] ∧ m = h.bpoolDataset be then some (mountpoint ++ "/boot".toList)
  else if m = h.beDataset be then some mountpoint
  else if m ∈ subtree s (h.beDataset be) then childMount host s mountpoint m
  else mountOf s m

/-- What `unmount_callback` does for the dataset itself. -/
def unmountDataset (host : Host) (dataset : CStr) : Libze Int := do
  if ¬ (← get).isMounted dataset then
    return 0
  if (← call host (.zfs (.unmount dataset))) ≠ 0 then
    let _ ← libzeErrorSet .unknown (format ["Failed to unmount ", dataset, "\n."])
    return -1
  return 0

section Unmount
variable {host : Host} {foreign : List CStr} {n : CStr} {s t u : Sys}

/-- The recursion unmounts the datasets of the tree in turn, children first. -/
theorem unmountCallback_visits (hforest : IsForest s.names) (depth : Nat) (n : CStr)
    (henough : Enough s n depth) (hsu : SameShape s u) (t : Sys) :
    unmountCallback host depth n u = (0, t) ↔
      visitAll (unmountDataset host) (postorder (childFilesystems s) depth n) u = (0, t) := by
  induction depth generalizing n u t with
  | zero => obtain ⟨h, -⟩ | ⟨h, -⟩ := henough <;> omega
  | succ depth ih =>
    have hkids : ∀ c ∈ childFilesystems s n, ∀ v, SameShape s v →
        (∀ t, unmountCallback host depth c v = (0, t) ↔
          visitAll (unmountDataset host) (postorder (childFilesystems s) depth c) v = (0, t)) ∧
        SameShape s (unmountCallback host depth c v).2 := by
      intro c hc v hv
      obtain ⟨hmem, hparent, -⟩ := mem_childFilesystems.mp hc
      have hchild := henough.child hforest (mem_children.mpr ⟨hmem, hparent⟩)
      exact ⟨ih c hchild hv, hv.trans (unmountCallback_shape rfl)⟩
    have hflat := visitAll_flatMap_zero (SameShape s) _ hkids hsu
    rw [postorder, visitAll_append_zero, unmountCallback, run_get_bind,
      childFilesystems_of_shape hsu, run_bind]
    rcases hvisit : visit (fun _ _ => true) (unmountCallback host depth) (childFilesystems s n) u
      with ⟨r, v⟩
    by_cases hr : r = 0
    · subst hr
      have hv := (hflat v).mp hvisit
      rw [if_neg (by simp)]
      have hone : ∀ w, visitAll (unmountDataset host) [n] w = (0, t) ↔
          unmountDataset host n w = (0, t) := by
        intro w
        rw [visitAll_cons_zero]
        constructor
        · rintro ⟨x, hx, hnil⟩
          cases hnil
          exact hx
        · exact fun hx => ⟨t, hx, rfl⟩
      constructor
      · exact fun hrun => ⟨v, hv, (hone v).mpr hrun⟩
      · rintro ⟨w, hw, hlast⟩
        cases hv.symm.trans hw
        exact (hone v).mp hlast
    · rw [if_pos hr]
      constructor
      · intro hzero
        cases hzero
      · rintro ⟨w, hw, -⟩
        cases hvisit.symm.trans ((hflat w).mpr hw)
        exact absurd rfl hr

theorem isMounted_eq (s : Sys) (n : CStr) : s.isMounted n = (mountOf s n).isSome := rfl

/-- A dataset is unmounted exactly when it is not busy. -/
theorem unmountDataset_zero_iff (hrules : MountRules host foreign) :
    (∃ t, unmountDataset host n u = (0, t)) ↔ ¬ Busy StrictlyBelow (· ∈ foreign) (mountOf u) n := by
  rw [unmountDataset, run_get_bind]
  cases hmounted : u.isMounted n with
  | false =>
    have hnone : mountOf u n = none := by
      rw [isMounted_eq] at hmounted
      exact Option.isNone_iff_eq_none.mp (by simpa using hmounted)
    rw [if_pos (by simp)]
    exact ⟨fun _ => not_busy_of_none hnone, fun _ => ⟨u, rfl⟩⟩
  | true =>
    rw [if_neg (by simp), run_bind, ← hrules.busy u n hmounted]
    rcases hcall : call host (.zfs (.unmount n)) u with ⟨code, v⟩
    have hcode : host.answer u (.zfs (.unmount n)) = code := congrArg Prod.fst hcall
    rw [hcode]
    by_cases hzero : code = 0
    · rw [if_neg (by simpa using hzero)]
      exact ⟨fun _ => hzero, fun _ => ⟨v, rfl⟩⟩
    · rw [if_pos (by simpa using hzero)]
      constructor
      · rintro ⟨t, ht⟩
        cases ht
      · exact fun h => absurd h hzero

theorem unmountDataset_zero (hr : unmountDataset host n u = (0, t)) :
    SameProps u t ∧ mountOf t = unmount (mountOf u) n := by
  rw [unmountDataset, run_get_bind] at hr
  cases hmount : mountOf u n with
  | none =>
    rw [if_pos (by simp [isMounted_eq, hmount])] at hr
    cases hr
    exact ⟨.refl t, (unmount_of_none hmount).symm⟩
  | some p =>
    rw [if_neg (by simp [isMounted_eq, hmount])] at hr
    obtain ⟨code, v, hcall, hr⟩ := bind_run hr
    split at hr
    · cases hr
    rename_i hcode
    cases hr
    rw [not_not.mp hcode] at hcall
    obtain ⟨d, hfind⟩ : ∃ d, u.find n = some d := by
      cases hfind : u.find n with
      | none => simp [mountOf, hfind] at hmount
      | some d => exact ⟨d, rfl⟩
    rw [(call_done hcall).2]
    exact ⟨mapDataset_sameProps fun _ => rfl, funext (mountOf_of_find hfind)⟩

/-- A list of datasets is unmounted exactly when it drains. -/
theorem visitAll_unmount_iff (hrules : MountRules host foreign) (l : List CStr) :
    (∃ t, visitAll (unmountDataset host) l u = (0, t)) ↔
      Drains StrictlyBelow (· ∈ foreign) (mountOf u) l := by
  induction l generalizing u with
  | nil => exact ⟨fun _ => trivial, fun _ => ⟨u, rfl⟩⟩
  | cons n rest ih =>
    simp only [visitAll_cons_zero]
    rw [exists_comm]
    constructor
    · rintro ⟨v, t, hv, hrest⟩
      refine ⟨(unmountDataset_zero_iff hrules).mp ⟨v, hv⟩, ?_⟩
      rw [← (unmountDataset_zero hv).2]
      exact ih.mp ⟨t, hrest⟩
    · rintro ⟨hbusy, hdrains⟩
      obtain ⟨v, hv⟩ := (unmountDataset_zero_iff hrules).mpr hbusy
      rw [← (unmountDataset_zero hv).2] at hdrains
      obtain ⟨t, ht⟩ := ih.mpr hdrains
      exact ⟨v, t, hv, ht⟩

theorem mountOf_of_visitAll (l : List CStr) (hr : visitAll (unmountDataset host) l u = (0, t)) :
    SameProps u t ∧ mountOf t = l.foldl unmount (mountOf u) := by
  induction l generalizing u with
  | nil =>
    cases hr
    exact ⟨.refl t, rfl⟩
  | cons n rest ih =>
    obtain ⟨v, hv, hrest⟩ := visitAll_cons_zero.mp hr
    obtain ⟨hprops, hmounts⟩ := unmountDataset_zero hv
    obtain ⟨hprops', hmounts'⟩ := ih hrest
    exact ⟨hprops.trans hprops', by rw [hmounts', hmounts, List.foldl_cons]⟩

end Unmount

/-! ## The mount -/

/-- None of the environment's datasets is mounted. -/
def Unused (h : Handle) (be : CStr) (s : Sys) : Prop :=
  ∀ n, AtOrBelow (h.beDataset be) n ∨ AtOrBelow (h.bpoolDataset be) n → mountOf s n = none

section Mount
variable {host : Host} {h : Handle} {be real : CStr} {mountpoint : Option CStr} {s t u : Sys}

theorem samePools_realMountpoint {template : CStr} {dir : Option CStr}
    (hr : realMountpoint host template mountpoint s = (dir, t)) : SamePools s t := by
  cases mountpoint with
  | some p =>
    cases hr
    exact .refl s
  | none =>
    unfold realMountpoint at hr
    obtain ⟨⟨name, tmpl⟩, u, hdir, hr⟩ := bind_run hr
    have hsame : SamePools s u := by
      unfold mkdtemp at hdir
      rw [run_get_bind] at hdir
      obtain ⟨code, v, hcall, hdir⟩ := bind_run hdir
      have hcallsame := samePools_of_call ⟨rfl, rfl, rfl⟩ hcall
      split at hdir
      · cases hdir
        exact hcallsame
      · cases hdir
        exact hcallsame
    dsimp only at hr
    split at hr
    · cases hr
      exact hsame
    · cases hr
      exact hsame

theorem mountBootDataset_success {bds : CStr}
    (hr : mountBootDataset host be real bds s = (.success, t)) :
    SameProps s t ∧ ∀ m, mountOf t m =
      if bds ≠ [] ∧ m = bds then some (real ++ "/boot".toList) else mountOf s m := by
  unfold mountBootDataset at hr
  split at hr
  · rename_i hnil
    cases hr
    exact ⟨.refl s, fun m => by simp [hnil]⟩
  rename_i hne
  obtain ⟨⟨r, propBuf⟩, s1, hget, hr⟩ := bind_run hr
  dsimp only at hr
  split at hr
  · cases hr
  rename_i hzero
  obtain rfl : r = 0 := by simpa using hzero
  obtain ⟨hsame1, source, hvalue⟩ := zfsPropGet_zero hget
  split at hr
  · cases hr
  rcases hcat : libzeUtilConcat real "/" "boot" libzeMaxPathLen with ⟨code, mountDirectoryBoot⟩
  rw [hcat] at hr
  dsimp only at hr
  split at hr
  · cases hr
  rename_i hcode
  rw [not_not.mp hcode] at hcat
  obtain ⟨-, hpath⟩ := (libzeUtilConcat_eq_ok_iff (by decide)).mp hcat
  obtain ⟨code2, s2, hdir, hr⟩ := bind_run hr
  split at hr
  · cases hr
  obtain ⟨code3, s3, hmount, hr⟩ := bind_run hr
  split at hr
  · cases hr
  rename_i hmounted
  cases hr
  rw [not_not.mp hmounted] at hmount
  have hsame2 := samePools_directoryCreate hdir
  have hmem : bds ∈ s2.names := by
    rw [hsame2.names]
    exact mem_names_of_propValue hvalue
  obtain ⟨hprops, hmounts⟩ := mountOf_temporaryMount hmem hmount
  refine ⟨(SameProps.of_samePools (hsame1.trans hsame2)).trans hprops, fun m => ?_⟩
  rw [hmounts, mountOf_samePools (hsame1.trans hsame2), hpath]
  by_cases hm : m = bds
  · rw [if_pos hm, if_pos ⟨hne, hm⟩]
    simp
  · rw [if_neg hm, if_neg fun h => hm h.2]

/-- What a successful mount has passed and what it leaves. -/
structure MountRun (host : Host) (h : Handle) (be real : CStr) (s t : Sys) : Prop where
  opened : (openBootEnvironment host h be s).1 = (.success, h.beDataset be, h.bpoolDataset be)
  props : SameProps s t
  mounts : ∀ m, mountOf t m = mountPlan host h be real s m

theorem mem_kids_subtree (hforest : IsForest s.names) {n : CStr} (hn : n ∈ s.names)
    (hfs : isSnapshotName n = false) (m : CStr) :
    m ∈ (childFilesystems s n).flatMap (subtree s) ↔ m ∈ subtree s n ∧ m ≠ n := by
  rw [mem_subtree hforest hn hfs, List.mem_flatMap]
  constructor
  · rintro ⟨c, hc, hm⟩
    obtain ⟨hmem, hparent, hcfs⟩ := mem_childFilesystems.mp hc
    obtain ⟨hm, hmfs, hbelow⟩ := (mem_subtree hforest hmem hcfs).mp hm
    have hlt := parentOf_length_lt hparent
    have hle := hbelow.length_le
    refine ⟨⟨hm, hmfs, (atOrBelow_of_parentOf hparent).trans hbelow⟩, ?_⟩
    intro heq
    rw [heq] at hle
    omega
  · rintro ⟨⟨hm, hmfs, hbelow⟩, hne⟩
    obtain ⟨c, hc, hcm⟩ := hforest.exists_child hm hbelow hne
    obtain ⟨hmem, hparent⟩ := mem_children.mp hc
    have hcfs := isSnapshotName_of_atOrBelow hcm hmfs
    exact ⟨c, mem_childFilesystems.mpr ⟨hmem, hparent, hcfs⟩,
      (mem_subtree hforest hmem hcfs).mpr ⟨hm, hmfs, hcm⟩⟩

theorem kids_subtree_nodup (hforest : IsForest s.names) (n : CStr) :
    ((childFilesystems s n).flatMap (subtree s)).Nodup := by
  have hnodup := hforest.ranked.preorder_nodup (recursionDepth s + 1) n
  rw [preorder] at hnodup
  exact (List.nodup_cons.mp hnodup).2

theorem libzeMount_success (hrules : LookupRules host) (hforest : IsForest s.names)
    (hunused : Unused h be s) (hr : libzeMount host h be mountpoint s = ((.success, real), t)) :
    MountRun host h be real s t := by
  unfold libzeMount at hr
  obtain ⟨⟨ret, ds, bds⟩, s1, hopen, hr⟩ := bind_run hr
  dsimp only at hr
  split at hr
  · rename_i hret
    cases hr
    exact absurd rfl hret
  rename_i hret
  rw [not_not.mp hret] at hopen
  obtain ⟨rfl, rfl, -, hexists⟩ := openBootEnvironment_success hopen
  have hsame1 := (Issues.looked (openBootEnvironment_issues host h be) hopen).same
  split at hr
  · cases hr
  rw [run_get_bind] at hr
  split at hr
  · cases hr
  rcases libzeUtilConcat "/tmp/ze." be ".XXXXXX" zfsMaxDatasetNameLen with ⟨code, template⟩
  split at hr
  · cases hr
  obtain ⟨dir, s2, hdir, hr⟩ := bind_run hr
  have hsame2 := hsame1.trans (samePools_realMountpoint hdir)
  cases dir with
  | none => cases hr
  | some path =>
    dsimp only at hr
    split at hr
    · cases hr
    obtain ⟨code3, s3, hmount, hr⟩ := bind_run hr
    split at hr
    · obtain ⟨code4, s4, -, hr⟩ := bind_run hr
      cases hr
    rename_i hmounted
    rw [not_not.mp hmounted] at hmount
    obtain ⟨hroot, hfs⟩ := exists_filesystem hexists.root
    obtain ⟨hprops3, hmounts3⟩ := mountOf_temporaryMount (hsame2.names ▸ hroot) hmount
    have hprops3 := (SameProps.of_samePools hsame2).trans hprops3
    rw [run_get_bind] at hr
    obtain ⟨r, s4, hvisit, hr⟩ := bind_run hr
    have hdepth : recursionDepth s3 = recursionDepth s := by
      rw [recursionDepth, recursionDepth, maxNameLength, maxNameLength, hprops3.shape.names]
    rw [hdepth, childFilesystems_of_shape hprops3.shape] at hvisit
    split at hr
    · rename_i hrne
      rw [run_get_bind] at hr
      obtain ⟨c, hc, v, hv, -, hfail⟩ := exists_of_visit_ne_zero (SameProps s)
        (fun c _ v hv _ => hv.trans (sameProps_of_issues (mountCallback_issues _ c) v)) hprops3 hvisit
        hrne
      have herror := mountCallback_error hforest _ (enough_recursionDepth s c) hv hfail hrne
      exact absurd (congrArg (fun p => p.1.1) hr) herror
    rename_i hrzero
    rw [not_not.mp hrzero] at hvisit
    obtain ⟨ret, s5, hboot, hr⟩ := bind_run hr
    cases hr
    have hflat := (visitAll_flatMap_zero (SameProps s) (subtree s) (fun c hc v hv =>
      ⟨mountCallback_visits hforest _ c (enough_recursionDepth s c) hv,
        hv.trans (sameProps_of_issues (mountCallback_issues _ c) v)⟩) hprops3 s4).mp hvisit
    have hfree : ∀ m ∈ (childFilesystems s (h.beDataset be)).flatMap (subtree s),
        mountOf s3 m = none := by
      intro m hm
      obtain ⟨htree, hne⟩ := (mem_kids_subtree hforest hroot hfs m).mp hm
      rw [hmounts3, if_neg hne, mountOf_samePools hsame2]
      exact hunused m (.inl ((mem_subtree hforest hroot hfs).mp htree).2.2)
    have hall := mounted_of_visitAll hrules _ (kids_subtree_nodup hforest _) hprops3 hfree hflat
    obtain ⟨hprops5, hmounts5⟩ := mountBootDataset_success hboot
    refine ⟨congrArg Prod.fst hopen, hall.props.trans hprops5, fun m => ?_⟩
    rw [hmounts5, mountPlan]
    by_cases hbootm : h.bpoolDataset be ≠ [] ∧ m = h.bpoolDataset be
    · rw [if_pos hbootm, if_pos hbootm]
    · rw [if_neg hbootm, if_neg hbootm, hall.mounts, hmounts3, mountOf_samePools hsame2]
      simp only [mem_kids_subtree hforest hroot hfs]
      by_cases hm : m = h.beDataset be
      · simp [hm]
      · simp [hm]

end Mount

/-! ## The unmount behind it -/

section Order
variable {h : Handle} {be n m : CStr} {s t u : Sys}

theorem mem_treeOrder : m ∈ treeOrder s n ↔ m ∈ subtree s n :=
  (postorder_perm (childFilesystems s) (recursionDepth s) n).mem_iff

theorem mem_treeOrder_self : n ∈ treeOrder s n := by
  rw [treeOrder, recursionDepth, postorder]
  simp

theorem atOrBelow_of_mem_treeOrder (hforest : IsForest s.names) (hm : m ∈ treeOrder s n) :
    AtOrBelow n m :=
  atOrBelow_of_descends (hforest.ranked.descends_of_mem (mem_treeOrder.mp hm))

theorem treeOrder_nodup (hforest : IsForest s.names) (n : CStr) : (treeOrder s n).Nodup :=
  (postorder_perm _ _ n).nodup_iff.mpr (hforest.ranked.preorder_nodup _ n)

theorem bootOrder_nodup (hforest : IsForest s.names) : (bootOrder h be s).Nodup := by
  rw [bootOrder]
  split
  · exact List.nodup_nil
  · exact treeOrder_nodup hforest _

theorem unmountOrder_nodup (hforest : IsForest s.names) : (unmountOrder h be s).Nodup := by
  rw [unmountOrder, List.nodup_append]
  refine ⟨bootOrder_nodup hforest, (treeOrder_nodup hforest _).filter _, ?_⟩
  intro n hn m hm heq
  have hout := (List.mem_filter.mp hm).2
  rw [← heq] at hout
  simp [hn] at hout

theorem strictlyBelow_irrefl (p : CStr) : ¬ StrictlyBelow p p := fun h => h.2 rfl

/-- A dataset of both trees is unmounted once, so its second turn does not count. -/
theorem drains_unmountOrder {others : CStr → Prop} {μ : CStr → Option CStr} :
    Drains StrictlyBelow others μ (unmountOrder h be s) ↔
      Drains StrictlyBelow others μ (bootOrder h be s ++ treeOrder s (h.beDataset be)) := by
  rw [unmountOrder, drains_append, drains_append, drains_filter]
  intro n _ hout
  have hmem : n ∈ bootOrder h be s := by simpa using hout
  rw [foldl_unmount, if_pos hmem]

/-- Unmounting all of them leads back to the mounts from before. -/
theorem foldl_unmount_plan {host : Host} {real : CStr} (hforest : IsForest s.names)
    (hunused : Unused h be s) (m : CStr) :
    (bootOrder h be s ++ treeOrder s (h.beDataset be)).foldl unmount
      (mountPlan host h be real s) m = mountOf s m := by
  rw [foldl_unmount]
  by_cases hm : m ∈ bootOrder h be s ++ treeOrder s (h.beDataset be)
  · rw [if_pos hm]
    symm
    apply hunused
    rcases List.mem_append.mp hm with hm | hm
    · right
      rw [bootOrder] at hm
      split at hm
      · cases hm
      · exact atOrBelow_of_mem_treeOrder hforest hm
    · left
      exact atOrBelow_of_mem_treeOrder hforest hm
  · rw [if_neg hm]
    rw [List.mem_append, not_or] at hm
    obtain ⟨hboot, htree⟩ := hm
    have hplan : ¬ (h.bpoolDataset be ≠ [] ∧ m = h.bpoolDataset be) := by
      rintro ⟨hne, heq⟩
      rw [bootOrder, if_neg hne, heq] at hboot
      exact hboot mem_treeOrder_self
    have hroot : m ≠ h.beDataset be := by
      intro heq
      rw [heq] at htree
      exact htree mem_treeOrder_self
    rw [mountPlan, if_neg hplan, if_neg hroot, if_neg fun hsub => htree (mem_treeOrder.mpr hsub)]

end Order

section Run
variable {host : Host} {foreign : List CStr} {h : Handle} {be real n : CStr} {s t u v : Sys}

theorem runUnmountCallback_zero_iff (hforest : IsForest s.names) (hsu : SameShape s u) (v : Sys) :
    runUnmountCallback host n u = (0, v) ↔
      visitAll (unmountDataset host) (treeOrder s n) u = (0, v) := by
  have hdepth : recursionDepth u = recursionDepth s := by
    rw [recursionDepth, recursionDepth, maxNameLength, maxNameLength, hsu.names]
  rw [runUnmountCallback, run_get_bind, hdepth]
  exact unmountCallback_visits hforest _ n (enough_recursionDepth s n) hsu v

theorem runUnmountCallback_error {r : Int} (hr : runUnmountCallback host n u = (r, v))
    (hne : r ≠ 0) : v.libzeError ≠ .success := by
  rw [runUnmountCallback, run_get_bind, recursionDepth, unmountCallback, run_get_bind] at hr
  obtain ⟨r1, u1, -, hr⟩ := bind_run hr
  split at hr
  · cases hr
    simp
  rw [run_get_bind] at hr
  split at hr
  · cases hr
    exact absurd rfl hne
  obtain ⟨code, u2, -, hr⟩ := bind_run hr
  split at hr
  · cases hr
    simp
  · cases hr
    exact absurd rfl hne

theorem unmountBootDataset_success_iff (hforest : IsForest s.names) (hsu : SameShape s u)
    (hmounted : h.bpoolDataset be ≠ [] → u.isMounted (h.bpoolDataset be) = true) (v : Sys) :
    unmountBootDataset host (h.bpoolDataset be) u = (.success, v) ↔
      visitAll (unmountDataset host) (bootOrder h be s) u = (0, v) := by
  rw [unmountBootDataset, bootOrder]
  by_cases hnil : h.bpoolDataset be = []
  · rw [if_pos hnil, if_pos hnil]
    constructor
    · intro hrun
      cases hrun
      rfl
    · intro hrun
      cases hrun
      rfl
  · rw [if_neg hnil, if_neg hnil, run_get_bind, if_neg (by simp [hmounted hnil]), run_bind,
      ← runUnmountCallback_zero_iff hforest hsu]
    rcases hrun : runUnmountCallback host (h.bpoolDataset be) u with ⟨r, w⟩
    by_cases hr : r = 0
    · rw [if_neg (by simpa using hr), hr]
      constructor
      · intro hsuccess
        cases hsuccess
        rfl
      · intro hzero
        cases hzero
        rfl
    · rw [if_pos (by simpa using hr)]
      constructor
      · intro hsuccess
        cases hsuccess
      · intro hzero
        cases hzero
        exact absurd rfl hr

/-- Behind a mount, the unmount succeeds exactly when all datasets can be unmounted in turn. -/
theorem libzeUnmount_success_iff (hrules : LookupRules host) (hforest : IsForest s.names)
    (hmount : MountRun host h be real s t) :
    ∃ t1, SamePools t t1 ∧ ∀ v, libzeUnmount host h be t = (.success, v) ↔
      libzeIsRootBe h be = false ∧ visitAll (unmountDataset host)
        (bootOrder h be s ++ treeOrder s (h.beDataset be)) t1 = (0, v) := by
  rcases hopen : openBootEnvironment host h be t with ⟨⟨ret, ds, bds⟩, t1⟩
  have hsame := (Issues.looked (openBootEnvironment_issues host h be) hopen).same
  refine ⟨t1, hsame, fun v => ?_⟩
  have hagree := (@agree_openBootEnvironment host h be hrules s t hmount.props).1
  rw [hmount.opened, hopen] at hagree
  obtain ⟨rfl, rfl, rfl⟩ : .success = ret ∧ h.beDataset be = ds ∧ h.bpoolDataset be = bds := by
    simpa using hagree
  have hshape1 : SameShape s t1 := hmount.props.shape.trans hsame.shape
  have hplan : ∀ m, mountOf t1 m = mountPlan host h be real s m := fun m =>
    (mountOf_samePools hsame m).trans (hmount.mounts m)
  have hroot : t1.isMounted (h.beDataset be) = true := by
    rw [isMounted_eq, hplan, mountPlan]
    split
    · rfl
    · rw [if_pos rfl]
      rfl
  have hboot : h.bpoolDataset be ≠ [] → t1.isMounted (h.bpoolDataset be) = true := by
    intro hne
    rw [isMounted_eq, hplan, mountPlan, if_pos ⟨hne, rfl⟩]
    rfl
  rw [libzeUnmount]
  by_cases hname : libzeIsRootBe h be = true
  · rw [if_pos hname]
    constructor
    · intro hrun
      cases hrun
    · rintro ⟨hno, -⟩
      rw [hname] at hno
      cases hno
  rw [if_neg hname, run_bind, hopen]
  dsimp only
  rw [if_neg (by simp), run_get_bind, if_neg (by simp [hroot]), run_bind, visitAll_append_zero]
  rcases hrunboot : unmountBootDataset host (h.bpoolDataset be) t1 with ⟨ret, t2⟩
  have hbootiff := @unmountBootDataset_success_iff host h be s t1 hforest hshape1 hboot
  by_cases hret : ret = .success
  · rw [if_neg (by simpa using hret), run_bind]
    rw [hret] at hrunboot
    have hvisitboot := (hbootiff t2).mp hrunboot
    have hshape2 := hshape1.trans (mountOf_of_visitAll _ hvisitboot).1.shape
    rcases hrunroot : runUnmountCallback host (h.beDataset be) t2 with ⟨r, t3⟩
    have hrootiff := @runUnmountCallback_zero_iff host (h.beDataset be) s t2 hforest hshape2
    by_cases hr : r = 0
    · rw [hr] at hrunroot
      rw [if_neg (by simpa using hr)]
      constructor
      · intro hsuccess
        cases hsuccess
        exact ⟨by simpa using hname, t2, hvisitboot, (hrootiff t3).mp hrunroot⟩
      · rintro ⟨-, w, hw, hv⟩
        cases hvisitboot.symm.trans hw
        cases hrunroot.symm.trans ((hrootiff v).mpr hv)
        rfl
    · rw [if_pos (by simpa using hr), run_get_bind]
      constructor
      · intro hsuccess
        exact absurd (congrArg Prod.fst hsuccess) (runUnmountCallback_error hrunroot hr)
      · rintro ⟨-, w, hw, hv⟩
        cases hvisitboot.symm.trans hw
        cases hrunroot.symm.trans ((hrootiff v).mpr hv)
        exact absurd rfl hr
  · rw [if_pos (by simpa using hret)]
    constructor
    · intro hsuccess
      cases hsuccess
      exact absurd rfl hret
    · rintro ⟨-, w, hw, -⟩
      cases hrunboot.symm.trans ((hbootiff w).mpr hw)
      exact absurd rfl hret

end Run

/-- What was mounted is unmounted again, with nothing else changed, exactly when the name is not
that of the running environment, no dataset is unmounted before one mounted strictly below it and
nothing else is mounted strictly below any of them. -/
theorem unmounts_iff_ordered {host : Host} {foreign : List CStr} {h : Handle} {be real : CStr}
    {mountpoint : Option CStr} {s t : Sys} (hrules : MountRules host foreign)
    (hforest : IsForest s.names) (hunused : Unused h be s)
    (hmount : libzeMount host h be mountpoint s = ((.success, real), t)) :
    ((libzeUnmount host h be t).1 = .success ∧
      ∀ n, mountOf (libzeUnmount host h be t).2 n = mountOf s n) ↔
    libzeIsRootBe h be = false ∧
      Ordered StrictlyBelow (mountPlan host h be real s) (unmountOrder h be s) ∧
      Covers StrictlyBelow (· ∈ foreign) (mountPlan host h be real s) (unmountOrder h be s) := by
  have hrun := libzeMount_success hrules.toLookupRules hforest hunused hmount
  obtain ⟨t1, hsame, hiff⟩ := libzeUnmount_success_iff hrules.toLookupRules hforest hrun
  have hplan : mountOf t1 = mountPlan host h be real s := by
    funext m
    rw [mountOf_samePools hsame, hrun.mounts]
  rw [← drains_iff strictlyBelow_irrefl (unmountOrder_nodup hforest), drains_unmountOrder, ← hplan,
    ← visitAll_unmount_iff hrules]
  constructor
  · rintro ⟨hsuccess, -⟩
    obtain ⟨hname, hvisit⟩ := (hiff _).mp (run_eq_of_fst hsuccess)
    exact ⟨hname, _, hvisit⟩
  · rintro ⟨hname, v, hvisit⟩
    rw [(hiff v).mpr ⟨hname, hvisit⟩]
    refine ⟨rfl, fun n => ?_⟩
    rw [(mountOf_of_visitAll _ hvisit).2, hplan, foldl_unmount_plan hforest hunused]

/-! ## A small tree -/

theorem unused_of_datasets {h : Handle} {be : CStr} {s : Sys}
    (hall : ∀ d ∈ s.datasets, AtOrBelow (h.beDataset be) d.name ∨
      AtOrBelow (h.bpoolDataset be) d.name → d.mountedAt = none) : Unused h be s := by
  intro n hn
  cases hfind : s.find n with
  | none => simp [mountOf, hfind]
  | some d =>
    have hname : d.name = n := by simpa using List.find?_some hfind
    rw [mountOf, hfind, Option.bind_some]
    exact hall d (List.mem_of_find?_eq_some hfind) (hname ▸ hn)

def isBusy (s : Sys) (n : CStr) : Bool :=
  (mountOf s n).any fun p => s.names.any fun m => (mountOf s m).any fun q => StrictlyBelow p q

theorem isBusy_iff (s : Sys) (n : CStr) :
    isBusy s n = true ↔ Busy StrictlyBelow (· ∈ ([] : List CStr)) (mountOf s) n := by
  constructor
  · intro hbusy
    obtain ⟨p, hp, hany⟩ := (Option.any_eq_true _ _).mp hbusy
    obtain ⟨m, -, hm⟩ := List.any_eq_true.mp hany
    obtain ⟨q, hq, hbelow⟩ := (Option.any_eq_true _ _).mp hm
    exact ⟨p, hp, .inl ⟨m, q, hq, by simpa using hbelow⟩⟩
  · rintro ⟨p, hp, ⟨m, q, hq, hbelow⟩ | ⟨q, hq, -⟩⟩
    · have hmem : m ∈ s.names := by
        cases hfind : s.find m with
        | none => simp [mountOf, hfind] at hq
        | some d =>
          have hname : d.name = m := by simpa using List.find?_some hfind
          exact hname ▸ List.mem_map_of_mem (List.mem_of_find?_eq_some hfind)
      refine (Option.any_eq_true _ _).mpr ⟨p, hp, List.any_eq_true.mpr ⟨m, hmem, ?_⟩⟩
      exact (Option.any_eq_true _ _).mpr ⟨q, hq, by simpa using hbelow⟩
    · cases hq

/-- Only what is busy cannot be unmounted. -/
def mountHost : Host :=
  plainHost fun s c =>
    match c with
    | .zfs (.unmount n) => if isBusy s n then 1 else 0
    | _ => 0

theorem mountHost_rules : MountRules mountHost [] where
  lookups s c hc := by
    match c, hc with
    | .zfs (.poolOpen _), _ => rfl
    | .zfs (.open _), _ => rfl
    | .zfs (.propGet _ _), _ => rfl
  inherited _ _ _ := rfl
  busy s n _ := by
    show (if isBusy s n = true then 1 else 0) = 0 ↔ _
    rw [← isBusy_iff]
    cases isBusy s n <;> simp

def withMountpoint (name value : CStr) : Dataset :=
  { name, props := [⟨.mountpoint, value, .localSet⟩] }

/-- The environment `b` with the children `x` and `y`. -/
def treeSys (x y : CStr) : Sys :=
  sampleSys [withMountpoint "rpool/ROOT/b/x" x, withMountpoint "rpool/ROOT/b/y" y]

theorem unmounts_iff_ordered_apart :
    ((libzeUnmount mountHost (sampleHandle none false) "b"
        (libzeMount mountHost (sampleHandle none false) "b" none (treeSys "/x" "/y")).2).1 = .success ∧
      ∀ n, mountOf (libzeUnmount mountHost (sampleHandle none false) "b"
        (libzeMount mountHost (sampleHandle none false) "b" none (treeSys "/x" "/y")).2).2 n =
          mountOf (treeSys "/x" "/y") n) ↔
    libzeIsRootBe (sampleHandle none false) "b" = false ∧
      Ordered StrictlyBelow (mountPlan mountHost (sampleHandle none false) "b" "/tmp/ze.b.XXXXXX"
        (treeSys "/x" "/y")) (unmountOrder (sampleHandle none false) "b" (treeSys "/x" "/y")) ∧
      Covers StrictlyBelow (· ∈ []) (mountPlan mountHost (sampleHandle none false) "b"
        "/tmp/ze.b.XXXXXX" (treeSys "/x" "/y"))
        (unmountOrder (sampleHandle none false) "b" (treeSys "/x" "/y")) :=
  unmounts_iff_ordered mountHost_rules (by decide +kernel)
    (unused_of_datasets (by decide +kernel)) (run_eq_of_fst (by decide +kernel))

/-- The child `x` is unmounted while `y` is mounted below it. -/
theorem not_unmounts_nested : IsForest (treeSys "/x" "/x/y").names ∧
    Unused (sampleHandle none false) "b" (treeSys "/x" "/x/y") ∧
    (libzeMount mountHost (sampleHandle none false) "b" none (treeSys "/x" "/x/y")).1.1 = .success ∧
    (libzeUnmount mountHost (sampleHandle none false) "b"
      (libzeMount mountHost (sampleHandle none false) "b" none (treeSys "/x" "/x/y")).2).1 ≠
        .success :=
  ⟨by decide +kernel, unused_of_datasets (by decide +kernel), by decide +kernel, by decide +kernel⟩

end Zectl.Libze.MountRoundTrip
