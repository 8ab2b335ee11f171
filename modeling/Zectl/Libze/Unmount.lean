import Zectl.Libze.Validate
import Zectl.Lib.Visit

/-!
# Unmounting a boot environment

`libze_unmount` unmounts child filesystems before their parent, on the boot pool
before the root pool.
-/

namespace Zectl.Libze.Unmount

open Zectl.Lib.StateRun Zectl.Lib.Visit Zectl.Lib.PathOrder Zectl.Util.CString Zectl.Zfs.System
open Zectl.Zfs.Steps Zectl.Zfs.Forest Zectl.Libze.Init Zectl.Libze.Validate

/-- `unmount_callback`, to a bounded depth. -/
def unmountCallback (host : Host) : Nat → CStr → Libze Int
  | 0, _ => return -1
  | depth + 1, dataset => do
    let r ← visit (fun _ _ => true) (unmountCallback host depth)
      (childFilesystems (← get) dataset)
    if r ≠ 0 then
      let _ ← libzeErrorSet .unknown (format ["Failed to iterate over ", dataset, "\n."])
      return -1
    if ¬ (← get).isMounted dataset then
      return 0
    if (← call host (.zfs (.unmount dataset))) ≠ 0 then
      let _ ← libzeErrorSet .unknown (format ["Failed to unmount ", dataset, "\n."])
      return -1
    return 0

def runUnmountCallback (host : Host) (dataset : CStr) : Libze Int := do
  unmountCallback host (recursionDepth (← get)) dataset

/-- The boot pool part of `libze_unmount`; its messages print a buffer that is never
written. -/
def unmountBootDataset (host : Host) (beBpoolDs : CStr) : Libze LibzeError := do
  if beBpoolDs = [] then return .success
  if ¬ (← get).isMounted beBpoolDs then
    return ← libzeErrorSet .mountpoint
      "Boot environment dataset on bootpool () is not mounted.\n"
  if (← runUnmountCallback host beBpoolDs) ≠ 0 then
    return ← libzeErrorSet .unknown "Failed to unmount the mounted boot dataset ().\n"
  return .success

/-- `libze_unmount` -/
def libzeUnmount (host : Host) (h : Handle) (be : CStr) : Libze LibzeError := do
  if libzeIsRootBe h be then
    return ← libzeErrorSet .unknown (format ["Cannot umount root boot environment (", be, ").\n"])
  let (ret, beDs, beBpoolDs) ← openBootEnvironment host h be
  if ret ≠ .success then
    return ← libzeErrorPrepend ret (format ["Failed to open boot environment (", be,
      ") for unmount.\n"])
  if ¬ (← get).isMounted beDs then
    return ← libzeErrorSet .mountpoint (format ["Boot environment dataset for ", beDs,
      " is not mounted.\n"])
  let ret ← unmountBootDataset host beBpoolDs
  if ret ≠ .success then return ret
  if (← runUnmountCallback host beDs) ≠ 0 then
    return (← get).libzeError
  return .success

/-! ## The calls of the callback -/

/-- Lookups and unmounts of the filesystems `inside`. -/
def MayUnmount (inside : CStr → Prop) : Call → Prop
  | .zfs (.unmount n) => inside n
  | c => IsLookup c

theorem mayUnmount_of_isLookup {inside : CStr → Prop} {c : Call} (hc : IsLookup c) :
    MayUnmount inside c := by
  match c, hc with
  | .zfs (.poolOpen _), _ => trivial
  | .zfs (.open _), _ => trivial
  | .zfs (.propGet _ _), _ => trivial

section Calls
variable {host : Host} {inside : CStr → Prop}

theorem unmountCallback_issues (depth : Nat) {dataset : CStr}
    (hsub : ∀ n, AtOrBelow dataset n → inside n) :
    Issues host (MayUnmount inside) (unmountCallback host depth dataset) := by
  induction depth generalizing dataset with
  | zero => exact moves_pure _
  | succ depth ih =>
    rw [unmountCallback]
    refine moves_bind moves_get fun s => ?_
    refine moves_bind (moves_visit fun c hc => ?_) fun r => ?_
    · have hbelow := atOrBelow_of_parentOf (mem_childFilesystems.mp hc).2.1
      exact ih fun n hn => hsub n (hbelow.trans hn)
    refine moves_ite (fun _ => moves_bind (issues_errorSet _ _) fun _ => moves_pure _) (fun _ => ?_)
    refine moves_bind moves_get fun s' => ?_
    refine moves_ite (fun _ => moves_pure _) (fun _ => ?_)
    refine moves_bind (issues_call (hsub dataset under_refl)) fun code => ?_
    refine moves_ite (fun _ => ?_) (fun _ => moves_pure _)
    exact moves_bind (issues_errorSet _ _) fun _ => moves_pure _

theorem runUnmountCallback_issues {dataset : CStr} (hsub : ∀ n, AtOrBelow dataset n → inside n) :
    Issues host (MayUnmount inside) (runUnmountCallback host dataset) :=
  moves_bind moves_get fun _ => unmountCallback_issues _ hsub

theorem mayUnmount_shape {s : Sys} {c : Call} (hc : MayUnmount inside c) :
    SameShape s (c.effect host s) := by
  match c, hc with
  | .zfs (.unmount name), _ => exact mapDataset_shape (s := s) fun _ => rfl
  | .zfs (.poolOpen _), _ => exact .refl s
  | .zfs (.open _), _ => exact .refl s
  | .zfs (.propGet _ _), _ => exact .refl s

theorem unmountCallback_shape {depth : Nat} {dataset : CStr} {s t : Sys} {r : Int}
    (hr : unmountCallback host depth dataset s = (r, t)) : SameShape s t := by
  have hissues : Issues host (MayUnmount fun _ => True) (unmountCallback host depth dataset) :=
    unmountCallback_issues depth fun _ _ => trivial
  have hkeep : SameShape s (unmountCallback host depth dataset s).2 :=
    hissues.keeps (SameShape s) (fun _ _ _ _ h => h)
      (fun u c hc _ hu => hu.trans (mayUnmount_shape hc)) (.refl s)
  rwa [hr] at hkeep

end Calls

/-! ## What the callback leaves -/

section Outcome
variable {host : Host} {s t : Sys}

theorem isMounted_unmount (host : Host) (name n : CStr) :
    ((ZfsCall.unmount name).effect host s).isMounted n =
      (s.isMounted n && decide (n ≠ name)) := by
  have hf : ∀ d : Dataset, ({ d with mountedAt := none } : Dataset).name = d.name := fun _ => rfl
  rw [ZfsCall.effect, Sys.isMounted, find_mapDataset hf, Sys.isMounted]
  cases hfind : s.find n with
  | none => rfl
  | some d =>
    have hdn : d.name = n := by simpa using List.find?_some hfind
    by_cases hne : n = name
    · simp [hdn, hne]
    · simp [hdn, hne]

theorem mayUnmount_isMounted {inside : CStr → Prop} {c : Call} (hc : MayUnmount inside c)
    {n : CStr} (hn : s.isMounted n = false) : (c.effect host s).isMounted n = false := by
  match c, hc with
  | .zfs (.unmount name), _ =>
    rw [Call.effect, isMounted_unmount, hn, Bool.false_and]
  | .zfs (.poolOpen _), _ => exact hn
  | .zfs (.open _), _ => exact hn
  | .zfs (.propGet _ _), _ => exact hn

theorem unmountCallback_isMounted {depth : Nat} {dataset n : CStr} {r : Int}
    (hr : unmountCallback host depth dataset s = (r, t)) (hn : s.isMounted n = false) :
    t.isMounted n = false := by
  have hissues : Issues host (MayUnmount fun _ => True) (unmountCallback host depth dataset) :=
    unmountCallback_issues depth fun _ _ => trivial
  have hkeep : (unmountCallback host depth dataset s).2.isMounted n = false :=
    hissues.keeps (fun u => u.isMounted n = false) (fun _ _ _ _ h => h)
      (fun u c hc _ hu => mayUnmount_isMounted hc hu) hn
  rwa [hr] at hkeep

/-- No filesystem at or below the dataset is mounted. -/
def Unmounted (dataset : CStr) (t : Sys) : Prop :=
  ∀ m ∈ t.names, isSnapshotName m = false → AtOrBelow dataset m → t.isMounted m = false

/-- When the callback returns zero, everything at or below its dataset is unmounted. -/
theorem unmountCallback_unmounts (depth : Nat) {dataset : CStr} (hs : IsForest s.names)
    (hr : unmountCallback host depth dataset s = (0, t)) : Unmounted dataset t := by
  induction depth generalizing dataset s t with
  | zero => cases hr
  | succ depth ih =>
    rw [unmountCallback, run_get_bind] at hr
    obtain ⟨r1, s1, hvisit, hr⟩ := bind_run hr
    split at hr
    · cases hr
    rename_i hr1
    rw [not_not.mp hr1] at hvisit
    have hkeep : ∀ c ∈ childFilesystems s dataset, ∀ u, SameShape s u → True →
        SameShape s (unmountCallback host depth c u).2 :=
      fun c _ u hu _ => hu.trans (unmountCallback_shape rfl)
    have hshape1 : SameShape s s1 := by
      have hfinal := visit_keeps (SameShape s) (fun c hc u hu (_ : true = true) =>
        hkeep c hc u hu trivial) (.refl s)
      rwa [hvisit] at hfinal
    have hbelow : ∀ m ∈ s1.names, isSnapshotName m = false → AtOrBelow dataset m → m ≠ dataset →
        s1.isMounted m = false := by
      intro m hm hfs hdm hne
      rw [hshape1.names] at hm
      obtain ⟨c, hc, hcm⟩ := hs.exists_child hm hdm hne
      obtain ⟨hcmem, hparent⟩ := mem_children.mp hc
      have hcfs := isSnapshotName_of_atOrBelow hcm hfs
      have hdone := visit_done (SameShape s) Unmounted
        (fun c hc u hu (_ : true = true) => hkeep c hc u hu trivial)
        (fun _ _ _ _ hdead => by cases hdead)
        (fun c _ u hu _ hzero => ih (hu.names ▸ hs) (run_eq_of_fst hzero))
        (fun c _ x u hu _ hx y hy hyfs hxy => unmountCallback_isMounted rfl
          (hx y ((unmountCallback_shape rfl).names ▸ hy) hyfs hxy))
        (.refl s) (by rw [hvisit]) c (mem_childFilesystems.mpr ⟨hcmem, hparent, hcfs⟩)
      rw [hvisit] at hdone
      exact hdone m (hshape1.names ▸ hm) hfs hcm
    rw [run_get_bind] at hr
    split at hr
    · rename_i hmounted
      cases hr
      intro m hm hfs hdm
      by_cases hne : m = dataset
      · rw [hne]
        simpa using hmounted
      · exact hbelow m hm hfs hdm hne
    · obtain ⟨code, s2, hcall, hr⟩ := bind_run hr
      split at hr
      · cases hr
      rename_i hcode
      cases hr
      rw [not_not.mp hcode] at hcall
      obtain ⟨_, rfl⟩ := call_done hcall
      intro m hm hfs hdm
      have hshape : SameShape s1 ((ZfsCall.unmount dataset).effect host s1) :=
        mapDataset_shape fun _ => rfl
      change ((ZfsCall.unmount dataset).effect host s1).isMounted m = false
      rw [isMounted_unmount]
      by_cases hne : m = dataset
      · simp [hne]
      · rw [hbelow m (hshape.names ▸ hm) hfs hdm hne, Bool.false_and]

/-- As for destroying, the bound on the depth is none in a forest. -/
theorem unmountCallback_depth (depth : Nat) {dataset : CStr} (hs : IsForest s.names)
    (henough : Enough s dataset depth) :
    unmountCallback host (depth + 1) dataset s = unmountCallback host depth dataset s := by
  induction depth generalizing dataset s with
  | zero => obtain ⟨h, _⟩ | ⟨h, _⟩ := henough <;> omega
  | succ depth ih =>
    rw [unmountCallback, unmountCallback, run_get_bind, run_get_bind]
    refine run_bind_congr (visit_congr (SameShape s) ?_ (.refl s)) fun _ _ _ => rfl
    intro c hc u hu _
    obtain ⟨hmem, hparent, _⟩ := mem_childFilesystems.mp hc
    have hchild := henough.child hs (mem_children.mpr ⟨hmem, hparent⟩)
    exact ⟨ih (hu.names ▸ hs) (hchild.of_subset fun n hn => hu.names ▸ hn),
      hu.trans (unmountCallback_shape rfl)⟩

end Outcome

end Zectl.Libze.Unmount
