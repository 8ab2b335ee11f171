import Zectl.Libze.DestroyOutcome
import Zectl.Libze.Rename
import Zectl.Libze.Unmount

/-!
# The guards for the running and the activated environment

`libze_destroy` compares dataset paths, `libze_rename` and `libze_unmount` pass the
bare name, and each guard tests equality only. The guards spare the trees of the
two environments exactly when `Separate` holds; this module proves the direction
from `Separate` to the guards, from the calls each operation can issue.
-/

namespace Zectl.Libze.Guards

open Zectl.Lib.StateRun Zectl.Lib.PathOrder Zectl.Util.CString Zectl.Zfs.System Zectl.Zfs.Steps
open Zectl.Zfs.Forest Zectl.Libze.Init Zectl.Libze.Validate Zectl.Libze.Destroy
open Zectl.Libze.DestroyOutcome Zectl.Libze.Rename Zectl.Libze.Unmount

/-- A dataset is renamed with everything above it. -/
def ActsOn : Call → CStr → Prop
  | .zfs (.destroy n), m => m = n
  | .zfs (.unmount n), m => m = n
  | .zfs (.rename n _), m => AtOrBelow n m
  | _, _ => False

/-- No successful call acted on a filesystem at or below `path`. -/
def Spared (s t : Sys) (path : CStr) : Prop :=
  ∀ c, (c, 0) ∈ since s t → ∀ m ∈ s.names, isSnapshotName m = false → AtOrBelow path m →
    ¬ ActsOn c m

/-- A forest on which the handle was initialized and validated: the running dataset
is mounted, and `bootfs`, which is a dataset, has not been set since. -/
structure Opened (host : Host) (h : Handle) (s : Sys) : Prop where
  forest : IsForest s.names
  running : s.datasetExists h.envRunningPath .filesystem
  mounted : s.isMounted h.envRunningPath
  activated : s.datasetExists h.envActivatedPath .filesystem
  bootfs : s.bootfs = h.envActivatedPath
  valid : (libzeValidateSystem host h s).1 = .success

/-- The three operations spare what their guards are there for, on every host and in
every state. -/
structure Guarded (h : Handle) (be : CStr) : Prop where
  destroy : ∀ host s options, options.beName = be → Opened host h s →
    Spared s (libzeDestroy host h options s).2 h.envRunningPath ∧
      Spared s (libzeDestroy host h options s).2 h.envActivatedPath
  rename : ∀ host s newBe, Opened host h s →
    Spared s (libzeRename host h be newBe s).2 h.envRunningPath ∧
      Spared s (libzeRename host h be newBe s).2 h.envActivatedPath
  unmount : ∀ host s, Opened host h s → Spared s (libzeUnmount host h be s).2 h.envRunningPath

/-- Neither of two datasets lies in the tree of the other. -/
def Apart (a b : CStr) : Prop := ¬ AtOrBelow a b ∧ ¬ AtOrBelow b a

/-- Both datasets of an environment are apart from `path`. -/
def BeApart (h : Handle) (be path : CStr) : Prop :=
  Apart (h.beDataset be) path ∧ ∀ bp ∈ h.bootpool, Apart (bp.beDataset be) path

/-- When the guards suffice: the environment is refused, or its trees are apart from
those of the running and the activated environment. -/
structure Separate (h : Handle) (be : CStr) : Prop where
  destroy : h.envActivatedPath = h.beDataset be ∨ h.envRunningPath = h.beDataset be ∨
    (BeApart h be h.envRunningPath ∧ BeApart h be h.envActivatedPath)
  rename : libzeIsRootBe h be = true ∨ libzeIsActiveBe h be = true ∨
    (∃ bp ∈ h.bootpool, bp.beDataset be = h.envRunningPath) ∨
    (BeApart h be h.envRunningPath ∧ BeApart h be h.envActivatedPath)
  unmount : libzeIsRootBe h be = true ∨ BeApart h be h.envRunningPath

/-! ## From calls to trees -/

theorem not_actsOn_of_isLookup {c : Call} (hc : IsLookup c) (m : CStr) : ¬ ActsOn c m := by
  match c, hc with
  | .zfs (.poolOpen _), _ => exact id
  | .zfs (.open _), _ => exact id
  | .zfs (.propGet _ _), _ => exact id

/-- What an operation reaches: filesystems at or below one of the two datasets. -/
def Reaches (h : Handle) (be : CStr) (c : Call) : Prop :=
  ∀ m, ActsOn c m → isSnapshotName m = false →
    AtOrBelow (h.beDataset be) m ∨ ∃ bp ∈ h.bootpool, AtOrBelow (bp.beDataset be) m

theorem spared_of_lookups {s t : Sys} (h : ∀ e ∈ since s t, IsLookup e.1) (path : CStr) :
    Spared s t path :=
  fun _ hc m _ _ _ => not_actsOn_of_isLookup (h _ hc) m

theorem spared_of_apart {h : Handle} {be path : CStr} {s t : Sys}
    (hreach : ∀ e ∈ since s t, Reaches h be e.1) (hapart : BeApart h be path) :
    Spared s t path := by
  intro c hc m _ hfs hbelow hacts
  obtain hroot | ⟨bp, hbp, hboot⟩ := hreach _ hc m hacts hfs
  · obtain hup | hdown := hroot.comparable hbelow
    · exact hapart.1.1 hup
    · exact hapart.1.2 hdown
  · obtain hup | hdown := hboot.comparable hbelow
    · exact (hapart.2 bp hbp).1 hup
    · exact (hapart.2 bp hbp).2 hdown

/-! ## Destroy -/

section Destroy
variable {host : Host} {h : Handle} {options : DestroyOptions} {s : Sys}

theorem reaches_of_mayDestroy {be : CStr} {c : Call} (hc : MayDestroy (InsideBe h be) c) :
    Reaches h be c := by
  have hinside : ∀ n, InsideBe h be n → isSnapshotName n = false →
      AtOrBelow (h.beDataset be) n ∨ ∃ bp ∈ h.bootpool, AtOrBelow (bp.beDataset be) n := by
    rintro n (hn | hn | hsnap) hfs
    · exact .inl hn
    · exact .inr hn
    · rw [hsnap] at hfs
      cases hfs
  intro m hacts hfs
  match c, hc, hacts with
  | .zfs (.unmount n), hc, hacts => exact hinside m (hacts ▸ hc) hfs
  | .zfs (.destroy n), hc, hacts => exact hinside m (hacts ▸ hc) hfs

theorem libzeDestroy_reaches :
    ∀ e ∈ since s (libzeDestroy host h options s).2, Reaches h options.beName e.1 := by
  rintro ⟨c, code⟩ he
  cases (libzeDestroy_issues host h options).since s _ he with
  | lookup hc => exact fun m hacts => absurd hacts (not_actsOn_of_isLookup hc m)
  | pool _ hc => exact reaches_of_mayDestroy hc
  | hook => exact fun m hacts => absurd hacts id

/-- A guard that hits leaves nothing but lookups and the hook. -/
theorem libzeDestroy_spared_of_guard (hfs : isSnapshotName options.beName = false)
    (hguard : h.envActivatedPath = h.beDataset options.beName ∨
      h.envRunningPath = h.beDataset options.beName) (path : CStr) :
    Spared s (libzeDestroy host h options s).2 path := by
  intro c hc m _ _ _ hacts
  cases (libzeDestroy_issues host h options).since s _ hc with
  | lookup hc => exact not_actsOn_of_isLookup hc m hacts
  | pool hpassed _ =>
    obtain ⟨hactivated, hrunning⟩ := hpassed hfs
    obtain heq | heq := hguard
    · exact hactivated heq
    · exact hrunning heq
  | hook => exact hacts

end Destroy

/-! ## Rename -/

section Rename
variable {host : Host} {h : Handle} {be newBe : CStr} {s : Sys}

theorem libzeRename_reaches :
    ∀ e ∈ since s (libzeRename host h be newBe s).2, Reaches h be e.1 := by
  rintro ⟨c, code⟩ he
  cases libzeRename_issues.since s _ he with
  | lookup hc => exact fun m hacts => absurd hacts (not_actsOn_of_isLookup hc m)
  | root => exact fun m hacts _ => .inl hacts
  | boot hbp => exact fun m hacts _ => .inr ⟨_, hbp, hacts⟩
  | hook => exact fun m hacts => absurd hacts id

/-- A rename that is refused by a check only looks. -/
theorem libzeRename_spared_of_refused (hno : ¬ Renamable h s be newBe) (path : CStr) :
    Spared s (libzeRename host h be newBe s).2 path := by
  rcases hr : libzeRename host h be newBe s with ⟨r, t⟩
  cases renameBe hr with
  | refused _ ht =>
    obtain ⟨new, htrace, hlook⟩ := ht.trace
    refine spared_of_lookups ?_ path
    rwa [since_of_trace htrace]
  | rootFailed hbe => exact absurd hbe hno
  | rootRenamed hbe => exact absurd hbe hno

end Rename

/-! ## Unmount -/

section Unmount
variable {host : Host} {h : Handle} {be : CStr} {s : Sys}

/-- The two trees `libze_unmount` goes through. -/
def InTrees (h : Handle) (be n : CStr) : Prop :=
  AtOrBelow (h.beDataset be) n ∨ ∃ bp ∈ h.bootpool, AtOrBelow (bp.beDataset be) n

theorem unmountBootDataset_issues :
    Issues host (MayUnmount (InTrees h be)) (unmountBootDataset host (h.bpoolDataset be)) := by
  have herr : ∀ (err : LibzeError) (message : CStr), Issues host (MayUnmount (InTrees h be))
      (libzeErrorSet err message >>= fun e => pure e) := fun err message =>
    moves_bind (issues_errorSet err message) fun _ => moves_pure _
  unfold unmountBootDataset
  refine moves_ite (fun _ => moves_pure _) (fun hne => ?_)
  cases hbp : h.bootpool with
  | none => exact absurd (bpoolDataset_none hbp be) hne
  | some bp =>
    rw [bpoolDataset_some hbp]
    refine moves_bind moves_get fun _ => moves_ite (fun _ => herr _ _) (fun _ => ?_)
    refine moves_bind (runUnmountCallback_issues fun n hn => .inr ⟨bp, hbp, hn⟩) fun c => ?_
    exact moves_ite (fun _ => herr _ _) (fun _ => moves_pure _)

theorem libzeUnmount_issues :
    Issues host (MayUnmount (InTrees h be)) (libzeUnmount host h be) := by
  have herr : ∀ (err : LibzeError) (message : CStr), Issues host (MayUnmount (InTrees h be))
      (libzeErrorSet err message >>= fun e => pure e) := fun err message =>
    moves_bind (issues_errorSet err message) fun _ => moves_pure _
  unfold libzeUnmount
  refine moves_ite (fun _ => herr _ _) (fun _ => ?_)
  refine moves_bind_of ((openBootEnvironment_issues host h be).weaken
    fun c => mayUnmount_of_isLookup) fun s => ?_
  rcases hopen : openBootEnvironment host h be s with ⟨⟨ret, ds, bds⟩, s1⟩
  refine moves_ite (fun _ => moves_bind (issues_errorPrepend _ _) fun _ => moves_pure _)
    (fun hret => ?_) s1
  rw [not_not.mp hret] at hopen
  obtain ⟨rfl, rfl, -, -⟩ := openBootEnvironment_success hopen
  refine moves_bind moves_get fun _ => moves_ite (fun _ => herr _ _) (fun _ => ?_)
  refine moves_bind unmountBootDataset_issues fun ret => ?_
  refine moves_ite (fun _ => moves_pure _) (fun _ => ?_)
  refine moves_bind (runUnmountCallback_issues fun n => .inl) fun c => ?_
  exact moves_ite (fun _ => moves_bind moves_get fun _ => moves_pure _) (fun _ => moves_pure _)

theorem libzeUnmount_reaches :
    ∀ e ∈ since s (libzeUnmount host h be s).2, Reaches h be e.1 := by
  rintro ⟨c, code⟩ he m hacts _
  have hmay := libzeUnmount_issues.since s _ he
  match c, hmay, hacts with
  | .zfs (.unmount n), hmay, hacts => exact hacts ▸ hmay

theorem libzeUnmount_spared_of_root (hroot : libzeIsRootBe h be = true) (path : CStr) :
    Spared s (libzeUnmount host h be s).2 path := by
  refine spared_of_lookups ?_ path
  rw [libzeUnmount, if_pos hroot]
  have htrace : since s (libzeErrorSet .unknown (format [
      "Cannot umount root boot environment (", be, ").\n"]) s).2 = [] := since_of_trace rfl
  intro e he
  have hnone : e ∈ ([] : List (Call × Nat)) := htrace ▸ he
  cases hnone

end Unmount

/-- Where the trees are apart or the guards hit, the operations spare both trees. -/
theorem guarded_of_separate {h : Handle} {be : CStr} (hfs : isSnapshotName be = false)
    (hsep : Separate h be) : Guarded h be where
  destroy := by
    rintro host s options rfl hopen
    obtain hguard | hguard | ⟨hrunning, hactivated⟩ := hsep.destroy
    · exact ⟨libzeDestroy_spared_of_guard hfs (.inl hguard) _,
        libzeDestroy_spared_of_guard hfs (.inl hguard) _⟩
    · exact ⟨libzeDestroy_spared_of_guard hfs (.inr hguard) _,
        libzeDestroy_spared_of_guard hfs (.inr hguard) _⟩
    · exact ⟨spared_of_apart libzeDestroy_reaches hrunning,
        spared_of_apart libzeDestroy_reaches hactivated⟩
  rename := by
    intro host s newBe hopen
    have hrefused : ¬ Renamable h s be newBe →
        Spared s (libzeRename host h be newBe s).2 h.envRunningPath ∧
          Spared s (libzeRename host h be newBe s).2 h.envActivatedPath := fun hno =>
      ⟨libzeRename_spared_of_refused hno _, libzeRename_spared_of_refused hno _⟩
    obtain hroot | hactive | ⟨bp, hbp, heq⟩ | ⟨hrunning, hactivated⟩ := hsep.rename
    · refine hrefused fun hbe => ?_
      rw [hbe.notRunning] at hroot
      cases hroot
    · refine hrefused fun hbe => ?_
      rw [hbe.notActivated] at hactive
      cases hactive
    · refine hrefused fun hbe => ?_
      have hmounted := hbe.bootUnmounted bp hbp
      rw [heq, hopen.mounted] at hmounted
      cases hmounted
    · exact ⟨spared_of_apart libzeRename_reaches hrunning,
        spared_of_apart libzeRename_reaches hactivated⟩
  unmount := by
    intro host s _
    obtain hroot | hapart := hsep.unmount
    · exact libzeUnmount_spared_of_root hroot _
    · exact spared_of_apart libzeUnmount_reaches hapart

end Zectl.Libze.Guards
