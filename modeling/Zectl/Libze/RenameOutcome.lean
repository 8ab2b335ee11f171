import Zectl.Libze.Rename
import Zectl.Libze.Sample

/-!
# What a successful rename has done

The result of the plugin's hook replaces that of the boot pool, so a hook that succeeds hides
that the boot pool has kept the old name.
-/

namespace Zectl.Libze.RenameOutcome

open Zectl.Lib.StateRun Zectl.Util.CString Zectl.Zfs.System Zectl.Zfs.Steps Zectl.Libze.Init
open Zectl.Libze.Sample Zectl.Libze.Validate Zectl.Libze.Rename

section Stages
variable (host : Host) (h : Handle) (be newBe : CStr)

/-- Both names are validated and the environment may be renamed. -/
def Checked (s t : Sys) : Prop :=
  ∃ s1, validateNewBe h newBe s =
      ((.success, h.beDataset newBe, h.bpoolDataset newBe), s1) ∧
    openBootEnvironment host h be s1 = ((.success, h.beDataset be, h.bpoolDataset be), t) ∧
    libzeIsRootBe h be = false ∧ libzeIsActiveBe h be = false ∧
    t.isMounted (h.beDataset be) = false ∧
    ¬ (h.bpoolDataset be ≠ [] ∧ t.isMounted (h.bpoolDataset be) = true)

def RootRenamed (s t : Sys) : Prop :=
  ∃ s2, Checked host h be newBe s s2 ∧
    call host (.zfs (.rename (h.beDataset be) (h.beDataset newBe))) s2 = (0, t)

/-- The boot pool, when there is one, grants its rename. -/
def BootGranted (s : Sys) : Prop :=
  ∀ bp ∈ h.bootpool, host.answer s (.zfs (.rename (bp.beDataset be) (bp.beDataset newBe))) = 0

/-- The hook, when there is one, succeeds behind the rename on the boot pool. -/
def HookGranted (s : Sys) : Prop :=
  h.lzFuncs = true → host.answer
    (renameBootDataset host be (h.bpoolDataset be) (h.bpoolDataset newBe) s).2
    (.hook (.postRename be newBe)) = 0

/-- Every effect of a rename has succeeded. -/
def Renamed (s : Sys) : Prop :=
  ∃ t, RootRenamed host h be newBe s t ∧ BootGranted host h be newBe t ∧
    HookGranted host h be newBe t

end Stages

section Outcome
variable {host : Host} {h : Handle} {be newBe : CStr} {s t : Sys}

/-- What the boot pool part returns. -/
theorem renameBootDataset_success_iff :
    (renameBootDataset host be (h.bpoolDataset be) (h.bpoolDataset newBe) s).1 = .success ↔
      BootGranted host h be newBe s := by
  unfold renameBootDataset BootGranted
  cases hbp : h.bootpool with
  | none =>
    rw [bpoolDataset_none hbp, if_neg (by simp)]
    exact iff_of_true rfl (by simp)
  | some bp =>
    rw [bpoolDataset_some hbp, bpoolDataset_some hbp, if_pos (bootBeDataset_ne_nil bp be)]
    by_cases hgrant : host.answer s (.zfs (.rename (bp.beDataset be) (bp.beDataset newBe))) = 0
    · rw [run_bind, call_granted hgrant]
      exact iff_of_true rfl (by simpa using hgrant)
    · apply iff_of_false
      · rw [run_bind]
        have hcode : (call host (.zfs (.rename (bp.beDataset be) (bp.beDataset newBe))) s).1 ≠ 0 :=
          hgrant
        rw [if_pos hcode]
        intro hr
        cases hr
      · simpa using hgrant

/-- A rename that stops before the boot pool returns an error. -/
theorem libzeRename_cases :
    ((libzeRename host h be newBe s).1 ≠ .success ∧ ∀ t, ¬ RootRenamed host h be newBe s t) ∨
    ∃ t, RootRenamed host h be newBe s t ∧ (libzeRename host h be newBe s).1 =
      if h.lzFuncs then .ofCode (host.answer
        (renameBootDataset host be (h.bpoolDataset be) (h.bpoolDataset newBe) t).2
        (.hook (.postRename be newBe)))
      else (renameBootDataset host be (h.bpoolDataset be) (h.bpoolDataset newBe) t).1 := by
  unfold libzeRename
  rcases hnew : validateNewBe h newBe s with ⟨⟨ret, newDs, newBds⟩, s1⟩
  rw [run_bind, hnew]
  dsimp only
  by_cases hret : ret = .success
  swap
  · apply Or.inl
    rw [if_pos hret]
    constructor
    · exact hret
    · rintro t ⟨s2, ⟨s1', hnew', -⟩, -⟩
      rw [hnew] at hnew'
      cases hnew'
      exact hret rfl
  subst hret
  obtain ⟨rfl, rfl, -, -⟩ := validateNewBe_success hnew
  rw [if_neg (by simp)]
  rcases hopen : openBootEnvironment host h be s1 with ⟨⟨ret, ds, bds⟩, s2⟩
  rw [run_bind, hopen]
  dsimp only
  have honly : ∀ {t : Sys}, RootRenamed host h be newBe s t →
      (ret, ds, bds) = (.success, h.beDataset be, h.bpoolDataset be) ∧
        libzeIsRootBe h be = false ∧ libzeIsActiveBe h be = false ∧
        s2.isMounted (h.beDataset be) = false ∧
        ¬ (h.bpoolDataset be ≠ [] ∧ s2.isMounted (h.bpoolDataset be) = true) ∧
        call host (.zfs (.rename (h.beDataset be) (h.beDataset newBe))) s2 = (0, t) := by
    rintro t ⟨s2', ⟨s1', hnew', hopen', hroot, hactive, hmounted, hboot⟩, hcall⟩
    obtain ⟨-, rfl⟩ := Prod.mk.inj (hnew.symm.trans hnew')
    obtain ⟨heq, rfl⟩ := Prod.mk.inj (hopen.symm.trans hopen')
    exact ⟨heq, hroot, hactive, hmounted, hboot, hcall⟩
  by_cases hret : ret = .success
  swap
  · apply Or.inl
    rw [if_pos hret]
    constructor
    · exact hret
    · intro t ht
      exact hret (Prod.mk.inj (honly ht).1).1
  subst hret
  obtain ⟨rfl, rfl, -, -⟩ := openBootEnvironment_success hopen
  rw [if_neg (by simp)]
  by_cases hroot : libzeIsRootBe h be = true
  · apply Or.inl
    rw [if_pos hroot]
    exact ⟨LibzeError.noConfusion, fun t ht => by simp [(honly ht).2.1] at hroot⟩
  rw [if_neg hroot]
  by_cases hactive : libzeIsActiveBe h be = true
  · apply Or.inl
    rw [if_pos hactive]
    exact ⟨LibzeError.noConfusion, fun t ht => by simp [(honly ht).2.2.1] at hactive⟩
  rw [if_neg hactive, run_get_bind]
  by_cases hmounted : s2.isMounted (h.beDataset be) = true
  · apply Or.inl
    rw [if_pos hmounted]
    exact ⟨LibzeError.noConfusion, fun t ht => by simp [(honly ht).2.2.2.1] at hmounted⟩
  rw [if_neg hmounted, run_get_bind]
  by_cases hboot : h.bpoolDataset be ≠ [] ∧ s2.isMounted (h.bpoolDataset be) = true
  · apply Or.inl
    rw [if_pos hboot]
    exact ⟨LibzeError.noConfusion, fun t ht => (honly ht).2.2.2.2.1 hboot⟩
  rw [if_neg hboot, run_bind]
  rcases hcall : call host (.zfs (.rename (h.beDataset be) (h.beDataset newBe))) s2 with ⟨code, s3⟩
  dsimp only
  by_cases hcode : code = 0
  swap
  · apply Or.inl
    rw [if_pos hcode]
    constructor
    · exact LibzeError.noConfusion
    · intro t ht
      have hzero := hcall.symm.trans (honly ht).2.2.2.2.2
      exact hcode (Prod.mk.inj hzero).1
  subst hcode
  rw [if_neg (by simp), run_bind]
  refine .inr ⟨s3, ⟨s2, ⟨s1, hnew, hopen, by simpa using hroot, by simpa using hactive,
    by simpa using hmounted, hboot⟩, hcall⟩, ?_⟩
  cases hfuncs : h.lzFuncs with
  | false => rfl
  | true => rfl

theorem rootRenamed_unique {t' : Sys} (ht : RootRenamed host h be newBe s t)
    (ht' : RootRenamed host h be newBe s t') : t = t' := by
  obtain ⟨s2, ⟨s1, hnew, hopen, -⟩, hcall⟩ := ht
  obtain ⟨s2', ⟨s1', hnew', hopen', -⟩, hcall'⟩ := ht'
  obtain ⟨-, rfl⟩ := Prod.mk.inj (hnew.symm.trans hnew')
  obtain ⟨-, rfl⟩ := Prod.mk.inj (hopen.symm.trans hopen')
  exact (Prod.mk.inj (hcall.symm.trans hcall')).2

theorem ofCode_success_iff {code : Nat} : LibzeError.ofCode code = .success ↔ code = 0 := by
  constructor
  · intro heq
    by_contra hne
    exact ofCode_ne_success hne heq
  · rintro rfl
    rfl

theorem refusing_self {c : Call} (s : Sys) : (refusing c).answer s c ≠ 0 := by
  simp [refusing, plainHost]

end Outcome

/-- A success means that every effect has succeeded exactly when no hook succeeds behind a
boot pool that has refused the rename. -/
theorem success_renamed_iff (host : Host) (h : Handle) (be newBe : CStr) (s : Sys) :
    ((libzeRename host h be newBe s).1 = .success → Renamed host h be newBe s) ↔
      ∀ t, RootRenamed host h be newBe s t → h.lzFuncs = false ∨ BootGranted host h be newBe t ∨
        ¬ HookGranted host h be newBe t := by
  obtain ⟨herr, hno⟩ | ⟨t, ht, hret⟩ := @libzeRename_cases host h be newBe s
  · exact iff_of_true (fun hr => absurd hr herr) fun t ht => absurd ht (hno t)
  constructor
  · intro hall t' ht'
    obtain rfl := rootRenamed_unique ht ht'
    cases hfuncs : h.lzFuncs with
    | false => exact .inl rfl
    | true =>
      apply Or.inr
      by_cases hhook : HookGranted host h be newBe t
      swap
      · exact .inr hhook
      rw [hret, if_pos hfuncs, ofCode_success_iff] at hall
      obtain ⟨t', ht', hboot, -⟩ := hall (hhook hfuncs)
      obtain rfl := rootRenamed_unique ht ht'
      exact .inl hboot
  · intro hcond hr
    rw [hret] at hr
    obtain hfuncs | hboot | hhook := hcond t ht
    · rw [hfuncs, if_neg (by simp), renameBootDataset_success_iff] at hr
      exact ⟨t, ht, hr, fun htrue => by simp [hfuncs] at htrue⟩
    · refine ⟨t, ht, hboot, fun hfuncs => ?_⟩
      rwa [if_pos hfuncs, ofCode_success_iff] at hr
    · apply absurd _ hhook
      intro hfuncs
      rwa [if_pos hfuncs, ofCode_success_iff] at hr

/-- The boot pool refuses, the hook succeeds, and so does the rename. -/
theorem not_renamed_behind_hook :
    ¬ ∀ (host : Host) (h : Handle) (be newBe : CStr) (s : Sys),
      (libzeRename host h be newBe s).1 = .success → Renamed host h be newBe s := by
  intro hall
  let h := sampleHandle (some sampleBootpool) true
  let host := refusing (.zfs (.rename "bpool/boot/b" "bpool/boot/c"))
  obtain ⟨t, -, hboot, -⟩ := hall host h "b" "c" (sampleSys []) (by decide +kernel)
  have hgranted := hboot sampleBootpool rfl
  exact refusing_self t hgranted

end Zectl.Libze.RenameOutcome
