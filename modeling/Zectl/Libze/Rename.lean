import Zectl.Libze.Validate

/-!
# Renaming a boot environment

`libze_rename` renames the root dataset and then the boot dataset. A failure of the
second is not undone, and a plugin's result replaces it.
-/

namespace Zectl.Libze.Rename

open Zectl.Lib.StateRun Zectl.Util.CString Zectl.Zfs.System Zectl.Zfs.Steps Zectl.Libze.Init
open Zectl.Libze.Validate

/-- The boot pool part of `libze_rename`. -/
def renameBootDataset (host : Host) (be beBpoolDs newBeBpoolDs : CStr) : Libze LibzeError := do
  if beBpoolDs ≠ [] then
    if (← call host (.zfs (.rename beBpoolDs newBeBpoolDs))) ≠ 0 then
      return ← libzeErrorSet .unknown (format ["Rename of boot environment (", be,
        ") on bootpool failed.\n"])
  return .success

/-- `libze_rename` -/
def libzeRename (host : Host) (h : Handle) (be newBe : CStr) : Libze LibzeError := do
  let (ret, newBeDs, newBeBpoolDs) ← validateNewBe h newBe
  if ret ≠ .success then
    return ← libzeErrorPrepend ret (format ["Failed to validate new boot environment (", newBe,
      ")!\n"])
  let (ret, beDs, beBpoolDs) ← openBootEnvironment host h be
  if ret ≠ .success then
    return ← libzeErrorPrepend ret (format ["Failed to open boot environment (", be,
      ") for renaming.\n"])
  if libzeIsRootBe h be then
    return ← libzeErrorSet .unknown (format ["Can't rename running boot environment (", be,
      ").\n"])
  if libzeIsActiveBe h be then
    return ← libzeErrorSet .unknown (format ["Can't rename active boot environment (", be,
      ").\n"])
  if (← get).isMounted beDs then
    return ← libzeErrorSet .unknown (format ["Dataset (", be, ") is mounted, cannot rename.\n"])
  if beBpoolDs ≠ [] ∧ (← get).isMounted beBpoolDs then
    return ← libzeErrorSet .unknown (format ["Dataset on bootpool (", newBeBpoolDs,
      ") is mounted, cannot rename.\n"])
  if (← call host (.zfs (.rename beDs newBeDs))) ≠ 0 then
    return ← libzeErrorSet .unknown (format ["Rename of boot environment (", be, ") failed.\n"])
  let ret ← renameBootDataset host be beBpoolDs newBeBpoolDs
  if h.lzFuncs then
    return .ofCode (← call host (.hook (.postRename be newBe)))
  return ret

/-! ## The calls of a rename -/

/-- What `libze_rename` may call. -/
inductive RenameCall (h : Handle) (be newBe : CStr) : Call → Prop
  | lookup {c : Call} (hc : IsLookup c) : RenameCall h be newBe c
  | root : RenameCall h be newBe (.zfs (.rename (h.beDataset be) (h.beDataset newBe)))
  | boot {bp : Bootpool} (hbp : h.bootpool = some bp) :
      RenameCall h be newBe (.zfs (.rename (bp.beDataset be) (bp.beDataset newBe)))
  | hook : RenameCall h be newBe (.hook (.postRename be newBe))

section Calls
variable {host : Host} {h : Handle} {be newBe : CStr}

theorem renameBootDataset_issues :
    Issues host (RenameCall h be newBe)
      (renameBootDataset host be (h.bpoolDataset be) (h.bpoolDataset newBe)) := by
  unfold renameBootDataset
  refine moves_ite (fun hne => ?_) (fun _ => moves_pure _)
  cases hbp : h.bootpool with
  | none => exact absurd (bpoolDataset_none hbp be) hne
  | some bp =>
    rw [bpoolDataset_some hbp, bpoolDataset_some hbp]
    refine moves_bind (issues_call (.boot hbp)) fun code => ?_
    exact moves_ite (fun _ => moves_bind (issues_errorSet _ _) fun _ => moves_pure _)
      (fun _ => moves_pure _)

theorem libzeRename_issues :
    Issues host (RenameCall h be newBe) (libzeRename host h be newBe) := by
  have herr : ∀ (err : LibzeError) (message : CStr), Issues host (RenameCall h be newBe)
      (libzeErrorSet err message >>= fun e => pure e) := fun err message =>
    moves_bind (issues_errorSet err message) fun _ => moves_pure _
  have hprepend : ∀ (err : LibzeError) (message : CStr), Issues host (RenameCall h be newBe)
      (libzeErrorPrepend err message >>= fun e => pure e) := fun err message =>
    moves_bind (issues_errorPrepend err message) fun _ => moves_pure _
  unfold libzeRename
  refine moves_bind_of ((validateNewBe_issues host h newBe).weaken fun c => .lookup) fun s => ?_
  rcases hnew : validateNewBe h newBe s with ⟨⟨ret, newDs, newBds⟩, s1⟩
  refine moves_ite (fun _ => hprepend _ _) (fun hret => ?_) s1
  rw [not_not.mp hret] at hnew
  obtain ⟨rfl, rfl, -, -⟩ := validateNewBe_success hnew
  refine moves_bind_of ((openBootEnvironment_issues host h be).weaken fun c => .lookup) fun s => ?_
  rcases hopen : openBootEnvironment host h be s with ⟨⟨ret', ds, bds⟩, s2⟩
  refine moves_ite (fun _ => hprepend _ _) (fun hret' => ?_) s2
  rw [not_not.mp hret'] at hopen
  obtain ⟨rfl, rfl, -, -⟩ := openBootEnvironment_success hopen
  refine moves_ite (fun _ => herr _ _) (fun _ => ?_)
  refine moves_ite (fun _ => herr _ _) (fun _ => ?_)
  refine moves_bind moves_get fun _ => moves_ite (fun _ => herr _ _) (fun _ => ?_)
  refine moves_bind moves_get fun _ => moves_ite (fun _ => herr _ _) (fun _ => ?_)
  refine moves_bind (issues_call .root) fun code => moves_ite (fun _ => herr _ _) (fun _ => ?_)
  refine moves_bind renameBootDataset_issues fun ret => ?_
  refine moves_ite (fun _ => ?_) (fun _ => moves_pure _)
  exact moves_bind (issues_call .hook) fun _ => moves_pure _

end Calls

/-! ## The ends of a run -/

/-- What the checks of `libze_rename` establish. -/
structure Renamable (h : Handle) (s : Sys) (be newBe : CStr) : Prop where
  fits : Fits h be
  exist : Exists h s be
  newFits : Fits h newBe
  absent : Absent h s newBe
  notRunning : libzeIsRootBe h be = false
  notActivated : libzeIsActiveBe h be = false
  rootUnmounted : s.isMounted (h.beDataset be) = false
  bootUnmounted : ∀ bp ∈ h.bootpool, s.isMounted (bp.beDataset be) = false

/-- How a run of `libze_rename` can end. -/
inductive RenameBe (host : Host) (h : Handle) (be newBe : CStr) (s : Sys) :
    LibzeError → Sys → Prop
  | refused {r : LibzeError} {t : Sys} (hr : r ≠ .success) (ht : Looked s t) :
      RenameBe host h be newBe s r t
  | rootFailed {r : LibzeError} {code : Nat} {s1 s2 t : Sys} (hbe : Renamable h s be newBe)
      (hs : Looked s s1)
      (hroot : call host (.zfs (.rename (h.beDataset be) (h.beDataset newBe))) s1 = (code, s2))
      (hcode : code ≠ 0) (hr : r ≠ .success) (ht : Looked s2 t) : RenameBe host h be newBe s r t
  | rootRenamed {r r' : LibzeError} {s1 s2 s3 t : Sys} (hbe : Renamable h s be newBe)
      (hs : Looked s s1)
      (hroot : call host (.zfs (.rename (h.beDataset be) (h.beDataset newBe))) s1 = (0, s2))
      (hboot : renameBootDataset host be (h.bpoolDataset be) (h.bpoolDataset newBe) s2 = (r', s3))
      (hpost : (h.lzFuncs = false ∧ r = r' ∧ t = s3) ∨ ∃ code, h.lzFuncs = true ∧
        call host (.hook (.postRename be newBe)) s3 = (code, t) ∧ r = .ofCode code) :
      RenameBe host h be newBe s r t

theorem isMounted_of_same {s t : Sys} (h : SamePools s t) (name : CStr) :
    t.isMounted name = s.isMounted name := by
  rw [Sys.isMounted, h.find, Sys.isMounted]

/-- What the boot pool part of a rename does. -/
theorem renameBootDataset_cases {host : Host} {h : Handle} {be newBe : CStr} {s t : Sys}
    {r : LibzeError}
    (hr : renameBootDataset host be (h.bpoolDataset be) (h.bpoolDataset newBe) s = (r, t)) :
    (h.bootpool = none ∧ t = s) ∨ ∃ bp code u, h.bootpool = some bp ∧
      call host (.zfs (.rename (bp.beDataset be) (bp.beDataset newBe))) s = (code, u) ∧
      Looked u t := by
  unfold renameBootDataset at hr
  cases hbp : h.bootpool with
  | none =>
    rw [bpoolDataset_none hbp, if_neg (by simp)] at hr
    cases hr
    exact .inl ⟨rfl, rfl⟩
  | some bp =>
    rw [bpoolDataset_some hbp, bpoolDataset_some hbp, if_pos (bootBeDataset_ne_nil bp be)] at hr
    obtain ⟨code, u, hcall, hr⟩ := bind_run hr
    refine .inr ⟨bp, code, u, rfl, hcall, ?_⟩
    split at hr
    · cases hr
      exact (Looked.refl _).error _ _
    · cases hr
      exact .refl _

theorem renameBe {host : Host} {h : Handle} {be newBe : CStr} {s t : Sys} {r : LibzeError}
    (hr : libzeRename host h be newBe s = (r, t)) : RenameBe host h be newBe s r t := by
  unfold libzeRename at hr
  obtain ⟨⟨ret, newDs, newBds⟩, s1, hnew, hr⟩ := bind_run hr
  have hs1 : Looked s s1 := (validateNewBe_issues host h newBe).looked hnew
  dsimp only at hr
  split at hr
  · rename_i hret
    cases hr
    exact .refused hret (hs1.error _ _)
  rename_i hret
  rw [not_not.mp hret] at hnew
  obtain ⟨rfl, rfl, hnewFits, habsent⟩ := validateNewBe_success hnew
  obtain ⟨⟨ret', ds, bds⟩, s2, hopen, hr⟩ := bind_run hr
  have hs2 : Looked s s2 := hs1.trans ((openBootEnvironment_issues host h be).looked hopen)
  dsimp only at hr
  split at hr
  · rename_i hret'
    cases hr
    exact .refused hret' (hs2.error _ _)
  rename_i hret'
  rw [not_not.mp hret'] at hopen
  obtain ⟨rfl, rfl, hfits, hexist⟩ := openBootEnvironment_success hopen
  split at hr
  · cases hr
    exact .refused (by decide) (hs2.error _ _)
  rename_i hrunning
  split at hr
  · cases hr
    exact .refused (by decide) (hs2.error _ _)
  rename_i hactive
  rw [run_get_bind] at hr
  split at hr
  · cases hr
    exact .refused (by decide) (hs2.error _ _)
  rename_i hmounted
  rw [run_get_bind] at hr
  split at hr
  · cases hr
    exact .refused (by decide) (hs2.error _ _)
  rename_i hmounted'
  have hbe : Renamable h s be newBe := by
    refine ⟨hfits, hexist.of_same hs1.same, hnewFits, habsent, by simpa using hrunning,
      by simpa using hactive, ?_, fun bp hbp => ?_⟩
    · rw [← isMounted_of_same hs2.same]
      simpa using hmounted
    · rw [bpoolDataset_some hbp] at hmounted'
      rw [← isMounted_of_same hs2.same]
      simpa [bootBeDataset_ne_nil bp be] using hmounted'
  obtain ⟨code, s3, hroot, hr⟩ := bind_run hr
  split at hr
  · rename_i hcode
    cases hr
    exact .rootFailed hbe hs2 hroot hcode (by decide) ((Looked.refl s3).error _ _)
  rename_i hcode
  rw [not_not.mp hcode] at hroot
  obtain ⟨r', s4, hboot, hr⟩ := bind_run hr
  split at hr
  · rename_i hfuncs
    obtain ⟨code', s5, hpost, hr⟩ := bind_run hr
    cases hr
    exact .rootRenamed hbe hs2 hroot hboot (.inr ⟨code', hfuncs, hpost, rfl⟩)
  · rename_i hfuncs
    cases hr
    exact .rootRenamed hbe hs2 hroot hboot (.inl ⟨by simpa using hfuncs, rfl, rfl⟩)

end Zectl.Libze.Rename
