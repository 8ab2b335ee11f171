import Zectl.Libze.Mount
import Zectl.Libze.Sample
import Zectl.Lib.Visit

/-!
# Activating a boot environment

`libze_activate` runs the pre and mid hooks, sets `bootfs`, sets `canmount` and promotes
on both pools, and runs the post hook. There is one return variable and no rollback: a
mid or post step that fails jumps to the cleanup with the variable as it is.
-/

namespace Zectl.Libze.Activate

open Zectl.Lib.StateRun Zectl.Lib.Visit Zectl.Util.CString Zectl.Zfs.System Zectl.Zfs.Steps
open Zectl.Zfs.Forest Zectl.Libze.Init Zectl.Libze.Sample Zectl.Libze.Validate Zectl.Libze.Mount

/-- `libze_activate_cb`, to a bounded depth. It goes on to the children of clones only. -/
def libzeActivateCb (host : Host) : Nat → CStr → Libze Int
  | 0, _ => return -1
  | depth + 1, zhdl => do
    if (← call host (.zfs (.propSet zhdl .canmount "noauto"))) ≠ 0 then
      return (← libzeErrorSet .unknown (format ["Failed setting canmount=noauto for ", zhdl,
        "\n"])).code
    let (r, _) ← zfsPropGet host zhdl .origin
    if r ≠ 0 then return 0
    if (← call host (.zfs (.promote zhdl))) ≠ 0 then
      return (← libzeErrorSet .unknown (format ["Failed promoting ", zhdl, "\n"])).code
    let r ← visit (fun _ _ => true) (libzeActivateCb host depth) (childFilesystems (← get) zhdl)
    if r ≠ 0 then return -1
    return 0

def runActivateCb (host : Host) (zhdl : CStr) : Libze Int := do
  libzeActivateCb host (recursionDepth (← get)) zhdl

/-- The pre hook of `libze_activate`. -/
def preActivate (host : Host) (h : Handle) : Libze Nat :=
  if h.lzFuncs then call host (.hook .preActivate) else return 0

/-- `mid_activate` -/
def midActivate (host : Host) (h : Handle) (beName beZh : CStr) : Libze LibzeError := do
  if h.lzFuncs then
    return ← hookInMount host h beName beZh (.midActivate beName) "Failed to run mid-activate hook\n"
  if libzeIsRootBe h beZh then return .success
  tempUnmountBe host "/" beZh

/-- The boot pool part of `libze_activate`. -/
def activateBootDataset (host : Host) (beName beBpoolZh : CStr) : Libze LibzeError := do
  if beBpoolZh = [] then return .success
  if (← runActivateCb host beBpoolZh) ≠ 0 then
    return ← libzeErrorSet .unknown (format [
      "Failed to activate the requested boot environment on bootpool (", beName, ").\n"])
  return .success

/-- The post hook of `libze_activate`. -/
def postActivate (host : Host) (h : Handle) (beName : CStr) : Libze Nat :=
  if h.lzFuncs then call host (.hook (.postActivate beName)) else return 0

/-- `libze_activate` -/
def libzeActivate (host : Host) (h : Handle) (beName : CStr) : Libze LibzeError := do
  let (ret, beDs, beBpoolDs) ← openBootEnvironment host h beName
  if ret ≠ .success then
    return ← libzeErrorPrepend ret (format ["Failed to open boot environment (", beName,
      ") for activation!\n"])
  if (← preActivate host h) ≠ 0 then return .plugin
  -- the jump leaves the return variable at success
  if (← midActivate host h beName beDs) ≠ .success then return .success
  if (← call host (.zfs (.setBootfs beDs))) ≠ 0 then
    return ← libzeErrorSet .unknown (format ["Failed to set the pool property 'bootfs=", beDs,
      "'.\n"])
  if (← runActivateCb host beDs) ≠ 0 then return .unknown
  let ret ← activateBootDataset host beName beBpoolDs
  let _ ← postActivate host h beName
  return ret

/-! ## The stages of a run -/

section Stages
variable (host : Host) (h : Handle) (be : CStr)

/-- The environment is open, on both pools. -/
def BeOpened (s s1 : Sys) : Prop :=
  openBootEnvironment host h be s = ((.success, h.beDataset be, h.bpoolDataset be), s1)

def PreDone (s s2 : Sys) : Prop :=
  ∃ s1, BeOpened host h be s s1 ∧ preActivate host h s1 = (0, s2)

def MidDone (s s3 : Sys) : Prop :=
  ∃ s2, PreDone host h be s s2 ∧ midActivate host h be (h.beDataset be) s2 = (.success, s3)

def BootfsSet (s s4 : Sys) : Prop :=
  ∃ s3, MidDone host h be s s3 ∧ call host (.zfs (.setBootfs (h.beDataset be))) s3 = (0, s4)

/-- The pass over the root pool is done. -/
def RootDone (s s5 : Sys) : Prop :=
  ∃ s4, BootfsSet host h be s s4 ∧ runActivateCb host (h.beDataset be) s4 = (0, s5)

/-- The passes over both pools are done. -/
def PassesDone (s s6 : Sys) : Prop :=
  ∃ s5, RootDone host h be s s5 ∧
    activateBootDataset host be (h.bpoolDataset be) s5 = (.success, s6)

/-- Every step has succeeded. -/
def Activated (s t : Sys) : Prop :=
  ∃ s6, PassesDone host h be s s6 ∧ postActivate host h be s6 = (0, t)

/-- The mid step fails in the run from `s`. -/
def MidFails (s : Sys) : Prop :=
  ∃ s2 r t, PreDone host h be s s2 ∧ midActivate host h be (h.beDataset be) s2 = (r, t) ∧
    r ≠ .success

/-- The post hook fails in the run from `s`. -/
def PostFails (s : Sys) : Prop :=
  ∃ s6 code t, PassesDone host h be s s6 ∧ postActivate host h be s6 = (code, t) ∧ code ≠ 0

/-- The pass over the root pool or over the boot pool fails in the run from `s`. -/
def PassFails (s : Sys) : Prop :=
  (∃ s4 c t, BootfsSet host h be s s4 ∧ runActivateCb host (h.beDataset be) s4 = (c, t) ∧ c ≠ 0) ∨
    ∃ s5 r t, RootDone host h be s s5 ∧
      activateBootDataset host be (h.bpoolDataset be) s5 = (r, t) ∧ r ≠ .success

end Stages

/-- How a run of `libze_activate` can end. -/
inductive ActivateBe (host : Host) (h : Handle) (be : CStr) (s : Sys) : LibzeError → Sys → Prop
  | refused {r : LibzeError} {t : Sys} (hr : r ≠ .success) (ht : Looked s t) :
      ActivateBe host h be s r t
  | preFailed {s1 t : Sys} {code : Nat} (hs : BeOpened host h be s s1)
      (hpre : preActivate host h s1 = (code, t)) (hcode : code ≠ 0) :
      ActivateBe host h be s .plugin t
  | midFailed {s2 t : Sys} {r : LibzeError} (hs : PreDone host h be s s2)
      (hmid : midActivate host h be (h.beDataset be) s2 = (r, t)) (hr : r ≠ .success) :
      ActivateBe host h be s .success t
  | bootfsFailed {s3 s4 t : Sys} {code : Nat} {r : LibzeError} (hs : MidDone host h be s s3)
      (hset : call host (.zfs (.setBootfs (h.beDataset be))) s3 = (code, s4)) (hcode : code ≠ 0)
      (hr : r ≠ .success) (ht : Looked s4 t) : ActivateBe host h be s r t
  | rootFailed {s4 t : Sys} {c : Int} (hs : BootfsSet host h be s s4)
      (hroot : runActivateCb host (h.beDataset be) s4 = (c, t)) (hc : c ≠ 0) :
      ActivateBe host h be s .unknown t
  | passed {s5 s6 t : Sys} {r : LibzeError} {code : Nat} (hs : RootDone host h be s s5)
      (hboot : activateBootDataset host be (h.bpoolDataset be) s5 = (r, s6))
      (hpost : postActivate host h be s6 = (code, t)) : ActivateBe host h be s r t

section Outcomes
variable {host : Host} {h : Handle} {be : CStr} {s t : Sys}

theorem activateBe {r : LibzeError} (hr : libzeActivate host h be s = (r, t)) :
    ActivateBe host h be s r t := by
  unfold libzeActivate at hr
  obtain ⟨⟨ret, ds, bds⟩, s1, hopen, hr⟩ := bind_run hr
  have hlook : Looked s s1 := (openBootEnvironment_issues host h be).looked hopen
  dsimp only at hr
  split at hr
  · rename_i hret
    cases hr
    exact .refused hret (hlook.error _ _)
  rename_i hret
  rw [not_not.mp hret] at hopen
  obtain ⟨rfl, rfl, -, -⟩ := openBootEnvironment_success hopen
  have hs1 : BeOpened host h be s s1 := hopen
  obtain ⟨code, s2, hpre, hr⟩ := bind_run hr
  split at hr
  · rename_i hcode
    cases hr
    exact .preFailed hs1 hpre hcode
  rename_i hcode
  rw [not_not.mp hcode] at hpre
  have hs2 : PreDone host h be s s2 := ⟨s1, hs1, hpre⟩
  obtain ⟨r2, s3, hmid, hr⟩ := bind_run hr
  split at hr
  · rename_i hr2
    cases hr
    exact .midFailed hs2 hmid hr2
  rename_i hr2
  rw [not_not.mp hr2] at hmid
  have hs3 : MidDone host h be s s3 := ⟨s2, hs2, hmid⟩
  obtain ⟨code, s4, hset, hr⟩ := bind_run hr
  split at hr
  · rename_i hcode
    cases hr
    exact .bootfsFailed hs3 hset hcode (by decide) ((Looked.refl _).error _ _)
  rename_i hcode
  rw [not_not.mp hcode] at hset
  have hs4 : BootfsSet host h be s s4 := ⟨s3, hs3, hset⟩
  obtain ⟨c, s5, hroot, hr⟩ := bind_run hr
  split at hr
  · rename_i hc
    cases hr
    exact .rootFailed hs4 hroot hc
  rename_i hc
  rw [not_not.mp hc] at hroot
  obtain ⟨r5, s6, hboot, hr⟩ := bind_run hr
  obtain ⟨code, s7, hpost, hr⟩ := bind_run hr
  cases hr
  exact .passed ⟨s4, hs4, hroot⟩ hboot hpost

/-! ## The pool property -/

/-- A call that leaves the pool's `bootfs` alone. -/
def KeepsBootfs (host : Host) (c : Call) : Prop := ∀ s, (c.effect host s).bootfs = s.bootfs

theorem bootfs_of_issues {α : Type} {m : Libze α} {a : α} (hm : Issues host (KeepsBootfs host) m)
    (hr : m s = (a, t)) : t.bootfs = s.bootfs := by
  have hkeep : (m s).2.bootfs = s.bootfs :=
    hm.keeps (fun u => u.bootfs = s.bootfs) (fun _ _ _ _ hu => hu)
      (fun u c hc _ hu => (hc u).trans hu) rfl
  rwa [hr] at hkeep

theorem preActivate_issues : Issues host (KeepsBootfs host) (preActivate host h) :=
  moves_ite (fun _ => issues_call fun _ => rfl) fun _ => moves_pure _

theorem postActivate_issues : Issues host (KeepsBootfs host) (postActivate host h be) :=
  moves_ite (fun _ => issues_call fun _ => rfl) fun _ => moves_pure _

theorem midActivate_issues (beZh : CStr) :
    Issues host (KeepsBootfs host) (midActivate host h be beZh) := by
  have hmount : ∀ c, MountCall beZh (.midActivate be) c → KeepsBootfs host c := by
    intro c hc u
    cases hc with
    | _ => rfl
  unfold midActivate
  refine moves_ite (fun _ => (hookInMount_issues _ _).weaken hmount) fun _ => ?_
  exact moves_ite (fun _ => moves_pure _) fun _ => (tempUnmountBe_issues _).weaken hmount

/-- What a pass over one pool may call. -/
inductive PassCall : Call → Prop
  | lookup {c : Call} (hc : IsLookup c) : PassCall c
  | set (name : CStr) (prop : ZfsProp) (value : CStr) : PassCall (.zfs (.propSet name prop value))
  | promote (name : CStr) : PassCall (.zfs (.promote name))

theorem libzeActivateCb_issues (depth : Nat) (zhdl : CStr) :
    Issues host PassCall (libzeActivateCb host depth zhdl) := by
  have herr : ∀ (err : LibzeError) (message : CStr), Issues host PassCall
      (libzeErrorSet err message >>= fun e => pure e.code) := fun err message =>
    moves_bind (issues_errorSet err message) fun _ => moves_pure _
  induction depth generalizing zhdl with
  | zero => exact moves_pure _
  | succ depth ih =>
    rw [libzeActivateCb]
    refine moves_bind (issues_call (.set _ _ _)) fun _ => moves_ite (fun _ => herr _ _) fun _ => ?_
    refine moves_bind (issues_zfsPropGet (.lookup trivial)) fun _ => ?_
    refine moves_ite (fun _ => moves_pure _) fun _ => ?_
    refine moves_bind (issues_call (.promote _)) fun _ => moves_ite (fun _ => herr _ _) fun _ => ?_
    refine moves_bind moves_get fun _ => moves_bind (moves_visit fun c _ => ih c) fun _ => ?_
    exact moves_ite (fun _ => moves_pure _) fun _ => moves_pure _

theorem PassCall.keepsBootfs {c : Call} (hc : PassCall c) : KeepsBootfs host c := by
  cases hc with
  | lookup hc => exact fun s => by rw [lookup_effect hc]
  | set => exact fun _ => rfl
  | promote => exact fun _ => rfl

theorem runActivateCb_issues (zhdl : CStr) :
    Issues host (KeepsBootfs host) (runActivateCb host zhdl) :=
  moves_bind moves_get fun _ => (libzeActivateCb_issues _ _).weaken fun _ hc => hc.keepsBootfs

theorem activateBootDataset_issues (beBpoolZh : CStr) :
    Issues host (KeepsBootfs host) (activateBootDataset host be beBpoolZh) := by
  unfold activateBootDataset
  refine moves_ite (fun _ => moves_pure _) fun _ => moves_bind (runActivateCb_issues _) fun _ => ?_
  refine moves_ite (fun _ => ?_) fun _ => moves_pure _
  exact moves_bind (issues_errorSet _ _) fun _ => moves_pure _

theorem BeOpened.same (hs : BeOpened host h be s t) : SamePools s t :=
  ((openBootEnvironment_issues host h be).looked hs).same

theorem PreDone.bootfs (hs : PreDone host h be s t) : t.bootfs = s.bootfs := by
  obtain ⟨s1, hopen, hpre⟩ := hs
  exact (bootfs_of_issues preActivate_issues hpre).trans hopen.same.bootfs

theorem MidDone.bootfs (hs : MidDone host h be s t) : t.bootfs = s.bootfs := by
  obtain ⟨s2, hpre, hmid⟩ := hs
  exact (bootfs_of_issues (midActivate_issues _) hmid).trans hpre.bootfs

theorem BootfsSet.bootfs (hs : BootfsSet host h be s t) : t.bootfs = h.beDataset be := by
  obtain ⟨s3, _, hset⟩ := hs
  rw [(call_done hset).2]
  rfl

theorem RootDone.bootfs (hs : RootDone host h be s t) : t.bootfs = h.beDataset be := by
  obtain ⟨s4, hset, hroot⟩ := hs
  exact (bootfs_of_issues (runActivateCb_issues _) hroot).trans hset.bootfs

/-! ## What a run leaves -/

/-- A success means that every step succeeded unless the mid step or the post hook
failed; an error leaves `bootfs` as it was unless a pass failed behind it. -/
theorem libzeActivate_outcome (host : Host) (h : Handle) (be : CStr) (s t : Sys) (r : LibzeError)
    (hr : libzeActivate host h be s = (r, t)) :
    (r = .success → Activated host h be s t ∨ MidFails host h be s ∨ PostFails host h be s) ∧
      (r ≠ .success → t.bootfs = s.bootfs ∨
        (t.bootfs = h.beDataset be ∧ PassFails host h be s)) := by
  cases activateBe hr with
  | refused hne ht => exact ⟨fun heq => absurd heq hne, fun _ => .inl ht.same.bootfs⟩
  | preFailed hs hpre hcode =>
    refine ⟨nofun, fun _ => .inl ?_⟩
    exact (bootfs_of_issues preActivate_issues hpre).trans hs.same.bootfs
  | midFailed hs hmid hne => exact ⟨fun _ => .inr (.inl ⟨_, _, _, hs, hmid, hne⟩), absurd rfl⟩
  | bootfsFailed hs hset hcode hne ht =>
    refine ⟨fun heq => absurd heq hne, fun _ => .inl ?_⟩
    rw [ht.same.bootfs, (samePools_of_refused hset hcode).bootfs, hs.bootfs]
  | rootFailed hs hroot hc =>
    refine ⟨nofun, fun _ => .inr ⟨?_, .inl ⟨_, _, _, hs, hroot, hc⟩⟩⟩
    exact (bootfs_of_issues (runActivateCb_issues _) hroot).trans hs.bootfs
  | @passed s5 s6 _ _ code hs hboot hpost =>
    constructor
    · rintro rfl
      by_cases hcode : code = 0
      · subst hcode
        exact .inl ⟨s6, ⟨s5, hs, hboot⟩, hpost⟩
      · exact .inr (.inr ⟨s6, code, t, ⟨s5, hs, hboot⟩, hpost, hcode⟩)
    · intro hne
      refine .inr ⟨?_, .inr ⟨s5, r, s6, hs, hboot, hne⟩⟩
      exact ((bootfs_of_issues postActivate_issues hpost).trans
        (bootfs_of_issues (activateBootDataset_issues _) hboot)).trans hs.bootfs

theorem libzeActivate_outcome_sample :
    Activated obliging (sampleHandle none true) "b" (sampleSys [])
        (libzeActivate obliging (sampleHandle none true) "b" (sampleSys [])).2 ∨
      MidFails obliging (sampleHandle none true) "b" (sampleSys []) ∨
      PostFails obliging (sampleHandle none true) "b" (sampleSys []) :=
  (libzeActivate_outcome obliging (sampleHandle none true) "b" (sampleSys []) _ .success
    (run_eq_of_fst (by decide +kernel))).1 rfl

/-- A pass that fails leaves `bootfs` at the new dataset, and `libze_activate` returns an
error. -/
theorem not_bootfs_restored :
    ¬ ∀ (host : Host) (h : Handle) (be : CStr) (s t : Sys) (r : LibzeError),
      libzeActivate host h be s = (r, t) →
      (r = .success → Activated host h be s t) ∧ (r ≠ .success → t.bootfs = s.bootfs) := by
  intro hall
  have hrun := run_eq_of_fst (by decide +kernel : (libzeActivate
    (refusing (.zfs (.propSet "rpool/ROOT/b" .canmount "noauto"))) (sampleHandle none false) "b"
    (sampleSys [])).1 = .unknown)
  have hkept := (hall _ _ _ _ _ _ hrun).2 (by decide)
  exact absurd hkept (by decide +kernel)

end Outcomes

/-! ## The depth of the pass -/

section Depth
variable {host : Host} {s u : Sys}

theorem PassCall.filesystems {c : Call} (hc : PassCall c) (s : Sys) :
    filesystems (c.effect host s) = filesystems s := by
  cases hc with
  | lookup hc => rw [lookup_effect hc]
  | set name prop value =>
    have hshape : SameShape s ((ZfsCall.propSet name prop value).effect host s) :=
      mapDataset_shape fun _ => rfl
    exact congrArg (List.filter _) hshape.names
  | promote name => exact host.promoted_filesystems name s.datasets

/-- In a forest the bound on the depth of the pass is none. -/
theorem libzeActivateCb_depth (depth : Nat) {zhdl : CStr} (hs : IsForest s.names)
    (henough : Enough s zhdl depth) (hu : filesystems u = filesystems s) :
    libzeActivateCb host (depth + 1) zhdl u = libzeActivateCb host depth zhdl u := by
  induction depth generalizing zhdl u with
  | zero => obtain ⟨h, _⟩ | ⟨h, _⟩ := henough <;> omega
  | succ depth ih =>
    have hkeep : ∀ {α : Type} {m : Libze α} {v w : Sys} {a : α}, Issues host PassCall m →
        m v = (a, w) → filesystems v = filesystems s → filesystems w = filesystems s := by
      intro α m v w a hm hr hv
      have hsame : filesystems (m v).2 = filesystems s :=
        hm.keeps (fun w => filesystems w = filesystems s) (fun _ _ _ _ hw => hw)
          (fun w c hc _ hw => (hc.filesystems w).trans hw) hv
      rwa [hr] at hsame
    rw [libzeActivateCb, libzeActivateCb]
    refine run_bind_congr rfl fun code v hcall => ?_
    have hv := hkeep (issues_call (.set _ _ _)) hcall hu
    split
    · rfl
    refine run_bind_congr rfl fun r w hget => ?_
    have hw := hkeep (issues_zfsPropGet (.lookup trivial)) hget hv
    dsimp only
    split
    · rfl
    refine run_bind_congr rfl fun code x hpromote => ?_
    have hx := hkeep (issues_call (.promote _)) hpromote hw
    split
    · rfl
    rw [run_get_bind, run_get_bind]
    refine run_bind_congr (visit_congr (fun v => filesystems v = filesystems s) ?_ hx)
      fun _ _ _ => rfl
    intro c hc v hv _
    rw [childFilesystems_of_filesystems hx] at hc
    obtain ⟨hmem, hparent, _⟩ := mem_childFilesystems.mp hc
    have hchild := henough.child hs (mem_children.mpr ⟨hmem, hparent⟩)
    exact ⟨ih hchild hv, hkeep (libzeActivateCb_issues _ _) rfl hv⟩

end Depth

end Zectl.Libze.Activate
