import Zectl.Libze.CloneCanmount
import Zectl.Libze.Guards
import Zectl.Libze.MountFailure

/-!
# The canmount property of clones

A clone is made with `canmount=noauto` among its properties. The activation and the temporary
unmount set it again, and no operation sets it to anything else, so it holds behind every call.
-/

namespace Zectl.Libze.Canmount

open Relation (ReflTransGen)
open Zectl.Lib.StateRun Zectl.Lib.Visit Zectl.Lib.PathOrder Zectl.Lib.KeyedList Zectl.Util.CString
open Zectl.Zfs.System Zectl.Zfs.Steps Zectl.Zfs.Forest Zectl.Libze.Init Zectl.Libze.Sample
open Zectl.Libze.Validate Zectl.Libze.Clone Zectl.Libze.Mount Zectl.Libze.Create
open Zectl.Libze.Activate Zectl.Libze.Rename Zectl.Libze.MountTree Zectl.Libze.MountFailure
open Zectl.Libze.CloneCanmount Zectl.Libze.Unmount Zectl.Libze.Destroy Zectl.Libze.DestroyOutcome Zectl.Libze.Guards

/-! ## The properties of a clone -/

section Properties
variable {host : Host} {props : DsProps} {s : Sys}

theorem noautoOnly_add (hprops : NoautoOnly props) {p : ZfsProp × CStr}
    (hp : p.1 = .canmount → p.2 = ("noauto" : CStr)) : NoautoOnly (put props p) := by
  intro q hq
  obtain ⟨hq, -⟩ | rfl := mem_put.mp hq
  · exact hprops q hq
  · exact hp

/-- The entry for canmount is made in a branch of its own. -/
theorem clonePropCb_cases (host : Host) (zhp : CStr) (props : DsProps) (prop : ZfsProp) (s : Sys) :
    (clonePropCb host zhp props prop s).1 = props ∧
        (prop = .canmount → host.zfsPropReadonly prop = true) ∨
      ∃ value, (clonePropCb host zhp props prop s).1 = put props (prop, value) ∧
        (prop = .canmount → value = "noauto") := by
  unfold clonePropCb
  by_cases hreadonly : host.zfsPropReadonly prop = true
  · rw [if_pos hreadonly]
    exact .inl ⟨rfl, fun _ => hreadonly⟩
  rw [if_neg hreadonly]
  by_cases hprop : prop = .canmount
  · rw [if_pos hprop]
    exact .inr ⟨_, rfl, fun _ => rfl⟩
  rw [if_neg hprop, run_bind]
  split
  · exact .inl ⟨rfl, fun heq => absurd heq hprop⟩
  rw [run_get_bind]
  rcases Sys.propValue host (call host (.zfs (.propGet zhp prop)) s).2 zhp prop with
    _ | ⟨value, src⟩
  · exact .inl ⟨rfl, fun heq => absurd heq hprop⟩
  dsimp only
  split
  · exact .inl ⟨rfl, fun heq => absurd heq hprop⟩
  · exact .inr ⟨_, rfl, fun heq => absurd heq hprop⟩

theorem clonePropCb_noautoOnly (hprops : NoautoOnly props) (zhp : CStr) (prop : ZfsProp) :
    NoautoOnly (clonePropCb host zhp props prop s).1 := by
  obtain ⟨hsame, -⟩ | ⟨value, hadd, hvalue⟩ := clonePropCb_cases host zhp props prop s
  · rw [hsame]
    exact hprops
  · rw [hadd]
    exact noautoOnly_add hprops hvalue

theorem clonePropCb_canmount (hrules : CanmountRules host) (zhp : CStr) (prop : ZfsProp)
    (h : prop = .canmount ∨ (ZfsProp.canmount, ("noauto" : CStr)) ∈ props) :
    (ZfsProp.canmount, ("noauto" : CStr)) ∈ (clonePropCb host zhp props prop s).1 := by
  obtain ⟨hsame, hreadonly⟩ | ⟨value, hadd, hvalue⟩ := clonePropCb_cases host zhp props prop s
  · rw [hsame]
    apply h.resolve_left
    rintro rfl
    rw [hrules.writable] at hreadonly
    cases hreadonly rfl
  · rw [hadd]
    by_cases hprop : prop = .canmount
    · subst hprop
      rw [hvalue rfl]
      exact List.mem_append_right _ (List.mem_singleton_self _)
    · exact mem_put.mpr (.inl ⟨h.resolve_left hprop, Ne.symm hprop⟩)

theorem foldl_noautoOnly (zhp : CStr) (natives : List ZfsProp) (hprops : NoautoOnly props) :
    NoautoOnly (natives.foldlM (clonePropCb host zhp) props s).1 := by
  induction natives generalizing props s with
  | nil => exact hprops
  | cons prop rest ih =>
    rw [List.foldlM_cons, run_bind]
    exact ih (clonePropCb_noautoOnly hprops zhp prop)

theorem foldl_canmount (hrules : CanmountRules host) (zhp : CStr) (natives : List ZfsProp)
    (h : .canmount ∈ natives ∨ (ZfsProp.canmount, ("noauto" : CStr)) ∈ props) :
    (ZfsProp.canmount, ("noauto" : CStr)) ∈ (natives.foldlM (clonePropCb host zhp) props s).1 := by
  induction natives generalizing props s with
  | nil => exact h.resolve_left List.not_mem_nil
  | cons prop rest ih =>
    rw [List.foldlM_cons, run_bind]
    apply ih
    obtain hvisit | hmem := h
    · obtain rfl | hrest := List.mem_cons.mp hvisit
      · exact .inr (clonePropCb_canmount hrules zhp _ (.inl rfl))
      · exact .inl hrest
    · exact .inr (clonePropCb_canmount hrules zhp prop (.inr hmem))

theorem collected_setsCanmount (hrules : CanmountRules host) (zhp : CStr) :
    SetsCanmount (host.nativeProps.foldlM (clonePropCb host zhp) [] s).1 := by
  constructor
  · exact foldl_noautoOnly zhp _ fun p hp => absurd hp List.not_mem_nil
  · exact foldl_canmount hrules zhp _ (.inl hrules.visited)

/-- Every dataset of the collected list is cloned with canmount set. -/
theorem libzeCloneCb_setsCanmount (hrules : CanmountRules host) (recursive : Bool) (depth : Nat)
    (zhdl : CStr) {outnvl : List (CStr × DsProps)} (hout : ∀ e ∈ outnvl, SetsCanmount e.2) :
    ∀ e ∈ (libzeCloneCb host recursive depth zhdl outnvl s).1.2, SetsCanmount e.2 := by
  induction depth generalizing zhdl outnvl s with
  | zero => exact hout
  | succ depth ih =>
    rcases hprops : host.nativeProps.foldlM (clonePropCb host zhdl) [] s with ⟨props, s1⟩
    have hset : SetsCanmount props := by
      have hall := @collected_setsCanmount host s hrules zhdl
      rwa [hprops] at hall
    have hadd : ∀ e ∈ put outnvl (zhdl, props), SetsCanmount e.2 := by
      intro e he
      obtain he | he := List.mem_append.mp he
      · exact hout e (List.mem_filter.mp he).1
      · rw [List.mem_singleton.mp he]
        exact hset
    rw [libzeCloneCb, run_bind, hprops]
    dsimp only
    split
    · rw [run_get_bind, run_bind]
      have hgather := gather_keeps (f := libzeCloneCb host recursive depth)
        (fun out => ∀ e ∈ out, SetsCanmount e.2) (fun c _ out u hout => ih c hout)
        (l := childFilesystems s1 zhdl) (s := s1) hadd
      split
      · exact hgather
      · exact hgather
    · exact hadd

end Properties

/-! ## The calls of the operations -/

section Calls
variable {host : Host} {h : Handle}

theorem keepsNoauto_of_isLookup (c : Call) (hc : IsLookup c) : KeepsNoauto c := by
  match c, hc with
  | .zfs (.poolOpen _), _ => trivial
  | .zfs (.open _), _ => trivial
  | .zfs (.propGet _ _), _ => trivial

theorem errorSet_keepsNoauto {β : Type} (err : LibzeError) (message : CStr) (b : LibzeError → β) :
    Issues host KeepsNoauto (libzeErrorSet err message >>= fun e => pure (b e)) :=
  moves_bind (issues_errorSet err message) fun _ => moves_pure _

theorem errorPrepend_keepsNoauto {β : Type} (err : LibzeError) (message : CStr)
    (b : LibzeError → β) :
    Issues host KeepsNoauto (libzeErrorPrepend err message >>= fun e => pure (b e)) :=
  moves_bind (issues_errorPrepend err message) fun _ => moves_pure _

theorem cloneDatasets_keepsNoauto {root suffix be : CStr} {items : List (CStr × DsProps)}
    (hitems : ∀ e ∈ items, SetsCanmount e.2) :
    Issues host KeepsNoauto (cloneDatasets host root suffix be items) := by
  induction items with
  | nil => exact moves_pure _
  | cons e rest ih =>
    unfold cloneDatasets
    cases cloneChildName root be e.1 with
    | error message => exact issues_errorSet _ _
    | ok target =>
      dsimp only
      apply moves_ite (fun _ => issues_errorSet _ _)
      intro _
      apply moves_bind (issues_zfsOpen trivial)
      intro opened
      apply moves_ite (fun _ => issues_errorSet _ _)
      intro _
      apply moves_bind (issues_call (hitems e List.mem_cons_self))
      intro code
      apply moves_ite (fun _ => issues_errorSet _ _)
      intro _
      exact ih fun e' he' => hitems e' (List.mem_cons_of_mem e he')

theorem libzeClone_keepsNoauto (hrules : CanmountRules host) (root suffix be : CStr)
    (recursive : Bool) : Issues host KeepsNoauto (libzeClone host root suffix be recursive) := by
  unfold libzeClone
  apply moves_bind (issues_zfsOpen trivial)
  intro opened
  apply moves_ite (fun _ => issues_errorSet _ _)
  intro _
  apply moves_bind moves_get
  intro s
  -- what is collected decides which properties the clones are given
  apply moves_bind_of ((libzeCloneCb_issues _ _ _ _).weaken keepsNoauto_of_isLookup)
  intro u
  have hdata := @libzeCloneCb_setsCanmount host u hrules recursive (recursionDepth s) root []
    fun e he => absurd he List.not_mem_nil
  exact moves_ite (fun _ => moves_pure _) (fun _ => cloneDatasets_keepsNoauto hdata) _

theorem tempUnmountBe_keepsNoauto (tmpDirname beZh : CStr) :
    Issues host KeepsNoauto (tempUnmountBe host tmpDirname beZh) := by
  have hprops : NoautoOnly [(.canmount, "noauto"), (.mountpoint, "/")] := by
    intro p hp hcanmount
    obtain rfl | hp := List.mem_cons.mp hp
    · rfl
    · rw [List.mem_singleton.mp hp] at hcanmount
      cases hcanmount
  unfold tempUnmountBe
  apply moves_bind moves_get
  intro s
  apply moves_ite (fun _ => moves_pure _)
  intro _
  apply moves_bind (issues_call trivial)
  intro unmounted
  apply moves_ite (fun _ => issues_errorPrepend _ _)
  intro _
  apply moves_bind (issues_call trivial)
  intro _
  apply moves_bind (issues_call hprops)
  intro set
  exact moves_ite (fun _ => issues_errorPrepend _ _) fun _ => moves_pure _

theorem tempMountBe_keepsNoauto (beName beZh : CStr) :
    Issues host KeepsNoauto (tempMountBe host beName beZh) := by
  have hfail : ∀ message tmpDirname : CStr, Issues host KeepsNoauto
      (libzeErrorSet .unknown message >>= fun ret =>
        tempUnmountBe host tmpDirname beZh >>= fun _ => pure (ret, tmpDirname)) := by
    intro message tmpDirname
    apply moves_bind (issues_errorSet _ _)
    intro ret
    exact moves_bind (tempUnmountBe_keepsNoauto _ _) fun _ => moves_pure _
  have hdir : ∀ template : CStr, Issues host KeepsNoauto (mkdtemp host template) := by
    intro template
    apply moves_bind moves_get
    intro s
    apply moves_bind (issues_call trivial)
    intro made
    exact moves_ite (fun _ => moves_pure _) fun _ => moves_pure _
  unfold tempMountBe
  apply moves_ite (fun _ => errorSet_keepsNoauto _ _ _)
  intro _
  apply moves_bind (hdir _)
  intro dir
  apply moves_bind (issues_call fun heq => absurd heq (by decide))
  intro set
  apply moves_ite (fun _ => hfail _ _)
  intro _
  apply moves_bind (issues_call trivial)
  intro mounted
  exact moves_ite (fun _ => hfail _ _) fun _ => moves_pure _

theorem hookInMount_keepsNoauto (beName beZh : CStr) (hook : CStr → Hook) (message : CStr) :
    Issues host KeepsNoauto (hookInMount host h beName beZh hook message) := by
  have hmount : Issues host KeepsNoauto (mountForHook host h beName beZh) :=
    moves_ite (fun _ => moves_pure _) fun _ => tempMountBe_keepsNoauto _ _
  unfold hookInMount
  apply moves_bind hmount
  intro dir
  apply moves_ite (fun _ => moves_pure _)
  intro _
  apply moves_bind (issues_call trivial)
  intro code
  apply moves_ite (fun _ => issues_errorSet _ _)
  intro _
  exact moves_ite (fun _ => moves_pure _) fun _ => tempUnmountBe_keepsNoauto _ _

theorem libzeCreate_keepsNoauto (hrules : CanmountRules host) (options : CreateOptions) :
    Issues host KeepsNoauto (libzeCreate host h options) := by
  have hsource : ∀ c, SourceCall c → KeepsNoauto c := by
    rintro c (hc | ⟨name, recursive, rfl⟩)
    · exact keepsNoauto_of_isLookup c hc
    · trivial
  have hvalidate := (validateNewBe_issues host h options.beName).weaken keepsNoauto_of_isLookup
  unfold libzeCreate
  apply moves_bind hvalidate
  intro _
  apply moves_ite (fun _ => issues_errorPrepend _ _)
  intro _
  apply moves_bind (createSources_issues.weaken hsource)
  intro sources
  apply moves_ite (fun _ => moves_pure _)
  intro _
  apply moves_bind hvalidate
  intro names
  apply moves_ite (fun _ => issues_errorPrepend _ _)
  intro _
  apply moves_bind (libzeClone_keepsNoauto hrules _ _ _ _)
  intro cloned
  apply moves_ite (fun _ => moves_pure _)
  intro _
  apply moves_bind
  · apply moves_ite (fun _ => moves_pure _)
    intro _
    apply moves_bind (libzeClone_keepsNoauto hrules _ _ _ _)
    intro ret
    exact moves_ite (fun _ => issues_errorSet _ _) fun _ => moves_pure _
  intro ret
  apply moves_ite (fun _ => moves_pure _)
  intro _
  apply moves_ite (fun _ => moves_pure _)
  intro _
  apply moves_bind ((openBootEnvironment_issues host h _).weaken keepsNoauto_of_isLookup)
  intro opened
  exact moves_ite (fun _ => issues_errorPrepend _ _)
    fun _ => hookInMount_keepsNoauto _ _ _ _

theorem libzeActivateCb_keepsNoauto (depth : Nat) (zhdl : CStr) :
    Issues host KeepsNoauto (libzeActivateCb host depth zhdl) := by
  induction depth generalizing zhdl with
  | zero => exact moves_pure _
  | succ depth ih =>
    rw [libzeActivateCb]
    apply moves_bind (issues_call fun _ => rfl)
    intro set
    apply moves_ite (fun _ => errorSet_keepsNoauto _ _ _)
    intro _
    apply moves_bind (issues_zfsPropGet trivial)
    intro origin
    apply moves_ite (fun _ => moves_pure _)
    intro _
    apply moves_bind (issues_call trivial)
    intro promoted
    apply moves_ite (fun _ => errorSet_keepsNoauto _ _ _)
    intro _
    apply moves_bind moves_get
    intro s
    apply moves_bind (moves_visit fun c _ => ih c)
    intro r
    exact moves_ite (fun _ => moves_pure _) fun _ => moves_pure _

theorem libzeActivate_keepsNoauto (be : CStr) :
    Issues host KeepsNoauto (libzeActivate host h be) := by
  have hpass : ∀ zhdl, Issues host KeepsNoauto (runActivateCb host zhdl) := fun zhdl =>
    moves_bind moves_get fun _ => libzeActivateCb_keepsNoauto _ _
  unfold libzeActivate
  apply moves_bind ((openBootEnvironment_issues host h _).weaken keepsNoauto_of_isLookup)
  intro opened
  apply moves_ite (fun _ => issues_errorPrepend _ _)
  intro _
  apply moves_bind (moves_ite (fun _ => issues_call trivial) fun _ => moves_pure _)
  intro pre
  apply moves_ite (fun _ => moves_pure _)
  intro _
  apply moves_bind
  · apply moves_ite (fun _ => hookInMount_keepsNoauto _ _ _ _)
    intro _
    exact moves_ite (fun _ => moves_pure _) fun _ => tempUnmountBe_keepsNoauto _ _
  intro mid
  apply moves_ite (fun _ => moves_pure _)
  intro _
  apply moves_bind (issues_call trivial)
  intro set
  apply moves_ite (fun _ => issues_errorSet _ _)
  intro _
  apply moves_bind (hpass _)
  intro root
  apply moves_ite (fun _ => moves_pure _)
  intro _
  apply moves_bind
  · apply moves_ite (fun _ => moves_pure _)
    intro _
    apply moves_bind (hpass _)
    intro r
    exact moves_ite (fun _ => issues_errorSet _ _) fun _ => moves_pure _
  intro ret
  exact moves_bind (moves_ite (fun _ => issues_call trivial) fun _ => moves_pure _)
    fun _ => moves_pure _

theorem libzeRename_keepsNoauto (be newBe : CStr) :
    Issues host KeepsNoauto (libzeRename host h be newBe) := by
  apply libzeRename_issues.weaken
  intro c hc
  cases hc with
  | lookup hc => exact keepsNoauto_of_isLookup c hc
  | root | boot | hook => trivial

theorem mountsOnly_keepsNoauto (c : Call) (hc : MountsOnly c) : KeepsNoauto c := by
  cases hc with
  | look | opendir | closedir | mkdir | mount => trivial

theorem libzeMount_keepsNoauto (be : CStr) (mountpoint : Option CStr) :
    Issues host KeepsNoauto (libzeMount host h be mountpoint) := by
  have hdir : ∀ template, Issues host KeepsNoauto (realMountpoint host template mountpoint) := by
    intro template
    cases mountpoint with
    | some dir => exact moves_pure _
    | none =>
      unfold realMountpoint mkdtemp
      apply moves_bind
      · apply moves_bind moves_get
        intro s
        apply moves_bind (issues_call trivial)
        intro made
        exact moves_ite (fun _ => moves_pure _) fun _ => moves_pure _
      intro dir
      exact moves_ite (fun _ => moves_pure _) fun _ => moves_pure _
  unfold libzeMount
  apply moves_bind ((openBootEnvironment_issues host h _).weaken keepsNoauto_of_isLookup)
  intro opened
  apply moves_ite (fun _ => errorPrepend_keepsNoauto _ _ _)
  intro _
  apply moves_ite (fun _ => errorSet_keepsNoauto _ _ _)
  intro _
  apply moves_bind moves_get
  intro s
  apply moves_ite (fun _ => errorSet_keepsNoauto _ _ _)
  intro _
  apply moves_ite (fun _ => errorSet_keepsNoauto _ _ _)
  intro _
  apply moves_bind (hdir _)
  intro dir
  cases dir with
  | none => exact errorSet_keepsNoauto _ _ _
  | some real =>
    apply moves_ite (fun _ => errorSet_keepsNoauto _ _ _)
    intro _
    apply moves_bind (issues_call trivial)
    intro mounted
    apply moves_ite
    · intro _
      apply moves_bind (moves_ite (fun _ => issues_call trivial) fun _ => moves_pure _)
      intro _
      exact errorSet_keepsNoauto _ _ _
    intro _
    apply moves_bind moves_get
    intro s
    apply moves_bind (moves_visit fun c _ =>
      (mountCallback_issues _ c).weaken mountsOnly_keepsNoauto)
    intro r
    apply moves_ite (fun _ => moves_bind moves_get fun _ => moves_pure _)
    intro _
    exact moves_bind ((mountBootDataset_issues _).weaken mountsOnly_keepsNoauto)
      fun _ => moves_pure _

theorem libzeUnmount_keepsNoauto (be : CStr) : Issues host KeepsNoauto (libzeUnmount host h be) := by
  apply libzeUnmount_issues.weaken
  intro c hc
  match c, hc with
  | .zfs (.poolOpen _), _ | .zfs (.open _), _ | .zfs (.propGet _ _), _ => trivial
  | .zfs (.unmount _), _ => trivial

theorem libzeDestroy_keepsNoauto (options : DestroyOptions) :
    Issues host KeepsNoauto (libzeDestroy host h options) := by
  apply (libzeDestroy_issues host h options).weaken
  intro c hc
  cases hc with
  | lookup hc => exact keepsNoauto_of_isLookup c hc
  | hook => trivial
  | pool _ hc =>
    match c, hc with
    | .zfs (.poolOpen _), _ | .zfs (.open _), _ | .zfs (.propGet _ _), _ => trivial
    | .zfs (.unmount _), _ | .zfs (.destroy _), _ => trivial

end Calls

/-! ## Every run -/

/-- The operations, with the values they are called with. -/
inductive Operation where
  | create (options : CreateOptions)
  | activate (be : CStr)
  | rename (be newBe : CStr)
  | mount (be : CStr) (mountpoint : Option CStr)
  | unmount (be : CStr)
  | destroy (options : DestroyOptions)

def Operation.run (host : Host) (h : Handle) : Operation → Libze Unit
  | .create options => do let _ ← libzeCreate host h options
  | .activate be => do let _ ← libzeActivate host h be
  | .rename be newBe => do let _ ← libzeRename host h be newBe
  | .mount be mountpoint => do let _ ← libzeMount host h be mountpoint
  | .unmount be => do let _ ← libzeUnmount host h be
  | .destroy options => do let _ ← libzeDestroy host h options

/-- Operations in turn, whatever each of them returns, each with the handle of its process. -/
def runOperations (host : Host) : List (Handle × Operation) → Libze Unit
  | [] => return
  | (h, op) :: rest => do
    op.run host h
    runOperations host rest

/-- A run as its single calls, with a property of the state behind each. -/
def Throughout (host : Host) (inv : Sys → Prop) (s t : Sys) : Prop :=
  ReflTransGen (fun u v => Step host (fun _ => True) u v ∧ inv v) s t

section Runs
variable {host : Host}

theorem operation_keepsNoauto (hrules : CanmountRules host) (h : Handle) (op : Operation) :
    Issues host KeepsNoauto (op.run host h) := by
  cases op with
  | create options => exact moves_bind (libzeCreate_keepsNoauto hrules options) fun _ => moves_pure _
  | activate be => exact moves_bind (libzeActivate_keepsNoauto be) fun _ => moves_pure _
  | rename be newBe => exact moves_bind (libzeRename_keepsNoauto be newBe) fun _ => moves_pure _
  | mount be dir => exact moves_bind (libzeMount_keepsNoauto be dir) fun _ => moves_pure _
  | unmount be => exact moves_bind (libzeUnmount_keepsNoauto be) fun _ => moves_pure _
  | destroy options => exact moves_bind (libzeDestroy_keepsNoauto options) fun _ => moves_pure _

theorem runOperations_keepsNoauto (hrules : CanmountRules host) (ops : List (Handle × Operation)) :
    Issues host KeepsNoauto (runOperations host ops) := by
  induction ops with
  | nil => exact moves_pure _
  | cons op rest ih => exact moves_bind (operation_keepsNoauto hrules op.1 op.2) fun _ => ih

/-- However the operations follow each other and whatever the calls answer, every filesystem
that was cloned has `canmount=noauto` behind every single call. -/
theorem clones_noauto_throughout (hrules : CanmountRules host) (ops : List (Handle × Operation))
    {s : Sys} (hs : s.trace = []) :
    Throughout host (fun u => ClonesNoauto (clonedNames u.trace) u.datasets) s
      (runOperations host ops s).2 := by
  have hstart : ClonesNoauto (clonedNames s.trace) s.datasets := by
    rw [hs]
    constructor
    · exact fun n hn => absurd hn List.not_mem_nil
    · exact fun n hn => absurd hn List.not_mem_nil
    · exact fun d _ hn => absurd hn List.not_mem_nil
  have hwithin := steps_within (fun u => ClonesNoauto (clonedNames u.trace) u.datasets)
    (fun u v huv hu => step_keeps hrules huv hu) (runOperations_keepsNoauto hrules ops s) hstart
  apply ReflTransGen.mono _ _ _ hwithin
  rintro u v ⟨hstep, hv⟩
  cases hstep with
  | call => exact ⟨.call u trivial, hv⟩
  | error err message => exact ⟨.error u err message, hv⟩

end Runs

/-- A host that refuses every name that is taken or malformed. -/
def refusingTaken : Host :=
  plainHost fun s c =>
    match c with
    | .zfs (.clone _ target _) => if isSnapshotName target ∨ target ∈ s.names then 1 else 0
    | .zfs (.rename name target) =>
      if isSnapshotName target = isSnapshotName name ∧ ∀ n ∈ s.names, ¬ AtOrBelow target n
      then 0 else 1
    | _ => 0

theorem refusingTaken_rules : CanmountRules refusingTaken where
  visited := by decide
  writable := rfl
  store := rfl
  clone := by
    intro s snap target props hgrant
    have hfree : ¬ (isSnapshotName target = true ∨ target ∈ s.names) := by
      intro htaken
      simp [refusingTaken, plainHost, htaken] at hgrant
    simpa using not_or.mp hfree
  rename := by
    intro s name target hgrant
    by_contra hbad
    have hone : refusingTaken.answer s (.zfs (.rename name target)) = 1 := if_neg hbad
    rw [hone] at hgrant
    cases hgrant
  promote := fun _ _ d hd _ => ⟨d, hd, rfl, rfl⟩

/-- A new environment that is activated and renamed. -/
def sampleOperations : List (Handle × Operation) :=
  [(sampleHandle none false, .create ⟨false, true, "c", []⟩),
    (sampleHandle none false, .activate "c"), (sampleHandle none false, .rename "c" "d")]

theorem clones_noauto_throughout_sample :
    Throughout refusingTaken (fun u => ClonesNoauto (clonedNames u.trace) u.datasets) (sampleSys [])
        (runOperations refusingTaken sampleOperations (sampleSys [])).2 ∧
      clonedNames (runOperations refusingTaken sampleOperations (sampleSys [])).2.trace =
        ["rpool/ROOT/d"] :=
  ⟨clones_noauto_throughout refusingTaken_rules sampleOperations rfl, by decide +kernel⟩

end Zectl.Libze.Canmount
