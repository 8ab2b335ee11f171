import Zectl.Command.Program
import Zectl.Libze.Guards
import Zectl.Libze.MountFailure
import Zectl.Libze.Pairing

/-!
# What a command may call

Every call of every command leaves the running environment mounted where it is, and none removes
the activated one while that lies directly below the root of the environments. Only `activate`
sets `bootfs`.
-/

namespace Zectl.Command.Calls

open Zectl.Lib.StateRun Zectl.Lib.Visit Zectl.Lib.PathOrder Zectl.Lib.GetOpt Zectl.Util.CString
open Zectl.Zfs.System Zectl.Zfs.Steps Zectl.Libze.Init Zectl.Libze.Validate Zectl.Libze.Activate
open Zectl.Libze.Clone Zectl.Libze.Create Zectl.Libze.Destroy Zectl.Libze.DestroyOutcome
open Zectl.Libze.Guards Zectl.Libze.Listing Zectl.Libze.Mount Zectl.Libze.MountFailure
open Zectl.Libze.MountTree Zectl.Libze.Pairing Zectl.Libze.Property Zectl.Libze.Rename
open Zectl.Libze.Snapshot Zectl.Libze.Unmount Zectl.Command.Commands

/-- A dataset is renamed with everything above it. -/
def Removes : Call → CStr → Prop
  | .zfs (.destroy n), m => m = n
  | .zfs (.rename n _), m => AtOrBelow n m
  | _, _ => False

/-- The environments lie on a pool of their own, and the running one is a filesystem. -/
structure Separated (h : Handle) : Prop where
  running_fs : isSnapshotName h.envRunningPath = false
  pools : ∀ bp ∈ h.bootpool, poolOf bp.rootPathFull ≠ poolOf h.envRoot

/-- The activated environment is a filesystem directly below the root of the environments. -/
structure Rooted (h : Handle) : Prop where
  path : h.envActivatedPath = h.beDataset h.envActivated
  fs : isSnapshotName h.envActivatedPath = false

/-- What a command may call; `boots` says whether it may set `bootfs`. Then it removes nothing. -/
structure Careful (h : Handle) (boots : Prop) (c : Call) : Prop where
  running : ¬ ActsOn c h.envRunningPath
  activated : Rooted h → ¬ Removes c h.envActivatedPath
  bootfs : ∀ value, c = .zfs (.setBootfs value) → boots
  removes : boots → ∀ m, ¬ Removes c m

section Trees
variable {h : Handle} {be x : CStr} {c : Call} {boots : Prop}

theorem actsOn_of_removes {m : CStr} (hc : Removes c m) : ActsOn c m := by
  match c, hc with
  | .zfs (.destroy _), hc => exact hc
  | .zfs (.rename _ _), hc => exact hc

/-- An environment directly below the root is in the tree of no other one. -/
theorem eq_of_atOrBelow (hflat : '/' ∉ x) (hfs : isSnapshotName (h.beDataset x) = false)
    (hbelow : AtOrBelow (h.beDataset be) (h.beDataset x)) : be = x := by
  have hunder : AtOrBelow be x := by
    have hcons : AtOrBelow ('/' :: be) ('/' :: x) := under_append_left.mp hbelow
    exact (under_cons_cons.mp hcons).2
  obtain rfl | ⟨sep, rest, hsep, rfl⟩ := hunder
  · rfl
  obtain rfl | rfl := hsep
  · exact absurd (by simp) hflat
  · simp [isSnapshotName, Handle.beDataset] at hfs

theorem not_below_boot (hsep : Separated h) {bp : Bootpool} (hbp : bp ∈ h.bootpool) :
    ¬ AtOrBelow (bp.beDataset be) (h.beDataset x) := by
  intro hbelow
  obtain ⟨rest, hrest⟩ := hbelow.isPrefix
  have hslash : '/' ∈ bp.rootPathFull := by
    rw [bp.full_eq]
    simp
  have hpool := congrArg poolOf hrest
  rw [Bootpool.beDataset, List.append_assoc, poolOf_append hslash, Handle.beDataset,
    poolOf_append h.root_slash] at hpool
  exact hsep.pools bp hbp hpool

/-- What reaches an environment directly below the root is for that environment. -/
theorem eq_of_reaches (hsep : Separated h) (hflat : '/' ∉ x)
    (hfs : isSnapshotName (h.beDataset x) = false) (hreach : Reaches h be c)
    (hacts : ActsOn c (h.beDataset x)) : be = x := by
  obtain hroot | ⟨bp, hbp, hboot⟩ := hreach _ hacts hfs
  · exact eq_of_atOrBelow hflat hfs hroot
  · exact absurd hboot (not_below_boot hsep hbp)

theorem Separated.running {h : Handle} (hsep : Separated h) :
    isSnapshotName (h.beDataset h.envRunning) = false := by
  have hfs := hsep.running_fs
  rwa [h.runningPath_eq] at hfs

/-- Calls for another environment than the running and the activated one are careful. -/
theorem careful_of_reaches (hsep : Separated h) (hreach : Reaches h be c)
    (hrunning : ActsOn c h.envRunningPath → be ≠ h.envRunning)
    (hactivated : Rooted h → ActsOn c h.envActivatedPath → be ≠ h.envActivated)
    (hboot : ∀ value, c ≠ .zfs (.setBootfs value)) : Careful h False c where
  running := by
    intro hacts
    refine hrunning hacts (eq_of_reaches hsep h.running_flat hsep.running hreach ?_)
    show ActsOn c (h.envRoot ++ '/' :: h.envRunning)
    rwa [← h.runningPath_eq]
  activated := by
    intro hrooted hremoves
    have hacts := actsOn_of_removes hremoves
    have hfs := hrooted.fs
    refine hactivated hrooted hacts ?_
    rw [hrooted.path] at hacts hfs
    exact eq_of_reaches hsep h.activated_flat hfs hreach hacts
  bootfs := fun value heq => absurd heq (hboot value)
  removes := fun hno => hno.elim

/-- A call that acts on no tree. -/
def IsGentle (c : Call) : Prop := (∀ m, ¬ ActsOn c m) ∧ ∀ value, c ≠ .zfs (.setBootfs value)

theorem IsGentle.careful (hc : IsGentle c) : Careful h boots c where
  running := hc.1 _
  activated := fun _ hremoves => hc.1 _ (actsOn_of_removes hremoves)
  bootfs := fun value heq => absurd heq (hc.2 value)
  removes := fun _ m hremoves => hc.1 m (actsOn_of_removes hremoves)

theorem isGentle_of_isLookup (hc : IsLookup c) : IsGentle c := by
  refine ⟨fun m => not_actsOn_of_isLookup hc m, ?_⟩
  rintro value rfl
  exact hc

theorem careful_of_isLookup (hc : IsLookup c) : Careful h boots c :=
  (isGentle_of_isLookup hc).careful

theorem isGentle_of_mountsOnly (hc : MountsOnly c) : IsGentle c := by
  cases hc with
  | look | opendir | closedir | mkdir | mount => exact ⟨fun _ hacts => hacts, nofun⟩

/-- A hook with what is done around it, and only to a dataset that is not the running one. -/
inductive HookCall (h : Handle) (beZh : CStr) (hook : CStr → Hook) : Call → Prop
  | hook (dir : CStr) : HookCall h beZh hook (.hook (hook dir))
  | around {c : Call} (hne : h.envRunningPath ≠ beZh) (hc : MountCall beZh hook c) :
      HookCall h beZh hook c

/-- Around a hook only the dataset that was mounted for it is unmounted. -/
theorem HookCall.careful {beZh : CStr} {hook : CStr → Hook} (hc : HookCall h beZh hook c) :
    Careful h boots c := by
  cases hc with
  | hook => exact IsGentle.careful ⟨fun _ hacts => hacts, nofun⟩
  | around hne hc =>
    cases hc with
    | unmount => exact ⟨hne, fun _ => id, nofun, fun _ _ => id⟩
    | mount | set | setList | mkdtemp | rmdir | hook =>
      exact IsGentle.careful ⟨fun _ hacts => hacts, nofun⟩

/-- What `libze_activate` may call. -/
inductive ActivateCall (h : Handle) (be : CStr) : Call → Prop
  | pass {c : Call} (hc : PassCall c) : ActivateCall h be c
  | before : ActivateCall h be (.hook .preActivate)
  | mid {c : Call} (hc : HookCall h (h.beDataset be) (.midActivate be) c) : ActivateCall h be c
  | setBootfs : ActivateCall h be (.zfs (.setBootfs (h.beDataset be)))
  | behind : ActivateCall h be (.hook (.postActivate be))

theorem ActivateCall.careful (hc : ActivateCall h be c) : Careful h True c := by
  cases hc with
  | pass hc =>
    cases hc with
    | lookup hc => exact careful_of_isLookup hc
    | set | promote => exact IsGentle.careful ⟨fun _ hacts => hacts, nofun⟩
  | before | behind => exact IsGentle.careful ⟨fun _ hacts => hacts, nofun⟩
  | mid hc => exact hc.careful
  | setBootfs => exact ⟨id, fun _ => id, fun _ _ => trivial, fun _ _ => id⟩

/-- What `libze_snapshot` may call. -/
inductive SnapshotCall : Call → Prop
  | look {c : Call} (hc : IsLookup c) : SnapshotCall c
  | snapshot (name : CStr) : SnapshotCall (.zfs (.snapshot name true))
  | hook (be : CStr) (isRoot : Bool) : SnapshotCall (.hook (.preSnapshot be isRoot))

theorem SnapshotCall.gentle (hc : SnapshotCall c) : IsGentle c := by
  cases hc with
  | look hc => exact isGentle_of_isLookup hc
  | snapshot | hook => exact ⟨fun _ hacts => hacts, nofun⟩

end Trees

/-! ## The library -/

section Library
variable {host : Host} {h : Handle} {boots : Prop}

theorem hookInMount_calls (beName beZh : CStr) (hook : CStr → Hook) (message : CStr) :
    Issues host (HookCall h beZh hook) (hookInMount host h beName beZh hook message) := by
  by_cases hroot : libzeIsRootBe h beZh = true
  · unfold hookInMount mountForHook
    rw [if_pos hroot]
    refine moves_bind (moves_pure _) fun _ => moves_ite (fun _ => moves_pure _) fun _ => ?_
    refine moves_bind (issues_call (.hook _)) fun _ => moves_ite (fun _ => issues_errorSet _ _) ?_
    exact fun _ => moves_ite (fun _ => moves_pure _) fun hno => absurd hroot hno
  · by_cases hne : h.envRunningPath = beZh
    · have hslash : '/' ∈ beZh := by
        rw [← hne, h.runningPath_eq]
        simp
      exact absurd (by simp [libzeIsRootBe, hslash, hne]) hroot
    · exact (hookInMount_issues _ _).weaken fun c => .around hne

theorem midActivate_calls (be : CStr) :
    Issues host (ActivateCall h be) (midActivate host h be (h.beDataset be)) := by
  unfold midActivate
  refine moves_ite (fun _ => (hookInMount_calls _ _ _ _).weaken fun c => .mid) fun _ => ?_
  refine moves_ite (fun _ => moves_pure _) fun hroot => ?_
  have hne : h.envRunningPath ≠ h.beDataset be := by
    intro heq
    exact hroot (by simp [libzeIsRootBe, beDataset_slash, heq])
  exact (tempUnmountBe_issues _).weaken fun c hc => .mid (.around hne hc)

theorem libzeActivate_calls (be : CStr) :
    Issues host (ActivateCall h be) (libzeActivate host h be) := by
  have hpass : ∀ zhdl, Issues host (ActivateCall h be) (runActivateCb host zhdl) := fun zhdl =>
    moves_bind moves_get fun _ => (libzeActivateCb_issues _ _).weaken fun c => .pass
  unfold libzeActivate
  refine moves_bind_of ((openBootEnvironment_issues host h be).weaken
    fun c hc => .pass (.lookup hc)) fun s => ?_
  rcases hopen : openBootEnvironment host h be s with ⟨⟨ret, ds, bds⟩, s1⟩
  refine moves_ite (fun _ => issues_errorPrepend _ _) (fun hret => ?_) s1
  rw [not_not.mp hret] at hopen
  obtain ⟨rfl, rfl, -, -⟩ := openBootEnvironment_success hopen
  refine moves_bind (moves_ite (fun _ => issues_call .before) fun _ => moves_pure _) fun _ => ?_
  refine moves_ite (fun _ => moves_pure _) fun _ => ?_
  refine moves_bind (midActivate_calls _) fun _ => moves_ite (fun _ => moves_pure _) fun _ => ?_
  refine moves_bind (issues_call .setBootfs) fun _ => ?_
  refine moves_ite (fun _ => issues_errorSet _ _) fun _ => ?_
  refine moves_bind (hpass _) fun _ => moves_ite (fun _ => moves_pure _) fun _ => ?_
  have hboot : Issues host (ActivateCall h be) (activateBootDataset host be (h.bpoolDataset be)) :=
    moves_ite (fun _ => moves_pure _) fun _ => moves_bind (hpass _) fun _ =>
      moves_ite (fun _ => issues_errorSet _ _) fun _ => moves_pure _
  refine moves_bind hboot fun _ => ?_
  exact moves_bind (moves_ite (fun _ => issues_call .behind) fun _ => moves_pure _)
    fun _ => moves_pure _

theorem libzeCreate_careful (options : CreateOptions) :
    Issues host (Careful h False) (libzeCreate host h options) := by
  have hclone : ∀ {be : CStr} (c : Call), CloneCall be c → Careful h False c := by
    intro be c hc
    cases hc with
    | lookup hc => exact careful_of_isLookup hc
    | clone => exact IsGentle.careful ⟨fun _ hacts => hacts, nofun⟩
  have hsource : ∀ c, SourceCall c → Careful h False c := by
    rintro c (hc | ⟨name, recursive, rfl⟩)
    · exact careful_of_isLookup hc
    · exact IsGentle.careful ⟨fun _ hacts => hacts, nofun⟩
  have hlook : ∀ c, IsLookup c → Careful h False c := fun c => careful_of_isLookup
  have hvalidate := (validateNewBe_issues host h options.beName).weaken hlook
  unfold libzeCreate
  refine moves_bind hvalidate fun _ => moves_ite (fun _ => issues_errorPrepend _ _) fun _ => ?_
  refine moves_bind (createSources_issues.weaken hsource) fun _ => ?_
  refine moves_ite (fun _ => moves_pure _) fun _ => ?_
  refine moves_bind hvalidate fun _ => moves_ite (fun _ => issues_errorPrepend _ _) fun _ => ?_
  refine moves_bind ((libzeClone_issues _).weaken hclone) fun _ => ?_
  refine moves_ite (fun _ => moves_pure _) fun _ => ?_
  have hboot : ∀ cdata ds, Issues host (Careful h False)
      (cloneBootDataset host cdata ds options.recursive) := fun cdata ds =>
    moves_ite (fun _ => moves_pure _) fun _ =>
      moves_bind ((libzeClone_issues _).weaken hclone) fun _ =>
        moves_ite (fun _ => issues_errorSet _ _) fun _ => moves_pure _
  refine moves_bind (hboot _ _) fun _ => moves_ite (fun _ => moves_pure _) fun _ => ?_
  refine moves_ite (fun _ => moves_pure _) fun _ => ?_
  refine moves_bind ((openBootEnvironment_issues host h _).weaken hlook) fun _ => ?_
  exact moves_ite (fun _ => issues_errorPrepend _ _) fun _ =>
    (hookInMount_calls _ _ _ _).weaken fun c => HookCall.careful

theorem libzeDestroy_careful (hsep : Separated h) (options : DestroyOptions) :
    Issues host (Careful h False) (libzeDestroy host h options) := by
  refine (libzeDestroy_issues host h options).weaken fun c hc => ?_
  cases hc with
  | lookup hc => exact careful_of_isLookup hc
  | hook => exact IsGentle.careful ⟨fun _ hacts => hacts, nofun⟩
  | pool hguard hc =>
    -- the guards compare paths, and only for a name without a snapshot
    have hname : ∀ x, options.beName = x → isSnapshotName (h.beDataset x) = false →
        isSnapshotName options.beName = false := by
      rintro x rfl hfs
      by_contra hsnap
      have htrue := @isSnapshotName_append (h.envRoot ++ ['/']) _ (by simpa using hsnap)
      rw [List.append_assoc] at htrue
      rw [Handle.beDataset] at hfs
      simp [hfs] at htrue
    refine careful_of_reaches hsep (reaches_of_mayDestroy hc) ?_ ?_ ?_
    · intro _ heq
      refine (hguard (hname _ heq hsep.running)).2 ?_
      rw [heq]
      exact h.runningPath_eq
    · intro hrooted _ heq
      have hfs := hrooted.fs
      rw [hrooted.path] at hfs
      refine (hguard (hname _ heq hfs)).1 ?_
      rw [heq]
      exact hrooted.path
    · rintro value rfl
      exact hc

/-- Behind its guards a rename only looks. -/
theorem libzeRename_guarded {be newBe : CStr}
    (hguard : libzeIsRootBe h be = true ∨ libzeIsActiveBe h be = true) :
    Issues host IsLookup (libzeRename host h be newBe) := by
  unfold libzeRename
  refine moves_bind (validateNewBe_issues host h newBe) fun _ => ?_
  refine moves_ite (fun _ => issues_errorPrepend _ _) fun _ => ?_
  refine moves_bind (openBootEnvironment_issues host h be) fun _ => ?_
  refine moves_ite (fun _ => issues_errorPrepend _ _) fun _ => ?_
  refine moves_ite (fun _ => issues_errorSet _ _) fun hroot => ?_
  refine moves_ite (fun _ => issues_errorSet _ _) fun hactive => ?_
  obtain h' | h' := hguard
  · exact absurd h' hroot
  · exact absurd h' hactive

theorem libzeRename_careful (hsep : Separated h) (be newBe : CStr) :
    Issues host (Careful h False) (libzeRename host h be newBe) := by
  by_cases hguard : libzeIsRootBe h be = true ∨ libzeIsActiveBe h be = true
  · exact (libzeRename_guarded hguard).weaken fun c => careful_of_isLookup
  have hrunning : be ≠ h.envRunning := by
    rintro rfl
    exact hguard (.inl (by simp [libzeIsRootBe, h.running_flat]))
  have hactivated : be ≠ h.envActivated := by
    rintro rfl
    exact hguard (.inr (by simp [libzeIsActiveBe, h.activated_flat]))
  refine libzeRename_issues.weaken fun c hc => ?_
  have hreach : ∀ {c : Call}, Reaches h be c → (∀ value, c ≠ .zfs (.setBootfs value)) →
      Careful h False c := fun hreach hboot =>
    careful_of_reaches hsep hreach (fun _ => hrunning) (fun _ _ => hactivated) hboot
  cases hc with
  | lookup hc => exact careful_of_isLookup hc
  | root => exact hreach (fun m hacts _ => .inl hacts) fun _ heq => by cases heq
  | boot hbp => exact hreach (fun m hacts _ => .inr ⟨_, hbp, hacts⟩) fun _ heq => by cases heq
  | hook => exact IsGentle.careful ⟨fun _ hacts => hacts, fun _ heq => by cases heq⟩

theorem mayUnmount_cases {inside : CStr → Prop} (hc : MayUnmount inside c) :
    IsLookup c ∨ ∃ n, c = .zfs (.unmount n) ∧ inside n := by
  cases c with
  | zfs call =>
    cases call with
    | unmount n => exact .inr ⟨n, rfl, hc⟩
    | _ => exact .inl hc
  | hook | file => exact .inl hc

theorem libzeUnmount_careful (hsep : Separated h) (be : CStr) :
    Issues host (Careful h False) (libzeUnmount host h be) := by
  by_cases hroot : libzeIsRootBe h be = true
  · unfold libzeUnmount
    rw [if_pos hroot]
    exact issues_errorSet _ _
  have hrunning : be ≠ h.envRunning := by
    rintro rfl
    exact hroot (by simp [libzeIsRootBe, h.running_flat])
  refine libzeUnmount_issues.weaken fun c hc => ?_
  obtain hlook | ⟨n, rfl, hin⟩ := mayUnmount_cases hc
  · exact careful_of_isLookup hlook
  · refine ⟨fun hacts => ?_, fun _ => id, (fun _ heq => by cases heq), fun hno => hno.elim⟩
    have hreach : Reaches h be (.zfs (.unmount n)) := by
      rintro m rfl _
      exact hin
    refine hrunning (eq_of_reaches hsep h.running_flat hsep.running hreach ?_)
    show ActsOn (.zfs (.unmount n)) (h.envRoot ++ '/' :: h.envRunning)
    rwa [← h.runningPath_eq]

theorem libzeMount_gentle (be : CStr) (mountpoint : Option CStr) :
    Issues host IsGentle (libzeMount host h be mountpoint) := by
  have hcall : ∀ path, IsGentle (.file path) := fun path => ⟨fun _ hacts => hacts, nofun⟩
  have hdir : ∀ template, Issues host IsGentle (realMountpoint host template mountpoint) := by
    intro template
    cases mountpoint with
    | some dir => exact moves_pure _
    | none =>
      unfold realMountpoint mkdtemp
      refine moves_bind (moves_bind moves_get fun _ => ?_) fun _ => ?_
      · refine moves_bind (issues_call (hcall _)) fun _ => ?_
        exact moves_ite (fun _ => moves_pure _) fun _ => moves_pure _
      · exact moves_ite (fun _ => moves_pure _) fun _ => moves_pure _
  have herr : ∀ (err : LibzeError) (message dir : CStr), Issues host IsGentle
      (libzeErrorSet err message >>= fun e => pure (e, dir)) := fun err message dir =>
    moves_bind (issues_errorSet err message) fun _ => moves_pure _
  unfold libzeMount
  refine moves_bind ((openBootEnvironment_issues host h be).weaken
    fun c => isGentle_of_isLookup) fun _ => ?_
  refine moves_ite (fun _ => moves_bind (issues_errorPrepend _ _) fun _ => moves_pure _) fun _ => ?_
  refine moves_ite (fun _ => herr _ _ _) fun _ => ?_
  refine moves_bind moves_get fun _ => moves_ite (fun _ => herr _ _ _) fun _ => ?_
  refine moves_ite (fun _ => herr _ _ _) fun _ => moves_bind (hdir _) fun dir => ?_
  cases dir with
  | none => exact herr _ _ _
  | some real =>
    refine moves_ite (fun _ => herr _ _ _) fun _ => ?_
    refine moves_bind (issues_call ⟨fun _ hacts => hacts, nofun⟩) fun _ => ?_
    refine moves_ite (fun _ => ?_) fun _ => ?_
    · refine moves_bind (moves_ite (fun _ => issues_call (hcall _)) fun _ => moves_pure _) ?_
      exact fun _ => herr _ _ _
    · refine moves_bind moves_get fun s => ?_
      refine moves_bind (moves_visit fun c _ =>
        (mountCallback_issues _ c).weaken fun c => isGentle_of_mountsOnly) fun _ => ?_
      refine moves_ite (fun _ => moves_bind moves_get fun _ => moves_pure _) fun _ => ?_
      exact moves_bind ((mountBootDataset_issues _).weaken fun c => isGentle_of_mountsOnly)
        fun _ => moves_pure _

theorem libzeSnapshot_calls (bootEnvironment : CStr) :
    Issues host SnapshotCall (libzeSnapshot host h bootEnvironment) := by
  have hparse : Issues host SnapshotCall (parseSnapshot host bootEnvironment) := by
    unfold parseSnapshot
    repeat' first
      | exact moves_pure _
      | exact genSnapSuffix_issues
      | exact issues_errorPrepend _ _
      | refine moves_bind ?_ fun _ => ?_
      | split
  have htake : ∀ be ds bds snap bsnap : CStr, Issues host SnapshotCall
      (takeSnapshots host h be ds bds snap bsnap) := by
    intro be ds bds snap bsnap
    unfold takeSnapshots preSnapshotHook
    refine moves_bind (moves_ite (fun _ => moves_pure _) fun _ => issues_call (.hook _ _)) ?_
    refine fun _ => moves_ite (fun _ => moves_pure _) fun _ => ?_
    refine moves_bind (issues_call (.snapshot _)) fun _ => ?_
    refine moves_ite (fun _ => issues_errorSet _ _) fun _ => ?_
    refine moves_ite (fun _ => ?_) fun _ => moves_pure _
    refine moves_bind (issues_call (.snapshot _)) fun _ => ?_
    exact moves_ite (fun _ => issues_errorSet _ _) fun _ => moves_pure _
  unfold libzeSnapshot
  refine moves_bind hparse fun parsed => ?_
  cases parsed with
  | error ret => exact moves_pure _
  | ok parts =>
    obtain ⟨be, suffix⟩ := parts
    refine moves_bind ((validateExistingBe_issues host h be).weaken fun c => .look) fun _ => ?_
    refine moves_ite (fun _ => issues_errorPrepend _ _) fun _ => ?_
    refine moves_ite (fun _ => issues_errorSet _ _) fun _ => ?_
    exact moves_ite (fun _ => issues_errorSet _ _) fun _ => htake _ _ _ _ _

theorem libzeList_looks (clock : Clock) : Issues host IsLookup (libzeList host clock h) := by
  have hnative : ∀ zhdl prop value, Issues host IsLookup
      (zfsPropGetNative host zhdl prop value) := by
    intro zhdl prop value
    unfold zfsPropGetNative
    exact moves_bind (issues_call trivial) fun _ =>
      moves_ite (fun _ => moves_pure _) fun _ => moves_pure _
  have hmount : ∀ zhdl isMounted, Issues host IsLookup (listMountpoint host zhdl isMounted) :=
    fun zhdl isMounted => moves_ite (fun _ => issues_zfsPropGet trivial) fun _ => moves_pure _
  have hcb : ∀ zhdl outnvl, Issues host IsLookup (libzeListCb host clock h zhdl outnvl) := by
    intro zhdl outnvl
    unfold libzeListCb
    repeat' first
      | exact moves_pure _
      | exact moves_get
      | exact hnative _ _ _
      | exact hmount _ _
      | exact issues_errorSet _ _
      | refine moves_bind ?_ fun _ => ?_
      | split
  unfold libzeList
  refine moves_bind (issues_zfsOpen trivial) fun _ => ?_
  refine moves_ite (fun _ => moves_bind (issues_errorSet _ _) fun _ => moves_pure _) fun _ => ?_
  refine moves_bind moves_get fun _ => ?_
  exact moves_bind (moves_gather (fun c _ acc => hcb c acc) _) fun _ => moves_pure _

theorem libzeSet_gentle (properties : List (CStr × CStr)) :
    Issues host IsGentle (libzeSet host h properties) := by
  unfold libzeSet libzeDatasetSet
  refine moves_bind (issues_zfsOpen (isGentle_of_isLookup trivial)) fun _ => ?_
  refine moves_ite (fun _ => issues_errorSet _ _) fun _ => ?_
  refine moves_bind (issues_call ⟨fun _ hacts => hacts, nofun⟩) fun _ => ?_
  exact moves_ite (fun _ => issues_errorSet _ _) fun _ => moves_pure _

end Library

end Zectl.Command.Calls
