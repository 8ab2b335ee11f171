import Zectl.Command.Calls
import Zectl.Libze.ActivatedPath

/-!
# Runs of the program in sequence

Every run builds its own handle on a machine of its own. Whatever the command lines and the
answers of the calls are, the running environment is never destroyed, renamed or unmounted, and
`bootfs` goes on to name a filesystem directly below the root of the environments.
-/

namespace Zectl.Command.Runs

open Relation (ReflTransGen)
open Zectl.Lib.StateRun Zectl.Lib.PathOrder Zectl.Lib.GetOpt Zectl.Util.CString Zectl.Zfs.System
open Zectl.Zfs.Steps Zectl.Libze.Init Zectl.Libze.Validate Zectl.Libze.Activate
open Zectl.Libze.ActivatedPath Zectl.Libze.Guards Zectl.Libze.Listing Zectl.Libze.Pairing
open Zectl.Libze.Property Zectl.Libze.Sample Zectl.Command.Commands Zectl.Command.Program
open Zectl.Command.Calls

/-! ## Commands -/

section Commands
variable {host : Host} {clock : Clock} {h : Handle} {may : Call → Prop} {argv : List CStr}

theorem withOptions_issues {command optstring : CStr} {body : List Opt → List CStr → Libze Result}
    (hbody : ∀ opts operands, Issues host may (body opts operands)) :
    Issues host may (withOptions command optstring argv body) := by
  unfold withOptions
  split
  · exact moves_pure _
  · exact hbody _ _

theorem silent_issues {run : Libze LibzeError} (hrun : Issues host may run) :
    Issues host may (silent run) := moves_bind hrun fun _ => moves_pure _

theorem mountAndPrint_gentle (be : CStr) (mountpoint : Option CStr) :
    Issues host IsGentle (mountAndPrint host h be mountpoint) :=
  moves_bind (libzeMount_gentle _ _) fun _ => moves_ite (fun _ => moves_pure _) fun _ => moves_pure _

/-- Reading the properties issues no call. -/
theorem zeGet_issues : Issues host may (zeGet h argv) := by
  have hget : ∀ prop, Issues host may (libzeAddGetProperty h [] prop) := by
    intro prop
    unfold libzeAddGetProperty
    split
    · exact moves_bind (issues_errorSet _ _) fun _ => moves_pure _
    · refine moves_ite (fun _ => moves_bind (issues_errorSet _ _) fun _ => moves_pure _) fun _ => ?_
      exact moves_ite (fun _ => moves_pure _) fun _ => moves_pure _
  refine withOptions_issues fun opts operands => moves_ite (fun _ => moves_pure _) fun _ => ?_
  cases operands with
  | nil => exact moves_pure _
  | cons prop rest =>
    refine moves_ite (fun _ => moves_pure _) fun _ => moves_bind (hget prop) fun _ => ?_
    exact moves_ite (fun _ => moves_pure _) fun _ => moves_pure _

theorem zeList_looks : Issues host IsLookup (zeList host h clock argv) :=
  withOptions_issues fun _ _ => moves_bind (libzeList_looks clock) fun _ =>
    moves_ite (fun _ => moves_pure _) fun _ => moves_pure _

/-- Every command is careful, and only `activate` may set `bootfs`. -/
theorem command_careful (hsep : Separated h) (command : CommandFunc) (argv : List CStr) :
    Issues host (Careful h (command = .activate)) (command.run host clock h argv) := by
  have hgentle : ∀ {α : Type} {m : Libze α} {boots : Prop}, Issues host IsGentle m →
      Issues host (Careful h boots) m := fun hm => hm.weaken fun c hc => hc.careful
  have hno : ∀ {α : Type} {m : Libze α} {boots : Prop}, ¬ boots → Issues host (Careful h False) m →
      Issues host (Careful h boots) m := fun hboots hm => hm.weaken fun c hc =>
    ⟨hc.running, hc.activated, fun value heq => (hc.bootfs value heq).elim,
      fun hyes => absurd hyes hboots⟩
  cases command with
  | activate =>
    refine withOptions_issues fun opts operands => ?_
    split
    · refine moves_ite (fun _ => moves_pure _) fun _ => moves_ite (fun _ => moves_pure _) fun _ => ?_
      refine silent_issues ((libzeActivate_calls _).weaken fun c hc => ?_)
      have hcareful := hc.careful
      exact ⟨hcareful.running, hcareful.activated, fun _ _ => rfl, fun _ => hcareful.removes trivial⟩
    · exact moves_pure _
  | create =>
    refine withOptions_issues fun opts operands => hno (by simp) ?_
    split
    · refine moves_ite (fun _ => moves_pure _) fun _ => ?_
      dsimp only
      split
      · exact silent_issues (libzeCreate_careful _)
      · exact moves_ite (fun _ => moves_pure _) fun _ => silent_issues (libzeCreate_careful _)
    · exact moves_pure _
  | destroy =>
    refine withOptions_issues fun opts operands => hno (by simp) ?_
    split
    · exact silent_issues (libzeDestroy_careful hsep _)
    · exact moves_pure _
  | get => exact zeGet_issues
  | list => exact zeList_looks.weaken fun c => careful_of_isLookup
  | mount =>
    refine withOptions_issues fun opts operands => hgentle ?_
    split
    · exact mountAndPrint_gentle _ _
    · exact mountAndPrint_gentle _ _
    · exact moves_pure _
  | rename =>
    refine withOptions_issues fun opts operands => hno (by simp) ?_
    split
    · exact moves_ite (fun _ => moves_pure _) fun _ => silent_issues (libzeRename_careful hsep _ _)
    · exact moves_pure _
  | set =>
    refine hgentle ?_
    show Issues host IsGentle (zeSet host h argv)
    unfold zeSet
    split
    · exact moves_pure _
    · split
      · exact moves_pure _
      · exact moves_ite (fun _ => moves_pure _) fun _ => silent_issues (libzeSet_gentle _)
  | snapshot =>
    refine withOptions_issues fun opts operands => hgentle ?_
    split
    · exact silent_issues ((libzeSnapshot_calls _).weaken fun c => SnapshotCall.gentle)
    · exact moves_pure _
  | unmount =>
    refine withOptions_issues fun opts operands => hno (by simp) ?_
    split
    · exact silent_issues (libzeUnmount_careful hsep _)
    · exact moves_pure _

end Commands

/-! ## Opening the system -/

section Open
variable {m : Machine} {h h' : Handle} {warning : CStr} {s t : Sys}

/-- Both handles name the same environments. -/
structure SameEnv (h h' : Handle) : Prop where
  root : h'.envRoot = h.envRoot
  running : h'.envRunningPath = h.envRunningPath
  activated : h'.envActivatedPath = h.envActivatedPath

theorem SameEnv.refl (h : Handle) : SameEnv h h := ⟨rfl, rfl, rfl⟩

theorem SameEnv.trans {h h' h'' : Handle} (h1 : SameEnv h h') (h2 : SameEnv h' h'') :
    SameEnv h h'' :=
  ⟨h2.root.trans h1.root, h2.running.trans h1.running, h2.activated.trans h1.activated⟩

/-- What the handle of a run takes from its machine and from the pools. -/
structure OpenedOn (m : Machine) (s : Sys) (h : Handle) : Prop where
  running : m.rootHandle = some h.envRunningPath
  activated : h.envActivatedPath = bootfsBuf s.bootfs

theorem OpenedOn.sameEnv (hopen : OpenedOn m s h) (hsame : SameEnv h h') : OpenedOn m s h' :=
  ⟨by rw [hopen.running, hsame.running], by rw [hsame.activated, hopen.activated]⟩

theorem initHandle_looks : Issues m.host IsLookup (initHandle m) := by
  unfold initHandle
  split
  · exact moves_pure _
  refine moves_ite (fun _ => moves_pure _) fun _ => moves_bind (issues_call trivial) fun _ => ?_
  refine moves_ite (fun _ => moves_pure _) fun _ => moves_ite (fun _ => moves_pure _) fun _ => ?_
  refine moves_bind moves_get fun _ => ?_
  split
  · exact moves_pure _
  · refine moves_bind ?_ fun _ => moves_ite (fun _ => moves_pure _) fun _ => ?_
    · unfold libzeBePropsGet libzeDatasetPropsGet
      refine moves_bind (issues_zfsOpen trivial) fun _ => moves_ite (fun _ => ?_) fun _ => ?_
      · exact moves_bind (issues_errorSet _ _) fun _ => moves_pure _
      · refine moves_bind moves_get fun _ => ?_
        split
        · exact moves_pure _
        · exact moves_pure _
    · exact moves_bind (issues_errorSet _ _) fun _ => moves_pure _

theorem initHandle_some (hr : initHandle m s = (some h, t)) : OpenedOn m s h := by
  unfold initHandle at hr
  cases hroot : libzeGetRootDataset (mountedAtRoot m) with
  | none =>
    rw [hroot] at hr
    cases hr
  | some parts =>
  obtain ⟨envRunningPath, envRunning⟩ := parts
  rw [hroot] at hr
  dsimp only at hr
  rw [run_ite] at hr
  split at hr
  · cases hr
  obtain ⟨code, s1, hpool, hr⟩ := bind_run hr
  have hs1 := call_samePools hpool trivial
  rw [run_ite] at hr
  split at hr
  · cases hr
  rw [run_ite] at hr
  split at hr
  · cases hr
  rw [run_get_bind] at hr
  cases hinit : libzeInit (mountedAtRoot m) true (some s1.bootfs) (some []) with
  | none =>
    rw [hinit] at hr
    cases hr
  | some h0 =>
  rw [hinit] at hr
  obtain ⟨⟨ret, zeProps⟩, s2, hprops, hr⟩ := bind_run hr
  dsimp only at hr
  rw [run_ite] at hr
  split at hr
  · cases hr
  cases hr
  obtain ⟨hrunning, hactivated⟩ := libzeInit_eq_some hinit
  rw [hs1.bootfs] at hactivated
  refine ⟨?_, (Option.some.inj hactivated).symm⟩
  unfold mountedAtRoot at hrunning
  split at hrunning
  · cases hrunning
  · exact hrunning

theorem loadPlugin_quiet {may : Call → Prop} (h : Handle) : Issues m.host may (loadPlugin m h) := by
  have hget : ∀ (h : Handle) (property : CStr), Issues m.host may (libzeBePropGet h property) := by
    intro h property
    unfold libzeBePropGet
    repeat' first
      | exact moves_pure _
      | exact issues_errorSet _ _
      | refine moves_bind ?_ fun _ => ?_
      | split
  have hset : Issues m.host may (libzeBootloaderSet m h) := by
    unfold libzeBootloaderSet
    repeat' first
      | exact moves_pure _
      | exact hget _ _
      | exact issues_errorSet _ _
      | refine moves_bind ?_ fun _ => ?_
      | split
  unfold loadPlugin
  repeat' first
    | exact moves_pure _
    | exact moves_get
    | exact hset
    | exact hget _ _
    | exact issues_errorSet _ _
    | refine moves_bind ?_ fun _ => ?_
    | split

theorem libzeBootloaderSet_sameEnv (h : Handle) :
    Yields (fun r => SameEnv h r.2) (libzeBootloaderSet m h) := by
  have hsame : ∀ ret : LibzeError, Yields (fun r : LibzeError × Handle => SameEnv h r.2)
      (pure (ret, h) : Libze _) := fun ret => yields_pure (SameEnv.refl h)
  unfold libzeBootloaderSet
  refine yields_seq fun _ => yields_ite (fun _ => hsame _) fun _ => ?_
  refine yields_ite (fun _ => hsame _) fun _ => yields_ite (fun _ => yields_seq hsame) fun _ => ?_
  split
  · exact yields_seq hsame
  · exact yields_seq hsame
  · refine yields_ite (fun _ => yields_seq fun _ => ?_) fun _ => ?_
    · exact yields_pure ⟨rfl, rfl, rfl⟩
    · exact yields_pure ⟨rfl, rfl, rfl⟩

theorem loadPlugin_sameEnv (h : Handle) :
    Yields (fun r => ∀ h' warning, r = .ok (h', warning) → SameEnv h h') (loadPlugin m h) := by
  have herror : ∀ s : Sys, Yields (fun r : Except CStr (Handle × CStr) => ∀ h' warning,
      r = .ok (h', warning) → SameEnv h h') (pure (.error s.libzeErrorMessage) : Libze _) :=
    fun s => yields_pure fun h' warning heq => by cases heq
  unfold loadPlugin
  refine yields_bind (libzeBootloaderSet_sameEnv h) fun r hr => ?_
  have hok : ∀ printed : CStr, Yields (fun r' : Except CStr (Handle × CStr) => ∀ h' warning,
      r' = .ok (h', warning) → SameEnv h h') (pure (.ok (r.2, printed)) : Libze _) := by
    intro printed
    apply yields_pure
    intro h' warning heq
    cases heq
    exact hr
  refine yields_ite (fun _ => hok _) fun _ => yields_ite (fun _ => yields_seq herror) fun _ => ?_
  refine yields_seq fun plugin => yields_ite (fun _ => yields_seq herror) fun _ => ?_
  exact yields_seq fun _ => hok _

theorem libzeBootPoolSet_looks (host : Host) (h : Handle) :
    Issues host IsLookup (libzeBootPoolSet host h) := by
  have herr : ∀ (err : LibzeError) (message : CStr), Issues host IsLookup
      (libzeErrorSet err message >>= fun e => pure (e, h)) := fun err message =>
    moves_bind (issues_errorSet err message) fun _ => moves_pure _
  have hget : ∀ property : CStr, Issues host IsLookup (libzeBePropGet h property) := by
    intro property
    unfold libzeBePropGet
    refine moves_ite (fun _ => moves_bind (issues_errorSet _ _) fun _ => moves_pure _) fun _ => ?_
    split
    · exact moves_pure _
    · exact moves_ite (fun _ => moves_bind (issues_errorSet _ _) fun _ => moves_pure _)
        fun _ => moves_pure _
  unfold libzeBootPoolSet
  refine moves_bind (hget _) fun _ => moves_ite (fun _ => moves_pure _) fun _ => ?_
  refine moves_bind (hget _) fun _ => moves_ite (fun _ => moves_pure _) fun _ => ?_
  refine moves_ite (fun _ => moves_pure _) fun _ => moves_ite (fun _ => herr _ _) fun _ => ?_
  refine moves_bind (issues_call trivial) fun _ => moves_ite (fun _ => herr _ _) fun _ => ?_
  refine moves_bind moves_get fun _ => moves_ite (fun _ => herr _ _) fun _ => ?_
  refine moves_bind (issues_zfsOpen trivial) fun _ => moves_ite (fun _ => herr _ _) fun _ => ?_
  refine moves_bind (issues_zfsPropGet trivial) fun _ => moves_ite (fun _ => herr _ _) fun _ => ?_
  split
  · split
    · exact moves_pure _
    · split
      · exact moves_pure _
      · exact herr _ _
  · exact herr _ _

theorem libzeBootPoolSet_sameEnv (host : Host) (h : Handle) :
    Yields (fun r => SameEnv h r.2) (libzeBootPoolSet host h) := by
  have hsame : ∀ ret : LibzeError, Yields (fun r : LibzeError × Handle => SameEnv h r.2)
      (pure (ret, h) : Libze _) := fun ret => yields_pure (SameEnv.refl h)
  have herr : ∀ (err : LibzeError) (message : CStr),
      Yields (fun r : LibzeError × Handle => SameEnv h r.2)
        (libzeErrorSet err message >>= fun e => pure (e, h)) := fun err message => yields_seq hsame
  unfold libzeBootPoolSet
  refine yields_seq fun _ => yields_ite (fun _ => hsame _) fun _ => ?_
  refine yields_seq fun _ => yields_ite (fun _ => hsame _) fun _ => ?_
  refine yields_ite (fun _ => yields_pure ⟨rfl, rfl, rfl⟩) fun _ => ?_
  refine yields_ite (fun _ => herr _ _) fun _ => yields_seq fun _ => ?_
  refine yields_ite (fun _ => herr _ _) fun _ => yields_seq fun _ => ?_
  refine yields_ite (fun _ => herr _ _) fun _ => yields_seq fun _ => ?_
  refine yields_ite (fun _ => herr _ _) fun _ => yields_seq fun _ => ?_
  refine yields_ite (fun _ => herr _ _) fun _ => ?_
  split
  · split
    · exact yields_pure ⟨rfl, rfl, rfl⟩
    · split
      · exact yields_pure ⟨rfl, rfl, rfl⟩
      · exact herr _ _
  · exact herr _ _

theorem defineDefaultProps_sameEnv (h : Handle) : SameEnv h (defineDefaultProps h).2 := by
  unfold defineDefaultProps
  dsimp only
  split
  · exact .refl h
  · exact ⟨rfl, rfl, rfl⟩

theorem openSystem_looks : Issues m.host IsLookup (openSystem m) := by
  unfold openSystem
  refine moves_bind initHandle_looks fun r => ?_
  cases r with
  | none => exact moves_pure _
  | some h =>
    refine moves_bind (loadPlugin_quiet h) fun r => ?_
    cases r with
    | error message => exact moves_pure _
    | ok loaded =>
      obtain ⟨h1, warning⟩ := loaded
      refine moves_bind (libzeBootPoolSet_looks m.host h1) fun r => ?_
      refine moves_ite (fun _ => moves_bind moves_get fun _ => moves_pure _) fun _ => ?_
      refine moves_bind (libzeValidateSystem_issues m.host _) fun _ => ?_
      refine moves_ite (fun _ => moves_bind moves_get fun _ => moves_pure _) fun _ => ?_
      exact moves_ite (fun _ => moves_pure _) fun _ => moves_pure _

/-- The handle of a run names the dataset at the root and what `bootfs` names. -/
theorem openSystem_opened (hr : openSystem m s = (.ok (h, warning), t)) : OpenedOn m s h := by
  unfold openSystem at hr
  obtain ⟨r, s1, hinit, hr⟩ := bind_run hr
  cases r with
  | none => cases hr
  | some h0 =>
    have hopen := initHandle_some hinit
    obtain ⟨r, s2, hload, hr⟩ := bind_run hr
    cases r with
    | error message => cases hr
    | ok loaded =>
      obtain ⟨h1, w⟩ := loaded
      have hplugin : SameEnv h0 h1 := by
        have hyields := loadPlugin_sameEnv (m := m) h0 s1
        rw [hload] at hyields
        exact hyields h1 w rfl
      obtain ⟨⟨ret, h2⟩, s3, hpool, hr⟩ := bind_run hr
      have hboot : SameEnv h1 h2 := by
        have hyields := libzeBootPoolSet_sameEnv m.host h1 s2
        rwa [hpool] at hyields
      dsimp only at hr
      rw [run_ite] at hr
      split at hr
      · cases hr
      obtain ⟨ret', s4, hvalid, hr⟩ := bind_run hr
      rw [run_ite] at hr
      split at hr
      · cases hr
      rw [run_ite] at hr
      split at hr
      · cases hr
      cases hr
      exact hopen.sameEnv ((hplugin.trans hboot).trans (defineDefaultProps_sameEnv h2))

end Open

/-! ## One run -/

section Main
variable {m : Machine} {argv : List CStr} {host : Host} {h : Handle} {boots : Prop} {c : Call}
  {n : CStr} {s t : Sys}

/-- How a run can end: it has only looked, or a command has run on the opened system. -/
inductive MainRun (m : Machine) (argv : List CStr) (s t : Sys) : Prop
  | looked (ht : Looked s t)
  | ran {h : Handle} {warning name : CStr} {args : List CStr} {u : Sys} {command : CommandFunc}
      (hopen : openSystem m s = (.ok (h, warning), u)) (hargv : argv.tail = name :: args)
      (hcommand : getCommand zeCommandMap name = some command)
      (ht : t = (command.run m.host m.clock h (name :: args) u).2)

theorem mainRun (m : Machine) (argv : List CStr) (s : Sys) :
    MainRun m argv s (zectlMain m argv s).2 := by
  unfold zectlMain
  cases hargv : argv.tail with
  | nil => exact .looked (.refl s)
  | cons name args =>
    dsimp only
    by_cases hversion : name = ("version" : CStr)
    · rw [if_pos hversion]
      exact .looked (.refl s)
    rw [if_neg hversion, run_bind]
    rcases hopen : openSystem m s with ⟨opened, u⟩
    have hlooked : Looked s u := openSystem_looks.looked hopen
    cases opened with
    | error message => exact .looked hlooked
    | ok opened =>
      obtain ⟨h, warning⟩ := opened
      show MainRun m argv s (runCommand m h warning name (name :: args) u).2
      unfold runCommand
      cases hcommand : getCommand zeCommandMap name with
      | none => exact .looked hlooked
      | some command =>
        refine .ran hopen hargv hcommand ?_
        dsimp only
        rw [run_bind, run_ite]
        split
        · rfl
        · rfl

/-- The files are not in the pools. -/
theorem fileCall_pools (c : FileCall) (s : Sys) :
    (c.effect s).datasets = s.datasets ∧ (c.effect s).bootfs = s.bootfs := by
  cases c with
  | fwrite path text | rename path text =>
    simp only [FileCall.effect]
    split
    · exact ⟨rfl, rfl⟩
    · exact ⟨rfl, rfl⟩
  | _ => exact ⟨rfl, rfl⟩

theorem mem_names_of_not_removes (hc : ¬ Removes c n) (hfs : isSnapshotName n = false)
    (hn : n ∈ s.names) : n ∈ (c.effect host s).names := by
  have hshape : ∀ {u : Sys}, SameShape s u → n ∈ u.names := fun hu => by rwa [hu.names]
  cases c with
  | hook => exact hn
  | file c =>
    show n ∈ (c.effect s).datasets.map Dataset.name
    rwa [(fileCall_pools c s).1]
  | zfs c =>
    cases c with
    | poolOpen | «open» | propGet | setBootfs => exact hn
    | snapshot name recursive =>
      show n ∈ (s.datasets ++ s.newSnapshots name recursive).map Dataset.name
      rw [List.map_append]
      exact List.mem_append_left _ hn
    | clone snap target props =>
      show n ∈ (s.datasets ++ _).map Dataset.name
      rw [List.map_append]
      exact List.mem_append_left _ hn
    | destroy name =>
      obtain ⟨d, hd, rfl⟩ := List.mem_map.mp hn
      exact List.mem_map_of_mem (List.mem_filter.mpr ⟨hd, decide_eq_true hc⟩)
    | rename name target =>
      obtain ⟨d, hd, rfl⟩ := List.mem_map.mp hn
      refine List.mem_map.mpr ⟨_, List.mem_map_of_mem hd, ?_⟩
      exact if_neg hc
    | unmount | mount | propSet | temporaryMount => exact hshape (mapDataset_shape fun _ => rfl)
    | propSetList name props =>
      refine hshape (mapDataset_shape fun d => ?_)
      obtain ⟨hname, horigin⟩ := Zectl.Libze.Mount.foldl_setProp_shape (props.map host.store) d
      rw [hname, horigin]
    | promote name =>
      have hkeep := host.promoted_filesystems name s.datasets
      have hmem : n ∈ (s.datasets.map Dataset.name).filter (¬ isSnapshotName ·) :=
        List.mem_filter.mpr ⟨hn, by simp [hfs]⟩
      rw [← hkeep] at hmem
      exact (List.mem_filter.mp hmem).1

theorem bootfs_of_not_removes (hc : ¬ Removes c s.bootfs)
    (hset : ∀ value, c ≠ .zfs (.setBootfs value)) : (c.effect host s).bootfs = s.bootfs := by
  cases c with
  | hook => rfl
  | file c => exact (fileCall_pools c s).2
  | zfs c =>
    cases c with
    | rename name target => exact if_neg hc
    | setBootfs value => exact absurd rfl (hset value)
    | _ => rfl

/-- A run of a careful program keeps every filesystem it may not remove. -/
theorem names_of_careful {α : Type} {run : Libze α} (hrun : Issues host (Careful h boots) run)
    (hc : ∀ c, Careful h boots c → ¬ Removes c n) (hfs : isSnapshotName n = false)
    (hn : n ∈ s.names) : n ∈ (run s).2.names :=
  hrun.keeps (fun u => n ∈ u.names) (fun _ _ _ _ hu => hu)
    (fun _ c hcareful _ hu => mem_names_of_not_removes (hc c hcareful) hfs hu) hn

theorem not_removes_of_actsOn (hc : Careful h boots c) : ¬ Removes c h.envRunningPath :=
  fun hremoves => hc.running (actsOn_of_removes hremoves)

/-- Where `bootfs` is not set it goes on to name the activated environment. -/
theorem bootfs_of_careful {α : Type} {run : Libze α} (hrun : Issues host (Careful h boots) run)
    (hboots : ¬ boots) (hrooted : Rooted h) (hs : s.bootfs = h.envActivatedPath) :
    (run s).2.bootfs = h.envActivatedPath := by
  refine hrun.keeps (fun u => u.bootfs = h.envActivatedPath) (fun _ _ _ _ hu => hu) ?_ hs
  intro u c hc _ hu
  refine (bootfs_of_not_removes ?_ fun value heq => hboots (hc.bootfs value heq)).trans hu
  rw [hu]
  exact hc.activated hrooted

/-- An activation leaves `bootfs` alone or sets it to an environment that is there. -/
theorem libzeActivate_bootfs {be : CStr} {r : LibzeError}
    (hr : libzeActivate host h be s = (r, t)) :
    t.bootfs = s.bootfs ∨ t.bootfs = h.beDataset be ∧ Fits h be ∧ Exists h s be := by
  have hends : t.bootfs = s.bootfs ∨ t.bootfs = h.beDataset be := by
    cases activateBe hr with
    | refused _ ht => exact .inl ht.same.bootfs
    | preFailed hs hpre _ =>
      exact .inl ((bootfs_of_issues preActivate_issues hpre).trans hs.same.bootfs)
    | midFailed hs hmid _ =>
      exact .inl ((bootfs_of_issues (midActivate_issues _) hmid).trans hs.bootfs)
    | bootfsFailed hs hset hcode _ ht =>
      exact .inl (by rw [ht.same.bootfs, (samePools_of_refused hset hcode).bootfs, hs.bootfs])
    | rootFailed hs hroot _ =>
      exact .inr ((bootfs_of_issues (runActivateCb_issues _) hroot).trans hs.bootfs)
    | passed hs hboot hpost =>
      exact .inr (((bootfs_of_issues postActivate_issues hpost).trans
        (bootfs_of_issues (activateBootDataset_issues _) hboot)).trans hs.bootfs)
  obtain hsame | hset := hends
  · exact .inl hsame
  unfold libzeActivate at hr
  obtain ⟨⟨ret, ds, bds⟩, s1, hopen, hr⟩ := bind_run hr
  have hlooked := (openBootEnvironment_issues host h be).looked hopen
  dsimp only at hr
  rw [run_ite] at hr
  split at hr
  · cases hr
    exact .inl hlooked.same.bootfs
  · rename_i hret
    rw [not_not.mp hret] at hopen
    obtain ⟨-, -, hfits, hexists⟩ := openBootEnvironment_success hopen
    exact .inr ⟨hset, hfits, hexists⟩

end Main

/-! ## Runs in sequence -/

/-- What is called the boot pool in a run. -/
def bootPoolOf (m : Machine) (s : Sys) : Option Bootpool :=
  match (openSystem m s).1 with
  | .ok (h, _) => h.bootpool
  | .error _ => none

/-- The filesystem is at the root directory, and a boot pool is another pool than its own. -/
structure Serves (running : CStr) (m : Machine) (s : Sys) : Prop where
  root : m.rootHandle = some running
  fs : isSnapshotName running = false
  pools : ∀ bp ∈ bootPoolOf m s, poolOf bp.rootPathFull ≠ poolOf running

/-- One run of the program while the filesystem is at the root directory. -/
def Invocation (running : CStr) (s t : Sys) : Prop :=
  ∃ m argv, Serves running m s ∧ t = (zectlMain m argv s).2

/-- No call between two states destroyed, renamed or unmounted the dataset. -/
structure Untouched (n : CStr) (s t : Sys) : Prop where
  calls : ∃ new, t.trace = new ++ s.trace ∧ ∀ e ∈ new, ¬ ActsOn e.1 n
  names : n ∈ s.names → n ∈ t.names

section Sequence
variable {running : CStr} {m : Machine} {h : Handle} {warning : CStr} {s t u : Sys}

theorem Untouched.trans {n : CStr} (hst : Untouched n s t) (htu : Untouched n t u) :
    Untouched n s u := by
  obtain ⟨new, ht, hnew⟩ := hst.calls
  obtain ⟨new', hu, hnew'⟩ := htu.calls
  refine ⟨⟨new' ++ new, by rw [hu, ht, List.append_assoc], fun e he => ?_⟩, htu.names ∘ hst.names⟩
  obtain he | he := List.mem_append.mp he
  · exact hnew' e he
  · exact hnew e he

theorem Looked.untouched {n : CStr} (hst : Looked s t) : Untouched n s t := by
  obtain ⟨new, ht, hnew⟩ := hst.trace
  refine ⟨⟨new, ht, fun e he => not_actsOn_of_isLookup (hnew e he) n⟩, fun hn => ?_⟩
  rwa [hst.same.names]

theorem Serves.separated (hserves : Serves running m s)
    (hopen : openSystem m s = (.ok (h, warning), u)) :
    h.envRunningPath = running ∧ Separated h := by
  have hrunning : h.envRunningPath = running := by
    have hroot := (openSystem_opened hopen).running
    rw [hserves.root] at hroot
    exact (Option.some.inj hroot).symm
  refine ⟨hrunning, by rw [hrunning]; exact hserves.fs, fun bp hbp => ?_⟩
  have hpool := hserves.pools bp (by rw [bootPoolOf, hopen]; exact hbp)
  rwa [← hrunning, h.runningPath_eq, poolOf_append h.root_slash] at hpool

theorem Invocation.untouched (hst : Invocation running s t) : Untouched running s t := by
  obtain ⟨m, argv, hserves, rfl⟩ := hst
  cases mainRun m argv s with
  | looked ht => exact Looked.untouched ht
  | @ran h warning name args u command hopen _ _ ht =>
    obtain ⟨hrunning, hsep⟩ := hserves.separated hopen
    refine (Looked.untouched (openSystem_looks.looked hopen)).trans ?_
    have hcareful := @command_careful m.host m.clock h hsep command (name :: args)
    rw [ht]
    refine ⟨?_, fun hn => ?_⟩
    · obtain ⟨new, htrace, hnew⟩ := hcareful.trace u
      exact ⟨new, htrace, fun e he => hrunning ▸ (hnew e he).running⟩
    · refine names_of_careful hcareful (fun c hc => ?_) hserves.fs hn
      exact hrunning ▸ not_removes_of_actsOn hc

/-- However often the program runs, with whatever command lines and answers, it never destroys,
renames or unmounts the filesystem the system runs from. -/
theorem running_untouched {running : CStr} {s t : Sys}
    (hrun : ReflTransGen (Invocation running) s t) :
    (∀ e ∈ since s t, ¬ ActsOn e.1 running) ∧ (running ∈ s.names → running ∈ t.names) := by
  have huntouched : Untouched running s t :=
    relation_of_steps (Untouched running) (fun u => Looked.untouched (.refl u))
      (fun _ _ _ => Untouched.trans) (fun _ _ => Invocation.untouched) hrun
  obtain ⟨new, htrace, hnew⟩ := huntouched.calls
  rw [since_of_trace htrace]
  exact ⟨hnew, huntouched.names⟩

theorem sampleMachine_serves : Serves "rpool/ROOT/a" sampleMachine (sampleSys []) where
  root := rfl
  fs := by decide
  pools := by
    have hnone : bootPoolOf sampleMachine (sampleSys []) = none := by decide +kernel
    rw [hnone]
    exact nofun

theorem running_untouched_sample :
    let t := (zectlMain sampleMachine ["zectl", "destroy", "-F", "a"] (sampleSys [])).2
    (∀ e ∈ since (sampleSys []) t, ¬ ActsOn e.1 "rpool/ROOT/a") ∧
      ("rpool/ROOT/a".toList ∈ (sampleSys []).names → "rpool/ROOT/a".toList ∈ t.names) :=
  running_untouched (.single ⟨sampleMachine, _, sampleMachine_serves, rfl⟩)

end Sequence

/-! ## The boot file system -/

/-- `bootfs` names a filesystem directly below the root of the environments. -/
structure Bootable (root : CStr) (s : Sys) : Prop where
  path : ∃ be, '/' ∉ be ∧ s.bootfs = root ++ '/' :: be
  there : s.bootfs ∈ s.names
  fs : isSnapshotName s.bootfs = false
  short : s.bootfs.length < zfsMaxDatasetNameLen

/-- What `activate` is given is a name and no path. -/
def ActivatesName (argv : List CStr) : Prop :=
  ∀ args opts be, argv.tail = ("activate" : CStr) :: args →
    getopt ("y" : CStr) none args = .ok (opts, [be]) → '/' ∉ be

/-- One run of the program on an environment directly below the root. -/
def NamedInvocation (root : CStr) (s t : Sys) : Prop :=
  ∃ m argv be, '/' ∉ be ∧ Serves (root ++ '/' :: be) m s ∧ ActivatesName argv ∧
    t = (zectlMain m argv s).2

section Boot
variable {root : CStr} {m : Machine} {host : Host} {h : Handle} {s t : Sys}

theorem Bootable.of_same (hs : Bootable root s) (hbootfs : t.bootfs = s.bootfs)
    (hnames : s.bootfs ∈ t.names) : Bootable root t := by
  obtain ⟨hpath, _, hfs, hshort⟩ := hs
  rw [← hbootfs] at hpath hnames hfs hshort
  exact ⟨hpath, hnames, hfs, hshort⟩

theorem Bootable.looked (hs : Bootable root s) (hst : Looked s t) : Bootable root t :=
  hs.of_same hst.same.bootfs (hst.same.names ▸ hs.there)

theorem getCommand_eq_some {map : List (CStr × CommandFunc)} {name : CStr} {command : CommandFunc}
    (hget : getCommand map name = some command) : (name, command) ∈ map := by
  have hfold : ∀ (map : List (CStr × CommandFunc)) (start : Option CommandFunc),
      map.foldl (fun command entry => if name = entry.1 then some entry.2 else command) start =
        some command → start = some command ∨ (name, command) ∈ map := by
    intro map
    induction map with
    | nil => exact fun start hstart => .inl hstart
    | cons entry rest ih =>
      intro start hstart
      obtain hstart | hmem := ih _ hstart
      · dsimp only at hstart
        split at hstart
        · rename_i heq
          cases hstart
          exact .inr (by rw [heq]; exact List.mem_cons_self)
        · exact .inl hstart
      · exact .inr (List.mem_cons_of_mem _ hmem)
  obtain hnone | hmem := hfold map none hget
  · cases hnone
  · exact hmem

theorem name_of_activate {name : CStr} (hget : getCommand zeCommandMap name = some .activate) :
    name = ("activate" : CStr) := by
  have hmem := getCommand_eq_some hget
  simpa [zeCommandMap] using hmem

/-- `activate` leaves `bootfs` alone or sets it to the environment it is given. -/
theorem zeActivate_bootfs {argv : List CStr} :
    (zeActivate host h argv s).2.bootfs = s.bootfs ∨ ∃ opts be,
      getopt ("y" : CStr) none argv.tail = .ok (opts, [be]) ∧
      (zeActivate host h argv s).2.bootfs = h.beDataset be ∧ Fits h be ∧ Exists h s be := by
  unfold zeActivate withOptions
  cases hopt : getopt ("y" : CStr) none argv.tail with
  | error optopt => exact .inl rfl
  | ok found =>
    obtain ⟨opts, operands⟩ := found
    dsimp only
    rcases operands with _ | ⟨be, _ | ⟨be', rest⟩⟩
    · exact .inl rfl
    · dsimp only
      rw [run_ite]
      split
      · exact .inl rfl
      rw [run_ite]
      split
      · exact .inl rfl
      rcases hrun : libzeActivate host h be s with ⟨r, t⟩
      have hsilent : (silent (libzeActivate host h be) s).2 = t := by
        rw [silent, run_bind, hrun]
        rfl
      rw [hsilent]
      obtain hsame | ⟨hset, hfits, hexists⟩ := libzeActivate_bootfs hrun
      · exact .inl hsame
      · exact .inr ⟨opts, be, rfl, hset, hfits, hexists⟩
    · exact .inl rfl

/-- The handle of a run on a root where `bootfs` is right. -/
theorem rooted_of_bootable {be warning : CStr} {u : Sys} (hs : Bootable root s) (hflat : '/' ∉ be)
    (hserves : Serves (root ++ '/' :: be) m s) (hopen : openSystem m s = (.ok (h, warning), u)) :
    h.envRoot = root ∧ h.envActivatedPath = s.bootfs ∧ Rooted h := by
  obtain ⟨hrunning, -⟩ := hserves.separated hopen
  have hroot : h.envRoot = root := by
    rw [h.runningPath_eq] at hrunning
    exact (append_cons_inj h.running_flat hflat hrunning).1
  have hactivated : h.envActivatedPath = s.bootfs := by
    rw [(openSystem_opened hopen).activated, bootfsBuf, take_of_fits hs.short]
  obtain ⟨active, hactive, hpath⟩ := hs.path
  obtain ⟨before, hbefore⟩ := h.activatedPath_eq
  have hname : h.envActivated = active ∧ before = root := by
    have heq := hbefore.symm.trans (hactivated.trans hpath)
    obtain ⟨hpre, hsuf⟩ := append_cons_inj h.activated_flat hactive heq
    exact ⟨hsuf, hpre⟩
  refine ⟨hroot, hactivated, ?_, by rw [hactivated]; exact hs.fs⟩
  rw [hactivated, hpath, Handle.beDataset, hroot, hname.1]

theorem NamedInvocation.bootable (hs : Bootable root s) (hst : NamedInvocation root s t) :
    Bootable root t := by
  obtain ⟨m, argv, be, hflat, hserves, hactivates, rfl⟩ := hst
  cases mainRun m argv s with
  | looked ht => exact hs.looked ht
  | @ran h warning name args u command hopen hargv hcommand ht =>
    obtain ⟨-, hsep⟩ := hserves.separated hopen
    obtain ⟨hroot, hactivated, hrooted⟩ := rooted_of_bootable hs hflat hserves hopen
    have hu := hs.looked (openSystem_looks.looked hopen)
    have hbootfs : u.bootfs = h.envActivatedPath := by
      rw [hactivated, ((openSystem_looks (m := m)).looked hopen).same.bootfs]
    have hcareful := @command_careful m.host m.clock h hsep command (name :: args)
    rw [ht]
    by_cases hactivate : command = .activate
    · subst hactivate
      have hkeep : ∀ n, isSnapshotName n = false → n ∈ u.names →
          n ∈ (CommandFunc.activate.run m.host m.clock h (name :: args) u).2.names :=
        fun n hfs hn => names_of_careful hcareful (fun c hc => hc.removes rfl n) hfs hn
      obtain hsame | ⟨opts, be', hopt, hset, hfits, hexists⟩ :=
        @zeActivate_bootfs m.host h u (name :: args)
      · exact hu.of_same hsame (hkeep _ hu.fs hu.there)
      · obtain ⟨hmem, hfs⟩ := exists_filesystem hexists.root
        have hbe : '/' ∉ be' := by
          rw [name_of_activate hcommand] at hargv
          exact hactivates args opts be' hargv hopt
        have hpath : (CommandFunc.activate.run m.host m.clock h (name :: args) u).2.bootfs =
            h.beDataset be' := hset
        refine ⟨⟨be', hbe, by rw [hpath, Handle.beDataset, hroot]⟩, ?_, ?_, ?_⟩
        · rw [hpath]
          exact hkeep _ hfs hmem
        · rwa [hpath]
        · rw [hpath]
          exact hfits.root
    · have hsame := bootfs_of_careful hcareful hactivate hrooted hbootfs
      refine hu.of_same (hsame.trans hbootfs.symm) ?_
      rw [hbootfs]
      refine names_of_careful hcareful (fun c hc => hc.activated hrooted) hrooted.fs ?_
      rw [← hbootfs]
      exact hu.there

/-- However often the program runs, the pool goes on to boot from a filesystem that is there,
directly below the root, provided that `activate` is given names. -/
theorem bootable_preserved {root : CStr} {s t : Sys} (hs : Bootable root s)
    (hrun : ReflTransGen (NamedInvocation root) s t) : Bootable root t :=
  invariant_of_steps (Bootable root) (fun _ _ hst hu => hst.bootable hu) hrun hs

theorem bootable_preserved_sample : Bootable "rpool/ROOT"
    (zectlMain sampleMachine ["zectl", "activate", "b"] (sampleSys [])).2 := by
  have hs : Bootable "rpool/ROOT" (sampleSys []) :=
    ⟨⟨"a", by decide, rfl⟩, by decide, by decide, by decide⟩
  have hname : ActivatesName ["zectl", "activate", "b"] := by
    intro args opts be hargs hopt
    cases hargs
    cases hopt
    decide
  exact bootable_preserved hs
    (.single ⟨sampleMachine, _, "a", by decide, sampleMachine_serves, hname, rfl⟩)

end Boot

end Zectl.Command.Runs
