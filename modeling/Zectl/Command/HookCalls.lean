import Zectl.Command.Calls

/-!
# The hooks of a command

Which hooks a command calls, in which order, and what it does to the environments directly below
the root. Without a boot pool a creation, a destruction or a rename that succeeds has called one
hook, at its end, for the environment it has changed. An activation and a snapshot change none.
-/

namespace Zectl.Command.HookCalls

open Zectl.Lib.StateRun Zectl.Lib.PathOrder Zectl.Util.CString Zectl.Zfs.System Zectl.Zfs.Steps
open Zectl.Zfs.Forest Zectl.Libze.Init Zectl.Libze.Validate Zectl.Libze.Activate Zectl.Libze.Clone
open Zectl.Libze.Mount Zectl.Libze.Create Zectl.Libze.Destroy Zectl.Libze.DestroyOutcome
open Zectl.Libze.Rename Zectl.Libze.Snapshot Zectl.Command.Calls

def hookCall? : Call × Nat → Option (Hook × Nat)
  | (.hook k, code) => some (k, code)
  | _ => none

/-- The hooks called between two states with the codes they returned, the first one first. -/
def hooksBetween (s t : Sys) : List (Hook × Nat) := (since s t).reverse.filterMap hookCall?

/-- A run from one state to the other calls these hooks. -/
def Ran (s : Sys) (hooks : List (Hook × Nat)) (t : Sys) : Prop :=
  ∃ new, t.trace = new ++ s.trace ∧ new.reverse.filterMap hookCall? = hooks

section Traces
variable {host : Host} {may : Call → Prop} {α : Type} {m : Libze α} {a : α} {s t u : Sys}
  {hooks hooks' : List (Hook × Nat)}

theorem Ran.hooksBetween (h : Ran s hooks t) : HookCalls.hooksBetween s t = hooks := by
  obtain ⟨new, ht, hhooks⟩ := h
  rw [HookCalls.hooksBetween, since_of_trace ht, hhooks]

theorem Ran.trans (hst : Ran s hooks t) (htu : Ran t hooks' u) : Ran s (hooks ++ hooks') u := by
  obtain ⟨new, ht, rfl⟩ := hst
  obtain ⟨new', hu, rfl⟩ := htu
  refine ⟨new' ++ new, by rw [hu, ht, List.append_assoc], ?_⟩
  rw [List.reverse_append, List.filterMap_append]

theorem ran_nil {new : List (Call × Nat)} (ht : t.trace = new ++ s.trace)
    (hnew : ∀ e ∈ new, ∀ k, e.1 ≠ .hook k) : Ran s [] t := by
  refine ⟨new, ht, List.filterMap_eq_nil_iff.mpr fun e he => ?_⟩
  obtain ⟨c, code⟩ := e
  cases c with
  | hook k => exact absurd rfl (hnew _ (List.mem_reverse.mp he) k)
  | zfs c | file c => rfl

theorem ran_of_quiet (hm : Issues host may m) (hno : ∀ k, ¬ may (.hook k)) (hr : m s = (a, t)) :
    Ran s [] t := by
  obtain ⟨new, ht, hnew⟩ := hm.trace s
  rw [hr] at ht
  refine ran_nil ht fun e he k heq => hno k ?_
  rw [← heq]
  exact hnew e he

theorem ran_hook {k : Hook} {code : Nat} (hr : call host (.hook k) s = (code, t)) :
    Ran s [(k, code)] t := ⟨[(.hook k, code)], call_trace hr, rfl⟩

/-- The hooks are among those that may be called. -/
theorem may_of_mem_hooksBetween (hm : Issues host may m) (hr : m s = (a, t)) {k : Hook × Nat}
    (hk : k ∈ hooksBetween s t) : may (.hook k.1) := by
  obtain ⟨⟨c, code⟩, hmem, hcall⟩ := List.mem_filterMap.mp hk
  have hsince := hm.since s (c, code)
  rw [hr] at hsince
  have hc := hsince (List.mem_reverse.mp hmem)
  cases c with
  | zfs c | file c => cases hcall
  | hook k' =>
    obtain rfl := Option.some.inj hcall
    exact hc

/-- What mounts a dataset for any hook calls none itself. -/
theorem ran_of_mount {beZh : CStr} (hm : ∀ hook, Issues host (MountCall beZh hook) m)
    (hr : m s = (a, t)) : Ran s [] t := by
  obtain ⟨new, ht, hnew⟩ := (hm fun _ => .preActivate).trace s
  have hsince := (hm fun _ => .postActivate []).since s
  rw [since_of_trace ht] at hsince
  rw [hr] at ht
  refine ran_nil ht fun e he k heq => ?_
  have hfirst := hnew e he
  have hsecond := hsince e he
  rw [heq] at hfirst hsecond
  cases hfirst
  cases hsecond

theorem hookInMount_ran {h : Handle} {beName beZh message : CStr} {hook : CStr → Hook}
    (hr : hookInMount host h beName beZh hook message s = (.success, t)) :
    ∃ dir, Ran s [(hook dir, 0)] t := by
  unfold hookInMount at hr
  obtain ⟨⟨ret, dir⟩, s1, hmount, hr⟩ := bind_run hr
  have hmounts : ∀ hook, Issues host (MountCall beZh hook) (mountForHook host h beName beZh) :=
    fun hook => moves_ite (fun _ => moves_pure _) fun _ => tempMountBe_issues _
  have hs1 := ran_of_mount hmounts hmount
  dsimp only at hr
  split at hr
  · rename_i hret
    cases hr
    exact absurd rfl hret
  obtain ⟨code, s2, hhook, hr⟩ := bind_run hr
  split at hr
  · cases hr
  rename_i hcode
  rw [not_not.mp hcode] at hhook
  refine ⟨dir, ?_⟩
  have hs2 := hs1.trans (ran_hook hhook)
  split at hr
  · cases hr
    exact hs2
  · exact hs2.trans (ran_of_mount (fun hook => tempUnmountBe_issues dir) hr)

end Traces

/-! ## A creation -/

section Commands
variable {host : Host} {h : Handle} {s t : Sys} {x : CStr}

theorem beDataset_inj {be : CStr} (heq : h.beDataset be = h.beDataset x) : be = x := by
  simpa [Handle.beDataset] using heq

theorem libzeCreate_ran {options : CreateOptions} (hfuncs : h.lzFuncs = true)
    (hbp : h.bootpool = none) (hr : libzeCreate host h options s = (.success, t)) :
    ∃ dir isSnap, Ran s [(.postCreate options.beName dir isSnap, 0)] t := by
  have hlook : ∀ k, ¬ IsLookup (.hook k) := fun k hc => hc
  unfold libzeCreate at hr
  obtain ⟨⟨ret, names⟩, s1, hvalid, hr⟩ := bind_run hr
  have hs1 := ran_of_quiet (validateNewBe_issues host h options.beName) hlook hvalid
  dsimp only at hr
  split at hr
  · rename_i hret
    cases hr
    exact absurd rfl hret
  obtain ⟨⟨ret, cdata, bootPoolCdata⟩, s2, hsources, hr⟩ := bind_run hr
  have hs2 := hs1.trans (ran_of_quiet createSources_issues
    (fun k hc => hc.elim id fun ⟨_, _, heq⟩ => nomatch heq) hsources)
  dsimp only at hr
  split at hr
  · rename_i hret
    cases hr
    exact absurd rfl hret
  obtain ⟨⟨ret, newDs, newBds⟩, s3, hvalid', hr⟩ := bind_run hr
  have hs3 := hs2.trans (ran_of_quiet (validateNewBe_issues host h options.beName) hlook hvalid')
  dsimp only at hr
  split at hr
  · rename_i hret
    cases hr
    exact absurd rfl hret
  rename_i hret
  rw [not_not.mp hret] at hvalid'
  obtain ⟨rfl, rfl, -, -⟩ := validateNewBe_success hvalid'
  obtain ⟨ret, s4, hclone, hr⟩ := bind_run hr
  have hclones : ∀ k, ¬ CloneCall (h.beDataset options.beName) (.hook k) := by
    intro k hc
    cases hc with
    | lookup hc => exact hc
  have hs4 := hs3.trans (ran_of_quiet (libzeClone_issues options.recursive) hclones hclone)
  split at hr
  · cases hr
  obtain ⟨ret, s5, hboot, hr⟩ := bind_run hr
  rw [bpoolDataset_none hbp, cloneBootDataset, if_pos rfl] at hboot
  obtain ⟨rfl, rfl⟩ := Prod.mk.inj hboot
  rw [if_neg (by decide)] at hr
  unfold postCreate at hr
  rw [if_neg (by simp [hfuncs])] at hr
  obtain ⟨⟨ret, ds, bds⟩, s6, hopen, hr⟩ := bind_run hr
  have hs6 := hs4.trans (ran_of_quiet (openBootEnvironment_issues host h options.beName) hlook hopen)
  dsimp only at hr
  split at hr
  · rename_i hret
    cases hr
    exact absurd rfl hret
  obtain ⟨dir, hhook⟩ := hookInMount_ran hr
  exact ⟨dir, cdata.isSnap, hs6.trans hhook⟩

/-- An environment below the root that is there behind a creation was there or is the new one. -/
theorem libzeCreate_environments {options : CreateOptions} (hbp : h.bootpool = none)
    (hr : libzeCreate host h options s = (.success, t)) (hflat : '/' ∉ x)
    (hfs : isSnapshotName (h.beDataset x) = false) :
    h.beDataset x ∈ t.names ↔ h.beDataset x ∈ s.names ∨ x = options.beName := by
  have hcalls := (@libzeCreate_issues host h options).since s
  rw [hr] at hcalls
  constructor
  · intro hmem
    obtain hmem | ⟨snap, props, hcloned⟩ := (libzeCreate_names hr hfs).mp hmem
    · exact .inl hmem
    right
    cases hcalls _ hcloned with
    | lookup hc => exact hc.elim
    | boot hboot => simp [hbp] at hboot
    | mount hc => cases hc
    | root hc =>
      cases hc with
      | lookup hc => exact hc.elim
      | clone _ htarget =>
        obtain heq | heq | ⟨path, -, heq⟩ := htarget
        · exact beDataset_inj heq
        · simp [Handle.beDataset] at heq
        · have hname : x = options.beName ++ path ++ "/".toList := by
            simpa [Handle.beDataset] using heq
          exact absurd (by rw [hname]; simp) hflat
  · rintro (hmem | rfl)
    · exact (libzeCreate_names hr hfs).mpr (.inl hmem)
    · obtain ⟨_, _, s3, s4, s5, cdata, bootPoolCdata, -, -, -, -, hclone, hboot, hgrow⟩ :=
        libzeCreate_success hr
      rw [bpoolDataset_none hbp, cloneBootDataset, if_pos rfl] at hboot
      obtain ⟨-, rfl⟩ := Prod.mk.inj hboot
      obtain ⟨u, v, props, -, -, hcall, hgrow'⟩ := libzeClone_success hclone
      have hnew : h.beDataset options.beName ∈ v.names := by
        rw [(call_done hcall).2]
        simp [Call.effect, ZfsCall.effect, Sys.names]
      exact (hgrow'.trans hgrow).names hnew

/-! ## A destruction -/

theorem libzeDestroy_ran {options : DestroyOptions} (hfuncs : h.lzFuncs = true)
    (hbp : h.bootpool = none) (hname : isSnapshotName options.beName = false)
    (hr : libzeDestroy host h options s = (.success, t)) :
    Ran s [(.postDestroy options.beName, 0)] t := by
  rw [libzeDestroy_of_flat hname] at hr
  unfold destroyBootEnvironment at hr
  obtain ⟨⟨ret, ds, bds⟩, s1, hopen, hr⟩ := bind_run hr
  have hs1 := ran_of_quiet (openBootEnvironment_issues host h options.beName) (fun k hc => hc) hopen
  dsimp only at hr
  split at hr
  · rename_i hret
    cases hr
    exact absurd rfl hret
  rename_i hret
  rw [not_not.mp hret] at hopen
  obtain ⟨rfl, rfl, -, -⟩ := openBootEnvironment_success hopen
  split at hr
  · cases hr
  split at hr
  · cases hr
  obtain ⟨ret, s2, hdestroy, hr⟩ := bind_run hr
  have hissues : Issues host (MayDestroy fun _ => True)
      (destroyFilesystem host options (h.beDataset options.beName)) :=
    destroyFilesystem_issues (fun _ _ => trivial) fun _ _ => trivial
  have hs2 := hs1.trans (ran_of_quiet hissues (fun k hc => hc) hdestroy)
  split at hr
  · cases hr
  rw [if_neg (by simp [bpoolDataset_none hbp])] at hr
  unfold pluginPostDestroy at hr
  rw [if_pos hfuncs] at hr
  obtain ⟨code, s3, hhook, hr⟩ := bind_run hr
  split at hr
  · cases hr
  rename_i hcode
  cases hr
  rw [not_not.mp hcode] at hhook
  exact hs2.trans (ran_hook hhook)

/-- Of the environments below the root a destruction takes the one it is for. -/
theorem libzeDestroy_environments {options : DestroyOptions} (hs : IsForest s.names)
    (hbp : h.bootpool = none) (hname : isSnapshotName options.beName = false)
    (hr : libzeDestroy host h options s = (.success, t)) (hflat : '/' ∉ x)
    (hfs : isSnapshotName (h.beDataset x) = false) :
    h.beDataset x ∈ t.names ↔ h.beDataset x ∈ s.names ∧ x ≠ options.beName := by
  rw [libzeDestroy_names hr]
  refine and_congr_right fun hmem => ?_
  constructor
  · rintro hkept rfl
    have hgone := (libzeDestroy_gone hs hname hr).1 _ under_refl
    rw [libzeDestroy_names hr] at hgone
    exact hgone ⟨hmem, hkept⟩
  · intro hne hcall
    have hcalls := (libzeDestroy_issues host h options).since s
    rw [hr] at hcalls
    cases hcalls _ hcall with
    | lookup hc => exact hc.elim
    | pool _ hc =>
      obtain hbelow | ⟨bp, hboot, -⟩ | hsnap := hc
      · exact hne (eq_of_atOrBelow hflat hfs hbelow).symm
      · simp [hbp] at hboot
      · rw [hfs] at hsnap
        cases hsnap

/-! ## A rename -/

theorem ofCode_eq_success {code : Nat} (heq : LibzeError.ofCode code = .success) : code = 0 := by
  by_contra hne
  exact ofCode_ne_success hne heq

/-- The stages of a rename that succeeds without a boot pool. -/
theorem libzeRename_ran {be newBe : CStr} (hfuncs : h.lzFuncs = true) (hbp : h.bootpool = none)
    (hr : libzeRename host h be newBe s = (.success, t)) :
    Ran s [(.postRename be newBe, 0)] t ∧ Renamable h s be newBe ∧
      t.names = s.names.map (renamePath (h.beDataset be) (h.beDataset newBe)) := by
  cases renameBe hr with
  | refused hno _ => exact absurd rfl hno
  | rootFailed _ _ _ _ hno _ => exact absurd rfl hno
  | @rootRenamed r' s1 s2 s3 _ hbe hs hroot hboot hpost =>
    rw [bpoolDataset_none hbp, renameBootDataset, if_neg (by simp)] at hboot
    obtain ⟨rfl, rfl⟩ := Prod.mk.inj hboot
    obtain ⟨hno, -, -⟩ | ⟨code, -, hhook, hcode⟩ := hpost
    · rw [hfuncs] at hno
      cases hno
    obtain rfl := ofCode_eq_success hcode.symm
    obtain ⟨new, ht, hnew⟩ := hs.trace
    have hs1 : Ran s [] s1 := ran_nil ht fun e he k heq => by
      have hlook := hnew e he
      rw [heq] at hlook
      exact hlook
    have hs2 : Ran s1 [] s2 := ⟨[_], call_trace hroot, rfl⟩
    refine ⟨(hs1.trans hs2).trans (ran_hook hhook), hbe, ?_⟩
    rw [(call_done hhook).2, (call_done hroot).2]
    show ((s1.datasets.map _).map Dataset.name) = _
    rw [List.map_map, ← hs.same.names, Sys.names, List.map_map]
    rfl

/-- The environments below the root behind a rename. -/
theorem libzeRename_environments {be newBe : CStr} (hfuncs : h.lzFuncs = true)
    (hbp : h.bootpool = none) (hr : libzeRename host h be newBe s = (.success, t)) (hflat : '/' ∉ x)
    (hfs : isSnapshotName (h.beDataset x) = false) :
    h.beDataset x ∈ t.names ↔ x = newBe ∨ h.beDataset x ∈ s.names ∧ x ≠ be := by
  obtain ⟨-, hbe, hnames⟩ := libzeRename_ran hfuncs hbp hr
  rw [hnames, List.mem_map]
  constructor
  · rintro ⟨m, hm, heq⟩
    unfold renamePath at heq
    split at heq
    · rename_i hbelow
      left
      obtain rfl | ⟨sep, rest, hsep, rfl⟩ := hbelow
      · rw [List.drop_length, List.append_nil] at heq
        exact (beDataset_inj heq).symm
      · -- what lies below an environment has a separator that the name of `x` has not
        rw [List.drop_left] at heq
        have hbelow : AtOrBelow (h.beDataset newBe) (h.beDataset x) :=
          heq ▸ under_append hsep rest
        exact (eq_of_atOrBelow hflat hfs hbelow).symm
    · rename_i hnot
      subst heq
      refine .inr ⟨hm, ?_⟩
      rintro rfl
      exact hnot under_refl
  · rintro (rfl | ⟨hmem, hne⟩)
    · exact ⟨h.beDataset be, (exists_filesystem hbe.exist.root).1, by simp [renamePath, under_refl]⟩
    · refine ⟨_, hmem, if_neg fun hbelow => hne (eq_of_atOrBelow hflat hfs hbelow).symm⟩

/-! ## An activation and a snapshot -/

theorem activateCall_filesystems {be : CStr} {c : Call} (hc : ActivateCall h be c) (u : Sys) :
    filesystems (c.effect host u) = filesystems u := by
  cases hc with
  | pass hc => exact hc.filesystems u
  | before | behind | setBootfs => rfl
  | mid hc =>
    cases hc with
    | hook => rfl
    | around _ hc => exact congrArg (List.filter _) (hc.shape u).names

theorem snapshotCall_filesystems {c : Call} (hc : SnapshotCall c) (u : Sys) :
    filesystems (c.effect host u) = filesystems u := by
  cases hc with
  | look hc => rw [lookup_effect hc]
  | hook => rfl
  | snapshot name =>
    have hnew : ((u.newSnapshots name true).map Dataset.name).filter (¬ isSnapshotName ·) = [] := by
      rw [List.filter_eq_nil_iff]
      intro n hn
      obtain ⟨d, hd, rfl⟩ := List.mem_map.mp hn
      simp [isSnapshotName_of_newSnapshots hd]
    show ((u.datasets ++ u.newSnapshots name true).map Dataset.name).filter _ = _
    rw [List.map_append, List.filter_append, hnew, List.append_nil]
    rfl

theorem filesystems_of_issues {α : Type} {may : Call → Prop} {m : Libze α}
    (hm : Issues host may m)
    (hkeep : ∀ c, may c → ∀ u, filesystems (c.effect host u) = filesystems u) {a : α}
    (hr : m s = (a, t)) : filesystems t = filesystems s := by
  have hall := hm.keeps (fun u => filesystems u = filesystems s) (fun _ _ _ _ hu => hu)
    (fun u c hc _ hu => (hkeep c hc u).trans hu) (rfl : filesystems s = filesystems s)
  rwa [hr] at hall

theorem mem_names_iff {n : CStr} (hsame : filesystems t = filesystems s)
    (hfs : isSnapshotName n = false) : n ∈ t.names ↔ n ∈ s.names := by
  have hmem : ∀ u : Sys, n ∈ filesystems u ↔ n ∈ u.names := fun u => by
    simp [filesystems, hfs]
  rw [← hmem, hsame, hmem]

end Commands

end Zectl.Command.HookCalls
