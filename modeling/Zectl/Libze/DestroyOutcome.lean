import Zectl.Libze.Destroy
import Zectl.Libze.Sample

/-!
# What `libze_destroy` leaves

The ends of a run of `libze_destroy` on a name without `@`, and from them what is
gone and whether the plugin was told when it succeeds, and what is still there when
it fails. Nothing is restored after a failure.
-/

namespace Zectl.Libze.DestroyOutcome

open Zectl.Lib.StateRun Zectl.Lib.PathOrder Zectl.Util.CString Zectl.Zfs.System Zectl.Zfs.Steps
open Zectl.Zfs.Forest Zectl.Libze.Init Zectl.Libze.Validate Zectl.Libze.Destroy Zectl.Libze.Sample

section Outcomes
variable {host : Host} {h : Handle} {options : DestroyOptions} {s t : Sys}

/-- The name passes the checks in front of the destruction, and the environment can be opened. -/
structure Destroyable (host : Host) (h : Handle) (s : Sys) (be : CStr) : Prop where
  opened : ∃ t, openBootEnvironment host h be s =
    ((.success, h.beDataset be, h.bpoolDataset be), t)
  notActivated : h.envActivatedPath ≠ h.beDataset be
  notRunning : h.envRunningPath ≠ h.beDataset be

theorem Destroyable.exist {be : CStr} (hbe : Destroyable host h s be) : Exists h s be := by
  obtain ⟨t, hopen⟩ := hbe.opened
  exact (openBootEnvironment_success hopen).2.2.2

/-- How a run on a name without `@` can end. -/
inductive DestroyBe (host : Host) (h : Handle) (options : DestroyOptions) (s : Sys) :
    LibzeError → Sys → Prop
  | refused {r : LibzeError} {t : Sys} (hr : r ≠ .success) (ht : Looked s t) :
      DestroyBe host h options s r t
  | rootFailed {r : LibzeError} {c : Int} {s1 s2 t : Sys}
      (hbe : Destroyable host h s options.beName) (hs : Looked s s1)
      (hroot : runDestroyCb host options (h.beDataset options.beName) s1 = (c, s2)) (hc : c ≠ 0)
      (hr : r ≠ .success) (ht : Looked s2 t) : DestroyBe host h options s r t
  | rootOnly {r : LibzeError} {s1 s2 t : Sys} (hbp : h.bootpool = none)
      (hbe : Destroyable host h s options.beName) (hs : Looked s s1)
      (hroot : runDestroyCb host options (h.beDataset options.beName) s1 = (0, s2))
      (hgrow : s.trace <:+ s2.trace)
      (hpost : pluginPostDestroy host h options.beName s2 = (r, t)) :
      DestroyBe host h options s r t
  | bootFailed {bp : Bootpool} {r : LibzeError} {c : Int} {s1 s2 s3 t : Sys}
      (hbp : h.bootpool = some bp) (hbe : Destroyable host h s options.beName) (hs : Looked s s1)
      (hroot : runDestroyCb host options (h.beDataset options.beName) s1 = (0, s2))
      (hboot : runDestroyCb host options (bp.beDataset options.beName) s2 = (c, s3)) (hc : c ≠ 0)
      (hr : r ≠ .success) (ht : Looked s3 t) : DestroyBe host h options s r t
  | bothDone {bp : Bootpool} {s1 s2 t : Sys}
      (hbp : h.bootpool = some bp) (hbe : Destroyable host h s options.beName) (hs : Looked s s1)
      (hroot : runDestroyCb host options (h.beDataset options.beName) s1 = (0, s2))
      (hboot : runDestroyCb host options (bp.beDataset options.beName) s2 = (0, t)) :
      DestroyBe host h options s .success t

/-- How `destroy_filesystem` can end. -/
theorem destroyFilesystem_cases {ds : CStr} {r : LibzeError}
    (hr : destroyFilesystem host options ds s = (r, t)) :
    (r ≠ .success ∧ Looked s t) ∨ ∃ c s1, Looked s s1 ∧
      runDestroyCb host options ds s1 = (c, t) ∧ (r = .success ↔ c = 0) := by
  unfold destroyFilesystem at hr
  rw [run_get_bind] at hr
  split at hr
  · cases hr
    exact .inl ⟨by decide, (Looked.refl s).error _ _⟩
  obtain ⟨opened, s1, hopen, hr⟩ := bind_run hr
  have hs1 := zfsOpen_looked hopen
  split at hr
  · cases hr
    exact .inl ⟨by decide, hs1.error _ _⟩
  obtain ⟨c, s2, hcb, hr⟩ := bind_run hr
  split at hr
  · rename_i hc
    cases hr
    exact .inr ⟨c, s1, hs1, hcb, by simpa using hc⟩
  · rename_i hc
    cases hr
    exact .inr ⟨c, s1, hs1, hcb, by simpa using hc⟩

theorem destroyBe {r : LibzeError} (hr : destroyBootEnvironment host h options s = (r, t)) :
    DestroyBe host h options s r t := by
  unfold destroyBootEnvironment at hr
  obtain ⟨⟨ret, ds, bds⟩, s1, hopen, hr⟩ := bind_run hr
  have hs1 : Looked s s1 := (openBootEnvironment_issues host h _).looked hopen
  dsimp only at hr
  split at hr
  · rename_i hret
    cases hr
    exact .refused hret (hs1.error _ _)
  rename_i hret
  rw [not_not.mp hret] at hopen
  obtain ⟨rfl, rfl, -, -⟩ := openBootEnvironment_success hopen
  have hslash := beDataset_slash h options.beName
  split at hr
  · cases hr
    exact .refused (by decide) (hs1.error _ _)
  rename_i hactive
  split at hr
  · cases hr
    exact .refused (by decide) (hs1.error _ _)
  rename_i hroot
  have hbe : Destroyable host h s options.beName := by
    refine ⟨⟨s1, hopen⟩, ?_, ?_⟩
    · simpa [libzeIsActiveBe, hslash] using hactive
    · simpa [libzeIsRootBe, hslash] using hroot
  obtain ⟨r1, s2, hfs, hr⟩ := bind_run hr
  have hgrow : s.trace <:+ s2.trace := by
    have hissues : Issues host (MayDestroy fun _ => True)
        (destroyFilesystem host options (h.beDataset options.beName)) :=
      destroyFilesystem_issues (fun _ _ => trivial) fun _ _ => trivial
    exact ((openBootEnvironment_issues host h _).suffix hopen).trans (hissues.suffix hfs)
  obtain ⟨hr1, hs2⟩ | ⟨c, s1', hs1', hcb, hiff⟩ := destroyFilesystem_cases hfs
  · rw [if_pos hr1] at hr
    cases hr
    exact .refused (by decide) ((hs1.trans hs2).error _ _)
  have hs := hs1.trans hs1'
  split at hr
  · rename_i hr1
    cases hr
    exact .rootFailed hbe hs hcb (fun hc => hr1 (hiff.mpr hc)) (by decide) ((Looked.refl _).error _ _)
  rename_i hr1
  rw [hiff.mp (not_not.mp hr1)] at hcb
  cases hbp : h.bootpool with
  | none =>
    rw [bpoolDataset_none hbp, if_neg (by simp)] at hr
    exact .rootOnly hbp hbe hs hcb hgrow hr
  | some bp =>
    rw [bpoolDataset_some hbp, if_pos (bootBeDataset_ne_nil bp _)] at hr
    obtain ⟨c', s3, hboot, hr⟩ := bind_run hr
    split at hr
    · rename_i hc'
      cases hr
      exact .bootFailed hbp hbe hs hcb hboot hc' (by decide) ((Looked.refl _).error _ _)
    · rename_i hc'
      rw [not_not.mp hc'] at hboot
      cases hr
      exact .bothDone hbp hbe hs hcb hboot

end Outcomes

/-! ## The calls of `libze_destroy` -/

/-- The datasets of a boot environment on both pools with everything below them, and
all snapshots. -/
def InsideBe (h : Handle) (be n : CStr) : Prop :=
  AtOrBelow (h.beDataset be) n ∨ (∃ bp ∈ h.bootpool, AtOrBelow (bp.beDataset be) n) ∨
    isSnapshotName n = true

/-- What `libze_destroy` may call; only lookups before its two guards are passed. -/
inductive DestroyCall (h : Handle) (be : CStr) : Call → Prop
  | lookup {c : Call} (hc : IsLookup c) : DestroyCall h be c
  | pool {c : Call} (hguard : isSnapshotName be = false →
      h.envActivatedPath ≠ h.beDataset be ∧ h.envRunningPath ≠ h.beDataset be)
      (hc : MayDestroy (InsideBe h be) c) : DestroyCall h be c
  | hook (hbp : isSnapshotName be = false → h.bootpool = none) (hfuncs : h.lzFuncs = true) :
      DestroyCall h be (.hook (.postDestroy be))

section Calls
variable {host : Host} {h : Handle} {options : DestroyOptions}

theorem isSnapshotName_append {pfx n : CStr} (hn : isSnapshotName n = true) :
    isSnapshotName (pfx ++ n) = true := by
  simp only [isSnapshotName, decide_eq_true_eq] at hn ⊢
  exact List.mem_append_right pfx hn

theorem insideBe_snapshot {be n : CStr} (hn : isSnapshotName n = true) : InsideBe h be n :=
  .inr (.inr hn)

theorem pluginPostDestroy_issues {be : CStr}
    (hbp : isSnapshotName be = false → h.bootpool = none) :
    Issues host (DestroyCall h be) (pluginPostDestroy host h be) := by
  unfold pluginPostDestroy
  refine moves_ite (fun hfuncs => ?_) (fun _ => moves_pure _)
  refine moves_bind (issues_call (.hook hbp hfuncs)) fun code => ?_
  exact moves_ite (fun _ => moves_pure _) (fun _ => moves_pure _)

theorem runDestroyCb_clears (options : DestroyOptions) : Clears (runDestroyCb host options) :=
  fun hs hr => destroyCb_clears _ hs hr

theorem runDestroyCb_remains {ds : CStr} {s t : Sys} {r : Int}
    (hr : runDestroyCb host options ds s = (r, t)) : Remains s t :=
  @destroyCb_remains host options (recursionDepth s) ds s t r hr

theorem runDestroyCb_issues {ds be : CStr} (hsub : ∀ n, AtOrBelow ds n → InsideBe h be n)
    (hguard : isSnapshotName be = false →
      h.envActivatedPath ≠ h.beDataset be ∧ h.envRunningPath ≠ h.beDataset be) :
    Issues host (DestroyCall h be) (runDestroyCb host options ds) := by
  refine moves_bind moves_get fun s => ?_
  exact (destroyCb_issues (fun n => insideBe_snapshot) _ hsub).weaken fun c => .pool hguard

theorem destroyBootEnvironment_issues :
    Issues host (DestroyCall h options.beName) (destroyBootEnvironment host h options) := by
  unfold destroyBootEnvironment
  refine moves_bind_of ((openBootEnvironment_issues host h _).weaken fun c => .lookup) fun s => ?_
  rcases hopen : openBootEnvironment host h options.beName s with ⟨⟨ret, ds, bds⟩, s1⟩
  refine moves_ite (fun _ => moves_bind (issues_errorPrepend _ _) fun _ => moves_pure _)
    (fun hret => ?_) s1
  rw [not_not.mp hret] at hopen
  obtain ⟨rfl, rfl, -, -⟩ := openBootEnvironment_success hopen
  have hslash := beDataset_slash h options.beName
  refine moves_ite (fun _ => moves_bind (issues_errorSet _ _) fun _ => moves_pure _)
    (fun hactive => ?_)
  refine moves_ite (fun _ => moves_bind (issues_errorSet _ _) fun _ => moves_pure _)
    (fun hroot => ?_)
  have hguard : isSnapshotName options.beName = false →
      h.envActivatedPath ≠ h.beDataset options.beName ∧
        h.envRunningPath ≠ h.beDataset options.beName := fun _ =>
    ⟨by simpa [libzeIsActiveBe, hslash] using hactive, by simpa [libzeIsRootBe, hslash] using hroot⟩
  have hfs : Issues host (MayDestroy (InsideBe h options.beName))
      (destroyFilesystem host options (h.beDataset options.beName)) :=
    destroyFilesystem_issues (fun n => insideBe_snapshot) fun n => .inl
  refine moves_bind (hfs.weaken fun c => .pool hguard) fun r => ?_
  refine moves_ite (fun _ => moves_bind (issues_errorSet _ _) fun _ => moves_pure _) (fun _ => ?_)
  cases hbp : h.bootpool with
  | none =>
    rw [bpoolDataset_none hbp]
    exact moves_ite (fun hne => absurd rfl hne) (fun _ => pluginPostDestroy_issues fun _ => hbp)
  | some bp =>
    rw [bpoolDataset_some hbp]
    refine moves_ite (fun _ => ?_) (fun hne => ?_)
    · refine moves_bind (runDestroyCb_issues (fun n hn => .inr (.inl ⟨bp, hbp, hn⟩)) hguard)
        fun c => ?_
      exact moves_ite (fun _ => moves_bind (issues_errorSet _ _) fun _ => moves_pure _)
        (fun _ => moves_pure _)
    · exact absurd (bootBeDataset_ne_nil bp _) hne

theorem isSnapshotName_of_exists {s : Sys} {n : CStr}
    (hn : s.datasetExists n .snapshot = true) : isSnapshotName n = true := by
  simp only [Sys.datasetExists, decide_eq_true_eq, iff_true] at hn
  exact hn.2

theorem destroyed_snapshot {be n : CStr} {s : Sys} (hname : isSnapshotName be = true)
    (hn : ¬¬ s.datasetExists n .snapshot = true) : DestroyCall h be (.zfs (.destroy n)) := by
  refine .pool (fun hno => ?_) (insideBe_snapshot (isSnapshotName_of_exists (not_not.mp hn)))
  rw [hname] at hno
  cases hno

theorem destroyBootSnapshot_issues {be snapshotBpool : CStr} (hname : isSnapshotName be = true) :
    Issues host (DestroyCall h be) (destroyBootSnapshot host snapshotBpool) := by
  have herr : ∀ (err : LibzeError) (message : CStr), Issues host (DestroyCall h be)
      (libzeErrorSet err message >>= fun e => pure e) := fun err message =>
    moves_bind (issues_errorSet err message) fun _ => moves_pure _
  unfold destroyBootSnapshot
  refine moves_bind moves_get fun s => moves_ite (fun _ => herr _ _) (fun hexists => ?_)
  refine moves_bind (issues_zfsOpen (.lookup trivial)) fun opened => ?_
  refine moves_ite (fun _ => herr _ _) (fun _ => ?_)
  refine moves_bind (issues_call (destroyed_snapshot hname hexists)) fun code => ?_
  exact moves_ite (fun _ => herr _ _) (fun _ => moves_pure _)

theorem destroySnapshot_issues {snapshot snapshotBpool : CStr}
    (hname : isSnapshotName options.beName = true) :
    Issues host (DestroyCall h options.beName)
      (destroySnapshot host h options snapshot snapshotBpool) := by
  have herr : ∀ (err : LibzeError) (message : CStr), Issues host (DestroyCall h options.beName)
      (libzeErrorSet err message >>= fun e => pure e) := fun err message =>
    moves_bind (issues_errorSet err message) fun _ => moves_pure _
  unfold destroySnapshot
  refine moves_bind moves_get fun s => moves_ite (fun _ => herr _ _) (fun hexists => ?_)
  refine moves_bind ((validateExistingBe_issues host h _).weaken fun c => .lookup) fun ret => ?_
  refine moves_ite (fun _ => moves_bind (issues_errorPrepend _ _) fun _ => moves_pure _)
    (fun _ => ?_)
  refine moves_bind (issues_zfsOpen (.lookup trivial)) fun opened => ?_
  refine moves_ite (fun _ => herr _ _) (fun _ => ?_)
  refine moves_bind (issues_call (destroyed_snapshot hname hexists)) fun code => ?_
  exact moves_ite (fun _ => herr _ _) (fun _ => destroyBootSnapshot_issues hname)

theorem libzeDestroy_issues (host : Host) (h : Handle) (options : DestroyOptions) :
    Issues host (DestroyCall h options.beName) (libzeDestroy host h options) := by
  have herr : ∀ (err : LibzeError) (message : CStr), Issues host (DestroyCall h options.beName)
      (libzeErrorSet err message >>= fun e => pure e) := fun err message =>
    moves_bind (issues_errorSet err message) fun _ => moves_pure _
  unfold libzeDestroy
  refine moves_ite (fun _ => destroyBootEnvironment_issues) (fun hname => ?_)
  have hsnap : isSnapshotName options.beName = true := by simpa using hname
  refine moves_ite (fun _ => herr _ _) (fun _ => ?_)
  split
  refine moves_ite (fun _ => herr _ _) (fun _ => ?_)
  refine moves_bind (destroySnapshot_issues hsnap) fun ret => ?_
  refine moves_ite (fun _ => moves_pure _) (fun _ => pluginPostDestroy_issues fun hno => ?_)
  rw [hsnap] at hno
  cases hno

end Calls

section Names
variable {host : Host} {h : Handle} {be : CStr}

theorem mayDestroy_names {inside : CStr → Prop} {c : Call} (hc : MayDestroy inside c) (s : Sys)
    (n : CStr) : n ∈ (c.effect host s).names ↔ n ∈ s.names ∧ c ≠ .zfs (.destroy n) := by
  match c, hc with
  | .zfs (.poolOpen _), _ => simp [Call.effect, ZfsCall.effect]
  | .zfs (.open _), _ => simp [Call.effect, ZfsCall.effect]
  | .zfs (.propGet _ _), _ => simp [Call.effect, ZfsCall.effect]
  | .zfs (.unmount name), _ =>
    have hshape : SameShape s ((ZfsCall.unmount name).effect host s) := mapDataset_shape fun _ => rfl
    have hnames := hshape.names
    rw [Call.effect, hnames]
    simp
  | .zfs (.destroy name), _ =>
    simp only [Call.effect, ZfsCall.effect, Sys.names, List.mem_map, List.mem_filter, ne_eq,
      decide_not, Bool.not_eq_true', decide_eq_false_iff_not, Call.zfs.injEq, ZfsCall.destroy.injEq]
    constructor
    · rintro ⟨d, ⟨hd, hne⟩, rfl⟩
      exact ⟨⟨d, hd, rfl⟩, fun heq => hne heq.symm⟩
    · rintro ⟨⟨d, hd, rfl⟩, hne⟩
      exact ⟨d, ⟨hd, fun heq => hne heq.symm⟩, rfl⟩

theorem DestroyCall.names {c : Call} (hc : DestroyCall h be c) (s : Sys) (n : CStr) :
    n ∈ (c.effect host s).names ↔ n ∈ s.names ∧ c ≠ .zfs (.destroy n) := by
  cases hc with
  | lookup hc =>
    rw [lookup_effect hc]
    have hne : c ≠ .zfs (.destroy n) := fun heq => by
      rw [heq] at hc
      exact hc
    simp [hne]
  | pool _ hc => exact mayDestroy_names hc s n
  | hook => simp [Call.effect]

/-- What a destroy leaves is what it has not destroyed. -/
theorem libzeDestroy_names {options : DestroyOptions} {r : LibzeError} {s t : Sys}
    (hr : libzeDestroy host h options s = (r, t)) (n : CStr) :
    n ∈ t.names ↔ n ∈ s.names ∧ (.zfs (.destroy n), 0) ∉ since s t := by
  have hall := (libzeDestroy_issues host h options).related
    (fun new s t => ∀ n, n ∈ t.names ↔ n ∈ s.names ∧ (.zfs (.destroy n), 0) ∉ new) ?_ ?_ ?_ ?_ s n
  · rwa [hr] at hall
  · exact fun s log err message n => by simp [Sys.names]
  · intro s c code log hcode n
    simp [Sys.names, Ne.symm hcode]
  · intro s c log hc n
    have hstep := @DestroyCall.names host h options.beName c hc s n
    have hevent : (.zfs (.destroy n), 0) ∉ [(c, 0)] ↔ c ≠ .zfs (.destroy n) := by
      rw [List.mem_singleton, Prod.mk.injEq, eq_self, and_true, eq_comm]
    exact hstep.trans (and_congr_right fun _ => hevent.symm)
  · intro new new' s t u hst htu n
    rw [htu, hst, List.mem_append, not_or, and_assoc, and_comm (a := _ ∉ new)]

end Names

/-! ## After success -/

/-- The postcondition of a successful `libze_destroy`: nothing is left on either
pool, and a loaded plugin was told. -/
structure Destroyed (h : Handle) (be : CStr) (s t : Sys) : Prop where
  root : Gone (h.beDataset be) t
  boot : ∀ bp ∈ h.bootpool, Gone (bp.beDataset be) t
  plugin : h.lzFuncs = true → ∃ code, (.hook (.postDestroy be), code) ∈ since s t

section Success
variable {host : Host} {h : Handle} {options : DestroyOptions} {s t : Sys}

theorem gone_of_remains {ds : CStr} (hgone : Gone ds s) (hst : Remains s t) : Gone ds t :=
  fun n hn hmem => hgone n hn (hst.names hmem)

theorem libzeDestroy_of_flat (hname : isSnapshotName options.beName = false) :
    libzeDestroy host h options = destroyBootEnvironment host h options := by
  rw [libzeDestroy, if_pos (by simp [hname])]

theorem pluginPostDestroy_run {be : CStr} {r : LibzeError} (hfuncs : h.lzFuncs = true)
    (hr : pluginPostDestroy host h be s = (r, t)) :
    ∃ code, t.trace = (.hook (.postDestroy be), code) :: s.trace := by
  unfold pluginPostDestroy at hr
  rw [if_pos hfuncs] at hr
  obtain ⟨code, u, hcall, hr⟩ := bind_run hr
  have hu := call_trace hcall
  split at hr
  · cases hr
    exact ⟨code, hu⟩
  · cases hr
    exact ⟨code, hu⟩

theorem pluginPostDestroy_datasets {be : CStr} {r : LibzeError}
    (hr : pluginPostDestroy host h be s = (r, t)) : t.datasets = s.datasets := by
  unfold pluginPostDestroy at hr
  split at hr
  · obtain ⟨code, u, hcall, hr⟩ := bind_run hr
    have hu : u.datasets = s.datasets := by
      by_cases hcode : code = 0
      · rw [hcode] at hcall
        rw [(call_done hcall).2]
        rfl
      · rw [call_refused hcall hcode]
    split at hr
    · cases hr
      exact hu
    · cases hr
      exact hu
  · cases hr
    rfl

/-- Success clears both trees. -/
theorem libzeDestroy_gone (hs : IsForest s.names) (hname : isSnapshotName options.beName = false)
    (hr : libzeDestroy host h options s = (.success, t)) :
    Gone (h.beDataset options.beName) t ∧ ∀ bp ∈ h.bootpool, Gone (bp.beDataset options.beName) t := by
  rw [libzeDestroy_of_flat hname] at hr
  cases destroyBe hr with
  | refused hne _ => exact absurd rfl hne
  | rootFailed _ _ _ _ hne _ => exact absurd rfl hne
  | bootFailed _ _ _ _ _ _ hne _ => exact absurd rfl hne
  | rootOnly hbp hbe hs1 hroot _ hpost =>
    have hgone := (runDestroyCb_clears options (hs1.same.names ▸ hs) hroot).2.2 rfl
    refine ⟨fun n hn hmem => hgone n hn ?_, by simp [hbp]⟩
    rwa [Sys.names, pluginPostDestroy_datasets hpost] at hmem
  | bothDone hbp hbe hs1 hroot hboot =>
    obtain ⟨hs2, _, hgone⟩ := runDestroyCb_clears options (hs1.same.names ▸ hs) hroot
    refine ⟨gone_of_remains (hgone rfl) (runDestroyCb_remains hboot), fun bp' hbp' => ?_⟩
    cases hbp.symm.trans hbp'
    exact (runDestroyCb_clears options hs2 hboot).2.2 rfl

/-- Without a boot pool the plugin is told. -/
theorem libzeDestroy_hook (hname : isSnapshotName options.beName = false)
    (hbp : h.bootpool = none) (hfuncs : h.lzFuncs = true)
    (hr : libzeDestroy host h options s = (.success, t)) :
    ∃ code, (.hook (.postDestroy options.beName), code) ∈ since s t := by
  rw [libzeDestroy_of_flat hname] at hr
  cases destroyBe hr with
  | refused hne _ => exact absurd rfl hne
  | rootFailed _ _ _ _ hne _ => exact absurd rfl hne
  | bootFailed _ _ _ _ _ _ hne _ => exact absurd rfl hne
  | bothDone hsome => rw [hbp] at hsome; cases hsome
  | rootOnly _ _ _ _ hgrow hpost =>
    obtain ⟨code, htail⟩ := pluginPostDestroy_run hfuncs hpost
    obtain ⟨new, hnew⟩ := hgrow
    have htrace : t.trace = ((.hook (.postDestroy options.beName), code) :: new) ++ s.trace := by
      rw [htail, ← hnew, List.cons_append]
    refine ⟨code, ?_⟩
    rw [since_of_trace htrace]
    exact List.mem_cons_self

/-- With a boot pool the plugin is never told. -/
theorem libzeDestroy_no_hook (hname : isSnapshotName options.beName = false) {bp : Bootpool}
    (hbp : h.bootpool = some bp) (code : Nat) :
    (.hook (.postDestroy options.beName), code) ∉ since s (libzeDestroy host h options s).2 := by
  intro hmem
  cases (libzeDestroy_issues host h options).since s _ hmem with
  | hook hno _ =>
    rw [hno hname] at hbp
    cases hbp
  | lookup hc => exact hc
  | pool _ hc => exact hc

/-- A successful `libze_destroy` meets its postcondition exactly when it does not
have both a boot pool, whose branch returns before the hook, and a plugin. -/
theorem libzeDestroy_destroyed_iff (host : Host) (h : Handle) (options : DestroyOptions)
    (s t : Sys) (hs : IsForest s.names) (hname : isSnapshotName options.beName = false)
    (hr : libzeDestroy host h options s = (.success, t)) :
    Destroyed h options.beName s t ↔ h.bootpool = none ∨ h.lzFuncs = false := by
  obtain ⟨hroot, hboot⟩ := libzeDestroy_gone hs hname hr
  constructor
  · intro hdone
    by_contra hnot
    obtain ⟨hsome, hfuncs⟩ := not_or.mp hnot
    obtain ⟨bp, hbp⟩ := Option.ne_none_iff_exists'.mp hsome
    obtain ⟨code, hcode⟩ := hdone.plugin (by simpa using hfuncs)
    have hno := @libzeDestroy_no_hook host h options s hname bp hbp code
    rw [hr] at hno
    exact hno hcode
  · rintro (hbp | hfuncs)
    · exact ⟨hroot, hboot, fun hfuncs => libzeDestroy_hook hname hbp hfuncs hr⟩
    · refine ⟨hroot, hboot, fun htrue => ?_⟩
      rw [hfuncs] at htrue
      cases htrue

theorem libzeDestroy_destroyed_iff_sample :
    Destroyed (sampleHandle none true) "b" (sampleSys [])
        (libzeDestroy obliging (sampleHandle none true) ⟨"b", true, false⟩ (sampleSys [])).2 ↔
      (sampleHandle none true).bootpool = none ∨ (sampleHandle none true).lzFuncs = false :=
  libzeDestroy_destroyed_iff obliging (sampleHandle none true) ⟨"b", true, false⟩ (sampleSys []) _
    (by decide +kernel) (by decide) (run_eq_of_fst (by decide +kernel))

/-- With a boot pool and a plugin the environment is destroyed and the plugin is not
told. -/
theorem not_destroyed_with_boot_pool_and_plugin :
    ¬ ∀ (host : Host) (h : Handle) (options : DestroyOptions) (s t : Sys), IsForest s.names →
      isSnapshotName options.beName = false → libzeDestroy host h options s = (.success, t) →
      Destroyed h options.beName s t := by
  intro hall
  have hdone := hall obliging (sampleHandle (some sampleBootpool) true) ⟨"b", true, false⟩
    (sampleSys []) _ (by decide +kernel) (by decide) (run_eq_of_fst (by decide +kernel))
  obtain ⟨code, hcode⟩ := hdone.plugin rfl
  have hnone : ∀ e ∈ since (sampleSys []) (libzeDestroy obliging
      (sampleHandle (some sampleBootpool) true) ⟨"b", true, false⟩ (sampleSys [])).2,
      e.1 ≠ .hook (.postDestroy "b") := by decide +kernel
  exact hnone _ hcode rfl

end Success

/-! ## After failure -/

section Failure
variable {host : Host} {h : Handle} {options : DestroyOptions} {s t : Sys}

theorem mayDestroy_originsPresent {inside : CStr → Prop} {c : Call} (hc : MayDestroy inside c)
    (hrule : DestroyRule host) (hcode : host.answer s c = 0) (hs : OriginsPresent s) :
    OriginsPresent (c.effect host s) := by
  match c, hc with
  | .zfs (.unmount name), _ =>
    have hshape : SameShape s ((ZfsCall.unmount name).effect host s) := mapDataset_shape fun _ => rfl
    intro d hd o ho
    obtain ⟨e, he, _, heo⟩ := hshape.exists_origin hd
    exact hshape.names ▸ hs e he o (heo.trans ho)
  | .zfs (.destroy name), _ =>
    intro d hd o ho
    have hmem := hs d (List.mem_of_mem_filter hd) o ho
    rw [Call.effect, destroy_names]
    refine List.mem_filter.mpr ⟨hmem, ?_⟩
    simp only [ne_eq, decide_not, Bool.not_eq_eq_eq_not, Bool.not_true, decide_eq_false_iff_not]
    rintro rfl
    have hfree := (hrule s o hmem).mp hcode
    simp only [inUse, decide_eq_false_iff_not, not_or, not_exists, not_and] at hfree
    exact hfree.2 d (List.mem_of_mem_filter hd) ho
  | .zfs (.poolOpen _), _ => exact hs
  | .zfs (.open _), _ => exact hs
  | .zfs (.propGet _ _), _ => exact hs

theorem DestroyCall.originsPresent {be : CStr} {c : Call} (hc : DestroyCall h be c)
    (hrule : DestroyRule host) (hcode : host.answer s c = 0) (hs : OriginsPresent s) :
    OriginsPresent (c.effect host s) := by
  cases hc with
  | lookup hc => rwa [lookup_effect hc]
  | pool _ hc => exact mayDestroy_originsPresent hc hrule hcode hs
  | hook => exact hs

/-- What a run of `libze_destroy` leaves, failed or not: a forest of datasets that
were there, which misses no more than the trees of the environment and, on request,
the origins of their clones; all of it when a check refused the name or the environment
could not be opened. -/
structure Left (host : Host) (h : Handle) (options : DestroyOptions) (s t : Sys) : Prop where
  forest : IsForest t.names
  remains : Remains s t
  takes : ∀ n ∈ s.names, n ∉ t.names → Takes options s (h.beDataset options.beName) n ∨
    ∃ bp ∈ h.bootpool, Takes options s (bp.beDataset options.beName) n
  refused : ¬ Destroyable host h s options.beName → t.datasets = s.datasets

theorem left_self (hs : IsForest s.names) : Left host h options s s :=
  ⟨hs, .refl s, fun _ hn hmiss => absurd hn hmiss, fun _ => rfl⟩

theorem runDestroyCb_left {s1 : Sys} {c : Int} (hs : IsForest s.names)
    (hbe : Destroyable host h s options.beName) (hs1 : SamePools s s1)
    (hr : runDestroyCb host options (h.beDataset options.beName) s1 = (c, t)) :
    Left host h options s t := by
  have hs1' : IsForest s1.names := hs1.names ▸ hs
  refine ⟨(runDestroyCb_clears options hs1' hr).1,
    hs1.shape.remains.trans (runDestroyCb_remains hr), fun n hn hmiss => ?_, fun hno => ?_⟩
  · exact .inl ((destroyCb_takes _ hs1' hr n (hs1.names ▸ hn) hmiss).of_remains hs1.shape.remains)
  · exact absurd hbe hno

theorem Left.boot {bp : Bootpool} {s2 : Sys} {c : Int} (hbe : Destroyable host h s options.beName)
    (hleft : Left host h options s s2) (hbp : h.bootpool = some bp)
    (hr : runDestroyCb host options (bp.beDataset options.beName) s2 = (c, t)) :
    Left host h options s t := by
  refine ⟨(runDestroyCb_clears options hleft.forest hr).1,
    hleft.remains.trans (runDestroyCb_remains hr), fun n hn hmiss => ?_,
    fun hno => absurd hbe hno⟩
  by_cases hn2 : n ∈ s2.names
  · have htakes := destroyCb_takes _ hleft.forest hr n hn2 hmiss
    exact .inr ⟨bp, hbp, htakes.of_remains hleft.remains⟩
  · exact hleft.takes n hn hn2

theorem Left.of_datasets {s2 : Sys} (hleft : Left host h options s s2)
    (ht : t.datasets = s2.datasets) : Left host h options s t := by
  have hnames : t.names = s2.names := by rw [Sys.names, ht, Sys.names]
  refine ⟨hnames ▸ hleft.forest, fun d hd => hleft.remains d (ht ▸ hd), fun n hn hmiss => ?_,
    fun hno => ht.trans (hleft.refused hno)⟩
  exact hleft.takes n hn (hnames ▸ hmiss)

theorem libzeDestroy_left (host : Host) (h : Handle) (options : DestroyOptions) (s t : Sys)
    (r : LibzeError) (hs : IsForest s.names) (hname : isSnapshotName options.beName = false)
    (hr : libzeDestroy host h options s = (r, t)) :
    Left host h options s t ∧ (DestroyRule host → OriginsPresent s → OriginsPresent t) := by
  refine ⟨?_, fun hrule horigins => ?_⟩
  · rw [libzeDestroy_of_flat hname] at hr
    cases destroyBe hr with
    | refused _ ht => exact (left_self hs).of_datasets ht.same.datasets
    | rootFailed hbe hs1 hroot _ _ ht =>
      exact (runDestroyCb_left hs hbe hs1.same hroot).of_datasets ht.same.datasets
    | rootOnly hbp hbe hs1 hroot _ hpost =>
      exact (runDestroyCb_left hs hbe hs1.same hroot).of_datasets (pluginPostDestroy_datasets hpost)
    | bootFailed hbp hbe hs1 hroot hboot _ _ ht =>
      exact ((runDestroyCb_left hs hbe hs1.same hroot).boot hbe hbp hboot).of_datasets ht.same.datasets
    | bothDone hbp hbe hs1 hroot hboot =>
      exact (runDestroyCb_left hs hbe hs1.same hroot).boot hbe hbp hboot
  · have hkeep : OriginsPresent (libzeDestroy host h options s).2 :=
      (libzeDestroy_issues host h options).keeps OriginsPresent (fun _ _ _ _ h => h)
        (fun u c hc hcode hu => hc.originsPresent hrule hcode hu) horigins
    rwa [hr] at hkeep

theorem libzeDestroy_left_sample :
    Left obliging (sampleHandle none true) ⟨"b", true, false⟩ (sampleSys [])
        (libzeDestroy obliging (sampleHandle none true) ⟨"b", true, false⟩ (sampleSys [])).2 ∧
      OriginsPresent
        (libzeDestroy obliging (sampleHandle none true) ⟨"b", true, false⟩ (sampleSys [])).2 := by
  obtain ⟨hleft, horigins⟩ := libzeDestroy_left obliging (sampleHandle none true)
    ⟨"b", true, false⟩ (sampleSys []) _ .success (by decide +kernel) (by decide)
    (run_eq_of_fst (by decide +kernel))
  exact ⟨hleft, horigins obliging_destroyRule (by decide +kernel)⟩

/-- The snapshot of `b` is destroyed before the mounted child of `b` is refused. -/
theorem not_unchanged_after_failure :
    ¬ ∀ (host : Host) (h : Handle) (options : DestroyOptions) (s t : Sys) (r : LibzeError),
      DestroyRule host → IsForest s.names → OriginsPresent s →
      isSnapshotName options.beName = false → libzeDestroy host h options s = (r, t) →
      r ≠ .success → ∀ n, n ∈ t.names ↔ n ∈ s.names := by
  intro hall
  have hsame := hall obliging (sampleHandle none false) ⟨"b", true, false⟩
    (sampleSys [{ name := "rpool/ROOT/b@s" },
      { name := "rpool/ROOT/b/home", mountedAt := some "/home" }]) _ .unknown obliging_destroyRule
    (by decide +kernel) (by decide +kernel) (by decide) (run_eq_of_fst (by decide +kernel))
    (by decide) "rpool/ROOT/b@s"
  have hgone : ¬ (("rpool/ROOT/b@s" : CStr) ∈ (libzeDestroy obliging (sampleHandle none false)
      ⟨"b", true, false⟩ (sampleSys [{ name := "rpool/ROOT/b@s" },
        { name := "rpool/ROOT/b/home", mountedAt := some "/home" }])).2.names) := by
    decide +kernel
  exact hgone (hsame.mpr (by decide +kernel))

end Failure

end Zectl.Libze.DestroyOutcome
