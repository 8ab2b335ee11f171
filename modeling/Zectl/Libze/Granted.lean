import Zectl.Libze.CreateOutcome
import Zectl.Libze.DestroyOutcome
import Zectl.Libze.Rename
import Zectl.Libze.Unmount

/-!
# Runs in which libzfs refuses nothing

On well formed pools a destroy that meets no mounted dataset then succeeds, and so does
the cloning of a create once its snapshots are taken.
-/

namespace Zectl.Libze.Granted

open Zectl.Lib.StateRun Zectl.Lib.Visit Zectl.Lib.PathOrder Zectl.Util.CString Zectl.Zfs.System
open Zectl.Zfs.Steps Zectl.Zfs.Forest Zectl.Libze.Init Zectl.Libze.Validate Zectl.Libze.Clone
open Zectl.Libze.Create Zectl.Libze.CreateOutcome Zectl.Libze.Destroy Zectl.Libze.DestroyOutcome
open Zectl.Libze.Rename Zectl.Libze.Unmount

/-- libzfs refused none of the calls of a run. -/
def Unrefused (s t : Sys) : Prop := ∀ c code, (.zfs c, code) ∈ since s t → code = 0

section Runs
variable {host : Host} {α : Type} {s s1 s2 t t1 : Sys}

/-- What holds of a run holds of its parts. -/
theorem Unrefused.part (h : Unrefused s t) (hs : s.trace <:+ s1.trace)
    (hrun : s1.trace <:+ t1.trace) (ht : t1.trace <:+ t.trace) : Unrefused s1 t1 := by
  intro c code hmem
  obtain ⟨before, hbefore⟩ := hs
  obtain ⟨new, hnew⟩ := hrun
  obtain ⟨later, hlater⟩ := ht
  rw [since_of_trace hnew.symm] at hmem
  have htrace : t.trace = (later ++ (new ++ before)) ++ s.trace := by
    rw [← hlater, ← hnew, ← hbefore]
    simp
  refine h c code ?_
  rw [since_of_trace htrace]
  exact List.mem_append_right later (List.mem_append_left before hmem)

theorem Unrefused.granted {c : ZfsCall} {code : Nat} (h : Unrefused s t)
    (hs : s.trace <:+ s1.trace) (hr : call host (.zfs c) s1 = (code, s2))
    (ht : s2.trace <:+ t.trace) : code = 0 :=
  h c code (mem_since hs hr ht)

/-- A dataset that is there is opened. -/
theorem Unrefused.opened {name : CStr} {type : ZfsType} {code : Nat} (h : Unrefused s t)
    (hexist : s1.datasetExists name type = true) (hs : s.trace <:+ s1.trace)
    (hr : zfsOpen host name type s1 = (code, s2)) (ht : s2.trace <:+ t.trace) : code = 0 := by
  unfold zfsOpen at hr
  rw [run_get_bind, if_pos hexist] at hr
  exact h.granted hs hr ht

theorem wellFormed_of_issues {may : Call → Prop} {m : Libze α} {a : α} (hm : Issues host may m)
    (hrule : KeepsPools host) (hs : WellFormed s) (hr : m s = (a, t)) : WellFormed t := by
  have hkeep : WellFormed (m s).2 := by
    refine hm.keeps WellFormed (fun u log err message hu => hu.of_datasets rfl) ?_ hs
    intro u c _ hanswer hu
    cases c with
    | zfs c => exact hrule u c hu hanswer
    | hook hook => exact hu
    | file c => exact hu.of_datasets (fileEffect_datasets u c)
  rwa [hr] at hkeep

end Runs

/-! ## Destroying -/

section Destroying
variable {host : Host} {options : DestroyOptions} {ds : CStr} {s t u : Sys}

/-- Nothing of what a destroy of `ds` may take is mounted, or it is unmounted by force. -/
def MeetsNoMount (options : DestroyOptions) (s : Sys) (ds : CStr) : Prop :=
  options.force = true ∨ ∀ n, Takes options s ds n → s.isMounted n = false

/-- Datasets were only taken away and unmounted. -/
structure Shrinks (s t : Sys) : Prop where
  suffix : s.trace <:+ t.trace
  remains : Remains s t
  unmounted : ∀ n, s.isMounted n = false → t.isMounted n = false

theorem Shrinks.trans (hst : Shrinks s t) (htu : Shrinks t u) : Shrinks s u where
  suffix := hst.suffix.trans htu.suffix
  remains := hst.remains.trans htu.remains
  unmounted n hn := htu.unmounted n (hst.unmounted n hn)

theorem mayDestroy_isMounted {inside : CStr → Prop} {c : Call} (hc : MayDestroy inside c) {n : CStr}
    (hn : s.isMounted n = false) : (c.effect host s).isMounted n = false := by
  match c, hc with
  | .zfs (.unmount name), _ => rw [Call.effect, isMounted_unmount, hn, Bool.false_and]
  | .zfs (.destroy name), _ =>
    show (((s.datasets.filter fun d => d.name ≠ name).find? fun d => d.name = n).bind
      Dataset.mountedAt).isSome = false
    by_cases hne : n = name
    · have hnone : ((s.datasets.filter fun d => d.name ≠ name).find? fun d => d.name = n) = none := by
        refine List.find?_eq_none.mpr fun d hd => ?_
        simpa [hne] using (List.mem_filter.mp hd).2
      rw [hnone]
      rfl
    · have hsame : ((s.datasets.filter fun d => d.name ≠ name).find? fun d => d.name = n) =
          s.find n := by
        rw [List.find?_filter, Sys.find]
        congr 1
        funext d
        by_cases hd : d.name = n
        · simp [hd, hne]
        · simp [hd]
      rw [hsame]
      exact hn
  | .zfs (.poolOpen _), _ => exact hn
  | .zfs (.open _), _ => exact hn
  | .zfs (.propGet _ _), _ => exact hn

theorem shrinks_of_issues {α : Type} {inside : CStr → Prop} {m : Libze α} {a : α}
    (hm : Issues host (MayDestroy inside) m) (hr : m s = (a, t)) : Shrinks s t := by
  refine ⟨hm.suffix hr, ?_, fun n hn => ?_⟩
  · have hkeep : Remains s (m s).2 :=
      hm.keeps (Remains s) (fun _ _ _ _ h => h) (fun u c hc _ hu => hu.trans hc.remains) (.refl s)
    rwa [hr] at hkeep
  · have hkeep : (m s).2.isMounted n = false :=
      hm.keeps (fun u => u.isMounted n = false) (fun _ _ _ _ h => h)
        (fun u c hc _ hu => mayDestroy_isMounted hc hu) hn
    rwa [hr] at hkeep

theorem MeetsNoMount.shrinks (h : MeetsNoMount options s ds) (hst : Shrinks s t) :
    MeetsNoMount options t ds :=
  h.imp_right fun hfree n hn => hst.unmounted n (hfree n (hn.of_remains hst.remains))

theorem MeetsNoMount.child {c : CStr} (h : MeetsNoMount options s ds) (hc : AtOrBelow ds c) :
    MeetsNoMount options s c :=
  h.imp_right fun hfree n hn => hfree n (hn.of_child hc)

/-- The origin of a clone is taken with it. -/
theorem MeetsNoMount.origin {o : CStr} (h : MeetsNoMount options s ds) (hs : WellFormed s)
    (ho : IsOrigin options s ds o) : MeetsNoMount options s o := by
  refine h.imp_right fun hfree n hn => ?_
  obtain hbelow | ⟨-, d, -, hfs, hbelow, -⟩ := hn
  · by_cases hmem : n ∈ s.names
    · obtain rfl := eq_of_atOrBelow_snapshot hbelow ho.snapshot (hs.forest.valid n hmem)
      obtain ⟨d, hd, rfl, hdo⟩ := ho.clone
      exact hfree _ (.inr ⟨ho.requested, d, hd, ho.filesystem, under_refl, hdo⟩)
    · have hnone : s.find n = none := by
        refine List.find?_eq_none.mpr fun d hd hname => hmem ?_
        exact List.mem_map.mpr ⟨d, hd, by simpa using hname⟩
      simp [Sys.isMounted, hnone]
  · have hsnap := ho.snapshot
    rw [isSnapshotName_of_atOrBelow hbelow hfs] at hsnap
    cases hsnap

theorem unmountOrRefuse_zero {r : Int} (hfree : MeetsNoMount options s ds)
    (hr : unmountOrRefuse host options ds s = (r, t)) : r = 0 := by
  unfold unmountOrRefuse at hr
  rw [run_get_bind] at hr
  split at hr
  · rename_i hmounted
    split at hr
    · obtain ⟨code, u, hcall, hr⟩ := bind_run hr
      cases hr
      rfl
    · rename_i hforce
      obtain hyes | hfree := hfree
      · exact absurd hyes hforce
      · rw [hfree ds (.inl under_refl)] at hmounted
        cases hmounted
  · cases hr
    rfl

theorem openOrigin_zero {r : Int} {origin : Option CStr} (hs : WellFormed s)
    (hquiet : Unrefused s t) (hr : openOrigin host options ds s = ((r, origin), t)) : r = 0 := by
  unfold openOrigin at hr
  split at hr
  · obtain ⟨⟨code, buf⟩, u, hprop, hr⟩ := bind_run hr
    have hsu : Looked s u := Issues.looked (issues_zfsPropGet trivial) hprop
    dsimp only at hr
    split at hr
    · cases hr
      rfl
    rename_i hcode
    rw [not_not.mp hcode] at hprop
    obtain ⟨d, hd, -, ho⟩ := zfsPropGet_origin hprop
    have hexist : u.datasetExists buf .snapshot = true := by
      rw [hsu.same.datasetExists]
      simp [Sys.datasetExists, hs.origins d hd buf ho, hs.snapshots d hd buf ho]
    obtain ⟨opened, v, hopen, hr⟩ := bind_run hr
    split at hr
    · rename_i hne
      cases hr
      exact absurd (hquiet.opened hexist hsu.suffix hopen List.suffix_rfl) hne
    · cases hr
      rfl
  · cases hr
    rfl

theorem destroyCb_mayDestroy (depth : Nat) (ds : CStr) :
    Issues host (MayDestroy fun _ => True) (libzeDestroyCb host options depth ds) :=
  destroyCb_issues (fun _ _ => trivial) depth fun _ _ => trivial

/-- Where no destroy of a child has a reason to fail, the loop over the children has none. -/
theorem visitChildren_zero (hrule : KeepsPools host) {depth : Nat} {r : Int}
    (ih : ∀ {ds : CStr} {s t : Sys} {r : Int}, WellFormed s → Enough s ds depth →
      MeetsNoMount options s ds → Unrefused s t →
      libzeDestroyCb host options depth ds s = (r, t) → r = 0)
    (hs : WellFormed s) (henough : Enough s ds (depth + 1)) (hfree : MeetsNoMount options s ds)
    (hquiet : Unrefused s t)
    (hr : visit (fun s n => n ∈ s.names) (libzeDestroyCb host options depth) (children s ds) s =
      (r, t)) : r = 0 := by
  by_contra hne
  obtain ⟨c, hc, u, ⟨hu, hsu⟩, -, hfail⟩ := exists_of_visit_ne_zero
    (fun u => WellFormed u ∧ Shrinks s u) (fun c _ u hu _ =>
      ⟨wellFormed_of_issues (destroyCb_mayDestroy depth c) hrule hu.1 rfl,
        hu.2.trans (shrinks_of_issues (destroyCb_mayDestroy depth c) rfl)⟩)
    ⟨hs, List.suffix_rfl, .refl s, fun _ hn => hn⟩ hr hne
  have hbelow := atOrBelow_of_parentOf (mem_children.mp hc).2
  have hchild : Enough u c depth :=
    (henough.child hs.forest hc).of_subset fun n hn => hsu.remains.names hn
  have hpart : Unrefused u t :=
    hquiet.part hsu.suffix ((destroyCb_mayDestroy depth c).suffix hfail) List.suffix_rfl
  exact hne (ih hu hchild ((hfree.shrinks hsu).child hbelow) hpart hfail)

/-- Behind its children and with its origin known, nothing keeps a destroy from success. -/
theorem destroyCb_zero (hrule : KeepsPools host) (depth : Nat) {ds : CStr} {s t : Sys} {r : Int}
    (hs : WellFormed s) (henough : Enough s ds depth) (hfree : MeetsNoMount options s ds)
    (hquiet : Unrefused s t) (hr : libzeDestroyCb host options depth ds s = (r, t)) : r = 0 := by
  induction depth generalizing ds s t r with
  | zero => obtain ⟨h, _⟩ | ⟨h, _⟩ := henough <;> omega
  | succ depth ih =>
    rw [libzeDestroyCb] at hr
    obtain ⟨r1, s1, hunmount, hr⟩ := bind_run hr
    have hissues1 : Issues host (MayDestroy fun _ => True) (unmountOrRefuse host options ds) :=
      unmountOrRefuse_issues trivial
    have hshrink1 := shrinks_of_issues hissues1 hunmount
    have hs1 := wellFormed_of_issues hissues1 hrule hs hunmount
    split at hr
    · rename_i hne
      exact absurd (unmountOrRefuse_zero hfree hunmount) hne
    obtain ⟨⟨r2, origin⟩, s2, hopen, hr⟩ := bind_run hr
    have hissues2 : Issues host (MayDestroy fun _ => True) (openOrigin host options ds) :=
      openOrigin_issues
    have hshrink2 := shrinks_of_issues hissues2 hopen
    have hs2 := wellFormed_of_issues hissues2 hrule hs1 hopen
    dsimp only at hr
    split at hr
    · rename_i hne
      cases hr
      have hpart := hquiet.part hshrink1.suffix hshrink2.suffix List.suffix_rfl
      exact absurd (openOrigin_zero hs1 hpart hopen) hne
    rw [run_get_bind] at hr
    obtain ⟨r3, s3, hvisit, hr⟩ := bind_run hr
    have hissues3 : Issues host (MayDestroy fun _ => True)
        (visit (fun s n => n ∈ s.names) (libzeDestroyCb host options depth) (children s2 ds)) :=
      moves_visit fun c _ => destroyCb_mayDestroy depth c
    have hshrink : Shrinks s s2 := hshrink1.trans hshrink2
    have hshrink3 := shrinks_of_issues hissues3 hvisit
    have hs3 := wellFormed_of_issues hissues3 hrule hs2 hvisit
    split at hr
    · rename_i hne
      cases hr
      have henough2 := henough.of_subset fun n hn => hshrink.remains.names hn
      have hpart := hquiet.part hshrink.suffix hshrink3.suffix List.suffix_rfl
      exact absurd (visitChildren_zero hrule ih hs2 henough2 (hfree.shrinks hshrink) hpart hvisit)
        hne
    obtain ⟨code, s4, hcall, hr⟩ := bind_run hr
    have hissues4 : Issues host (MayDestroy fun _ => True) (call host (.zfs (.destroy ds))) :=
      issues_call trivial
    have hshrink4 : Shrinks s s4 :=
      (hshrink.trans hshrink3).trans (shrinks_of_issues hissues4 hcall)
    split at hr
    · rename_i hne
      cases hr
      exact absurd (hquiet.granted (hshrink.trans hshrink3).suffix hcall List.suffix_rfl) hne
    cases origin with
    | none =>
      cases hr
      rfl
    | some o =>
      obtain ⟨r5, s5, hrec, hr⟩ := bind_run hr
      have ho : IsOrigin options s ds o :=
        ((openOrigin_spec hopen).2 o rfl).of_shape (unmountOrRefuse_shape hunmount)
      have hdepth : 1 ≤ depth := by
        obtain ⟨h, _⟩ | ⟨_, hsnap⟩ := henough
        · omega
        · rw [ho.filesystem] at hsnap
          cases hsnap
      have hs4 := wellFormed_of_issues hissues4 hrule hs3 hcall
      have hzero : s5.trace <:+ t.trace → r5 = 0 := by
        intro ht
        have hpart : Unrefused s4 s5 :=
          hquiet.part hshrink4.suffix ((destroyCb_mayDestroy depth o).suffix hrec) ht
        exact ih hs4 (.inr ⟨hdepth, ho.snapshot⟩) ((hfree.origin hs ho).shrinks hshrink4) hpart hrec
      split at hr
      · cases hr
        exact hzero List.suffix_rfl
      · cases hr
        exact hzero List.suffix_rfl

theorem runDestroyCb_mayDestroy :
    Issues host (MayDestroy fun _ => True) (runDestroyCb host options ds) :=
  moves_bind moves_get fun _ => destroyCb_mayDestroy _ ds

theorem runDestroyCb_zero {r : Int} (hrule : KeepsPools host) (hs : WellFormed s)
    (hfree : MeetsNoMount options s ds) (hquiet : Unrefused s t)
    (hr : runDestroyCb host options ds s = (r, t)) : r = 0 :=
  destroyCb_zero hrule _ hs (enough_recursionDepth s ds) hfree hquiet hr

/-- When libzfs refuses nothing a destroy changes nothing or clears both trees. -/
theorem libzeDestroy_both {h : Handle} {bp : Bootpool} {r : LibzeError} (hbp : h.bootpool = some bp)
    (hrule : KeepsPools host) (hs : WellFormed s)
    (hroot : MeetsNoMount options s (h.beDataset options.beName))
    (hboot : MeetsNoMount options s (bp.beDataset options.beName)) (hquiet : Unrefused s t)
    (hname : isSnapshotName options.beName = false) (hr : libzeDestroy host h options s = (r, t)) :
    t.names = s.names ∨
      (Gone (h.beDataset options.beName) t ∧ Gone (bp.beDataset options.beName) t) := by
  have hlook : ∀ {u}, Looked s u → Shrinks s u := fun hu =>
    ⟨hu.suffix, hu.same.shape.remains, fun n hn => (isMounted_of_same hu.same n).trans hn⟩
  have hdestroy := hr
  rw [libzeDestroy_of_flat hname] at hr
  cases destroyBe hr with
  | refused _ ht => exact .inl ht.same.names
  | rootOnly hnone =>
    rw [hbp] at hnone
    cases hnone
  | rootFailed _ hs1 hrun hc _ ht =>
    have hshrink := shrinks_of_issues runDestroyCb_mayDestroy hrun
    have hzero := runDestroyCb_zero hrule (hs.of_datasets hs1.same.datasets)
      (hroot.shrinks (hlook hs1)) (hquiet.part hs1.suffix hshrink.suffix ht.suffix) hrun
    exact absurd hzero hc
  | bootFailed hsome _ hs1 hrun hrun' hc _ ht =>
    cases hbp.symm.trans hsome
    have hshrink := (hlook hs1).trans (shrinks_of_issues runDestroyCb_mayDestroy hrun)
    have hshrink' := shrinks_of_issues runDestroyCb_mayDestroy hrun'
    have hwf := wellFormed_of_issues runDestroyCb_mayDestroy hrule
      (hs.of_datasets hs1.same.datasets) hrun
    have hzero := runDestroyCb_zero hrule hwf (hboot.shrinks hshrink)
      (hquiet.part hshrink.suffix hshrink'.suffix ht.suffix) hrun'
    exact absurd hzero hc
  | bothDone =>
    obtain ⟨hgone, hgone'⟩ := libzeDestroy_gone hs.forest hname hdestroy
    exact .inr ⟨hgone, hgone' bp hbp⟩

end Destroying

/-! ## Cloning -/

section Cloning
variable {host : Host} {root suffix be n : CStr} {recursive : Bool} {s t : Sys} {r : LibzeError}

/-- A clone of `n` can be requested. -/
structure Prepared (s : Sys) (root suffix be n : CStr) : Prop where
  named : ∃ target, cloneChildName root be n = .ok target
  fits : (n ++ '@' :: suffix).length < zfsMaxDatasetNameLen
  snapshot : n ++ '@' :: suffix ∈ s.names

theorem Prepared.grows (h : Prepared s root suffix be n) (hst : Grows s t) :
    Prepared t root suffix be n := ⟨h.named, h.fits, hst.names h.snapshot⟩

/-- The first dataset of the list is cloned, then the others. -/
theorem cloneDatasets_cons {e : CStr × DsProps} {rest : List (CStr × DsProps)}
    (hok : Prepared s root suffix be e.1) (hquiet : Unrefused s t)
    (hr : cloneDatasets host root suffix be (e :: rest) s = (r, t)) :
    ∃ u, s.trace <:+ u.trace ∧ Grows s u ∧
      (∀ target, cloneChildName root be e.1 = .ok target → target ∈ u.names) ∧
      cloneDatasets host root suffix be rest u = (r, t) := by
  obtain ⟨⟨target, hchild⟩, hlen, hsnap⟩ := hok
  rw [cloneDatasets, hchild] at hr
  dsimp only at hr
  rw [concat_snapshot hlen] at hr
  dsimp only at hr
  rw [if_neg (by decide)] at hr
  have hexist : s.datasetExists (e.1 ++ '@' :: suffix) .snapshot = true := by
    simp [Sys.datasetExists, hsnap, isSnapshotName]
  obtain ⟨opened, s1, hopen, hr⟩ := bind_run hr
  have hs1 : Looked s s1 := zfsOpen_looked hopen
  split at hr
  · rename_i hne
    cases hr
    exact absurd (hquiet.opened hexist List.suffix_rfl hopen List.suffix_rfl) hne
  obtain ⟨code, u, hcall, hr⟩ := bind_run hr
  split at hr
  · rename_i hne
    cases hr
    exact absurd (hquiet.granted hs1.suffix hcall List.suffix_rfl) hne
  rename_i hcode
  rw [not_not.mp hcode] at hcall
  have hissues : Issues host (CloneCall be) (call host (.zfs (.clone (e.1 ++ '@' :: suffix) target e.2))) :=
    issues_call (.clone _ (isCloneName_of_ok hchild))
  refine ⟨u, hs1.suffix.trans (call_suffix hcall), ?_, fun target' heq => ?_, hr⟩
  · exact hs1.same.shape.grows.trans (hissues.grows (fun s c hc => hc.grows s) hcall)
  · cases hchild.symm.trans heq
    rw [(call_done hcall).2]
    show target ∈ (s1.datasets ++ [_]).map Dataset.name
    simp

theorem cloneDatasets_success (items : List (CStr × DsProps))
    (hok : ∀ n ∈ items.map Prod.fst, Prepared s root suffix be n) (hquiet : Unrefused s t)
    (hr : cloneDatasets host root suffix be items s = (r, t)) : r = .success := by
  induction items generalizing s with
  | nil =>
    cases hr
    rfl
  | cons e rest ih =>
    obtain ⟨u, hsu, hgrows, -, hr⟩ := cloneDatasets_cons (hok _ List.mem_cons_self) hquiet hr
    have hrest : u.trace <:+ t.trace := (cloneDatasets_issues rest).suffix hr
    refine ih (fun n hn => (hok n ?_).grows hgrows) (hquiet.part hsu hrest List.suffix_rfl) hr
    exact List.mem_cons_of_mem _ hn

/-- A source that is there is opened and its filesystems are collected, itself first. -/
theorem libzeClone_collects (hs : IsForest s.names)
    (hsource : s.datasetExists root .filesystem = true) (hquiet : Unrefused s t)
    (hr : libzeClone host root suffix be recursive s = (r, t)) :
    ∃ u props rest, Looked s u ∧
      ((root, props) :: rest).map Prod.fst = (if recursive then subtree s root else [root]) ∧
      cloneDatasets host root suffix be ((root, props) :: rest) u = (r, t) := by
  unfold libzeClone at hr
  obtain ⟨opened, s1, hopen, hr⟩ := bind_run hr
  have hs1 : Looked s s1 := zfsOpen_looked hopen
  split at hr
  · rename_i hne
    cases hr
    exact absurd (hquiet.opened hsource List.suffix_rfl hopen List.suffix_rfl) hne
  rw [run_get_bind] at hr
  obtain ⟨u, cdata, hcb, -, hcdata⟩ := @collected host s1 recursive root (hs1.same.names ▸ hs)
  have hsu := hs1.trans ((libzeCloneCb_issues recursive _ root []).looked hcb)
  rw [run_bind, hcb] at hr
  dsimp only at hr
  rw [if_neg (by simp)] at hr
  obtain ⟨props, rest, rfl⟩ := libzeCloneCb_source hcb
  rw [subtree_of_names hs1.same.names] at hcdata
  exact ⟨u, props, rest, hsu, hcdata, hr⟩

/-- A clone of prepared datasets succeeds. -/
theorem libzeClone_granted (hs : IsForest s.names)
    (hsource : s.datasetExists root .filesystem = true)
    (hok : ∀ n ∈ s.names, isSnapshotName n = false →
      n = root ∨ recursive = true ∧ AtOrBelow root n → Prepared s root suffix be n)
    (hquiet : Unrefused s t) (hr : libzeClone host root suffix be recursive s = (r, t)) :
    r = .success := by
  obtain ⟨u, props, rest, hsu, hitems, hr⟩ := libzeClone_collects hs hsource hquiet hr
  obtain ⟨hroot, hfs⟩ := exists_filesystem hsource
  have hgrows : Grows s u := hsu.same.shape.grows
  refine cloneDatasets_success _ (fun n hn => ?_) (hquiet.part hsu.suffix
    ((cloneDatasets_issues _).suffix hr) List.suffix_rfl) hr
  rw [hitems] at hn
  split at hn
  · rename_i hrec
    obtain ⟨hmem, hflat, hbelow⟩ := (mem_subtree hs hroot hfs).mp hn
    exact (hok n hmem hflat (.inr ⟨hrec, hbelow⟩)).grows hgrows
  · obtain rfl := List.mem_singleton.mp hn
    exact (hok n hroot hfs (.inl rfl)).grows hgrows

theorem cloneChildName_self (hroot : root.length + 1 < zfsMaxDatasetNameLen)
    (hbe : be.length < zfsMaxDatasetNameLen) : cloneChildName root be root = .ok be := by
  rw [cloneChildName, libzeUtilSuffixAfterString_eq (by omega) hroot]
  dsimp only
  rw [if_neg (by decide), List.drop_eq_nil_of_le (by omega), if_neg (by decide)]
  simp only [strlcpy, take_of_fits hbe]
  rw [if_neg (by omega)]

/-- The source itself is cloned to `be`, whatever comes behind it. -/
theorem libzeClone_first (hs : IsForest s.names)
    (hsource : s.datasetExists root .filesystem = true)
    (hlen : (root ++ '@' :: suffix).length < zfsMaxDatasetNameLen)
    (hsnap : root ++ '@' :: suffix ∈ s.names) (hbe : be.length < zfsMaxDatasetNameLen)
    (hquiet : Unrefused s t) (hr : libzeClone host root suffix be recursive s = (r, t)) :
    be ∈ t.names := by
  obtain ⟨u, props, rest, hsu, -, hr⟩ := libzeClone_collects hs hsource hquiet hr
  have hroot : root.length + 1 < zfsMaxDatasetNameLen := by
    simp only [List.length_append, List.length_cons] at hlen
    omega
  have hself := cloneChildName_self hroot hbe
  have hok : Prepared u root suffix be root :=
    ⟨⟨be, hself⟩, hlen, hsu.same.shape.grows.names hsnap⟩
  obtain ⟨v, -, -, hmade, hr⟩ := cloneDatasets_cons hok (hquiet.part hsu.suffix
    ((cloneDatasets_issues _).suffix hr) List.suffix_rfl) hr
  exact ((cloneDatasets_issues rest).grows (fun s c hc => hc.grows s) hr).names (hmade be hself)

end Cloning

/-! ## Creating -/

section Creating
variable {host : Host} {h : Handle} {options : CreateOptions} {s t u : Sys} {n : CStr}

/-- The names a recursive create builds fit in their buffers. -/
def NamesFit (host : Host) (h : Handle) (options : CreateOptions) (s : Sys) : Prop :=
  options.recursive = true → ∀ n ∈ s.names, isSnapshotName n = false →
    AtOrBelow h.envActivatedPath n →
      (∀ now : Sys, (n ++ '@' :: (host.now now).text).length < zfsMaxDatasetNameLen) ∧
        (h.beDataset options.beName ++ n.drop h.envActivatedPath.length).length <
          zfsMaxDatasetNameLen

theorem snapshot_names {ds suffix : CStr} {recursive : Bool} (hsuffix : '@' ∉ suffix)
    (hr : call host (.zfs (.snapshot (ds ++ '@' :: suffix) recursive)) s = (0, t))
    (hn : n ∈ s.names) (hfs : isSnapshotName n = false)
    (hin : n = ds ∨ recursive = true ∧ AtOrBelow ds n) : n ++ '@' :: suffix ∈ t.names := by
  obtain ⟨d, hd, rfl⟩ := List.mem_map.mp hn
  have hcut : splitLast '@' (ds ++ '@' :: suffix) = some (ds, suffix) :=
    splitLast_eq_some.mpr ⟨rfl, hsuffix⟩
  have hnew : { name := d.name ++ '@' :: suffix } ∈ s.newSnapshots (ds ++ '@' :: suffix) recursive := by
    unfold Sys.newSnapshots
    rw [hcut]
    exact List.mem_map.mpr ⟨d, List.mem_filter.mpr ⟨hd, by simp [hfs, hin]⟩, rfl⟩
  rw [(call_done hr).2]
  exact List.mem_map.mpr ⟨_, List.mem_append_right s.datasets hnew, rfl⟩

theorem sources_names {α : Type} {m : Libze α} {a : α} (hm : Issues host SourceCall m)
    (hr : m s = (a, t)) (hfs : isSnapshotName n = false) : n ∈ t.names ↔ n ∈ s.names := by
  have hkeep : n ∈ (m s).2.names ↔ n ∈ s.names :=
    hm.keeps (fun u => n ∈ u.names ↔ n ∈ s.names) (fun _ _ _ _ h => h)
      (fun u c hc _ hu => (hc.names u hfs).trans hu) Iff.rfl
  rwa [hr] at hkeep

theorem exists_grows (hn : s.datasetExists n .filesystem = true) (hst : Grows s t) :
    t.datasetExists n .filesystem = true := by
  obtain ⟨hmem, hfs⟩ := exists_filesystem hn
  simp [Sys.datasetExists, hst.names hmem, hfs]

/-- What the sources leave for the clones of the two pools. -/
structure Sourced (h : Handle) (bp : Bootpool) (options : CreateOptions) (suffix : CStr)
    (s : Sys) : Prop where
  wellFormed : WellFormed s
  source : s.datasetExists h.envActivatedPath .filesystem = true
  prepared : ∀ n ∈ s.names, isSnapshotName n = false →
    n = h.envActivatedPath ∨ options.recursive = true ∧ AtOrBelow h.envActivatedPath n →
      Prepared s h.envActivatedPath suffix (h.beDataset options.beName) n
  bootSource : s.datasetExists (bp.beDataset h.envRunning) .filesystem = true
  bootFits : (bp.beDataset h.envRunning ++ '@' :: suffix).length < zfsMaxDatasetNameLen
  bootSnapshot : bp.beDataset h.envRunning ++ '@' :: suffix ∈ s.names

theorem Sourced.looked {bp : Bootpool} {suffix : CStr} (hs : Sourced h bp options suffix s)
    (hst : Looked s t) : Sourced h bp options suffix t where
  wellFormed := hs.wellFormed.of_datasets hst.same.datasets
  source := exists_grows hs.source hst.same.shape.grows
  prepared n hn hfs hin :=
    (hs.prepared n (hst.same.names ▸ hn) hfs hin).grows hst.same.shape.grows
  bootSource := exists_grows hs.bootSource hst.same.shape.grows
  bootFits := hs.bootFits
  bootSnapshot := hst.same.shape.grows.names hs.bootSnapshot

theorem snapshots_grows {ds suffix : CStr} {recursive : Bool}
    (hr : Snapshots host ds suffix recursive s t) : Grows s t := by
  have hissues : Issues host SourceCall
      (call host (.zfs (.snapshot (ds ++ '@' :: suffix) recursive))) :=
    issues_call (.inr ⟨_, _, rfl⟩)
  exact hissues.grows (fun s c hc => hc.grows s) hr.2

theorem sourced_of_bootfs {bp : Bootpool} {cdata bootPoolCdata : CreateData}
    (hbp : h.bootpool = some bp) (hrule : KeepsPools host) (hsnap : SnapshotRule host)
    (hs : WellFormed s) (hfit : Fits h options.beName) (hfits : NamesFit host h options s)
    (hr : sourcesFromBootfs host h options s = ((.success, cdata, bootPoolCdata), t)) :
    ∃ suffix, cdata = ⟨suffix, h.envActivatedPath, false⟩ ∧
      bootPoolCdata = ⟨suffix, bp.beDataset h.envRunning, false⟩ ∧
      Sourced h bp options suffix t := by
  have hwf := wellFormed_of_issues (@sourcesFromBootfs_issues host h options) hrule hs hr
  have hflat : ∀ n, isSnapshotName n = false → (n ∈ t.names ↔ n ∈ s.names) := fun n hfs =>
    sources_names (@sourcesFromBootfs_issues host h options) hr hfs
  obtain ⟨suffix, u, hsuffix, htext, rfl, rfl, hroot, hboot⟩ := sourcesFromBootfs_success hbp hr
  have hgrows : Grows s u := snapshots_grows hroot
  have hgrows' : Grows u t := snapshots_grows hboot
  have hthere := hsnap _ _ _ _ hsuffix (call_done hroot.2).1
  have hbootThere := hsnap _ _ _ _ hsuffix (call_done hboot.2).1
  obtain ⟨hmem, hfs⟩ := exists_filesystem hbootThere
  refine ⟨suffix, rfl, rfl, hwf, exists_grows hthere (hgrows.trans hgrows'), ?_,
    exists_grows hbootThere hgrows', hboot.1, snapshot_names hsuffix hboot.2 hmem hfs (.inl rfl)⟩
  intro n hn hfs hin
  have hmem : n ∈ s.names := (hflat n hfs).mp hn
  have htaken := hgrows'.names (snapshot_names hsuffix hroot.2 hmem hfs hin)
  have hlen := hroot.1
  have hpath : h.envActivatedPath.length + 1 < zfsMaxDatasetNameLen := by
    simp only [List.length_append, List.length_cons] at hlen
    omega
  obtain rfl | ⟨hrec, hbelow⟩ := hin
  · exact ⟨⟨_, cloneChildName_self hpath hfit.root⟩, hlen, htaken⟩
  · obtain ⟨hsnapFits, hnameFits⟩ := hfits hrec n hmem hfs hbelow
    have hnlen := htext ▸ hsnapFits s
    have hshort : n.length < zfsMaxDatasetNameLen := by
      simp only [List.length_append, List.length_cons] at hnlen
      omega
    exact ⟨⟨_, cloneChildName_eq (hs.forest.valid n hmem) hfs hbelow hshort hpath hnameFits⟩,
      hnlen, htaken⟩

/-- Behind its sources, a create makes the dataset on the root pool. -/
theorem Sourced.root {bp : Bootpool} {suffix : CStr} {r : LibzeError}
    (hs : Sourced h bp options suffix s) (hquiet : Unrefused s t)
    (hr : libzeClone host h.envActivatedPath suffix (h.beDataset options.beName) options.recursive s =
      (r, t)) : r = .success ∧ h.beDataset options.beName ∈ t.names := by
  obtain rfl := libzeClone_granted hs.wellFormed.forest hs.source hs.prepared hquiet hr
  obtain ⟨_, v, _, -, -, hcall, hv⟩ := libzeClone_success hr
  refine ⟨rfl, hv.names ?_⟩
  rw [(call_done hcall).2]
  show _ ∈ (List.map Dataset.name (_ ++ [_]))
  simp

/-- Then it makes the one on the boot pool, whatever fails behind it. -/
theorem Sourced.boot {bp : Bootpool} {suffix : CStr} {r : LibzeError} (hbp : h.bootpool = some bp)
    (hs : Sourced h bp options suffix s) (hst : Grows s t) (hwf : WellFormed t)
    (hfit : Fits h options.beName) (hquiet : Unrefused t u)
    (hr : cloneBootDataset host ⟨suffix, bp.beDataset h.envRunning, false⟩
      (h.bpoolDataset options.beName) options.recursive t = (r, u)) :
    bp.beDataset options.beName ∈ u.names := by
  rw [bpoolDataset_some hbp, cloneBootDataset, if_neg (bootBeDataset_ne_nil bp _)] at hr
  obtain ⟨ret, v, hclone, hr⟩ := bind_run hr
  have hmade : Unrefused t v → bp.beDataset options.beName ∈ v.names := fun hpart =>
    libzeClone_first hwf.forest (exists_grows hs.bootSource hst) hs.bootFits
      (hst.names hs.bootSnapshot) (hfit.boot bp hbp) hpart hclone
  split at hr
  · cases hr
    exact hmade hquiet
  · cases hr
    exact hmade hquiet

/-- When libzfs refuses nothing a create ends before its first clone, or makes the datasets of
the environment on both pools. -/
theorem libzeCreate_both {bp : Bootpool} {r : LibzeError} (hbp : h.bootpool = some bp)
    (hrule : KeepsPools host) (hsnap : SnapshotRule host) (hs : WellFormed s)
    (hfits : NamesFit host h options s) (hquiet : Unrefused s t)
    (hr : libzeCreate host h options s = (r, t)) :
    (∀ n, isSnapshotName n = false → (n ∈ t.names ↔ n ∈ s.names)) ∨
      (h.beDataset options.beName ∈ t.names ∧ bp.beDataset options.beName ∈ t.names) := by
  unfold libzeCreate at hr
  obtain ⟨⟨ret, ds, bds⟩, s1, hnew, hr⟩ := bind_run hr
  have hs1 := (validateNewBe_issues host h options.beName).looked hnew
  dsimp only at hr
  split at hr
  · cases hr
    exact .inl fun n _ => by rw [(hs1.error _ _).same.names]
  rename_i hret
  rw [not_not.mp hret] at hnew
  obtain ⟨-, -, hfit, habsent⟩ := validateNewBe_success hnew
  obtain ⟨⟨ret, cdata, bootPoolCdata⟩, s2, hsources, hr⟩ := bind_run hr
  have hs2 : s1.trace <:+ s2.trace := createSources_issues.suffix hsources
  have hflat : ∀ n, isSnapshotName n = false → (n ∈ s2.names ↔ n ∈ s.names) := fun n hfs => by
    rw [sources_names createSources_issues hsources hfs, hs1.same.names]
  dsimp only at hr
  split at hr
  · cases hr
    exact .inl hflat
  rename_i hret
  rw [not_not.mp hret] at hsources
  obtain ⟨⟨ret, ds, bds⟩, s3, hnew', hr⟩ := bind_run hr
  have hs3 := (validateNewBe_issues host h options.beName).looked hnew'
  dsimp only at hr
  split at hr
  · cases hr
    exact .inl fun n hfs => by rw [← hflat n hfs, ← (hs3.error _ _).same.names]
  rename_i hret
  rw [not_not.mp hret] at hnew'
  obtain ⟨rfl, rfl, -, -⟩ := validateNewBe_success hnew'
  unfold createSources at hsources
  split at hsources
  · exact absurd hsources (sourcesFromExisting_ne_success hbp (habsent.of_same hs1.same))
  have hfits1 : NamesFit host h options s1 := fun hrec n hn =>
    hfits hrec n (hs1.same.names ▸ hn)
  obtain ⟨suffix, rfl, rfl, hsourced⟩ := sourced_of_bootfs hbp hrule hsnap
    (hs.of_datasets hs1.same.datasets) hfit hfits1 hsources
  have hsourced3 := hsourced.looked hs3
  have hsuffix3 : s.trace <:+ s3.trace := (hs1.suffix.trans hs2).trans hs3.suffix
  obtain ⟨ret, s4, hclone, hr⟩ := bind_run hr
  have hs4 : s3.trace <:+ s4.trace := (libzeClone_issues _).suffix hclone
  split at hr
  · rename_i hne
    cases hr
    exact absurd (hsourced3.root (hquiet.part hsuffix3 hs4 List.suffix_rfl) hclone).1 hne
  obtain ⟨ret, s5, hboot, hr⟩ := bind_run hr
  have hissues5 := @cloneBootDataset_issues host h options.beName
    ⟨suffix, bp.beDataset h.envRunning, false⟩ options.recursive
  obtain ⟨hs6, hgrows6⟩ : s5.trace <:+ t.trace ∧ Grows s5 t := by
    split at hr
    · cases hr
      exact ⟨List.suffix_rfl, List.prefix_rfl⟩
    · exact ⟨(postCreate_issues _ _).suffix hr,
        (postCreate_issues _ _).grows (fun s c hc => hc.grows s) hr⟩
  have hs5 : s4.trace <:+ s5.trace := hissues5.suffix hboot
  have hmade := (hsourced3.root (hquiet.part hsuffix3 hs4 (hs5.trans hs6)) hclone).2
  have hgrows5 : Grows s4 s5 := hissues5.grows (fun s c hc => hc.grows s) hboot
  refine .inr ⟨hgrows6.names (hgrows5.names hmade), hgrows6.names ?_⟩
  exact hsourced3.boot hbp ((libzeClone_issues _).grows (fun s c hc => hc.grows s) hclone)
    (wellFormed_of_issues (libzeClone_issues _) hrule hsourced3.wellFormed hclone) hfit
    (hquiet.part (hsuffix3.trans hs4) hs5 hs6) hboot

end Creating

end Zectl.Libze.Granted
