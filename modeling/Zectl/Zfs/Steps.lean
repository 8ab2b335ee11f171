import Zectl.Zfs.System

/-!
# Programs as sequences of permitted calls

A program is summarised by the calls it may issue. Each of its runs is a sequence
of such calls and of new last errors, so a property of states that every permitted
call preserves is preserved by the program, whatever the calls answer.
-/

namespace Zectl.Zfs.Steps

open Relation (ReflTransGen)
open Zectl.Lib.StateRun Zectl.Lib.PathOrder Zectl.Util.CString Zectl.Zfs.System

/-- One permitted call, or a new last error. -/
inductive Step (host : Host) (may : Call → Prop) : Sys → Sys → Prop
  | call (s : Sys) {c : Call} (hc : may c) : Step host may s (call host c s).2
  | error (s : Sys) (err : LibzeError) (message : CStr) :
      Step host may s { s with libzeError := err, libzeErrorMessage := message }

/-- The program issues permitted calls only. -/
abbrev Issues (host : Host) (may : Call → Prop) {α : Type} (m : Libze α) : Prop :=
  Moves (Step host may) m

/-- The calls of the trace of `t` that are not in the trace of `s`, newest first. -/
def since (s t : Sys) : List (Call × Nat) := t.trace.take (t.trace.length - s.trace.length)

section Rules
variable {host : Host} {may may' : Call → Prop} {α β : Type}

theorem issues_call {c : Call} (hc : may c) : Issues host may (call host c) :=
  moves_of_step fun s => .call s hc

theorem issues_errorSet (err : LibzeError) (message : CStr) :
    Issues host may (libzeErrorSet err message) :=
  moves_of_step fun s => .error s err _

theorem issues_errorPrepend (err : LibzeError) (message : CStr) :
    Issues host may (libzeErrorPrepend err message) :=
  moves_of_step fun s => .error s err _

theorem issues_zfsOpen {name : CStr} {type : ZfsType} (hc : may (.zfs (.open name))) :
    Issues host may (zfsOpen host name type) := by
  refine moves_bind moves_get fun s => ?_
  exact moves_ite (fun _ => issues_call hc) (fun _ => moves_pure _)

theorem issues_zfsPropGet {name : CStr} {prop : ZfsProp} (hc : may (.zfs (.propGet name prop))) :
    Issues host may (zfsPropGet host name prop) := by
  refine moves_bind (issues_call hc) fun r => ?_
  refine moves_ite (fun _ => moves_pure _) (fun _ => ?_)
  refine moves_bind moves_get fun s => ?_
  split
  · exact moves_pure _
  · exact moves_pure _

theorem Issues.weaken {m : Libze α} (h : Issues host may m) (himp : ∀ c, may c → may' c) :
    Issues host may' m := by
  refine h.mono ?_
  intro s t hst
  cases hst with
  | call hc => exact .call s (himp _ hc)
  | error err message => exact .error s err message

/-- A property of the datasets, the boot file system and the files that every
permitted call preserves. -/
theorem Issues.keeps {m : Libze α} (h : Issues host may m) (inv : Sys → Prop)
    (hlog : ∀ s log err message, inv s →
      inv { s with trace := log, libzeError := err, libzeErrorMessage := message })
    (heff : ∀ s c, may c → host.answer s c = 0 → inv s → inv (c.effect host s)) {s : Sys}
    (hs : inv s) : inv (m s).2 := by
  refine invariant_of_steps inv ?_ (h s) hs
  intro s t hst hs
  cases hst with
  | @call c hc =>
    have hmid : inv (if host.answer s c = 0 then c.effect host s else s) := by
      split
      · exact heff s c hc ‹_› hs
      · exact hs
    exact hlog _ ((c, host.answer s c) :: _) _ _ hmid
  | error err message => exact hlog s s.trace err message hs

theorem effect_trace (s : Sys) (c : Call) : (c.effect host s).trace = s.trace := by
  cases c with
  | zfs c => cases c <;> rfl
  | hook h => rfl
  | file c =>
    cases c with
    | rename _ _ | fwrite _ _ =>
      simp only [Call.effect, FileCall.effect]
      split <;> rfl
    | _ => rfl

theorem fileEffect_datasets (s : Sys) (c : FileCall) : (c.effect s).datasets = s.datasets := by
  cases c with
  | rename | fwrite =>
    rw [FileCall.effect]
    split
    · rfl
    · rfl
  | _ => rfl

/-- What a successful call leaves. -/
theorem call_done {c : Call} {s t : Sys} (hr : call host c s = (0, t)) :
    host.answer s c = 0 ∧ t = { c.effect host s with trace := (c, 0) :: s.trace } := by
  obtain ⟨hcode, rfl⟩ := Prod.mk.inj hr
  rw [if_pos hcode, hcode, effect_trace]
  exact ⟨rfl, rfl⟩

theorem call_granted {c : Call} {s : Sys} (h : host.answer s c = 0) :
    call host c s = (0, { c.effect host s with trace := (c, 0) :: s.trace }) := by
  rw [← (call_done (run_eq_of_fst h)).2]
  exact run_eq_of_fst h

/-- What a refused call leaves. -/
theorem call_refused {c : Call} {code : Nat} {s t : Sys} (hr : call host c s = (code, t))
    (hcode : code ≠ 0) : t = { s with trace := (c, code) :: s.trace } := by
  obtain ⟨rfl, rfl⟩ := Prod.mk.inj hr
  rw [if_neg hcode]

theorem call_trace {c : Call} {code : Nat} {s t : Sys} (hr : call host c s = (code, t)) :
    t.trace = (c, code) :: s.trace := by
  by_cases hcode : code = 0
  · subst hcode
    rw [(call_done hr).2]
  · rw [call_refused hr hcode]

theorem call_suffix {c : Call} {code : Nat} {s t : Sys} (hr : call host c s = (code, t)) :
    s.trace <:+ t.trace :=
  ⟨[(c, code)], (call_trace hr).symm⟩

/-- What holds of each permitted call and the code it gets holds of all that a run adds in front
of the trace. -/
theorem Issues.logged {m : Libze α} (h : Issues host may m) (P : Call × Nat → Prop)
    (hcall : ∀ s c, may c → P (c, host.answer s c)) (s : Sys) :
    ∃ new, (m s).2.trace = new ++ s.trace ∧ ∀ e ∈ new, P e := by
  refine relation_of_steps (fun s t => ∃ new, t.trace = new ++ s.trace ∧ ∀ e ∈ new, P e) ?_ ?_ ?_ (h s)
  · exact fun s => ⟨[], rfl, by simp⟩
  · rintro s t u ⟨new, ht, hnew⟩ ⟨new', hu, hnew'⟩
    refine ⟨new' ++ new, by rw [hu, ht, List.append_assoc], ?_⟩
    intro e he
    rcases List.mem_append.mp he with he | he
    · exact hnew' e he
    · exact hnew e he
  · intro s t hst
    cases hst with
    | @call c hc => exact ⟨[(c, host.answer s c)], call_trace rfl, by simpa using hcall s c hc⟩
    | error err message => exact ⟨[], rfl, by simp⟩

/-- A run adds permitted calls in front of the trace. -/
theorem Issues.trace {m : Libze α} (h : Issues host may m) (s : Sys) :
    ∃ new, (m s).2.trace = new ++ s.trace ∧ ∀ e ∈ new, may e.1 :=
  h.logged (fun e => may e.1) (fun _ _ hc => hc) s

theorem since_of_trace {s t : Sys} {new : List (Call × Nat)} (h : t.trace = new ++ s.trace) :
    since s t = new := by
  simp [since, h]

theorem Issues.suffix {m : Libze α} (h : Issues host may m) {s t : Sys} {a : α}
    (hr : m s = (a, t)) : s.trace <:+ t.trace := by
  obtain ⟨new, ht, _⟩ := h.trace s
  rw [hr] at ht
  exact ⟨new, ht.symm⟩

/-- A call in the middle of a run is among its calls. -/
theorem mem_since {c : Call} {code : Nat} {s s1 s2 t : Sys} (hs : s.trace <:+ s1.trace)
    (hr : call host c s1 = (code, s2)) (ht : s2.trace <:+ t.trace) :
    (c, code) ∈ Steps.since s t := by
  have hs2 := call_trace hr
  obtain ⟨before, hbefore⟩ := hs
  obtain ⟨later, hlater⟩ := ht
  have htrace : t.trace = (later ++ (c, code) :: before) ++ s.trace := by
    rw [← hlater, hs2, ← hbefore]
    simp
  rw [since_of_trace htrace]
  simp

/-- A relation between the calls of a run and its two ends holds of every run when it
holds of single calls and of runs in sequence. -/
theorem Issues.related {m : Libze α} (h : Issues host may m)
    (R : List (Call × Nat) → Sys → Sys → Prop)
    (hquiet : ∀ s log err message,
      R [] s { s with trace := log, libzeError := err, libzeErrorMessage := message })
    (hrefused : ∀ s c code log, code ≠ 0 → R [(c, code)] s { s with trace := log })
    (hgranted : ∀ s c log, may c → R [(c, 0)] s { c.effect host s with trace := log })
    (hseq : ∀ new new' s t u, R new s t → R new' t u → R (new' ++ new) s u) (s : Sys) :
    R (Steps.since s (m s).2) s (m s).2 := by
  have hrel : ∃ new, (m s).2.trace = new ++ s.trace ∧ R new s (m s).2 := by
    refine relation_of_steps (fun s t => ∃ new, t.trace = new ++ s.trace ∧ R new s t) ?_ ?_ ?_ (h s)
    · exact fun s => ⟨[], rfl, hquiet s s.trace s.libzeError s.libzeErrorMessage⟩
    · rintro s t u ⟨new, ht, hnew⟩ ⟨new', hu, hnew'⟩
      exact ⟨new' ++ new, by rw [hu, ht, List.append_assoc], hseq _ _ _ _ _ hnew hnew'⟩
    · intro s t hst
      cases hst with
      | @call c hc =>
        rcases hcall : call host c s with ⟨code, t⟩
        by_cases hcode : code = 0
        · subst hcode
          obtain ⟨_, rfl⟩ := call_done hcall
          exact ⟨[(c, 0)], rfl, hgranted s c _ hc⟩
        · rw [call_refused hcall hcode]
          exact ⟨[(c, code)], rfl, hrefused s c code _ hcode⟩
      | error err message => exact ⟨[], rfl, hquiet s s.trace err _⟩
  obtain ⟨new, htrace, hnew⟩ := hrel
  rwa [since_of_trace htrace]

/-- When only one call can make a property of a name false, a run after which it is
false has issued that call with success. -/
theorem Issues.caused {m : Libze α} (h : Issues host may m) (P : Sys → CStr → Prop)
    (cause : CStr → Call)
    (hlog : ∀ s log err message n,
      P { s with trace := log, libzeError := err, libzeErrorMessage := message } n ↔ P s n)
    (hstep : ∀ s c n, may c → P s n → ¬ P (c.effect host s) n → c = cause n)
    {s : Sys} {n : CStr} (hs : P s n) (ht : ¬ P (m s).2 n) :
    (cause n, 0) ∈ Steps.since s (m s).2 := by
  refine h.related (fun new s t => ∀ n, P s n → ¬ P t n → (cause n, 0) ∈ new) ?_ ?_ ?_ ?_ s n hs ht
  · exact fun s log err message n hs hn => absurd ((hlog s log err message n).mpr hs) hn
  · exact fun s c code log _ n hs hn => absurd ((hlog s log _ _ n).mpr hs) hn
  · intro s c log hc n hs hn
    have heff : ¬ P (c.effect host s) n := fun hp => hn ((hlog _ log _ _ n).mpr hp)
    rw [hstep s c n hc hs heff]
    exact List.mem_cons_self
  · intro new new' s t u hst htu n hs hn
    by_cases hmid : P t n
    · exact List.mem_append_left _ (htu n hmid hn)
    · exact List.mem_append_right _ (hst n hs hmid)

/-- Only permitted calls are issued. -/
theorem Issues.since {m : Libze α} (h : Issues host may m) (s : Sys) :
    ∀ e ∈ since s (m s).2, may e.1 := by
  obtain ⟨new, ht, hnew⟩ := h.trace s
  rw [since_of_trace ht]
  exact hnew

end Rules

theorem ofCode_ne_success {code : Nat} (h : code ≠ 0) : LibzeError.ofCode code ≠ .success := by
  unfold LibzeError.ofCode
  split <;> simp_all

/-- A check that fails ends the program with its error, so a run that ends otherwise
has passed the check. -/
theorem elim_fail {β : Type} {c : Prop} [Decidable c] {err : LibzeError} {message : CStr}
    {mk : LibzeError → β} {k : Libze β} {s t : Sys} {b : β}
    (h : (if c then (libzeErrorSet err message >>= fun e => pure (mk e)) else k) s = (b, t))
    (hne : mk err ≠ b) : ¬ c ∧ k s = (b, t) := by
  split at h
  · cases h
    exact absurd rfl hne
  · exact ⟨‹_›, h⟩

/-! ## Looking up -/

/-- The calls that only look at the pools. -/
def IsLookup : Call → Prop
  | .zfs (.poolOpen _) | .zfs (.open _) | .zfs (.propGet _ _) => True
  | _ => False

/-- Two states with the same datasets but for their mounts and properties. -/
def SameShape (s t : Sys) : Prop :=
  t.datasets.map (fun d => (d.name, d.origin)) = s.datasets.map fun d => (d.name, d.origin)

/-- Two states with the same pools and files. -/
structure SamePools (s t : Sys) : Prop where
  datasets : t.datasets = s.datasets
  bootfs : t.bootfs = s.bootfs
  files : t.files = s.files

theorem SamePools.refl (s : Sys) : SamePools s s := ⟨rfl, rfl, rfl⟩

theorem SamePools.trans {s t u : Sys} (hst : SamePools s t) (htu : SamePools t u) :
    SamePools s u :=
  ⟨htu.1.trans hst.1, htu.2.trans hst.2, htu.3.trans hst.3⟩

theorem SamePools.shape {s t : Sys} (h : SamePools s t) : SameShape s t := by
  rw [SameShape, h.datasets]

theorem SamePools.names {s t : Sys} (h : SamePools s t) : t.names = s.names := by
  rw [Sys.names, h.datasets, Sys.names]

theorem SamePools.datasetExists {s t : Sys} (h : SamePools s t) (name : CStr) (type : ZfsType) :
    t.datasetExists name type = s.datasetExists name type := by
  simp only [Sys.datasetExists, h.names]

theorem SamePools.find {s t : Sys} (h : SamePools s t) (name : CStr) : t.find name = s.find name := by
  rw [Sys.find, h.datasets, Sys.find]

theorem SameShape.refl (s : Sys) : SameShape s s := rfl

theorem SameShape.trans {s t u : Sys} (hst : SameShape s t) (htu : SameShape t u) :
    SameShape s u := Eq.trans htu hst

theorem SameShape.names {s t : Sys} (h : SameShape s t) : t.names = s.names := by
  have hmap := congrArg (List.map Prod.fst) h
  simpa [Sys.names, Function.comp_def] using hmap

/-- A clone and its origin in one state are a clone and its origin in the other. -/
theorem SameShape.exists_origin {s t : Sys} (h : SameShape s t) {d : Dataset}
    (hd : d ∈ t.datasets) : ∃ e ∈ s.datasets, e.name = d.name ∧ e.origin = d.origin := by
  have hmem : (d.name, d.origin) ∈ t.datasets.map fun d => (d.name, d.origin) :=
    List.mem_map_of_mem hd
  rw [h] at hmem
  obtain ⟨e, he, heq⟩ := List.mem_map.mp hmem
  exact ⟨e, he, congrArg Prod.fst heq, congrArg Prod.snd heq⟩

theorem mapDataset_shape {s : Sys} {name : CStr} {f : Dataset → Dataset}
    (hf : ∀ d, ((f d).name, (f d).origin) = (d.name, d.origin)) :
    SameShape s (s.mapDataset name f) := by
  simp only [SameShape, Sys.mapDataset, List.map_map]
  apply List.map_congr_left
  intro d _
  simp only [Function.comp_apply]
  split
  · exact hf d
  · rfl

/-- Every dataset of the second state is one of the first. -/
def Remains (s t : Sys) : Prop :=
  ∀ d ∈ t.datasets, ∃ e ∈ s.datasets, e.name = d.name ∧ e.origin = d.origin

theorem Remains.refl (s : Sys) : Remains s s := fun d hd => ⟨d, hd, rfl, rfl⟩

theorem Remains.trans {s t u : Sys} (hst : Remains s t) (htu : Remains t u) : Remains s u := by
  intro d hd
  obtain ⟨e, he, hen, heo⟩ := htu d hd
  obtain ⟨f, hf, hfn, hfo⟩ := hst e he
  exact ⟨f, hf, hfn.trans hen, hfo.trans heo⟩

theorem Remains.names {s t : Sys} (h : Remains s t) {n : CStr} (hn : n ∈ t.names) :
    n ∈ s.names := by
  obtain ⟨d, hd, rfl⟩ := List.mem_map.mp hn
  obtain ⟨e, he, hname, _⟩ := h d hd
  exact hname ▸ List.mem_map_of_mem he

theorem SameShape.remains {s t : Sys} (h : SameShape s t) : Remains s t :=
  fun _ hd => h.exists_origin hd

/-- Datasets are only added, behind those that are there. -/
def Grows (s t : Sys) : Prop :=
  s.datasets.map (fun d => (d.name, d.origin)) <+: t.datasets.map fun d => (d.name, d.origin)

theorem SameShape.grows {s t : Sys} (h : SameShape s t) : Grows s t := by
  rw [Grows, h]

theorem Grows.trans {s t u : Sys} (hst : Grows s t) (htu : Grows t u) : Grows s u :=
  List.IsPrefix.trans hst htu

theorem Grows.names {s t : Sys} (h : Grows s t) {n : CStr} (hn : n ∈ s.names) : n ∈ t.names := by
  obtain ⟨d, hd, rfl⟩ := List.mem_map.mp hn
  obtain ⟨e, he, heq⟩ := List.mem_map.mp (h.subset (List.mem_map_of_mem hd))
  exact List.mem_map.mpr ⟨e, he, congrArg Prod.fst heq⟩

theorem originOf_eq (s : Sys) (n : CStr) : s.originOf n =
    ((s.datasets.map fun d => (d.name, d.origin)).find? fun p => p.1 = n).bind Prod.snd := by
  rw [List.find?_map, Sys.originOf, Sys.find, Option.bind_map]
  rfl

theorem Grows.originOf {s t : Sys} (h : Grows s t) {n o : CStr} (hn : s.originOf n = some o) :
    t.originOf n = some o := by
  obtain ⟨new, hnew⟩ := h
  rw [originOf_eq] at hn ⊢
  obtain ⟨p, hp, ho⟩ := Option.bind_eq_some_iff.mp hn
  rw [← hnew, List.find?_append, hp]
  exact ho

/-- A program that only adds datasets. -/
theorem Issues.grows {host : Host} {α : Type} {may : Call → Prop} {m : Libze α}
    (h : Issues host may m) (hmay : ∀ s c, may c → Grows s (c.effect host s)) {s t : Sys} {a : α}
    (hr : m s = (a, t)) : Grows s t := by
  have hkeep : Grows s (m s).2 :=
    h.keeps (Grows s) (fun _ _ _ _ ht => ht) (fun u c hc _ hu => hu.trans (hmay u c hc))
      (List.prefix_rfl)
  rwa [hr] at hkeep

theorem lookup_effect {host : Host} {c : Call} (hc : IsLookup c) (s : Sys) :
    c.effect host s = s := by
  match c, hc with
  | .zfs (.poolOpen _), _ => rfl
  | .zfs (.open _), _ => rfl
  | .zfs (.propGet _ _), _ => rfl

/-- Programs that only look change neither pools nor files. -/
theorem Issues.samePools {host : Host} {α : Type} {m : Libze α} (h : Issues host IsLookup m)
    (s : Sys) : SamePools s (m s).2 := by
  refine h.keeps (SamePools s) ?_ ?_ (.refl s)
  · exact fun t log err message ht => ⟨ht.1, ht.2, ht.3⟩
  · intro t c hc _ ht
    rwa [lookup_effect hc]

/-- The second state is the first after some lookups. -/
structure Looked (s t : Sys) : Prop where
  same : SamePools s t
  trace : ∃ new, t.trace = new ++ s.trace ∧ ∀ e ∈ new, IsLookup e.1

theorem Looked.refl (s : Sys) : Looked s s := ⟨.refl s, [], rfl, by simp⟩

theorem Looked.trans {s t u : Sys} (hst : Looked s t) (htu : Looked t u) : Looked s u := by
  obtain ⟨new, ht, hnew⟩ := hst.trace
  obtain ⟨new', hu, hnew'⟩ := htu.trace
  refine ⟨hst.same.trans htu.same, new' ++ new, by rw [hu, ht, List.append_assoc], fun e he => ?_⟩
  rcases List.mem_append.mp he with he | he
  · exact hnew' e he
  · exact hnew e he

theorem Looked.error {s t : Sys} (h : Looked s t) (err : LibzeError) (message : CStr) :
    Looked s { t with libzeError := err, libzeErrorMessage := message } :=
  ⟨⟨h.same.1, h.same.2, h.same.3⟩, h.trace⟩

theorem Looked.suffix {s t : Sys} (h : Looked s t) : s.trace <:+ t.trace := by
  obtain ⟨new, ht, _⟩ := h.trace
  exact ⟨new, ht.symm⟩

theorem Issues.looked {host : Host} {α : Type} {m : Libze α} (h : Issues host IsLookup m)
    {s t : Sys} {a : α} (hr : m s = (a, t)) : Looked s t := by
  have hs := h.samePools s
  have ht := h.trace s
  rw [hr] at hs ht
  exact ⟨hs, ht⟩

theorem Issues.samePools_of {host : Host} {α : Type} {m : Libze α} (h : Issues host IsLookup m)
    {s t : Sys} {a : α} (hr : m s = (a, t)) : SamePools s t := by
  have hs := h.samePools s
  rwa [hr] at hs

theorem call_samePools {host : Host} {c : Call} {code : Nat} {s t : Sys}
    (hr : call host c s = (code, t)) (hc : IsLookup c) : SamePools s t :=
  Issues.samePools_of (issues_call hc) hr

theorem zfsOpen_samePools {host : Host} {name : CStr} {type : ZfsType} {code : Nat} {s t : Sys}
    (hr : zfsOpen host name type s = (code, t)) : SamePools s t :=
  Issues.samePools_of (issues_zfsOpen trivial) hr

theorem zfsOpen_looked {host : Host} {name : CStr} {type : ZfsType} {code : Nat} {s t : Sys}
    (hr : zfsOpen host name type s = (code, t)) : Looked s t :=
  Issues.looked (issues_zfsOpen trivial) hr

theorem zfsPropGet_samePools {host : Host} {name : CStr} {prop : ZfsProp} {r : Nat × CStr}
    {s t : Sys} (hr : zfsPropGet host name prop s = (r, t)) : SamePools s t :=
  Issues.samePools_of (issues_zfsPropGet trivial) hr

theorem samePools_of_refused {host : Host} {c : Call} {code : Nat} {s t : Sys}
    (hr : call host c s = (code, t)) (hcode : code ≠ 0) : SamePools s t := by
  rw [call_refused hr hcode]
  exact ⟨rfl, rfl, rfl⟩

theorem samePools_of_call {host : Host} {c : Call} {code : Nat} {s t : Sys}
    (heff : SamePools s (c.effect host s)) (hr : call host c s = (code, t)) : SamePools s t := by
  by_cases hcode : code = 0
  · subst hcode
    rw [(call_done hr).2]
    exact ⟨heff.1, heff.2, heff.3⟩
  · exact samePools_of_refused hr hcode

/-! ## Finding a dataset -/

section Find
variable {host : Host} {s t : Sys}

theorem find_of_mem {name : CStr} (hname : name ∈ s.names) :
    ∃ d ∈ s.datasets, s.find name = some d := by
  obtain ⟨d, hd, hdn⟩ := List.mem_map.mp hname
  cases hfind : s.find name with
  | none => exact absurd (decide_eq_true hdn) (List.find?_eq_none.mp hfind d hd)
  | some e => exact ⟨e, List.mem_of_find?_eq_some hfind, rfl⟩

theorem find_mapDataset {name : CStr} {f : Dataset → Dataset} (hf : ∀ d, (f d).name = d.name)
    (n : CStr) : (s.mapDataset name f).find n =
      (s.find n).map fun d => if d.name = name then f d else d := by
  have hkey : ∀ d : Dataset, (if d.name = name then f d else d).name = d.name := by
    intro d
    split
    · exact hf d
    · rfl
  simp only [Sys.find, Sys.mapDataset, List.find?_map, Function.comp_def, hkey]

/-- The dataset itself is the one that is changed. -/
theorem find_mapDataset_self {name : CStr} {f : Dataset → Dataset} {d : Dataset}
    (hf : ∀ d, (f d).name = d.name) (hfind : s.find name = some d) :
    (s.mapDataset name f).find name = some (f d) := by
  have hname : d.name = name := by simpa using List.find?_some hfind
  rw [find_mapDataset hf, hfind, Option.map_some, if_pos hname]

theorem find_call_done {c : Call} (hr : call host c s = (0, t)) (n : CStr) :
    t.find n = (c.effect host s).find n := by
  rw [(call_done hr).2]
  rfl

theorem zfsOpen_exists {name : CStr} {type : ZfsType}
    (hr : zfsOpen host name type s = (0, t)) : s.datasetExists name type = true := by
  unfold zfsOpen at hr
  rw [run_get_bind] at hr
  split at hr
  · assumption
  · cases hr

theorem zfsOpen_granted {name : CStr} {type : ZfsType} (hex : s.datasetExists name type = true)
    (hopen : host.answer s (.zfs (.open name)) = 0) : ∃ t, zfsOpen host name type s = (0, t) := by
  refine ⟨_, run_eq_of_fst (?_ : (zfsOpen host name type s).1 = 0)⟩
  rw [zfsOpen, run_get_bind, if_pos hex, call_granted hopen]

end Find

/-! ## Sequences of calls -/

/-- The state after a sequence of calls. -/
def issue (host : Host) : List Call → Sys → Sys
  | [], s => s
  | c :: cs, s => issue host cs (call host c s).2

/-- Every call of a sequence succeeds. -/
def Grants (host : Host) : List Call → Sys → Prop
  | [], _ => True
  | c :: cs, s => host.answer s c = 0 ∧ Grants host cs (call host c s).2

section Sequence
variable {host : Host} {s : Sys}

theorem grants_append {cs ds : List Call} :
    Grants host (cs ++ ds) s ↔ Grants host cs s ∧ Grants host ds (issue host cs s) := by
  induction cs generalizing s with
  | nil => exact ⟨fun hds => ⟨trivial, hds⟩, fun hds => hds.2⟩
  | cons c cs ih =>
    show (_ ∧ Grants host (cs ++ ds) _) ↔ (_ ∧ Grants host cs _) ∧ _
    rw [ih, and_assoc]
    rfl

theorem issue_append {cs ds : List Call} :
    issue host (cs ++ ds) s = issue host ds (issue host cs s) := by
  induction cs generalizing s with
  | nil => rfl
  | cons c cs ih => exact ih

end Sequence

end Zectl.Zfs.Steps
