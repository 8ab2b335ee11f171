import Zectl.Util.Files

/-!
# What a run does to the files

The files behind a run follow from those before it and from the calls in its trace, so what a
file held when it was opened can be read off the trace. A program that writes in one place
leaves every other place as it was.
-/

namespace Zectl.Util.Writes

open Relation (ReflTransGen)
open Zectl.Lib.StateRun Zectl.Lib.PathOrder Zectl.Util.CString Zectl.Util.Files Zectl.Zfs.System
open Zectl.Zfs.Steps

/-- What a call on files that succeeded did. -/
def redo (s : Sys) : Call × Nat → Sys
  | (.file c, 0) => c.effect s
  | _ => s

/-- The calls of a trace, the newest first, done once more. -/
def replay (s : Sys) (calls : List (Call × Nat)) : Sys := calls.foldr (fun e u => redo u e) s

section Replay
variable {host : Host} {s t u v : Sys} {c : Call}

theorem fileEffect_files (c : FileCall) (h : t.files = s.files) :
    (c.effect t).files = (c.effect s).files := by
  have hread : ∀ path, t.readFile path = s.readFile path := fun path => readFile_of_files h
  cases c with
  | rename path target | fwrite path target =>
    simp only [FileCall.effect, hread]
    split
    · exact h
    · simp only [Sys.putFile, Sys.removeFile, h]
  | _ => simp only [FileCall.effect, Sys.putFile, Sys.removeFile, h]

theorem effect_files (hc : ∀ f, c ≠ .file f) : (c.effect host s).files = s.files := by
  cases c with
  | zfs c => cases c <;> rfl
  | hook _ => rfl
  | file f => exact absurd rfl (hc f)

theorem redo_files (h : t.files = s.files) (e : Call × Nat) :
    (redo t e).files = (redo s e).files := by
  unfold redo
  split
  · exact fileEffect_files _ h
  · exact h

theorem replay_append (s : Sys) (new before : List (Call × Nat)) :
    replay s (new ++ before) = replay (replay s before) new := List.foldr_append

theorem replay_files (h : t.files = s.files) (calls : List (Call × Nat)) :
    (replay t calls).files = (replay s calls).files := by
  induction calls with
  | nil => exact h
  | cons e before ih => exact redo_files ih e

@[simp] theorem since_self (s : Sys) : since s s = [] :=
  since_of_trace (List.nil_append s.trace).symm

theorem since_append (hst : s.trace <:+ t.trace) (htu : t.trace <:+ u.trace) :
    since s u = since t u ++ since s t := by
  obtain ⟨a, ha⟩ := hst
  obtain ⟨b, hb⟩ := htu
  have hu : u.trace = (b ++ a) ++ s.trace := by rw [← hb, ← ha, List.append_assoc]
  rw [since_of_trace hu, since_of_trace hb.symm, since_of_trace ha.symm]

/-- The trace of `t` goes back to `s` and tells its files. -/
structure Ran (s t : Sys) : Prop where
  suffix : s.trace <:+ t.trace
  files : (replay s (since s t)).files = t.files

theorem Ran.refl (s : Sys) : Ran s s :=
  ⟨List.suffix_refl _, by rw [since_self]; rfl⟩

theorem Ran.trans (hst : Ran s t) (htu : Ran t u) : Ran s u := by
  constructor
  · exact hst.suffix.trans htu.suffix
  · rw [since_append hst.suffix htu.suffix, replay_append, replay_files hst.files, htu.files]

theorem ran_call (c : Call) (s : Sys) : Ran s (call host c s).2 := by
  rcases hr : call host c s with ⟨code, t⟩
  have htrace : t.trace = [(c, code)] ++ s.trace := call_trace hr
  constructor
  · exact ⟨_, htrace.symm⟩
  rw [since_of_trace htrace]
  show (redo s (c, code)).files = t.files
  by_cases hcode : code = 0
  · subst hcode
    rw [(call_done hr).2]
    cases c with
    | file c => rfl
    | zfs c => exact (@effect_files host s _ (by simp)).symm
    | hook h => rfl
  · rw [call_refused hr hcode]
    unfold redo
    split
    · rename_i heq
      exact absurd (Prod.mk.inj heq).2 hcode
    · rfl

/-- Every program that works through calls tells its files. -/
theorem ran_of_issues {α : Type} {may : Call → Prop} {m : Libze α} {a : α}
    (h : Issues host may m) (hr : m s = (a, t)) : Ran s t := by
  have hrun : Ran s (m s).2 := by
    refine relation_of_steps Ran Ran.refl (fun _ _ _ => Ran.trans) ?_ (h s)
    intro s t hst
    cases hst with
    | call hc => exact ran_call _ _
    | error err message => exact ⟨List.suffix_refl _, (Ran.refl s).files⟩
  rwa [hr] at hrun

end Replay

/-! ## Reading and writing in a run -/

/-- The file held `content` when it was first opened. -/
def ReadAs (s t : Sys) (path content : CStr) : Prop :=
  ∃ before after, since s t = after ++ (.file (.fopenRead path), 0) :: before ∧
    (.file (.fopenRead path), 0) ∉ before ∧ (replay s before).readFile path = some content

/-- The file was made anew and holds `text` in the end. -/
def WrittenAs (s t : Sys) (path text : CStr) : Prop :=
  (.file (.fopenWrite path), 0) ∈ since s t ∧ t.readFile path = some text

section Events
variable {host : Host} {s t u v : Sys} {path content text : CStr}

theorem ReadAs.extend (h : ReadAs u v path content) (hsu : Ran s u)
    (hunread : (.file (.fopenRead path), 0) ∉ since s u) (huv : u.trace <:+ v.trace)
    (hvt : v.trace <:+ t.trace) : ReadAs s t path content := by
  obtain ⟨before, after, hsince, hfirst, hread⟩ := h
  refine ⟨before ++ since s u, since v t ++ after, ?_, ?_, ?_⟩
  · rw [since_append hsu.suffix (huv.trans hvt), since_append huv hvt, hsince]
    simp only [List.append_assoc, List.cons_append]
  · rw [List.mem_append, not_or]
    exact ⟨hfirst, hunread⟩
  · rw [replay_append, readFile_of_files (replay_files hsu.files before)]
    exact hread

/-- There is one first time. -/
theorem ReadAs.unique (h : ReadAs s t path content) (h' : ReadAs s t path text) :
    content = text := by
  obtain ⟨before, after, hsince, hfirst, hread⟩ := h
  obtain ⟨before', after', hsince', hfirst', hread'⟩ := h'
  have hsuffix : (.file (.fopenRead path), 0) :: before <:+ since s t := ⟨after, hsince.symm⟩
  have hsuffix' : (.file (.fopenRead path), 0) :: before' <:+ since s t := ⟨after', hsince'.symm⟩
  have hsame : before = before' := by
    obtain hle | hle := List.suffix_or_suffix_of_suffix hsuffix hsuffix'
    · obtain heq | hin := List.suffix_cons_iff.mp hle
      · exact (List.cons.inj heq).2
      · exact absurd (hin.subset List.mem_cons_self) hfirst'
    · obtain heq | hin := List.suffix_cons_iff.mp hle
      · exact (List.cons.inj heq).2.symm
      · exact absurd (hin.subset List.mem_cons_self) hfirst
  rw [hsame, hread'] at hread
  exact (Option.some.inj hread).symm

theorem WrittenAs.extend (h : WrittenAs u v path text) (hsu : s.trace <:+ u.trace)
    (huv : u.trace <:+ v.trace) (hvt : v.trace <:+ t.trace)
    (hkeep : t.readFile path = v.readFile path) : WrittenAs s t path text := by
  constructor
  · rw [since_append hsu (huv.trans hvt), since_append huv hvt]
    exact List.mem_append_left _ (List.mem_append_right _ h.1)
  · exact hkeep.trans h.2

theorem fopenRead_readAs (hr : fopenRead host path s = (.ok content, t)) :
    ReadAs s t path content := by
  obtain ⟨hcontent, -⟩ := fopenRead_ok hr
  rw [fopenRead, run_get_bind, hcontent] at hr
  obtain ⟨code, u, hopen, hr⟩ := bind_run hr
  split at hr
  · cases hr
  rename_i hcode
  rw [not_not.mp hcode] at hopen
  cases hr
  have htrace : t.trace = [(.file (.fopenRead path), 0)] ++ s.trace := call_trace hopen
  exact ⟨[], [], since_of_trace htrace, List.not_mem_nil, hcontent⟩

theorem fopenRead_ran {r : Except Nat CStr} (hr : fopenRead host path s = (r, t)) : Ran s t :=
  ran_of_issues (@fopenRead_issues host [] path) hr

theorem call_ran {c : Call} {code : Nat} (hr : call host c s = (code, t)) : Ran s t := by
  have hran := @ran_call host c s
  rwa [hr] at hran

theorem fopenWrite_written (hr : call host (.file (.fopenWrite path)) s = (0, t)) :
    WrittenAs s t path [] := by
  have htrace : t.trace = [(.file (.fopenWrite path), 0)] ++ s.trace := call_trace hr
  constructor
  · rw [since_of_trace htrace]
    exact List.mem_singleton_self _
  · rw [(call_done hr).2]
    exact readFile_putFile_self

end Events

/-! ## Writes that are granted -/

/-- No write to the file was refused in between, not even one that nobody asks about. -/
def WritesGranted (s t : Sys) (path : CStr) : Prop :=
  ∀ text code, (.file (.fwrite path text), code) ∈ since s t → code = 0

section Granted
variable {host : Host} {s t u v : Sys} {path text : CStr}

theorem writesGranted_append (hst : Ran s t) (htu : Ran t u) :
    WritesGranted s u path ↔ WritesGranted s t path ∧ WritesGranted t u path := by
  unfold WritesGranted
  rw [since_append hst.suffix htu.suffix]
  constructor
  · intro h
    exact ⟨fun text code hmem => h text code (List.mem_append_right _ hmem),
      fun text code hmem => h text code (List.mem_append_left _ hmem)⟩
  · rintro ⟨hst', htu'⟩ text code hmem
    obtain hmem | hmem := List.mem_append.mp hmem
    · exact htu' text code hmem
    · exact hst' text code hmem

theorem WritesGranted.within (h : WritesGranted s t path) (hsu : Ran s u) (huv : Ran u v)
    (hvt : Ran v t) : WritesGranted u v path :=
  ((writesGranted_append huv hvt).mp ((writesGranted_append hsu (huv.trans hvt)).mp h).2).1

theorem writesGranted_of_issues {α : Type} {may : Call → Prop} {m : Libze α} {a : α}
    (hm : Issues host may m) (hmay : ∀ text, ¬ may (.file (.fwrite path text)))
    (hr : m s = (a, t)) : WritesGranted s t path := by
  intro text code hmem
  have hissued := hm.since s
  rw [hr] at hissued
  exact absurd (hissued _ hmem) (hmay text)

/-- Where there is room for everything no write is refused. -/
theorem writesGranted_of_host {α : Type} {may : Call → Prop} {m : Libze α} {a : α}
    (hwrites : GrantsWrites host) (hm : Issues host may m) (hr : m s = (a, t)) :
    WritesGranted s t path := by
  obtain ⟨new, htrace, hnew⟩ := hm.logged
    (fun e => ∀ text, e.1 = .file (.fwrite path text) → e.2 = 0)
    (fun u c _ text heq => by
      show host.answer u c = 0
      rw [show c = .file (.fwrite path text) from heq]
      exact hwrites u path text) s
  rw [hr] at htrace
  intro text code hmem
  rw [since_of_trace htrace] at hmem
  exact hnew _ hmem text rfl

end Granted

/-! ## Where a program writes -/

/-- The files the call makes, changes or removes are among those `inside`. -/
def TouchesIn (inside : CStr → Prop) : Call → Prop
  | .file (.fopenWrite p) | .file (.fwrite p _) | .file (.mkstemp p) | .file (.remove p) => inside p
  | .file (.rename p q) => inside p ∧ inside q
  | .file (.renameDirectory _ _) => False
  | _ => True

/-- The call takes no file away and makes one only by opening it. -/
def Adds : Call → Prop
  | .file (.remove _) | .file (.rename _ _) | .file (.renameDirectory _ _)
  | .file (.mkstemp _) => False
  | _ => True

/-- The call reads, or makes and changes the files `inside`. -/
def SavesIn (inside : CStr → Prop) (c : Call) : Prop := TouchesIn inside c ∧ Adds c

section Frame
variable {host : Host} {inside : CStr → Prop} {s t : Sys} {path : CStr} {c : Call}

theorem TouchesIn.readFile (hc : TouchesIn inside c) (hpath : ¬ inside path) :
    (c.effect host s).readFile path = s.readFile path := by
  have hne : ∀ {p}, inside p → path ≠ p := fun hp heq => hpath (heq ▸ hp)
  match c, hc with
  | .file (.fopenWrite p), hp | .file (.mkstemp p), hp => exact readFile_putFile_of_ne (hne hp)
  | .file (.fwrite p text), hp =>
    simp only [Call.effect, FileCall.effect]
    split
    · rfl
    · exact readFile_putFile_of_ne (hne hp)
  | .file (.remove p), hp => exact readFile_removeFile_of_ne (hne hp)
  | .file (.rename p q), hpq =>
    simp only [Call.effect, FileCall.effect]
    split
    · rfl
    · rw [readFile_putFile_of_ne (hne hpq.2), readFile_removeFile_of_ne (hne hpq.1)]
  | .file (.access _), _ | .file (.fopenRead _), _ | .file (.close _), _ | .file (.mkdtemp _), _
  | .file (.rmdir _), _ | .file (.opendir _), _ | .file (.closedir _), _ | .file (.stat _), _
  | .file (.mkdir _), _ | .hook _, _ => rfl
  | .zfs c, _ => exact readFile_of_files (effect_files (by simp))

theorem readFile_of_touches {α : Type} {m : Libze α} {a : α} (h : Issues host (TouchesIn inside) m)
    (hr : m s = (a, t)) (hpath : ¬ inside path) : t.readFile path = s.readFile path := by
  have hkeep := h.keeps (fun u => u.readFile path = s.readFile path) (fun _ _ _ _ hu => hu)
    (fun u c hc _ hu => (hc.readFile hpath).trans hu) rfl
  rwa [hr] at hkeep

theorem TouchesIn.mono {inside' : CStr → Prop} (hc : TouchesIn inside c)
    (himp : ∀ p, inside p → inside' p) : TouchesIn inside' c := by
  match c, hc with
  | .file (.fopenWrite p), hp | .file (.fwrite p _), hp | .file (.mkstemp p), hp
  | .file (.remove p), hp => exact himp p hp
  | .file (.rename p q), hpq => exact ⟨himp p hpq.1, himp q hpq.2⟩
  | .file (.access _), _ | .file (.fopenRead _), _ | .file (.close _), _ | .file (.mkdtemp _), _
  | .file (.rmdir _), _ | .file (.opendir _), _ | .file (.closedir _), _ | .file (.stat _), _
  | .file (.mkdir _), _ | .hook _, _ | .zfs _, _ => trivial

theorem Adds.isSome (hc : Adds c) (h : (s.readFile path).isSome) :
    ((c.effect host s).readFile path).isSome := by
  have hput : ∀ p text, ((s.putFile p text).readFile path).isSome := by
    intro p text
    by_cases hp : path = p
    · rw [hp, readFile_putFile_self]
      rfl
    · rw [readFile_putFile_of_ne hp]
      exact h
  match c, hc with
  | .file (.fopenWrite p), _ => exact hput p _
  | .file (.fwrite p text), _ =>
    simp only [Call.effect, FileCall.effect]
    split
    · exact h
    · exact hput p _
  | .file (.access _), _ | .file (.fopenRead _), _ | .file (.close _), _ | .file (.mkdtemp _), _
  | .file (.rmdir _), _ | .file (.opendir _), _ | .file (.closedir _), _ | .file (.stat _), _
  | .file (.mkdir _), _ | .hook _, _ => exact h
  | .zfs c, _ => rwa [readFile_of_files (effect_files (by simp))]

/-- A path where there is no file gets one only by being opened. -/
theorem Adds.eq_none (hc : Adds c) (hopen : c ≠ .file (.fopenWrite path))
    (h : s.readFile path = none) : (c.effect host s).readFile path = none := by
  match c, hc with
  | .file (.fopenWrite p), _ =>
    have hne : path ≠ p := fun heq => hopen (by rw [heq])
    exact (readFile_putFile_of_ne hne).trans h
  | .file (.fwrite p text), _ =>
    simp only [Call.effect, FileCall.effect]
    split
    · exact h
    · rename_i content hcontent
      have hne : path ≠ p := fun heq => by simp [← heq, h] at hcontent
      exact (readFile_putFile_of_ne hne).trans h
  | .file (.access _), _ | .file (.fopenRead _), _ | .file (.close _), _ | .file (.mkdtemp _), _
  | .file (.rmdir _), _ | .file (.opendir _), _ | .file (.closedir _), _ | .file (.stat _), _
  | .file (.mkdir _), _ | .hook _, _ => exact h
  | .zfs c, _ => rwa [readFile_of_files (effect_files (by simp))]

theorem replay_touches (host : Host) {calls : List (Call × Nat)}
    (hcalls : ∀ e ∈ calls, TouchesIn inside e.1) (hpath : ¬ inside path) :
    (replay s calls).readFile path = s.readFile path := by
  induction calls with
  | nil => rfl
  | cons e before ih =>
    have hbefore := ih fun e he => hcalls e (List.mem_cons_of_mem _ he)
    have htouch := hcalls e List.mem_cons_self
    show (redo (replay s before) e).readFile path = s.readFile path
    unfold redo
    split
    · exact (@TouchesIn.readFile host inside (replay s before) path _ htouch hpath).trans hbefore
    · exact hbefore

theorem readFile_of_trace (host : Host) (hst : Ran s t) (hcalls : ∀ e ∈ since s t, TouchesIn inside e.1)
    (hpath : ¬ inside path) : t.readFile path = s.readFile path := by
  rw [← readFile_of_files hst.files]
  exact replay_touches host hcalls hpath

theorem writesGranted_of_touches (hcalls : ∀ e ∈ since s t, TouchesIn inside e.1)
    (hpath : ¬ inside path) : WritesGranted s t path :=
  fun _ _ hmem => absurd (hcalls _ hmem) hpath

/-- What a copy reads in a directory that it does not write to. -/
theorem ReadAs.content {may : Call → Prop} {α : Type} {m : Libze α} {a : α} {content : CStr}
    (hm : Issues host may m) (hr : m s = (a, t))
    (hmay : ∀ c, may c → TouchesIn inside c) (hpath : ¬ inside path) (h : ReadAs s t path content) :
    s.readFile path = some content := by
  obtain ⟨before, after, hsince, -, hread⟩ := h
  have hcalls : ∀ e ∈ before, TouchesIn inside e.1 := by
    intro e he
    have hmem : e ∈ since s t := by
      rw [hsince]
      exact List.mem_append_right _ (List.mem_cons_of_mem _ he)
    have hissued := hm.since s
    rw [hr] at hissued
    exact hmay _ (hissued e hmem)
  rwa [replay_touches host hcalls hpath] at hread

end Frame

/-! ## Runs that leave the files alone -/

/-- The call neither opens, makes, changes nor moves a file. -/
def Idle : Call → Prop
  | .file (.fopenRead _) => False
  | c => TouchesIn (fun _ => False) c

/-- No file was opened or changed in between. -/
structure Untouched (s t : Sys) : Prop where
  ran : Ran s t
  same : ∀ path, t.readFile path = s.readFile path
  idle : ∀ e ∈ since s t, Idle e.1

section Untouched
variable {host : Host} {inside : CStr → Prop} {s t u : Sys} {path : CStr} {c : Call}

theorem Idle.touches (hc : Idle c) : TouchesIn (fun _ => False) c := by
  unfold Idle at hc
  split at hc
  · exact hc.elim
  · exact hc

theorem idle_of_isLookup (hc : IsLookup c) : Idle c := by
  match c, hc with
  | .zfs (.poolOpen _), _ | .zfs (.open _), _ | .zfs (.propGet _ _), _ => trivial

theorem not_mem_since {e : Call × Nat} (hst : Ran s t) (htu : Ran t u) (h : e ∉ since s t)
    (h' : e ∉ since t u) : e ∉ since s u := by
  rw [since_append hst.suffix htu.suffix, List.mem_append, not_or]
  exact ⟨h', h⟩

theorem Untouched.unopened (h : Untouched s t) (path : CStr) :
    (.file (.fopenWrite path), 0) ∉ since s t := fun hmem => h.idle _ hmem

theorem Untouched.unread (h : Untouched s t) (path : CStr) :
    (.file (.fopenRead path), 0) ∉ since s t := fun hmem => h.idle _ hmem

theorem Untouched.refl (s : Sys) : Untouched s s :=
  ⟨.refl s, fun _ => rfl, by simp⟩

theorem Untouched.trans (hst : Untouched s t) (htu : Untouched t u) : Untouched s u := by
  constructor
  · exact hst.ran.trans htu.ran
  · intro path
    rw [htu.same, hst.same]
  · rw [since_append hst.ran.suffix htu.ran.suffix]
    intro e he
    exact (List.mem_append.mp he).elim (htu.idle e) (hst.idle e)

theorem untouched_of_issues {α : Type} {m : Libze α} {a : α} (h : Issues host Idle m)
    (hr : m s = (a, t)) : Untouched s t := by
  have hissued := h.since s
  rw [hr] at hissued
  constructor
  · exact ran_of_issues h hr
  · intro path
    exact readFile_of_touches (h.weaken fun _ hc => hc.touches) hr id
  · exact hissued

theorem not_opened {α : Type} {m : Libze α} {a : α} (h : Issues host (TouchesIn inside) m)
    (hr : m s = (a, t)) (hpath : ¬ inside path) : (.file (.fopenWrite path), 0) ∉ since s t := by
  intro hmem
  have hissued := h.since s
  rw [hr] at hissued
  exact hpath (hissued _ hmem)

end Untouched

end Zectl.Util.Writes
