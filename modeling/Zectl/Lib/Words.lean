import Mathlib.Data.List.TakeWhile

/-!
# Words

The words of a text are the parts between separators that are not empty. A text begins with
separators and its first word, and its other words are those of what is behind that.
-/

namespace Zectl.Lib.Words

variable {α : Type} {sep : α → Bool} {l t w : List α} {ws : List (List α)}

def words (sep : α → Bool) (l : List α) : List (List α) := (l.splitOnP sep).filter fun w => !w.isEmpty

/-- Nothing follows, or a separator does. -/
def EndsHere (sep : α → Bool) (t : List α) : Prop := ∀ c ∈ t.head?, sep c = true

/-- A text that is a word of its own. -/
structure IsWord (sep : α → Bool) (w : List α) : Prop where
  ne_nil : w ≠ []
  free : ∀ c ∈ w, sep c = false

@[simp] theorem words_nil : words sep ([] : List α) = [] := rfl

theorem words_cons_of_sep {c : α} (hc : sep c = true) : words sep (c :: l) = words sep l := by
  have hsplit := List.splitOnP_append_cons [] l hc
  rw [List.nil_append] at hsplit
  rw [words, hsplit, List.splitOnP_nil, List.singleton_append,
    List.filter_cons_of_neg (by simp), words]

theorem words_seps_append {b : List α} (hb : ∀ c ∈ b, sep c = true) :
    words sep (b ++ l) = words sep l := by
  induction b with
  | nil => rfl
  | cons c b ih =>
    rw [List.cons_append, words_cons_of_sep (hb c List.mem_cons_self)]
    exact ih fun d hd => hb d (List.mem_cons_of_mem c hd)

theorem words_seps {b : List α} (hb : ∀ c ∈ b, sep c = true) : words sep b = [] := by
  have hall := @words_seps_append _ sep [] b hb
  rwa [List.append_nil, words_nil] at hall

/-- Separators end where a word begins. -/
theorem seps_append_inj {b b' : List α} {c d : α} {t' : List α} (hb : ∀ e ∈ b, sep e = true)
    (hb' : ∀ e ∈ b', sep e = true) (hc : sep c = false) (hd : sep d = false)
    (h : b ++ c :: t = b' ++ d :: t') : b = b' ∧ c :: t = d :: t' := by
  induction b generalizing b' with
  | nil =>
    cases b' with
    | nil => exact ⟨rfl, h⟩
    | cons e b' =>
      obtain ⟨rfl, -⟩ := List.cons.inj h
      rw [hb' _ List.mem_cons_self] at hc
      cases hc
  | cons e b ih =>
    cases b' with
    | nil =>
      obtain ⟨rfl, -⟩ := List.cons.inj h
      rw [hb _ List.mem_cons_self] at hd
      cases hd
    | cons e' b' =>
      obtain ⟨rfl, htail⟩ := List.cons.inj h
      obtain ⟨rfl, hrest⟩ := ih (fun f hf => hb f (List.mem_cons_of_mem e hf))
        (fun f hf => hb' f (List.mem_cons_of_mem e hf)) htail
      exact ⟨rfl, hrest⟩

theorem words_append (hw : IsWord sep w) (ht : EndsHere sep t) :
    words sep (w ++ t) = w :: words sep t := by
  have hkeep : ∀ rest : List (List α), (w :: rest).filter (fun v => !v.isEmpty) =
      w :: rest.filter fun v => !v.isEmpty := fun rest =>
    List.filter_cons_of_pos (by simpa using hw.ne_nil)
  cases t with
  | nil =>
    rw [List.append_nil, words_nil, words, List.splitOnP_eq_singleton hw.free, hkeep]
    rfl
  | cons c t =>
    have hc : sep c = true := ht c rfl
    rw [words_cons_of_sep hc, words, List.splitOnP_append_cons_of_forall_mem hw.free c hc, hkeep]
    rfl

/-- A text is separators, or separators and a word with what is behind it. -/
theorem words_cases (sep : α → Bool) (l : List α) : (∀ c ∈ l, sep c = true) ∨
    ∃ b w t, l = b ++ (w ++ t) ∧ (∀ c ∈ b, sep c = true) ∧ IsWord sep w ∧ EndsHere sep t := by
  have hsplit := List.takeWhile_append_dropWhile (p := sep) (l := l)
  have hseps : ∀ c ∈ l.takeWhile sep, sep c = true := fun c hc => List.mem_takeWhile_imp hc
  cases hrest : l.dropWhile sep with
  | nil =>
    rw [hrest, List.append_nil] at hsplit
    rw [hsplit] at hseps
    exact .inl hseps
  | cons c rest =>
    have hc : sep c = false := by
      have hhead := List.head?_dropWhile_not sep l
      rw [hrest] at hhead
      simpa using hhead
    have hword := List.takeWhile_append_dropWhile (p := fun d => !sep d) (l := c :: rest)
    refine .inr ⟨l.takeWhile sep, (c :: rest).takeWhile fun d => !sep d,
      (c :: rest).dropWhile fun d => !sep d, ?_, hseps, ⟨?_, ?_⟩, ?_⟩
    · rw [hword, ← hrest, hsplit]
    · rw [List.takeWhile_cons_of_pos (by simp [hc])]
      exact List.cons_ne_nil _ _
    · intro d hd
      simpa using List.mem_takeWhile_imp hd
    · intro d hd
      have hhead := List.head?_dropWhile_not (fun d => !sep d) (c :: rest)
      rw [Option.mem_def.mp hd] at hhead
      simpa using hhead

/-- The text up to the first word and behind it. -/
theorem of_words_eq_cons (h : words sep l = w :: ws) : ∃ b t, l = b ++ (w ++ t) ∧
    (∀ c ∈ b, sep c = true) ∧ IsWord sep w ∧ EndsHere sep t ∧ ws = words sep t := by
  obtain hseps | ⟨b, v, t, rfl, hb, hv, ht⟩ := words_cases sep l
  · rw [words_seps hseps] at h
    cases h
  · rw [words_seps_append hb, words_append hv ht] at h
    cases h
    exact ⟨b, t, rfl, hb, hv, ht, rfl⟩

theorem isWord_of_mem (h : w ∈ words sep l) : IsWord sep w := by
  generalize hws : words sep l = ws at h
  induction ws generalizing l with
  | nil => cases h
  | cons v ws ih =>
    obtain ⟨b, t, -, -, hv, -, htail⟩ := of_words_eq_cons hws
    obtain rfl | h := List.mem_cons.mp h
    · exact hv
    · exact ih htail.symm h

/-- A text begins with one word. -/
theorem word_append_inj {w' t' : List α} (hw : IsWord sep w) (hw' : IsWord sep w')
    (ht : EndsHere sep t) (ht' : EndsHere sep t') (h : w ++ t = w' ++ t') : w = w' ∧ t = t' := by
  have hwords := congrArg (words sep) h
  rw [words_append hw ht, words_append hw' ht'] at hwords
  obtain rfl := (List.cons.inj hwords).1
  exact ⟨rfl, List.append_cancel_left h⟩

/-- A text without separators that occurs again behind a separator does so behind that one. -/
theorem again_behind {c : α} {u r q : List α} (hw : ∀ d ∈ w, sep d = false) (hc : sep c = true)
    (hu : u ≠ []) (h : w ++ c :: r = u ++ (w ++ q)) : ∃ v, u = w ++ c :: v ∧ r = v ++ (w ++ q) := by
  obtain ⟨v, rfl, hrest⟩ | ⟨v, hv, hrest⟩ := List.append_eq_append_iff.mp h
  · cases v with
    | nil =>
      cases w with
      | nil => exact absurd (List.append_nil []) hu
      | cons d w =>
        obtain ⟨rfl, -⟩ := List.cons.inj hrest
        rw [hw _ List.mem_cons_self] at hc
        cases hc
    | cons d v =>
      obtain ⟨rfl, htail⟩ := List.cons.inj hrest
      exact ⟨v, rfl, htail⟩
  · -- the separator would stand inside the second occurrence
    have hlength : v.length < w.length := by
      have hpos := List.length_pos_iff.mpr hu
      rw [hv, List.length_append]
      omega
    have hget := congrArg (fun l => l[v.length]?) hrest
    simp only [List.getElem?_append_left hlength, List.getElem?_append_right (Nat.le_refl _),
      Nat.sub_self, List.getElem?_cons_zero] at hget
    rw [hw c (List.mem_of_getElem? hget)] at hc
    cases hc

/-- What is behind the last separator. -/
theorem append_free_inj {c : α} {u v w' : List α} (hw : ∀ d ∈ w, sep d = false)
    (hw' : ∀ d ∈ w', sep d = false) (hc : sep c = true) (h : u ++ c :: w = v ++ c :: w') :
    w = w' := by
  have hreverse := congrArg List.reverse h
  simp only [List.reverse_append, List.reverse_cons, List.append_assoc, List.singleton_append]
    at hreverse
  have hfree : ∀ {x : List α}, (∀ d ∈ x, sep d = false) → ∀ d ∈ x.reverse, (!sep d) = true := by
    intro x hx d hd
    rw [hx d (List.mem_reverse.mp hd)]
    rfl
  have hstop : (!sep c) = false := by
    rw [hc]
    rfl
  obtain ⟨heq, -⟩ := seps_append_inj (hfree hw) (hfree hw') hstop hstop hreverse
  exact List.reverse_inj.mp heq

/-- The words hold all of the text but its separators. -/
theorem flatten_words (sep : α → Bool) (l : List α) :
    (words sep l).flatten = l.filter fun c => !sep c := by
  generalize hws : words sep l = ws
  induction ws generalizing l with
  | nil =>
    obtain hseps | ⟨b, w, t, rfl, hb, hw, ht⟩ := words_cases sep l
    · rw [List.filter_eq_nil_iff.mpr fun c hc => by simp [hseps c hc]]
      rfl
    · rw [words_seps_append hb, words_append hw ht] at hws
      cases hws
  | cons w ws ih =>
    obtain ⟨b, t, rfl, hb, hw, ht, rfl⟩ := of_words_eq_cons hws
    have hseps : b.filter (fun c => !sep c) = [] :=
      List.filter_eq_nil_iff.mpr fun c hc => by simp [hb c hc]
    have hword : w.filter (fun c => !sep c) = w :=
      List.filter_eq_self.mpr fun c hc => by simp [hw.free c hc]
    rw [List.flatten_cons, ih t rfl, List.filter_append, List.filter_append, hseps, hword,
      List.nil_append]

theorem words_eq_nil_iff : words sep l = [] ↔ ∀ c ∈ l, sep c = true := by
  constructor
  · intro h
    have hflat := flatten_words sep l
    rw [h, List.flatten_nil, eq_comm, List.filter_eq_nil_iff] at hflat
    intro c hc
    simpa using hflat c hc
  · exact words_seps

end Zectl.Lib.Words
