import Mathlib.Data.List.Nodup
import Mathlib.Data.List.Perm.Basic

/-!
# Lists of pairs with one pair for a key

Adding a pair removes the pairs with its key and puts it last. A list built by adding has
as many pairs as were added exactly when their keys are distinct.
-/

namespace Zectl.Lib.KeyedList

variable {κ β ι : Type} [DecidableEq κ]

def put (l : List (κ × β)) (e : κ × β) : List (κ × β) := l.filter (fun f => f.1 ≠ e.1) ++ [e]

variable {l : List (κ × β)} {e f : κ × β}

theorem mem_put : f ∈ put l e ↔ f ∈ l ∧ f.1 ≠ e.1 ∨ f = e := by
  simp [put]

theorem put_of_new (h : e.1 ∉ l.map Prod.fst) : put l e = l ++ [e] := by
  have hkeep : ∀ f ∈ l, decide (f.1 ≠ e.1) = true := by
    intro f hf
    have hne : f.1 ≠ e.1 := fun he => h (he ▸ List.mem_map_of_mem hf)
    simpa using hne
  rw [put, List.filter_eq_self.mpr hkeep]

theorem put_of_same (h : ∀ f ∈ l, f.1 = e.1) : put l e = [e] := by
  have hnone : ∀ f ∈ l, ¬ decide (f.1 ≠ e.1) = true := by
    intro f hf
    simp [h f hf]
  rw [put, List.filter_eq_nil_iff.mpr hnone, List.nil_append]

theorem length_put_le : (put l e).length ≤ l.length + 1 := by
  have hle : (l.filter fun f => f.1 ≠ e.1).length ≤ l.length := List.length_filter_le _ _
  simp only [put, List.length_append, List.length_singleton]
  omega

theorem length_put_of_mem (h : e.1 ∈ l.map Prod.fst) : (put l e).length ≤ l.length := by
  have hlt : (l.filter fun f => f.1 ≠ e.1).length < l.length := by
    obtain ⟨f, hf, hfe⟩ := List.mem_map.mp h
    apply List.length_filter_lt_length_iff_exists.mpr
    exact ⟨f, hf, by simpa using hfe⟩
  simp only [put, List.length_append, List.length_singleton]
  omega

/-! ## Lists built by adding -/

theorem length_foldl_put_le (es : List (κ × β)) :
    (es.foldl put l).length ≤ l.length + es.length := by
  induction es generalizing l with
  | nil => exact Nat.le_refl _
  | cons e es ih =>
    have hput := @length_put_le κ β _ l e
    have hrest := @ih (put l e)
    simp only [List.foldl_cons, List.length_cons]
    omega

theorem foldl_put_of_nodup {es : List (κ × β)} (h : ((l ++ es).map Prod.fst).Nodup) :
    es.foldl put l = l ++ es := by
  induction es generalizing l with
  | nil => simp
  | cons e es ih =>
    have hnew : e.1 ∉ l.map Prod.fst := by
      rw [List.map_append, List.map_cons, List.nodup_append] at h
      intro hmem
      exact h.2.2 _ hmem _ List.mem_cons_self rfl
    rw [List.foldl_cons, put_of_new hnew, ih (by simpa using h)]
    simp

/-- Of pairs with one key the last remains. -/
theorem foldl_put_of_same {k : κ} {es : List (κ × β)} (hes : ∀ f ∈ es, f.1 = k)
    (hl : ∀ f ∈ l, f.1 = k) (hne : es ≠ []) : es.foldl put l = [es.getLast hne] := by
  induction es generalizing l with
  | nil => exact absurd rfl hne
  | cons e es ih =>
    have he : e.1 = k := hes e List.mem_cons_self
    have hput : put l e = [e] := put_of_same fun f hf => (hl f hf).trans he.symm
    rw [List.foldl_cons, hput]
    cases es with
    | nil => rfl
    | cons e' es =>
      have hrest := ih (fun f hf => hes f (List.mem_cons_of_mem e hf))
        (fun f hf => List.mem_singleton.mp hf ▸ he) (List.cons_ne_nil e' es)
      rw [hrest, List.getLast_cons (List.cons_ne_nil e' es)]

/-- Nothing was replaced exactly when the keys are distinct. -/
theorem length_foldl_put_iff {es : List (κ × β)} (hl : (l.map Prod.fst).Nodup) :
    (es.foldl put l).length = l.length + es.length ↔ ((l ++ es).map Prod.fst).Nodup := by
  constructor
  · intro hlen
    induction es generalizing l with
    | nil => simpa using hl
    | cons e es ih =>
      have hrest := @length_foldl_put_le κ β _ (put l e) es
      have hput := @length_put_le κ β _ l e
      simp only [List.foldl_cons, List.length_cons] at hlen
      by_cases hmem : e.1 ∈ l.map Prod.fst
      · have hshort := length_put_of_mem hmem
        omega
      · rw [put_of_new hmem] at hlen
        have hnodup : ((l ++ [e]).map Prod.fst).Nodup := by
          rw [List.map_append, List.map_singleton, List.nodup_append]
          refine ⟨hl, List.nodup_singleton _, fun a ha b hb => ?_⟩
          rw [List.mem_singleton.mp hb]
          exact fun heq => hmem (heq ▸ ha)
        have hlast := ih hnodup (by simp only [List.length_append, List.length_singleton]; omega)
        simpa using hlast
  · intro hnodup
    rw [foldl_put_of_nodup hnodup, List.length_append]

/-! ## Values and completion -/

/-- What a list holds under a key. -/
def value (l : List (κ × β)) (k : κ) : Option β := (l.find? fun e => e.1 = k).map Prod.snd

/-- Of the pairs with a key of the kind `p`, those whose keys the list does not have. -/
def complete (p : κ → Bool) : List (κ × β) → List (κ × β) → List (κ × β)
  | [], l => l
  | e :: es, l => complete p es (if p e.1 = true ∧ e.1 ∉ l.map Prod.fst then put l e else l)

section Complete
variable {p q : κ → Bool} {k : κ} {es fs : List (κ × β)}

theorem value_cons : value (e :: l) k = if e.1 = k then some e.2 else value l k := by
  unfold value
  by_cases hk : e.1 = k
  · rw [List.find?_cons_of_pos (by simpa using hk), if_pos hk, Option.map_some]
  · rw [List.find?_cons_of_neg (by simpa using hk), if_neg hk]

theorem value_append {l' : List (κ × β)} : value (l ++ l') k = (value l k).or (value l' k) := by
  unfold value
  rw [List.find?_append]
  cases l.find? fun e => e.1 = k <;> rfl

theorem value_eq_none : value l k = none ↔ k ∉ l.map Prod.fst := by
  induction l with
  | nil => simp [value]
  | cons e l ih =>
    rw [value_cons, List.map_cons, List.mem_cons, not_or]
    by_cases hk : e.1 = k
    · simp [hk]
    · rw [if_neg hk, ih]
      simp [Ne.symm hk]

/-- In a list with distinct keys every pair is what the list holds under its key. -/
theorem mem_iff_value (hl : (l.map Prod.fst).Nodup) : e ∈ l ↔ value l e.1 = some e.2 := by
  induction l with
  | nil => simp [value]
  | cons f l ih =>
    obtain ⟨hnew, hl⟩ := List.nodup_cons.mp hl
    rw [List.mem_cons, value_cons]
    by_cases hk : f.1 = e.1
    · rw [if_pos hk, Option.some.injEq]
      constructor
      · rintro (rfl | hmem)
        · rfl
        · exact absurd (hk ▸ List.mem_map_of_mem hmem) hnew
      · exact fun hv => .inl (Prod.ext hk.symm hv.symm)
    · rw [if_neg hk, ih hl]
      constructor
      · rintro (rfl | hv)
        · exact absurd rfl hk
        · exact hv
      · exact .inr

theorem value_complete :
    value (complete p es l) k = (value l k).or (if p k = true then value es k else none) := by
  induction es generalizing l with
  | nil =>
    rw [complete]
    cases value l k <;> simp [value]
  | cons e es ih =>
    rw [complete, ih, value_cons]
    by_cases hadd : p e.1 = true ∧ e.1 ∉ l.map Prod.fst
    · rw [if_pos hadd, put_of_new hadd.2, value_append, Option.or_assoc, value_cons]
      by_cases hk : e.1 = k
      · subst hk
        rw [value_eq_none.mpr hadd.2]
        simp [hadd.1]
      · simp [hk, value]
    · rw [if_neg hadd]
      by_cases hk : e.1 = k
      · subst hk
        by_cases hp : p e.1 = true
        · have hsome : value l e.1 ≠ none := fun hnone => hadd ⟨hp, value_eq_none.mp hnone⟩
          obtain ⟨v, hv⟩ := Option.ne_none_iff_exists'.mp hsome
          rw [hv, Option.some_or, Option.some_or]
        · simp [hp]
      · rw [if_neg hk]

theorem nodup_complete (hl : (l.map Prod.fst).Nodup) : ((complete p es l).map Prod.fst).Nodup := by
  induction es generalizing l with
  | nil => exact hl
  | cons e es ih =>
    rw [complete]
    apply ih
    by_cases hadd : p e.1 = true ∧ e.1 ∉ l.map Prod.fst
    · rw [if_pos hadd, put_of_new hadd.2, List.map_append, List.map_singleton]
      exact List.nodup_append.mpr ⟨hl, List.nodup_singleton _, fun a ha b hb heq =>
        hadd.2 (List.mem_singleton.mp hb ▸ heq ▸ ha)⟩
    · rw [if_neg hadd]
      exact hl

theorem complete_of_keys (h : ∀ f ∈ es, p f.1 = true → f.1 ∈ l.map Prod.fst) :
    complete p es l = l := by
  induction es with
  | nil => rfl
  | cons e es ih =>
    have hold : ¬ (p e.1 = true ∧ e.1 ∉ l.map Prod.fst) := fun hadd =>
      hadd.2 (h e List.mem_cons_self hadd.1)
    rw [complete, if_neg hold]
    exact ih fun f hf => h f (List.mem_cons_of_mem e hf)

/-- Completing once more changes nothing. -/
theorem complete_complete : complete p es (complete p es l) = complete p es l := by
  apply complete_of_keys
  intro f hf hp
  by_contra hnot
  have hnone := value_eq_none.mpr hnot
  rw [value_complete, if_pos hp, Option.or_eq_none_iff] at hnone
  exact value_eq_none.mp hnone.2 (List.mem_map_of_mem hf)

/-- Completions with keys of different kinds can change places. -/
theorem value_complete_comm (hapart : ∀ f ∈ fs, p f.1 = true → q f.1 = false) :
    value (complete p es (complete q fs l)) k = value (complete q fs (complete p es l)) k := by
  simp only [value_complete, Option.or_assoc]
  by_cases hp : p k = true
  · have hq : (if q k = true then value fs k else none) = none := by
      by_cases hmem : k ∈ fs.map Prod.fst
      · obtain ⟨f, hf, rfl⟩ := List.mem_map.mp hmem
        simp [hapart f hf hp]
      · simp [value_eq_none.mpr hmem]
    rw [hq, Option.none_or, Option.or_none]
  · rw [if_neg hp, Option.none_or, Option.or_none]

end Complete

end Zectl.Lib.KeyedList
