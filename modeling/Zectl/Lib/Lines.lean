import Mathlib.Data.List.TakeWhile
import Mathlib.Data.List.Forall2

/-!
# Lines

A text is cut into chunks: one ends as soon as it is full, the last one may not be.
Lines are the chunks that end at a mark, which they keep. A reader with a buffer ends
its chunks also when the buffer is full, and reads lines as long as they fit.
-/

namespace Zectl.Lib.Lines

variable {α : Type}

def chunks (full : List α → Bool) : List α → List α → List (List α)
  | cur, [] => if cur.isEmpty then [] else [cur]
  | cur, c :: rest =>
    if full (cur ++ [c]) then (cur ++ [c]) :: chunks full [] rest else chunks full (cur ++ [c]) rest

theorem chunks_cons (full : List α → Bool) (cur : List α) (c : α) (rest : List α) :
    ∃ l ls, chunks full cur (c :: rest) = l :: ls ∧ (cur ++ [c]) <+: l ∧
      (l = cur ++ [c] → full l = false → rest = []) := by
  induction rest generalizing cur c with
  | nil =>
    refine ⟨cur ++ [c], [], ?_, List.prefix_rfl, fun _ _ => rfl⟩
    rw [chunks]
    split <;> simp [chunks]
  | cons d rest ih =>
    by_cases hfull : full (cur ++ [c]) = true
    · refine ⟨cur ++ [c], _, by rw [chunks, if_pos hfull], List.prefix_rfl, fun _ hno => ?_⟩
      rw [hfull] at hno
      cases hno
    · obtain ⟨l, ls, hl, hpre, -⟩ := ih (cur ++ [c]) d
      refine ⟨l, ls, by rw [chunks, if_neg hfull, hl], (List.prefix_append _ _).trans hpre, ?_⟩
      rintro rfl _
      have hlen := hpre.length_le
      simp at hlen

section Marks
variable [DecidableEq α] {mark : α}

/-- A line is full when its last symbol is the mark. -/
def endsLine (mark : α) (cur : List α) : Bool := cur.getLast? = some mark

def lines (mark : α) (text : List α) : List (List α) := chunks (endsLine mark) [] text

/-- The chunks a buffer of `size` symbols, one of them the terminator, reads. -/
def reads (mark : α) (size : Nat) (text : List α) : List (List α) :=
  chunks (fun cur => endsLine mark cur || size - 1 ≤ cur.length) [] text

theorem reads_eq_lines_from {size : Nat} (cur rest : List α)
    (h : ∀ l ∈ chunks (endsLine mark) cur rest, l.length < size) :
    chunks (fun cur => endsLine mark cur || size - 1 ≤ cur.length) cur rest =
      chunks (endsLine mark) cur rest := by
  induction rest generalizing cur with
  | nil => rfl
  | cons c rest ih =>
    by_cases hend : endsLine mark (cur ++ [c]) = true
    · rw [chunks, if_pos hend] at h
      rw [chunks, if_pos (by simp [hend]), chunks, if_pos hend,
        ih [] fun l hl => h l (List.mem_cons_of_mem _ hl)]
    · by_cases hsize : size - 1 ≤ (cur ++ [c]).length
      · -- the buffer is full with the last symbol of the text
        obtain ⟨l, ls, hl, hpre, hlast⟩ := chunks_cons (endsLine mark) cur c rest
        have hlen := hpre.length_le
        have hlt := h l (hl ▸ List.mem_cons_self)
        have heq : cur ++ [c] = l := hpre.eq_of_length (by omega)
        have hrest : rest = [] := hlast heq.symm (heq ▸ by simpa using hend)
        subst hrest
        rw [chunks, if_pos (Bool.or_eq_true _ _ ▸ .inr (decide_eq_true hsize))]
        simp [chunks, hend]
      · rw [chunks, if_neg hend] at h
        rw [chunks, if_neg (by simp [hend]; simpa using hsize), chunks, if_neg hend, ih _ h]

/-- A buffer that every line fits reads the lines. -/
theorem reads_eq_lines {size : Nat} {text : List α} (h : ∀ l ∈ lines mark text, l.length < size) :
    reads mark size text = lines mark text := reads_eq_lines_from [] text h

/-- No chunk is longer than the buffer. -/
theorem length_lt_of_mem_reads {size : Nat} {text l : List α} (hsize : 2 ≤ size)
    (hl : l ∈ reads mark size text) : l.length < size := by
  have hchunks : ∀ (rest cur : List α), cur.length + 1 < size →
      ∀ l ∈ chunks (fun cur => endsLine mark cur || size - 1 ≤ cur.length) cur rest,
        l.length < size := by
    intro rest
    induction rest with
    | nil =>
      intro cur hcur l hl
      rw [chunks] at hl
      split at hl
      · cases hl
      · obtain rfl := List.mem_singleton.mp hl
        omega
    | cons c rest ih =>
      intro cur hcur l hl
      have hlength : (cur ++ [c]).length = cur.length + 1 := by simp
      rw [chunks] at hl
      split at hl
      · obtain rfl | hl := List.mem_cons.mp hl
        · omega
        · exact ih [] hsize l hl
      · rename_i hopen
        have hroom : ¬ size - 1 ≤ (cur ++ [c]).length := by
          intro hle
          exact hopen (Bool.or_eq_true _ _ ▸ .inr (decide_eq_true hle))
        exact ih _ (by omega) l hl
  exact hchunks text [] hsize l hl

theorem endsLine_append (cur : List α) (c : α) : endsLine mark (cur ++ [c]) = decide (c = mark) := by
  simp [endsLine]

theorem chunks_of_not_mem {cur l rest : List α} (h : mark ∉ l) :
    chunks (endsLine mark) cur (l ++ rest) = chunks (endsLine mark) (cur ++ l) rest := by
  induction l generalizing cur with
  | nil => simp
  | cons c l ih =>
    obtain ⟨hc, hl⟩ : c ≠ mark ∧ mark ∉ l := by simpa [eq_comm] using h
    rw [List.cons_append, chunks, endsLine_append, if_neg (by simpa using hc), ih hl,
      List.append_assoc, List.singleton_append]

theorem lines_nil : lines mark [] = [] := rfl

theorem lines_of_not_mem {l : List α} (hl : l ≠ []) (h : mark ∉ l) : lines mark l = [l] := by
  rw [lines, ← List.append_nil l, chunks_of_not_mem h]
  simp [chunks, hl]

theorem lines_append {l rest : List α} (h : mark ∉ l) :
    lines mark (l ++ mark :: rest) = (l ++ [mark]) :: lines mark rest := by
  rw [lines, chunks_of_not_mem h, List.nil_append, chunks, endsLine_append, if_pos (by simp), lines]

/-- A text is empty, or a line without a mark, or a line with the mark and a text. -/
theorem lines_induction (mark : α) {P : List α → Prop} (nil : P [])
    (last : ∀ l, l ≠ [] → mark ∉ l → P l)
    (cons : ∀ l rest, mark ∉ l → P rest → P (l ++ mark :: rest)) (text : List α) : P text := by
  induction hlen : text.length using Nat.strong_induction_on generalizing text with
  | _ n ih =>
    by_cases hmark : mark ∈ text
    · obtain ⟨l, rest, rfl, hl⟩ := List.eq_append_cons_of_mem hmark
      exact cons l rest hl (ih rest.length (by simp at hlen; omega) rest rfl)
    · by_cases htext : text = []
      · exact htext ▸ nil
      · exact last text htext hmark

theorem lines_eq_nil_iff {text : List α} : lines mark text = [] ↔ text = [] := by
  constructor
  · cases text with
    | nil => exact fun _ => rfl
    | cons c rest =>
      obtain ⟨l, ls, hl, -⟩ := chunks_cons (endsLine mark) [] c rest
      rw [lines, hl]
      intro hnil
      cases hnil
  · rintro rfl
    rfl

/-- A piece of a line in front of a text makes at most one line more. -/
theorem length_lines_append_le {l text : List α} (h : mark ∉ l) :
    (lines mark (l ++ text)).length ≤ (lines mark text).length + 1 := by
  induction text using lines_induction mark with
  | nil =>
    rw [List.append_nil]
    by_cases hl : l = []
    · rw [hl]
      omega
    · rw [lines_of_not_mem hl h, List.length_singleton]
      omega
  | last m hm hmark =>
    rw [lines_of_not_mem (List.append_ne_nil_of_right_ne_nil l hm)
      (fun hmem => (List.mem_append.mp hmem).elim h hmark), List.length_singleton]
    omega
  | cons m rest hmark _ =>
    rw [← List.append_assoc, lines_append fun hmem => (List.mem_append.mp hmem).elim h hmark,
      lines_append hmark, List.length_cons, List.length_cons]
    omega

theorem mem_of_mem_lines {text l : List α} {c : α} (hl : l ∈ lines mark text) (hc : c ∈ l) :
    c ∈ text := by
  induction text using lines_induction mark with
  | nil => cases hl
  | last m hm hmark =>
    rw [lines_of_not_mem hm hmark, List.mem_singleton] at hl
    exact hl ▸ hc
  | cons m rest hmark ih =>
    rw [lines_append hmark, List.mem_cons] at hl
    obtain rfl | hl := hl
    · simp at hc ⊢
      tauto
    · exact List.mem_append_right _ (List.mem_cons_of_mem _ (ih hl))

end Marks

end Zectl.Lib.Lines
