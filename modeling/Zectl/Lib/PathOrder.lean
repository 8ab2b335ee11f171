import Mathlib.Data.List.Infix
import Mathlib.Logic.Relation

/-!
# Separated paths and the hierarchy they name

A path is a list of symbols in which some symbols separate components. The first
part cuts a path at the last occurrence of a symbol. The second part is the order
"lies at or below" on paths. The third part is the abstract hierarchy given by a
parent function, where the order is reachability and no text occurs.
-/

namespace Zectl.Lib.PathOrder

open Relation (ReflTransGen)

variable {α : Type}

/-! ## The last separator -/

section SplitLast
variable [DecidableEq α]

/-- Both sides of the last occurrence of `d`, without it. -/
def splitLast (d : α) : List α → Option (List α × List α)
  | [] => none
  | x :: xs =>
    match splitLast d xs with
    | some (a, b) => some (x :: a, b)
    | none => if x = d then some ([], xs) else none

theorem splitLast_eq_none {d : α} {l : List α} : splitLast d l = none ↔ d ∉ l := by
  induction l with
  | nil => simp [splitLast]
  | cons x xs ih =>
    cases hs : splitLast d xs with
    | some ab =>
      have hmem : d ∈ xs := by
        by_contra hd
        rw [ih.mpr hd] at hs
        cases hs
      simp [splitLast, hs, hmem]
    | none =>
      have hd := ih.mp hs
      by_cases hx : x = d
      · simp [splitLast, hs, hx]
      · simp [splitLast, hs, hx, hd, Ne.symm hx]

theorem splitLast_append {d : α} {a b : List α} (hb : d ∉ b) :
    splitLast d (a ++ d :: b) = some (a, b) := by
  induction a with
  | nil => simp [splitLast, splitLast_eq_none.mpr hb]
  | cons x xs ih => simp [splitLast, ih]

theorem eq_append_of_splitLast {d : α} {l a b : List α} (h : splitLast d l = some (a, b)) :
    l = a ++ d :: b ∧ d ∉ b := by
  induction l generalizing a with
  | nil => cases h
  | cons x xs ih =>
    cases hs : splitLast d xs with
    | some ab =>
      obtain ⟨a', b'⟩ := ab
      simp only [splitLast, hs, Option.some.injEq, Prod.mk.injEq] at h
      obtain ⟨rfl, rfl⟩ := h
      obtain ⟨hx, hb⟩ := ih hs
      exact ⟨by rw [hx, List.cons_append], hb⟩
    | none =>
      simp only [splitLast, hs, ite_eq_iff, Option.some.injEq, Prod.mk.injEq] at h
      obtain ⟨rfl, rfl, rfl⟩ | ⟨_, h⟩ := h
      · exact ⟨rfl, splitLast_eq_none.mp hs⟩
      · cases h

theorem splitLast_eq_some {d : α} {l a b : List α} :
    splitLast d l = some (a, b) ↔ l = a ++ d :: b ∧ d ∉ b := by
  refine ⟨eq_append_of_splitLast, ?_⟩
  rintro ⟨rfl, hb⟩
  exact splitLast_append hb

/-- Two splits of one list at the last `d` are the same split. -/
theorem append_cons_inj {d : α} {a b a' b' : List α} (hb : d ∉ b) (hb' : d ∉ b')
    (h : a ++ d :: b = a' ++ d :: b') : a = a' ∧ b = b' := by
  have hs := splitLast_append (a := a) hb
  rw [h, splitLast_append hb'] at hs
  simpa [eq_comm] using hs

end SplitLast

/-! ## At or below -/

/-- `l` is `p`, or extends `p` behind a separator. -/
def Under (sep : α → Prop) (p l : List α) : Prop :=
  l = p ∨ ∃ c r, sep c ∧ l = p ++ c :: r

section Under
variable {sep : α → Prop} {p q l : List α}

@[simp] theorem under_refl : Under sep p p := .inl rfl

theorem under_append {c : α} (hc : sep c) (r : List α) : Under sep p (p ++ c :: r) :=
  .inr ⟨c, r, hc, rfl⟩

theorem Under.trans (hpq : Under sep p q) (hql : Under sep q l) : Under sep p l := by
  obtain rfl | ⟨c, r, hc, rfl⟩ := hpq
  · exact hql
  · obtain rfl | ⟨c', r', _, rfl⟩ := hql
    · exact under_append hc r
    · exact .inr ⟨c, r ++ c' :: r', hc, by simp⟩

/-- The order does not look at a common prefix. -/
theorem under_append_left {a b : List α} : Under sep (p ++ a) (p ++ b) ↔ Under sep a b := by
  simp only [Under, List.append_assoc, List.append_cancel_left_eq]

theorem Under.length_le (h : Under sep p l) : p.length ≤ l.length := by
  obtain rfl | ⟨c, r, _, rfl⟩ := h
  · exact le_rfl
  · simp

theorem Under.antisymm (hpl : Under sep p l) (hlp : Under sep l p) : p = l := by
  obtain rfl | ⟨c, r, _, rfl⟩ := hpl
  · rfl
  · have hlen := hlp.length_le
    simp only [List.length_append, List.length_cons] at hlen
    omega

theorem Under.isPrefix (h : Under sep p l) : p <+: l := by
  obtain rfl | ⟨c, r, _, rfl⟩ := h
  · exact List.prefix_rfl
  · exact List.prefix_append _ _

/-- What lies above one path forms a chain. -/
theorem Under.comparable (hp : Under sep p l) (hq : Under sep q l) :
    Under sep p q ∨ Under sep q p := by
  wlog hle : p.length ≤ q.length generalizing p q
  · exact (this hq hp (by omega)).symm
  left
  obtain ⟨t, rfl⟩ := List.prefix_of_prefix_length_le hp.isPrefix hq.isPrefix hle
  obtain rfl | ⟨c, r, hc, rfl⟩ := hp
  · have hlen := hq.length_le
    rw [List.length_append] at hlen
    have ht : t = [] := List.eq_nil_of_length_eq_zero (by omega)
    simp [ht]
  · cases t with
    | nil => simp
    | cons x t =>
      have hpre := hq.isPrefix
      rw [List.prefix_append_right_inj, List.cons_prefix_cons] at hpre
      exact under_append (hpre.1 ▸ hc) t

@[simp] theorem under_nil {x : α} : Under sep [] (x :: l) ↔ sep x := by
  constructor
  · rintro (h | ⟨c, r, hc, h⟩)
    · cases h
    · cases h
      exact hc
  · intro hx
    exact under_append (p := []) hx l

@[simp] theorem not_under_nil {x : α} : ¬ Under sep (x :: p) [] := by
  intro h
  have hlen := h.length_le
  simp at hlen

@[simp] theorem under_cons_cons {x y : α} : Under sep (x :: p) (y :: l) ↔ x = y ∧ Under sep p l := by
  constructor
  · rintro (h | ⟨c, r, hc, h⟩)
    · cases h
      exact ⟨rfl, under_refl⟩
    · cases h
      exact ⟨rfl, under_append hc r⟩
  · rintro ⟨rfl, rfl | ⟨c, r, hc, rfl⟩⟩
    · exact under_refl
    · exact under_append hc r

/-- The order is decided symbol by symbol. -/
instance decidableUnder [DecidableEq α] [DecidablePred sep] :
    (p l : List α) → Decidable (Under sep p l)
  | [], [] => .isTrue under_refl
  | [], _ :: _ => decidable_of_iff _ under_nil.symm
  | _ :: _, [] => .isFalse not_under_nil
  | _ :: p, _ :: l =>
    let _ := decidableUnder p l
    decidable_of_iff _ under_cons_cons.symm

end Under

/-! ## The hierarchy of a parent function -/

section Hierarchy
variable {ν : Type} (parent : ν → Option ν)

/-- `n` is `a` or is reached from it by going to children. -/
def Descends (a n : ν) : Prop := ReflTransGen (fun p c => parent c = some p) a n

variable {parent}

theorem Descends.refl (a : ν) : Descends parent a a := ReflTransGen.refl

theorem descends_of_parent {a b n : ν} (hn : parent n = some b) (h : Descends parent a b) :
    Descends parent a n := ReflTransGen.tail h hn

theorem descends_of_child {c n m : ν} (hc : parent c = some n) (h : Descends parent c m) :
    Descends parent n m := ReflTransGen.head hc h

theorem Descends.trans {a b n : ν} (hab : Descends parent a b) (hbn : Descends parent b n) :
    Descends parent a n := ReflTransGen.trans hab hbn

/-- Of two nodes above one node, one is above the other. -/
theorem Descends.comparable {a b n : ν} (ha : Descends parent a n) (hb : Descends parent b n) :
    Descends parent a b ∨ Descends parent b a := by
  induction ha with
  | refl => exact .inr hb
  | @tail p c hap hpc ih =>
    obtain rfl | ⟨q, hbq, hqc⟩ := ReflTransGen.cases_tail hb
    · exact .inl (descends_of_parent hpc hap)
    · cases hpc.symm.trans hqc
      exact ih hbq

/-- A proper descendant has the ancestor's child above it, and a set closed under
parents that holds the descendant holds this child. -/
theorem Descends.exists_child {a n : ν} (h : Descends parent a n) (hne : n ≠ a)
    (closed : ν → Prop) (hclosed : ∀ m p, closed m → parent m = some p → closed p)
    (hn : closed n) : ∃ c, parent c = some a ∧ closed c ∧ Descends parent c n := by
  induction h with
  | refl => exact absurd rfl hne
  | @tail b c _ hbc ih =>
    by_cases hb : b = a
    · subst hb
      exact ⟨c, hbc, hn, Descends.refl c⟩
    · obtain ⟨d, hd, hdc, hdb⟩ := ih hb (hclosed c b hn hbc)
      exact ⟨d, hd, hdc, descends_of_parent hbc hdb⟩

end Hierarchy

end Zectl.Lib.PathOrder
