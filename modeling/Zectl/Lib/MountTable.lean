import Mathlib.Data.List.Nodup

/-!
# Mount tables and the order of unmounting

A table says where each file system is mounted. A file system is busy while something is
mounted strictly below it. A list of file systems can be unmounted in its order exactly when
none comes before one that is mounted below it and nothing else is mounted below any of them.
-/

namespace Zectl.Lib.MountTable

variable {ν π : Type} {below : π → π → Prop} {others : π → Prop}
variable {μ : ν → Option π} {n m : ν} {l : List ν}

def Busy (below : π → π → Prop) (others : π → Prop) (μ : ν → Option π) (n : ν) : Prop :=
  ∃ p ∈ μ n, (∃ m, ∃ q ∈ μ m, below p q) ∨ ∃ q, others q ∧ below p q

/-- What is not mounted is not busy and need not be unmounted. -/
theorem not_busy_of_none (h : μ n = none) : ¬ Busy below others μ n := by
  rintro ⟨p, hp, -⟩
  rw [h] at hp
  cases hp

/-- Nothing outside the list is mounted below a file system of the list. -/
def Covers (below : π → π → Prop) (others : π → Prop) (μ : ν → Option π) (l : List ν) : Prop :=
  ∀ n ∈ l, ∀ p ∈ μ n, (∀ m ∉ l, ∀ q ∈ μ m, ¬ below p q) ∧ ∀ q, others q → ¬ below p q

/-- No file system of the list comes before one that is mounted below it. -/
def Ordered (below : π → π → Prop) (μ : ν → Option π) (l : List ν) : Prop :=
  l.Pairwise fun n m => ∀ p ∈ μ n, ∀ q ∈ μ m, ¬ below p q

theorem ordered_congr {μ' : ν → Option π} (h : ∀ n ∈ l, μ' n = μ n) :
    Ordered below μ' l ↔ Ordered below μ l := by
  apply List.Pairwise.iff_of_mem
  intro n m hn hm
  rw [h n hn, h m hm]

section Unmount
variable [DecidableEq ν]

def unmount (μ : ν → Option π) (n : ν) : ν → Option π := fun m => if m = n then none else μ m

/-- No file system of the list is busy at its turn. -/
def Drains (below : π → π → Prop) (others : π → Prop) : (ν → Option π) → List ν → Prop
  | _, [] => True
  | μ, n :: rest => ¬ Busy below others μ n ∧ Drains below others (unmount μ n) rest

@[simp] theorem unmount_self : unmount μ n n = none := if_pos rfl

theorem unmount_of_ne (h : m ≠ n) : unmount μ n m = μ m := if_neg h

theorem mem_unmount {q : π} : q ∈ unmount μ n m ↔ m ≠ n ∧ q ∈ μ m := by
  by_cases hmn : m = n
  · rw [hmn]
    simp
  · rw [unmount_of_ne hmn]
    simp [hmn]

theorem unmount_of_none (h : μ n = none) : unmount μ n = μ := by
  funext m
  by_cases hmn : m = n
  · rw [hmn, unmount_self, h]
  · exact unmount_of_ne hmn

theorem foldl_unmount (l : List ν) (μ : ν → Option π) (m : ν) :
    l.foldl unmount μ m = if m ∈ l then none else μ m := by
  induction l generalizing μ with
  | nil => rfl
  | cons n rest ih =>
    rw [List.foldl_cons, ih]
    by_cases hrest : m ∈ rest
    · rw [if_pos hrest, if_pos (List.mem_cons_of_mem n hrest)]
    · rw [if_neg hrest]
      by_cases hmn : m = n
      · rw [hmn, unmount_self, if_pos List.mem_cons_self]
      · rw [unmount_of_ne hmn, if_neg (by simp [hmn, hrest])]

theorem drains_append {l' : List ν} : Drains below others μ (l ++ l') ↔
    Drains below others μ l ∧ Drains below others (l.foldl unmount μ) l' := by
  induction l generalizing μ with
  | nil => exact ⟨fun h => ⟨trivial, h⟩, fun h => h.2⟩
  | cons n rest ih =>
    show (_ ∧ Drains below others _ (rest ++ l')) ↔ (_ ∧ Drains below others _ rest) ∧ _
    rw [ih, and_assoc]
    rfl

/-- File systems that are not mounted may be left out. -/
theorem drains_filter (keep : ν → Bool) (h : ∀ n ∈ l, keep n = false → μ n = none) :
    Drains below others μ (l.filter keep) ↔ Drains below others μ l := by
  induction l generalizing μ with
  | nil => exact Iff.rfl
  | cons n rest ih =>
    have hrest : ∀ ν' ∈ rest, keep ν' = false → unmount μ n ν' = none := by
      intro m hm hkeep
      by_cases hmn : m = n
      · rw [hmn, unmount_self]
      · rw [unmount_of_ne hmn]
        exact h m (List.mem_cons_of_mem n hm) hkeep
    cases hkeep : keep n with
    | true =>
      rw [List.filter_cons_of_pos hkeep]
      show (_ ∧ Drains below others _ (rest.filter keep)) ↔ (_ ∧ Drains below others _ rest)
      rw [ih hrest]
    | false =>
      have hnone := h n List.mem_cons_self hkeep
      rw [unmount_of_none hnone] at hrest
      rw [List.filter_cons_of_neg (by simp [hkeep]), ih hrest]
      show _ ↔ (_ ∧ Drains below others (unmount μ n) rest)
      rw [unmount_of_none hnone]
      exact ⟨fun hdrains => ⟨not_busy_of_none hnone, hdrains⟩, fun hall => hall.2⟩

theorem drains_iff (hirr : ∀ p, ¬ below p p) (hnodup : l.Nodup) :
    Drains below others μ l ↔ Ordered below μ l ∧ Covers below others μ l := by
  induction l generalizing μ with
  | nil => exact ⟨fun _ => ⟨.nil, fun _ hn => by cases hn⟩, fun _ => trivial⟩
  | cons n rest ih =>
    obtain ⟨hn, hrest⟩ := List.nodup_cons.mp hnodup
    have hsame : ∀ m ∈ rest, unmount μ n m = μ m := fun m hm =>
      unmount_of_ne fun heq => hn (heq ▸ hm)
    show (_ ∧ Drains below others (unmount μ n) rest) ↔ _
    rw [ih hrest, ordered_congr hsame]
    constructor
    · rintro ⟨hbusy, hordered, hcovers⟩
      refine ⟨List.pairwise_cons.mpr ⟨?_, hordered⟩, ?_⟩
      · exact fun m _ p hp q hq hbelow => hbusy ⟨p, hp, .inl ⟨m, q, hq, hbelow⟩⟩
      · intro k hk p hp
        rcases List.mem_cons.mp hk with rfl | hk
        · exact ⟨fun m _ q hq hbelow => hbusy ⟨p, hp, .inl ⟨m, q, hq, hbelow⟩⟩,
            fun q hq hbelow => hbusy ⟨p, hp, .inr ⟨q, hq, hbelow⟩⟩⟩
        · obtain ⟨hin, hout⟩ := hcovers k hk p (by rwa [hsame k hk])
          refine ⟨fun m hm q hq => ?_, hout⟩
          rw [List.mem_cons, not_or] at hm
          exact hin m hm.2 q (mem_unmount.mpr ⟨hm.1, hq⟩)
    · rintro ⟨hordered, hcovers⟩
      obtain ⟨hfirst, hordered⟩ := List.pairwise_cons.mp hordered
      refine ⟨?_, hordered, ?_⟩
      · rintro ⟨p, hp, ⟨m, q, hq, hbelow⟩ | ⟨q, hq, hbelow⟩⟩
        · by_cases hmn : m = n
          · rw [hmn] at hq
            obtain rfl := Option.mem_unique hp hq
            exact hirr p hbelow
          · by_cases hmrest : m ∈ rest
            · exact hfirst m hmrest p hp q hq hbelow
            · exact (hcovers n List.mem_cons_self p hp).1 m (by simp [hmn, hmrest]) q hq hbelow
        · exact (hcovers n List.mem_cons_self p hp).2 q hq hbelow
      · intro k hk p hp
        rw [hsame k hk] at hp
        obtain ⟨hin, hout⟩ := hcovers k (List.mem_cons_of_mem n hk) p hp
        refine ⟨fun m hm q hq => ?_, hout⟩
        obtain ⟨hmn, hq⟩ := mem_unmount.mp hq
        exact hin m (by simp [hmn, hm]) q hq

end Unmount

end Zectl.Lib.MountTable
