import Zectl.Lib.PathOrder
import Mathlib.Data.List.Pairwise
import Mathlib.Data.List.Perm.Basic

/-!
# Listing a tree from its root

`preorder` lists a node, then for each of its children the nodes below it, `postorder` the
children's nodes first. When a rank grows from parent to child, every node is listed once
and no node is listed behind one of its descendants.
-/

namespace Zectl.Lib.Preorder

open Zectl.Lib.PathOrder

variable {ν : Type}

def preorder (kids : ν → List ν) : Nat → ν → List ν
  | 0, _ => []
  | depth + 1, n => n :: (kids n).flatMap (preorder kids depth)

def postorder (kids : ν → List ν) : Nat → ν → List ν
  | 0, _ => []
  | depth + 1, n => (kids n).flatMap (postorder kids depth) ++ [n]

/-- Both orders list the same nodes. -/
theorem postorder_perm (kids : ν → List ν) (depth : Nat) (n : ν) :
    (postorder kids depth n).Perm (preorder kids depth n) := by
  induction depth generalizing n with
  | zero => exact List.Perm.refl []
  | succ depth ih =>
    have hkids : ((kids n).flatMap (postorder kids depth)).Perm
        ((kids n).flatMap (preorder kids depth)) := List.Perm.flatMap_left _ fun c _ => ih c
    exact (List.perm_append_singleton n _).trans (hkids.cons n)

/-- Behind the root only children are listed. -/
theorem eq_or_of_mem_preorder {kids : ν → List ν} {P : ν → Prop}
    (hkids : ∀ n c, c ∈ kids n → P c) {depth : Nat} {n m : ν} (hm : m ∈ preorder kids depth n) :
    m = n ∨ P m := by
  induction depth generalizing n with
  | zero => cases hm
  | succ depth ih =>
    obtain rfl | hm := List.mem_cons.mp hm
    · exact .inl rfl
    · obtain ⟨c, hc, hm⟩ := List.mem_flatMap.mp hm
      obtain rfl | hP := ih hm
      · exact .inr (hkids n _ hc)
      · exact .inr hP

/-- Children know their parent and have a greater rank. -/
structure Ranked (parent : ν → Option ν) (kids : ν → List ν) (rank : ν → Nat) : Prop where
  parent_of_mem : ∀ {n c}, c ∈ kids n → parent c = some n
  nodup : ∀ n, (kids n).Nodup
  rank_lt : ∀ {n c}, parent c = some n → rank n < rank c

section
variable {parent : ν → Option ν} {kids : ν → List ν} {rank : ν → Nat} {a b n m : ν}

namespace Ranked
variable (h : Ranked parent kids rank)
include h

theorem rank_le (hd : Descends parent a b) : rank a ≤ rank b := by
  induction hd with
  | refl => exact Nat.le_refl _
  | tail _ hbc ih => exact ih.trans (h.rank_lt hbc).le

theorem not_descends_of_parent (hn : parent n = some m) : ¬ Descends parent n m := fun hd => by
  have hle := h.rank_le hd
  have hlt := h.rank_lt hn
  omega

theorem descends_of_mem {depth : Nat} (hm : m ∈ preorder kids depth n) :
    Descends parent n m := by
  induction depth generalizing n with
  | zero => cases hm
  | succ depth ih =>
    obtain rfl | hm := List.mem_cons.mp hm
    · exact Descends.refl _
    · obtain ⟨c, hc, hm⟩ := List.mem_flatMap.mp hm
      exact descends_of_child (h.parent_of_mem hc) (ih hm)

/-- Two children of one node have no node below both of them. -/
theorem eq_of_common {c d : ν} (hc : parent c = some n) (hd : parent d = some n)
    (hcm : Descends parent c m) (hdm : Descends parent d m) : c = d := by
  have hone : ∀ {x y : ν}, parent x = some n → parent y = some n → Descends parent x y → x = y := by
    intro x y hx hy hxy
    obtain rfl | ⟨p, hxp, hpy⟩ := Relation.ReflTransGen.cases_tail hxy
    · rfl
    · cases hy.symm.trans hpy
      exact absurd hxp (h.not_descends_of_parent hx)
  obtain hcd | hdc := hcm.comparable hdm
  · exact hone hc hd hcd
  · exact (hone hd hc hdc).symm

/-- No node is listed behind one of its descendants, nor a second time. -/
theorem preorder_pairwise (depth : Nat) (n : ν) :
    (preorder kids depth n).Pairwise fun a b => ¬ Descends parent b a := by
  induction depth generalizing n with
  | zero => exact .nil
  | succ depth ih =>
    refine List.pairwise_cons.mpr ⟨?_, List.pairwise_flatMap.mpr ⟨fun c _ => ih c, ?_⟩⟩
    · intro b hb hbn
      obtain ⟨c, hc, hb⟩ := List.mem_flatMap.mp hb
      exact h.not_descends_of_parent (h.parent_of_mem hc) ((h.descends_of_mem hb).trans hbn)
    · refine (h.nodup n).imp_of_mem fun {c d} hc hd hne x hx y hy hyx => hne ?_
      exact h.eq_of_common (h.parent_of_mem hc) (h.parent_of_mem hd) (h.descends_of_mem hx)
        ((h.descends_of_mem hy).trans hyx)

theorem preorder_nodup (depth : Nat) (n : ν) : (preorder kids depth n).Nodup := by
  refine (h.preorder_pairwise depth n).imp fun hno heq => hno ?_
  rw [heq]
  exact Descends.refl _

/-- Every live node below the root is listed when the depth exceeds the ranks. -/
theorem mem_preorder {depth : Nat} (live : ν → Prop)
    (hlive : ∀ m p, live m → parent m = some p → live p)
    (hkids : ∀ n c, live c → parent c = some n → c ∈ kids n) (hm : live m)
    (hd : Descends parent n m) (hrank : rank m < rank n + depth) :
    m ∈ preorder kids depth n := by
  induction depth generalizing n with
  | zero =>
    have hle := h.rank_le hd
    omega
  | succ depth ih =>
    by_cases hne : m = n
    · exact hne ▸ List.mem_cons_self
    · obtain ⟨c, hc, hclive, hcm⟩ := hd.exists_child hne live hlive hm
      have hlt := h.rank_lt hc
      exact List.mem_cons_of_mem _ (List.mem_flatMap.mpr
        ⟨c, hkids n c hclive hc, ih hcm (by omega)⟩)

end Ranked
end

end Zectl.Lib.Preorder
