import Zectl.Lib.BasicRegex

/-!
# What a part of a regular expression matches

Between groups the matches of an expression depend on the text alone. They are given here by
what an expression matches between two texts, and the list of ends holds exactly these.
-/

namespace Zectl.Lib.RegexMatches

open Zectl.Lib.BasicRegex

/-- The expression matches the second text between the first and the third. -/
inductive Matches : Bre → List Char → List Char → List Char → Prop
  | empty {before after : List Char} : Matches .empty before [] after
  | sym {k : Sym} {c : Char} {before after : List Char} (hc : k.has c = true) :
      Matches (.sym k) before [c] after
  | bol {after : List Char} : Matches .bol [] [] after
  | eol {before : List Char} : Matches .eol before [] []
  | seq {r s : Bre} {before u v after : List Char} (hr : Matches r before u (v ++ after))
      (hs : Matches s (before ++ u) v after) : Matches (.seq r s) before (u ++ v) after
  | left {r s : Bre} {before w after : List Char} (hr : Matches r before w after) :
      Matches (.alt r s) before w after
  | right {r s : Bre} {before w after : List Char} (hs : Matches s before w after) :
      Matches (.alt r s) before w after
  | done {r : Bre} {before after : List Char} : Matches (.rep r 0 none) before [] after
  | more {r : Bre} {before u v after : List Char} (hu : u ≠ [])
      (hr : Matches r before u (v ++ after))
      (hs : Matches (.rep r 0 none) (before ++ u) v after) :
      Matches (.rep r 0 none) before (u ++ v) after

/-- Neither groups nor references, and repetitions without bounds. -/
def Simple : Bre → Prop
  | .empty | .sym _ | .bol | .eol => True
  | .seq r s | .alt r s => Simple r ∧ Simple s
  | .rep r lo hi => Simple r ∧ lo = 0 ∧ hi = none
  | .group _ _ | .back _ => False

/-! ## The ends of the matches -/

section Ends
variable {r s : Bre} {input before rest after w : List Char} {e : Nat} {g g' : Groups}

/-- A match at the end of `before` that ends at `e`. -/
def EndsAt (r : Bre) (before rest : List Char) (e : Nat) : Prop :=
  ∃ w after, rest = w ++ after ∧ e = before.length + w.length ∧ Matches r before w after

theorem mem_longestFirst {e : End} {ends : List End} : e ∈ longestFirst ends ↔ e ∈ ends :=
  (List.perm_insertionSort _ ends).mem_iff

theorem endsAt_seq : EndsAt (.seq r s) before rest e ↔
    ∃ u after, rest = u ++ after ∧ EndsAt s (before ++ u) after e ∧ Matches r before u after := by
  constructor
  · intro h
    obtain ⟨w, after, hrest, he, hmatch⟩ := h
    cases hmatch with
    | @seq _ _ _ u v _ hr hs =>
      refine ⟨u, v ++ after, by rw [hrest, List.append_assoc], ⟨v, after, rfl, ?_, hs⟩, hr⟩
      rw [he, List.length_append, List.length_append, Nat.add_assoc]
  · intro h
    obtain ⟨u, mid, hrest, ⟨v, after, hmid, he, hs⟩, hr⟩ := h
    subst hmid
    refine ⟨u ++ v, after, by rw [hrest, List.append_assoc], ?_, .seq hr hs⟩
    rw [he, List.length_append, List.length_append, Nat.add_assoc]

theorem endsAt_more : EndsAt (.rep r 0 none) before rest e ↔ e = before.length ∨
    ∃ u after, u ≠ [] ∧ rest = u ++ after ∧ EndsAt (.rep r 0 none) (before ++ u) after e ∧
      Matches r before u after := by
  constructor
  · intro h
    obtain ⟨w, after, hrest, he, hmatch⟩ := h
    cases hmatch with
    | done => exact .inl he
    | @more _ _ u v _ hu hr hs =>
      refine .inr ⟨u, v ++ after, hu, by rw [hrest, List.append_assoc], ⟨v, after, rfl, ?_, hs⟩, hr⟩
      rw [he, List.length_append, List.length_append, Nat.add_assoc]
  · intro h
    obtain he | ⟨u, mid, hu, hrest, ⟨v, after, hmid, he, hs⟩, hr⟩ := h
    · exact ⟨[], rest, rfl, he, .done⟩
    · subst hmid
      refine ⟨u ++ v, after, by rw [hrest, List.append_assoc], ?_, .more hu hr hs⟩
      rw [he, List.length_append, List.length_append, Nat.add_assoc]

/-- As a round advances, there are enough of them to reach every end. -/
theorem mem_greedy
    (ih : ∀ {before rest : List Char} {e : Nat} {g' : Groups}, before ++ rest = input →
      ((e, g') ∈ r.ends input before.length g ↔ g' = g ∧ EndsAt r before rest e))
    {n : Nat} (hn : rest.length ≤ n) (hinput : before ++ rest = input) :
    (e, g') ∈ greedy (r.ends input) n before.length g ↔
      g' = g ∧ EndsAt (.rep r 0 none) before rest e := by
  induction n generalizing before rest with
  | zero =>
    obtain rfl := List.length_eq_zero_iff.mp (Nat.le_zero.mp hn)
    rw [greedy, List.mem_singleton, Prod.mk.injEq, and_comm, endsAt_more]
    apply and_congr_right
    intro _
    constructor
    · exact .inl
    · intro h
      obtain he | ⟨u, after, hu, hnil, -⟩ := h
      · exact he
      · exact absurd (List.append_eq_nil_iff.mp hnil.symm).1 hu
  | succ n ihn =>
    have hstep : ∀ {u after : List Char}, u ≠ [] → rest = u ++ after →
        ((e, g') ∈ greedy (r.ends input) n (before.length + u.length) g ↔
          g' = g ∧ EndsAt (.rep r 0 none) (before ++ u) after e) := by
      intro u after hu hrest
      have hlength := List.length_pos_iff.mpr hu
      rw [← List.length_append]
      apply ihn
      · rw [hrest, List.length_append] at hn
        omega
      · rw [← hinput, hrest, List.append_assoc]
    rw [greedy, List.mem_append, List.mem_singleton, Prod.mk.injEq, endsAt_more, List.mem_flatMap]
    constructor
    · intro h
      obtain ⟨⟨e1, g1⟩, hfirst, hrest⟩ | ⟨he, hg⟩ := h
      · obtain ⟨hmem, hlt⟩ := List.mem_filter.mp hfirst
        obtain ⟨hg, u, after, hu, he1, hmatch⟩ := (ih hinput).mp hmem
        subst hg he1
        have hne : u ≠ [] := by
          rintro rfl
          simp at hlt
        obtain ⟨hg, hend⟩ := (hstep hne hu).mp hrest
        exact ⟨hg, .inr ⟨u, after, hne, hu, hend, hmatch⟩⟩
      · exact ⟨hg, .inl he⟩
    · intro h
      obtain ⟨hg, he | ⟨u, after, hne, hu, hend, hmatch⟩⟩ := h
      · exact .inr ⟨he, hg⟩
      · refine .inl ⟨(before.length + u.length, g), List.mem_filter.mpr ⟨?_, ?_⟩,
          (hstep hne hu).mpr ⟨hg, hend⟩⟩
        · exact (ih hinput).mpr ⟨rfl, u, after, hu, rfl, hmatch⟩
        · have hlength := List.length_pos_iff.mpr hne
          rw [decide_eq_true_iff]
          dsimp only
          omega

/-- The list of ends and the matches are the same. -/
theorem mem_ends (hr : Simple r) (hinput : before ++ rest = input) :
    (e, g') ∈ r.ends input before.length g ↔ g' = g ∧ EndsAt r before rest e := by
  induction r generalizing before rest e g g' with
  | empty =>
    rw [Bre.ends, List.mem_singleton, Prod.mk.injEq, and_comm]
    apply and_congr_right
    intro _
    constructor
    · exact fun he => ⟨[], rest, rfl, he, .empty⟩
    · intro h
      obtain ⟨w, after, -, he, hmatch⟩ := h
      cases hmatch
      exact he
  | sym k =>
    have hget : input[before.length]? = rest.head? := by
      rw [← hinput, List.getElem?_append_right (Nat.le_refl _), Nat.sub_self, List.head?_eq_getElem?]
    rw [Bre.ends, hget]
    constructor
    · intro h
      cases rest with
      | nil => cases h
      | cons c rest =>
        dsimp only [List.head?] at h
        split at h
        · rename_i hc
          cases List.mem_singleton.mp h
          exact ⟨rfl, [c], rest, rfl, rfl, .sym hc⟩
        · cases h
    · intro h
      obtain ⟨hg, w, after, hrest, he, hmatch⟩ := h
      cases hmatch with
      | sym hc =>
        rw [hrest]
        dsimp only [List.singleton_append, List.head?]
        rw [if_pos hc, hg, he]
        exact List.mem_singleton_self _
  | bol =>
    rw [Bre.ends]
    constructor
    · intro h
      split at h
      · rename_i hzero
        obtain rfl := List.length_eq_zero_iff.mp hzero
        cases List.mem_singleton.mp h
        exact ⟨rfl, [], rest, rfl, rfl, .bol⟩
      · cases h
    · intro h
      obtain ⟨hg, w, after, hrest, he, hmatch⟩ := h
      cases hmatch
      rw [if_pos List.length_nil, hg, he]
      exact List.mem_singleton_self _
  | eol =>
    rw [Bre.ends]
    have hlength : before.length = input.length ↔ rest = [] := by
      rw [← hinput, List.length_append, ← List.length_eq_zero_iff]
      omega
    constructor
    · intro h
      split at h
      · rename_i hend
        obtain rfl := hlength.mp hend
        cases List.mem_singleton.mp h
        exact ⟨rfl, [], [], rfl, rfl, .eol⟩
      · cases h
    · intro h
      obtain ⟨hg, w, after, hrest, he, hmatch⟩ := h
      cases hmatch
      rw [if_pos (hlength.mpr hrest), hg, he]
      exact List.mem_singleton_self _
  | seq r s ihr ihs =>
    rw [Bre.ends, List.mem_flatMap, endsAt_seq]
    constructor
    · intro h
      obtain ⟨⟨e1, g1⟩, hfirst, hsecond⟩ := h
      obtain ⟨rfl, u, after, hu, rfl, hmatch⟩ := (ihr hr.1 hinput).mp hfirst
      dsimp only at hsecond
      rw [← List.length_append, ihs hr.2 (by rw [← hinput, hu, List.append_assoc])] at hsecond
      exact ⟨hsecond.1, u, after, hu, hsecond.2, hmatch⟩
    · intro h
      obtain ⟨hg, u, after, hu, hend, hmatch⟩ := h
      refine ⟨(before.length + u.length, g), (ihr hr.1 hinput).mpr ⟨rfl, u, after, hu, rfl, hmatch⟩, ?_⟩
      dsimp only
      rw [← List.length_append, ihs hr.2 (by rw [← hinput, hu, List.append_assoc])]
      exact ⟨hg, hend⟩
  | alt r s ihr ihs =>
    rw [Bre.ends, mem_longestFirst, List.mem_append, ihr hr.1 hinput, ihs hr.2 hinput, ← and_or_left]
    apply and_congr_right
    intro _
    constructor
    · intro h
      obtain ⟨w, after, hw, he, hmatch⟩ | ⟨w, after, hw, he, hmatch⟩ := h
      · exact ⟨w, after, hw, he, .left hmatch⟩
      · exact ⟨w, after, hw, he, .right hmatch⟩
    · intro h
      obtain ⟨w, after, hw, he, hmatch⟩ := h
      cases hmatch with
      | left hmatch => exact .inl ⟨w, after, hw, he, hmatch⟩
      | right hmatch => exact .inr ⟨w, after, hw, he, hmatch⟩
  | group n r => exact hr.elim
  | rep r lo hi ihr =>
    obtain ⟨hsimple, rfl, rfl⟩ := hr
    have hrest : rest.length ≤ input.length - before.length := by
      rw [← hinput, List.length_append]
      omega
    rw [Bre.ends, mem_longestFirst, times]
    exact mem_greedy (fun {before rest e g'} h => ihr hsimple h) hrest hinput
  | back n => exact hr.elim

end Ends

/-! ## What each constructor matches -/

section Iff
variable {r s : Bre} {k : Sym} {before w after text : List Char}

theorem matches_empty_iff : Matches .empty before w after ↔ w = [] := by
  constructor
  · intro h
    cases h
    rfl
  · rintro rfl
    exact .empty

theorem matches_sym_iff : Matches (.sym k) before w after ↔ ∃ c, w = [c] ∧ k.has c = true := by
  constructor
  · intro h
    cases h with
    | sym hc => exact ⟨_, rfl, hc⟩
  · rintro ⟨c, rfl, hc⟩
    exact .sym hc

theorem matches_bol_iff : Matches .bol before w after ↔ before = [] ∧ w = [] := by
  constructor
  · intro h
    cases h
    exact ⟨rfl, rfl⟩
  · rintro ⟨rfl, rfl⟩
    exact .bol

theorem matches_eol_iff : Matches .eol before w after ↔ w = [] ∧ after = [] := by
  constructor
  · intro h
    cases h
    exact ⟨rfl, rfl⟩
  · rintro ⟨rfl, rfl⟩
    exact .eol

theorem matches_seq_iff : Matches (.seq r s) before w after ↔
    ∃ u v, w = u ++ v ∧ Matches r before u (v ++ after) ∧ Matches s (before ++ u) v after := by
  constructor
  · intro h
    cases h with
    | seq hr hs => exact ⟨_, _, rfl, hr, hs⟩
  · rintro ⟨u, v, rfl, hr, hs⟩
    exact .seq hr hs

theorem matches_alt_iff : Matches (.alt r s) before w after ↔
    Matches r before w after ∨ Matches s before w after := by
  constructor
  · intro h
    cases h with
    | left hr => exact .inl hr
    | right hs => exact .inr hs
  · rintro (hr | hs)
    · exact .left hr
    · exact .right hs

/-- A run of symbols. -/
theorem matches_star_iff : Matches (.rep (.sym k) 0 none) before w after ↔
    ∀ c ∈ w, k.has c = true := by
  constructor
  · intro h
    generalize hr : Bre.rep (.sym k) 0 none = r at h
    induction h with
    | done => exact fun c hc => absurd hc List.not_mem_nil
    | more _ hu _ _ ih =>
      cases hr
      obtain ⟨c, rfl, hc⟩ := matches_sym_iff.mp hu
      intro d hd
      obtain rfl | hd := List.mem_cons.mp hd
      · exact hc
      · exact ih rfl d hd
    | empty | sym | bol | eol | seq | left | right => cases hr
  · intro h
    induction w generalizing before with
    | nil => exact .done
    | cons c w ih =>
      have hrest := @ih (before ++ [c]) fun d hd => h d (List.mem_cons_of_mem c hd)
      exact @Matches.more _ _ [c] _ _ (by simp) (.sym (h c List.mem_cons_self)) hrest

/-- Any text at all. -/
theorem matches_dots : Matches (.rep (.sym .any) 0 none) before w after :=
  matches_star_iff.mpr fun _ _ => rfl

theorem matches_literal_iff : Matches (literal text r) before w after ↔
    ∃ v, w = text ++ v ∧ Matches r (before ++ text) v after := by
  induction text generalizing before w with
  | nil => simp [literal]
  | cons c text ih =>
    have hcons : literal (c :: text) r = .seq (.sym (.char c)) (literal text r) := rfl
    rw [hcons, matches_seq_iff]
    constructor
    · rintro ⟨u, v, rfl, hu, hv⟩
      obtain ⟨d, rfl, hd⟩ := matches_sym_iff.mp hu
      obtain ⟨v', rfl, hv'⟩ := ih.mp hv
      obtain rfl : d = c := by simpa [Sym.has] using hd
      exact ⟨v', rfl, by simpa using hv'⟩
    · rintro ⟨v, rfl, hv⟩
      refine ⟨[c], text ++ v, rfl, .sym (by simp [Sym.has]), ih.mpr ⟨v, rfl, ?_⟩⟩
      simpa using hv

theorem simple_literal (hr : Simple r) : Simple (literal text r) := by
  induction text with
  | nil => exact hr
  | cons c text ih => exact ⟨trivial, ih⟩

/-- An expression without anchors. -/
def Free : Bre → Prop
  | .empty | .sym _ => True
  | .seq r s | .alt r s => Free r ∧ Free s
  | .rep r lo hi => Free r ∧ lo = 0 ∧ hi = none
  | .bol | .eol | .group _ _ | .back _ => False

theorem Free.simple (h : Free r) : Simple r := by
  induction r with
  | empty | sym => trivial
  | seq r s ihr ihs | alt r s ihr ihs => exact ⟨ihr h.1, ihs h.2⟩
  | rep r lo hi ih => exact ⟨ih h.1, h.2⟩
  | bol | eol | group | back => exact h.elim

/-- Without anchors it matches a text wherever that stands. -/
theorem Matches.move (hr : Free r) (h : Matches r before w after) (before' after' : List Char) :
    Matches r before' w after' := by
  induction h generalizing before' after' with
  | empty => exact .empty
  | sym hc => exact .sym hc
  | bol | eol => exact hr.elim
  | seq _ _ ihr ihs => exact .seq (ihr hr.1 _ _) (ihs hr.2 _ _)
  | left _ ih => exact .left (ih hr.1 _ _)
  | right _ ih => exact .right (ih hr.2 _ _)
  | done => exact .done
  | more hu _ _ ihr ihs => exact .more hu (ihr hr.1 _ _) (ihs hr _ _)

end Iff

end Zectl.Lib.RegexMatches
