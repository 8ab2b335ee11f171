import Zectl.Lib.RegexMatches

/-!
# Numbered groups one behind the other

Of the ways to split an input into what the groups match, `regexec` takes one that begins
first, of these one that ends last, and then as much as possible for each group in turn.
-/

namespace Zectl.Lib.RegexGroups

open Zectl.Lib.BasicRegex Zectl.Lib.RegexMatches

/-- The groups from number `n` on. -/
def groups : Nat → List Bre → Bre
  | _, [] => .empty
  | n, r :: rs => .seq (.group n r) (groups (n + 1) rs)

/-- Each expression matches its text, one behind the other. -/
inductive Splits : List Bre → List Char → List (List Char) → List Char → Prop
  | nil {before after : List Char} : Splits [] before [] after
  | cons {r : Bre} {rs : List Bre} {before w after : List Char} {ws : List (List Char)}
      (hr : Matches r before w (ws.flatten ++ after)) (hrs : Splits rs (before ++ w) ws after) :
      Splits (r :: rs) before (w :: ws) after

/-- The groups that match the texts from offset `i` on. -/
def marks : Nat → Nat → List (List Char) → Groups → Groups
  | _, _, [], g => g
  | n, i, w :: ws, g => marks (n + 1) (i + w.length) ws ((n, i, i + w.length) :: g)

/-- The first text of another length is shorter than the one in its place. -/
def NoLonger : List (List Char) → List (List Char) → Prop
  | [], _ => True
  | _ :: _, [] => False
  | u :: us, v :: vs => u.length < v.length ∨ u.length = v.length ∧ NoLonger us vs

theorem NoLonger.antisymm {us vs : List (List Char)} (h : NoLonger us vs) (h' : NoLonger vs us)
    (heq : us.flatten = vs.flatten) : us = vs := by
  induction us generalizing vs with
  | nil =>
    cases vs with
    | nil => rfl
    | cons v vs => exact h'.elim
  | cons u us ih =>
    cases vs with
    | nil => exact h.elim
    | cons v vs =>
      rw [NoLonger] at h h'
      obtain ⟨hlength, htail⟩ : u.length = v.length ∧ NoLonger us vs := by
        obtain hlt | h := h
        · omega
        · exact h
      obtain ⟨-, htail'⟩ : v.length = u.length ∧ NoLonger vs us := by
        obtain hlt | h' := h'
        · omega
        · exact h'
      rw [List.flatten_cons, List.flatten_cons] at heq
      obtain ⟨rfl, hrest⟩ := List.append_inj heq hlength
      rw [ih htail htail' hrest]

theorem splits_nil_iff {before after : List Char} {ws : List (List Char)} :
    Splits [] before ws after ↔ ws = [] := by
  constructor
  · intro h
    cases h
    rfl
  · rintro rfl
    exact .nil

theorem splits_cons_iff {r : Bre} {rs : List Bre} {before after : List Char}
    {ws : List (List Char)} : Splits (r :: rs) before ws after ↔ ∃ w vs, ws = w :: vs ∧
      Matches r before w (vs.flatten ++ after) ∧ Splits rs (before ++ w) vs after := by
  constructor
  · intro h
    cases h with
    | cons hr hrs => exact ⟨_, _, rfl, hr, hrs⟩
  · rintro ⟨w, vs, rfl, hr, hrs⟩
    exact .cons hr hrs

section Ends
variable {r : Bre} {rs : List Bre} {input before rest after : List Char} {n e : Nat}
  {g g' : Groups} {ws ws' : List (List Char)}

theorem find?_of_head? {ends : List End} {e : End} (h : (longestFirst ends).head? = some e) :
    ends.find? (fun f => f.1 = e.1) = some e ∧ ∀ f ∈ ends, f.1 ≤ e.1 := by
  induction ends generalizing e with
  | nil => cases h
  | cons a rest ih =>
    rw [longestFirst, List.insertionSort_cons] at h
    cases hsorted : rest.insertionSort fun e f => f.1 ≤ e.1 with
    | nil =>
      have hnil : rest = [] := by
        rw [← List.length_eq_zero_iff, ← List.length_insertionSort (fun e f : End => f.1 ≤ e.1),
          hsorted, List.length_nil]
      rw [hsorted] at h
      cases h
      rw [hnil]
      simp
    | cons b sorted =>
      obtain ⟨hfind, hle⟩ := @ih b (by rw [longestFirst, hsorted]; rfl)
      rw [hsorted, List.orderedInsert] at h
      split at h
      · rename_i hba
        cases h
        constructor
        · simp
        · intro f hf
          obtain rfl | hf := List.mem_cons.mp hf
          · exact Nat.le_refl _
          · exact Nat.le_trans (hle f hf) hba
      · rename_i hba
        cases h
        constructor
        · rw [List.find?_cons_of_neg (by simp; omega), hfind]
        · intro f hf
          obtain rfl | hf := List.mem_cons.mp hf
          · omega
          · exact hle f hf

theorem mem_ends_groups (hrs : ∀ r ∈ rs, Simple r) (hinput : before ++ rest = input) :
    (e, g') ∈ (groups n rs).ends input before.length g ↔ ∃ ws after, rest = ws.flatten ++ after ∧
      e = before.length + ws.flatten.length ∧ g' = marks n before.length ws g ∧
      Splits rs before ws after := by
  induction rs generalizing before rest n g with
  | nil =>
    rw [groups, Bre.ends, List.mem_singleton, Prod.mk.injEq]
    constructor
    · rintro ⟨he, hg⟩
      exact ⟨[], rest, rfl, he, hg, .nil⟩
    · rintro ⟨ws, after, -, he, hg, hsplit⟩
      cases hsplit
      exact ⟨he, hg⟩
  | cons r rs ih =>
    have htail : ∀ r ∈ rs, Simple r := fun r hr => hrs r (List.mem_cons_of_mem _ hr)
    have hstep : ∀ {w after : List Char} {g : Groups}, rest = w ++ after →
        ((e, g') ∈ (groups (n + 1) rs).ends input (before.length + w.length) g ↔
          ∃ ws after', after = ws.flatten ++ after' ∧
            e = before.length + w.length + ws.flatten.length ∧
            g' = marks (n + 1) (before.length + w.length) ws g ∧
            Splits rs (before ++ w) ws after') := by
      intro w after g hrest
      rw [← List.length_append]
      apply ih htail
      rw [← hinput, hrest, List.append_assoc]
    rw [groups, Bre.ends, List.mem_flatMap]
    constructor
    · rintro ⟨⟨e1, g1⟩, hfirst, hsecond⟩
      rw [Bre.ends, List.mem_map] at hfirst
      obtain ⟨⟨e2, g2⟩, hmem, heq⟩ := hfirst
      cases heq
      obtain ⟨rfl, w, after, hw, rfl, hmatch⟩ :=
        (mem_ends (hrs r List.mem_cons_self) hinput).mp (mem_longestFirst.mp hmem)
      obtain ⟨ws, after', rfl, he, hg, hsplit⟩ := (hstep hw).mp hsecond
      refine ⟨w :: ws, after', ?_, ?_, hg, .cons hmatch hsplit⟩
      · rw [hw, List.flatten_cons, List.append_assoc]
      · rw [he, List.flatten_cons, List.length_append, Nat.add_assoc]
    · rintro ⟨ws, after, hrest, he, hg, hsplit⟩
      cases hsplit with
      | @cons _ _ _ w _ ws hmatch hsplit =>
        rw [List.flatten_cons, List.append_assoc] at hrest
        refine ⟨(before.length + w.length, (n, before.length, before.length + w.length) :: g), ?_,
          (hstep hrest).mpr ⟨ws, after, rfl, ?_, hg, hsplit⟩⟩
        · rw [Bre.ends, List.mem_map]
          refine ⟨(before.length + w.length, g), ?_, rfl⟩
          rw [mem_longestFirst, mem_ends (hrs r List.mem_cons_self) hinput]
          exact ⟨rfl, w, _, hrest, rfl, hmatch⟩
        · rw [he, List.flatten_cons, List.length_append, Nat.add_assoc]

/-- A first text that leads to the wanted end is no longer than the one that is found. -/
theorem first_le {stop : Nat} {w w' after' : List Char} {done todo : List End} {f : End}
    (hrs : ∀ q ∈ r :: rs, Simple q) (hinput : before ++ rest = input)
    (hends : (longestFirst (r.ends input before.length g)).map
      (fun e => (e.1, (n, before.length, e.1) :: e.2)) = done ++ f :: todo)
    (hf : f.1 = before.length + w.length)
    (hnone : ∀ e ∈ done, ∀ e' ∈ (groups (n + 1) rs).ends input e.1 e.2, e'.1 ≠ stop)
    (hrest : rest = w' ++ (ws'.flatten ++ after')) (hmatch : Matches r before w' (ws'.flatten ++ after'))
    (hsplit : Splits rs (before ++ w') ws' after')
    (hstop : stop = (before ++ w').length + ws'.flatten.length) : w'.length ≤ w.length := by
  have hmem : ((before ++ w').length, (n, before.length, (before ++ w').length) :: g) ∈
      (longestFirst (r.ends input before.length g)).map
        fun e => (e.1, (n, before.length, e.1) :: e.2) := by
    apply List.mem_map.mpr
    refine ⟨((before ++ w').length, g), ?_, rfl⟩
    rw [mem_longestFirst, mem_ends (hrs r List.mem_cons_self) hinput]
    exact ⟨rfl, w', _, hrest, List.length_append, hmatch⟩
  have hsorted : ((longestFirst (r.ends input before.length g)).map
      fun e => (e.1, (n, before.length, e.1) :: e.2)).Pairwise fun e f => f.1 ≤ e.1 :=
    List.Pairwise.map _ (fun _ _ h => h) (List.pairwise_insertionSort _ _)
  rw [hends] at hmem hsorted
  obtain hdone | hmem := List.mem_append.mp hmem
  · have hend : (stop, marks (n + 1) (before ++ w').length ws'
        ((n, before.length, (before ++ w').length) :: g)) ∈
        (groups (n + 1) rs).ends input (before ++ w').length
          ((n, before.length, (before ++ w').length) :: g) := by
      rw [mem_ends_groups (fun r hr => hrs r (List.mem_cons_of_mem _ hr))
        (by rw [List.append_assoc, ← hrest, hinput])]
      exact ⟨ws', after', rfl, hstop, rfl, hsplit⟩
    exact absurd rfl (hnone _ hdone _ hend)
  · have htail := (List.pairwise_append.mp hsorted).2.1
    obtain heq | htodo := List.mem_cons.mp hmem
    · have hlength := congrArg Prod.fst heq
      rw [hf, List.length_append] at hlength
      exact Nat.le_of_eq (Nat.add_left_cancel hlength)
    · have hle := (List.pairwise_cons.mp htail).1 _ htodo
      rw [hf, List.length_append] at hle
      exact Nat.le_of_add_le_add_left hle

/-- Of the splits with one end the first in the list is the greatest. -/
theorem find_ends_groups (hrs : ∀ r ∈ rs, Simple r) (hinput : before ++ rest = input)
    {stop : Nat} {f : End}
    (hfind : ((groups n rs).ends input before.length g).find? (fun e => e.1 = stop) = some f) :
    ∃ ws after, rest = ws.flatten ++ after ∧ stop = before.length + ws.flatten.length ∧
      f = (stop, marks n before.length ws g) ∧ Splits rs before ws after ∧
      ∀ ws', rest = ws'.flatten ++ after → Splits rs before ws' after →
        NoLonger ws' ws := by
  induction rs generalizing before rest n g with
  | nil =>
    rw [groups, Bre.ends] at hfind
    obtain ⟨hstop, hmem⟩ := And.intro (List.find?_some hfind) (List.mem_of_find?_eq_some hfind)
    cases List.mem_singleton.mp hmem
    obtain rfl : before.length = stop := by simpa using hstop
    refine ⟨[], rest, rfl, rfl, rfl, .nil, ?_⟩
    intro ws' _ hsplit
    cases hsplit
    trivial
  | cons r rs ih =>
    have htail : ∀ r ∈ rs, Simple r := fun r hr => hrs r (List.mem_cons_of_mem _ hr)
    rw [groups, Bre.ends, List.find?_flatMap, List.findSome?_eq_some_iff] at hfind
    obtain ⟨done, ⟨e1, g1⟩, todo, hends, hfind, hnone⟩ := hfind
    rw [Bre.ends] at hends
    have hfirst : (e1, g1) ∈ (longestFirst (r.ends input before.length g)).map
        fun e => (e.1, (n, before.length, e.1) :: e.2) := hends ▸ by simp
    obtain ⟨⟨e2, g2⟩, hmem, heq⟩ := List.mem_map.mp hfirst
    cases heq
    obtain ⟨rfl, w, after, hw, rfl, hmatch⟩ :=
      (mem_ends (hrs r List.mem_cons_self) hinput).mp (mem_longestFirst.mp hmem)
    dsimp only at hfind hends
    rw [← List.length_append] at hfind
    obtain ⟨ws, after', rfl, hstop, hf, hsplit, hgreatest⟩ :=
      ih htail (by rw [← hinput, hw, List.append_assoc]) hfind
    refine ⟨w :: ws, after', ?_, ?_, ?_, .cons hmatch hsplit, ?_⟩
    · rw [hw, List.flatten_cons, List.append_assoc]
    · rw [hstop, List.length_append, List.flatten_cons, List.length_append, Nat.add_assoc]
    · rw [hf, marks, List.length_append]
    intro ws' hrest hsplit'
    cases hsplit' with
    | @cons _ _ _ w' _ ws' hmatch' hsplit' =>
    rw [List.flatten_cons, List.append_assoc] at hrest
    have hle : w'.length ≤ w.length :=
      first_le hrs hinput hends rfl (by simpa using hnone) hrest hmatch' hsplit' (by
        have hlength := congrArg List.length (hw.symm.trans hrest)
        simp only [List.length_append] at hlength hstop ⊢
        omega)
    rw [NoLonger]
    obtain hlt | heq := Nat.lt_or_eq_of_le hle
    · exact .inl hlt
    · obtain ⟨rfl, htexts⟩ := List.append_inj (hrest.symm.trans hw) heq
      exact .inr ⟨heq, hgreatest ws' htexts.symm hsplit'⟩

end Ends

/-! ## The selected split -/

/-- A split that begins first, of these one that ends last, and of these the one that gives each
group in turn as much as it can. -/
structure Best (rs : List Bre) (input before : List Char) (ws : List (List Char))
    (after : List Char) : Prop where
  input_eq : input = before ++ (ws.flatten ++ after)
  splits : Splits rs before ws after
  first : ∀ before' ws' after', input = before' ++ (ws'.flatten ++ after') →
    Splits rs before' ws' after' → before.length ≤ before'.length
  longest : ∀ ws' after', ws.flatten ++ after = ws'.flatten ++ after' →
    Splits rs before ws' after' → ws'.flatten.length ≤ ws.flatten.length
  greedy : ∀ ws', ws.flatten = ws'.flatten → Splits rs before ws' after →
    NoLonger ws' ws

/-- Nothing of the input is matched. -/
def NoSplit (rs : List Bre) (input : List Char) : Prop :=
  ∀ before ws after, input = before ++ (ws.flatten ++ after) → ¬ Splits rs before ws after

section Selection
variable {rs : List Bre} {input before after : List Char} {ws : List (List Char)} {i : Nat}

/-- At an offset there are ends exactly when something is matched there. -/
theorem mem_ends_at (hrs : ∀ r ∈ rs, Simple r) (hi : i ≤ input.length) {e : End} :
    e ∈ (groups 1 rs).ends input i [] ↔ ∃ ws after, input.drop i = ws.flatten ++ after ∧
      e = (i + ws.flatten.length, marks 1 i ws []) ∧ Splits rs (input.take i) ws after := by
  have hlength : (input.take i).length = i := List.length_take_of_le hi
  have hmem := @mem_ends_groups rs input (input.take i) (input.drop i) 1 e.1 [] e.2 hrs
    (List.take_append_drop i input)
  rw [hlength] at hmem
  rw [show e = (e.1, e.2) from rfl, hmem]
  apply exists_congr
  intro ws
  apply exists_congr
  intro after
  apply and_congr_right
  intro _
  rw [Prod.mk.injEq, and_assoc]

theorem noSplit_iff (hrs : ∀ r ∈ rs, Simple r) :
    NoSplit rs input ↔ ∀ i ≤ input.length, (groups 1 rs).ends input i [] = [] := by
  constructor
  · intro hnone i hi
    apply List.eq_nil_iff_forall_not_mem.mpr
    intro e he
    obtain ⟨ws, after, hdrop, -, hsplit⟩ := (mem_ends_at hrs hi).mp he
    apply hnone (input.take i) ws after _ hsplit
    rw [← hdrop, List.take_append_drop]
  · intro hnone before ws after hinput hsplit
    have hi : before.length ≤ input.length := by
      rw [hinput, List.length_append]
      omega
    have hmem : (before.length + ws.flatten.length, marks 1 before.length ws []) ∈
        (groups 1 rs).ends input before.length [] := by
      rw [mem_ends_at hrs hi]
      refine ⟨ws, after, ?_, rfl, ?_⟩
      · rw [hinput, List.drop_left]
      · rw [hinput, List.take_left]
        exact hsplit
    rw [hnone _ hi] at hmem
    cases hmem

/-- What `regexec` selects. -/
theorem regexec_groups (hrs : ∀ r ∈ rs, Simple r) :
    (regexec (groups 1 rs) input = none ∧ NoSplit rs input) ∨
      ∃ before ws after, Best rs input before ws after ∧ regexec (groups 1 rs) input =
        some ⟨before.length, before.length + ws.flatten.length, marks 1 before.length ws []⟩ := by
  cases hexec : regexec (groups 1 rs) input with
  | none =>
    refine .inl ⟨rfl, (noSplit_iff hrs).mpr ?_⟩
    intro i hi
    have hnone := List.findSome?_eq_none_iff.mp hexec i (List.mem_range.mpr (by omega))
    rw [Option.map_eq_none_iff, List.head?_eq_none_iff] at hnone
    apply List.eq_nil_iff_forall_not_mem.mpr
    intro e he
    have hmem := mem_longestFirst.mpr he
    rw [hnone] at hmem
    cases hmem
  | some m =>
    obtain ⟨earlier, i, later, hrange, hmap, hearlier⟩ := List.findSome?_eq_some_iff.mp hexec
    obtain ⟨e, hhead, rfl⟩ := Option.map_eq_some_iff.mp hmap
    have hi : i ≤ input.length := by
      have hmem : i ∈ List.range (input.length + 1) := by
        rw [hrange]
        exact List.mem_append_right _ List.mem_cons_self
      have hlt := List.mem_range.mp hmem
      omega
    have hlength : (input.take i).length = i := List.length_take_of_le hi
    obtain ⟨hfind, hlongest⟩ := find?_of_head? hhead
    have hinput := List.take_append_drop i input
    have hfound := @find_ends_groups rs input (input.take i) (input.drop i) 1 [] hrs hinput e.1 e
    rw [hlength] at hfound
    obtain ⟨ws, after, hdrop, hstop, he, hsplit, hgreedy⟩ := hfound hfind
    rw [hdrop] at hinput hgreedy
    have hends : ∀ ws' after', ws.flatten ++ after = ws'.flatten ++ after' →
        Splits rs (input.take i) ws' after' → ws'.flatten.length ≤ ws.flatten.length := by
      intro ws' after' heq hsplit'
      have hmem : (i + ws'.flatten.length, marks 1 i ws' []) ∈ (groups 1 rs).ends input i [] :=
        (mem_ends_at hrs hi).mpr ⟨ws', after', hdrop.trans heq, rfl, hsplit'⟩
      have hle := hlongest _ hmem
      rw [hstop] at hle
      exact Nat.le_of_add_le_add_left hle
    refine .inr ⟨input.take i, ws, after, ⟨hinput.symm, hsplit, ?_, hends, ?_⟩, ?_⟩
    · -- an earlier offset would have been found first
      intro before' ws' after' hinput' hsplit'
      rw [hlength]
      by_contra hlt
      have hearly : before'.length ∈ earlier := by
        have hmem : before'.length ∈ List.range (input.length + 1) :=
          List.mem_range.mpr (by omega)
        rw [hrange] at hmem
        obtain hmem | hmem := List.mem_append.mp hmem
        · exact hmem
        · have hsorted := List.pairwise_lt_range (n := input.length + 1)
          rw [hrange] at hsorted
          obtain heq | hmem := List.mem_cons.mp hmem
          · omega
          · have hgt := (List.pairwise_cons.mp (List.pairwise_append.mp hsorted).2.1).1 _ hmem
            omega
      have hnone := hearlier _ hearly
      rw [Option.map_eq_none_iff, List.head?_eq_none_iff] at hnone
      have hmem : (before'.length + ws'.flatten.length, marks 1 before'.length ws' []) ∈
          (groups 1 rs).ends input before'.length [] := by
        rw [mem_ends_at hrs (by omega)]
        refine ⟨ws', after', ?_, rfl, ?_⟩
        · rw [hinput', List.drop_left]
        · rw [hinput', List.take_left]
          exact hsplit'
      rw [← mem_longestFirst, hnone] at hmem
      cases hmem
    · intro ws' heq hsplit'
      apply hgreedy ws' _ hsplit'
      rw [heq]
    · rw [hlength, he, hstop]

/-- There is one such split. -/
theorem Best.unique {before' after' : List Char} {ws' : List (List Char)}
    (h : Best rs input before ws after) (h' : Best rs input before' ws' after') :
    before = before' ∧ ws = ws' ∧ after = after' := by
  have hinput := h.input_eq.symm.trans h'.input_eq
  have hlength := Nat.le_antisymm (h.first _ _ _ h'.input_eq h'.splits)
    (h'.first _ _ _ h.input_eq h.splits)
  obtain ⟨rfl, hrest⟩ := List.append_inj hinput hlength
  have hends := Nat.le_antisymm (h'.longest _ _ hrest.symm h.splits)
    (h.longest _ _ hrest h'.splits)
  obtain ⟨htexts, rfl⟩ := List.append_inj hrest hends
  exact ⟨rfl, (h'.greedy _ htexts.symm h.splits).antisymm (h.greedy _ htexts h'.splits) htexts, rfl⟩

theorem Best.exec (hrs : ∀ r ∈ rs, Simple r) (h : Best rs input before ws after) :
    regexec (groups 1 rs) input =
      some ⟨before.length, before.length + ws.flatten.length, marks 1 before.length ws []⟩ := by
  obtain ⟨-, hnone⟩ | ⟨before', ws', after', hbest, hexec⟩ := @regexec_groups rs input hrs
  · exact absurd h.splits (hnone _ _ _ h.input_eq)
  · obtain ⟨rfl, rfl, rfl⟩ := h.unique hbest
    exact hexec

end Selection

/-! ## The texts of the groups -/

section Texts
variable {n i k : Nat} {g : Groups} {us ws vs : List (List Char)} {w : List Char}

theorem lookup_marks_lt (hk : k < n) : (marks n i ws g).lookup k = g.lookup k := by
  induction ws generalizing n i g with
  | nil => rfl
  | cons w ws ih =>
    have hne : (k == n) = false := by
      rw [beq_eq_false_iff_ne]
      omega
    rw [marks, ih (Nat.lt_succ_of_lt hk), List.lookup_cons, hne]

/-- A group reaches from the end of the texts before it to the end of its own. -/
theorem lookup_marks : (marks n i (us ++ w :: vs) g).lookup (n + us.length) =
    some (i + us.flatten.length, i + us.flatten.length + w.length) := by
  induction us generalizing n i g with
  | nil =>
    rw [List.nil_append, List.length_nil, Nat.add_zero, marks, lookup_marks_lt (Nat.lt_succ_self n),
      List.lookup_cons_self]
    rfl
  | cons u us ih =>
    have hindex : n + (u :: us).length = n + 1 + us.length := by
      rw [List.length_cons]
      omega
    rw [List.cons_append, marks, hindex, ih, List.flatten_cons, List.length_append, Nat.add_assoc]

theorem lookup_marks_ge (hk : n + ws.length ≤ k) : (marks n i ws g).lookup k = g.lookup k := by
  induction ws generalizing n i g with
  | nil => rfl
  | cons w ws ih =>
    rw [List.length_cons] at hk
    have hne : (k == n) = false := by
      rw [beq_eq_false_iff_ne]
      omega
    rw [marks, ih (by omega), List.lookup_cons, hne]

end Texts

end Zectl.Lib.RegexGroups
