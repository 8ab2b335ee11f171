import Zectl.Lib.RegexGroups
import Zectl.Lib.RegexSyntax

/-!
# A text in an expression that is not quoted

Where a name is put into a pattern as it stands its stars and brackets are read as such. With no
backslash of its own it cannot reach what is around it: brackets that it leaves open make the
whole pattern invalid, and the rest of it is one piece behind the other.
-/

namespace Zectl.Lib.RegexFragments

open Zectl.Lib.BasicRegex Zectl.Lib.RegexMatches Zectl.Lib.RegexSyntax

/-! ## Its tokens -/

/-- A backslash is there only to quote a dot. -/
def QuotesDots (w : List Char) : Prop := ∀ u v, w = u ++ '\\' :: v → v.head? = some '.'

/-- Brackets that are open in front of the text are never closed. -/
structure Unclosed (rest : List Char) : Prop where
  set : ∀ negated fresh items, lex (.set negated fresh items) rest = none
  cls : ∀ negated items kind name, lex (.cls negated items kind name) rest = none

/-- What may follow a text whose brackets must be closed before it. -/
structure Stops (rest : List Char) : Prop where
  all : Unclosed rest
  tail : Unclosed rest.tail
  head : ∀ c ∈ rest.head?, c ≠ ']' ∧ c ≠ '-' ∧ c ≠ '^'

/-- A token that is neither a group nor a reference. -/
def Inner : Token → Prop
  | .sym _ | .star | .caret | .dollar => True
  | .opening | .closing | .bar | .rep _ _ | .back _ => False

section Lexing
variable {negated fresh : Bool} {items : List Item} {kind c d : Char} {name cs w rest : List Char}
  {ts : List Token}

/-- What is read of a character outside brackets. -/
theorem lex_normal_cases (h : lex .normal (c :: cs) = some ts) :
    (∃ rest, cs = '^' :: rest ∧ lex (.set true true []) rest = some ts) ∨
    lex (.set false true []) cs = some ts ∨
    (c = '\\' ∧ ∀ d rest, cs = d :: rest → d ≠ '{' →
      ∃ us, ts = escaped d :: us ∧ lex .normal rest = some us) ∨
    ∃ us, ts = plain c :: us ∧ lex .normal cs = some us := by
  rw [lex.eq_def] at h
  dsimp only at h
  split at h
  · split at h
    · exact .inl ⟨_, rfl, h⟩
    · exact .inr (.inl h)
  split at h
  · rename_i hescape
    refine .inr (.inr (.inl ⟨hescape, ?_⟩))
    rintro d rest rfl hd
    dsimp only at h
    rw [if_neg hd] at h
    obtain ⟨us, hus, rfl⟩ := Option.map_eq_some_iff.mp h
    exact ⟨us, rfl, hus⟩
  · obtain ⟨us, hus, rfl⟩ := Option.map_eq_some_iff.mp h
    exact .inr (.inr (.inr ⟨us, rfl, hus⟩))

/-- What is read of a character between brackets. -/
theorem lex_set_cases (h : lex (.set negated fresh items) (c :: cs) = some ts) :
    (c = ']' ∧ ∃ us, ts = .sym (.set negated items) :: us ∧ lex .normal cs = some us) ∨
    (∃ kind rest, cs = kind :: rest ∧ lex (.cls negated items kind []) rest = some ts) ∨
    (∃ items', lex (.set negated false items') cs = some ts) ∨
    ∃ d rest items', cs = '-' :: d :: rest ∧ lex (.set negated false items') rest = some ts := by
  rw [lex.eq_def] at h
  dsimp only at h
  split at h
  · rename_i hclose
    obtain ⟨us, hus, rfl⟩ := Option.map_eq_some_iff.mp h
    exact .inl ⟨hclose.1, us, rfl, hus⟩
  split at h
  · cases h
  split at h
  · split at h
    · cases h
    · exact .inr (.inl ⟨_, _, rfl, h⟩)
  split at h
  · exact .inr (.inr (.inl ⟨_, h⟩))
  · split at h
    · cases h
    split at h
    · exact .inr (.inr (.inr ⟨_, _, _, rfl, h⟩))
    · cases h
  · exact .inr (.inr (.inl ⟨_, h⟩))

/-- What is read of a character in a name between brackets. -/
theorem lex_cls_cases (h : lex (.cls negated items kind name) (c :: cs) = some ts) :
    (∃ rest item, cs = ']' :: rest ∧ named kind name = some item ∧
      lex (.set negated false (items ++ [item])) rest = some ts) ∨
    lex (.cls negated items kind (name ++ [c])) cs = some ts := by
  rw [lex.eq_def] at h
  dsimp only at h
  split at h
  · split at h
    · split at h
      · cases h
      · rename_i hnamed
        exact .inl ⟨_, _, rfl, hnamed, h⟩
    · exact .inr h
  · exact .inr h

/-- Without a bracket that closes nothing is closed. -/
theorem unclosed_of_not_mem (hrest : ']' ∉ rest) : Unclosed rest := by
  induction hlength : rest.length using Nat.strong_induction_on generalizing rest with
  | _ length ih =>
    have hnone : ∀ {u v : List Char}, rest = u ++ v → u ≠ [] → Unclosed v := by
      intro u v heq hu
      have hpos := List.length_pos_iff.mpr hu
      apply ih v.length _ _ rfl
      · rw [← hlength, heq, List.length_append]
        omega
      · intro hmem
        exact hrest (heq ▸ List.mem_append_right _ hmem)
    cases rest with
    | nil =>
      constructor
      · intro negated fresh items
        rw [lex.eq_def]
      · intro negated items kind name
        rw [lex.eq_def]
    | cons c cs =>
      constructor
      · intro negated fresh items
        by_contra hne
        obtain ⟨ts, hts⟩ := Option.ne_none_iff_exists'.mp hne
        obtain ⟨rfl, -⟩ | ⟨kind, v, rfl, hcls⟩ | ⟨items', hset⟩ | ⟨d, v, items', rfl, hset⟩ :=
          lex_set_cases hts
        · exact hrest List.mem_cons_self
        · rw [(hnone (u := [c, kind]) rfl (by simp)).cls] at hcls
          cases hcls
        · rw [(hnone (u := [c]) rfl (by simp)).set] at hset
          cases hset
        · rw [(hnone (u := [c, '-', d]) rfl (by simp)).set] at hset
          cases hset
      · intro negated items kind name
        by_contra hne
        obtain ⟨ts, hts⟩ := Option.ne_none_iff_exists'.mp hne
        obtain ⟨v, item, rfl, -⟩ | hcls := lex_cls_cases hts
        · exact hrest (List.mem_cons_of_mem _ List.mem_cons_self)
        · rw [(hnone (u := [c]) rfl (by simp)).cls] at hcls
          cases hcls

theorem QuotesDots.tail (hw : QuotesDots (c :: w)) : QuotesDots w := by
  intro u v heq
  exact hw (c :: u) v (by rw [heq, List.cons_append])

theorem inner_plain (c : Char) : Inner (plain c) := by
  unfold plain
  split
  · trivial
  split
  · trivial
  split
  · trivial
  split
  · trivial
  · trivial

/-- The tokens of a text, and those of what follows it. -/
def Continues (rest : List Char) (ts : List Token) : Prop :=
  ∃ us vs, ts = us ++ vs ∧ lex .normal rest = some vs ∧ ∀ t ∈ us, Inner t

theorem Continues.cons {t : Token} (h : Continues rest ts) (ht : Inner t) :
    Continues rest (t :: ts) := by
  obtain ⟨us, vs, rfl, hvs, hus⟩ := h
  refine ⟨t :: us, vs, rfl, hvs, ?_⟩
  intro u hu
  obtain rfl | hu := List.mem_cons.mp hu
  · exact ht
  · exact hus u hu

/-- In each mode of the lexer: where the text ends it is outside brackets, or it fails. -/
theorem continues_all (hstops : Stops rest) (hw : QuotesDots w) :
    (∀ ts, lex .normal (w ++ rest) = some ts → Continues rest ts) ∧
    (∀ negated fresh items ts, lex (.set negated fresh items) (w ++ rest) = some ts →
      Continues rest ts) ∧
    ∀ negated items kind name ts, lex (.cls negated items kind name) (w ++ rest) = some ts →
      Continues rest ts := by
  induction hlength : w.length using Nat.strong_induction_on generalizing w with
  | _ length ih =>
    cases w with
    | nil =>
      refine ⟨fun ts h => ⟨[], ts, rfl, h, fun t ht => absurd ht List.not_mem_nil⟩, ?_, ?_⟩
      · intro negated fresh items ts h
        rw [List.nil_append, hstops.all.set] at h
        cases h
      · intro negated items kind name ts h
        rw [List.nil_append, hstops.all.cls] at h
        cases h
    | cons c w =>
      have hlater : ∀ v, QuotesDots v → v.length ≤ w.length → _ := fun v hv hle =>
        ih v.length (by rw [← hlength, List.length_cons]; omega) hv rfl
      have hnext := hlater w hw.tail le_rfl
      refine ⟨?_, ?_, ?_⟩
      · intro ts h
        obtain ⟨r, hr, hset⟩ | hset | ⟨rfl, hescape⟩ | ⟨us, rfl, hus⟩ := lex_normal_cases h
        · obtain ⟨rfl, hrest⟩ | ⟨v, rfl, rfl⟩ := List.append_eq_cons_iff.mp hr
          · exact absurd rfl (hstops.head '^' (by rw [hrest]; rfl)).2.2
          · exact (hlater v hw.tail.tail (by simp)).2.1 _ _ _ _ hset
        · exact hnext.2.1 _ _ _ _ hset
        · obtain ⟨v, rfl⟩ := List.head?_eq_some_iff.mp (hw [] w rfl)
          obtain ⟨us, rfl, hus⟩ := hescape '.' (v ++ rest) rfl (by decide)
          exact ((hlater v hw.tail.tail (by simp)).1 _ hus).cons trivial
        · exact (hnext.1 _ hus).cons (inner_plain c)
      · intro negated fresh items ts h
        obtain ⟨-, us, rfl, hus⟩ | ⟨kind, r, hr, hcls⟩ | ⟨items', hset⟩ | ⟨d, r, items', hr, hset⟩ :=
          lex_set_cases h
        · exact (hnext.1 _ hus).cons trivial
        · obtain ⟨rfl, hrest⟩ | ⟨v, rfl, rfl⟩ := List.append_eq_cons_iff.mp hr
          · have hnone := hstops.tail.cls negated items kind []
            rw [hrest, List.tail_cons, hcls] at hnone
            cases hnone
          · exact (hlater v hw.tail.tail (by simp)).2.2 _ _ _ _ _ hcls
        · exact hnext.2.1 _ _ _ _ hset
        · obtain ⟨rfl, hrest⟩ | ⟨v, rfl, htail⟩ := List.append_eq_cons_iff.mp hr
          · exact absurd rfl (hstops.head '-' (by rw [hrest]; rfl)).2.1
          obtain ⟨rfl, hrest⟩ | ⟨v, rfl, rfl⟩ := List.append_eq_cons_iff.mp htail.symm
          · have hnone := hstops.tail.set negated false items'
            rw [hrest, List.tail_cons, hset] at hnone
            cases hnone
          · exact (hlater v hw.tail.tail.tail (by simp; omega)).2.1 _ _ _ _ hset
      · intro negated items kind name ts h
        obtain ⟨r, item, hr, -, hset⟩ | hcls := lex_cls_cases h
        · obtain ⟨rfl, hrest⟩ | ⟨v, rfl, rfl⟩ := List.append_eq_cons_iff.mp hr
          · exact absurd rfl (hstops.head ']' (by rw [hrest]; rfl)).1
          · exact (hlater v hw.tail.tail (by simp)).2.1 _ _ _ _ hset
        · exact hnext.2.2 _ _ _ _ _ hcls

theorem continues_of_lex (hstops : Stops rest) (hw : QuotesDots w)
    (h : lex .normal (w ++ rest) = some ts) : Continues rest ts :=
  (continues_all hstops hw).1 ts h

theorem stops_of_not_mem (hrest : ']' ∉ rest) (hhead : ∀ c ∈ rest.head?, c ≠ '-' ∧ c ≠ '^') :
    Stops rest where
  all := unclosed_of_not_mem hrest
  tail := unclosed_of_not_mem fun hmem => hrest (List.mem_of_mem_tail hmem)
  head c hc := by
    refine ⟨?_, hhead c hc⟩
    rintro rfl
    exact hrest (List.mem_of_mem_head? hc)

/-- A name that is part of no name of a class, and not of one character, never ends. -/
theorem lex_cls_none (hname : ∀ v, named kind (name ++ v) = none) :
    lex (.cls negated items kind name) cs = none := by
  induction cs generalizing name with
  | nil => rw [lex.eq_def]
  | cons c cs ih =>
    by_contra hne
    obtain ⟨ts, hts⟩ := Option.ne_none_iff_exists'.mp hne
    obtain ⟨v, item, -, hnamed, -⟩ | hcls := lex_cls_cases hts
    · have hnone := hname []
      rw [List.append_nil, hnamed] at hnone
      cases hnone
    · rw [ih fun v => by rw [List.append_assoc]; exact hname _] at hcls
      cases hcls

theorem lex_cls_append {u : List Char} (hu : ']' ∉ u) (hrest : rest.head? ≠ some ']')
    (h : lex (.cls negated items kind name) (u ++ rest) = some ts) :
    lex (.cls negated items kind (name ++ u)) rest = some ts := by
  induction u generalizing name with
  | nil => rwa [List.append_nil]
  | cons c u ih =>
    obtain ⟨hc, htail⟩ : ']' ≠ c ∧ ']' ∉ u := by simpa using hu
    obtain ⟨v, item, hv, -, -⟩ | hcls := lex_cls_cases h
    · obtain ⟨-, hnil⟩ | ⟨v', rfl, -⟩ := List.append_eq_cons_iff.mp hv
      · exact absurd (by rw [hnil]; rfl) hrest
      · exact absurd List.mem_cons_self htail
    · have hnext := ih htail hcls
      rwa [List.append_assoc, List.singleton_append] at hnext

theorem named_none (hslash : '/' ∈ name) (hlong : 2 ≤ name.length) : named kind name = none := by
  have hall : classNames.all (fun n => !n.contains '/') = true := by decide +kernel
  unfold named
  split
  · rw [if_neg]
    intro hmem
    have hfree := List.all_eq_true.mp hall name hmem
    simp [hslash] at hfree
  · split
    · simp at hlong
    · rfl

/-- A range that is the wrong way round stands behind characters that no class is named with. -/
theorem unclosed_of_range {u : List Char} (hu : ∀ e ∈ u, e ≠ ']' ∧ e ≠ '-' ∧ e ≠ '[')
    (hc : c ≠ ']' ∧ c ≠ '-' ∧ c ≠ '[') (hd : d ≠ ']') (hrange : ¬ c ≤ d) (hslash : '/' ∈ u)
    (hlong : 2 ≤ u.length) : Unclosed (u ++ c :: '-' :: d :: rest) where
  set := by
    clear hslash hlong
    induction u with
    | nil =>
      intro negated fresh items
      rw [List.nil_append, lex.eq_def]
      dsimp only
      rw [if_neg fun h => hc.1 h.1, if_neg fun h => hc.2.1 h.1, if_neg fun h => hc.2.2 h.1]
      split
      · rename_i heq
        exact absurd (List.cons.inj (List.cons.inj heq).2).1 hd
      · rename_i heq
        obtain ⟨rfl, rfl⟩ := List.cons.inj (List.cons.inj heq).2
        split
        · rfl
        · rfl
      · rename_i hne
        exact absurd rfl (hne d rest)
    | cons e u ih =>
      intro negated fresh items
      obtain ⟨hclose, hdash, hopen⟩ := hu e List.mem_cons_self
      have htail : ∀ f ∈ u, f ≠ ']' ∧ f ≠ '-' ∧ f ≠ '[' :=
        fun f hf => hu f (List.mem_cons_of_mem e hf)
      rw [List.cons_append, lex_member hclose hdash hopen, ih htail]
      cases u with
      | nil => simpa using hc.2.1
      | cons f u => simpa using (htail f List.mem_cons_self).2.1
  cls := by
    intro negated items kind name
    by_contra hne
    obtain ⟨ts, hts⟩ := Option.ne_none_iff_exists'.mp hne
    have hcls := lex_cls_append (fun hmem => (hu ']' hmem).1 rfl) (by simpa using hc.1) hts
    rw [lex_cls_none] at hcls
    · cases hcls
    · intro v
      apply named_none
      · exact List.mem_append_left _ (List.mem_append_right _ hslash)
      · simp only [List.length_append]
        omega

theorem QuotesDots.cons (hw : QuotesDots w) (hc : c = '\\' → w.head? = some '.') :
    QuotesDots (c :: w) := by
  intro u v heq
  cases u with
  | nil =>
    obtain ⟨hescape, rfl⟩ := List.cons.inj heq
    exact hc hescape
  | cons e u => exact hw u v (List.cons.inj heq).2

theorem quotesDots_quoted (hname : '\\' ∉ name) : QuotesDots (quoted name) := by
  induction name with
  | nil =>
    intro u v heq
    simp [quoted] at heq
  | cons c name ih =>
    obtain ⟨hc, htail⟩ : '\\' ≠ c ∧ '\\' ∉ name := by simpa using hname
    have hrest := ih htail
    by_cases hdot : c = '.'
    · subst hdot
      exact (hrest.cons fun h => absurd h (by decide)).cons fun _ => rfl
    · rw [quoted, List.flatMap_cons, if_neg hdot]
      exact hrest.cons fun h => absurd h.symm hc

end Lexing

/-! ## Its pieces -/

/-- Pieces one behind the other, the last one first, and what follows them. -/
def behind (ps : List Bre) (r : Bre) : Bre := ps.foldl (fun r p => .seq p r) r

section Parsing
variable {outer : List (Open × Nat)} {bs fs base : List Bre} {n : Nat} {us vs : List Token}
  {f r : Bre} {before w after : List Char}

theorem parse_star (hf : f ≠ .bol) : parse outer ⟨bs, f :: base⟩ n (.star :: vs) =
    parse outer ⟨bs, .rep f 0 none :: base⟩ n vs := by
  rw [parse]
  split
  · rename_i hnil
    cases hnil
  · rename_i hbol
    exact absurd (List.cons.inj hbol).1 hf
  · rename_i hcons
    obtain ⟨rfl, rfl⟩ := List.cons.inj hcons
    rfl

theorem parse_dollar {t : Token} (ht : Inner t) : parse outer ⟨bs, base⟩ n (.dollar :: t :: vs) =
    parse outer ⟨bs, .sym (.char '$') :: base⟩ n (t :: vs) := by
  cases t with
  | sym | star | caret | dollar => rw [parse.eq_def]; rfl
  | opening | closing | bar | rep | back => exact ht.elim

/-- Behind a piece without anchors such tokens are pieces without anchors: a star never repeats
what is in front of them all. -/
theorem parse_inner (hus : ∀ t ∈ us, Inner t) (hvs : ∃ t ∈ vs.head?, Inner t)
    (hfree : ∀ f ∈ fs, Free f) (hne : fs ≠ []) : ∃ fs', (∀ f ∈ fs', Free f) ∧
      parse outer ⟨bs, fs ++ base⟩ n (us ++ vs) = parse outer ⟨bs, fs' ++ base⟩ n vs := by
  induction us generalizing fs with
  | nil => exact ⟨fs, hfree, rfl⟩
  | cons t us ih =>
    have htail : ∀ t ∈ us, Inner t := fun u hu => hus u (List.mem_cons_of_mem t hu)
    have hpush : ∀ k, ∃ fs', (∀ f ∈ fs', Free f) ∧
        parse outer ⟨bs, .sym k :: (fs ++ base)⟩ n (us ++ vs) =
          parse outer ⟨bs, fs' ++ base⟩ n vs := by
      intro k
      refine @ih (.sym k :: fs) htail ?_ ?_
      · intro g hg
        obtain rfl | hg := List.mem_cons.mp hg
        · trivial
        · exact hfree g hg
      · exact List.cons_ne_nil _ _
    obtain ⟨f, fs, rfl⟩ := List.exists_cons_of_ne_nil hne
    have hf : Free f := hfree f List.mem_cons_self
    cases t with
    | sym k => exact hpush k
    | caret => exact hpush (.char '^')
    | dollar =>
      obtain ⟨u, rest, hnext, hu⟩ : ∃ u rest, us ++ vs = u :: rest ∧ Inner u := by
        cases us with
        | nil =>
          obtain ⟨u, hu, hinner⟩ := hvs
          obtain ⟨rest, rfl⟩ := List.head?_eq_some_iff.mp hu
          exact ⟨u, rest, rfl, hinner⟩
        | cons u us => exact ⟨u, us ++ vs, rfl, htail u List.mem_cons_self⟩
      have hdollar := hpush (.char '$')
      rw [hnext] at hdollar
      rw [List.cons_append, List.cons_append, hnext, parse_dollar hu]
      exact hdollar
    | star =>
      have hbol : f ≠ .bol := by
        rintro rfl
        exact hf
      rw [List.cons_append, List.cons_append, parse_star hbol]
      refine @ih (.rep f 0 none :: fs) htail ?_ ?_
      · intro g hg
        obtain rfl | hg := List.mem_cons.mp hg
        · exact ⟨hf, rfl, rfl⟩
        · exact hfree g (List.mem_cons_of_mem f hg)
      · exact List.cons_ne_nil _ _
    | opening | closing | bar | rep | back => exact (hus _ List.mem_cons_self).elim

theorem free_behind (hfree : ∀ f ∈ fs, Free f) (hr : Free r) : Free (behind fs r) := by
  induction fs generalizing r with
  | nil => exact hr
  | cons f fs ih =>
    exact ih (fun g hg => hfree g (List.mem_cons_of_mem f hg)) ⟨hfree f List.mem_cons_self, hr⟩

theorem simple_behind (hfree : ∀ f ∈ fs, Free f) (hr : Simple r) : Simple (behind fs r) := by
  induction fs generalizing r with
  | nil => exact hr
  | cons f fs ih =>
    exact ih (fun g hg => hfree g (List.mem_cons_of_mem f hg))
      ⟨(hfree f List.mem_cons_self).simple, hr⟩

theorem matches_behind_iff : Matches (behind fs r) before w after ↔ ∃ u v, w = u ++ v ∧
    Matches (behind fs .empty) before u (v ++ after) ∧ Matches r (before ++ u) v after := by
  induction fs generalizing r w after with
  | nil =>
    constructor
    · intro h
      refine ⟨[], w, rfl, .empty, ?_⟩
      rwa [List.append_nil]
    · intro h
      obtain ⟨u, v, rfl, hu, hv⟩ := h
      obtain rfl := matches_empty_iff.mp hu
      rwa [List.append_nil] at hv
  | cons f fs ih =>
    show Matches (behind fs (.seq f r)) before w after ↔ ∃ u v, w = u ++ v ∧
      Matches (behind fs (.seq f .empty)) before u (v ++ after) ∧ Matches r (before ++ u) v after
    rw [ih]
    constructor
    · intro h
      obtain ⟨u, v, rfl, hu, hv⟩ := h
      obtain ⟨x, y, rfl, hx, hy⟩ := matches_seq_iff.mp hv
      refine ⟨u ++ x, y, (List.append_assoc u x y).symm, ?_, ?_⟩
      · rw [ih]
        refine ⟨u, x, rfl, ?_, ?_⟩
        · rwa [List.append_assoc] at hu
        · apply matches_seq_iff.mpr
          exact ⟨x, [], (List.append_nil x).symm, hx, .empty⟩
      · rwa [List.append_assoc] at hy
    · intro h
      obtain ⟨u, v, rfl, hu, hv⟩ := h
      obtain ⟨x, y, rfl, hx, hy⟩ := ih.mp hu
      obtain ⟨z, e, rfl, hz, he⟩ := matches_seq_iff.mp hy
      obtain rfl := matches_empty_iff.mp he
      rw [List.append_nil] at hx hv ⊢
      refine ⟨x, z ++ v, List.append_assoc x z v, ?_, ?_⟩
      · rwa [List.append_assoc]
      · exact .seq hz (by rwa [List.append_assoc])

end Parsing

end Zectl.Lib.RegexFragments
