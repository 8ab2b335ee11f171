import Zectl.Util.Replace

/-!
# What the replacement of groups interprets

The scan goes on with the last character of the text it has put in. Where that text is empty
it goes back to the character before it, and where that character is a backslash, it may make
a reference with a digit of the template.
-/

namespace Zectl.Util.SubexprReplace

open Zectl.Lib.BasicRegex Zectl.Util.CString Zectl.Util.Replace Zectl.Zfs.System

/-- The digits of references. -/
abbrev IsRef (c : Char) : Prop := '0' < c ∧ c ≤ '9'

/-! ## Templates -/

/-- A reference to a group, or a character that is kept. -/
inductive Piece where
  | ref (digit : Char)
  | char (c : Char)
  deriving DecidableEq, Repr

def pieces : CStr → List Piece
  | [] => []
  | '\\' :: d :: rest =>
    if IsRef d then .ref d :: pieces rest else .char '\\' :: pieces (d :: rest)
  | c :: rest => .char c :: pieces rest

/-- The text of a group of the match. -/
def groupText (pmatch : Nat → Option (Nat × Nat)) (input : CStr) (digit : Char) : CStr :=
  match pmatch (digit.toNat - asciiOffset) with
  | none => []
  | some (startOffset, endOffset) => (input.drop startOffset).take (endOffset - startOffset)

def Piece.text (group : Char → CStr) : Piece → CStr
  | .ref d => group d
  | .char c => [c]

def Piece.digit? : Piece → Option Char
  | .ref d => some d
  | .char _ => none

/-- The template with the text of the groups. -/
def substitute (group : Char → CStr) (template : CStr) : CStr :=
  (pieces template).flatMap (Piece.text group)

/-- The references of a template, in order. -/
def references (template : CStr) : List Char := (pieces template).filterMap Piece.digit?

/-- The output before a reference with its text is not empty, and it does not end in a backslash
that a digit of the template follows. -/
def Settled (done : CStr) (q : List Piece) : Prop :=
  done ≠ [] ∧ (done.getLast? = some '\\' → ∀ c, q.head? = some (.char c) → ¬ IsRef c)

/-- This holds at every reference. -/
def Clean (group : Char → CStr) (before : CStr) (ps : List Piece) : Prop :=
  ∀ p d q, ps = p ++ .ref d :: q →
    Settled (before ++ p.flatMap (Piece.text group) ++ group d) q

/-! ## The loop with what it interprets -/

/-- `replaceSubexprs` with the digits of the pairs that it replaces. -/
def interpretSubexprs (pmatch : Nat → Option (Nat × Nat)) (input : CStr) (outputBuflen : Nat) :
    Nat → CStr → CStr → List Char → Option (LibzeError × CStr × List Char)
  | 0, before, rest, seen => some (.success, before ++ rest, seen)
  | n + 1, before, rest, seen =>
    match rest with
    | [] => some (.success, before, seen)
    | '\\' :: next :: rest =>
      if IsRef next then
        match pmatch (next.toNat - asciiOffset) with
        | none => some (.unknown, before ++ '\\' :: next :: rest, seen)
        | some (startOffset, endOffset) =>
          let len := endOffset - startOffset
          if outputBuflen < (before ++ '\\' :: next :: rest).length + len - 1 then
            some (.maxpathlen, before ++ '\\' :: next :: rest, seen)
          else
            let done := before ++ (input.drop startOffset).take len
            match done.getLast? with
            | none => none
            | some c =>
              interpretSubexprs pmatch input outputBuflen n done.dropLast (c :: rest) (seen ++ [next])
      else interpretSubexprs pmatch input outputBuflen n (before ++ ['\\']) (next :: rest) seen
    | c :: rest => interpretSubexprs pmatch input outputBuflen n (before ++ [c]) rest seen

/-- The pairs that `libze_util_regex_subexpr_replace` replaces. -/
def interpreted (re : Bre) (replaceBuflen : Nat) (replace input : CStr) (outputBuflen : Nat) :
    Option (List Char) :=
  match regexec re input with
  | none => some []
  | some m =>
    let output := (strlcpy replace replaceBuflen).2
    (interpretSubexprs m.group input outputBuflen output.length [] output []).map fun r => r.2.2

section Loop
variable {pmatch : Nat → Option (Nat × Nat)} {input before rest : CStr} {outputBuflen n : Nat}
  {seen : List Char} {c d : Char} {ps q : List Piece} {group : Char → CStr}

/-- A character that begins no reference. -/
def Plain (c : Char) (rest : CStr) : Prop := c = '\\' → ∀ d ∈ rest.head?, ¬ IsRef d

theorem template_cases (template : CStr) :
    template = [] ∨ (∃ d rest, IsRef d ∧ template = '\\' :: d :: rest) ∨
      ∃ c rest, Plain c rest ∧ template = c :: rest := by
  cases template with
  | nil => exact .inl rfl
  | cons c rest =>
    by_cases hplain : Plain c rest
    · exact .inr (.inr ⟨c, rest, hplain, rfl⟩)
    · obtain ⟨hc, hd⟩ := Classical.not_imp.mp hplain
      cases rest with
      | nil => simp at hd
      | cons d rest =>
        simp only [List.head?_cons, Option.mem_def, Option.some.injEq, forall_eq', not_not] at hd
        exact .inr (.inl ⟨d, rest, hd, by rw [hc]⟩)

theorem pieces_ref (hd : IsRef d) : pieces ('\\' :: d :: rest) = .ref d :: pieces rest := by
  rw [pieces, if_pos hd]

theorem pieces_plain (hplain : Plain c rest) : pieces (c :: rest) = .char c :: pieces rest := by
  rw [pieces.eq_def]
  split
  · rename_i heq
    cases heq
  · rename_i heq
    cases heq
    rw [if_neg (hplain rfl _ rfl)]
  · rename_i heq
    cases heq
    rfl

theorem references_ref (hd : IsRef d) :
    references ('\\' :: d :: rest) = d :: references rest := by
  rw [references, pieces_ref hd]
  rfl

theorem references_plain (hplain : Plain c rest) : references (c :: rest) = references rest := by
  rw [references, pieces_plain hplain]
  rfl

theorem substitute_ref (hd : IsRef d) :
    substitute group ('\\' :: d :: rest) = group d ++ substitute group rest := by
  rw [substitute, pieces_ref hd]
  rfl

theorem substitute_plain (hplain : Plain c rest) :
    substitute group (c :: rest) = c :: substitute group rest := by
  rw [substitute, pieces_plain hplain]
  rfl

theorem plain_of_isRef (hc : IsRef c) : Plain c rest := by
  rintro rfl
  exact absurd hc (by decide)

/-- A backslash that a digit follows. -/
theorem exists_of_not_plain (hplain : ¬ Plain c rest) :
    ∃ d rest', IsRef d ∧ c = '\\' ∧ rest = d :: rest' := by
  obtain hnil | ⟨d, rest', hd, heq⟩ | ⟨e, rest', hplain', heq⟩ := template_cases (c :: rest)
  · cases hnil
  · obtain ⟨rfl, rfl⟩ := List.cons.inj heq
    exact ⟨d, rest', hd, rfl, rfl⟩
  · obtain ⟨rfl, rfl⟩ := List.cons.inj heq
    exact absurd hplain' hplain

theorem interpret_plain (hplain : Plain c rest) :
    interpretSubexprs pmatch input outputBuflen (n + 1) before (c :: rest) seen =
      interpretSubexprs pmatch input outputBuflen n (before ++ [c]) rest seen := by
  rw [interpretSubexprs.eq_def]
  dsimp only
  split
  · rename_i heq
    cases heq
  · rename_i heq
    cases heq
    rw [if_neg (hplain rfl _ rfl)]
  · rename_i heq
    cases heq
    rfl

theorem replace_plain (hplain : Plain c rest) :
    replaceSubexprs pmatch input outputBuflen (n + 1) before (c :: rest) =
      replaceSubexprs pmatch input outputBuflen n (before ++ [c]) rest := by
  rw [replaceSubexprs.eq_def]
  dsimp only
  split
  · rename_i heq
    cases heq
  · rename_i heq
    cases heq
    rw [if_neg (hplain rfl _ rfl)]
  · rename_i heq
    cases heq
    rfl

/-- What the loop does with a reference. -/
theorem interpret_ref (hd : IsRef d) :
    (∃ ret out, ret ≠ .success ∧
      interpretSubexprs pmatch input outputBuflen (n + 1) before ('\\' :: d :: rest) seen =
        some (ret, out, seen)) ∨
    interpretSubexprs pmatch input outputBuflen (n + 1) before ('\\' :: d :: rest) seen =
      match (before ++ groupText pmatch input d).getLast? with
      | none => none
      | some c => interpretSubexprs pmatch input outputBuflen n
          (before ++ groupText pmatch input d).dropLast (c :: rest) (seen ++ [d]) := by
  rw [interpretSubexprs, if_pos hd, groupText]
  cases pmatch (d.toNat - asciiOffset) with
  | none => exact .inl ⟨.unknown, _, LibzeError.noConfusion, rfl⟩
  | some span =>
    obtain ⟨startOffset, endOffset⟩ := span
    dsimp only
    split
    · exact .inl ⟨.maxpathlen, _, LibzeError.noConfusion, rfl⟩
    · exact .inr rfl

/-- Without what it records the loop is that of the replacement. -/
theorem interpretSubexprs_erase (n : Nat) (before rest : CStr) (seen : List Char) :
    (interpretSubexprs pmatch input outputBuflen n before rest seen).map
      (fun r => (r.1, r.2.1)) = replaceSubexprs pmatch input outputBuflen n before rest := by
  induction n generalizing before rest seen with
  | zero => rfl
  | succ n ih =>
    obtain rfl | ⟨d, rest, hd, rfl⟩ | ⟨c, rest, hplain, rfl⟩ := template_cases rest
    · rfl
    · rw [interpretSubexprs, replaceSubexprs, if_pos hd, if_pos hd]
      cases pmatch (d.toNat - asciiOffset) with
      | none => rfl
      | some span =>
        obtain ⟨startOffset, endOffset⟩ := span
        dsimp only
        split
        · rfl
        · cases (before ++ (input.drop startOffset).take (endOffset - startOffset)).getLast? with
          | none => rfl
          | some c => exact ih _ _ _
    · rw [interpret_plain hplain, replace_plain hplain]
      exact ih _ _ _

theorem clean_cons_iff (x : Piece) :
    Clean group before (x :: q) ↔ (∀ d, x = .ref d → Settled (before ++ group d) q) ∧
      Clean group (before ++ x.text group) q := by
  constructor
  · intro hclean
    constructor
    · rintro d rfl
      simpa using hclean [] d q rfl
    · rintro p d q' rfl
      simpa using hclean (x :: p) d q' rfl
  · rintro ⟨hhead, htail⟩ p d q' heq
    cases p with
    | nil =>
      obtain ⟨hx, rfl⟩ := List.cons.inj heq
      simpa using hhead d hx
    | cons y p =>
      obtain ⟨rfl, hq⟩ := List.cons.inj heq
      simpa using htail p d q' hq

theorem head_pieces (hc : IsRef c) : (pieces rest).head? = some (.char c) ↔ rest.head? = some c := by
  obtain rfl | ⟨d, rest, hd, rfl⟩ | ⟨e, rest, hplain, rfl⟩ := template_cases rest
  · simp [pieces]
  · rw [pieces_ref hd]
    apply iff_of_false
    · simp
    · intro heq
      obtain rfl : '\\' = c := by simpa using heq
      exact absurd hc (by decide)
  · rw [pieces_plain hplain]
    simp

/-- Every reference of the template is replaced. -/
theorem references_le (henough : rest.length ≤ n) {out : CStr} {log : List Char}
    (hrun : interpretSubexprs pmatch input outputBuflen n before rest seen =
      some (.success, out, log)) : seen.length + (references rest).length ≤ log.length := by
  induction n generalizing before rest seen with
  | zero =>
    obtain rfl : rest = [] := List.length_eq_zero_iff.mp (by omega)
    cases hrun
    simp [references, pieces]
  | succ n ih =>
    obtain rfl | ⟨d, rest, hd, rfl⟩ | ⟨c, rest, hplain, rfl⟩ := template_cases rest
    · cases hrun
      simp [references, pieces]
    · simp only [List.length_cons] at henough
      obtain ⟨ret, out', hret, hfail⟩ | hstep := @interpret_ref pmatch input before rest
        outputBuflen n seen d hd
      · rw [hfail] at hrun
        cases hrun
        exact absurd rfl hret
      rw [hstep] at hrun
      cases hlast : (before ++ groupText pmatch input d).getLast? with
      | none =>
        rw [hlast] at hrun
        cases hrun
      | some c =>
        rw [hlast] at hrun
        have hle := ih (by simp only [List.length_cons]; omega) hrun
        have hcons : (references rest).length ≤ (references (c :: rest)).length := by
          by_cases hplain : Plain c rest
          · rw [references_plain hplain]
          · obtain ⟨e, rest', he, rfl, rfl⟩ := exists_of_not_plain hplain
            rw [references_ref he, references_plain (plain_of_isRef he), List.length_cons]
            omega
        rw [List.length_append, List.length_singleton] at hle
        rw [references_ref hd, List.length_cons]
        omega
    · rw [interpret_plain hplain] at hrun
      have hle := ih (by simpa using henough) hrun
      rw [references_plain hplain]
      exact hle

/-- Where every reference is settled, the loop fails or makes the substitution. -/
theorem interpret_clean (henough : rest.length ≤ n)
    (hclean : Clean (groupText pmatch input) before (pieces rest)) :
    (∃ ret out log, ret ≠ .success ∧
      interpretSubexprs pmatch input outputBuflen n before rest seen = some (ret, out, log)) ∨
    interpretSubexprs pmatch input outputBuflen n before rest seen =
      some (.success, before ++ substitute (groupText pmatch input) rest,
        seen ++ references rest) := by
  induction hlength : rest.length using Nat.strong_induction_on generalizing n before rest seen with
  | _ length ih =>
    obtain rfl | ⟨d, rest, hd, rfl⟩ | ⟨c, rest, hplain, rfl⟩ := template_cases rest
    · apply Or.inr
      cases n <;> simp [interpretSubexprs, substitute, references, pieces]
    · obtain ⟨m, rfl⟩ : ∃ m, n = m + 2 := ⟨n - 2, by simp at henough; omega⟩
      rw [pieces_ref hd, clean_cons_iff] at hclean
      obtain ⟨hsettled, hclean⟩ := hclean
      obtain ⟨hne, hlast⟩ := hsettled d rfl
      obtain ⟨ret, out, hret, hfail⟩ | hstep := @interpret_ref pmatch input before rest
        outputBuflen (m + 1) seen d hd
      · exact .inl ⟨ret, out, seen, hret, hfail⟩
      -- the last character of the output is passed once more
      have hagain : Plain ((before ++ groupText pmatch input d).getLast hne) rest := by
        intro hc e he hdigit
        apply hlast _ e _ hdigit
        · rw [List.getLast?_eq_some_getLast hne, hc]
        · exact (head_pieces hdigit).mpr he
      rw [List.getLast?_eq_some_getLast hne] at hstep
      dsimp only at hstep
      rw [interpret_plain hagain, List.dropLast_append_getLast hne] at hstep
      rw [hstep, substitute_ref hd, references_ref hd]
      simpa using @ih rest.length (by simp at hlength; omega)
        (before ++ groupText pmatch input d) rest m (seen ++ [d])
        (by simp at henough; omega) hclean rfl
    · obtain ⟨m, rfl⟩ : ∃ m, n = m + 1 := ⟨n - 1, by simp at henough; omega⟩
      rw [pieces_plain hplain, clean_cons_iff] at hclean
      rw [interpret_plain hplain, substitute_plain hplain, references_plain hplain]
      simpa using @ih rest.length (by simp at hlength; omega) (before ++ [c]) rest m seen
        (by simpa using henough) hclean.2 rfl

/-- Where one is not, the loop fails, reads before the output, or replaces more than the
references. -/
theorem interpret_unclean (henough : rest.length ≤ n)
    (hclean : ¬ Clean (groupText pmatch input) before (pieces rest)) :
    (∃ ret out log, ret ≠ .success ∧
      interpretSubexprs pmatch input outputBuflen n before rest seen = some (ret, out, log)) ∨
    interpretSubexprs pmatch input outputBuflen n before rest seen = none ∨
    ∃ out log, interpretSubexprs pmatch input outputBuflen n before rest seen =
        some (.success, out, log) ∧ seen.length + (references rest).length < log.length := by
  induction hlength : rest.length using Nat.strong_induction_on generalizing n before rest seen with
  | _ length ih =>
    obtain rfl | ⟨d, rest, hd, rfl⟩ | ⟨c, rest, hplain, rfl⟩ := template_cases rest
    · apply absurd _ hclean
      intro p d q heq
      simp [pieces] at heq
    · obtain ⟨m, rfl⟩ : ∃ m, n = m + 2 := ⟨n - 2, by simp at henough; omega⟩
      obtain ⟨ret, out, hret, hfail⟩ | hstep := @interpret_ref pmatch input before rest
        outputBuflen (m + 1) seen d hd
      · exact .inl ⟨ret, out, seen, hret, hfail⟩
      by_cases hne : before ++ groupText pmatch input d = []
      · rw [hne] at hstep
        exact .inr (.inl hstep)
      rw [List.getLast?_eq_some_getLast hne] at hstep
      dsimp only at hstep
      by_cases hagain : Plain ((before ++ groupText pmatch input d).getLast hne) rest
      · have hrest : ¬ Clean (groupText pmatch input) (before ++ groupText pmatch input d)
            (pieces rest) := by
          intro hrest
          apply hclean
          rw [pieces_ref hd, clean_cons_iff]
          refine ⟨?_, hrest⟩
          rintro e heq
          cases heq
          refine ⟨hne, fun hlast f hf hdigit => ?_⟩
          rw [List.getLast?_eq_some_getLast hne] at hlast
          exact hagain (Option.some.inj hlast) f ((head_pieces hdigit).mp hf) hdigit
        rw [interpret_plain hagain, List.dropLast_append_getLast hne] at hstep
        rw [hstep, references_ref hd, List.length_cons]
        have hih := @ih rest.length (by simp at hlength; omega)
          (before ++ groupText pmatch input d) rest m (seen ++ [d])
          (by simp at henough; omega) hrest rfl
        rw [List.length_append, List.length_singleton] at hih
        simpa [Nat.add_assoc, Nat.add_comm 1] using hih
      · -- the digit behind the reference makes another one
        obtain ⟨e, rest', he, hc, rfl⟩ := exists_of_not_plain hagain
        rw [hc] at hstep
        rw [hstep]
        rcases hrun : interpretSubexprs pmatch input outputBuflen (m + 1)
          (before ++ groupText pmatch input d).dropLast ('\\' :: e :: rest') (seen ++ [d]) with
          _ | ⟨ret, out, log⟩
        · exact .inr (.inl rfl)
        by_cases hret : ret = .success
        · subst hret
          apply Or.inr
          apply Or.inr
          refine ⟨out, log, rfl, ?_⟩
          have hle := references_le (by simp at henough ⊢; omega) hrun
          rw [references_ref he] at hle
          rw [references_ref hd, references_plain (plain_of_isRef he)]
          simp only [List.length_append, List.length_cons, List.length_nil] at hle ⊢
          omega
        · exact .inl ⟨ret, out, log, hret, rfl⟩
    · obtain ⟨m, rfl⟩ : ∃ m, n = m + 1 := ⟨n - 1, by simp at henough; omega⟩
      have hrest : ¬ Clean (groupText pmatch input) (before ++ [c]) (pieces rest) := by
        intro hrest
        apply hclean
        rw [pieces_plain hplain, clean_cons_iff]
        exact ⟨fun e heq => Piece.noConfusion heq, hrest⟩
      rw [interpret_plain hplain, references_plain hplain]
      exact @ih rest.length (by simp at hlength; omega) (before ++ [c]) rest m seen
        (by simpa using henough) hrest rfl

/-- The length and the text of a group. -/
def groupSpan (pmatch : Nat → Option (Nat × Nat)) (input : CStr) (digit : Char) :
    Option (Nat × CStr) :=
  (pmatch (digit.toNat - asciiOffset)).map fun span =>
    (span.2 - span.1, (input.drop span.1).take (span.2 - span.1))

theorem groupText_eq (pmatch : Nat → Option (Nat × Nat)) (input : CStr) (d : Char) :
    groupText pmatch input d = ((groupSpan pmatch input d).map Prod.snd).getD [] := by
  unfold groupText groupSpan
  cases pmatch (d.toNat - asciiOffset) with
  | none => rfl
  | some span => rfl

theorem replace_ref (hd : IsRef d) :
    replaceSubexprs pmatch input outputBuflen (n + 1) before ('\\' :: d :: rest) =
      match groupSpan pmatch input d with
      | none => some (.unknown, before ++ '\\' :: d :: rest)
      | some (len, text) =>
        if outputBuflen < (before ++ '\\' :: d :: rest).length + len - 1 then
          some (.maxpathlen, before ++ '\\' :: d :: rest)
        else
          match (before ++ text).getLast? with
          | none => none
          | some c => replaceSubexprs pmatch input outputBuflen n (before ++ text).dropLast
              (c :: rest) := by
  rw [replaceSubexprs, if_pos hd, groupSpan]
  cases pmatch (d.toNat - asciiOffset) with
  | none => rfl
  | some span => rfl

/-- Two inputs in which the groups of the template are the same have the same output. -/
theorem replace_congr {pmatch' : Nat → Option (Nat × Nat)} {input' : CStr}
    (henough : rest.length ≤ n) (hclean : Clean (groupText pmatch input) before (pieces rest))
    (hsame : ∀ d, Piece.ref d ∈ pieces rest →
      groupSpan pmatch input d = groupSpan pmatch' input' d) :
    replaceSubexprs pmatch input outputBuflen n before rest =
      replaceSubexprs pmatch' input' outputBuflen n before rest := by
  induction hlength : rest.length using Nat.strong_induction_on generalizing n before rest with
  | _ length ih =>
    obtain rfl | ⟨d, rest, hd, rfl⟩ | ⟨c, rest, hplain, rfl⟩ := template_cases rest
    · cases n with
      | zero => rfl
      | succ n => rfl
    · obtain ⟨m, rfl⟩ : ∃ m, n = m + 2 := ⟨n - 2, by simp at henough; omega⟩
      rw [pieces_ref hd] at hclean hsame
      obtain ⟨hsettled, hclean⟩ := (clean_cons_iff _).mp hclean
      obtain ⟨hne, hlast⟩ := hsettled d rfl
      have htail : ∀ e, Piece.ref e ∈ pieces rest →
          groupSpan pmatch input e = groupSpan pmatch' input' e :=
        fun e he => hsame e (List.mem_cons_of_mem _ he)
      have hagain : Plain ((before ++ groupText pmatch input d).getLast hne) rest := by
        intro hc e he hdigit
        apply hlast _ e _ hdigit
        · rw [List.getLast?_eq_some_getLast hne, hc]
        · exact (head_pieces hdigit).mpr he
      have hnext := @ih rest.length (by simp at hlength; omega)
        (before ++ groupText pmatch input d) rest m (by simp at henough; omega) hclean htail rfl
      rw [replace_ref hd, replace_ref hd, ← hsame d List.mem_cons_self]
      cases hspan : groupSpan pmatch input d with
      | none => rfl
      | some span =>
        obtain ⟨len, text⟩ := span
        obtain rfl : groupText pmatch input d = text := by
          rw [groupText_eq, hspan]
          rfl
        dsimp only
        split
        · rfl
        · rw [List.getLast?_eq_some_getLast hne]
          dsimp only
          rw [replace_plain hagain, replace_plain hagain, List.dropLast_append_getLast hne, hnext]
    · obtain ⟨m, rfl⟩ : ∃ m, n = m + 1 := ⟨n - 1, by simp at henough; omega⟩
      rw [pieces_plain hplain] at hclean hsame
      obtain ⟨-, hclean⟩ := (clean_cons_iff _).mp hclean
      rw [replace_plain hplain, replace_plain hplain]
      exact @ih rest.length (by simp at hlength; omega) (before ++ [c]) rest m
        (by simpa using henough) hclean (fun e he => hsame e (List.mem_cons_of_mem _ he)) rfl

end Loop

/-! ## The function -/

/-- The scan stays in the output, and after a success the output is the substitution and the
references of the template are all that was replaced. -/
def Substitutes (re : Bre) (replaceBuflen : Nat) (replace input : CStr) (outputBuflen : Nat)
    (m : Match) : Prop :=
  libzeUtilRegexSubexprReplace re replaceBuflen replace input outputBuflen ≠ none ∧
    ∀ out, libzeUtilRegexSubexprReplace re replaceBuflen replace input outputBuflen =
        some (.success, out) →
      out = substitute (groupText m.group input) replace ∧
        interpreted re replaceBuflen replace input outputBuflen = some (references replace)

/-- What does not fail substitutes exactly where every reference is settled. -/
theorem substitutes_iff {re : Bre} {m : Match} {replaceBuflen outputBuflen : Nat}
    {replace input : CStr} (hmatch : regexec re input = some m)
    (hreplace : replace.length < replaceBuflen) (houtput : replace.length < outputBuflen)
    (hret : ∀ ret out, libzeUtilRegexSubexprReplace re replaceBuflen replace input outputBuflen =
      some (ret, out) → ret = .success) :
    Substitutes re replaceBuflen replace input outputBuflen m ↔
      Clean (groupText m.group input) [] (pieces replace) := by
  have hcopy : replace.take (replaceBuflen - 1) = replace := List.take_of_length_le (by omega)
  have hrun : libzeUtilRegexSubexprReplace re replaceBuflen replace input outputBuflen =
      (interpretSubexprs m.group input outputBuflen replace.length [] replace []).map
        fun r => (r.1, r.2.1) := by
    rw [interpretSubexprs_erase, libzeUtilRegexSubexprReplace, hmatch]
    dsimp only [strlcpy]
    rw [if_neg (by omega), hcopy]
  have hlog : interpreted re replaceBuflen replace input outputBuflen =
      (interpretSubexprs m.group input outputBuflen replace.length [] replace []).map
        fun r => r.2.2 := by
    rw [interpreted, hmatch]
    dsimp only [strlcpy]
    rw [hcopy]
  have hnofail : ¬ ∃ ret out log, ret ≠ LibzeError.success ∧
      interpretSubexprs m.group input outputBuflen replace.length [] replace [] =
        some (ret, out, log) := by
    rintro ⟨ret, out, log, hne, hfail⟩
    exact hne (hret ret out (by rw [hrun, hfail, Option.map_some]))
  unfold Substitutes
  rw [hlog, hrun]
  constructor
  · rintro ⟨hsome, hsub⟩
    by_contra hclean
    obtain hfail | hnone | ⟨out, log, hdone, hmore⟩ :=
      @interpret_unclean m.group input [] replace outputBuflen replace.length [] le_rfl hclean
    · exact hnofail hfail
    · exact hsome (by rw [hnone]; rfl)
    · obtain ⟨-, hreferences⟩ := hsub out (by rw [hdone]; rfl)
      rw [hdone, Option.map_some, Option.some.injEq] at hreferences
      have hsame : log = references replace := hreferences
      rw [hsame, List.length_nil, Nat.zero_add] at hmore
      exact absurd hmore (lt_irrefl _)
  · intro hclean
    obtain hfail | hdone :=
      @interpret_clean m.group input [] replace outputBuflen replace.length [] le_rfl hclean
    · exact absurd hfail hnofail
    rw [hdone]
    constructor
    · exact Option.some_ne_none _
    · intro out hout
      rw [Option.map_some, Option.some.injEq] at hout
      exact ⟨(Prod.mk.inj hout).2.symm, rfl⟩

/-- The blanks in front of a line: a group that may be empty. -/
def blanks : Bre := .seq (.group 1 (.seq (.rep (.sym (.char ' ')) 0 none) .empty)) .empty

theorem substitutes_iff_blanks :
    Substitutes blanks 255 "\\1x" " title" 255 ⟨0, 1, [(1, 0, 1)]⟩ ↔
      Clean (groupText (Match.group ⟨0, 1, [(1, 0, 1)]⟩) " title") [] (pieces "\\1x") := by
  have hrun : libzeUtilRegexSubexprReplace blanks 255 "\\1x" " title" 255 =
      some (.success, (" x" : CStr)) := by decide +kernel
  apply substitutes_iff (by decide +kernel) (by decide) (by decide)
  intro ret out hout
  rw [hrun] at hout
  cases hout
  rfl

/-- With no blank in front the scan reads what is before the output; and a backslash that is put
in makes a reference with a digit of the template. -/
theorem reads_before_output : regcomp "\\( *\\)" = some blanks ∧
    regexec blanks "title" = some ⟨0, 0, [(1, 0, 0)]⟩ ∧
    ¬ Substitutes blanks 255 "\\1" "title" 255 ⟨0, 0, [(1, 0, 0)]⟩ ∧
    libzeUtilRegexSubexprReplace (.group 1 (.sym (.char '\\'))) 255 "\\11" "\\" 255 =
      some (.success, ("\\" : CStr)) := by
  refine ⟨by decide +kernel, by decide +kernel, ?_, by decide +kernel⟩
  intro hsub
  exact hsub.1 (by decide +kernel)

end Zectl.Util.SubexprReplace
