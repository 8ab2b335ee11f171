import Zectl.Lib.BasicRegex

/-!
# Reading expressions that are put together

A pattern is often a fixed text around names that are known only later. Its tokens are those of
its parts in turn, as long as no part breaks off inside a token, and a name is read as its
characters.
-/

namespace Zectl.Lib.RegexSyntax

open Zectl.Lib.BasicRegex

/-- A part of a pattern is read as these tokens, whatever follows it. -/
def Reads (part : List Char) (ts : List Token) : Prop :=
  ∀ rest, lex .normal (part ++ rest) = (ts ++ ·) <$> lex .normal rest

/-- The tokens of a part without brackets and intervals. -/
def tokens : List Char → Option (List Token)
  | [] => some []
  | '\\' :: c :: rest => if c = '{' then none else (tokens rest).map (escaped c :: ·)
  | c :: rest => if c = '[' ∨ c = '\\' then none else (tokens rest).map (plain c :: ·)

/-- A character that stands for itself unless it is a dot. -/
def Ordinary (c : Char) : Prop := c ≠ '[' ∧ c ≠ '\\' ∧ c ≠ '*' ∧ c ≠ '^' ∧ c ≠ '$'

instance : DecidablePred Ordinary := fun c =>
  inferInstanceAs (Decidable (c ≠ '[' ∧ c ≠ '\\' ∧ c ≠ '*' ∧ c ≠ '^' ∧ c ≠ '$'))

/-- A name with its dots made ordinary. -/
def quoted (name : List Char) : List Char :=
  name.flatMap fun c => if c = '.' then ['\\', '.'] else [c]

/-- A character, or any one for a dot. -/
def dotted (c : Char) : Sym := if c = '.' then .any else .char c

/-- The tokens of characters that stand for themselves. -/
def chars (w : List Char) : List Token := (w.map Sym.char).map Token.sym

/-- Symbols one behind the other, and what follows them. -/
def symbols (ks : List Sym) (r : Bre) : Bre := ks.foldr (fun k r => .seq (.sym k) r) r

section Reading
variable {part other name : List Char} {ts us : List Token} {c : Char}

theorem Reads.append (hpart : Reads part ts) (hother : Reads other us) :
    Reads (part ++ other) (ts ++ us) := by
  intro rest
  rw [List.append_assoc, hpart, hother, Functor.map_map]
  apply congrArg (· <$> lex .normal rest)
  funext vs
  rw [List.append_assoc]

theorem Reads.lex (h : Reads part ts) : lex .normal part = some ts := by
  have hall := h []
  rw [List.append_nil] at hall
  rw [hall, BasicRegex.lex.eq_def]
  show some (ts ++ []) = some ts
  rw [List.append_nil]

theorem reads_nil : Reads [] [] := by
  intro rest
  exact (id_map _).symm

/-- The parts one behind the other. -/
theorem reads_flatten {parts : List (List Char)} {tss : List (List Token)}
    (h : List.Forall₂ Reads parts tss) : Reads parts.flatten tss.flatten := by
  induction h with
  | nil => exact reads_nil
  | cons hpart _ ih =>
    rw [List.flatten_cons, List.flatten_cons]
    exact hpart.append ih

theorem reads_plain (hset : c ≠ '[') (hescape : c ≠ '\\') : Reads [c] [plain c] := by
  intro rest
  rw [List.singleton_append, lex.eq_def]
  dsimp only
  rw [if_neg hset, if_neg hescape]
  rfl

theorem reads_escaped (hc : c ≠ '{') : Reads ['\\', c] [escaped c] := by
  intro rest
  show lex .normal ('\\' :: c :: rest) = _
  rw [lex.eq_def]
  dsimp only
  rw [if_neg (by decide), if_pos rfl, if_neg hc]
  rfl

/-- A fixed part that ends between two tokens. -/
theorem reads_tokens (h : tokens part = some ts) : Reads part ts := by
  induction part using tokens.induct generalizing ts with
  | case1 =>
    cases h
    exact reads_nil
  | case2 rest =>
    rw [tokens, if_pos rfl] at h
    cases h
  | case3 c rest hc ih =>
    rw [tokens, if_neg hc] at h
    obtain ⟨us, hus, rfl⟩ := Option.map_eq_some_iff.mp h
    exact (reads_escaped hc).append (ih hus)
  | case4 c rest hne hc =>
    rw [tokens, if_pos hc] at h
    · cases h
    · exact hne
  | case5 c rest hne hc ih =>
    rw [tokens, if_neg hc] at h
    · obtain ⟨us, hus, rfl⟩ := Option.map_eq_some_iff.mp h
      obtain ⟨hset, hescape⟩ := not_or.mp hc
      exact (reads_plain hset hescape).append (ih hus)
    · exact hne

theorem lex_member {negated fresh : Bool} {items : List Item} {rest : List Char}
    (hclose : c ≠ ']') (hrange : c ≠ '-') (hkind : c ≠ '[') (hnext : rest.head? ≠ some '-') :
    lex (.set negated fresh items) (c :: rest) =
      lex (.set negated false (items ++ [.char c])) rest := by
  rw [lex.eq_def]
  dsimp only
  rw [if_neg fun h => hclose h.1, if_neg fun h => hrange h.1, if_neg fun h => hkind h.1]
  split
  · exact absurd rfl hnext
  · exact absurd rfl hnext
  · rfl

/-- The two characters between brackets. -/
theorem reads_pair {d : Char} (hc : c ≠ ']' ∧ c ≠ '-' ∧ c ≠ '[' ∧ c ≠ '^')
    (hd : d ≠ ']' ∧ d ≠ '-' ∧ d ≠ '[') :
    Reads ['[', c, d, ']'] [.sym (.set false [.char c, .char d])] := by
  intro rest
  show lex .normal ('[' :: c :: d :: ']' :: rest) = _
  rw [lex.eq_def]
  dsimp only
  rw [if_pos rfl]
  split
  · rename_i heq
    exact absurd (List.cons.inj heq).1 hc.2.2.2
  rw [lex_member hc.1 hc.2.1 hc.2.2.1 (by simpa using hd.2.1),
    lex_member hd.1 hd.2.1 hd.2.2 (by simp), lex.eq_def]
  dsimp only
  rw [if_pos (by simp)]
  rfl

theorem plain_ordinary (hc : Ordinary c) : plain c = .sym (dotted c) := by
  obtain ⟨-, -, hstar, hcaret, hdollar⟩ := hc
  rw [plain, if_neg hstar, if_neg hcaret, if_neg hdollar, dotted]
  split
  · rfl
  · rfl

/-- A name as it stands: its dots are read as any character. -/
theorem reads_name (hname : ∀ c ∈ name, Ordinary c) :
    Reads name ((name.map dotted).map Token.sym) := by
  induction name with
  | nil => exact reads_nil
  | cons c name ih =>
    obtain ⟨hset, hescape, -⟩ := hname c List.mem_cons_self
    have hfirst := reads_plain hset hescape
    rw [plain_ordinary (hname c List.mem_cons_self)] at hfirst
    exact hfirst.append (ih fun d hd => hname d (List.mem_cons_of_mem c hd))

/-- A quoted name: all its characters stand for themselves. -/
theorem reads_quoted (hname : ∀ c ∈ name, Ordinary c) :
    Reads (quoted name) (chars name) := by
  induction name with
  | nil => exact reads_nil
  | cons c name ih =>
    have hrest := ih fun d hd => hname d (List.mem_cons_of_mem c hd)
    by_cases hdot : c = '.'
    · subst hdot
      exact (reads_escaped (by decide)).append hrest
    · obtain ⟨hset, hescape, -⟩ := hname c List.mem_cons_self
      have hfirst := reads_plain hset hescape
      rw [plain_ordinary (hname c List.mem_cons_self), dotted, if_neg hdot] at hfirst
      rw [quoted, List.flatMap_cons, if_neg hdot]
      exact hfirst.append hrest

end Reading

section Parsing
variable {outer : List (Open × Nat)} {o : Open} {n : Nat} {ks : List Sym} {ts : List Token}
  {ps : List Bre} {r : Bre}

theorem parse_symbols : parse outer o n (ks.map Token.sym ++ ts) =
    parse outer ⟨o.branches, (ks.map Bre.sym).reverse ++ o.pieces⟩ n ts := by
  induction ks generalizing o with
  | nil => rfl
  | cons k ks ih =>
    rw [List.map_cons, List.cons_append, parse, ih, List.map_cons, List.reverse_cons,
      List.append_assoc]
    rfl

theorem parse_chars (w : List Char) : parse outer o n (chars w ++ ts) =
    parse outer ⟨o.branches, ((w.map Sym.char).map Bre.sym).reverse ++ o.pieces⟩ n ts :=
  parse_symbols

/-- The pieces of a branch that are symbols. -/
theorem branch_symbols : ((ks.map Bre.sym).reverse ++ ps).foldl (fun r p => .seq p r) r =
    ps.foldl (fun r p => .seq p r) (symbols ks r) := by
  rw [List.foldl_append, List.foldl_reverse, List.foldr_map, symbols]

theorem literal_append (w v : List Char) : literal (w ++ v) r = literal w (literal v r) := by
  rw [literal, List.foldr_append]
  rfl

theorem symbols_literal (w : List Char) : symbols (w.map Sym.char) r = literal w r := by
  rw [symbols, List.foldr_map, literal]

end Parsing

end Zectl.Lib.RegexSyntax
