import Mathlib.Data.List.Sort
import Mathlib.Data.List.TakeWhile

/-!
# Basic regular expressions

A regular expression, the matches it has at an offset of an input, and the leftmost
longest one that POSIX selects. The matches at one offset are listed by preference:
a sequence takes its parts from left to right, a group, a repetition and an
alternation prefer what is longer. An offset counts the characters before it.
-/

namespace Zectl.Lib.BasicRegex

/-- What may stand between brackets. -/
inductive Item where
  | char (c : Char)
  | range (a b : Char)
  | cls (name : List Char)
  deriving DecidableEq, Repr

/-- What matches a single character. -/
inductive Sym where
  | char (c : Char)
  | any
  | set (negated : Bool) (items : List Item)
  deriving DecidableEq, Repr

/-- The character classes of the POSIX locale. -/
def classHas (name : List Char) (c : Char) : Bool :=
  match String.ofList name with
  | "alpha" => c.isAlpha
  | "digit" => c.isDigit
  | "alnum" => c.isAlphanum
  | "upper" => c.isUpper
  | "lower" => c.isLower
  | "blank" => c = ' ' ∨ c = '\t'
  | "space" => c = ' ' ∨ (9 ≤ c.toNat ∧ c.toNat ≤ 13)
  | "xdigit" => c.isDigit ∨ ('a' ≤ c ∧ c ≤ 'f') ∨ ('A' ≤ c ∧ c ≤ 'F')
  | "cntrl" => c.toNat < 32 ∨ c.toNat = 127
  | "graph" => 32 < c.toNat ∧ c.toNat < 127
  | "print" => 32 ≤ c.toNat ∧ c.toNat < 127
  | "punct" => 32 < c.toNat ∧ c.toNat < 127 ∧ ¬ c.isAlphanum
  | _ => false

def Item.has : Item → Char → Bool
  | .char a, c => c = a
  | .range a b, c => a ≤ c ∧ c ≤ b
  | .cls name, c => classHas name c

def Sym.has : Sym → Char → Bool
  | .char a, c => c = a
  | .any, _ => true
  | .set negated items, c => (items.any fun i => i.has c) != negated

inductive Bre where
  | empty
  | sym (k : Sym)
  | bol
  | eol
  | seq (r s : Bre)
  | alt (r s : Bre)
  | group (n : Nat) (r : Bre)
  /-- From `lo` to `hi` times; without `hi` any number from `lo`. -/
  | rep (r : Bre) (lo : Nat) (hi : Option Nat)
  | back (n : Nat)
  deriving DecidableEq, Repr

/-- What the groups have matched, the latest first: number, start and end. -/
abbrev Groups := List (Nat × Nat × Nat)

/-- The end of a match and its groups. -/
abbrev End := Nat × Groups

/-- Longer matches first, those of one length in the order they had. -/
def longestFirst (ends : List End) : List End := ends.insertionSort fun e f => f.1 ≤ e.1

/-- As many times as possible, each time advancing, at most `n` times. -/
def greedy (f : Nat → Groups → List End) : Nat → Nat → Groups → List End
  | 0, i, g => [(i, g)]
  | n + 1, i, g =>
    ((f i g).filter fun e => i < e.1).flatMap (fun e => greedy f n e.1 e.2) ++ [(i, g)]

/-- Exactly `n` times, and then `more`. -/
def times (f more : Nat → Groups → List End) : Nat → Nat → Groups → List End
  | 0, i, g => more i g
  | n + 1, i, g => (f i g).flatMap fun e => times f more n e.1 e.2

/-- The matches at offset `i`. More advancing rounds than characters are left do not
exist, which bounds an unbounded repetition. -/
def Bre.ends (input : List Char) : Bre → Nat → Groups → List End
  | .empty, i, g => [(i, g)]
  | .sym k, i, g =>
    match input[i]? with
    | none => []
    | some c => if k.has c then [(i + 1, g)] else []
  | .bol, i, g => if i = 0 then [(i, g)] else []
  | .eol, i, g => if i = input.length then [(i, g)] else []
  | .seq r s, i, g => (r.ends input i g).flatMap fun e => s.ends input e.1 e.2
  | .alt r s, i, g => longestFirst (r.ends input i g ++ s.ends input i g)
  | .group n r, i, g =>
    (longestFirst (r.ends input i g)).map fun e => (e.1, (n, i, e.1) :: e.2)
  | .rep r lo hi, i, g =>
    longestFirst (times (r.ends input)
      (greedy (r.ends input) (match hi with
        | none => input.length - i
        | some n => n - lo)) lo i g)
  | .back n, i, g =>
    match g.lookup n with
    | none => []
    | some (start, stop) =>
      let text := (input.drop start).take (stop - start)
      if text.isPrefixOf (input.drop i) then [(i + text.length, g)] else []

/-- `regmatch_t` of the whole match and of the groups. -/
structure Match where
  start : Nat
  stop : Nat
  groups : Groups
  deriving DecidableEq, Repr

def Match.group (m : Match) (n : Nat) : Option (Nat × Nat) :=
  if n = 0 then some (m.start, m.stop) else m.groups.lookup n

/-- The longest match at the leftmost offset that has one. -/
def regexec (re : Bre) (input : List Char) : Option Match :=
  (List.range (input.length + 1)).findSome? fun i =>
    (longestFirst (re.ends input i [])).head?.map fun e => ⟨i, e.1, e.2⟩

/-! ## Syntax -/

inductive Token where
  | sym (k : Sym)
  | star
  | caret
  | dollar
  | opening
  | closing
  | bar
  | rep (lo : Nat) (hi : Option Nat)
  | back (n : Nat)
  deriving DecidableEq, Repr

/-- Where the lexer is: outside brackets, in them (`fresh` before their first member),
in a name within them that `kind` closes, in the two numbers of an interval. -/
inductive Mode where
  | normal
  | set (negated fresh : Bool) (items : List Item)
  | cls (negated : Bool) (items : List Item) (kind : Char) (name : List Char)
  | lo (digits : List Char)
  | hi (lo : Nat) (digits : List Char)

/-- A character that no backslash precedes. -/
def plain (c : Char) : Token :=
  if c = '*' then .star
  else if c = '^' then .caret
  else if c = '$' then .dollar
  else if c = '.' then .sym .any
  else .sym (.char c)

/-- A character behind a backslash, `\+`, `\?` and `\|` being those of GNU. -/
def escaped (c : Char) : Token :=
  if c = '(' then .opening
  else if c = ')' then .closing
  else if c = '|' then .bar
  else if c = '+' then .rep 1 none
  else if c = '?' then .rep 0 (some 1)
  else if '1' ≤ c ∧ c ≤ '9' then .back (c.toNat - '0'.toNat)
  else .sym (.char c)

def number (digits : List Char) : Nat := digits.foldl (fun n c => 10 * n + (c.toNat - '0'.toNat)) 0

/-- `[:`, `[=` and `[.` begin a name between brackets. -/
def isKind (c : Char) : Bool := c = ':' ∨ c = '=' ∨ c = '.'

def classNames : List (List Char) :=
  ["alpha", "digit", "alnum", "upper", "lower", "blank", "space", "xdigit", "cntrl", "graph",
    "print", "punct"].map String.toList

/-- The member that a name stands for. An equivalence class and a collating symbol hold
one character in the POSIX locale. -/
def named (kind : Char) (name : List Char) : Option Item :=
  if kind = ':' then if name ∈ classNames then some (.cls name) else none
  else
    match name with
    | [c] => some (.char c)
    | _ => none

/-- A backslash is an ordinary member between brackets, and a `-` only the first or the last
one. No name is an end of a range. -/
def lex : Mode → List Char → Option (List Token)
  | .normal, [] => some []
  | .normal, c :: cs =>
    if c = '[' then
      match cs with
      | '^' :: cs => lex (.set true true []) cs
      | cs => lex (.set false true []) cs
    else if c = '\\' then
      match cs with
      | [] => none
      | c :: cs => if c = '{' then lex (.lo []) cs else (escaped c :: ·) <$> lex .normal cs
    else (plain c :: ·) <$> lex .normal cs
  | .set _ _ _, [] => none
  | .set negated fresh items, c :: cs =>
    if c = ']' ∧ ¬ fresh then (.sym (.set negated items) :: ·) <$> lex .normal cs
    else if c = '-' ∧ ¬ fresh ∧ cs.head? ≠ some ']' then none
    else if c = '[' ∧ cs.head?.any isKind then
      match cs with
      | [] => none
      | kind :: cs => lex (.cls negated items kind []) cs
    else
      match cs with
      | '-' :: ']' :: cs => lex (.set negated false (items ++ [.char c])) ('-' :: ']' :: cs)
      | '-' :: d :: cs =>
        if d = '[' ∧ cs.head?.any isKind then none
        else if c ≤ d then lex (.set negated false (items ++ [.range c d])) cs else none
      | cs => lex (.set negated false (items ++ [.char c])) cs
  | .cls _ _ _ _, [] => none
  | .cls negated items kind name, c :: cs =>
    match cs with
    | ']' :: cs =>
      if c = kind then
        match named kind name with
        | none => none
        | some item => lex (.set negated false (items ++ [item])) cs
      else lex (.cls negated items kind (name ++ [c])) (']' :: cs)
    | cs => lex (.cls negated items kind (name ++ [c])) cs
  | .lo _, [] => none
  | .lo digits, c :: cs =>
    if c.isDigit then lex (.lo (digits ++ [c])) cs
    else if c = ',' then lex (.hi (number digits) []) cs
    else
      match cs with
      | '}' :: cs =>
        if c = '\\' ∧ digits ≠ [] then
          (.rep (number digits) (some (number digits)) :: ·) <$> lex .normal cs
        else none
      | _ => none
  | .hi _ _, [] => none
  | .hi lo digits, c :: cs =>
    if c.isDigit then lex (.hi lo (digits ++ [c])) cs
    else
      match cs with
      | '}' :: cs =>
        if c = '\\' ∧ (digits = [] ∨ lo ≤ number digits) then
          (.rep lo (if digits = [] then none else some (number digits)) :: ·) <$> lex .normal cs
        else none
      | _ => none

/-- The pieces of a branch, the last one first, as one expression. -/
def branch (pieces : List Bre) : Bre := pieces.foldl (fun r p => .seq p r) .empty

/-- What is read of an expression: the branches before a `\|` and the pieces of the
current one, both the last first. -/
structure Open where
  branches : List Bre
  pieces : List Bre

def Open.close (o : Open) : Bre := o.branches.foldl (fun r b => .alt b r) (branch o.pieces)

def Open.push (o : Open) (p : Bre) : Open := { o with pieces := p :: o.pieces }

/-- `outer` has the expressions around the current one and the numbers of the groups
it is in, `n` the number of groups so far. `*` and `^` are ordinary except where they can
repeat and anchor, `$` likewise. -/
def parse (outer : List (Open × Nat)) (o : Open) (n : Nat) : List Token → Option Bre
  | [] => if outer.isEmpty then some o.close else none
  | .sym k :: ts => parse outer (o.push (.sym k)) n ts
  | .opening :: ts => parse ((o, n + 1) :: outer) ⟨[], []⟩ (n + 1) ts
  | .closing :: ts =>
    match outer with
    | [] => none
    | (around, k) :: outer => parse outer (around.push (.group k o.close)) n ts
  | .bar :: ts => parse outer ⟨branch o.pieces :: o.branches, []⟩ n ts
  | .caret :: ts => parse outer (o.push (if o.pieces.isEmpty then .bol else .sym (.char '^'))) n ts
  | .dollar :: ts =>
    let last := match ts with
      | [] | .closing :: _ | .bar :: _ => true
      | _ => false
    parse outer (o.push (if last then .eol else .sym (.char '$'))) n ts
  | .star :: ts =>
    match o.pieces with
    | [] | [.bol] => parse outer (o.push (.sym (.char '*'))) n ts
    | p :: ps => parse outer { o with pieces := .rep p 0 none :: ps } n ts
  | .rep lo hi :: ts =>
    match o.pieces with
    | [] | [.bol] => none
    | p :: ps => parse outer { o with pieces := .rep p lo hi :: ps } n ts
  | .back k :: ts => if k ≤ n then parse outer (o.push (.back k)) n ts else none

/-- `regcomp` without flags. -/
def regcomp (pattern : List Char) : Option Bre :=
  (lex .normal pattern).bind (parse [] ⟨[], []⟩ 0)

/-! ## Matches of single characters -/

section Ends
variable {input : List Char} {i : Nat} {g : Groups} {k : Sym}

theorem longestFirst_eq_self {ends : List End} (h : ends.Pairwise fun e f => f.1 ≤ e.1) :
    longestFirst ends = ends := h.insertionSort_eq

theorem head?_longestFirst {e : End} {ends : List End} (h : ∀ f ∈ ends, f.1 ≤ e.1) :
    (longestFirst (e :: ends)).head? = some e := by
  rw [longestFirst, List.insertionSort_cons]
  cases hsorted : ends.insertionSort fun e f => f.1 ≤ e.1 with
  | nil => rfl
  | cons f rest =>
    have hf : f ∈ ends :=
      (List.perm_insertionSort _ ends).mem_iff.mp (hsorted ▸ List.mem_cons_self)
    rw [List.orderedInsert, if_pos (h f hf)]
    rfl

/-- How many characters from `i` on a symbol matches. -/
def run (k : Sym) (input : List Char) (i : Nat) : Nat := ((input.drop i).takeWhile k.has).length

/-- Matches of every length up to `n`, the longest first. -/
def spans (i n : Nat) (g : Groups) : List End := (List.range (n + 1)).reverse.map fun m => (i + m, g)

theorem spans_succ (i n : Nat) (g : Groups) : spans i (n + 1) g = spans (i + 1) n g ++ [(i, g)] := by
  rw [spans, List.range_succ_eq_map, List.reverse_cons, List.map_append, ← List.map_reverse,
    List.map_map, spans]
  congr 1
  refine List.map_congr_left fun m _ => ?_
  simp only [Function.comp_apply, Prod.mk.injEq, and_true]
  omega

theorem spans_eq_cons (i n : Nat) (g : Groups) :
    ∃ rest, spans i n g = (i + n, g) :: rest ∧ ∀ f ∈ rest, ∃ m < n, f = (i + m, g) := by
  refine ⟨(List.range n).reverse.map fun m => (i + m, g), ?_, fun f hf => ?_⟩
  · simp [spans, List.range_succ]
  · obtain ⟨m, hm, rfl⟩ := List.mem_map.mp hf
    exact ⟨m, by simpa using hm, rfl⟩

theorem le_of_mem_spans {n : Nat} {e : End} (he : e ∈ spans i n g) : e.1 ≤ i + n := by
  obtain ⟨m, hm, rfl⟩ := List.mem_map.mp he
  have hlt : m < n + 1 := by simpa using hm
  dsimp only
  omega

theorem pairwise_spans (i n : Nat) (g : Groups) : (spans i n g).Pairwise fun e f => f.1 ≤ e.1 := by
  refine List.Pairwise.map _ (fun a b (hab : b < a) => ?_)
    (List.pairwise_reverse.mpr List.pairwise_lt_range)
  dsimp only
  omega

theorem run_of_has {c : Char} (hc : input[i]? = some c) (hk : k.has c = true) :
    run k input i = run k input (i + 1) + 1 := by
  obtain ⟨hlt, rfl⟩ := List.getElem?_eq_some_iff.mp hc
  rw [run, List.drop_eq_getElem_cons hlt, List.takeWhile_cons_of_pos hk, List.length_cons, run]

theorem run_eq_zero (h : ∀ c, input[i]? = some c → k.has c = false) : run k input i = 0 := by
  rw [run]
  cases hdrop : input.drop i with
  | nil => rfl
  | cons c rest =>
    have hc : input[i]? = some c := by
      rw [← List.head?_drop, hdrop]
      rfl
    rw [List.takeWhile_cons_of_neg (by simp [h c hc])]
    rfl

theorem greedy_sym {n : Nat} (hn : run k input i ≤ n) :
    greedy ((Bre.sym k).ends input) n i g = spans i (run k input i) g := by
  induction n generalizing i with
  | zero =>
    rw [Nat.le_zero.mp hn]
    rfl
  | succ n ih =>
    by_cases hk : ∃ c, input[i]? = some c ∧ k.has c = true
    · obtain ⟨c, hc, hkc⟩ := hk
      have hrun := run_of_has hc hkc
      have hfirst : (Bre.sym k).ends input i g = [(i + 1, g)] := by simp [Bre.ends, hc, hkc]
      rw [greedy, hfirst, hrun, spans_succ, ← ih (by omega)]
      simp
    · have hno : ∀ c, input[i]? = some c → k.has c = false := by
        intro c hc
        by_contra hkc
        exact hk ⟨c, hc, by simpa using hkc⟩
      have hnone : (Bre.sym k).ends input i g = [] := by
        cases hc : input[i]? with
        | none => simp [Bre.ends, hc]
        | some c => simp [Bre.ends, hc, hno c hc]
      rw [greedy, hnone, run_eq_zero hno]
      rfl

theorem ends_star_sym : (Bre.rep (.sym k) 0 none).ends input i g = spans i (run k input i) g := by
  have hle : run k input i ≤ input.length - i := by
    rw [← List.length_drop]
    exact (List.takeWhile_sublist _).length_le
  rw [Bre.ends, times, greedy_sym hle, longestFirst_eq_self (pairwise_spans _ _ _)]

/-- What cannot begin with a character of the class begins behind all of them. -/
theorem ends_seq_star_sym {s : Bre}
    (hs : ∀ j c g, input[j]? = some c → k.has c = true → s.ends input j g = []) :
    (Bre.seq (.rep (.sym k) 0 none) s).ends input i g = s.ends input (i + run k input i) g := by
  obtain ⟨rest, hspans, hrest⟩ := spans_eq_cons i (run k input i) g
  have hnone : rest.flatMap (fun e => s.ends input e.1 e.2) = [] := by
    refine List.flatMap_eq_nil_iff.mpr fun f hf => ?_
    obtain ⟨m, hm, rfl⟩ := hrest f hf
    have hlt : m < (input.drop i).length :=
      Nat.lt_of_lt_of_le hm (List.takeWhile_sublist _).length_le
    refine hs _ (input.drop i)[m] g (by rw [← List.getElem?_drop, List.getElem?_eq_getElem]) ?_
    rw [← (List.takeWhile_prefix k.has).getElem hm]
    exact List.mem_takeWhile_imp (List.getElem_mem hm)
  rw [Bre.ends, ends_star_sym, hspans, List.flatMap_cons, hnone, List.append_nil]

@[simp] theorem ends_seq_empty (r : Bre) : (Bre.seq r .empty).ends input i g = r.ends input i g :=
  List.flatMap_singleton' _

theorem ends_seq_bol (r : Bre) :
    (Bre.seq .bol r).ends input i g = if i = 0 then r.ends input i g else [] := by
  by_cases hi : i = 0 <;> simp [Bre.ends, hi]

/-- A repeated symbol as a group. -/
theorem ends_group_star_sym (n : Nat) : (Bre.group n (.rep (.sym k) 0 none)).ends input i g =
    (spans i (run k input i) g).map fun e => (e.1, (n, i, e.1) :: e.2) := by
  rw [Bre.ends, ends_star_sym, longestFirst_eq_self (pairwise_spans _ _ _)]

theorem run_any : run .any input i = input.length - i := by
  have hall : (input.drop i).takeWhile Sym.any.has = input.drop i :=
    List.takeWhile_eq_self_iff.mpr fun _ _ => rfl
  rw [run, hall, List.length_drop]

/-- A word and what follows it. -/
def literal (w : List Char) (r : Bre) : Bre := w.foldr (fun c r => .seq (.sym (.char c)) r) r

theorem ends_literal {w : List Char} {r : Bre} : (literal w r).ends input i g =
    if w.isPrefixOf (input.drop i) then r.ends input (i + w.length) g else [] := by
  induction w generalizing i with
  | nil => simp [literal]
  | cons a w ih =>
    have hstep : (literal (a :: w) r).ends input i g =
        ((Bre.sym (.char a)).ends input i g).flatMap
          fun e => (literal w r).ends input e.1 e.2 := rfl
    rw [hstep, Bre.ends]
    cases hc : input[i]? with
    | none =>
      have hdrop : input.drop i = [] := by simpa using hc
      simp [hdrop]
    | some c =>
      obtain ⟨hlt, rfl⟩ := List.getElem?_eq_some_iff.mp hc
      rw [List.drop_eq_getElem_cons hlt, List.isPrefixOf_cons_cons]
      by_cases hac : input[i] = a
      · simp [Sym.has, hac, ih, Nat.add_assoc, Nat.add_comm 1]
      · simp [Sym.has, hac, Ne.symm hac]

end Ends

/-! ## The match of an input -/

section Regexec
variable {re : Bre} {input : List Char}

theorem regexec_of_zero {e : End} {rest : List End} (h : re.ends input 0 [] = e :: rest)
    (hlong : ∀ f ∈ rest, f.1 ≤ e.1) : regexec re input = some ⟨0, e.1, e.2⟩ := by
  rw [regexec, List.range_succ_eq_map, List.findSome?_cons, h, head?_longestFirst hlong]
  rfl

theorem regexec_eq_none (h : ∀ i, re.ends input i [] = []) : regexec re input = none := by
  refine List.findSome?_eq_none_iff.mpr fun i _ => ?_
  rw [h]
  rfl

end Regexec

end Zectl.Lib.BasicRegex
