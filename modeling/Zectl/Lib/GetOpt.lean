import Mathlib.Data.List.TakeWhile

/-!
# Options on a command line

The scan of `getopt` over the words behind the name of a command. Options and operands may be
mixed: a word behind a dash is a cluster of option letters, `--` ends the options, and any other
word is an operand. What is scanned depends only on the options in their order and on the
operands in theirs.
-/

namespace Zectl.Lib.GetOpt

abbrev Word := List Char

structure Opt where
  letter : Char
  argument : Option Word := none
  deriving DecidableEq

/-- How the option string declares a letter: with an argument, without one, or not at all. -/
def declared (optstring : List Char) (c : Char) : Option Bool :=
  if c = ':' ∨ c = ';' then none else
  match optstring.dropWhile (· ≠ c) with
  | [] => none
  | _ :: rest => some (rest.head? = some ':')

/-- A cluster of letters, and the letter whose argument is the next word. -/
def cluster (optstring : List Char) : List Char → Except Char (List Opt × Option Char)
  | [] => .ok ([], none)
  | c :: cs =>
    match declared optstring c with
    | none => .error c
    | some true => if cs = [] then .ok ([], some c) else .ok ([⟨c, some cs⟩], none)
    | some false =>
      match cluster optstring cs with
      | .error c => .error c
      | .ok (opts, pending) => .ok (⟨c, none⟩ :: opts, pending)

/-- The letters of a word that holds options. -/
def optionLetters : Word → Option (List Char)
  | '-' :: c :: cs => some (c :: cs)
  | _ => none

/-- `getopt` called until it has no more options, or until one is not an option: the options and
the operands, or the letter at fault. A letter may be waiting for its argument. -/
def getopt (optstring : List Char) : Option Char → List Word → Except Char (List Opt × List Word)
  | none, [] => .ok ([], [])
  | some c, [] => .error c
  | some c, w :: rest =>
    match getopt optstring none rest with
    | .error c => .error c
    | .ok (opts, operands) => .ok (⟨c, some w⟩ :: opts, operands)
  | none, w :: rest =>
    if w = ['-', '-'] then .ok ([], rest) else
    match optionLetters w with
    | none =>
      match getopt optstring none rest with
      | .error c => .error c
      | .ok (opts, operands) => .ok (opts, w :: operands)
    | some letters =>
      match cluster optstring letters with
      | .error c => .error c
      | .ok (found, pending) =>
        match getopt optstring pending rest with
        | .error c => .error c
        | .ok (opts, operands) => .ok (found ++ opts, operands)

/-- An option in words of its own. -/
def Opt.words (o : Opt) : List Word := ['-', o.letter] :: o.argument.toList

/-- The options in front, the operands behind `--`. -/
def normalForm (opts : List Opt) (operands : List Word) : List Word :=
  opts.flatMap Opt.words ++ ['-', '-'] :: operands

/-- The option has an argument if its letter is declared with one. -/
def Opt.Declared (optstring : List Char) (o : Opt) : Prop :=
  declared optstring o.letter = some o.argument.isSome

section Scan
variable {optstring letters : List Char} {args rest operands : List Word} {opts found : List Opt}
  {pending : Option Char} {w : Word} {c : Char}

theorem declared_of_not_mem (h : c ∉ optstring) : declared optstring c = none := by
  have hdrop : optstring.dropWhile (· ≠ c) = [] := by
    rw [List.dropWhile_eq_nil_iff]
    intro d hd
    have hne : d ≠ c := fun heq => h (heq ▸ hd)
    exact decide_eq_true hne
  unfold declared
  rw [hdrop]
  split <;> rfl

theorem cluster_declared (h : cluster optstring letters = .ok (found, pending)) :
    (∀ o ∈ found, o.Declared optstring) ∧ ∀ c ∈ pending, declared optstring c = some true := by
  induction letters generalizing found with
  | nil =>
    cases h
    exact ⟨by simp, by simp⟩
  | cons c cs ih =>
    rw [cluster] at h
    split at h
    · cases h
    · rename_i htrue
      split at h
      · cases h
        exact ⟨by simp, fun d hd => Option.some.inj hd ▸ htrue⟩
      · cases h
        refine ⟨?_, by simp⟩
        intro o ho
        rw [List.mem_singleton.mp ho]
        exact htrue
    · rename_i hfalse
      split at h
      · cases h
      · rename_i hrest
        cases h
        obtain ⟨hfound, hpending⟩ := ih hrest
        refine ⟨?_, hpending⟩
        intro o ho
        obtain rfl | ho := List.mem_cons.mp ho
        · exact hfalse
        · exact hfound o ho

/-- What is found is what the option string declares. -/
theorem getopt_declared (hpending : ∀ c ∈ pending, declared optstring c = some true)
    (h : getopt optstring pending args = .ok (opts, operands)) :
    ∀ o ∈ opts, o.Declared optstring := by
  have hnone : ∀ c ∈ (none : Option Char), declared optstring c = some true := by simp
  induction args generalizing pending opts operands with
  | nil =>
    cases pending with
    | none =>
      cases h
      simp
    | some c => cases h
  | cons w rest ih =>
    cases pending with
    | some c =>
      rw [getopt] at h
      split at h
      · cases h
      · rename_i hrest
        cases h
        intro o ho
        obtain rfl | ho := List.mem_cons.mp ho
        · exact hpending c rfl
        · exact ih hnone hrest o ho
    | none =>
      rw [getopt] at h
      split at h
      · cases h
        simp
      split at h
      · split at h
        · cases h
        · rename_i hrest
          cases h
          exact ih hnone hrest
      · split at h
        · cases h
        rename_i hcluster
        split at h
        · cases h
        rename_i hrest
        cases h
        obtain ⟨hfound, hpending'⟩ := cluster_declared hcluster
        intro o ho
        obtain ho | ho := List.mem_append.mp ho
        · exact hfound o ho
        · exact ih hpending' hrest o ho

theorem getopt_words {o : Opt} (ho : o.Declared optstring) (hdash : '-' ∉ optstring)
    (hrest : getopt optstring none rest = .ok (opts, operands)) :
    getopt optstring none (o.words ++ rest) = .ok (o :: opts, operands) := by
  obtain ⟨letter, argument⟩ := o
  have hletter : letter ≠ '-' := by
    rintro rfl
    rw [Opt.Declared, declared_of_not_mem hdash] at ho
    cases ho
  have hne : (['-', letter] : Word) ≠ ['-', '-'] := by simpa using hletter
  cases argument with
  | none =>
    have hfalse : declared optstring letter = some false := ho
    simp only [Opt.words, Option.toList_none, List.singleton_append]
    rw [getopt, if_neg hne, optionLetters]
    simp only [cluster, hfalse, hrest, List.singleton_append]
  | some argument =>
    have htrue : declared optstring letter = some true := ho
    simp only [Opt.words, Option.toList_some, List.cons_append, List.nil_append]
    rw [getopt, if_neg hne, optionLetters]
    simp only [cluster, htrue, if_true, getopt, hrest, List.nil_append]

/-- The normal form of a command line is scanned alike. -/
theorem getopt_normalForm (hdash : '-' ∉ optstring)
    (h : getopt optstring none args = .ok (opts, operands)) :
    getopt optstring none (normalForm opts operands) = .ok (opts, operands) := by
  have hdeclared := getopt_declared (by simp) h
  clear h
  induction opts with
  | nil => rfl
  | cons o opts ih =>
    have hrest := ih fun o' ho' => hdeclared o' (List.mem_cons_of_mem o ho')
    have hshape : normalForm (o :: opts) operands = o.words ++ normalForm opts operands := by
      rw [normalForm, List.flatMap_cons, List.append_assoc, normalForm]
    rw [hshape]
    exact getopt_words (hdeclared o List.mem_cons_self) hdash hrest

end Scan

end Zectl.Lib.GetOpt
