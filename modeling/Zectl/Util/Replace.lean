import Zectl.Lib.BasicRegex
import Zectl.Zfs.System

/-!
# Replacing in strings

`libze_util_replace_string` and `libze_util_regex_subexpr_replace`. The second works in
place: what is before the scan position and what is from there on are two lists, and an
inserted text is scanned again from its last character.
-/

namespace Zectl.Util.Replace

open Zectl.Lib.BasicRegex Zectl.Util.CString Zectl.Zfs.System

/-- The string that ends at the first zero byte of a buffer. -/
def cString (buf : CStr) : CStr := buf.takeWhile (· ≠ '\x00')

/-- Every occurrence found from left to right; `skip` characters belong to the last one. -/
def replaceOccurrences (toReplace replacement : CStr) : Nat → CStr → CStr
  | _, [] => []
  | skip + 1, _ :: rest => replaceOccurrences toReplace replacement skip rest
  | 0, c :: rest =>
    if toReplace.isPrefixOf (c :: rest) then
      replacement ++ replaceOccurrences toReplace replacement (toReplace.length - 1) rest
    else c :: replaceOccurrences toReplace replacement 0 rest

/-- `libze_util_replace_string` -/
def libzeUtilReplaceString (toReplace replacement : CStr) (lineLength : Nat) (line : CStr)
    (lineReplacedLength : Nat) : LibzeError × CStr :=
  if toReplace = [] then
    let (len, lineReplaced) := strlcpy line lineReplacedLength
    if lineReplacedLength ≤ len then (.maxpathlen, lineReplaced) else (.success, lineReplaced)
  else if lineLength ≤ line.length then (.maxpathlen, [])
  else
    let (len, lineReplaced) :=
      strlcpy (replaceOccurrences toReplace replacement 0 line) lineReplacedLength
    if lineReplacedLength ≤ len then (.maxpathlen, lineReplaced) else (.success, lineReplaced)

/-- `ASCII_OFFSET` -/
def asciiOffset : Nat := 48

/-- The loop over the output, every round of which leaves one character fewer from the
position on. Without a result it reads what is before the output. -/
def replaceSubexprs (pmatch : Nat → Option (Nat × Nat)) (input : CStr) (outputBuflen : Nat) :
    Nat → CStr → CStr → Option (LibzeError × CStr)
  | 0, before, rest => some (.success, before ++ rest)
  | n + 1, before, rest =>
    match rest with
    | [] => some (.success, before)
    | '\\' :: next :: rest =>
      if '0' < next ∧ next ≤ '9' then
        match pmatch (next.toNat - asciiOffset) with
        | none => some (.unknown, before ++ '\\' :: next :: rest)
        | some (startOffset, endOffset) =>
          let len := endOffset - startOffset
          if outputBuflen < (before ++ '\\' :: next :: rest).length + len - 1 then
            some (.maxpathlen, before ++ '\\' :: next :: rest)
          else
            let done := before ++ (input.drop startOffset).take len
            match done.getLast? with
            | none => none
            | some c => replaceSubexprs pmatch input outputBuflen n done.dropLast (c :: rest)
      else replaceSubexprs pmatch input outputBuflen n (before ++ ['\\']) (next :: rest)
    | c :: rest => replaceSubexprs pmatch input outputBuflen n (before ++ [c]) rest

/-- `libze_util_regex_subexpr_replace` with what the output then holds. -/
def libzeUtilRegexSubexprReplace (re : Bre) (replaceBuflen : Nat) (replace input : CStr)
    (outputBuflen : Nat) : Option (LibzeError × CStr) :=
  let (len, output) := strlcpy replace replaceBuflen
  if outputBuflen ≤ len then some (.maxpathlen, output) else
  match regexec re input with
  | none => some (.success, output)
  | some m => replaceSubexprs m.group input outputBuflen output.length [] output

/-! ## A template that begins with the first group -/

section Template
variable {pmatch : Nat → Option (Nat × Nat)} {input rest : CStr} {outputBuflen : Nat}

theorem replaceSubexprs_plain (n : Nat) {before : CStr} (hrest : '\\' ∉ rest) :
    replaceSubexprs pmatch input outputBuflen n before rest = some (.success, before ++ rest) := by
  induction n generalizing before rest with
  | zero => rfl
  | succ n ih =>
    cases rest with
    | nil => simp [replaceSubexprs]
    | cons c rest =>
      obtain ⟨hc, htail⟩ : c ≠ '\\' ∧ '\\' ∉ rest := by simpa [eq_comm] using hrest
      unfold replaceSubexprs
      split
      · rename_i heq
        cases heq
      · rename_i heq
        cases heq
        exact absurd rfl hc
      · rename_i heq
        cases heq
        rw [ih htail, List.append_assoc, List.singleton_append]

/-- A backslash that is not followed by a digit stays. -/
theorem replaceSubexprs_cons (n : Nat) {before : CStr} {c : Char} (hrest : '\\' ∉ rest)
    (hdigit : ∀ d ∈ rest.head?, ¬ ('0' < d ∧ d ≤ '9')) :
    replaceSubexprs pmatch input outputBuflen n before (c :: rest) =
      some (.success, before ++ c :: rest) := by
  have hstep : ∀ n, replaceSubexprs pmatch input outputBuflen n (before ++ [c]) rest =
      some (.success, before ++ c :: rest) := by
    intro n
    rw [replaceSubexprs_plain n hrest, List.append_assoc, List.singleton_append]
  cases n with
  | zero => rfl
  | succ n =>
    unfold replaceSubexprs
    split
    · rename_i heq
      cases heq
    · rename_i heq
      cases heq
      rw [if_neg (hdigit _ rfl)]
      exact hstep n
    · rename_i heq
      cases heq
      exact hstep n

theorem replaceSubexprs_first {len : Nat} (n : Nat) (hgroup : pmatch 1 = some (0, len))
    (hlen : 0 < len) (hinput : len ≤ input.length) (hrest : '\\' ∉ rest)
    (hdigit : ∀ d ∈ rest.head?, ¬ ('0' < d ∧ d ≤ '9')) :
    replaceSubexprs pmatch input outputBuflen (n + 1) [] ('\\' :: '1' :: rest) =
      some (if len + rest.length < outputBuflen then (.success, input.take len ++ rest)
        else (.maxpathlen, '\\' :: '1' :: rest)) := by
  have hne : input.take len ≠ [] := by
    rw [← List.length_pos_iff, List.length_take_of_le hinput]
    exact hlen
  have hindex : pmatch ('1'.toNat - asciiOffset) = some (0, len) := hgroup
  rw [replaceSubexprs, if_pos (by decide), hindex]
  simp only [List.nil_append, List.length_cons, Nat.sub_zero, List.drop_zero]
  by_cases hfit : len + rest.length < outputBuflen
  · rw [if_neg (by omega), List.getLast?_eq_some_getLast hne, if_pos hfit]
    dsimp only
    rw [replaceSubexprs_cons n hrest hdigit, List.append_cons,
      List.dropLast_append_getLast hne]
  · rw [if_pos (by omega), if_neg hfit]

end Template

end Zectl.Util.Replace
