import Mathlib.Data.Nat.ModEq
import Mathlib.Tactic.Ring
import Zectl.Util.Replace

/-!
# The loops of `libze_util_replace_string`

One loop counts the occurrences, the buffer is sized from their number in unsigned
arithmetic, and a second loop copies the pieces of the line and the replacements into it.
A run without a result has left the buffer, followed a null pointer or counted too far.
-/

namespace Zectl.Util.ReplaceString

open Zectl.Util.CString Zectl.Util.Replace Zectl.Zfs.System

/-- The difference of two `size_t`. -/
def sizeSub (a b : Nat) : Nat := (a + (2 ^ 64 - b % 2 ^ 64)) % 2 ^ 64

/-- Where `strstr` finds the second string in the first. -/
def strstr : CStr → CStr → Option Nat
  | [], needle => if needle = [] then some 0 else none
  | c :: rest, needle =>
    if needle.isPrefixOf (c :: rest) then some 0 else (strstr rest needle).map (· + 1)

/-- The first loop. Every round of it leaves a shorter text. -/
def countOccurrences (toReplace : CStr) : Nat → CStr → Nat
  | 0, _ => 0
  | n + 1, insertLocation =>
    match strstr insertLocation toReplace with
    | none => 0
    | some found =>
      countOccurrences toReplace n (insertLocation.drop (found + toReplace.length)) + 1

/-- `strlcpy` to the end of what the buffer holds, with what is left of it. -/
def strlcpyEnd (bufSize : Nat) (result text : CStr) : Option LibzeError :=
  let bufLeft := sizeSub bufSize result.length
  let (len, copied) := strlcpy text bufLeft
  if 0 < bufLeft ∧ bufSize < result.length + copied.length + 1 then none
  else if bufLeft ≤ len then some .maxpathlen
  else some .success

/-- The second loop, with the rest of the line and what is before the end of the result. -/
def copyReplacements (toReplace replacement : CStr) (bufSize : Nat) :
    Nat → CStr → CStr → Option (LibzeError × CStr × CStr)
  | 0, tmpLineLoc, result => some (.success, tmpLineLoc, result)
  | count + 1, tmpLineLoc, result =>
    match strstr tmpLineLoc toReplace with
    | none => none
    | some lenBetween =>
      if bufSize < result.length + lenBetween then none else do
      let result := result ++ tmpLineLoc.take lenBetween
      let ret ← strlcpyEnd bufSize result replacement
      if ret ≠ .success then return (ret, tmpLineLoc, result)
      copyReplacements toReplace replacement bufSize count
        (tmpLineLoc.drop (lenBetween + toReplace.length)) (result ++ replacement)

/-- `libze_util_replace_string`, loop by loop. -/
def libzeUtilReplaceString (toReplace : CStr) (replacement : Option CStr) (lineLength : Nat)
    (line : CStr) (lineReplacedLength : Nat) : Option (LibzeError × CStr) :=
  if toReplace = [] then
    let (len, lineReplaced) := strlcpy line lineReplacedLength
    if lineReplacedLength ≤ len then some (.maxpathlen, lineReplaced)
    else some (.success, lineReplaced)
  else
    let replacement := replacement.getD []
    if lineLength ≤ line.length then some (.maxpathlen, []) else
    let count := countOccurrences toReplace line.length line
    -- an `int` counts the occurrences
    if 2 ^ 31 ≤ count then none else do
    let bufSize :=
      (line.length + sizeSub replacement.length toReplace.length * count + 1) % 2 ^ 64
    let (ret, tmpLineLoc, result) ← copyReplacements toReplace replacement bufSize count line []
    if ret ≠ .success then return (ret, [])
    let ret ← strlcpyEnd bufSize result tmpLineLoc
    if ret ≠ .success then return (ret, [])
    let (len, lineReplaced) := strlcpy (result ++ tmpLineLoc) lineReplacedLength
    if lineReplacedLength ≤ len then return (.maxpathlen, lineReplaced)
    return (.success, lineReplaced)

/-- The line with all occurrences replaced. -/
def replaced (toReplace : CStr) (replacement : Option CStr) (line : CStr) : CStr :=
  if toReplace = [] then line else replaceOccurrences toReplace (replacement.getD []) 0 line

section Search
variable {needle text line replacement : CStr} {n k : Nat}

theorem replaceOccurrences_skip : ∀ (k : Nat) (line : CStr),
    replaceOccurrences needle replacement k line =
      replaceOccurrences needle replacement 0 (line.drop k)
  | 0, _ => rfl
  | _ + 1, [] => by simp [replaceOccurrences]
  | k + 1, _ :: rest => by
    rw [replaceOccurrences, List.drop_succ_cons]
    exact replaceOccurrences_skip k rest

/-- Without an occurrence nothing is replaced. -/
theorem replaceOccurrences_of_none (hfind : strstr line needle = none) :
    replaceOccurrences needle replacement 0 line = line := by
  induction line with
  | nil => rfl
  | cons c rest ih =>
    rw [strstr] at hfind
    split at hfind
    · cases hfind
    · rename_i hhere
      rw [replaceOccurrences, if_neg hhere, ih (Option.map_eq_none_iff.mp hfind)]

/-- The first occurrence cuts the line into what is kept and what is searched further. -/
theorem replaceOccurrences_of_some (hne : needle ≠ []) (hfind : strstr line needle = some n) :
    n + needle.length ≤ line.length ∧
      replaceOccurrences needle replacement 0 line = line.take n ++ replacement ++
        replaceOccurrences needle replacement 0 (line.drop (n + needle.length)) := by
  have hlength : 0 < needle.length := List.length_pos_iff.mpr hne
  induction line generalizing n with
  | nil =>
    rw [strstr, if_neg hne] at hfind
    cases hfind
  | cons c rest ih =>
    rw [strstr] at hfind
    rw [replaceOccurrences]
    split at hfind
    · rename_i hhere
      cases hfind
      have hfits := (List.isPrefixOf_iff_prefix.mp hhere).length_le
      have hdrop : (c :: rest).drop (0 + needle.length) = rest.drop (needle.length - 1) := by
        obtain ⟨m, hm⟩ := Nat.exists_eq_add_of_lt hlength
        simp [hm]
      constructor
      · omega
      · rw [if_pos hhere, replaceOccurrences_skip, hdrop]
        rfl
    · rename_i hhere
      obtain ⟨m, hm, rfl⟩ := Option.map_eq_some_iff.mp hfind
      obtain ⟨hfits, hcut⟩ := ih hm
      constructor
      · rw [List.length_cons]
        omega
      · rw [if_neg hhere, hcut, Nat.add_right_comm, List.drop_succ_cons, List.take_succ_cons]
        rfl

/-- The count gives the length of the result. -/
theorem countOccurrences_spec (hne : needle ≠ []) (henough : line.length ≤ n) :
    countOccurrences needle n line * needle.length ≤ line.length ∧
      (replaceOccurrences needle replacement 0 line).length +
          countOccurrences needle n line * needle.length =
        line.length + countOccurrences needle n line * replacement.length := by
  have hlength : 0 < needle.length := List.length_pos_iff.mpr hne
  induction n generalizing line with
  | zero =>
    obtain rfl : line = [] := List.length_eq_zero_iff.mp (by omega)
    simp [countOccurrences, replaceOccurrences]
  | succ n ih =>
    rw [countOccurrences]
    cases hfind : strstr line needle with
    | none => simp [replaceOccurrences_of_none hfind]
    | some found =>
      obtain ⟨hfits, hcut⟩ :=
        @replaceOccurrences_of_some needle line replacement found hne hfind
      obtain ⟨hle, heq⟩ := @ih (line.drop (found + needle.length)) (by
        rw [List.length_drop]
        omega)
      rw [List.length_drop] at hle heq
      dsimp only
      rw [hcut, List.length_append, List.length_append, List.length_take, Nat.add_mul, Nat.one_mul,
        Nat.add_mul, Nat.one_mul]
      constructor
      · omega
      · omega

end Search

/-! ## The buffer -/

section Buffer
variable {bufSize count : Nat} {toReplace replacement line result text : CStr}

theorem sizeSub_of_le {a b : Nat} (hle : b ≤ a) (hsize : a < 2 ^ 64) : sizeSub a b = a - b := by
  rw [sizeSub, Nat.mod_eq_of_lt (hle.trans_lt hsize)]
  omega

/-- The wrapping product is right where the result fits. -/
theorem bufSize_eq {len lenWith lenRep total : Nat}
    (htotal : total + count * lenRep = len + count * lenWith) (hrep : lenRep < 2 ^ 64)
    (hsize : total + 1 < 2 ^ 64) :
    (len + sizeSub lenWith lenRep * count + 1) % 2 ^ 64 = total + 1 := by
  have hwrap : sizeSub lenWith lenRep * count ≡ (lenWith + (2 ^ 64 - lenRep)) * count
      [MOD 2 ^ 64] := by
    rw [sizeSub, Nat.mod_eq_of_lt hrep]
    exact (Nat.mod_modEq _ _).mul_right count
  have hproduct : (lenWith + (2 ^ 64 - lenRep)) * count + count * lenRep =
      count * lenWith + 2 ^ 64 * count := by
    have hsplit : lenWith + (2 ^ 64 - lenRep) + lenRep = lenWith + 2 ^ 64 := by omega
    calc (lenWith + (2 ^ 64 - lenRep)) * count + count * lenRep
        = (lenWith + (2 ^ 64 - lenRep) + lenRep) * count := by ring
      _ = count * lenWith + 2 ^ 64 * count := by rw [hsplit]; ring
  have hsum : len + (lenWith + (2 ^ 64 - lenRep)) * count + 1 = total + 1 + 2 ^ 64 * count := by
    omega
  calc (len + sizeSub lenWith lenRep * count + 1) % 2 ^ 64
      = (len + (lenWith + (2 ^ 64 - lenRep)) * count + 1) % 2 ^ 64 :=
        (hwrap.add_left len).add_right 1
    _ = total + 1 := by rw [hsum, Nat.add_mul_mod_self_left, Nat.mod_eq_of_lt hsize]

theorem strlcpyEnd_fits (hfits : result.length + text.length < bufSize) (hsize : bufSize < 2 ^ 64) :
    strlcpyEnd bufSize result text = some .success := by
  have hleft : sizeSub bufSize result.length = bufSize - result.length :=
    sizeSub_of_le (by omega) hsize
  have hcopied : (text.take (bufSize - result.length - 1)).length = text.length := by
    rw [List.length_take]
    omega
  unfold strlcpyEnd
  rw [hleft]
  dsimp only [strlcpy]
  rw [hcopied, if_neg (by omega), if_neg (by omega)]

/-- The second loop finds what the first has counted and stays in the buffer. -/
theorem copyReplacements_eq (hne : toReplace ≠ []) {n : Nat} (henough : line.length ≤ n)
    (hsize : bufSize < 2 ^ 64) (hfits : result.length +
      (replaceOccurrences toReplace replacement 0 line).length < bufSize) :
    ∃ rest done, copyReplacements toReplace replacement bufSize
        (countOccurrences toReplace n line) line result = some (.success, rest, done) ∧
      done ++ rest = result ++ replaceOccurrences toReplace replacement 0 line := by
  have hlength : 0 < toReplace.length := List.length_pos_iff.mpr hne
  induction n generalizing line result with
  | zero =>
    obtain rfl : line = [] := List.length_eq_zero_iff.mp (by omega)
    exact ⟨[], result, rfl, rfl⟩
  | succ n ih =>
    rw [countOccurrences]
    cases hfind : strstr line toReplace with
    | none =>
      rw [replaceOccurrences_of_none hfind]
      exact ⟨line, result, rfl, rfl⟩
    | some found =>
      obtain ⟨hin, hcut⟩ :=
        @replaceOccurrences_of_some toReplace line replacement found hne hfind
      rw [hcut] at hfits ⊢
      simp only [List.length_append, List.length_take] at hfits
      have hbetween : (result ++ line.take found).length = result.length + found := by
        rw [List.length_append, List.length_take]
        omega
      have hput : strlcpyEnd bufSize (result ++ line.take found) replacement = some .success :=
        strlcpyEnd_fits (by omega) hsize
      obtain ⟨rest, done, hrun, hdone⟩ := @ih (line.drop (found + toReplace.length))
        (result ++ line.take found ++ replacement)
        (by rw [List.length_drop]; omega) (by rw [List.length_append]; omega)
      refine ⟨rest, done, ?_, ?_⟩
      · rw [copyReplacements, hfind]
        dsimp only
        rw [if_neg (by omega), hput]
        exact hrun
      · rw [hdone]
        simp only [List.append_assoc]

/-- Loop by loop the function is the replacement of all occurrences. -/
theorem libzeUtilReplaceString_eq {replacement : Option CStr} {lineLength : Nat}
    (hline : line.length < lineLength) (hint : line.length < 2 ^ 31)
    (hsize : (replaced toReplace replacement line).length + 1 < 2 ^ 64)
    (lineReplacedLength : Nat) :
    libzeUtilReplaceString toReplace replacement lineLength line lineReplacedLength =
      some (Replace.libzeUtilReplaceString toReplace (replacement.getD []) lineLength line
        lineReplacedLength) := by
  unfold libzeUtilReplaceString Replace.libzeUtilReplaceString
  by_cases hempty : toReplace = []
  · rw [if_pos hempty, if_pos hempty]
    dsimp only
    split
    · rfl
    · rfl
  rw [replaced, if_neg hempty] at hsize
  have hlength : 0 < toReplace.length := List.length_pos_iff.mpr hempty
  obtain ⟨hle, htotal⟩ :=
    @countOccurrences_spec toReplace line (replacement.getD []) line.length hempty le_rfl
  have hcount : countOccurrences toReplace line.length line ≤ line.length :=
    (Nat.le_mul_of_pos_right _ hlength).trans hle
  rw [if_neg hempty, if_neg hempty]
  dsimp only
  rw [if_neg (by omega), if_neg (by omega), if_neg (by omega)]
  have hbuf : (line.length + sizeSub (replacement.getD []).length toReplace.length *
      countOccurrences toReplace line.length line + 1) % 2 ^ 64 =
        (replaceOccurrences toReplace (replacement.getD []) 0 line).length + 1 := by
    by_cases hnone : countOccurrences toReplace line.length line = 0
    · rw [hnone] at htotal ⊢
      omega
    · have hrep : toReplace.length ≤ line.length :=
        (Nat.le_mul_of_pos_left _ (Nat.pos_of_ne_zero hnone)).trans hle
      exact bufSize_eq htotal (by omega) hsize
  rw [hbuf]
  obtain ⟨rest, done, hcopy, hdone⟩ := @copyReplacements_eq
    ((replaceOccurrences toReplace (replacement.getD []) 0 line).length + 1) toReplace
    (replacement.getD []) line [] hempty line.length le_rfl hsize (by
      rw [List.length_nil]
      omega)
  rw [List.nil_append] at hdone
  have hput : strlcpyEnd ((replaceOccurrences toReplace (replacement.getD []) 0 line).length + 1)
      done rest = some .success := by
    have hsum := congrArg List.length hdone
    rw [List.length_append] at hsum
    exact strlcpyEnd_fits (by omega) hsize
  rw [hcopy]
  simp only [Option.bind_eq_bind, Option.bind_some, ne_eq, not_true_eq_false, if_false, hput, hdone]
  split
  · rfl
  · rfl

end Buffer

/-- The replacement succeeds exactly when its result fits the output, which then holds it;
the buffer in between is never left. -/
theorem replaceString_success_iff (toReplace : CStr) (replacement : Option CStr)
    {lineLength : Nat} {line : CStr} (hline : line.length < lineLength)
    (hint : line.length < 2 ^ 31)
    (hsize : (replaced toReplace replacement line).length + 1 < 2 ^ 64)
    (lineReplacedLength : Nat) :
    ∃ ret lineReplaced,
      libzeUtilReplaceString toReplace replacement lineLength line lineReplacedLength =
        some (ret, lineReplaced) ∧
      (ret = .success ↔ (replaced toReplace replacement line).length < lineReplacedLength) ∧
      (ret = .success → lineReplaced = replaced toReplace replacement line) ∧
      (ret ≠ .success → ret = .maxpathlen) := by
  have hout : ∃ ret lineReplaced,
      Replace.libzeUtilReplaceString toReplace (replacement.getD []) lineLength line
        lineReplacedLength = (ret, lineReplaced) ∧
      (ret = .success ↔ (replaced toReplace replacement line).length < lineReplacedLength) ∧
      (ret = .success → lineReplaced = replaced toReplace replacement line) ∧
      (ret ≠ .success → ret = .maxpathlen) := by
    have hcopy : ∀ text : CStr, ∃ ret lineReplaced,
        (if lineReplacedLength ≤ (strlcpy text lineReplacedLength).1 then
          (LibzeError.maxpathlen, (strlcpy text lineReplacedLength).2)
        else (.success, (strlcpy text lineReplacedLength).2)) = (ret, lineReplaced) ∧
        (ret = .success ↔ text.length < lineReplacedLength) ∧
        (ret = .success → lineReplaced = text) ∧ (ret ≠ .success → ret = .maxpathlen) := by
      intro text
      by_cases hfit : text.length < lineReplacedLength
      · refine ⟨.success, text, ?_, by simp [hfit], fun _ => rfl, fun h => absurd rfl h⟩
        rw [strlcpy, if_neg (by omega), List.take_of_length_le (by omega)]
      · exact ⟨.maxpathlen, _, if_pos (Nat.le_of_not_lt hfit), by simp [hfit],
          LibzeError.noConfusion, fun _ => rfl⟩
    unfold Replace.libzeUtilReplaceString replaced
    by_cases hempty : toReplace = []
    · rw [if_pos hempty, if_pos hempty]
      exact hcopy line
    · rw [if_neg hempty, if_neg hempty, if_neg (by omega)]
      exact hcopy _
  obtain ⟨ret, lineReplaced, hrun, hrest⟩ := hout
  refine ⟨ret, lineReplaced, ?_, hrest⟩
  rw [libzeUtilReplaceString_eq hline hint hsize, hrun]

theorem replaceString_success_iff_shorter :
    ∃ ret lineReplaced,
      libzeUtilReplaceString "%s" (some "b") 20 "a %s %s" 6 = some (ret, lineReplaced) ∧
      (ret = .success ↔ (replaced "%s" (some "b") "a %s %s").length < 6) ∧
      (ret = .success → lineReplaced = replaced "%s" (some "b") "a %s %s") ∧
      (ret ≠ .success → ret = .maxpathlen) :=
  replaceString_success_iff "%s" (some "b") (by decide) (by decide) (by decide) 6

end Zectl.Util.ReplaceString
