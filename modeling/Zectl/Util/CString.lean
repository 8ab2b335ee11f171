import Zectl.Lib.PathOrder

/-!
# Bounded strings and the name helpers of `libze_util.c`

A C string is the list of its characters before the terminator. A helper that
writes into a buffer of a given length returns its code and what the buffer then
holds, also when it fails: some callers ignore the code and use the buffer.
-/

namespace Zectl.Util.CString

open Zectl.Lib.PathOrder

abbrev CStr := List Char

instance : LawfulBEq CStr := inferInstanceAs (LawfulBEq (List Char))

instance : Coe String CStr := ⟨String.toList⟩

/-- `ZFS_MAX_DATASET_NAME_LEN`, the terminator included. -/
def zfsMaxDatasetNameLen : Nat := 256

/-- `ZFS_MAXPROPLEN`, the terminator included. -/
def zfsMaxproplen : Nat := 4096

/-- `LIBZE_MAX_PATH_LEN`, the terminator included. -/
def libzeMaxPathLen : Nat := 255

/-- `ZE_PROP_NAMESPACE` -/
def zePropNamespace : CStr := "org.zectl"

/-- The text `printf` makes of a format cut at its conversions. -/
def format (parts : List CStr) : CStr := parts.flatten

/-- The length `strlcpy` reports and the buffer it leaves. -/
def strlcpy (src : CStr) (size : Nat) : Nat × CStr := (src.length, src.take (size - 1))

/-- The length `strlcat` tried to build and the buffer it leaves. -/
def strlcat (buf src : CStr) (size : Nat) : Nat × CStr :=
  if size ≤ buf.length then (size + src.length, buf)
  else (buf.length + src.length, buf ++ src.take (size - 1 - buf.length))

/-- `libze_util_concat` -/
def libzeUtilConcat (pfx separator suffix : CStr) (buflen : Nat) : Int × CStr :=
  let buf := (strlcpy [] buflen).2
  let (len, buf) := strlcat buf pfx buflen
  if buflen ≤ len then (-1, buf) else
  let (len, buf) := strlcat buf separator buflen
  if buflen ≤ len then (-1, buf) else
  let (len, buf) := strlcat buf suffix buflen
  if buflen ≤ len then (-1, buf) else (0, buf)

/-- `libze_util_cut`: the part before the last delimiter. -/
def libzeUtilCut (path : CStr) (buflen : Nat) (delimiter : Char) : Int × CStr :=
  let (len, buf) := strlcpy path buflen
  if buflen ≤ len then (-1, buf) else
  match splitLast delimiter buf with
  | none => (-1, buf)
  | some (before, _) => (0, before)

/-- `libze_util_split`: both parts around the last delimiter. -/
def libzeUtilSplit (path : CStr) (buflen : Nat) (delimiter : Char) : Int × CStr × CStr :=
  let (len, bufPre) := strlcpy path buflen
  if buflen ≤ len then (-1, bufPre, []) else
  match splitLast delimiter bufPre with
  | none => (-1, bufPre, [])
  | some (before, after) =>
    let (len, bufPost) := strlcpy after buflen
    if buflen ≤ len then (-1, before, bufPost) else (0, before, bufPost)

/-- `libze_util_suffix_after_string`. For a dataset that is the root itself the
copy starts one past the terminator, in the zero bytes of the caller's buffer. -/
def libzeUtilSuffixAfterString (root dataset : CStr) (buflen : Nat) : Int × CStr :=
  let (len, buf) := strlcpy dataset buflen
  if buflen ≤ len then (-1, buf) else
  let loc := root.length + 1
  if buflen ≤ loc then (-1, buf) else
  let (len, buf) := strlcpy (buf.drop loc) buflen
  if buflen ≤ len then (-1, buf) else (0, buf)

/-- `libze_boot_env_name`: the part after the last slash. -/
def libzeBootEnvName (dataset : CStr) (buflen : Nat) : Int × CStr :=
  let (len, buf) := strlcpy dataset buflen
  if buflen ≤ len then (-1, buf) else
  match splitLast '/' buf with
  | none => (-1, buf)
  | some (_, after) =>
    let (len, buf) := strlcpy after buflen
    if buflen ≤ len then (-1, buf) else (0, buf)

/-- `libze_get_zpool_name_from_dataset`: everything up to the first slash. -/
def libzeGetZpoolNameFromDataset (dataset : CStr) (buflen : Nat) : Int × CStr :=
  let pool := dataset.takeWhile (· ≠ '/')
  if pool ≠ [] ∧ pool.length < dataset.length ∧ pool.length < buflen then (0, pool) else (-1, [])

/-! ## What the helpers compute -/

theorem take_of_fits {src : CStr} {size : Nat} (h : src.length < size) :
    src.take (size - 1) = src := List.take_of_length_le (by omega)

/-- Concatenation succeeds exactly when the result and its terminator fit, and
leaves as much of the result as fits in either case. -/
theorem libzeUtilConcat_eq (pfx separator suffix : CStr) {buflen : Nat} (hb : 0 < buflen) :
    libzeUtilConcat pfx separator suffix buflen =
      (if (pfx ++ separator ++ suffix).length < buflen then 0 else -1,
        (pfx ++ separator ++ suffix).take (buflen - 1)) := by
  have hcat : ∀ buf src : CStr, buf.length < buflen →
      strlcat buf src buflen = (buf.length + src.length, (buf ++ src).take (buflen - 1)) := by
    intro buf src h
    rw [strlcat, if_neg (by omega), List.take_append, take_of_fits h]
  have htake : ∀ buf rest : CStr, buflen ≤ buf.length →
      (buf ++ rest).take (buflen - 1) = buf.take (buflen - 1) := fun buf rest h =>
    List.take_append_of_le_length (by omega)
  have hnil : ([] : CStr).length < buflen := hb
  by_cases h1 : buflen ≤ pfx.length
  · simp [libzeUtilConcat, strlcpy, hcat _ _ hnil, h1, htake _ _ h1]
    omega
  have hp : pfx.length < buflen := by omega
  by_cases h2 : buflen ≤ (pfx ++ separator).length
  · have h2' : buflen ≤ pfx.length + separator.length := by simpa using h2
    have ht := htake (pfx ++ separator) suffix h2
    simp [libzeUtilConcat, strlcpy, hcat _ _ hnil, h1, take_of_fits hp, hcat _ _ hp, h2'] at ht ⊢
    exact ⟨by omega, ht.symm⟩
  have hps : (pfx ++ separator).length < buflen := by omega
  have h2' : ¬ buflen ≤ pfx.length + separator.length := by simpa using h2
  simp only [libzeUtilConcat, strlcpy, List.take_nil, hcat _ _ hnil, List.length_nil, Nat.zero_add,
    List.nil_append, h1, take_of_fits hp, hcat _ _ hp, h2', take_of_fits hps, hcat _ _ hps, if_false]
  have hlen : (pfx ++ separator).length + suffix.length = (pfx ++ separator ++ suffix).length := by
    simp only [List.length_append]
  rw [hlen]
  by_cases h3 : buflen ≤ (pfx ++ separator ++ suffix).length
  · rw [if_pos h3, if_neg (by omega)]
  · rw [if_neg h3, if_pos (by omega)]

theorem libzeUtilConcat_eq_ok_iff {pfx separator suffix buf : CStr} {buflen : Nat}
    (hb : 0 < buflen) :
    libzeUtilConcat pfx separator suffix buflen = (0, buf) ↔
      (pfx ++ separator ++ suffix).length < buflen ∧ buf = pfx ++ separator ++ suffix := by
  rw [libzeUtilConcat_eq _ _ _ hb]
  by_cases hfit : (pfx ++ separator ++ suffix).length < buflen
  · rw [if_pos hfit, take_of_fits hfit]
    simp only [Prod.mk.injEq, true_and, hfit, eq_comm]
  · rw [if_neg hfit]
    simp only [Prod.mk.injEq, hfit, false_and, iff_false, not_and]
    intro hcode
    cases hcode

theorem libzeUtilConcat_buf {pfx separator suffix : CStr} {buflen : Nat}
    (h : (pfx ++ separator ++ suffix).length < buflen) :
    libzeUtilConcat pfx separator suffix buflen = (0, pfx ++ separator ++ suffix) :=
  (libzeUtilConcat_eq_ok_iff (by omega)).mpr ⟨h, rfl⟩

theorem libzeUtilCut_eq_ok_iff {path buf : CStr} {buflen : Nat} {d : Char} :
    libzeUtilCut path buflen d = (0, buf) ↔
      path.length < buflen ∧ ∃ after, path = buf ++ d :: after ∧ d ∉ after := by
  by_cases hlen : buflen ≤ path.length
  · have hlt : ¬ path.length < buflen := by omega
    simp [libzeUtilCut, strlcpy, hlen, hlt]
  · have hlt : path.length < buflen := by omega
    simp only [libzeUtilCut, strlcpy, hlen, if_false, take_of_fits hlt, hlt, true_and]
    cases hs : splitLast d path with
    | none =>
      simp only [Prod.mk.injEq, Int.reduceNeg, Int.reduceEq, false_and, false_iff, not_exists,
        not_and]
      intro after he
      have hmem := splitLast_eq_none.mp hs
      simp [he] at hmem
    | some ab =>
      obtain ⟨a, b⟩ := ab
      obtain ⟨rfl, hb⟩ := eq_append_of_splitLast hs
      constructor
      · intro h
        cases h
        exact ⟨b, rfl, hb⟩
      · rintro ⟨after, he, ha⟩
        rw [(append_cons_inj hb ha he).1]

theorem libzeUtilSplit_ok {path before after : CStr} {code : Int} {buflen : Nat} {d : Char}
    (h : libzeUtilSplit path buflen d = (code, before, after)) (hcode : ¬ code ≠ 0) :
    splitLast d path = some (before, after) := by
  rw [not_not.mp hcode] at h
  unfold libzeUtilSplit at h
  by_cases hlen : buflen ≤ path.length
  · dsimp only [strlcpy] at h
    rw [if_pos hlen] at h
    cases h
  · dsimp only [strlcpy] at h
    rw [if_neg hlen, take_of_fits (Nat.not_le.mp hlen)] at h
    cases hs : splitLast d path with
    | none =>
      rw [hs] at h
      cases h
    | some ab =>
      obtain ⟨a, b⟩ := ab
      obtain ⟨hpath, -⟩ := eq_append_of_splitLast hs
      have hfit : b.length < buflen := by
        have hsplit := congrArg List.length hpath
        rw [List.length_append, List.length_cons] at hsplit
        omega
      rw [hs] at h
      dsimp only at h
      rw [if_neg (Nat.not_le.mpr hfit), take_of_fits hfit] at h
      cases h
      rfl

theorem libzeBootEnvName_eq_ok_iff {dataset buf : CStr} {buflen : Nat} :
    libzeBootEnvName dataset buflen = (0, buf) ↔
      dataset.length < buflen ∧ '/' ∉ buf ∧ ∃ before, dataset = before ++ '/' :: buf := by
  by_cases hlen : buflen ≤ dataset.length
  · have hlt : ¬ dataset.length < buflen := by omega
    simp [libzeBootEnvName, strlcpy, hlen, hlt]
  · have hlt : dataset.length < buflen := by omega
    simp only [libzeBootEnvName, strlcpy, hlen, if_false, take_of_fits hlt, hlt, true_and]
    cases hs : splitLast '/' dataset with
    | none =>
      simp only [Prod.mk.injEq, Int.reduceNeg, Int.reduceEq, false_and, false_iff, not_and,
        not_exists]
      intro _ before he
      have hmem := splitLast_eq_none.mp hs
      simp [he] at hmem
    | some ab =>
      obtain ⟨a, b⟩ := ab
      obtain ⟨rfl, hb⟩ := eq_append_of_splitLast hs
      have hfit : b.length < buflen := by simp at hlt; omega
      have hnot : ¬ buflen ≤ b.length := by omega
      simp only [hnot, if_false, take_of_fits hfit, Prod.mk.injEq, true_and]
      constructor
      · rintro rfl
        exact ⟨hb, a, rfl⟩
      · rintro ⟨hbuf, before, he⟩
        exact (append_cons_inj hb hbuf he).2

end Zectl.Util.CString
