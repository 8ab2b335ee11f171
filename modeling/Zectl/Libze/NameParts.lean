import Zectl.Libze.Create

/-!
# Names taken apart

Five helpers look for the last delimiter of a name. They agree on where it is and on which
names fit, so what one cuts off is what another keeps.
-/

namespace Zectl.Libze.NameParts

open Zectl.Lib.PathOrder Zectl.Util.CString Zectl.Zfs.System Zectl.Libze.Create

/-- What the helpers make of a text: `a` before its last delimiter and `b` behind it. -/
structure TakenApart (d : Char) (buflen : Nat) (s a b : CStr) : Prop where
  eq : s = a ++ d :: b
  last : d ∉ b
  split : libzeUtilSplit s buflen d = (0, a, b)
  cut : libzeUtilCut s buflen d = (0, a)
  suffix : libzeUtilSuffixAfterString a s buflen = (0, b)
  envName : d = '/' → libzeBootEnvName s buflen = (0, b)
  snap : d = '@' → buflen = zfsMaxDatasetNameLen → getSnapAndDataset s = (.success, a, b)

/-- No helper that looks for the delimiter takes the text. -/
structure Refused (d : Char) (buflen : Nat) (s : CStr) : Prop where
  split : (libzeUtilSplit s buflen d).1 ≠ 0
  cut : (libzeUtilCut s buflen d).1 ≠ 0
  envName : d = '/' → (libzeBootEnvName s buflen).1 ≠ 0
  snap : d = '@' → buflen = zfsMaxDatasetNameLen → (getSnapAndDataset s).1 ≠ .success

section Parts
variable {d : Char} {buflen : Nat} {s a b : CStr}

theorem cut_of_last (hs : s.length < buflen) (heq : s = a ++ d :: b) (hlast : d ∉ b) :
    libzeUtilCut s buflen d = (0, a) :=
  libzeUtilCut_eq_ok_iff.mpr ⟨hs, b, heq, hlast⟩

theorem split_of_last (hs : s.length < buflen) (heq : s = a ++ d :: b) (hlast : d ∉ b) :
    libzeUtilSplit s buflen d = (0, a, b) := by
  have hb : b.length < buflen := by
    rw [heq, List.length_append, List.length_cons] at hs
    omega
  have hsplit : splitLast d s = some (a, b) := splitLast_eq_some.mpr ⟨heq, hlast⟩
  unfold libzeUtilSplit
  dsimp only [strlcpy]
  rw [if_neg (Nat.not_le.mpr hs), take_of_fits hs, hsplit]
  dsimp only
  rw [if_neg (Nat.not_le.mpr hb), take_of_fits hb]

/-- The suffix is what is behind a prefix of that length and one more character. -/
theorem suffix_of_append (hs : s.length < buflen) (heq : s = a ++ d :: b) :
    libzeUtilSuffixAfterString a s buflen = (0, b) := by
  have hlen : a.length + 1 + b.length = s.length := by
    rw [heq, List.length_append, List.length_cons]
    omega
  have hdrop : s.drop (a.length + 1) = b := by
    rw [heq]
    simp
  have hb : b.length < buflen := by omega
  unfold libzeUtilSuffixAfterString
  dsimp only [strlcpy]
  rw [if_neg (Nat.not_le.mpr hs), take_of_fits hs, if_neg (by omega), hdrop,
    if_neg (Nat.not_le.mpr hb), take_of_fits hb]

theorem getSnapAndDataset_of_last (hs : s.length < zfsMaxDatasetNameLen) (heq : s = a ++ '@' :: b)
    (hlast : '@' ∉ b) : getSnapAndDataset s = (.success, a, b) := by
  unfold getSnapAndDataset
  rw [cut_of_last hs heq hlast]
  dsimp only
  rw [if_neg (by decide), suffix_of_append hs heq]
  rfl

/-- A text the cut takes fits and has the delimiter. -/
theorem fits_of_cut (h : (libzeUtilCut s buflen d).1 = 0) : s.length < buflen ∧ d ∈ s := by
  obtain ⟨hs, after, heq, -⟩ := libzeUtilCut_eq_ok_iff.mp (Prod.ext h rfl)
  refine ⟨hs, ?_⟩
  rw [heq]
  simp

theorem takenApart (hs : s.length < buflen) (hd : d ∈ s) : ∃ a b, TakenApart d buflen s a b := by
  obtain ⟨⟨a, b⟩, hsplit⟩ := Option.ne_none_iff_exists'.mp (mt splitLast_eq_none.mp (not_not.mpr hd))
  obtain ⟨heq, hlast⟩ := eq_append_of_splitLast hsplit
  refine ⟨a, b, ?_⟩
  constructor
  · exact heq
  · exact hlast
  · exact split_of_last hs heq hlast
  · exact cut_of_last hs heq hlast
  · exact suffix_of_append hs heq
  · rintro rfl
    exact libzeBootEnvName_eq_ok_iff.mpr ⟨hs, hlast, a, heq⟩
  · rintro rfl rfl
    exact getSnapAndDataset_of_last hs heq hlast

theorem refused (h : ¬ (s.length < buflen ∧ d ∈ s)) : Refused d buflen s := by
  constructor
  · intro hcode
    rcases hrun : libzeUtilSplit s buflen d with ⟨code, a, b⟩
    rw [hrun] at hcode
    have hsplit := libzeUtilSplit_ok hrun (not_not.mpr hcode)
    obtain ⟨heq, -⟩ := eq_append_of_splitLast hsplit
    have hmem : d ∈ s := by
      rw [heq]
      simp
    have hlong : buflen ≤ s.length := Nat.not_lt.mp fun hs => h ⟨hs, hmem⟩
    unfold libzeUtilSplit at hrun
    dsimp only [strlcpy] at hrun
    rw [if_pos hlong] at hrun
    cases hrun
    cases hcode
  · exact fun hcode => h (fits_of_cut hcode)
  · rintro rfl hcode
    obtain ⟨hs, -, before, heq⟩ := libzeBootEnvName_eq_ok_iff.mp (Prod.ext hcode rfl)
    refine h ⟨hs, ?_⟩
    rw [heq]
    simp
  · rintro rfl rfl hret
    have hcode : ¬ (libzeUtilCut s zfsMaxDatasetNameLen '@').1 = 0 := fun hcode =>
      h (fits_of_cut hcode)
    unfold getSnapAndDataset at hret
    dsimp only at hret
    rw [if_pos hcode] at hret
    cases hret

end Parts

/-- The helpers agree on every text: they take it apart at the same place, or refuse it. -/
theorem helpers_agree (d : Char) (buflen : Nat) (s : CStr) :
    if s.length < buflen ∧ d ∈ s then ∃ a b, TakenApart d buflen s a b else Refused d buflen s := by
  split
  · rename_i h
    exact takenApart h.1 h.2
  · rename_i h
    exact refused h

/-- What was taken apart is put together again by a concatenation into a buffer of its size. -/
theorem TakenApart.concat {d : Char} {buflen : Nat} {s a b : CStr} (h : TakenApart d buflen s a b)
    (hs : s.length < buflen) : libzeUtilConcat a [d] b buflen = (0, s) := by
  have hshape : a ++ [d] ++ b = s := by
    rw [h.eq]
    simp
  rw [← hshape] at hs ⊢
  exact libzeUtilConcat_buf hs

example : (libzeUtilCut "zroot/ROOT/env@snap@day" 256 '@').2 = "zroot/ROOT/env@snap".toList := by
  decide +kernel

end Zectl.Libze.NameParts
