import Mathlib.Algebra.Group.Nat.Defs
import Mathlib.Data.Nat.Log

/-!
# Numbers in three digits and a unit

A number is written in the largest unit that it reaches, a power of 1024, to three significant
digits. What the text denotes is the number itself only for the numbers that have such a text.
-/

namespace Zectl.Lib.ThreeDigits

/-- The largest power of 1024 that the number reaches. -/
def unitOf (n : Nat) : Nat := 1024 ^ Nat.log 1024 n

/-- The power of ten by which three digits of the number are whole. -/
def scale (n : Nat) : Nat :=
  if n / unitOf n < 10 then 100 else if n / unitOf n < 100 then 10 else 1

/-- The whole number next to a quotient, the even one of two. -/
def nearest (a b : Nat) : Nat :=
  if 2 * (a % b) < b then a / b
  else if b < 2 * (a % b) then a / b + 1
  else if a / b % 2 = 0 then a / b else a / b + 1

/-- The whole number that the three digits and the unit denote. -/
def rounded (n : Nat) : Nat := nearest (n * scale n) (unitOf n) * unitOf n / scale n

/-- Three digits in the unit of the number denote it. -/
def IsThreeDigit (n : Nat) : Prop := ∃ digits, n = digits * unitOf n / scale n

/-- The digits in which a number is kept. -/
def decimal (n : Nat) : List Char := Nat.toDigits 10 n

theorem decimal_inj {m n : Nat} (h : decimal m = decimal n) : m = n := by
  have hread := congrArg (fun ds => Nat.ofDigitChars 10 ds 0) h
  simpa only [decimal, Nat.ofDigitChars_toDigits (by decide : 1 < 10) (Nat.le_refl 10)] using hread

theorem scale_pos (n : Nat) : 0 < scale n := by
  unfold scale
  split
  · decide
  · split <;> decide

theorem scale_le (n : Nat) : scale n ≤ 100 := by
  unfold scale
  split
  · decide
  · split <;> decide

/-- A unit is the number one or large against any scale. -/
theorem unitOf_cases (n : Nat) : unitOf n = 1 ∨ 1024 ≤ unitOf n := by
  unfold unitOf
  cases Nat.log 1024 n with
  | zero => exact .inl rfl
  | succ k => exact .inr (Nat.le_self_pow (Nat.succ_ne_zero k) 1024)

/-- A quotient a little below a whole number rounds to it. -/
theorem nearest_of_close {a b m : Nat} (hle : a ≤ m * b) (hclose : 2 * (m * b - a) < b) :
    nearest a b = m := by
  by_cases heq : a = m * b
  · subst heq
    rw [nearest, Nat.mul_mod_left, if_pos (by omega), Nat.mul_div_cancel m (by omega)]
  · have hm : 0 < m := by
      by_contra hzero
      obtain rfl : m = 0 := by omega
      omega
    have hsplit : m * b = (m - 1) * b + b := by
      rw [← Nat.succ_mul]
      congr 1
      omega
    have hdiv : a / b = m - 1 := by
      apply Nat.div_eq_of_lt_le
      · omega
      · rw [Nat.succ_mul]
        omega
    have hmod : a % b = a - (m - 1) * b := by
      have hparts := Nat.div_add_mod a b
      rw [hdiv, Nat.mul_comm] at hparts
      omega
    rw [nearest, hmod, hdiv, if_neg (by omega), if_pos (by omega)]
    omega

/-- The text of a number denotes the number exactly when three digits do. -/
theorem rounded_eq_iff {n : Nat} : rounded n = n ↔ IsThreeDigit n := by
  constructor
  · exact fun h => ⟨_, h.symm⟩
  · rintro ⟨m, hm⟩
    have hscale := scale_pos n
    obtain hunit | hunit := unitOf_cases n
    · have hexact : nearest (n * scale n) 1 = n * scale n :=
        nearest_of_close (by omega) (by omega)
      rw [rounded, hunit, hexact, Nat.mul_one, Nat.mul_div_cancel n hscale]
    · have hle : n * scale n ≤ m * unitOf n := (Nat.le_div_iff_mul_le hscale).mp (Nat.le_of_eq hm)
      have hlt : m * unitOf n < n * scale n + scale n := by
        rw [← Nat.succ_mul]
        apply (Nat.div_lt_iff_lt_mul hscale).mp
        omega
      have hclose := scale_le n
      have hnearest : nearest (n * scale n) (unitOf n) = m :=
        nearest_of_close hle (by omega)
      rw [rounded, hnearest]
      exact hm.symm

example : rounded 1536 = 1536 ∧ rounded 1073741825 = 1073741824 := by decide +kernel

end Zectl.Lib.ThreeDigits
