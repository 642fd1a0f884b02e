import Mathlib.Algebra.Order.Round
import Mathlib.Data.Int.Log
import Mathlib.Data.Rat.Floor
import Mathlib.Order.WithBot
import Mathlib.Tactic.Linarith
import Mathlib.Tactic.NormNum
import Mathlib.Tactic.Positivity

/-!
# Support — doubles

The double an exact result is rounded to: the nearest number with 53 binary digits, and the one
whose last digit is 0 of two that are as near.  Too large a result is infinite, `⊤`; results so
small that their doubles are subnormal, and negative ones that are too large, are left out.

A positive result has a positive double, `ofRat_pos`; a natural number below 2⁵³ is a double,
`ofRat_natCast`.
-/

namespace Binary64

/-- The nearest integer, and the even one of two. -/
def roundEven (x : ℚ) : ℤ :=
  if Int.fract x = 1 / 2 ∧ round x % 2 = 1 then round x - 1 else round x

/-- The distance of the doubles about `x`. -/
def ulp (x : ℚ) : ℚ := 2 ^ (Int.log 2 |x| - 52)

def nearest (x : ℚ) : ℚ := roundEven (x / ulp x) * ulp x

/-- The double of `x`, if it is not too large. -/
def ofRat (x : ℚ) : WithTop ℚ := if 2 ^ 1024 ≤ nearest x then ⊤ else (nearest x : WithTop ℚ)

variable {x : ℚ}

@[simp] theorem roundEven_intCast (n : ℤ) : roundEven (n : ℚ) = n := by simp [roundEven]

theorem roundEven_pos (hx : 1 < x) : 0 < roundEven x := by
  have hround : 1 ≤ round x := by
    rw [round_eq, Int.le_floor]
    push_cast
    linarith
  unfold roundEven
  split
  · rename_i h
    -- a half is rounded up first, to 2 at least
    have hceil : 1 < round x := by
      have hhalf : x + 1 / 2 = (⌊x⌋ + 1 : ℤ) := by
        push_cast
        linarith [Int.floor_add_fract x, h.1]
      rw [round_eq, hhalf, Int.floor_intCast]
      have : 1 ≤ ⌊x⌋ := Int.le_floor.mpr (by exact_mod_cast hx.le)
      omega
    omega
  · omega

theorem ulp_pos (x : ℚ) : 0 < ulp x := zpow_pos two_pos _

/-- A double has 53 digits. -/
theorem lt_div_ulp (hx : 0 < x) : 1 < x / ulp x := by
  rw [one_lt_div (ulp_pos x), ulp, abs_of_pos hx]
  calc (2 : ℚ) ^ (Int.log 2 x - 52) < 2 ^ Int.log 2 x :=
        zpow_lt_zpow_right₀ one_lt_two (sub_lt_self _ (by norm_num))
    _ ≤ x := by exact_mod_cast Int.zpow_log_le_self one_lt_two hx

theorem nearest_pos (hx : 0 < x) : 0 < nearest x :=
  mul_pos (Int.cast_pos.mpr (roundEven_pos (lt_div_ulp hx))) (ulp_pos x)

theorem ofRat_pos (hx : 0 < x) : 0 < ofRat x := by
  unfold ofRat
  split
  · exact WithTop.top_pos
  · exact WithTop.coe_pos.mpr (nearest_pos hx)

theorem nearest_natCast {n : ℕ} (hn : n < 2 ^ 53) : nearest n = n := by
  have hlog : Nat.log 2 n ≤ 52 := Nat.lt_succ_iff.mp (Nat.log_lt_of_lt_pow' (by norm_num) hn)
  have hdiv : (n : ℚ) / ulp n = ((n * 2 ^ (52 - Nat.log 2 n) : ℕ) : ℤ) := by
    have hulp : ulp n = (2 ^ (52 - Nat.log 2 n))⁻¹ := by
      rw [ulp, Nat.abs_cast, Int.log_natCast, ← zpow_natCast, ← zpow_neg]
      congr 1
      omega
    rw [hulp, div_inv_eq_mul]
    push_cast
    rfl
  rw [nearest, hdiv, roundEven_intCast, ← hdiv, div_mul_cancel₀ _ (ulp_pos _).ne']

theorem ofRat_natCast {n : ℕ} (hn : n < 2 ^ 53) : ofRat n = (n : ℚ) := by
  have hle : ¬ (2 ^ 1024 : ℚ) ≤ n := by
    rw [not_le]
    calc (n : ℚ) < 2 ^ 53 := by exact_mod_cast hn
      _ < 2 ^ 1024 := pow_lt_pow_right₀ one_lt_two (by norm_num)
  rw [ofRat, nearest_natCast hn, if_neg hle]

/-- The quotient by a double below a third, which is 3000 but for a rest. -/
example : nearest (1000 / (6004799503160661 / 2 ^ 54)) = 3000 := by decide +kernel

end Binary64
