import Asli.Logic.Json
import Mathlib.Data.Int.Log
import Mathlib.Data.Rat.Floor

/-!
# Double — the binary64 value of a JSON number literal

A program that reads numbers as doubles sees the literal rounded to the nearest one, ties to even,
and an infinity past the largest.  The values are rationals; `none` is an infinity.
-/

namespace Asli
namespace Logic

/-- The nearest integer, ties to even. -/
def roundHalfEven (q : ℚ) : Int :=
  let low := ⌊q⌋
  let rest := q - low
  if rest < 1 / 2 then low
  else if rest > 1 / 2 then low + 1
  else if low % 2 = 0 then low else low + 1

/-- The exponent of the last place of a double near `q`: 53 bits, subnormals included. -/
def lastPlace (q : ℚ) : Int :=
  max (Int.log 2 |q| - 52) (-1074)

/-- The double nearest to `q`. -/
def toDouble (q : ℚ) : Option ℚ :=
  let place : ℚ := 2 ^ lastPlace q
  let value := roundHalfEven (q / place) * place
  if |value| ≥ 2 ^ 1024 then none else some value

/-! ## Whole numbers -/

theorem roundHalfEven_intCast (z : Int) : roundHalfEven (z : ℚ) = z := by
  unfold roundHalfEven
  simp

/-- Rounding moves a number by less than one. -/
theorem roundHalfEven_bounds (q : ℚ) : q - 1 ≤ roundHalfEven q ∧ (roundHalfEven q : ℚ) ≤ q + 1 := by
  have hlow : (⌊q⌋ : ℚ) ≤ q := Int.floor_le q
  have hhigh : q < ⌊q⌋ + 1 := Int.lt_floor_add_one q
  unfold roundHalfEven
  simp only
  split_ifs
  · exact ⟨by linarith, by linarith⟩
  · push_cast
    exact ⟨by linarith, by linarith⟩
  · exact ⟨by linarith, by linarith⟩
  · push_cast
    exact ⟨by linarith, by linarith⟩

theorem lastPlace_natCast_le {n k : Nat} (h : n < 2 ^ (k + 1)) :
    lastPlace (n : ℚ) ≤ max ((k : Int) - 52) (-1074) := by
  have hlog : Int.log 2 |(n : ℚ)| ≤ k := by
    rw [Nat.abs_cast, Int.log_natCast]
    exact_mod_cast Nat.lt_succ_iff.1 (Nat.log_lt_of_lt_pow' (by omega) h)
  unfold lastPlace
  omega

/-- A whole number of at most 53 bits is a double. -/
theorem toDouble_natCast {n : Nat} (h : n < 2 ^ 53) : toDouble (n : ℚ) = some (n : ℚ) := by
  have hplace : lastPlace (n : ℚ) ≤ 0 := by
    have hle := lastPlace_natCast_le (k := 52) h
    omega
  -- the last place is a fraction of one, so the quotient is whole
  obtain ⟨e, he⟩ : ∃ e : Nat, lastPlace (n : ℚ) = -(e : Int) :=
    ⟨(lastPlace (n : ℚ)).natAbs, by omega⟩
  have hquot : (n : ℚ) / 2 ^ lastPlace (n : ℚ) = ((n * 2 ^ e : Int) : ℚ) := by
    rw [he, zpow_neg, zpow_natCast, div_inv_eq_mul]
    push_cast
    ring
  have hback : ((n * 2 ^ e : Int) : ℚ) * 2 ^ lastPlace (n : ℚ) = n := by
    rw [he, zpow_neg, zpow_natCast]
    push_cast
    field_simp
  have hsmall : ¬ |(n : ℚ)| ≥ 2 ^ 1024 := by
    rw [Nat.abs_cast, ge_iff_le, not_le]
    have hlt : (n : ℚ) < 2 ^ 53 := by exact_mod_cast h
    exact lt_trans hlt (pow_lt_pow_right₀ (by norm_num) (by norm_num))
  unfold toDouble
  simp only
  rw [hquot, roundHalfEven_intCast, hback, if_neg hsmall]

/-- A whole number of at most 64 bits is within the range of the doubles. -/
theorem toDouble_natCast_isSome {n : Nat} (h : n < 2 ^ 64) : (toDouble (n : ℚ)).isSome = true := by
  have hplace : lastPlace (n : ℚ) ≤ 11 := by
    have hle := lastPlace_natCast_le (k := 63) h
    omega
  have hpow : (2 : ℚ) ^ lastPlace (n : ℚ) ≤ 2 ^ (11 : Int) :=
    zpow_le_zpow_right₀ (by norm_num) hplace
  have hpos : (0 : ℚ) < 2 ^ lastPlace (n : ℚ) := zpow_pos (by norm_num) _
  rcases roundHalfEven_bounds ((n : ℚ) / 2 ^ lastPlace (n : ℚ)) with ⟨hlow, hhigh⟩
  have hupper : (roundHalfEven ((n : ℚ) / 2 ^ lastPlace (n : ℚ)) : ℚ) * 2 ^ lastPlace (n : ℚ) ≤
      n + 2 ^ lastPlace (n : ℚ) := by
    calc (roundHalfEven ((n : ℚ) / 2 ^ lastPlace (n : ℚ)) : ℚ) * 2 ^ lastPlace (n : ℚ)
        ≤ ((n : ℚ) / 2 ^ lastPlace (n : ℚ) + 1) * 2 ^ lastPlace (n : ℚ) :=
          mul_le_mul_of_nonneg_right hhigh hpos.le
      _ = n + 2 ^ lastPlace (n : ℚ) := by field_simp
  have hlower : -(2 : ℚ) ^ lastPlace (n : ℚ) ≤
      (roundHalfEven ((n : ℚ) / 2 ^ lastPlace (n : ℚ)) : ℚ) * 2 ^ lastPlace (n : ℚ) := by
    calc -(2 : ℚ) ^ lastPlace (n : ℚ)
        ≤ ((n : ℚ) / 2 ^ lastPlace (n : ℚ) - 1) * 2 ^ lastPlace (n : ℚ) := by
          have hn : (0 : ℚ) ≤ n := Nat.cast_nonneg n
          rw [sub_mul, one_mul, div_mul_cancel₀ _ hpos.ne']
          linarith
      _ ≤ _ := mul_le_mul_of_nonneg_right hlow hpos.le
  have hn : (n : ℚ) < 2 ^ 64 := by exact_mod_cast h
  have hbig : (2 : ℚ) ^ 65 < 2 ^ 1024 := pow_lt_pow_right₀ (by norm_num) (by norm_num)
  have hsum : (2 : ℚ) ^ 64 + 2 ^ (11 : Int) < 2 ^ 65 := by norm_num
  unfold toDouble
  simp only
  generalize (2 : ℚ) ^ 1024 = limit at hbig ⊢
  rw [if_neg]
  · rfl
  · rw [ge_iff_le, not_le, abs_lt]
    exact ⟨by linarith, by linarith⟩

/-- A double of that size is a whole number's own. -/
theorem toDouble_natCast_small {n : Nat} {q : ℚ} (h : toDouble (n : ℚ) = some q)
    (hq : q ≤ 2 ^ 52) : q = n := by
  by_cases hsmall : n < 2 ^ 53
  · rw [toDouble_natCast hsmall] at h
    exact (Option.some.inj h).symm
  · -- a larger number is rounded by less than its 2^52nd part
    exfalso
    have hlarge : (2 : ℚ) ^ 53 ≤ n := by exact_mod_cast Nat.not_lt.1 hsmall
    have hn : (0 : ℚ) < n := lt_of_lt_of_le (by norm_num) hlarge
    have hlog : (53 : Int) ≤ Int.log 2 |(n : ℚ)| := by
      rw [Nat.abs_cast, Int.log_natCast]
      exact_mod_cast (Nat.le_log_iff_pow_le (by norm_num) (by omega)).2 (Nat.not_lt.1 hsmall)
    have hplace : lastPlace (n : ℚ) = Int.log 2 |(n : ℚ)| - 52 := by
      unfold lastPlace
      omega
    have hpos : (0 : ℚ) < 2 ^ lastPlace (n : ℚ) := zpow_pos (by norm_num) _
    have hpart : (2 : ℚ) ^ lastPlace (n : ℚ) * 2 ^ (52 : Nat) ≤ n := by
      have hself := Int.zpow_log_le_self (b := 2) (r := |(n : ℚ)|) (by norm_num)
        (by rw [Nat.abs_cast]; exact hn)
      rw [Nat.abs_cast] at hself
      calc (2 : ℚ) ^ lastPlace (n : ℚ) * 2 ^ (52 : Nat)
          = 2 ^ Int.log 2 (n : ℚ) := by
            rw [hplace, Nat.abs_cast, ← zpow_natCast, ← zpow_add₀ (by norm_num)]
            norm_num
        _ ≤ n := by exact_mod_cast hself
    have hvalue : (n : ℚ) - 2 ^ lastPlace (n : ℚ) ≤ q := by
      have hround := (roundHalfEven_bounds ((n : ℚ) / 2 ^ lastPlace (n : ℚ))).1
      unfold toDouble at h
      simp only at h
      split at h
      · cases h
      · rw [← Option.some.inj h]
        calc (n : ℚ) - 2 ^ lastPlace (n : ℚ)
            = ((n : ℚ) / 2 ^ lastPlace (n : ℚ) - 1) * 2 ^ lastPlace (n : ℚ) := by
              rw [sub_mul, one_mul, div_mul_cancel₀ _ hpos.ne']
          _ ≤ _ := mul_le_mul_of_nonneg_right hround hpos.le
    have hsmallPart : (2 : ℚ) ^ lastPlace (n : ℚ) ≤ n / 2 ^ 52 := by
      rw [le_div_iff₀ (by norm_num)]
      exact hpart
    have hhalf : (n : ℚ) / 2 ^ 52 ≤ n / 4 :=
      div_le_div_of_nonneg_left hn.le (by norm_num) (by norm_num)
    have hthree : (3 : ℚ) / 4 * 2 ^ 53 ≤ q := by
      calc (3 : ℚ) / 4 * 2 ^ 53 ≤ 3 / 4 * n := by
            exact mul_le_mul_of_nonneg_left hlarge (by norm_num)
        _ ≤ n - n / 2 ^ 52 := by linarith
        _ ≤ q := by linarith
    norm_num at hthree hq
    linarith
namespace JsonNumber

def fractionValue : List (Fin 10) → ℚ
  | [] => 0
  | digit :: rest => (digit.val + fractionValue rest) / 10

/-- The rational a literal spells. -/
def value (n : JsonNumber) : ℚ :=
  let magnitude := (n.whole + fractionValue (n.fraction.getD [])) * 10 ^ n.exponent.getD 0
  if n.negative then -magnitude else magnitude

def double (n : JsonNumber) : Option ℚ :=
  toDouble n.value

/-- A run of digits spells the number it reads as. -/
theorem value_whole (n : Nat) : JsonNumber.value { whole := n } = n := by
  simp [value, fractionValue]

theorem double_whole {n : Nat} (h : n < 2 ^ 53) :
    JsonNumber.double { whole := n } = some (n : ℚ) := by
  rw [double, value_whole, toDouble_natCast h]

theorem double_whole_isSome {n : Nat} (h : n < 2 ^ 64) :
    (JsonNumber.double { whole := n }).isSome = true := by
  rw [double, value_whole]
  exact toDouble_natCast_isSome h

end JsonNumber

end Logic
end Asli
