import Mathlib.Algebra.Order.Field.Power
import Mathlib.Algebra.Order.Field.Rat
import Mathlib.Data.Rat.Cast.Order
import Mathlib.Tactic.FieldSimp
import Mathlib.Tactic.Linarith
import Mathlib.Tactic.NormNum
import Mathlib.Tactic.Positivity
import Mathlib.Tactic.Ring
import TrustFramework.Number.Binary64

/-!
# How far rounding goes astray

A fraction is rounded by scaling it until its whole part has fifty-three bits, which leaves an
error of half a unit at most.  So the number nearest to a fraction that is neither too small nor
too great is off by no more than one part in `2 ^ 53`.

## Main results

* `abs_roundHalfEven_sub_le` — the whole number nearest to a fraction.
* `scaled_exponentFor_bounds` — **the scale of a fraction**, which gives it fifty-three bits.
* `ofRatio_cases` — **the number nearest to a fraction.**
* `times_ofRatio_cases` — **a multiple of it**, rounded once more.
-/

namespace TrustFramework
namespace Binary64

/-- The whole number nearest to a fraction is half a unit away at most. -/
theorem abs_roundHalfEven_sub_le (n : Nat) {d : Nat} (hd : 0 < d) :
    |(roundHalfEven n d : ℚ) - n / d| ≤ 1 / 2 := by
  have hdq : (0 : ℚ) < d := by exact_mod_cast hd
  have hparts : (n : ℚ) = d * (n / d : Nat) + (n % d : Nat) := by
    exact_mod_cast (Nat.div_add_mod n d).symm
  have hsplit : (n : ℚ) / d = (n / d : Nat) + (n % d : Nat) / d := by
    calc (n : ℚ) / d = (d * (n / d : Nat) + (n % d : Nat)) / d := by rw [← hparts]
      _ = (n / d : Nat) + (n % d : Nat) / d := by rw [add_div, mul_div_cancel_left₀ _ hdq.ne']
  have hlt : ((n % d : Nat) : ℚ) / d < 1 := by
    rw [div_lt_one hdq]
    exact_mod_cast Nat.mod_lt n hd
  have hnonneg : (0 : ℚ) ≤ ((n % d : Nat) : ℚ) / d := by positivity
  rw [hsplit, abs_le]
  unfold roundHalfEven
  dsimp only
  split
  · next hup =>
    have hhalf : (1 : ℚ) / 2 ≤ ((n % d : Nat) : ℚ) / d := by
      rw [div_le_div_iff₀ two_pos hdq]
      have hle : d ≤ 2 * (n % d) := by omega
      have hleq : (d : ℚ) ≤ 2 * (n % d : Nat) := by exact_mod_cast hle
      linarith
    push_cast
    constructor <;> linarith
  · next hdown =>
    have hhalf : ((n % d : Nat) : ℚ) / d ≤ 1 / 2 := by
      rw [div_le_div_iff₀ hdq two_pos]
      have hle : 2 * (n % d) ≤ d := by omega
      have hleq : 2 * ((n % d : Nat) : ℚ) ≤ d := by exact_mod_cast hle
      linarith
    constructor <;> linarith

/-! ### Scales -/

theorem scaleDown_snd_pos (n : Nat) {d : Nat} (hd : 0 < d) (e : Int) : 0 < (scaleDown n d e).2 := by
  unfold scaleDown
  split
  · exact hd
  · exact Nat.mul_pos hd (Nat.pow_pos two_pos)

/-- Scaling divides by a power of two. -/
theorem scaleDown_eq (n d : Nat) (e : Int) :
    ((scaleDown n d e).1 : ℚ) / (scaleDown n d e).2 = n / d / 2 ^ e := by
  unfold scaleDown
  split
  · next he =>
    have hpow : ((Nat.pow 2 (-e).toNat : Nat) : ℚ) = (2 ^ e)⁻¹ := by
      rw [Nat.pow_eq, Nat.cast_pow, ← zpow_natCast, Int.toNat_of_nonneg (by omega), zpow_neg]
      rfl
    dsimp only
    rw [Nat.cast_mul, hpow]
    ring
  · next he =>
    have hpow : ((Nat.pow 2 e.toNat : Nat) : ℚ) = 2 ^ e := by
      rw [Nat.pow_eq, Nat.cast_pow, ← zpow_natCast, Int.toNat_of_nonneg (by omega)]
      rfl
    dsimp only
    rw [Nat.cast_mul, hpow]
    ring

/-- A fraction lies within a factor of two of what the lengths of its parts say. -/
theorem ratio_bounds {n d : Nat} (hn : 0 < n) (hd : 0 < d) :
    (2 : ℚ) ^ ((n.log2 : Int) - d.log2 - 1) < n / d ∧
      (n : ℚ) / d < 2 ^ ((n.log2 : Int) - d.log2 + 1) := by
  have hdq : (0 : ℚ) < d := by exact_mod_cast hd
  have hn1 : (2 : ℚ) ^ (n.log2 : Int) ≤ n := by
    rw [zpow_natCast]
    exact_mod_cast Nat.log2_self_le (Nat.ne_of_gt hn)
  have hn2 : (n : ℚ) < 2 ^ ((n.log2 : Int) + 1) := by
    have h := Nat.lt_log2_self (n := n)
    exact_mod_cast h
  have hd1 : (2 : ℚ) ^ (d.log2 : Int) ≤ d := by
    rw [zpow_natCast]
    exact_mod_cast Nat.log2_self_le (Nat.ne_of_gt hd)
  have hd2 : (d : ℚ) < 2 ^ ((d.log2 : Int) + 1) := by
    have h := Nat.lt_log2_self (n := d)
    exact_mod_cast h
  constructor
  · rw [lt_div_iff₀ hdq]
    calc (2 : ℚ) ^ ((n.log2 : Int) - d.log2 - 1) * d
        < 2 ^ ((n.log2 : Int) - d.log2 - 1) * 2 ^ ((d.log2 : Int) + 1) := by gcongr
      _ = 2 ^ (n.log2 : Int) := by
        rw [← zpow_add₀ two_ne_zero]
        congr 1
        ring
      _ ≤ n := hn1
  · rw [div_lt_iff₀ hdq]
    calc (n : ℚ) < 2 ^ ((n.log2 : Int) + 1) := hn2
      _ = 2 ^ ((n.log2 : Int) - d.log2 + 1) * 2 ^ (d.log2 : Int) := by
        rw [← zpow_add₀ two_ne_zero]
        congr 1
        ring
      _ ≤ 2 ^ ((n.log2 : Int) - d.log2 + 1) * d := by gcongr

/-- A mantissa that is rounded up to fifty-four bits is the same number one exponent higher. -/
theorem exists_carry (m : Nat) (e : Int) : ∃ m' e',
    (if m = Nat.pow 2 53 then (Nat.pow 2 52, e + 1) else (m, e)) = (m', e') ∧
      e ≤ e' ∧ e' ≤ e + 1 ∧ (m' : ℚ) * 2 ^ e' = m * 2 ^ e := by
  split
  · next hm =>
    refine ⟨_, _, rfl, by omega, le_refl _, ?_⟩
    rw [hm, zpow_add_one₀ two_ne_zero]
    norm_num
    ring
  · exact ⟨m, e, rfl, le_refl _, by omega, rfl⟩

/-- Rounding scales a fraction, rounds it to a whole number, and carries. -/
theorem ofRatio_of_carry {n d p q m' : Nat} {e' : Int} (hn : 0 < n) (negative : Bool)
    (hscaled : scaleDown n d (exponentFor n d) = (p, q))
    (hcarry : (if roundHalfEven p q = Nat.pow 2 53 then (Nat.pow 2 52, exponentFor n d + 1)
      else (roundHalfEven p q, exponentFor n d)) = (m', e')) :
    ofRatio negative n d =
      if maxExponent < e' then infinite negative else finite negative m' e' := by
  -- the cases are split one by one: reduced at once, they would compute the exponent
  unfold ofRatio
  split
  · omega
  · extract_lets e
    split
    next p' q' hscaled' =>
      extract_lets m
      obtain ⟨rfl, rfl⟩ := Prod.mk.inj (hscaled'.symm.trans hscaled)
      split
      next m'' e'' hcarry' =>
        obtain ⟨rfl, rfl⟩ := Prod.mk.inj (hcarry'.symm.trans hcarry)
        rfl

/-- The exponent is what the lengths of the parts say, or one more. -/
theorem exponentFor_eq (n : Nat) {d : Nat} (hd : 0 < d) (hlow : d.log2 ≤ 1000) :
    let guess : Int := (n.log2 : Int) - d.log2 - 53
    exponentFor n d = if (n : ℚ) / d / 2 ^ guess < 2 ^ (53 : Int) then guess else guess + 1 := by
  intro guess
  have hsnd := scaleDown_snd_pos n hd guess
  have hsndq : (0 : ℚ) < (scaleDown n d guess).2 := by exact_mod_cast hsnd
  have hiff : (scaleDown n d guess).1 < (scaleDown n d guess).2 * Nat.pow 2 53 ↔
      (n : ℚ) / d / 2 ^ guess < 2 ^ (53 : Int) := by
    rw [← scaleDown_eq, div_lt_iff₀ hsndq, mul_comm ((2 : ℚ) ^ (53 : Int))]
    exact_mod_cast Iff.rfl
  have hmin : minExponent ≤ guess := by
    unfold minExponent
    omega
  show max minExponent (if (scaleDown n d guess).1 < (scaleDown n d guess).2 * Nat.pow 2 53 then
    guess else guess + 1) = _
  by_cases hsmall : (n : ℚ) / d / 2 ^ guess < 2 ^ (53 : Int)
  · rw [if_pos hsmall, if_pos (hiff.mpr hsmall), max_eq_right hmin]
  · rw [if_neg hsmall, if_neg (fun h => hsmall (hiff.mp h)), max_eq_right (by omega)]

section

variable {n d : Nat} (hn : 0 < n) (hd : 0 < d) (hlow : d.log2 ≤ 1000)

include hn hd hlow

/-- **The scale of a fraction** gives it fifty-three bits. -/
theorem scaled_exponentFor_bounds :
    (2 : ℚ) ^ (52 : Int) ≤ n / d / 2 ^ exponentFor n d ∧
      (n : ℚ) / d / 2 ^ exponentFor n d < 2 ^ (53 : Int) := by
  obtain ⟨hlo, hhi⟩ := ratio_bounds hn hd
  rw [exponentFor_eq n hd hlow]
  split
  · next hsmall =>
    refine ⟨?_, hsmall⟩
    rw [le_div_iff₀ (by positivity), ← zpow_add₀ two_ne_zero]
    refine le_of_eq_of_le ?_ hlo.le
    congr 1
    ring
  · next hlarge =>
    rw [not_lt, le_div_iff₀ (by positivity), ← zpow_add₀ two_ne_zero] at hlarge
    constructor
    · rw [le_div_iff₀ (by positivity), ← zpow_add₀ two_ne_zero]
      refine le_of_eq_of_le ?_ hlarge
      congr 1
      ring
    · rw [div_lt_iff₀ (by positivity), ← zpow_add₀ two_ne_zero]
      refine lt_of_lt_of_eq hhi ?_
      congr 1
      ring

/-- The mantissa that rounding the scaled fraction gives is half a unit away at most. -/
theorem abs_mantissa_sub_le {p q : Nat} (hscaled : scaleDown n d (exponentFor n d) = (p, q)) :
    |(roundHalfEven p q : ℚ) * 2 ^ exponentFor n d - n / d| ≤ n / d / 2 ^ 53 := by
  obtain ⟨hlo, -⟩ := scaled_exponentFor_bounds hn hd hlow
  have hq := scaleDown_snd_pos n hd (exponentFor n d)
  have hratio := scaleDown_eq n d (exponentFor n d)
  rw [hscaled] at hq hratio
  have hround := abs_roundHalfEven_sub_le p hq
  rw [hratio] at hround
  have hunit : (0 : ℚ) < 2 ^ exponentFor n d := by positivity
  rw [le_div_iff₀ hunit] at hlo
  calc |(roundHalfEven p q : ℚ) * 2 ^ exponentFor n d - n / d|
      = |(roundHalfEven p q : ℚ) - n / d / 2 ^ exponentFor n d| * 2 ^ exponentFor n d := by
        rw [← abs_of_pos hunit, ← abs_mul, abs_of_pos hunit, sub_mul, div_mul_cancel₀ _ hunit.ne']
    _ ≤ 1 / 2 * 2 ^ exponentFor n d := by gcongr
    _ ≤ n / d / 2 ^ 53 := by
      norm_num at hlo ⊢
      linarith

/-- **The number nearest to a fraction**, unless the fraction is too great for the format. -/
theorem ofRatio_cases (negative : Bool) :
    (ofRatio negative n d = infinite negative ∧ (2 : ℚ) ^ (100 : Int) ≤ n / d) ∨
      ∃ m e, ofRatio negative n d = finite negative m e ∧ -(d.log2 : Int) - 53 ≤ e ∧
        |(m : ℚ) * 2 ^ e - n / d| ≤ n / d / 2 ^ 53 := by
  obtain ⟨hlo, -⟩ := scaled_exponentFor_bounds hn hd hlow
  have hexponent : -(d.log2 : Int) - 53 ≤ exponentFor n d := by
    rw [exponentFor_eq n hd hlow]
    split <;> omega
  obtain ⟨⟨p, q⟩, hscaled⟩ : ∃ pq, scaleDown n d (exponentFor n d) = pq := ⟨_, rfl⟩
  have herror := abs_mantissa_sub_le hn hd hlow hscaled
  obtain ⟨m, e, hcarry, hle, hle', hvalue⟩ := exists_carry (roundHalfEven p q) (exponentFor n d)
  rw [ofRatio_of_carry hn negative hscaled hcarry]
  by_cases hmax : maxExponent < e
  · left
    refine ⟨if_pos hmax, ?_⟩
    have hgreat : (2 : ℚ) ^ (48 : Int) ≤ 2 ^ exponentFor n d := by
      refine zpow_le_zpow_right₀ one_le_two ?_
      unfold maxExponent at hmax
      omega
    rw [le_div_iff₀ (by positivity)] at hlo
    calc (2 : ℚ) ^ (100 : Int) = 2 ^ (52 : Int) * 2 ^ (48 : Int) := by norm_num
      _ ≤ 2 ^ (52 : Int) * 2 ^ exponentFor n d := by gcongr
      _ ≤ n / d := hlo
  · right
    refine ⟨m, e, if_neg hmax, by omega, ?_⟩
    rw [hvalue]
    exact herror

end

/-! ### Products -/

/-- The fraction that a finite number denotes. -/
theorem toRatio?_finite (m : Nat) (e : Int) :
    ∃ n d : Nat, (finite false m e).toRatio? = some ((n : Int), d) ∧ 0 < d ∧
      d.log2 = (-e).toNat ∧ (n : ℚ) / d = m * 2 ^ e := by
  unfold toRatio?
  by_cases he : e < 0
  · refine ⟨m, Nat.pow 2 (-e).toNat, by simp [he], Nat.pow_pos two_pos, ?_, ?_⟩
    · exact Nat.log2_two_pow
    · rw [Nat.pow_eq, Nat.cast_pow, ← zpow_natCast, Int.toNat_of_nonneg (by omega), zpow_neg,
        div_inv_eq_mul]
      rfl
  · refine ⟨m * Nat.pow 2 e.toNat, 1, by simp [he], one_pos, ?_, ?_⟩
    · rw [Int.toNat_eq_zero.mpr (by omega)]
      rfl
    · rw [Nat.cast_mul, Nat.pow_eq, Nat.cast_pow, ← zpow_natCast,
        Int.toNat_of_nonneg (by omega), Nat.cast_one, div_one]
      rfl

theorem compareInt?_infinite (k : Int) : (infinite false).compareInt? k = some .gt := rfl

/-- A finite number is compared by the fraction that it denotes. -/
theorem compareInt?_finite (m : Nat) (e : Int) (k : Int) :
    (finite false m e).compareInt? k = some .gt ↔ (k : ℚ) < m * 2 ^ e := by
  obtain ⟨n, d, hratio, hd, -, hvalue⟩ := toRatio?_finite m e
  have hdq : (0 : ℚ) < d := by exact_mod_cast hd
  unfold compareInt?
  dsimp only
  rw [hratio, Option.map_some, Option.some.injEq, compare_gt_iff_gt, ← hvalue,
    lt_div_iff₀ hdq]
  exact_mod_cast Iff.rfl

/-- **A multiple of the number nearest to a fraction** is rounded twice. -/
theorem times_ofRatio_cases {n d k : Nat} (hn : 0 < n) (hd : 0 < d) (hlow : d.log2 ≤ 900)
    (hk : 0 < k) :
    ((ofRatio false n d).times k = infinite false ∧ (2 : ℚ) ^ (99 : Int) ≤ n / d * k) ∨
      ∃ m e, (ofRatio false n d).times k = finite false m e ∧
        (n : ℚ) / d * k * (1 - 2 / 2 ^ 53) ≤ m * 2 ^ e ∧
        (m : ℚ) * 2 ^ e ≤ n / d * k * (1 + 3 / 2 ^ 53) := by
  have hkq : (1 : ℚ) ≤ k := by exact_mod_cast hk
  have hpos : (0 : ℚ) < n / d := by positivity
  rcases ofRatio_cases hn hd (by omega) false with ⟨hround, hgreat⟩ | ⟨m, e, hround, he, herror⟩
  · left
    rw [hround]
    refine ⟨rfl, ?_⟩
    calc (2 : ℚ) ^ (99 : Int) ≤ 2 ^ (100 : Int) := by norm_num
      _ ≤ n / d := hgreat
      _ ≤ n / d * k := le_mul_of_one_le_right hpos.le hkq
  · obtain ⟨n', d', hratio, hd', hlog, hvalue⟩ := toRatio?_finite m e
    have htimes : (ofRatio false n d).times k = ofRatio false (n' * k) d' := by
      have hsign : ¬ (n' : Int) * k < 0 := Int.not_lt.mpr (by positivity)
      rw [hround, times, hratio]
      show ofRatio (decide ((n' : Int) * k < 0)) ((n' : Int) * k).natAbs d' = _
      rw [decide_eq_false hsign, Int.natAbs_mul, Int.natAbs_natCast, Int.natAbs_natCast]
    rw [← hvalue, abs_le] at herror
    have hfirst : (0 : ℚ) < n' / d' := by
      norm_num at herror
      linarith
    have hn' : 0 < n' := by
      rcases Nat.eq_zero_or_pos n' with rfl | h
      · simp at hfirst
      · exact h
    have hproduct : ((n' * k : Nat) : ℚ) / d' = n' / d' * k := by
      push_cast
      ring
    -- the error of the first rounding, taken as often
    have hlower : (n : ℚ) / d * k - n / d * k / 2 ^ 53 ≤ n' / d' * k := by
      calc (n : ℚ) / d * k - n / d * k / 2 ^ 53 = (n / d - n / d / 2 ^ 53) * k := by ring
        _ ≤ (n' : ℚ) / d' * k := by
          gcongr
          linarith
    have hupper : (n' : ℚ) / d' * k ≤ n / d * k + n / d * k / 2 ^ 53 := by
      calc (n' : ℚ) / d' * k ≤ (n / d + n / d / 2 ^ 53) * k := by
            gcongr
            linarith
        _ = n / d * k + n / d * k / 2 ^ 53 := by ring
    have hpos' : (0 : ℚ) < n / d * k := by positivity
    rw [htimes]
    rcases ofRatio_cases (Nat.mul_pos hn' hk) hd' (by omega) false with
      ⟨hround', hgreat⟩ | ⟨m', e', hround', -, herror'⟩
    · left
      refine ⟨hround', ?_⟩
      rw [hproduct] at hgreat
      norm_num at hgreat hupper ⊢
      linarith
    · right
      refine ⟨m', e', hround', ?_, ?_⟩
      · rw [hproduct, abs_le] at herror'
        norm_num at herror' hlower hupper ⊢
        linarith
      · rw [hproduct, abs_le] at herror'
        norm_num at herror' hlower hupper ⊢
        linarith

end Binary64
end TrustFramework
