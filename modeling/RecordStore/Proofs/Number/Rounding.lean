import RecordStore.Number.Binary64
import Mathlib.Tactic.NormNum
import Mathlib.Tactic.SplitIfs

/-!
Rounding gives back what is representable already. A finite number is a significand of at most 53
bits times a power of two; the grid that rounding selects for such a ratio has the scale of the
number itself, so the quotient on it is exact. Integers of the stored range never round to an
infinite number.
-/
namespace RecordStore

theorem log2_mul_two_pow (m k : Nat) (hm : m ≠ 0) : (m * 2 ^ k).log2 = m.log2 + k := by
  have hlow : 2 ^ m.log2 ≤ m := Nat.log2_self_le hm
  have hhigh : m < 2 ^ (m.log2 + 1) := Nat.lt_log2_self
  have hpos : 0 < 2 ^ k := Nat.two_pow_pos k
  have hne : m * 2 ^ k ≠ 0 := Nat.mul_ne_zero hm (Nat.ne_of_gt hpos)
  apply (Nat.log2_eq_iff hne).mpr
  constructor
  · rw [Nat.pow_add]
    exact Nat.mul_le_mul_right _ hlow
  · rw [show m.log2 + k + 1 = (m.log2 + 1) + k by omega, Nat.pow_add]
    exact Nat.mul_lt_mul_of_pos_right hhigh hpos

theorem roundDiv_mul (m d : Nat) (hd : 0 < d) : roundDiv (m * d) d = m := by
  have hq : m * d / d = m := Nat.mul_div_cancel m hd
  have hr : m * d % d = 0 := Nat.mul_mod_left m d
  simp [roundDiv, hq, hr, hd]

theorem scaleRatio_of_nonneg (num den : Nat) {e : Int} (he : 0 ≤ e) :
    scaleRatio num den e = (num * 2 ^ e.toNat, den) := by
  simp [scaleRatio, he]

theorem scaleRatio_of_neg (num den : Nat) {e : Int} (he : e < 0) :
    scaleRatio num den e = (num, den * 2 ^ (-e).toNat) := by
  have hnot : ¬ 0 ≤ e := by omega
  simp [scaleRatio, hnot]

/-- Scaling by opposite powers of two keeps the ratio, with the denominator as common factor. -/
theorem scaleRatio_opposite (m : Nat) (e : Int) :
    ∃ d, 0 < d ∧ scaleRatio (scaleRatio m 1 e).1 (scaleRatio m 1 e).2 (-e) = (m * d, d) := by
  by_cases he : 0 ≤ e
  · rw [scaleRatio_of_nonneg m 1 he]
    by_cases hz : e = 0
    · subst e
      exact ⟨1, by omega, by simp [scaleRatio]⟩
    · refine ⟨2 ^ e.toNat, Nat.two_pow_pos _, ?_⟩
      rw [scaleRatio_of_neg _ _ (by omega), Int.neg_neg, Nat.one_mul]
  · refine ⟨2 ^ (-e).toNat, Nat.two_pow_pos _, ?_⟩
    rw [scaleRatio_of_neg m 1 (by omega), scaleRatio_of_nonneg _ _ (by omega), Nat.one_mul]

/-- The candidate for the logarithm stands unless the ratio falls below its power of two. -/
theorem floorLog2_eq (num den : Nat) (l : Int) (hl : (num.log2 : Int) - den.log2 = l)
    (hle : (scaleRatio num den (-l)).2 ≤ (scaleRatio num den (-l)).1) :
    floorLog2 num den = l := by
  have hnot : ¬ (scaleRatio num den (-l)).1 < (scaleRatio num den (-l)).2 := by omega
  simp [floorLog2, hl, hnot]

/-- The logarithm of a significand times a power of two is exact. -/
theorem floorLog2_scaleRatio (m : Nat) (hm : m ≠ 0) (e : Int) :
    floorLog2 (scaleRatio m 1 e).1 (scaleRatio m 1 e).2 = m.log2 + e := by
  have hlow : 2 ^ m.log2 ≤ m := Nat.log2_self_le hm
  have hone : Nat.log2 1 = 0 := by decide
  by_cases he : 0 ≤ e
  · rw [scaleRatio_of_nonneg m 1 he]
    have hlog : (m * 2 ^ e.toNat).log2 = m.log2 + e.toNat := log2_mul_two_pow m e.toNat hm
    have hbound : 2 ^ (m.log2 + e.toNat) ≤ m * 2 ^ e.toNat := by
      rw [Nat.pow_add]
      exact Nat.mul_le_mul_right _ hlow
    apply floorLog2_eq
    · rw [hlog, hone]
      omega
    · by_cases hz : (m.log2 : Int) + e = 0
      · have hpos : 0 < m * 2 ^ e.toNat :=
          Nat.mul_pos (Nat.pos_of_ne_zero hm) (Nat.two_pow_pos _)
        rw [hz, scaleRatio_of_nonneg _ _ (by omega)]
        simpa only [Int.neg_zero, Int.toNat_zero, Nat.pow_zero, Nat.mul_one, Nat.succ_le_iff]
          using hpos
      · rw [scaleRatio_of_neg _ _ (by omega), Int.neg_neg, Nat.one_mul]
        rwa [show ((m.log2 : Int) + e).toNat = m.log2 + e.toNat by omega]
  · obtain ⟨k, rfl⟩ : ∃ k : Nat, e = -(k : Int) := ⟨(-e).toNat, by omega⟩
    rw [scaleRatio_of_neg m 1 (by omega), Int.neg_neg, Int.toNat_natCast, Nat.one_mul]
    apply floorLog2_eq
    · simp only [Nat.log2_two_pow]
      omega
    · by_cases hk : (k : Int) < m.log2
      · rw [scaleRatio_of_neg _ _ (by omega), ← Nat.pow_add]
        rwa [show k + (-(-((m.log2 : Int) + -(k : Int)))).toNat = m.log2 by omega]
      · rw [scaleRatio_of_nonneg _ _ (by omega)]
        have hbound := Nat.mul_le_mul_right (2 ^ (-((m.log2 : Int) + -(k : Int))).toNat) hlow
        rw [← Nat.pow_add] at hbound
        rwa [show m.log2 + (-((m.log2 : Int) + -(k : Int))).toNat = k by omega] at hbound

namespace Binary64

theorem significand_lt (x : Binary64) : x.significand < 2 ^ 53 := by
  have h := x.fraction.isLt
  unfold significand
  split_ifs <;> omega

theorem significand_log2_le (x : Binary64) : x.significand.log2 ≤ 52 := by
  by_cases hz : x.significand = 0
  · simp [hz]
  · have := (Nat.log2_lt hz).mpr x.significand_lt
    omega

theorem isFinite_iff (x : Binary64) : x.isFinite = true ↔ x.exponent.val ≠ 2047 := by
  simp [isFinite]

/-- A finite number is either normal, with a full significand, or on the finest grid. -/
theorem scale_cases (x : Binary64) (hx : x.isFinite = true) :
    (x.scale = -1074 ∧ x.exponent.val = 0 ∧ x.significand = x.fraction.val) ∨
      (x.scale = (x.exponent.val : Int) - 1075 ∧ 0 < x.exponent.val ∧ x.exponent.val < 2047 ∧
        x.significand = 2 ^ 52 + x.fraction.val) := by
  have hfin : x.exponent.val ≠ 2047 := x.isFinite_iff.mp hx
  have hlt := x.exponent.isLt
  by_cases h0 : x.exponent.val = 0
  · exact Or.inl (by simp [scale, significand, h0])
  · have hmax : max x.exponent.val 1 = x.exponent.val := by omega
    refine Or.inr ⟨?_, by omega, by omega, ?_⟩
    · simp only [scale, hmax]
    · simp [significand, h0]

theorem scale_bounds (x : Binary64) (hx : x.isFinite = true) :
    -1074 ≤ x.scale ∧ x.scale ≤ 971 := by
  rcases x.scale_cases hx with ⟨hs, _⟩ | ⟨hs, _⟩ <;> omega

/-- The grid of 53 bits at a finite number has the scale of the number. -/
theorem grid_scale (x : Binary64) (hx : x.isFinite = true) (hm : x.significand ≠ 0) :
    max ((x.significand.log2 : Int) + x.scale - 52) (-1074) = x.scale := by
  have hL := x.significand_log2_le
  have hbounds := x.scale_bounds hx
  rcases x.scale_cases hx with ⟨hs, _, _⟩ | ⟨hs, _, _, hsig⟩
  · omega
  · have h52 : 52 ≤ x.significand.log2 := (Nat.le_log2 hm).mpr (by omega)
    omega

/-- Rounding to 53 bits keeps a significand with its scale. -/
theorem round_double_magnitude (x : Binary64) (hx : x.isFinite = true)
    (hm : x.significand ≠ 0) :
    Precision.double.round x.magnitude.1 x.magnitude.2 = some (x.significand, x.scale) := by
  have hnum : (scaleRatio x.significand 1 x.scale).1 ≠ 0 := by
    unfold scaleRatio
    split_ifs
    · exact Nat.mul_ne_zero hm (Nat.ne_of_gt (Nat.two_pow_pos _))
    · exact hm
  obtain ⟨d, hd, hratio⟩ := scaleRatio_opposite x.significand x.scale
  have hgrid := x.grid_scale hx hm
  have hne : x.significand ≠ 2 ^ 53 := Nat.ne_of_lt x.significand_lt
  have hnot : ¬ (971 : Int) < x.scale := by
    have := x.scale_bounds hx
    omega
  have hbits : (((53 : Nat) - 1 : Nat) : Int) = 52 := by decide
  simp only [Precision.round, magnitude, hnum, if_false, Precision.double,
    floorLog2_scaleRatio x.significand hm x.scale, hbits, hgrid, hratio, roundDiv_mul _ _ hd, hne,
    hnot]

/-- The number that a significand and its scale make is the one they were taken from. -/
theorem ofScaled_significand (x : Binary64) (hx : x.isFinite = true) (hm : x.significand ≠ 0) :
    ofScaled x.negative x.significand x.scale = x := by
  have hfr := x.fraction.isLt
  have hgrid := x.grid_scale hx hm
  have hL := x.significand_log2_le
  have hshift : min (52 - (x.significand.log2 : Int)) (x.scale + 1074) = 0 := by omega
  simp only [ofScaled, hm, if_false, hshift, Int.toNat_zero, Nat.pow_zero, Nat.mul_one,
    Int.sub_zero]
  rcases x.scale_cases hx with ⟨hs, hexp, hsig⟩ | ⟨hs, hpos, htop, hsig⟩
  · have hlt : x.significand < 2 ^ 52 := by omega
    rw [if_pos hlt, hsig, Fin.ofNat_val_eq_self]
    obtain ⟨negative, exponent, fraction⟩ := x
    have he : exponent = 0 := Fin.ext hexp
    simp only [he]
  · have hnot : ¬ x.significand < 2 ^ 52 := by omega
    rw [if_neg hnot, hs, hsig]
    obtain ⟨negative, exponent, fraction⟩ := x
    simp only [Nat.add_sub_cancel_left, Fin.ofNat_val_eq_self, Int.sub_add_cancel,
      Int.toNat_natCast]

theorem eq_zero_of_significand (x : Binary64) (hx : x.isFinite = true) (hm : x.significand = 0) :
    x = zero x.negative := by
  rcases x.scale_cases hx with ⟨_, hexp, hsig⟩ | ⟨_, _, _, hsig⟩
  · obtain ⟨negative, exponent, fraction⟩ := x
    simp only at hexp hsig
    have he : exponent = 0 := Fin.ext hexp
    have hf : fraction = 0 := Fin.ext (hsig.symm.trans hm)
    simp [zero, he, hf]
  · omega

/-- A finite number of double precision is its own rounding. -/
theorem toPrecision_double (x : Binary64) (hx : x.isFinite = true) :
    x.toPrecision .double = x := by
  simp only [toPrecision, hx, if_true, ofRatio]
  by_cases hm : x.significand = 0
  · have hnum : x.magnitude.1 = 0 := by
      simp only [magnitude, hm, scaleRatio]
      split_ifs <;> simp
    simp only [hnum, Precision.round, if_true, ofScaled]
    exact (x.eq_zero_of_significand hx hm).symm
  · rw [x.round_double_magnitude hx hm]
    exact x.ofScaled_significand hx hm

/-- A scale below the largest one makes a finite number. -/
theorem isFinite_ofScaled (negative : Bool) (m : Nat) (scale : Int)
    (hlog : m.log2 ≤ 52) (hlow : -1074 ≤ scale) (hhigh : scale ≤ 971) :
    (ofScaled negative m scale).isFinite = true := by
  apply (isFinite_iff _).mpr
  by_cases hm : m = 0
  · simp [ofScaled, hm, zero]
  · simp only [ofScaled, hm, if_false]
    split_ifs with hlt
    · simp
    · simp only [Fin.val_ofNat]
      omega

end Binary64

theorem roundDiv_le (num den : Nat) : roundDiv num den ≤ num / den + 1 := by
  unfold roundDiv
  dsimp only
  split_ifs <;> omega

/-- On the grid of 53 bits an integer has a quotient of at most 53 bits, or the least of 54. -/
theorem roundDiv_grid_le (m : Nat) :
    roundDiv (scaleRatio m 1 (-((m.log2 : Int) - 52))).1
      (scaleRatio m 1 (-((m.log2 : Int) - 52))).2 ≤ 2 ^ 53 := by
  have hhigh : m < 2 ^ (m.log2 + 1) := Nat.lt_log2_self
  by_cases hL : m.log2 ≤ 52
  · rw [scaleRatio_of_nonneg _ _ (by omega)]
    have hquot := roundDiv_mul (m * 2 ^ (-((m.log2 : Int) - 52)).toNat) 1 (by omega)
    rw [Nat.mul_one] at hquot
    rw [hquot]
    have hlt := Nat.mul_lt_mul_of_pos_right hhigh
      (Nat.two_pow_pos (-((m.log2 : Int) - 52)).toNat)
    rw [← Nat.pow_add, show m.log2 + 1 + (-((m.log2 : Int) - 52)).toNat = 53 by omega] at hlt
    exact Nat.le_of_lt hlt
  · rw [scaleRatio_of_neg _ _ (by omega), Int.neg_neg, Nat.one_mul]
    change roundDiv m (2 ^ ((m.log2 : Int) - 52).toNat) ≤ 2 ^ 53
    have hle := roundDiv_le m (2 ^ ((m.log2 : Int) - 52).toNat)
    have hdiv : m / 2 ^ ((m.log2 : Int) - 52).toNat < 2 ^ 53 := by
      apply (Nat.div_lt_iff_lt_mul (Nat.two_pow_pos _)).mpr
      rw [← Nat.pow_add, show 53 + ((m.log2 : Int) - 52).toNat = m.log2 + 1 by omega]
      exact hhigh
    omega

namespace Binary64

/-- An integer of the stored range rounds to a finite number. -/
theorem isFinite_ofInt (n : Int) (hn : n.natAbs < 2 ^ 64) :
    (ofInt .double n).isFinite = true := by
  unfold ofInt ofRatio
  by_cases hm : n.natAbs = 0
  · simp [hm, Precision.round, ofScaled, zero, isFinite]
  · have hlog : floorLog2 n.natAbs 1 = n.natAbs.log2 := by
      simpa [scaleRatio] using floorLog2_scaleRatio n.natAbs hm 0
    have hL : n.natAbs.log2 < 64 := (Nat.log2_lt hm).mpr hn
    have hgrid : max ((n.natAbs.log2 : Int) - 52) (-1074) = (n.natAbs.log2 : Int) - 52 := by omega
    have hquot := roundDiv_grid_le n.natAbs
    have hbits : (((53 : Nat) - 1 : Nat) : Int) = 52 := by decide
    simp only [Precision.round, hm, if_false, Precision.double, hlog, hbits, hgrid]
    generalize roundDiv _ _ = q at hquot
    by_cases hq : q = 2 ^ 53
    · have hnot : ¬ (971 : Int) < (n.natAbs.log2 : Int) - 52 + 1 := by omega
      simp only [hq, if_true, hnot, if_false]
      exact isFinite_ofScaled _ _ _ (by decide) (by omega) (by omega)
    · have hnot : ¬ (971 : Int) < (n.natAbs.log2 : Int) - 52 := by omega
      have hqlog : q.log2 ≤ 52 := by
        by_cases hz : q = 0
        · simp [hz]
        · have := (Nat.log2_lt hz).mpr (show q < 2 ^ 53 by omega)
          omega
      simp only [hq, if_false, hnot]
      exact isFinite_ofScaled _ _ _ hqlog (by omega) (by omega)

end Binary64

end RecordStore
