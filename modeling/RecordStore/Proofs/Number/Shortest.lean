import RecordStore.Number.Shortest
import RecordStore.Proofs.Number.Rounding
import Mathlib.Tactic.Ring

/-!
The shortest decimal of a number tells it from every other. The decimal lies in the interval of what
rounds to the number: of the decimals with seventeen digits there is one in it, as they lie closer
together than the numbers. The intervals of two numbers do not meet, since where they touch one of
the two significands is odd and its interval is open.
-/
namespace RecordStore.Shortest

def powerRatio (power : Int) : Nat × Nat :=
  if 0 ≤ power then (10 ^ power.toNat, 1) else (1, 10 ^ (-power).toNat)

theorem powerRatio_pos (power : Int) : 0 < (powerRatio power).1 ∧ 0 < (powerRatio power).2 := by
  unfold powerRatio
  split_ifs
  · exact ⟨Nat.pow_pos (by decide), Nat.one_pos⟩
  · exact ⟨Nat.one_pos, Nat.pow_pos (by decide)⟩

theorem powerRatio_add (power : Int) (n : Nat) :
    (powerRatio (power + n)).1 * (powerRatio power).2 =
      (powerRatio power).1 * 10 ^ n * (powerRatio (power + n)).2 := by
  unfold powerRatio
  by_cases hp : 0 ≤ power
  · have hsum : 0 ≤ power + n := by omega
    simp only [if_pos hp, if_pos hsum, Nat.mul_one, ← Nat.pow_add]
    congr 1
    omega
  · by_cases hsum : 0 ≤ power + n
    · simp only [if_neg hp, if_pos hsum, Nat.mul_one, Nat.one_mul, ← Nat.pow_add]
      congr 1
      omega
    · simp only [if_neg hp, if_neg hsum, Nat.one_mul, ← Nat.pow_add]
      congr 1
      omega

theorem lt_digitCount (n : Nat) : n < 10 ^ digitCount n :=
  (Nat.length_toDigits_le_iff (by decide) Nat.length_toDigits_pos).mp (Nat.le_refl _)

theorem digitCount_le {n : Nat} (hn : 0 < n) : 10 ^ (digitCount n - 1) ≤ n := by
  by_contra hlt
  have hlt : n < 10 ^ (digitCount n - 1) := by omega
  have hpos : 0 < digitCount n := Nat.length_toDigits_pos
  by_cases hone : digitCount n = 1
  · rw [hone] at hlt
    simp at hlt
    omega
  · have hle := (Nat.length_toDigits_le_iff (b := 10) (by decide) (by omega)).mpr hlt
    have hcount : digitCount n ≤ digitCount n - 1 := hle
    omega

/-- The power below the decimal exponent is not above the ratio. -/
theorem le_of_decimalExponent {num den : Nat} (hnum : 0 < num) (hden : 0 < den) :
    (powerRatio (decimalExponent num den - 1)).1 * den ≤
      num * (powerRatio (decimalExponent num den - 1)).2 := by
  unfold decimalExponent
  by_cases hle : den ≤ num
  · have hquot : 0 < num / den := Nat.div_pos hle hden
    have hcount : 0 < digitCount (num / den) := Nat.length_toDigits_pos
    have hpower : powerRatio ((digitCount (num / den) : Int) - 1) =
        (10 ^ (digitCount (num / den) - 1), 1) := by
      rw [powerRatio, if_pos (by omega)]
      congr 2
      omega
    rw [if_pos hle, hpower, Nat.mul_one]
    calc 10 ^ (digitCount (num / den) - 1) * den
        ≤ num / den * den := Nat.mul_le_mul_right _ (digitCount_le hquot)
      _ ≤ num := Nat.div_mul_le_self num den
  · rw [if_neg hle]
    generalize hk : digitCount ((den + num - 1) / num - 1) = k
    have hlt := lt_digitCount ((den + num - 1) / num - 1)
    rw [hk] at hlt
    have hkpos : 0 < k := hk ▸ Nat.length_toDigits_pos
    have hpower : powerRatio (1 - (k : Int) - 1) = (1, 10 ^ k) := by
      rw [powerRatio, if_neg (by omega)]
      congr 2
      omega
    have hceil : (den + num - 1) / num ≤ 10 ^ k := by omega
    have hbound : den + num - 1 < ((den + num - 1) / num + 1) * num :=
      Nat.lt_mul_of_div_lt (Nat.lt_succ_self _) hnum
    have hmul := Nat.mul_le_mul_right num hceil
    rw [Nat.add_mul, Nat.one_mul] at hbound
    calc (powerRatio (1 - (k : Int) - 1)).1 * den = den := by rw [hpower, Nat.one_mul]
      _ ≤ 10 ^ k * num := by omega
      _ = num * (powerRatio (1 - (k : Int) - 1)).2 := by rw [hpower, Nat.mul_comm]

def Interval.Holds (i : Interval) (d : Decimal) : Prop :=
  i.contains (d.digits * (powerRatio d.power).1) (powerRatio d.power).2 = true

/-- Whether an interval contains a number depends on its ratio only. -/
theorem Interval.contains_congr (i : Interval) {num den num' den' : Nat} (hden : 0 < den)
    (hden' : 0 < den') (h : num * den' = num' * den) :
    i.contains num den = i.contains num' den' := by
  have hcross : num * i.den * den' = num' * i.den * den := by
    rw [Nat.mul_right_comm, h, Nat.mul_right_comm]
  have hle (c : Nat) : c * den ≤ num * i.den ↔ c * den' ≤ num' * i.den :=
    calc c * den ≤ num * i.den
        ↔ c * den * den' ≤ num * i.den * den' := (Nat.mul_le_mul_right_iff hden').symm
      _ ↔ c * den' * den ≤ num' * i.den * den := by rw [hcross, Nat.mul_right_comm]
      _ ↔ c * den' ≤ num' * i.den := Nat.mul_le_mul_right_iff hden
  have hge (c : Nat) : num * i.den ≤ c * den ↔ num' * i.den ≤ c * den' :=
    calc num * i.den ≤ c * den
        ↔ num * i.den * den' ≤ c * den * den' := (Nat.mul_le_mul_right_iff hden').symm
      _ ↔ num' * i.den * den ≤ c * den' * den := by rw [hcross, Nat.mul_right_comm c]
      _ ↔ num' * i.den ≤ c * den' := Nat.mul_le_mul_right_iff hden
  have hlt (c : Nat) : c * den < num * i.den ↔ c * den' < num' * i.den := by
    rw [← not_iff_not, Nat.not_lt, Nat.not_lt, hge]
  have hgt (c : Nat) : num * i.den < c * den ↔ num' * i.den < c * den' := by
    rw [← not_iff_not, Nat.not_lt, Nat.not_lt, hle]
  simp only [contains, hle, hge, hlt, hgt]

/-- A decimal stays in its interval when the zeros at its end go. -/
theorem Interval.holds_strip {i : Interval} (d : Decimal) (h : i.Holds d) : i.Holds d.strip := by
  fun_induction Decimal.strip d with
  | case1 d hd ih =>
    refine ih ?_
    unfold Interval.Holds at h ⊢
    rw [← h]
    have hadd : (powerRatio (d.power + 1)).1 * (powerRatio d.power).2 =
        (powerRatio d.power).1 * 10 * (powerRatio (d.power + 1)).2 := powerRatio_add d.power 1
    refine i.contains_congr (powerRatio_pos _).2 (powerRatio_pos _).2 ?_
    have hdigits : d.digits = d.digits / 10 * 10 := by omega
    calc d.digits / 10 * (powerRatio (d.power + 1)).1 * (powerRatio d.power).2
        = d.digits / 10 * ((powerRatio (d.power + 1)).1 * (powerRatio d.power).2) :=
          Nat.mul_assoc ..
      _ = d.digits / 10 * 10 * (powerRatio d.power).1 * (powerRatio (d.power + 1)).2 := by
          rw [hadd]
          ac_rfl
      _ = d.digits * (powerRatio d.power).1 * (powerRatio (d.power + 1)).2 := by rw [← hdigits]
  | case2 d hd => exact h

/-- The nearest multiple is the one just below the value or the one just above. -/
theorem Interval.nearest_eq (i : Interval) (power : Int) (below : Nat)
    (h : below = i.value * (powerRatio power).2 / (i.den * (powerRatio power).1)) :
    i.nearest? power =
      match i.contains (below * (powerRatio power).1) (powerRatio power).2,
        i.contains ((below + 1) * (powerRatio power).1) (powerRatio power).2 with
      | true, true =>
        if i.value * (powerRatio power).2 - below * (powerRatio power).1 * i.den <
            (below + 1) * (powerRatio power).1 * i.den - i.value * (powerRatio power).2 then
          some below
        else if (below + 1) * (powerRatio power).1 * i.den - i.value * (powerRatio power).2 <
            i.value * (powerRatio power).2 - below * (powerRatio power).1 * i.den then
          some (below + 1)
        else some (if below % 2 = 0 then below else below + 1)
      | true, false => some below
      | false, true => some (below + 1)
      | false, false => none := by
  subst h
  rfl

/-- What is nearest on a grid lies in the interval, and there is one if the multiple just below the
value or the one just above does. -/
theorem Interval.nearest_cases (i : Interval) (power : Int) :
    let below := i.value * (powerRatio power).2 / (i.den * (powerRatio power).1)
    (∀ digits, i.nearest? power = some digits → i.Holds ⟨digits, power⟩) ∧
      (i.Holds ⟨below, power⟩ ∨ i.Holds ⟨below + 1, power⟩ → (i.nearest? power).isSome = true) := by
  intro below
  unfold Interval.Holds
  rw [i.nearest_eq power below rfl]
  cases hbelow : i.contains (below * (powerRatio power).1) (powerRatio power).2 <;>
    cases habove : i.contains ((below + 1) * (powerRatio power).1) (powerRatio power).2
  · simp
  · simp [habove]
  · simp [hbelow]
  · refine ⟨fun digits h => ?_, fun _ => ?_⟩
    · have hdigits : digits = below ∨ digits = below + 1 := by
        simp only at h
        split_ifs at h <;> simp_all
      rcases hdigits with rfl | rfl
      · exact hbelow
      · exact habove
    · simp only
      split_ifs <;> rfl

def gapBelow (x : Binary64) : Nat := if x.fraction.val = 0 ∧ 1 < x.exponent.val then 1 else 2

theorem interval_eq (x : Binary64) : interval x =
    { low := (4 * x.significand - gapBelow x) * (scaleRatio 1 4 x.scale).1
      value := 4 * x.significand * (scaleRatio 1 4 x.scale).1
      high := (4 * x.significand + 2) * (scaleRatio 1 4 x.scale).1
      den := (scaleRatio 1 4 x.scale).2
      closed := x.significand % 2 == 0 } := rfl

theorem scaleRatio_pos (scale : Int) :
    0 < (scaleRatio 1 4 scale).1 ∧ 0 < (scaleRatio 1 4 scale).2 := by
  unfold scaleRatio
  split_ifs
  · exact ⟨Nat.mul_pos Nat.one_pos (Nat.two_pow_pos _), Nat.succ_pos 3⟩
  · exact ⟨Nat.one_pos, Nat.mul_pos (by decide) (Nat.two_pow_pos _)⟩

/-- The ends of an interval and its value in quarter units of the last place, times a factor. -/
theorem interval_mul {x : Binary64} (hm : x.significand ≠ 0) (factor : Nat) :
    let c := (scaleRatio 1 4 x.scale).1 * factor
    (interval x).low * factor + gapBelow x * c = 4 * (x.significand * c) ∧
      (interval x).value * factor = 4 * (x.significand * c) ∧
      (interval x).high * factor = 4 * (x.significand * c) + 2 * c := by
  intro c
  have hgap : gapBelow x ≤ 4 * x.significand := by
    have hle : gapBelow x ≤ 2 := by
      unfold gapBelow
      split_ifs <;> omega
    omega
  rw [interval_eq]
  refine ⟨?_, ?_, ?_⟩
  · show (4 * x.significand - gapBelow x) * (scaleRatio 1 4 x.scale).1 * factor + _ = _
    rw [Nat.mul_assoc, Nat.sub_mul, Nat.sub_add_cancel (Nat.mul_le_mul_right c hgap),
      Nat.mul_assoc]
  · show 4 * x.significand * (scaleRatio 1 4 x.scale).1 * factor = _
    rw [Nat.mul_assoc, Nat.mul_assoc]
  · show (4 * x.significand + 2) * (scaleRatio 1 4 x.scale).1 * factor = _
    rw [Nat.mul_assoc, Nat.add_mul, Nat.mul_assoc]

theorem gapBelow_bounds (x : Binary64) : 1 ≤ gapBelow x ∧ gapBelow x ≤ 2 := by
  unfold gapBelow
  split_ifs <;> omega

theorem gapBelow_of_lt {x : Binary64} (hx : x.isFinite = true) (h : 2 ^ 52 < x.significand) :
    gapBelow x = 2 := by
  have hlt := x.fraction.isLt
  rw [gapBelow, if_neg]
  rintro ⟨hfraction, -⟩
  rcases x.scale_cases hx with ⟨-, -, hsig⟩ | ⟨-, -, -, hsig⟩ <;> omega

/-- A ratio strictly between the ends of an interval is in it, be it open or closed. -/
theorem Interval.contains_of_lt {i : Interval} {num den : Nat} (hlow : i.low * den < num * i.den)
    (hhigh : num * i.den < i.high * den) : i.contains num den = true := by
  unfold contains
  split
  · simp [Nat.le_of_lt hlow, Nat.le_of_lt hhigh]
  · simp [hlow, hhigh]

/-- A ratio in an interval is between its ends, and strictly where the significand is odd. -/
theorem bounds_of_contains {x : Binary64} {num den : Nat}
    (h : (interval x).contains num den = true) :
    (interval x).low * den ≤ num * (interval x).den ∧
      num * (interval x).den ≤ (interval x).high * den ∧
      (x.significand % 2 = 1 → (interval x).low * den < num * (interval x).den ∧
        num * (interval x).den < (interval x).high * den) := by
  have hclosed : (interval x).closed = (x.significand % 2 == 0) := rfl
  unfold Interval.contains at h
  split at h
  · next hc =>
    have heven : x.significand % 2 = 0 := by simpa [hclosed] using hc
    obtain ⟨hlow, hhigh⟩ : _ ∧ _ := by simpa using h
    exact ⟨hlow, hhigh, fun hodd => by omega⟩
  · obtain ⟨hlow, hhigh⟩ : _ ∧ _ := by simpa using h
    exact ⟨Nat.le_of_lt hlow, Nat.le_of_lt hhigh, fun _ => ⟨hlow, hhigh⟩⟩

/-- The decimals with seventeen digits lie close together. -/
theorem grid_fine {num den : Nat} (hnum : 0 < num) (hden : 0 < den) {power : Int}
    (hpower : power = decimalExponent num den - 17) :
    10 ^ 16 * (den * (powerRatio power).1) ≤ num * (powerRatio power).2 := by
  have hexponent := le_of_decimalExponent hnum hden
  rw [show decimalExponent num den - 1 = power + (16 : Nat) by omega] at hexponent
  have hratio := powerRatio_add power 16
  have hpos := (powerRatio_pos (power + (16 : Nat))).2
  generalize powerRatio (power + (16 : Nat)) = ab at hexponent hratio hpos
  refine Nat.le_of_mul_le_mul_right ?_ hpos
  calc 10 ^ 16 * (den * (powerRatio power).1) * ab.2
      = (powerRatio power).1 * 10 ^ 16 * ab.2 * den := by ac_rfl
    _ = ab.1 * den * (powerRatio power).2 := by rw [← hratio, Nat.mul_right_comm]
    _ ≤ num * ab.2 * (powerRatio power).2 := Nat.mul_le_mul_right _ hexponent
    _ = num * (powerRatio power).2 * ab.2 := Nat.mul_right_comm ..

/-- Of a grid that is fine enough one of the two points around `4 * m` units lies between `b` units
below and two units above, as the gap below is the narrow one only for the least `m`. -/
theorem grid_meets {g c m b k : Nat} (hfine : 10 ^ 16 * g ≤ 4 * (m * c)) (hm : m < 2 ^ 53)
    (hb : 2 ^ 52 < m → b = 2) (hbelow : k * g ≤ 4 * (m * c))
    (habove : 4 * (m * c) < k * g + g) :
    (4 * (m * c) < k * g + b * c ∧ k * g < 4 * (m * c) + 2 * c) ∨
      (4 * (m * c) < k * g + g + b * c ∧ k * g + g < 4 * (m * c) + 2 * c) := by
  by_cases hsmall : m ≤ 2 ^ 52
  · have hle : m * c ≤ 2 ^ 52 * c := Nat.mul_le_mul_right c hsmall
    right
    omega
  · have hle : m * c ≤ 2 ^ 53 * c := Nat.mul_le_mul_right c (Nat.le_of_lt hm)
    rw [hb (by omega)]
    omega

/-- A decimal with seventeen digits is in the interval of every number. -/
theorem isSome_nearest {x : Binary64} (hx : x.isFinite = true) (hm : x.significand ≠ 0)
    {power : Int} (hpower : power = decimalExponent (interval x).value (interval x).den - 17) :
    ((interval x).nearest? power).isSome = true := by
  obtain ⟨hunit, hden⟩ := scaleRatio_pos x.scale
  have hvalue : 0 < (interval x).value := Nat.mul_pos (by omega) hunit
  have hfine := grid_fine hvalue (show 0 < (interval x).den from hden) hpower
  have hpos := (powerRatio_pos power).1
  obtain ⟨-, hnearest⟩ := (interval x).nearest_cases power
  apply hnearest
  obtain ⟨hlow, hval, hhigh⟩ := interval_mul hm (powerRatio power).2
  have hgpos : 0 < (interval x).den * (powerRatio power).1 := Nat.mul_pos hden hpos
  have hinside (digits : Nat)
      (hlt : (interval x).low * (powerRatio power).2 <
        digits * ((interval x).den * (powerRatio power).1))
      (hgt : digits * ((interval x).den * (powerRatio power).1) <
        (interval x).high * (powerRatio power).2) : (interval x).Holds ⟨digits, power⟩ := by
    have hdigits : digits * (powerRatio power).1 * (interval x).den =
        digits * ((interval x).den * (powerRatio power).1) := by
      rw [Nat.mul_assoc, Nat.mul_comm (powerRatio power).1]
    exact Interval.contains_of_lt (hdigits ▸ hlt) (hdigits ▸ hgt)
  have hsig := x.significand_lt
  have hbelow := Nat.div_mul_le_self ((interval x).value * (powerRatio power).2)
    ((interval x).den * (powerRatio power).1)
  have habove := Nat.lt_mul_of_div_lt (Nat.lt_succ_self ((interval x).value *
    (powerRatio power).2 / ((interval x).den * (powerRatio power).1))) hgpos
  rw [Nat.succ_mul] at habove
  rw [hval] at hbelow habove hfine ⊢
  rcases grid_meets hfine hsig (fun h => gapBelow_of_lt hx h) hbelow habove with
    ⟨hlt, hgt⟩ | ⟨hlt, hgt⟩
  · exact .inl (hinside _ (by omega) (by omega))
  · refine .inr (hinside _ ?_ ?_)
    · rw [Nat.succ_mul]
      omega
    · rw [Nat.succ_mul]
      omega

/-- The shortest decimal of a number is in its interval. -/
theorem Interval.exists_strip {x : Binary64} (hx : x.isFinite = true) (hm : x.significand ≠ 0) :
    ∃ d, ofBinary64 x = d.strip ∧ (interval x).Holds d := by
  refine ⟨_, rfl, ?_⟩
  generalize hgrid : (fun n : Nat => ((interval x).nearest?
    (decimalExponent (interval x).value (interval x).den - (n + 1 : Nat))).map fun d =>
      (⟨d, decimalExponent (interval x).value (interval x).den - (n + 1 : Nat)⟩ : Decimal)) = grid
  have hlast : (grid 16).isSome = true := by
    rw [← hgrid, Option.isSome_map]
    exact isSome_nearest hx hm rfl
  have hfound : ((List.range 17).findSome? grid).isSome = true :=
    List.findSome?_isSome_iff.mpr ⟨16, by simp, hlast⟩
  obtain ⟨d, hd⟩ := Option.isSome_iff_exists.mp hfound
  show (interval x).Holds (((List.range 17).findSome? grid).getD ⟨0, 0⟩)
  rw [hd, Option.getD_some]
  obtain ⟨n, -, hn⟩ := List.exists_of_findSome?_eq_some hd
  rw [← hgrid] at hn
  obtain ⟨digits, hdigits, rfl⟩ := Option.map_eq_some_iff.mp hn
  exact ((interval x).nearest_cases _).1 digits hdigits

/-- The shortest decimal of a number is in its interval. -/
theorem holds_ofBinary64 {x : Binary64} (hx : x.isFinite = true) (hm : x.significand ≠ 0) :
    (interval x).Holds (ofBinary64 x) := by
  obtain ⟨d, hd, hholds⟩ := Interval.exists_strip hx hm
  rw [hd]
  exact Interval.holds_strip d hholds

theorem digits_strip {d : Decimal} (h : d.digits ≠ 0) : d.strip.digits % 10 ≠ 0 := by
  fun_induction Decimal.strip d with
  | case1 d hd ih => exact ih (by show d.digits / 10 ≠ 0; omega)
  | case2 d hd =>
    intro hzero
    exact hd ⟨h, hzero⟩

/-- The shortest decimal of a number has no zero at the end of its digits. -/
theorem digits_ofBinary64 {x : Binary64} (hx : x.isFinite = true) (hm : x.significand ≠ 0) :
    (ofBinary64 x).digits % 10 ≠ 0 := by
  obtain ⟨d, hd, hholds⟩ := Interval.exists_strip hx hm
  rw [hd]
  refine digits_strip fun hzero => ?_
  obtain ⟨hlow, -, -⟩ := bounds_of_contains hholds
  have hpos : 0 < (interval x).low * (powerRatio d.power).2 := by
    refine Nat.mul_pos (Nat.mul_pos ?_ (scaleRatio_pos _).1) (powerRatio_pos _).2
    have hgap := gapBelow_bounds x
    show 0 < 4 * x.significand - gapBelow x
    omega
  rw [hzero, Nat.zero_mul, Nat.zero_mul] at hlow
  omega

theorem scaleRatio_add (scale : Int) (n : Nat) :
    (scaleRatio 1 4 (scale + n)).1 * (scaleRatio 1 4 scale).2 =
      (scaleRatio 1 4 scale).1 * 2 ^ n * (scaleRatio 1 4 (scale + n)).2 := by
  unfold scaleRatio
  by_cases hs : 0 ≤ scale
  · have hsum : 0 ≤ scale + n := by omega
    simp only [if_pos hs, if_pos hsum, Nat.one_mul, ← Nat.pow_add]
    congr 2
    omega
  · by_cases hsum : 0 ≤ scale + n
    · simp only [if_neg hs, if_pos hsum, Nat.one_mul]
      rw [Nat.mul_comm 4, ← Nat.mul_assoc, ← Nat.pow_add]
      congr 2
      omega
    · simp only [if_neg hs, if_neg hsum, Nat.one_mul]
      rw [Nat.mul_left_comm, ← Nat.pow_add]
      congr 2
      omega

/-- If two intervals share a ratio, the lower end of one is not above the upper end of the other. -/
theorem facing {x y : Binary64} {num den : Nat} (hx : (interval x).contains num den = true)
    (hy : (interval y).contains num den = true) :
    (interval y).low * (den * (interval x).den) ≤ (interval x).high * (den * (interval y).den) ∧
      (x.significand % 2 = 1 ∨ y.significand % 2 = 1 →
        (interval y).low * (den * (interval x).den) <
          (interval x).high * (den * (interval y).den)) := by
  obtain ⟨-, hhigh, hstrict⟩ := bounds_of_contains hx
  obtain ⟨hlow, -, hstrict'⟩ := bounds_of_contains hy
  have hposx : 0 < (interval x).den := (scaleRatio_pos _).2
  have hposy : 0 < (interval y).den := (scaleRatio_pos _).2
  have hmiddle : num * (interval y).den * (interval x).den =
      num * (interval x).den * (interval y).den := Nat.mul_right_comm ..
  have hbelow := Nat.mul_le_mul_right (interval x).den hlow
  have habove := Nat.mul_le_mul_right (interval y).den hhigh
  rw [← Nat.mul_assoc, ← Nat.mul_assoc]
  refine ⟨by omega, fun hodd => ?_⟩
  rcases hodd with hodd | hodd
  · have := Nat.mul_lt_mul_of_pos_right (hstrict hodd).2 hposy
    omega
  · have := Nat.mul_lt_mul_of_pos_right (hstrict' hodd).1 hposx
    omega

/-- The interval of a number with a larger scale lies above, or touches one that is open. -/
theorem apart_of_scale {m m' b c c' : Nat} (hm : m < 2 ^ 53) (hm' : 2 ^ 52 ≤ m') (hb : b ≤ 2)
    (hleast : m' = 2 ^ 52 → b = 1) (hc : 0 < c) (hc' : 2 * c ≤ c') :
    4 * (m * c) + 2 * c + b * c' ≤ 4 * (m' * c') ∧
      (m % 2 = 0 → 4 * (m * c) + 2 * c + b * c' < 4 * (m' * c')) := by
  have hle : m * c ≤ (2 ^ 53 - 1) * c := Nat.mul_le_mul_right c (by omega)
  by_cases heq : m' = 2 ^ 52
  · rw [hleast heq, heq]
    refine ⟨by omega, fun heven => ?_⟩
    have hle' : m * c ≤ (2 ^ 53 - 2) * c := Nat.mul_le_mul_right c (by omega)
    omega
  · have hlarge : (2 ^ 52 + 1) * c' ≤ m' * c' := Nat.mul_le_mul_right c' (by omega)
    have hgap : b * c' ≤ 2 * c' := Nat.mul_le_mul_right c' hb
    omega

/-- The interval of a larger significand lies above, or touches one of which either is open. -/
theorem apart_of_significand {m m' b c : Nat} (hlt : m < m') (hb : b ≤ 2) (hc : 0 < c) :
    4 * (m * c) + 2 * c + b * c ≤ 4 * (m' * c) ∧
      (m % 2 = 0 → m' % 2 = 0 → 4 * (m * c) + 2 * c + b * c < 4 * (m' * c)) := by
  have hgap : b * c ≤ 2 * c := Nat.mul_le_mul_right c hb
  have hnext : (m + 1) * c ≤ m' * c := Nat.mul_le_mul_right c hlt
  rw [Nat.add_mul] at hnext
  refine ⟨by omega, fun heven heven' => ?_⟩
  have hnext' : (m + 2) * c ≤ m' * c := Nat.mul_le_mul_right c (by omega)
  rw [Nat.add_mul] at hnext'
  omega

/-- A ratio is not in the intervals of two numbers of which one is larger. -/
theorem not_both {x y : Binary64} (hx : x.isFinite = true) (hy : y.isFinite = true)
    (hmx : x.significand ≠ 0) (hmy : y.significand ≠ 0) {num den : Nat} (hden : 0 < den)
    (h : x.scale < y.scale ∨ x.scale = y.scale ∧ x.significand < y.significand)
    (hcx : (interval x).contains num den = true) (hcy : (interval y).contains num den = true) :
    False := by
  obtain ⟨n, hn⟩ : ∃ n : Nat, y.scale = x.scale + n := ⟨(y.scale - x.scale).toNat, by omega⟩
  have hscale := scaleRatio_add x.scale n
  rw [← hn] at hscale
  -- both ends that face each other, over the product of all denominators
  obtain ⟨-, -, hhigh⟩ := interval_mul hmx (den * (interval y).den)
  obtain ⟨hlow, -, -⟩ := interval_mul hmy (den * (interval x).den)
  have hunit : (scaleRatio 1 4 y.scale).1 * (den * (interval x).den) =
      (scaleRatio 1 4 x.scale).1 * (den * (interval y).den) * 2 ^ n := by
    calc (scaleRatio 1 4 y.scale).1 * (den * (scaleRatio 1 4 x.scale).2)
        = (scaleRatio 1 4 y.scale).1 * (scaleRatio 1 4 x.scale).2 * den := by ac_rfl
      _ = (scaleRatio 1 4 x.scale).1 * 2 ^ n * (scaleRatio 1 4 y.scale).2 * den := by rw [hscale]
      _ = (scaleRatio 1 4 x.scale).1 * (den * (scaleRatio 1 4 y.scale).2) * 2 ^ n := by ac_rfl
  have hc : 0 < (scaleRatio 1 4 x.scale).1 * (den * (interval y).den) :=
    Nat.mul_pos (scaleRatio_pos _).1 (Nat.mul_pos hden (scaleRatio_pos _).2)
  have hfacing : (interval y).low * (den * (interval x).den) ≤
      (interval x).high * (den * (interval y).den) ∧
      (x.significand % 2 = 1 ∨ y.significand % 2 = 1 →
        (interval y).low * (den * (interval x).den) <
          (interval x).high * (den * (interval y).den)) :=
    facing hcx hcy
  rw [hhigh] at hfacing
  rw [hunit] at hlow
  generalize (scaleRatio 1 4 x.scale).1 * (den * (interval y).den) = c at *
  have hgap := (gapBelow_bounds y).2
  have hsig := x.significand_lt
  rcases h with hlt | ⟨heq, hlt⟩
  · have hfull : 2 ^ 52 ≤ y.significand := by
      rcases y.scale_cases hy with ⟨hs, -, -⟩ | ⟨-, -, -, hsigy⟩
      · have := x.scale_bounds hx
        omega
      · omega
    have hleast : y.significand = 2 ^ 52 → gapBelow y = 1 := by
      intro hsigy
      have hlow := (x.scale_bounds hx).1
      rcases y.scale_cases hy with ⟨hs, -, -⟩ | ⟨hs, -, -, hfraction⟩
      · omega
      · exact if_pos ⟨by omega, by omega⟩
    have hdouble : 2 * c ≤ c * 2 ^ n := by
      have hpow : 2 ^ 1 ≤ 2 ^ n := Nat.pow_le_pow_right (by decide) (by omega)
      calc 2 * c = c * 2 ^ 1 := by omega
        _ ≤ c * 2 ^ n := Nat.mul_le_mul_left c hpow
    obtain ⟨hle, hstrict⟩ := apart_of_scale hsig hfull hgap hleast hc hdouble
    omega
  · obtain rfl : n = 0 := by omega
    rw [Nat.pow_zero, Nat.mul_one] at hlow
    obtain ⟨hle, hstrict⟩ := apart_of_significand hlt hgap hc
    omega

/-- Two numbers of one sign whose intervals share a ratio are the same. -/
theorem eq_of_contains {x y : Binary64} (hx : x.isFinite = true) (hy : y.isFinite = true)
    (hmx : x.significand ≠ 0) (hmy : y.significand ≠ 0) (hsign : x.negative = y.negative)
    {num den : Nat} (hden : 0 < den) (hcx : (interval x).contains num den = true)
    (hcy : (interval y).contains num den = true) : x = y := by
  have hnot := fun h => not_both hx hy hmx hmy hden h hcx hcy
  have hnot' := fun h => not_both hy hx hmy hmx hden h hcy hcx
  have hscale : x.scale = y.scale := by
    rcases Int.lt_trichotomy x.scale y.scale with hlt | heq | hgt
    · exact (hnot (.inl hlt)).elim
    · exact heq
    · exact (hnot' (.inl hgt)).elim
  have hsig : x.significand = y.significand := by
    rcases Nat.lt_trichotomy x.significand y.significand with hlt | heq | hgt
    · exact (hnot (.inr ⟨hscale, hlt⟩)).elim
    · exact heq
    · exact (hnot' (.inr ⟨hscale.symm, hgt⟩)).elim
  calc x = .ofScaled x.negative x.significand x.scale := (x.ofScaled_significand hx hmx).symm
    _ = .ofScaled y.negative y.significand y.scale := by rw [hsign, hsig, hscale]
    _ = y := y.ofScaled_significand hy hmy

/-- The shortest decimal tells a number from every other one of its sign. -/
theorem ofBinary64_inj {x y : Binary64} (hx : x.isFinite = true) (hy : y.isFinite = true)
    (hmx : x.significand ≠ 0) (hmy : y.significand ≠ 0) (hsign : x.negative = y.negative)
    (h : ofBinary64 x = ofBinary64 y) : x = y := by
  have hholds := holds_ofBinary64 hx hmx
  rw [h] at hholds
  exact eq_of_contains hx hy hmx hmy hsign (powerRatio_pos _).2 hholds (holds_ofBinary64 hy hmy)

end RecordStore.Shortest
