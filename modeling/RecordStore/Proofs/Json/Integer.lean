import RecordStore.Json.Numeral
import RecordStore.Proofs.Json.Text

/-!
Integers as text. An integer that a text is read as is in the range that can be stored, and the
text of such an integer is read as it and nothing else.
-/
namespace RecordStore.Numeral

attribute [local instance (high)] instPowNat

theorem takeDigits_lt {m : Nat} (h : m < 2 ^ 64) (cs : List Char) : (takeDigits m cs).1 < 2 ^ 64 := by
  induction cs generalizing m with
  | nil => exact h
  | cons c rest ih =>
    unfold takeDigits
    split
    · next hc =>
      simp only [Bool.and_eq_true, decide_eq_true_eq] at hc
      exact ih hc.2
    · exact h

theorem finish_ne_integer {negative : Bool} {m : Nat} {power : Int} {cs rest : List Char} {n : Int} :
    finish negative m power cs ≠ .ok (.integer n, rest) := by
  unfold finish
  split <;> simp

theorem exponent_ne_integer {negative : Bool} {m : Nat} {power : Int} {cs rest : List Char}
    {n : Int} : exponent negative m power cs ≠ .ok (.integer n, rest) := by
  intro h
  unfold exponent at h
  split at h
  split at h
  · cases h
  · split at h
    · cases h
    · split at h
      · exact finish_ne_integer h
      · split at h <;> cases h

theorem afterDigits_ne_integer {negative : Bool} {m : Nat} {power : Int} {cs rest : List Char}
    {n : Int} : afterDigits negative m power cs ≠ .ok (.integer n, rest) := by
  unfold afterDigits
  split
  · exact exponent_ne_integer
  · exact exponent_ne_integer
  · exact finish_ne_integer

theorem fraction_ne_integer {negative : Bool} {m : Nat} {power : Int} {cs rest : List Char}
    {n : Int} : fraction negative m power cs ≠ .ok (.integer n, rest) := by
  intro h
  unfold fraction at h
  split at h
  split at h
  · cases h
  · exact afterDigits_ne_integer h

theorem isStorable_of_afterWhole {negative : Bool} {m : Nat} {cs rest : List Char} {n : Int}
    (hm : m < 2 ^ 64) (h : afterWhole negative m cs = .ok (.integer n, rest)) :
    Json.isStorable n = true := by
  unfold afterWhole at h
  split at h
  · exact absurd h fraction_ne_integer
  · exact absurd h exponent_ne_integer
  · exact absurd h exponent_ne_integer
  · obtain ⟨hn, -⟩ := Prod.mk.inj (Except.ok.inj h)
    unfold whole at hn
    simp only [Json.isStorable, Bool.and_eq_true, decide_eq_true_eq]
    split at hn
    · cases hn
      omega
    · split at hn
      · cases hn
      · next hrange =>
        cases hn
        simp only [Bool.or_eq_true, decide_eq_true_eq] at hrange
        omega

/-- What is read as a whole number is within the bounds of one. -/
theorem isStorable_of_read {cs rest : List Char} {n : Int} (h : read cs = .ok (.integer n, rest)) :
    Json.isStorable n = true := by
  unfold read at h
  split at h
  split at h
  · cases h
  · split at h
    · cases h
    · split at h
      · split at h
        · cases h
        · exact isStorable_of_afterWhole (by decide) h
      · next c rest _ _ _ =>
        have hlt := takeDigits_lt (m := 0) (by decide) (c :: rest)
        split at h
        next m _ rest' htake =>
        rw [htake] at hlt
        dsimp only at h
        split at h
        · exact isStorable_of_afterWhole hlt h
        · split at h
          · exact absurd h fraction_ne_integer
          · exact absurd h afterDigits_ne_integer

theorem le_ofDigitChars (cs : List Char) (m : Nat) : m ≤ Nat.ofDigitChars 10 cs m := by
  induction cs generalizing m with
  | nil => exact Nat.le_refl m
  | cons c rest ih =>
    rw [Nat.ofDigitChars_cons]
    exact Nat.le_trans (by omega) (ih _)

/-- Digits whose value is within the bounds are all taken. -/
theorem takeDigits_eq {m : Nat} {cs : List Char} (hcs : ∀ c ∈ cs, c.isDigit = true)
    (h : Nat.ofDigitChars 10 cs m < 2 ^ 64) :
    takeDigits m cs = (Nat.ofDigitChars 10 cs m, cs.length, []) := by
  induction cs generalizing m with
  | nil => rfl
  | cons c rest ih =>
    obtain ⟨hc, hrest⟩ := List.forall_mem_cons.mp hcs
    rw [Nat.ofDigitChars_cons] at h ⊢
    have hnext : 10 * m + digitValue c < 2 ^ 64 := Nat.lt_of_le_of_lt (le_ofDigitChars rest _) h
    rw [takeDigits, hc, decide_eq_true hnext, Bool.and_self, if_pos rfl]
    unfold digitValue at *
    rw [ih hrest h, List.length_cons]

/-- The digits of a number that is not zero do not start with zero. -/
theorem exists_toDigits {n : Nat} (h : 0 < n) :
    ∃ c rest, Nat.toDigits 10 n = c :: rest ∧ c ≠ '0' := by
  induction n using Nat.strongRecOn with
  | ind n ih =>
    rw [Nat.toDigits_eq_if (by decide)]
    split
    · next hlt =>
      refine ⟨_, [], rfl, ?_⟩
      interval_cases n <;> decide
    · obtain ⟨c, rest, hdigits, hc⟩ := ih (n / 10) (by omega) (by omega)
      exact ⟨c, rest ++ [(n % 10).digitChar], by rw [hdigits]; rfl, hc⟩

theorem whole_natAbs {n : Int} (h : Json.isStorable n = true) (hzero : n ≠ 0) :
    whole (decide (n < 0)) n.natAbs = .integer n := by
  have hpos := Int.natAbs_ne_zero.mpr hzero
  simp only [Json.isStorable, Bool.and_eq_true, decide_eq_true_eq] at h
  by_cases hn : n < 0
  · have hrange : (n.natAbs = 0 || decide (2 ^ (63 : Nat) < n.natAbs)) = false := by
      rw [Bool.or_eq_false_iff, decide_eq_false_iff_not, decide_eq_false_iff_not]
      omega
    have habs : -(n.natAbs : Int) = n := by omega
    rw [decide_eq_true hn, whole, Bool.not_true, if_neg Bool.false_ne_true, hrange,
      if_neg Bool.false_ne_true, habs]
  · have habs : (n.natAbs : Int) = n := by omega
    rw [decide_eq_false hn, whole, Bool.not_false, if_pos rfl, habs]

/-- The text of an integer that can be stored is read as the integer. -/
theorem read_toString {n : Int} (h : Json.isStorable n = true) :
    read (toString n).toList = .ok (.integer n, []) := by
  by_cases hzero : n = 0
  · rw [hzero]
    rfl
  · obtain ⟨c, rest, hdigits, hc⟩ := exists_toDigits (n := n.natAbs) (by omega)
    have hall : ∀ c' ∈ c :: rest, c'.isDigit = true := fun c' hc' =>
      Json.isDigit_of_mem_toDigits (hdigits ▸ hc')
    have hvalue : Nat.ofDigitChars 10 (c :: rest) 0 = n.natAbs := by
      rw [← hdigits, Nat.ofDigitChars_ten_toDigits]
    have hrange : n.natAbs < 2 ^ 64 := by
      simp only [Json.isStorable, Bool.and_eq_true, decide_eq_true_eq] at h
      omega
    have htake : takeDigits 0 (c :: rest) = (n.natAbs, (c :: rest).length, []) := by
      rw [← hvalue] at hrange ⊢
      exact takeDigits_eq hall hrange
    have hdigit := hall c (List.mem_cons_self ..)
    have hwhole := whole_natAbs h hzero
    rw [Json.toList_toString_int, hdigits]
    by_cases hn : n < 0
    · rw [decide_eq_true hn] at hwhole
      simp [read, hn, hdigit, hc, htake, afterWhole, hwhole]
    · have hsign : c ≠ '-' := by
        rintro rfl
        cases hdigit
      rw [decide_eq_false hn] at hwhole
      simp [read, hn, hdigit, hc, hsign, htake, afterWhole, hwhole]

end RecordStore.Numeral
