import RecordStore.Json.Printer
import RecordStore.Proofs.Number.Shortest

/-!
The text of a floating-point number tells it from every other. A text is its digits before the
point, those after it, and an exponent; together they give back the digits and the power of the
decimal, up to zeros at the end, of which the shortest decimal has none.
-/
namespace RecordStore

/-- Two texts that begin with what passes a test and go on with what does not are equal part by
part. -/
theorem append_inj_of_all {α : Type} {test : α → Bool} {as bs rest rest' : List α}
    (has : ∀ a ∈ as, test a = true) (hbs : ∀ b ∈ bs, test b = true)
    (hrest : ∀ a ∈ rest.head?, test a = false) (hrest' : ∀ a ∈ rest'.head?, test a = false)
    (h : as ++ rest = bs ++ rest') : as = bs ∧ rest = rest' := by
  have htake {items rest : List α} (hall : ∀ a ∈ items, test a = true)
      (hend : ∀ a ∈ rest.head?, test a = false) : (items ++ rest).takeWhile test = items := by
    rw [List.takeWhile_append_of_pos hall]
    cases rest with
    | nil => simp
    | cons a rest => simp [hend a rfl]
  have heq : as = bs := by rw [← htake has hrest, h, htake hbs hrest']
  subst heq
  exact ⟨rfl, List.append_cancel_left h⟩

namespace Json

open Shortest

/-- The parts of the text of a positive number. -/
structure FloatParts where
  whole : List Char
  /-- The digits after the point, which is not there without them. -/
  fraction : List Char
  exponent? : Option Int

namespace FloatParts

def exponentChars : Option Int → List Char
  | none => []
  | some k => 'e' :: (if k < 0 then '-' else '+') :: Nat.toDigits 10 k.natAbs

def fractionChars (fraction : List Char) : List Char :=
  if fraction = [] then [] else '.' :: fraction

def chars (p : FloatParts) : List Char :=
  p.whole ++ (fractionChars p.fraction ++ exponentChars p.exponent?)

def value (p : FloatParts) : Nat × Int :=
  (Nat.ofDigitChars 10 (p.whole ++ p.fraction) 0, p.exponent?.getD 0 - p.fraction.length)

/-- Parts made of digits, of which there are some before the point, with a point or an exponent. -/
structure Wellformed (p : FloatParts) : Prop where
  whole : ∀ c ∈ p.whole, c.isDigit = true
  fraction : ∀ c ∈ p.fraction, c.isDigit = true
  whole_ne : p.whole ≠ []
  marked : p.fraction ≠ [] ∨ p.exponent?.isSome = true

theorem isDigit_head_exponentChars (k? : Option Int) :
    ∀ c ∈ (exponentChars k?).head?, c.isDigit = false := by
  cases k? with
  | none => simp [exponentChars]
  | some k =>
    intro c hc
    obtain rfl : 'e' = c := by simpa [exponentChars] using hc
    rfl

theorem isDigit_head_tail (fraction : List Char) (k? : Option Int) :
    ∀ c ∈ (fractionChars fraction ++ exponentChars k?).head?, c.isDigit = false := by
  unfold fractionChars
  split
  · exact isDigit_head_exponentChars k?
  · intro c hc
    obtain rfl : '.' = c := by simpa using hc
    rfl

theorem toDigits_inj {m n : Nat} (h : Nat.toDigits 10 m = Nat.toDigits 10 n) : m = n := by
  rw [← Nat.ofDigitChars_ten_toDigits (n := m), h, Nat.ofDigitChars_ten_toDigits]

theorem exponentChars_inj {k? l? : Option Int} (h : exponentChars k? = exponentChars l?) :
    k? = l? := by
  cases k? with
  | none =>
    cases l? with
    | none => rfl
    | some l => cases h
  | some k =>
    cases l? with
    | none => cases h
    | some l =>
      simp only [exponentChars, List.cons.injEq, true_and] at h
      obtain ⟨hsign, hdigits⟩ := h
      have habs := toDigits_inj hdigits
      have hneg : k < 0 ↔ l < 0 := by
        split_ifs at hsign with hk hl hl
        · exact iff_of_true hk hl
        · cases hsign
        · cases hsign
        · exact iff_of_false hk hl
      congr 1
      omega

/-- The text of a number gives its parts. -/
theorem chars_inj {p q : FloatParts} (hp : p.Wellformed) (hq : q.Wellformed)
    (h : p.chars = q.chars) : p = q := by
  obtain ⟨hwhole, htail⟩ := append_inj_of_all hp.whole hq.whole
    (isDigit_head_tail p.fraction p.exponent?) (isDigit_head_tail q.fraction q.exponent?) h
  obtain ⟨whole, fraction, exponent?⟩ := p
  obtain ⟨whole', fraction', exponent?'⟩ := q
  obtain rfl : whole = whole' := hwhole
  have htail : fractionChars fraction ++ exponentChars exponent? =
      fractionChars fraction' ++ exponentChars exponent?' := htail
  have hmark (k? : Option Int) (rest : List Char) : exponentChars k? ≠ '.' :: rest := by
    cases k? <;> simp [exponentChars]
  have hboth : fraction = fraction' ∧ exponentChars exponent? = exponentChars exponent?' := by
    unfold fractionChars at htail
    by_cases hf : fraction = [] <;> by_cases hf' : fraction' = []
    · simpa [hf, hf'] using htail
    · simp only [if_pos hf, if_neg hf', List.nil_append] at htail
      exact absurd htail (hmark exponent? _)
    · simp only [if_neg hf, if_pos hf', List.nil_append] at htail
      exact absurd htail.symm (hmark exponent?' _)
    · simp only [if_neg hf, if_neg hf', List.cons_append, List.cons.injEq, true_and] at htail
      exact append_inj_of_all hp.fraction hq.fraction (isDigit_head_exponentChars _)
        (isDigit_head_exponentChars _) htail
  rw [hboth.1, exponentChars_inj hboth.2]

end FloatParts

def floatParts (d : Decimal) : FloatParts :=
  let ds := Nat.toDigits 10 d.digits
  let n : Int := ds.length
  let e := n + d.power
  if -5 < e ∧ e ≤ 16 then
    if e ≤ 0 then ⟨['0'], List.replicate (-e).toNat '0' ++ ds, none⟩
    else if n ≤ e then ⟨ds ++ List.replicate (e - n).toNat '0', ['0'], none⟩
    else ⟨ds.take e.toNat, ds.drop e.toNat, none⟩
  else ⟨ds.take 1, ds.drop 1, some (e - 1)⟩

theorem chars_of_fraction {whole fraction : List Char} (h : fraction ≠ []) :
    (FloatParts.mk whole fraction none).chars = whole ++ '.' :: fraction := by
  simp [FloatParts.chars, FloatParts.fractionChars, FloatParts.exponentChars, h]

theorem render_floatLayout (d : Decimal) : d.render floatLayout =
    let ds := Nat.toDigits 10 d.digits
    let n : Int := ds.length
    let e := n + d.power
    if -5 < e ∧ e ≤ 16 then
      if e ≤ 0 then "0." ++ String.ofList (List.replicate (-e).toNat '0' ++ ds)
      else if n ≤ e then String.ofList (ds ++ List.replicate (e - n).toNat '0') ++ ".0"
      else String.ofList (ds.take e.toNat) ++ "." ++ String.ofList (ds.drop e.toNat)
    else
      String.ofList (ds.take 1) ++
        (if (ds.drop 1).isEmpty then "" else "." ++ String.ofList (ds.drop 1)) ++ "e" ++
        (if e - 1 < 0 then "-" else "+") ++ toString (e - 1).natAbs := rfl

/-- A decimal is printed by its parts. -/
theorem toList_render (d : Decimal) :
    (d.render floatLayout).toList = (floatParts d).chars := by
  have hne : Nat.toDigits 10 d.digits ≠ [] := Nat.toDigits_ne_nil
  rw [render_floatLayout]
  unfold floatParts
  generalize Nat.toDigits 10 d.digits = ds at hne ⊢
  dsimp only
  by_cases hpositional : -5 < (ds.length : Int) + d.power ∧ (ds.length : Int) + d.power ≤ 16
  · simp only [if_pos hpositional]
    by_cases hsmall : (ds.length : Int) + d.power ≤ 0
    · rw [if_pos hsmall, if_pos hsmall, chars_of_fraction (by simp [hne])]
      simp only [String.toList_append, String.toList_ofList]
      rfl
    · simp only [if_neg hsmall]
      by_cases hwhole : (ds.length : Int) ≤ ds.length + d.power
      · rw [if_pos hwhole, if_pos hwhole, chars_of_fraction (by simp)]
        simp only [String.toList_append, String.toList_ofList]
        rfl
      · have hrest : ds.drop ((ds.length : Int) + d.power).toNat ≠ [] := by
          rw [Ne, List.drop_eq_nil_iff]
          omega
        rw [if_neg hwhole, if_neg hwhole, chars_of_fraction hrest]
        simp only [String.toList_append, String.toList_ofList, List.append_assoc]
        rfl
  · simp only [if_neg hpositional, FloatParts.chars, FloatParts.fractionChars,
      FloatParts.exponentChars, String.toList_append, String.toList_ofList, List.isEmpty_iff,
      Nat.toString_eq_repr, Nat.toList_repr, List.append_assoc]
    congr 1
    have hfraction : (if ds.drop 1 = [] then "" else "." ++ String.ofList (ds.drop 1)).toList =
        if ds.drop 1 = [] then [] else '.' :: ds.drop 1 := by
      split
      · rfl
      · simp only [String.toList_append, String.toList_ofList]
        rfl
    have hsign : (if (ds.length : Int) + d.power - 1 < 0 then "-" else "+").toList =
        [if (ds.length : Int) + d.power - 1 < 0 then '-' else '+'] := by
      split <;> rfl
    rw [hfraction, hsign]
    rfl

/-- The parts that a decimal is printed by are those of a numeral. -/
theorem wellformed_floatParts (d : Decimal) : (floatParts d).Wellformed := by
  have hne : Nat.toDigits 10 d.digits ≠ [] := Nat.toDigits_ne_nil
  have hdigit : ∀ c ∈ Nat.toDigits 10 d.digits, c.isDigit = true :=
    fun c hc => Nat.isDigit_of_mem_toDigits (by decide) (by decide) hc
  unfold floatParts
  generalize Nat.toDigits 10 d.digits = ds at hne hdigit ⊢
  have hzeros (n : Nat) : ∀ c ∈ List.replicate n '0', c.isDigit = true := by
    intro c hc
    rw [List.eq_of_mem_replicate hc]
    rfl
  have hzero : ∀ c ∈ ['0'], c.isDigit = true := hzeros 1
  have happend {as bs : List Char} (has : ∀ c ∈ as, c.isDigit = true)
      (hbs : ∀ c ∈ bs, c.isDigit = true) : ∀ c ∈ as ++ bs, c.isDigit = true := by
    intro c hc
    rcases List.mem_append.mp hc with hc | hc
    · exact has c hc
    · exact hbs c hc
  have htake (n : Nat) : ∀ c ∈ ds.take n, c.isDigit = true :=
    fun c hc => hdigit c (List.mem_of_mem_take hc)
  have hdrop (n : Nat) : ∀ c ∈ ds.drop n, c.isDigit = true :=
    fun c hc => hdigit c (List.mem_of_mem_drop hc)
  dsimp only
  split
  · split
    · exact ⟨hzero, happend (hzeros _) hdigit, by simp, .inl (by simp [hne])⟩
    · split
      · exact ⟨happend hdigit (hzeros _), hzero, by simp [hne], .inl (by simp)⟩
      · next hsmall hwhole =>
        refine ⟨htake _, hdrop _, ?_, .inl ?_⟩
        · rw [Ne, List.take_eq_nil_iff]
          rintro (hlength | hnil)
          · omega
          · exact hne hnil
        · rw [Ne, List.drop_eq_nil_iff]
          omega
  · exact ⟨htake 1, hdrop 1, by simp [hne], .inr rfl⟩

/-- The parts give back the decimal, but for zeros at the end of the digits. -/
theorem value_floatParts (d : Decimal) :
    ∃ n : Nat, (floatParts d).value = (d.digits * 10 ^ n, d.power - n) := by
  have hvalue : Nat.ofDigitChars 10 (Nat.toDigits 10 d.digits) 0 = d.digits :=
    Nat.ofDigitChars_ten_toDigits
  have hpos : 0 < (Nat.toDigits 10 d.digits).length := Nat.length_toDigits_pos
  unfold floatParts FloatParts.value
  generalize Nat.toDigits 10 d.digits = ds at hvalue hpos ⊢
  have hzero (rest : List Char) :
      Nat.ofDigitChars 10 ('0' :: rest) 0 = Nat.ofDigitChars 10 rest 0 := by
    rw [Nat.ofDigitChars_cons]
    rfl
  dsimp only
  split
  · split
    · refine ⟨0, Prod.ext ?_ ?_⟩
      · simp [hzero, Nat.ofDigitChars_append, hvalue]
      · simp
        omega
    · split
      · refine ⟨d.power.toNat + 1, Prod.ext ?_ ?_⟩
        · rw [Nat.ofDigitChars_append, Nat.ofDigitChars_append, hvalue,
            Nat.ofDigitChars_replicate_zero, Nat.ofDigitChars_cons, Nat.ofDigitChars_nil]
          rw [show ((ds.length : Int) + d.power - ds.length).toNat = d.power.toNat by omega,
            Nat.pow_succ]
          show 10 * (10 ^ d.power.toNat * d.digits) = _
          ring
        · simp
          omega
      · refine ⟨0, Prod.ext ?_ ?_⟩
        · simp [hvalue]
        · simp
          omega
  · refine ⟨0, Prod.ext ?_ ?_⟩
    · simp only [List.take_append_drop, hvalue, Nat.pow_zero, Nat.mul_one]
    · simp
      omega

/-- A number ends in only so many zeros. -/
theorem power_unique {a b m n : Nat} (ha : a % 10 ≠ 0) (hb : b % 10 ≠ 0)
    (h : a * 10 ^ m = b * 10 ^ n) : m = n := by
  have hnot {a b m n : Nat} (ha : a % 10 ≠ 0) (h : a * 10 ^ m = b * 10 ^ n) : ¬m < n := by
    intro hlt
    obtain ⟨k, rfl⟩ := Nat.exists_eq_add_of_lt hlt
    have hcancel : a * 10 ^ m = b * 10 ^ k * 10 * 10 ^ m := by
      rw [h, Nat.pow_succ, Nat.pow_add]
      ac_rfl
    have heq := Nat.eq_of_mul_eq_mul_right (Nat.pow_pos (by decide)) hcancel
    omega
  have hle := hnot ha h
  have hge := hnot hb h.symm
  omega

/-- Two decimals without zeros at the end of their digits have different parts. -/
theorem floatParts_inj {d d' : Decimal} (hd : d.digits % 10 ≠ 0) (hd' : d'.digits % 10 ≠ 0)
    (h : floatParts d = floatParts d') : d = d' := by
  obtain ⟨n, hn⟩ := value_floatParts d
  obtain ⟨n', hn'⟩ := value_floatParts d'
  rw [h, hn'] at hn
  obtain ⟨hdigits, hpower⟩ := Prod.mk.inj hn
  have hsame : n' = n := power_unique hd' hd hdigits
  subst hsame
  have heq := Nat.eq_of_mul_eq_mul_right (Nat.pow_pos (by decide)) hdigits
  obtain ⟨digits, power⟩ := d
  obtain ⟨digits', power'⟩ := d'
  have hpower : power' - (n' : Int) = power - n' := hpower
  simp only [Decimal.mk.injEq]
  exact ⟨heq.symm, by omega⟩

def partsOf (x : Binary64) : FloatParts :=
  if x.isZero then ⟨['0'], ['0'], none⟩ else floatParts (ofBinary64 x)

theorem wellformed_partsOf (x : Binary64) : (partsOf x).Wellformed := by
  have hzero : ∀ c ∈ ['0'], c.isDigit = true := by
    intro c hc
    rw [List.mem_singleton.mp hc]
    rfl
  unfold partsOf
  split
  · exact ⟨hzero, hzero, by simp, .inl (by simp)⟩
  · exact wellformed_floatParts _

theorem toList_floatText {x : Binary64} (hx : x.isFinite = true) :
    (floatText x).toList = (if x.negative then ['-'] else []) ++ (partsOf x).chars := by
  have hnan : x.isNaN = false := by
    simp only [Binary64.isFinite, bne_iff_ne, ne_eq] at hx
    simp [Binary64.isNaN, hx]
  have hsign : (if x.negative then "-" else "").toList = if x.negative then ['-'] else [] := by
    split <;> rfl
  unfold floatText partsOf
  rw [if_neg (by simp [hnan]), if_neg (by simp [hx])]
  split
  · rw [String.toList_append, hsign]
    rfl
  · rw [String.toList_append, hsign, toList_render]

theorem isZero_iff (x : Binary64) (hx : x.isFinite = true) :
    x.isZero = true ↔ x.significand = 0 := by
  rcases x.scale_cases hx with ⟨-, hexp, hsig⟩ | ⟨-, hpos, -, hsig⟩
  · simp [Binary64.isZero, hexp, hsig]
  · have hne : x.exponent.val ≠ 0 := by omega
    simp [Binary64.isZero, hne, hsig]

/-- The digits of a number before the point are not its sign. -/
theorem append_chars_inj {p q : FloatParts} (hp : p.Wellformed) (hq : q.Wellformed) {a b : Bool}
    (h : (if a then ['-'] else []) ++ p.chars = (if b then ['-'] else []) ++ q.chars) :
    a = b ∧ p.chars = q.chars := by
  have hhead {p : FloatParts} (hp : p.Wellformed) (rest : List Char) : p.chars ≠ '-' :: rest := by
    intro hchars
    obtain ⟨c, whole, hwhole⟩ := List.exists_cons_of_ne_nil hp.whole_ne
    have hc : c.isDigit = true := hp.whole c (by simp [hwhole])
    rw [FloatParts.chars, hwhole, List.cons_append, List.cons.injEq] at hchars
    rw [hchars.1] at hc
    cases hc
  cases a <;> cases b
  · exact ⟨rfl, h⟩
  · exact absurd h (hhead hp _)
  · exact absurd h.symm (hhead hq _)
  · exact ⟨rfl, List.cons.inj h |>.2⟩

/-- Numbers of one sign that are printed alike are the same. -/
theorem partsOf_inj {x y : Binary64} (hx : x.isFinite = true) (hy : y.isFinite = true)
    (hsign : x.negative = y.negative) (h : partsOf x = partsOf y) : x = y := by
  have hpositive {z : Binary64} (hz : z.isFinite = true) (hm : z.significand ≠ 0) :
      ∃ n, (floatParts (ofBinary64 z)).value.1 = n + 1 := by
    obtain ⟨n, hn⟩ := value_floatParts (ofBinary64 z)
    have hdigits := digits_ofBinary64 hz hm
    refine Nat.exists_eq_succ_of_ne_zero ?_
    rw [hn]
    exact Nat.mul_ne_zero (by omega) (Nat.ne_of_gt (Nat.pow_pos (by decide)))
  unfold partsOf at h
  split at h <;> split at h
  · next hzx hzy =>
    rw [x.eq_zero_of_significand hx ((isZero_iff x hx).mp hzx),
      y.eq_zero_of_significand hy ((isZero_iff y hy).mp hzy), hsign]
  · next hzx hzy =>
    obtain ⟨n, hn⟩ := hpositive hy (mt (isZero_iff y hy).mpr hzy)
    rw [← h] at hn
    cases hn
  · next hzx hzy =>
    obtain ⟨n, hn⟩ := hpositive hx (mt (isZero_iff x hx).mpr hzx)
    rw [h] at hn
    cases hn
  · next hzx hzy =>
    have hmx := mt (isZero_iff x hx).mpr hzx
    have hmy := mt (isZero_iff y hy).mpr hzy
    exact ofBinary64_inj hx hy hmx hmy hsign
      (floatParts_inj (digits_ofBinary64 hx hmx) (digits_ofBinary64 hy hmy) h)

/-- Finite numbers have different texts. -/
theorem floatText_inj {x y : Binary64} (hx : x.isFinite = true) (hy : y.isFinite = true)
    (h : floatText x = floatText y) : x = y := by
  have hchars := congrArg String.toList h
  rw [toList_floatText hx, toList_floatText hy] at hchars
  obtain ⟨hsign, hparts⟩ := append_chars_inj (wellformed_partsOf x) (wellformed_partsOf y) hchars
  exact partsOf_inj hx hy hsign
    (FloatParts.chars_inj (wellformed_partsOf x) (wellformed_partsOf y) hparts)

end Json

end RecordStore
