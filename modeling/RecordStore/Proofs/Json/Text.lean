import RecordStore.Json.Reader
import RecordStore.Proofs.Json.Equality
import RecordStore.Proofs.Json.FloatText
import Mathlib.Tactic.IntervalCases

/-!
The compact text of a value tells it from every other value that text can express. A reader of
strings gives back what was quoted; a number ends where no character of a number follows; and the
first character of a text says of which kind its value is.
-/
namespace RecordStore.Json

theorem hexDigit_digitChar {n : Nat} (h : n < 16) : hexDigit? n.digitChar = some n := by
  interval_cases n <;> rfl

/-- A control character without a short escape is written by its code point. -/
theorem toList_escapeChar_control {c : Char} (h : c.toNat < 0x20)
    (hshort : c ≠ '\x08' ∧ c ≠ '\x0c' ∧ c ≠ '\n' ∧ c ≠ '\r' ∧ c ≠ '\t') :
    (escapeChar c).toList =
      ['\\', 'u', '0', '0', (c.toNat / 16).digitChar, (c.toNat % 16).digitChar] := by
  obtain ⟨hb, hf, hn, hr, ht⟩ := hshort
  have hquote : c ≠ '\x22' := by rintro rfl; exact absurd h (by decide)
  have hslash : c ≠ '\\' := by rintro rfl; exact absurd h (by decide)
  simp only [escapeChar, hquote, hslash, hb, hf, hn, hr, ht, if_false, if_pos h]
  split
  · next hlow =>
    have hdiv : c.toNat / 16 = 0 := by omega
    have hmod : c.toNat % 16 = c.toNat := by omega
    simp only [String.toList_append, Escape.hex, String.toList_ofList,
      Nat.toDigits_of_lt_base hlow, hdiv, hmod]
    rfl
  · next hlow =>
    have hdiv : c.toNat / 16 = 1 := by omega
    have hdigits : Nat.toDigits 16 c.toNat = ['1', (c.toNat % 16).digitChar] := by
      rw [Nat.toDigits_of_base_le (by decide) (by omega), hdiv]
      rfl
    simp only [String.toList_append, Escape.hex, String.toList_ofList, hdigits, hdiv]
    rfl

theorem stringBody_cons {c : Char} (hcontrol : ¬c.toNat < 0x20) (hquote : c ≠ '\x22')
    (hslash : c ≠ '\\') (rest : List Char) :
    stringBody (c :: rest) = (stringBody rest).map fun (s, r) => (c :: s, r) := by
  rw [stringBody.eq_def]
  split
  · next heq => cases heq
  · next heq => exact absurd (List.cons.inj heq).1 hquote
  · next heq => exact absurd (List.cons.inj heq).1 hslash
  · next heq => exact absurd (List.cons.inj heq).1 hslash
  · next heq =>
    obtain ⟨rfl, rfl⟩ := List.cons.inj heq
    rw [if_neg hcontrol]

/-- The reader takes an escaped character as one. -/
theorem stringBody_escapeChar (c : Char) (rest : List Char) :
    stringBody ((escapeChar c).toList ++ rest) =
      (stringBody rest).map fun (s, r) => (c :: s, r) := by
  by_cases hquote : c = '\x22'
  · subst hquote
    rfl
  by_cases hslash : c = '\\'
  · subst hslash
    rfl
  by_cases hcontrol : c.toNat < 0x20
  · by_cases hshort : c ≠ '\x08' ∧ c ≠ '\x0c' ∧ c ≠ '\n' ∧ c ≠ '\r' ∧ c ≠ '\t'
    · have hhex : hex4? '0' '0' (c.toNat / 16).digitChar (c.toNat % 16).digitChar =
          some c.toNat := by
        have hhigh := hexDigit_digitChar (show c.toNat / 16 < 16 by omega)
        have hlow := hexDigit_digitChar (show c.toNat % 16 < 16 by omega)
        have hzero : hexDigit? '0' = some 0 := rfl
        have hsum : ((0 * 16 + 0) * 16 + c.toNat / 16) * 16 + c.toNat % 16 = c.toNat := by omega
        simp only [hex4?, hzero, hhigh, hlow, Option.bind_eq_bind, Option.bind_some, hsum]
        rfl
      rw [toList_escapeChar_control hcontrol hshort]
      simp only [List.cons_append, List.nil_append, stringBody, hhex]
      rw [if_pos (by omega), Char.ofNat_toNat]
    · have hone : c = '\x08' ∨ c = '\x0c' ∨ c = '\n' ∨ c = '\r' ∨ c = '\t' := by tauto
      rcases hone with rfl | rfl | rfl | rfl | rfl <;> rfl
  · have hself : (escapeChar c).toList = [c] := by
      have hne {d : Char} (hd : d.toNat < 0x20) : c ≠ d := by
        rintro rfl
        exact hcontrol hd
      have hb : c ≠ '\x08' := hne (by decide)
      have hf : c ≠ '\x0c' := hne (by decide)
      have hn : c ≠ '\n' := hne (by decide)
      have hr : c ≠ '\r' := hne (by decide)
      have ht : c ≠ '\t' := hne (by decide)
      have hlow : ¬c.toNat < 0x10 := by omega
      simp only [escapeChar, hquote, hslash, hb, hf, hn, hr, ht, if_false, if_neg hlow,
        if_neg hcontrol]
      simp
    rw [hself]
    exact stringBody_cons hcontrol hquote hslash rest

theorem toList_quote (s : String) : (quote s).toList =
    '\x22' :: (s.toList.flatMap (fun c => (escapeChar c).toList) ++ ['\x22']) := by
  simp only [quote, String.toList_append, String.toList_join, List.flatMap_map]
  rfl

/-- The reader gives back what was quoted, and what follows it. -/
theorem stringBody_quote (cs rest : List Char) :
    stringBody (cs.flatMap (fun c => (escapeChar c).toList) ++ '\x22' :: rest) =
      some (cs, rest) := by
  induction cs with
  | nil => rfl
  | cons c cs ih => rw [List.flatMap_cons, List.append_assoc, stringBody_escapeChar, ih]; rfl

theorem quote_append_inj {s t : String} {rest rest' : List Char}
    (h : (quote s).toList ++ rest = (quote t).toList ++ rest') : s = t ∧ rest = rest' := by
  simp only [toList_quote, List.cons_append, List.append_assoc, List.nil_append, List.cons.injEq,
    true_and] at h
  have hread := stringBody_quote s.toList rest
  rw [h, stringBody_quote] at hread
  obtain ⟨hs, hrest⟩ := Prod.mk.inj (Option.some.inj hread)
  exact ⟨(String.toList_inj.mp hs).symm, hrest.symm⟩

def isNumeral (c : Char) : Bool := c.isDigit || c == '-' || c == '+' || c == '.' || c == 'e'

theorem isNumeral_of_isDigit {c : Char} (h : c.isDigit = true) : isNumeral c = true := by
  simp [isNumeral, h]

/-- The text of an integer is digits after at most one sign. -/
theorem toList_toString_int (n : Int) : (toString n).toList =
    (if n < 0 then ['-'] else []) ++ Nat.toDigits 10 n.natAbs := by
  rw [Int.toString_eq_repr, Int.repr_eq_if]
  by_cases hn : n < 0
  · rw [if_neg (by omega), if_pos hn, String.toList_append, Nat.toList_repr,
      show (-n).toNat = n.natAbs by omega]
    rfl
  · rw [if_pos (by omega), if_neg hn, Nat.toList_repr, show n.toNat = n.natAbs by omega]
    rfl

theorem isDigit_of_mem_toDigits {n : Nat} {c : Char} (h : c ∈ Nat.toDigits 10 n) :
    c.isDigit = true := Nat.isDigit_of_mem_toDigits (by decide) (by decide) h

theorem mem_toString_int {n : Int} {c : Char} (h : c ∈ (toString n).toList) :
    c.isDigit = true ∨ c = '-' := by
  rw [toList_toString_int] at h
  rcases List.mem_append.mp h with h | h
  · split at h
    · exact .inr (List.mem_singleton.mp h)
    · cases h
  · exact .inl (isDigit_of_mem_toDigits h)

theorem isNumeral_of_mem_toString {n : Int} {c : Char} (h : c ∈ (toString n).toList) :
    isNumeral c = true := by
  rcases mem_toString_int h with hdigit | rfl
  · exact isNumeral_of_isDigit hdigit
  · rfl

theorem toString_int_inj {m n : Int} (h : (toString m).toList = (toString n).toList) : m = n := by
  have hhead (k : Nat) (rest : List Char) : Nat.toDigits 10 k ≠ '-' :: rest := by
    intro hdigits
    have hsign := isDigit_of_mem_toDigits (hdigits ▸ List.mem_cons_self ..)
    cases hsign
  rw [toList_toString_int, toList_toString_int] at h
  split at h <;> split at h
  · have habs := FloatParts.toDigits_inj (List.cons.inj h).2
    omega
  · exact absurd h.symm (hhead _ _)
  · exact absurd h (hhead _ _)
  · have habs := FloatParts.toDigits_inj h
    omega

/-- A number is printed in the characters of numerals. -/
theorem isNumeral_of_mem_chars {p : FloatParts} (hp : p.Wellformed) {c : Char} (h : c ∈ p.chars) :
    isNumeral c = true := by
  rcases List.mem_append.mp h with h | h
  · exact isNumeral_of_isDigit (hp.whole c h)
  · rcases List.mem_append.mp h with h | h
    · unfold FloatParts.fractionChars at h
      split at h
      · cases h
      · rcases List.mem_cons.mp h with rfl | h
        · rfl
        · exact isNumeral_of_isDigit (hp.fraction c h)
    · cases hexponent : p.exponent? with
      | none =>
        rw [hexponent] at h
        cases h
      | some k =>
        rw [hexponent] at h
        rcases List.mem_cons.mp h with rfl | h
        · rfl
        · rcases List.mem_cons.mp h with rfl | h
          · split <;> rfl
          · exact isNumeral_of_isDigit (isDigit_of_mem_toDigits h)

theorem isNumeral_of_mem_floatText {x : Binary64} (hx : x.isFinite = true) {c : Char}
    (h : c ∈ (floatText x).toList) : isNumeral c = true := by
  rw [toList_floatText hx] at h
  rcases List.mem_append.mp h with h | h
  · split at h
    · rw [List.mem_singleton.mp h]
      rfl
    · cases h
  · exact isNumeral_of_mem_chars (wellformed_partsOf x) h

/-- The text of a floating-point number has a point or an exponent. -/
theorem exists_mark {x : Binary64} (hx : x.isFinite = true) :
    ∃ c ∈ (floatText x).toList, c.isDigit = false ∧ c ≠ '-' := by
  rw [toList_floatText hx]
  rcases (wellformed_partsOf x).marked with hfraction | hexponent
  · refine ⟨'.', List.mem_append_right _ (List.mem_append_right _ (List.mem_append_left _ ?_)),
      rfl, by decide⟩
    rw [FloatParts.fractionChars, if_neg hfraction]
    exact List.mem_cons_self ..
  · refine ⟨'e', List.mem_append_right _ (List.mem_append_right _ (List.mem_append_right _ ?_)),
      rfl, by decide⟩
    obtain ⟨k, hk⟩ := Option.isSome_iff_exists.mp hexponent
    rw [hk]
    exact List.mem_cons_self ..

theorem toString_int_ne_floatText (n : Int) {x : Binary64} (hx : x.isFinite = true) :
    (toString n).toList ≠ (floatText x).toList := by
  intro h
  obtain ⟨c, hc, hdigit, hsign⟩ := exists_mark hx
  rcases mem_toString_int (h ▸ hc) with hc | hc
  · rw [hdigit] at hc
    cases hc
  · exact hsign hc

def kindOf (c : Char) : Char :=
  if c.isDigit || c == '-' then '0' else if c = 'f' then 't' else c

/-- A first character that the text of a value may have, one for all numbers and one for both
truth values. -/
def kind : Json → Char
  | .null => 'n'
  | .bool _ => 't'
  | .integer _ | .float _ => '0'
  | .string _ => '\x22'
  | .array _ => '['
  | .object _ => '\x7b'

/-- The first character of a text gives the kind of its value. -/
theorem exists_head (v : Json) (hv : v.Proper) :
    ∃ c rest, v.compact.toList = c :: rest ∧ kindOf c = v.kind := by
  have hsign (negative : Bool) {c : Char} {rest digits : List Char} (hc : c.isDigit = true)
      (hdigits : digits = c :: rest) :
      ∃ c rest, (if negative then ['-'] else []) ++ digits = c :: rest ∧ kindOf c = '0' := by
    cases negative
    · exact ⟨c, rest, hdigits, by simp [kindOf, hc]⟩
    · exact ⟨'-', digits, rfl, rfl⟩
  cases v with
  | null => exact ⟨'n', ['u', 'l', 'l'], rfl, rfl⟩
  | bool b =>
    cases b
    · exact ⟨'f', ['a', 'l', 's', 'e'], rfl, rfl⟩
    · exact ⟨'t', ['r', 'u', 'e'], rfl, rfl⟩
  | integer n =>
    obtain ⟨c, rest, hdigits⟩ := List.exists_cons_of_ne_nil
      (Nat.toDigits_ne_nil (n := n.natAbs) (b := 10))
    have hc := isDigit_of_mem_toDigits (hdigits ▸ List.mem_cons_self ..)
    have hhead := hsign (decide (n < 0)) hc hdigits
    simpa only [compact, scalarText, toList_toString_int, decide_eq_true_eq, kind] using hhead
  | float x =>
    have hparts := wellformed_partsOf x
    obtain ⟨c, rest, hwhole⟩ := List.exists_cons_of_ne_nil hparts.whole_ne
    have hc : c.isDigit = true := hparts.whole c (by simp [hwhole])
    obtain ⟨tail, htail⟩ : ∃ tail, (partsOf x).chars = c :: tail := by
      rw [FloatParts.chars, hwhole]
      exact ⟨_, rfl⟩
    have hhead := hsign x.negative hc htail
    simpa only [compact, scalarText, toList_floatText hv, kind] using hhead
  | string s => exact ⟨'\x22', _, toList_quote s, rfl⟩
  | array items =>
    refine ⟨'[', (",".intercalate (compactItems items) ++ "]").toList, ?_, rfl⟩
    rw [compact, String.append_assoc, String.toList_append]
    rfl
  | object entries =>
    refine ⟨'\x7b', (",".intercalate (compactEntries entries) ++ "\x7d").toList, ?_, rfl⟩
    rw [compact, String.append_assoc, String.toList_append]
    rfl

/-- Texts of different kinds of values begin differently. -/
theorem kind_eq_of_append {v w : Json} (hv : v.Proper) (hw : w.Proper) {rest rest' : List Char}
    (h : v.compact.toList ++ rest = w.compact.toList ++ rest') : v.kind = w.kind := by
  obtain ⟨c, tail, hc, hkind⟩ := exists_head v hv
  obtain ⟨c', tail', hc', hkind'⟩ := exists_head w hw
  rw [hc, hc', List.cons_append, List.cons_append] at h
  rw [← hkind, ← hkind', (List.cons.inj h).1]

/-- What may follow a value inside another: the end of a text, a comma or a closing bracket. -/
def Ends (rest : List Char) : Prop := ∀ c ∈ rest.head?, c = ',' ∨ c = ']' ∨ c = '\x7d'

theorem ends_cons {c : Char} (h : c = ',' ∨ c = ']' ∨ c = '\x7d') (rest : List Char) :
    Ends (c :: rest) := by
  intro d hd
  obtain rfl : c = d := Option.some.inj hd
  exact h

theorem isNumeral_of_ends {rest : List Char} (h : Ends rest) :
    ∀ c ∈ rest.head?, isNumeral c = false := by
  intro c hc
  rcases h c hc with rfl | rfl | rfl <;> rfl

/-- The parts of a list come one after another, with commas between them. -/
theorem intercalate_append_cons (part : List Char) (parts : List (List Char)) (rest : List Char) :
    [','].intercalate (part :: parts) ++ rest =
      part ++ (if parts = [] then rest else ',' :: ([','].intercalate parts ++ rest)) := by
  cases parts with
  | nil => simp
  | cons next parts => simp [List.intercalate_cons_cons]

/-- A list of parts up to a closing bracket can be read back where each part can, and none begins
with the bracket. -/
theorem intercalate_append_inj {α : Type} {text : α → List Char} {close : Char}
    (hclose : close = ']' ∨ close = '\x7d') {as bs : List α} {rest rest' : List Char}
    (hread : ∀ a ∈ as, ∀ b ∈ bs, ∀ rest rest', Ends rest → Ends rest' →
      text a ++ rest = text b ++ rest' → a = b ∧ rest = rest')
    (has : ∀ a ∈ as, ∃ c tail, text a = c :: tail ∧ c ≠ close)
    (hbs : ∀ b ∈ bs, ∃ c tail, text b = c :: tail ∧ c ≠ close)
    (h : [','].intercalate (as.map text) ++ close :: rest =
      [','].intercalate (bs.map text) ++ close :: rest') : as = bs ∧ rest = rest' := by
  have hcomma : ',' ≠ close := by rcases hclose with rfl | rfl <;> decide
  have hends (items : List α) (rest : List Char) : Ends (if items.map text = [] then close :: rest
      else ',' :: ([','].intercalate (items.map text) ++ close :: rest)) := by
    split
    · exact ends_cons (.inr hclose) _
    · exact ends_cons (.inl rfl) _
  induction as generalizing bs with
  | nil =>
    cases bs with
    | nil => exact ⟨rfl, (List.cons.inj h).2⟩
    | cons b bs =>
      obtain ⟨c, tail, hc, hne⟩ := hbs b (List.mem_cons_self ..)
      rw [List.map_cons, intercalate_append_cons, hc] at h
      exact absurd (List.cons.inj h).1.symm hne
  | cons a as ih =>
    cases bs with
    | nil =>
      obtain ⟨c, tail, hc, hne⟩ := has a (List.mem_cons_self ..)
      rw [List.map_cons, intercalate_append_cons, hc] at h
      exact absurd (List.cons.inj h).1 hne
    | cons b bs =>
      rw [List.map_cons, List.map_cons, intercalate_append_cons, intercalate_append_cons] at h
      obtain ⟨rfl, htail⟩ := hread a (List.mem_cons_self ..) b (List.mem_cons_self ..) _ _
        (hends as rest) (hends bs rest') h
      have hlater (h : [','].intercalate (as.map text) ++ close :: rest =
          [','].intercalate (bs.map text) ++ close :: rest') : as = bs ∧ rest = rest' :=
        ih (fun a ha b hb => hread a (List.mem_cons_of_mem _ ha) b (List.mem_cons_of_mem _ hb))
          (fun a ha => has a (List.mem_cons_of_mem _ ha))
          (fun b hb => hbs b (List.mem_cons_of_mem _ hb)) h
      have hsame : as = bs ∧ rest = rest' := by
        cases as with
        | nil =>
          cases bs with
          | nil => exact ⟨rfl, (List.cons.inj htail).2⟩
          | cons b bs => exact absurd (List.cons.inj htail).1.symm hcomma
        | cons a as =>
          cases bs with
          | nil => exact absurd (List.cons.inj htail).1 hcomma
          | cons b bs => exact hlater (List.cons.inj htail).2
      exact ⟨congrArg (a :: ·) hsame.1, hsame.2⟩

theorem toList_compact_array (items : List Json) : (array items).compact.toList =
    '[' :: ([','].intercalate (items.map fun v => v.compact.toList) ++ [']']) := by
  have hitems : (compactItems items).map String.toList = items.map fun v => v.compact.toList := by
    induction items with
    | nil => rfl
    | cons v rest ih => simp only [compactItems, List.map_cons, ih]
  rw [compact, String.toList_append, String.toList_append, String.toList_intercalate, hitems]
  rfl

def entryText (e : String × Json) : List Char := (quote e.1).toList ++ ':' :: e.2.compact.toList

theorem toList_compact_object (entries : List (String × Json)) : (object entries).compact.toList =
    '\x7b' :: ([','].intercalate (entries.map entryText) ++ ['\x7d']) := by
  have hentries : (compactEntries entries).map String.toList = entries.map entryText := by
    induction entries with
    | nil => rfl
    | cons e rest ih =>
      simp only [compactEntries, List.map_cons, ih, String.toList_append, entryText,
        List.append_assoc]
      rfl
  rw [compact, String.toList_append, String.toList_append, String.toList_intercalate, hentries]
  rfl

def Prefixed (v : Json) : Prop :=
  ∀ w : Json, w.Proper → ∀ rest rest', Ends rest → Ends rest' →
    v.compact.toList ++ rest = w.compact.toList ++ rest' → v = w ∧ rest = rest'

theorem prefixed_null : null.Prefixed := by
  intro w hw rest rest' _ _ h
  have hkind := kind_eq_of_append (v := .null) trivial hw h
  cases w with
  | null => exact ⟨rfl, List.append_cancel_left h⟩
  | _ => cases hkind

theorem prefixed_bool (b : Bool) : (bool b).Prefixed := by
  intro w hw rest rest' _ _ h
  have hkind := kind_eq_of_append (v := .bool b) trivial hw h
  cases w with
  | bool b' =>
    cases b <;> cases b'
    · exact ⟨rfl, List.append_cancel_left h⟩
    · exact absurd (List.cons.inj h).1 (by decide)
    · exact absurd (List.cons.inj h).1 (by decide)
    · exact ⟨rfl, List.append_cancel_left h⟩
  | _ => cases hkind

/-- The text of a number gives the number and where it ends. -/
theorem prefixed_number {v : Json} (hv : v.Proper) (hkind : v.kind = '0') : v.Prefixed := by
  intro w hw rest rest' hrest hrest' h
  have hkind' := kind_eq_of_append hv hw h
  -- the two texts end at the same place; an integer and a float have no text in common
  have hnumerals (u : Json) (hu : u.Proper) (hzero : u.kind = '0') :
      ∀ c ∈ u.compact.toList, isNumeral c = true := by
    cases u with
    | integer n => exact fun c hc => isNumeral_of_mem_toString hc
    | float x => exact fun c hc => isNumeral_of_mem_floatText hu hc
    | _ => cases hzero
  obtain ⟨htext, hends⟩ := append_inj_of_all (hnumerals v hv hkind)
    (hnumerals w hw (hkind'.symm.trans hkind)) (isNumeral_of_ends hrest)
    (isNumeral_of_ends hrest') h
  refine ⟨?_, hends⟩
  cases v with
  | integer n =>
    cases w with
    | integer m => exact congrArg integer (toString_int_inj htext)
    | float y => exact absurd htext (toString_int_ne_floatText n hw)
      | _ => cases hkind'
  | float x =>
    cases w with
    | integer m => exact absurd htext.symm (toString_int_ne_floatText m hv)
    | float y => exact congrArg float (floatText_inj hv hw (String.toList_inj.mp htext))
      | _ => cases hkind'
  | _ => cases hkind

theorem prefixed_string (s : String) : (string s).Prefixed := by
  intro w hw rest rest' _ _ h
  have hkind := kind_eq_of_append (v := .string s) trivial hw h
  cases w with
  | string t =>
    obtain ⟨rfl, hrest⟩ := quote_append_inj h
    exact ⟨rfl, hrest⟩
  | _ => cases hkind

theorem exists_head_ne {v : Json} (hv : v.Proper) :
    ∃ c tail, v.compact.toList = c :: tail ∧ c ≠ ']' := by
  obtain ⟨c, tail, hc, hkind⟩ := exists_head v hv
  refine ⟨c, tail, hc, ?_⟩
  rintro rfl
  cases v <;> cases hkind

/-- The text of an array gives its items, if the texts of the items give theirs. -/
theorem prefixed_array {items : List Json} (hitems : ProperItems items)
    (h : ∀ v ∈ items, v.Prefixed) : (array items).Prefixed := by
  intro w hw rest rest' hrest hrest' htext
  have hkind := kind_eq_of_append (v := .array items) hitems hw htext
  cases w with
  | array others =>
    rw [toList_compact_array, toList_compact_array] at htext
    simp only [List.cons_append, List.append_assoc, List.cons.injEq, true_and, List.nil_append]
      at htext
    obtain ⟨rfl, hends⟩ := intercalate_append_inj (.inl rfl)
      (fun v hv w hw' => h v hv w (properItems_iff.mp hw w hw'))
      (fun v hv => exists_head_ne (properItems_iff.mp hitems v hv))
      (fun w hw' => exists_head_ne (properItems_iff.mp hw w hw')) htext
    exact ⟨rfl, hends⟩
  | _ => cases hkind

/-- The text of an object gives its entries, if the texts of the values give theirs. -/
theorem prefixed_object {entries : List (String × Json)} (hentries : (object entries).Proper)
    (h : ∀ e ∈ entries, e.2.Prefixed) : (object entries).Prefixed := by
  intro w hw rest rest' hrest hrest' htext
  have hkind := kind_eq_of_append hentries hw htext
  cases w with
  | object others =>
    rw [toList_compact_object, toList_compact_object] at htext
    simp only [List.cons_append, List.append_assoc, List.cons.injEq, true_and, List.nil_append]
      at htext
    have hquote (e : String × Json) : ∃ c tail, entryText e = c :: tail ∧ c ≠ '\x7d' := by
      rw [entryText, toList_quote]
      exact ⟨'\x22', _, rfl, by decide⟩
    have hread : ∀ e ∈ entries, ∀ f ∈ others, ∀ rest rest', Ends rest → Ends rest' →
        entryText e ++ rest = entryText f ++ rest' → e = f ∧ rest = rest' := by
      intro e he f hf rest rest' hrest hrest' heq
      simp only [entryText, List.append_assoc, List.cons_append] at heq
      obtain ⟨hkey, htail⟩ := quote_append_inj heq
      obtain ⟨hvalue, hends⟩ := h e he f.2 (properEntries_iff.mp hw.2 f hf) rest rest' hrest hrest'
        (List.cons.inj htail).2
      exact ⟨Prod.ext hkey hvalue, hends⟩
    obtain ⟨rfl, hends⟩ := intercalate_append_inj (.inr rfl) hread (fun e _ => hquote e)
      (fun f _ => hquote f) htext
    exact ⟨rfl, hends⟩
  | _ => cases hkind

mutual

theorem prefixed (v : Json) (hv : v.Proper) : v.Prefixed := by
  cases v with
  | null => exact prefixed_null
  | bool b => exact prefixed_bool b
  | integer n => exact prefixed_number hv rfl
  | float x => exact prefixed_number hv rfl
  | string s => exact prefixed_string s
  | array items => exact prefixed_array hv (prefixedItems items hv)
  | object entries => exact prefixed_object hv (prefixedEntries entries hv.2)

theorem prefixedItems (items : List Json) (h : ProperItems items) : ∀ v ∈ items, v.Prefixed := by
  cases items with
  | nil => nofun
  | cons v rest => exact List.forall_mem_cons.mpr ⟨prefixed v h.1, prefixedItems rest h.2⟩

theorem prefixedEntries (entries : List (String × Json)) (h : ProperEntries entries) :
    ∀ e ∈ entries, e.2.Prefixed := by
  cases entries with
  | nil => nofun
  | cons e rest =>
    obtain ⟨key, v⟩ := e
    exact List.forall_mem_cons.mpr ⟨prefixed v h.1, prefixedEntries rest h.2⟩

end

/-- Values that text can express are equal where their compact texts are. -/
theorem compact_inj {v w : Json} (hv : v.Proper) (hw : w.Proper) (h : v.compact = w.compact) :
    v = w := by
  have hnil : Ends [] := nofun
  exact (prefixed v hv w hw [] [] hnil hnil (by rw [h])).1

end RecordStore.Json
