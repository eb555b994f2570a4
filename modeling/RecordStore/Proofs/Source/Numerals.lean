import RecordStore.Proofs.Source.Quoting

/-!
Reading a number stops at a closing character: it takes the front of a text, and the same where
something closes the text.
-/
namespace RecordStore.Lexer

/-- Whether a reader of characters takes the front of a text, and does the same where something
closes the text. -/
structure StopsAtClosers (f : List Char → Option (List Char × List Char)) : Prop where
  front : ∀ {cs s r}, f cs = some (s, r) → s ++ r = cs
  closed : ∀ {t}, Closes t → ∀ cs, f (cs ++ t) = (f cs).map (Prod.map id (· ++ t))

theorem stopsAtClosers_plainIdent : StopsAtClosers plainIdent? where
  front {cs s r} h := by
    unfold plainIdent? at h
    split at h
    · cases h
    · next c rest =>
      split at h
      · cases h
        simp
      · cases h
  closed {t} ht cs := by
    cases cs with
    | nil => obtain ⟨rest, rfl | rfl | rfl | rfl | rfl | rfl | rfl⟩ := closes_cases ht <;> rfl
    | cons c cs =>
      have hstop := not_of_closes (p := Identifier.isContinue) ht (by decide)
      simp only [List.cons_append, plainIdent?, takeWhile_append_eq hstop,
        dropWhile_append_eq hstop]
      split <;> rfl

/-- Where a reader takes nothing, it leaves everything. -/
theorem suffix_append {t : List Char} (ht : Closes t) (cs : List Char) :
    suffix (cs ++ t) = ((suffix cs).1, (suffix cs).2 ++ t) := by
  rw [suffix, suffix, stopsAtClosers_plainIdent.closed ht]
  cases plainIdent? cs <;> rfl

theorem suffix_front (cs : List Char) : (suffix cs).1 ++ (suffix cs).2 = cs := by
  unfold suffix
  cases h : plainIdent? cs with
  | none => rfl
  | some result => exact stopsAtClosers_plainIdent.front h

theorem digits_append {t : List Char} (ht : Closes t) (cs : List Char) :
    digits (cs ++ t) = ((digits cs).1, (digits cs).2 ++ t) := by
  have hstop := not_of_closes (p := fun c => c.isDigit || c == '_') ht (by decide)
  simp only [digits, takeWhile_append_eq hstop, dropWhile_append_eq hstop]

theorem digits_front (cs : List Char) : (digits cs).1 ++ (digits cs).2 = cs :=
  List.takeWhile_append_dropWhile

/-- What is asked about the first character after a text is the same where the text is closed. -/
theorem test_head_append {t : List Char} (ht : Closes t) {p : Char → Bool}
    (hp : ∀ c ∈ closers, p c = false) (cs : List Char) :
    ((cs ++ t).head?.map p).getD false = (cs.head?.map p).getD false := by
  cases cs with
  | nil =>
    obtain ⟨c, hc, rest, rfl⟩ := ht
    exact hp c hc
  | cons c cs => rfl

/-- What is put in front of what was taken has no part in what is left. -/
theorem map_left {taken : Option (List Char × List Char)} {f : List Char → List Char}
    {t : List Char} :
    (taken.map (Prod.map id (· ++ t))).map (fun (s, r) => (f s, r)) =
      (taken.map fun (s, r) => (f s, r)).map (Prod.map id (· ++ t)) := by
  cases taken <;> rfl

/-- What closes a token is no part of an exponent. -/
theorem stopsAtClosers_exponentBody (signed hasDigit : Bool) :
    StopsAtClosers (exponentBody? signed hasDigit) where
  front {cs s r} h := by
    induction cs generalizing signed hasDigit s r with
    | nil =>
      unfold exponentBody? at h
      split at h <;> cases h
      rfl
    | cons c cs ih =>
      have hgo : ∀ signed hasDigit, (exponentBody? signed hasDigit cs).map
          (fun (s, r) => (c :: s, r)) = some (s, r) → s ++ r = c :: cs := by
        intro signed hasDigit hbody
        obtain ⟨⟨s, r⟩, hbody, heq⟩ := Option.map_eq_some_iff.mp hbody
        cases heq
        rw [← ih _ _ hbody]
        rfl
      simp only [exponentBody?] at h
      split at h
      · exact hgo _ _ h
      · split at h
        · exact hgo _ _ h
        · split at h
          · cases h
            rfl
          · split at h
            · exact hgo _ _ h
            · cases h
  closed {t} ht cs := by
    induction cs generalizing signed hasDigit with
    | nil =>
      obtain ⟨rest, rfl | rfl | rfl | rfl | rfl | rfl | rfl⟩ := closes_cases ht <;>
        cases hasDigit <;> rfl
    | cons c cs ih =>
      simp only [List.cons_append, exponentBody?, ih]
      split
      · exact map_left
      · split
        · exact map_left
        · split
          · rfl
          · split
            · exact map_left
            · rfl

theorem stopsAtClosers_exponent : StopsAtClosers exponent? where
  front {cs s r} h := by
    unfold exponent? at h
    split at h
    · next e rest =>
      split at h
      · obtain ⟨⟨s, r⟩, hbody, heq⟩ := Option.map_eq_some_iff.mp h
        cases heq
        rw [← (stopsAtClosers_exponentBody _ _).front hbody]
        rfl
      · cases h
    · cases h
  closed {t} ht cs := by
    cases cs with
    | nil => obtain ⟨rest, rfl | rfl | rfl | rfl | rfl | rfl | rfl⟩ := closes_cases ht <;> rfl
    | cons e cs =>
      simp only [List.cons_append, exponent?, (stopsAtClosers_exponentBody _ _).closed ht]
      split
      · exact map_left
      · rfl

/-- What closes a token is no part of a number with a fraction. -/
theorem stopsAtClosers_float : StopsAtClosers float? where
  front {cs s r} h := by
    have hdigits := digits_front cs
    unfold float? at h
    simp only at h
    split at h
    · next after hafter =>
      rw [hafter] at hdigits
      have hplaces := digits_front after
      split at h
      · cases h
      · split at h
        · next e rest he =>
          cases h
          calc (digits cs).1 ++ '.' :: (digits after).1 ++ e ++ r
              = (digits cs).1 ++ '.' :: ((digits after).1 ++ (e ++ r)) := by simp
            _ = cs := by rw [stopsAtClosers_exponent.front he, hplaces, hdigits]
        · cases h
          calc (digits cs).1 ++ '.' :: (digits after).1 ++ (digits after).2
              = (digits cs).1 ++ '.' :: ((digits after).1 ++ (digits after).2) := by simp
            _ = cs := by rw [hplaces, hdigits]
    · obtain ⟨⟨e, r⟩, he, heq⟩ := Option.map_eq_some_iff.mp h
      cases heq
      rw [List.append_assoc, stopsAtClosers_exponent.front he, hdigits]
  closed {t} ht cs := by
    have hexponent := stopsAtClosers_exponent.closed ht
    unfold float?
    simp only [digits_append ht]
    generalize (digits cs).2 = left
    cases left with
    | nil =>
      obtain ⟨rest, rfl | rfl | rfl | rfl | rfl | rfl | rfl⟩ := closes_cases ht <;> rfl
    | cons c after =>
      have hleft := hexponent (c :: after)
      simp only [List.cons_append] at hleft ⊢
      split
      · next after' heq =>
        obtain ⟨rfl, rfl⟩ := List.cons.inj heq
        have hhead := test_head_append (p := fun c => c == '.' || identStart c) ht (by decide) after
        simp only [hhead, digits_append ht, hexponent]
        split
        · rfl
        · cases exponent? (digits after).2 <;> rfl
      · next hpoint =>
        split
        · next after' heq =>
          obtain ⟨rfl, rfl⟩ := List.cons.inj heq
          exact absurd rfl (hpoint (after ++ t))
        · rw [hleft]
          exact map_left

def inBase (letters : List Char) (base : Nat) (cs : List Char) : Option (List Char × List Char) :=
  let isDigit (c : Char) := c.isDigit || c == '_' ||
    (base == 16 && (('a' ≤ c && c ≤ 'f') || ('A' ≤ c && c ≤ 'F')))
  let ds := cs.takeWhile isDigit
  let tooLarge (c : Char) := c.isDigit && base ≤ c.toNat - '0'.toNat
  if ds.any (· != '_') && !ds.any tooLarge then
    some (letters ++ ds, cs.drop ds.length)
  else none

theorem integer_eq (cs : List Char) : integer? cs = match cs with
    | '0' :: 'x' :: rest => inBase ['0', 'x'] 16 rest
    | '0' :: 'o' :: rest => inBase ['0', 'o'] 8 rest
    | '0' :: 'b' :: rest => inBase ['0', 'b'] 2 rest
    | cs => inBase [] 10 cs :=
  rfl

section

variable {letters cs s r : List Char} {base : Nat}

theorem inBase_front (h : inBase letters base cs = some (s, r)) : s ++ r = letters ++ cs := by
  unfold inBase at h
  simp only at h
  split at h
  · cases h
    rw [List.append_assoc, takeWhile_append_drop_length]
  · cases h

theorem inBase_append {t : List Char} (ht : Closes t) :
    inBase letters base (cs ++ t) = (inBase letters base cs).map (Prod.map id (· ++ t)) := by
  have hstop := not_of_closes (p := fun c => c.isDigit || c == '_' ||
    (base == 16 && (('a' ≤ c && c ≤ 'f') || ('A' ≤ c && c ≤ 'F')))) ht
    (by generalize (base == 16) = hex; cases hex <;> decide)
  unfold inBase
  simp only [takeWhile_append_eq hstop]
  split
  · rw [List.drop_append_of_le_length (List.takeWhile_prefix _).length_le]
    rfl
  · rfl

end

/-- What closes a token is no part of a whole number. -/
theorem stopsAtClosers_integer : StopsAtClosers integer? where
  front {cs s r} h := by
    rw [integer_eq] at h
    split at h <;> exact inBase_front h
  closed {t} ht cs := by
    have hcs := integer_eq cs
    split at hcs
    · exact inBase_append ht
    · exact inBase_append ht
    · exact inBase_append ht
    · next hx ho hb =>
      rw [hcs, ← inBase_append ht, integer_eq]
      split
      · next rest heq =>
        obtain ⟨rest, rfl⟩ := pair_of_closes ht (by decide) (by decide) heq
        exact absurd rfl (hx rest)
      · next rest heq =>
        obtain ⟨rest, rfl⟩ := pair_of_closes ht (by decide) (by decide) heq
        exact absurd rfl (ho rest)
      · next rest heq =>
        obtain ⟨rest, rfl⟩ := pair_of_closes ht (by decide) (by decide) heq
        exact absurd rfl (hb rest)
      · rfl

theorem withSuffix_front (body rest : List Char) :
    (withSuffix body rest).1.toList ++ (withSuffix body rest).2 = body ++ rest := by
  simp only [withSuffix, String.toList_ofList, List.append_assoc, suffix_front]

theorem withSuffix_append {t : List Char} (ht : Closes t) (body rest : List Char) :
    withSuffix body (rest ++ t) = Prod.map id (· ++ t) (withSuffix body rest) := by
  simp only [withSuffix, suffix_append ht]
  rfl

def complete (number : Option (List Char × List Char)) : Option (String × List Char) := do
  let (body, rest) ← number
  let (text, rest) := withSuffix body rest
  if (rest.head?.map Identifier.isContinue).getD false then none else some (text, rest)

theorem number_eq (cs : List Char) : number? cs =
    if (cs.head?.map Char.isDigit).getD false then
      (complete (float? cs)).or (complete (integer? cs))
    else none :=
  rfl

section

variable {number : Option (List Char × List Char)} {cs r t : List Char} {s : String}

theorem complete_front (hnumber : ∀ {s r}, number = some (s, r) → s ++ r = cs)
    (h : complete number = some (s, r)) : s.toList ++ r = cs := by
  cases number with
  | none => cases h
  | some taken =>
    have hfront := withSuffix_front taken.1 taken.2
    simp only [complete, Option.bind_eq_bind, Option.bind_some] at h
    split at h
    · cases h
    · cases h
      rw [hfront, hnumber rfl]

theorem complete_append (ht : Closes t) :
    complete (number.map (Prod.map id (· ++ t))) =
      (complete number).map (Prod.map id (· ++ t)) := by
  cases number with
  | none => rfl
  | some taken =>
    simp only [complete, Option.map_some, Option.bind_eq_bind, Option.bind_some, Prod.map,
      withSuffix_append ht, id, test_head_append (p := Identifier.isContinue) ht (by decide)]
    split <;> rfl

theorem number_front (h : number? cs = some (s, r)) : s.toList ++ r = cs := by
  rw [number_eq] at h
  split at h
  · rcases Option.or_eq_some_iff.mp h with h | ⟨-, h⟩
    · exact complete_front stopsAtClosers_float.front h
    · exact complete_front stopsAtClosers_integer.front h
  · cases h

theorem number_append (ht : Closes t) (cs : List Char) :
    number? (cs ++ t) = (number? cs).map (Prod.map id (· ++ t)) := by
  rw [number_eq, number_eq, test_head_append (p := Char.isDigit) ht (by decide),
    stopsAtClosers_float.closed ht, stopsAtClosers_integer.closed ht, complete_append ht,
    complete_append ht]
  split
  · cases complete (float? cs) <;> rfl
  · rfl

end

end RecordStore.Lexer
