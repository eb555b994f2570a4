import RecordStore.Proofs.Field.ObjectIdText
import Mathlib.Data.String.Basic

/-!
The texts that are read as an identifier. Reading does not look at letter case, and in small letters
an identifier has four spellings: its digits alone, the stored form with hyphens between groups of
them, and the stored form in braces or after a prefix. No other text is read as it.
-/
namespace RecordStore.ObjectId

def charsFrom (first count : Nat) : List Char :=
  (List.range count).map fun k => Char.ofNat (first + k)

theorem mem_charsFrom {c : Char} {first count : Nat} (h : first ≤ c.toNat)
    (h' : c.toNat < first + count) : c ∈ charsFrom first count := by
  refine List.mem_map.mpr ⟨c.toNat - first, List.mem_range.mpr (by omega), ?_⟩
  rw [Nat.add_sub_cancel' h, Char.ofNat_toNat]

theorem mem_capitals_or (c : Char) : c ∈ charsFrom 65 26 ∨ c.toLower = c := by
  unfold Char.toLower
  split
  · next h => exact .inl (mem_charsFrom h.1 (Nat.lt_succ_of_le h.2))
  · exact .inr rfl

/-- What holds of the small letters holds of capitals too if it does not depend on case. -/
theorem toLower_congr {α : Type} [DecidableEq α] {f : Char → α}
    (h : (charsFrom 65 26).all fun c => f c.toLower = f c) (c : Char) : f c.toLower = f c := by
  rcases mem_capitals_or c with hc | hc
  · exact of_decide_eq_true (List.all_eq_true.mp h c hc)
  · rw [hc]

theorem hexDigit_toLower (c : Char) : Json.hexDigit? c.toLower = Json.hexDigit? c :=
  toLower_congr (by decide) c

theorem utf8Size_toLower (c : Char) : c.toLower.utf8Size = c.utf8Size :=
  toLower_congr (by decide) c

theorem toLower_toLower (c : Char) : c.toLower.toLower = c.toLower :=
  toLower_congr (by decide) c

/-- The marks around and between the groups of an identifier have no case. -/
theorem toLower_beq {mark : Char} (hmark : mark ∈ ['-', '\x7b', '\x7d']) (c : Char) :
    (c.toLower == mark) = (c == mark) := by
  have hmarks : ['-', '\x7b', '\x7d'].all fun mark =>
      (charsFrom 65 26).all fun c => (c.toLower == mark) = (c == mark) := by decide
  exact toLower_congr (f := (· == mark)) (List.all_eq_true.mp hmarks mark hmark) c

/-- A character that is a digit of sixteen is one of the digits, or a capital of it. -/
theorem digit_of_hexDigit {c : Char} {n : Nat} (h : Json.hexDigit? c = some n) :
    n < 16 ∧ c.toLower = digit n := by
  have hdigits : (charsFrom 48 10 ++ charsFrom 97 6 ++ charsFrom 65 6).all fun c =>
      (Json.hexDigit? c).all fun n => n < 16 ∧ c.toLower = digit n := by decide
  have hrange (first last : Char) (h : (decide (first ≤ c) && decide (c ≤ last)) = true) :
      c ∈ charsFrom first.toNat (last.toNat + 1 - first.toNat) := by
    rw [Bool.and_eq_true, decide_eq_true_eq, decide_eq_true_eq] at h
    have hle : first.toNat ≤ c.toNat := h.1
    have hle' : c.toNat ≤ last.toNat := h.2
    exact mem_charsFrom hle (by omega)
  suffices hmem : c ∈ charsFrom 48 10 ++ charsFrom 97 6 ++ charsFrom 65 6 by
    have hc := List.all_eq_true.mp hdigits c hmem
    rw [h] at hc
    exact of_decide_eq_true hc
  rw [List.mem_append, List.mem_append]
  unfold Json.hexDigit? at h
  split at h
  · next hc => exact .inl (.inl (hrange '0' '9' hc))
  · split at h
    · next hc => exact .inl (.inr (hrange 'a' 'f' hc))
    · split at h
      · next hc => exact .inr (hrange 'A' 'F' hc)
      · cases h

def lowered (cs : List Char) : List Char := cs.map Char.toLower

theorem byteSize_lowered (cs : List Char) : byteSize (lowered cs) = byteSize cs := by
  simp only [byteSize, lowered, List.map_map, Function.comp_def, utf8Size_toLower]

theorem bytesOf_lowered (cs : List Char) : bytesOf? (lowered cs) = bytesOf? cs := by
  fun_induction bytesOf? cs with
  | case1 => rfl
  | case2 c => rfl
  | case3 a b rest ih =>
    simp only [lowered, List.map_cons, bytesOf?, hexDigit_toLower] at ih ⊢
    rw [ih]

/-- Text that is read as bytes is their digits, but for capitals. -/
theorem lowered_of_bytesOf {cs : List Char} {bytes : List (Fin 256)}
    (h : bytesOf? cs = some bytes) : lowered cs = digits bytes := by
  fun_induction bytesOf? cs generalizing bytes with
  | case1 =>
    cases h
    rfl
  | case2 c => cases h
  | case3 a b rest ih =>
    obtain ⟨high, hhigh, h⟩ := Option.bind_eq_some_iff.mp h
    obtain ⟨low, hlow, h⟩ := Option.bind_eq_some_iff.mp h
    obtain ⟨bytes', hbytes, h⟩ := Option.bind_eq_some_iff.mp h
    cases h
    obtain ⟨hlt, ha⟩ := digit_of_hexDigit hhigh
    obtain ⟨hlt', hb⟩ := digit_of_hexDigit hlow
    have hmod : (high * 16 + low) % 256 = high * 16 + low := Nat.mod_eq_of_lt (by omega)
    have hdiv : (high * 16 + low) / 16 = high := by omega
    have hrem : (high * 16 + low) % 16 = low := by omega
    have hcons : digits (Fin.ofNat 256 (high * 16 + low) :: bytes') =
        digit ((high * 16 + low) % 256 / 16) :: digit ((high * 16 + low) % 256 % 16) ::
          digits bytes' := rfl
    rw [hcons, hmod, hdiv, hrem, ← ih hbytes, ← ha, ← hb]
    rfl

theorem ofDigits_lowered (cs : List Char) : ofDigits? (lowered cs) = ofDigits? cs := by
  rw [ofDigits?, ofDigits?, bytesOf_lowered]

theorem lowered_of_ofDigits {cs : List Char} {id : ObjectId} (h : ofDigits? cs = some id) :
    lowered cs = digits id.bytes := by
  unfold ofDigits? at h
  split at h
  · cases h
  · next bytes hbytes =>
    split at h
    · cases h
      exact lowered_of_bytesOf hbytes
    · cases h

theorem getElem_lowered {mark : Char} (hmark : mark ∈ ['-', '\x7b', '\x7d']) (cs : List Char)
    (n : Nat) : ((lowered cs)[n]? == some mark) = (cs[n]? == some mark) := by
  rw [lowered, List.getElem?_map]
  cases cs[n]? with
  | none => rfl
  | some c => exact toLower_beq hmark c

theorem ofHyphenated_lowered (cs : List Char) : ofHyphenated? (lowered cs) = ofHyphenated? cs := by
  have hgroups (cs : List Char) (start size : Nat) :
      ((lowered cs).drop start).take size = lowered ((cs.drop start).take size) := by
    rw [lowered, lowered, List.map_take, List.map_drop]
  have htake (cs : List Char) (size : Nat) : (lowered cs).take size = lowered (cs.take size) := by
    rw [lowered, lowered, List.map_take]
  have hdrop (cs : List Char) (start : Nat) : (lowered cs).drop start = lowered (cs.drop start) := by
    rw [lowered, lowered, List.map_drop]
  have happend (as bs : List Char) : lowered as ++ lowered bs = lowered (as ++ bs) :=
    List.map_append.symm
  have hlength : (lowered cs).length = cs.length := List.length_map ..
  simp only [ofHyphenated?, hlength, getElem_lowered (List.mem_cons_self ..), hdrop, htake, happend,
    ofDigits_lowered]

theorem drop_of_getElem {cs : List Char} {n : Nat} {c : Char} (h : cs[n]? = some c) :
    cs.drop n = c :: cs.drop (n + 1) := by
  obtain ⟨hlt, rfl⟩ := List.getElem?_eq_some_iff.mp h
  exact List.drop_eq_getElem_cons hlt

/-- A text with hyphens where they should be falls into five groups. -/
theorem eq_groups {cs : List Char} (h8 : cs[8]? = some '-') (h13 : cs[13]? = some '-')
    (h18 : cs[18]? = some '-') (h23 : cs[23]? = some '-') :
    cs = cs.take 8 ++ '-' :: ((cs.drop 9).take 4 ++ '-' :: ((cs.drop 14).take 4 ++
      '-' :: ((cs.drop 19).take 4 ++ '-' :: cs.drop 24))) := by
  have hsplit (n : Nat) (h : cs[n + 4]? = some '-') :
      (cs.drop n).take 4 ++ '-' :: cs.drop (n + 5) = cs.drop n := by
    rw [← drop_of_getElem h, ← List.drop_drop, List.take_append_drop]
  rw [hsplit 19 h23, hsplit 14 h18, hsplit 9 h13, ← drop_of_getElem h8, List.take_append_drop]

/-- A text that reads as the stored form of an identifier is that form, but for case. -/
theorem lowered_of_ofHyphenated {cs : List Char} {id : ObjectId} (h : ofHyphenated? cs = some id) :
    lowered cs = id.stored.toList := by
  unfold ofHyphenated? at h
  split at h
  · next hform =>
    simp only [hyphenPositions, List.all_cons, List.all_nil, Bool.and_true, Bool.and_eq_true,
      decide_eq_true_eq, beq_iff_eq] at hform
    obtain ⟨hlength, h8, h13, h18, h23⟩ := hform
    have hdigits := lowered_of_ofDigits h
    have happend (as bs : List Char) : lowered (as ++ bs) = lowered as ++ lowered bs :=
      List.map_append
    have hcons (bs : List Char) : lowered ('-' :: bs) = '-' :: lowered bs := rfl
    have hsize {as : List Char} {start size : Nat} (has : as.length = 2 * size)
        (hle : start + size ≤ 16) : (lowered as).length = (id.groupDigits start size).length := by
      rw [length_groupDigits id hle, lowered, List.length_map, has]
    rw [← groupDigits_all, ← groupDigits_append id 0 10 6, ← groupDigits_append id 0 8 2,
      ← groupDigits_append id 0 6 2, ← groupDigits_append id 0 4 2] at hdigits
    simp only [happend, List.append_assoc] at hdigits
    -- the groups have the sizes of those of the stored form, so they are these
    obtain ⟨ha, hdigits⟩ := List.append_inj hdigits (hsize (by simp [hlength]) (by decide))
    obtain ⟨hb, hdigits⟩ := List.append_inj hdigits (hsize (by simp [hlength]) (by decide))
    obtain ⟨hc, hdigits⟩ := List.append_inj hdigits (hsize (by simp [hlength]) (by decide))
    obtain ⟨hd, he⟩ := List.append_inj hdigits (hsize (by simp [hlength]) (by decide))
    rw [eq_groups h8 h13 h18 h23, toList_stored]
    simp only [happend, hcons, ha, hb, hc, hd, he, List.append_assoc, List.cons_append, Nat.zero_add]
  · cases h

def Form.lowered : Form → Form
  | .plain => .plain
  | .hyphenated inner => .hyphenated (ObjectId.lowered inner)
  | .none => .none

def Form.Gives (id : ObjectId) (cs : List Char) : Form → Prop
  | .plain => ofDigits? cs = some id
  | .hyphenated inner => ofHyphenated? inner = some id
  | .none => False

theorem parse_eq_ok {text : String} {id : ObjectId} :
    parse text = .ok id ↔ (Form.of text.toList).Gives id text.toList := by
  cases hform : Form.of text.toList with
  | plain => cases h : ofDigits? text.toList <;> simp [parse, hform, Form.Gives, h]
  | hyphenated inner => cases h : ofHyphenated? inner <;> simp [parse, hform, Form.Gives, h]
  | none => simp [parse, hform, Form.Gives]

theorem isNamed_lowered (cs : List Char) : isNamed (lowered cs) = isNamed cs := by
  rw [isNamed, isNamed, lowered, ← List.map_take, List.map_map]
  simp only [Function.comp_def, toLower_toLower]

/-- The form of a text in small letters is that of the text, in small letters. -/
theorem form_lowered (cs : List Char) : Form.of (lowered cs) = (Form.of cs).lowered := by
  have hopening : '\x7b' ∈ ['-', '\x7b', '\x7d'] := by decide
  have hclosing : '\x7d' ∈ ['-', '\x7b', '\x7d'] := by decide
  have hhead : ((lowered cs).head? == some '\x7b') = (cs.head? == some '\x7b') := by
    rw [List.head?_eq_getElem?, List.head?_eq_getElem?, getElem_lowered hopening]
  have hlast : ((lowered cs).getLast? == some '\x7d') = (cs.getLast? == some '\x7d') := by
    rw [List.getLast?_eq_getElem?, List.getLast?_eq_getElem?, lowered, List.length_map, ← lowered,
      getElem_lowered hclosing]
  unfold Form.of
  simp only [byteSize_lowered, hhead, hlast, isNamed_lowered]
  split
  · rfl
  · split
    · rfl
    · split
      · rw [Form.lowered, lowered, lowered, List.map_dropLast, List.map_drop]
      · split
        · rw [Form.lowered, lowered, lowered, List.map_drop]
        · rfl

theorem gives_lowered {id : ObjectId} {cs : List Char} {f : Form} :
    f.lowered.Gives id (lowered cs) ↔ f.Gives id cs := by
  cases f with
  | plain => rw [Form.lowered, Form.Gives, Form.Gives, ofDigits_lowered]
  | hyphenated inner => rw [Form.lowered, Form.Gives, Form.Gives, ofHyphenated_lowered]
  | none => rfl

/-- Identifiers are read the same in either letter case. -/
theorem parse_toLower {text : String} {id : ObjectId} :
    parse text.toLower = .ok id ↔ parse text = .ok id := by
  have hlower : text.toLower.toList = lowered text.toList := String.toList_map
  rw [parse_eq_ok, parse_eq_ok, hlower, form_lowered, gives_lowered]

/-- The ways to write an identifier in small letters. -/
def spellings (id : ObjectId) : List String :=
  [id.display, id.stored, "\x7b" ++ id.stored ++ "\x7d", "urn:uuid:" ++ id.stored]

theorem toList_display (id : ObjectId) : id.display.toList = digits id.bytes := String.toList_ofList

theorem parse_display (id : ObjectId) : parse id.display = .ok id := by
  have hsize : byteSize id.display.toList = 32 := by
    rw [toList_display, byteSize_digits, id.size_eq]
  have hform : Form.of id.display.toList = .plain := by
    rw [Form.of]
    exact if_pos hsize
  rw [parse_eq_ok, hform, toList_display]
  exact ofDigits_digits id

/-- An identifier is read from its stored form in braces. -/
theorem parse_braced (id : ObjectId) : parse ("\x7b" ++ id.stored ++ "\x7d") = .ok id := by
  have hlist : ("\x7b" ++ id.stored ++ "\x7d").toList = '\x7b' :: (id.stored.toList ++ ['\x7d']) := by
    rw [String.toList_append, String.toList_append]
    rfl
  have hsize : byteSize ('\x7b' :: (id.stored.toList ++ ['\x7d'])) = 38 := by
    have hcons : byteSize ('\x7b' :: (id.stored.toList ++ ['\x7d'])) =
        1 + byteSize (id.stored.toList ++ ['\x7d']) := rfl
    rw [hcons, byteSize_append, byteSize_stored]
    rfl
  have hform : Form.of ('\x7b' :: (id.stored.toList ++ ['\x7d'])) =
      .hyphenated id.stored.toList := by
    simp [Form.of, hsize, List.getLast?_cons]
  rw [parse_eq_ok, hlist, hform]
  exact ofHyphenated_stored id

/-- An identifier is read from its name as a resource. -/
theorem parse_named (id : ObjectId) : parse ("urn:uuid:" ++ id.stored) = .ok id := by
  have hlist : ("urn:uuid:" ++ id.stored).toList = namePrefix ++ id.stored.toList := by
    rw [String.toList_append]
    rfl
  have hsize : byteSize (namePrefix ++ id.stored.toList) = 45 := by
    rw [byteSize_append, byteSize_stored]
    rfl
  have hlength : namePrefix.length = 9 := rfl
  have hnamed : isNamed (namePrefix ++ id.stored.toList) = true := by
    rw [isNamed, ← hlength, List.take_left]
    decide
  have hform : Form.of (namePrefix ++ id.stored.toList) = .hyphenated id.stored.toList := by
    simp [Form.of, hsize, hnamed, ← hlength]
  rw [parse_eq_ok, hlist, hform]
  exact ofHyphenated_stored id

/-- A text in braces is its inside with the braces around it. -/
theorem lowered_braced {cs : List Char} (hhead : cs.head? = some '\x7b')
    (hlast : cs.getLast? = some '\x7d') :
    lowered cs = "\x7b".toList ++ lowered ((cs.drop 1).dropLast) ++ "\x7d".toList := by
  obtain ⟨rest, rfl⟩ := List.head?_eq_some_iff.mp hhead
  have hrest : rest ≠ [] := by
    rintro rfl
    cases hlast
  rw [List.getLast?_cons, List.getLast?_eq_some_getLast hrest, Option.getD_some,
    Option.some.injEq] at hlast
  have hparts : rest = rest.dropLast ++ ['\x7d'] := by
    rw [← hlast, List.dropLast_concat_getLast]
  rw [List.drop_one, List.tail_cons]
  conv_lhs => rw [hparts]
  rw [lowered, lowered, List.map_cons, List.map_append]
  rfl

/-- A text is read as an identifier exactly where it is one of its spellings, but for case. -/
theorem parse_eq_ok_iff {text : String} {id : ObjectId} :
    parse text = .ok id ↔ text.toLower ∈ id.spellings := by
  have hlower : text.toLower.toList = lowered text.toList := String.toList_map
  constructor
  · intro h
    simp only [parse_eq_ok, Form.of] at h
    simp only [spellings, List.mem_cons, List.not_mem_nil, or_false, ← String.toList_inj, hlower]
    split at h
    · rw [toList_display]
      exact .inl (lowered_of_ofDigits h)
    · split at h
      · exact .inr (.inl (lowered_of_ofHyphenated h))
      · split at h
        · next hends =>
          refine .inr (.inr (.inl ?_))
          rw [String.toList_append, String.toList_append, ← lowered_of_ofHyphenated h]
          simp only [Bool.and_eq_true, beq_iff_eq] at hends
          exact lowered_braced hends.1.2 hends.2
        · split at h
          · next hname =>
            refine .inr (.inr (.inr ?_))
            have hprefix : lowered (text.toList.take 9) = namePrefix :=
              eq_of_beq ((Bool.and_eq_true ..).mp hname).2
            have hparts : lowered text.toList =
                lowered (text.toList.take 9) ++ lowered (text.toList.drop 9) := by
              rw [lowered, lowered, lowered, ← List.map_append, List.take_append_drop]
            rw [String.toList_append, ← lowered_of_ofHyphenated h, hparts, hprefix]
            rfl
          · exact h.elim
  · intro h
    rw [← parse_toLower]
    simp only [spellings, List.mem_cons, List.not_mem_nil, or_false] at h
    rcases h with h | h | h | h
    · rw [h, parse_display]
    · rw [h, parse_stored]
    · rw [h, parse_braced]
    · rw [h, parse_named]

end RecordStore.ObjectId
