import RecordStore.Proofs.Field.ObjectIdText
import RecordStore.Proofs.Field.Reading
import RecordStore.Proofs.Json.Integer

/-!
The texts of map keys. A key that was read has a text, and the key is read from that text again,
however it was spelled. Keys in options and those that are stored values have no text at all.
-/
namespace RecordStore

theorem NumericKey.read_eq_ok {key : String} {outcome : Json × List Char}
    (h : NumericKey.read key = .ok outcome) : Numeral.read key.toList = .ok outcome := by
  unfold NumericKey.read at h
  dsimp only at h
  split at h
  · cases h
  · split at h
    · next hread =>
      cases h
      exact hread
    · cases h

namespace Data

def KeyKept (k : Data) (t : FieldType) : Prop := ∀ s, k.keyText = .ok s → ofKey s t = .ok k

theorem peel_peel (t : FieldType) : t.peel.2.peel = (0, t.peel.2) := by
  fun_induction FieldType.peel t with
  | case1 t ih => exact ih
  | case2 t ih => exact ih
  | case3 t hoption hbox => exact FieldType.peel.eq_3 t hoption hbox

/-- A key is read inside the options around its type. -/
theorem ofKey_peel (key : String) (t : FieldType) :
    ofKey key t = (ofKey key t.peel.2).map (presentIn t.peel.1) := by
  unfold ofKey
  rw [within, within_plain (peel_peel t)]

/-- The text of a whole number as a key is read as that number. -/
theorem ofKey_integer {n : Int} {k : IntegerType} (hk : k.contains n)
    (hn : Json.isStorable n = true) : ofKey (toString n) (.integer k) = .ok (.integer n) := by
  have hread : NumericKey.read (toString n) = .ok (.integer n, []) := by
    have hnumeral := Numeral.read_toString hn
    cases hcs : (toString n).toList with
    | nil =>
      rw [hcs] at hnumeral
      cases hnumeral
    | cons c cs =>
      have hstart : (c.isDigit || c == '-') = true := by
        rcases Json.mem_toString_int (hcs ▸ List.mem_cons_self ..) with hdigit | rfl
        · rw [hdigit, Bool.true_or]
        · rfl
      rw [hcs] at hnumeral
      simp only [NumericKey.read, hcs, List.head?_cons, Option.map_some, hstart, Option.getD_some,
        Bool.not_true, hnumeral]
      rfl
  have hvalue : ofNumber (.integer n) (.integer k) = .ok (.integer n) := by simp [ofNumber, hk]
  rw [ofKey, within_plain rfl]
  simp only [ofKey.number, hread, bind, Except.bind, hvalue]
  rfl

/-- A value that was read from a text is stored as a text, as it would be as a key, and it is read
from that text as well. -/
theorem exists_text_of_ofText {s : String} {t : FieldType} {d : Data} (ht : t ≠ .json)
    (h : ofText s t = .ok d) :
    ∃ s', d.keyText = .ok s' ∧ d.encode = .ok (.string s') ∧ ofText s' t = .ok d := by
  unfold ofText at h
  split at h
  · obtain rfl := Except.ok.inj h
    exact ⟨s, rfl, rfl, rfl⟩
  · exact absurd rfl ht
  · split at h
    · next c _ =>
      obtain rfl := Except.ok.inj h
      exact ⟨c.toString, rfl, rfl, by simp [ofText]⟩
    · cases h
  · split at h
    · next id _ =>
      obtain rfl := Except.ok.inj h
      exact ⟨id.stored, rfl, rfl, by simp [ofText, ObjectId.parse_stored]⟩
    · cases h
  · split at h
    · next hlookup =>
      obtain rfl := Except.ok.inj h
      exact ⟨s, rfl, rfl, by simp [ofText, hlookup]⟩
    · cases h
    · cases h
  · cases h

/-- A key outside options that is no stored value and no floating-point number. -/
theorem ofKey_keyText {key : String} {t : FieldType} {d : Data} (hpeel : t.peel = (0, t))
    (hjson : t ≠ .json) (hfloat : ∀ p, t ≠ .float p) (h : ofKey key t = .ok d) :
    ∃ s, d.keyText = .ok s ∧ ofKey s t = .ok d := by
  have htext {s : String} (hs : ofText s t = .ok d) (ht : ∀ s, ofKey s t = ofText s t) :
      ∃ s, d.keyText = .ok s ∧ ofKey s t = .ok d := by
    obtain ⟨s', hkey, -, hs'⟩ := exists_text_of_ofText hjson hs
    exact ⟨s', hkey, (ht s').trans hs'⟩
  rw [ofKey, within_plain hpeel] at h
  split at h
  · split at h
    · cases h
      exact ⟨"true", rfl, rfl⟩
    · split at h
      · cases h
        exact ⟨"false", rfl, rfl⟩
      · cases h
  · next k =>
    obtain ⟨⟨v, rest⟩, hread, h⟩ := bind_eq_ok.mp h
    dsimp only at h
    split at h
    · cases h
    · next d' hd' =>
      split at h
      · cases h
        unfold ofNumber at hd'
        split at hd'
        · next n k' hk =>
          cases hk
          split at hd'
          · next hcontains =>
            cases hd'
            have hn := Numeral.isStorable_of_read (NumericKey.read_eq_ok hread)
            exact ⟨toString n, rfl, ofKey_integer hcontains hn⟩
          · cases hd'
        · next hk => cases hk
        · next hk => cases hk
        · next hk => cases hk
        · cases hd'
      · cases h
  · exact absurd rfl (hfloat _)
  · next hbool hinteger hfloat' =>
    refine htext h fun s => ?_
    rw [ofKey, within_plain hpeel]
    split
    · exact absurd rfl hbool
    · exact absurd rfl (hinteger _)
    · exact absurd rfl (hfloat _)
    · rfl

theorem presentIn_keyText {n : Nat} {d : Data} {s : String}
    (h : (presentIn n d).keyText = .ok s) : n = 0 := by
  cases n with
  | zero => rfl
  | succ n => cases h

theorem ofKey_json (key : String) : ofKey key .json = .ok (.json (.string key)) := rfl

/-- A key that was read is kept where it has a text. -/
theorem keyKept_of_ofKey {key : String} {t : FieldType} {d : Data}
    (hfloat : ∀ p, t.peel.2 ≠ .float p) (h : ofKey key t = .ok d) : KeyKept d t := by
  intro s hs
  rw [ofKey_peel] at h ⊢
  obtain ⟨e, he, rfl⟩ := map_eq_ok.mp h
  have hzero := presentIn_keyText hs
  rw [hzero] at hs ⊢
  have hjson : t.peel.2 ≠ .json := by
    intro hjson
    rw [hjson, ofKey_json] at he
    cases he
    cases hs
  obtain ⟨s', hs', hread⟩ := ofKey_keyText (peel_peel t) hjson hfloat he
  obtain rfl : s = s' := Except.ok.inj (hs.symm.trans hs')
  rw [hread]
  rfl

theorem peel_of_isTextKey {t : FieldType} (h : t.isTextKey) :
    t.peel.1 = 0 ∧ t.peel.2 ≠ .json ∧ ∀ p, t.peel.2 ≠ .float p := by
  unfold FieldType.isTextKey at h
  split at h
  · cases h
  · cases h
  · next core hjson hfloat hpeel =>
    rw [hpeel]
    exact ⟨rfl, fun hcore => hjson hcore, fun p hcore => hfloat p hcore⟩
  · cases h

theorem exists_keyText {key : String} {t : FieldType} {d : Data} (ht : t.isTextKey)
    (h : ofKey key t = .ok d) : ∃ s, d.keyText = .ok s := by
  obtain ⟨hzero, hjson, hfloat⟩ := peel_of_isTextKey ht
  rw [ofKey_peel, hzero] at h
  obtain ⟨e, he, rfl⟩ := map_eq_ok.mp h
  obtain ⟨s, hs, -⟩ := ofKey_keyText (peel_peel t) hjson hfloat he
  exact ⟨s, hs⟩

end Data

end RecordStore
