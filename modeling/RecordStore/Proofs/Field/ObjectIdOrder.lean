import RecordStore.Proofs.Field.ObjectIdSpelling
import RecordStore.Field.Decoding
import RecordStore.Field.Encoding
import Mathlib.Order.Fin.Basic

/-!
The order of identifiers is that of their texts. Digits grow with their values and each byte has two
of them, so comparing digits compares bytes; hyphens stand in the same places of all stored forms
and do not count. Hence identifiers are sorted the same by bytes and by either text.
-/
namespace RecordStore.ObjectId

theorem bytesLt_iff (as bs : List (Fin 256)) : bytesLt as bs = true ↔ as < bs := by
  induction as generalizing bs with
  | nil => cases bs <;> simp [bytesLt]
  | cons a as ih =>
    cases bs with
    | nil => simp [bytesLt]
    | cons b bs => simp [bytesLt, ih, List.cons_lt_cons_iff]

theorem digit_lt_iff {m n : Nat} (hm : m < 16) (hn : n < 16) : digit m < digit n ↔ m < n := by
  have hdigits : ∀ m n : Fin 16, digit m < digit n ↔ m < n := by decide
  exact hdigits ⟨m, hm⟩ ⟨n, hn⟩

theorem digit_inj {m n : Nat} (hm : m < 16) (hn : n < 16) : digit m = digit n ↔ m = n := by
  refine ⟨fun h => ?_, congrArg digit⟩
  have hread := hexDigit_digit hm
  rw [h, hexDigit_digit hn] at hread
  exact (Option.some.inj hread).symm

/-- The digits of bytes are in the order of the bytes. -/
theorem digits_lt_iff (as bs : List (Fin 256)) : digits as < digits bs ↔ as < bs := by
  induction as generalizing bs with
  | nil => cases bs <;> simp [digits, byteDigits]
  | cons a as ih =>
    cases bs with
    | nil => simp [digits, byteDigits]
    | cons b bs =>
      have hcons (c : Fin 256) (cs : List (Fin 256)) :
          digits (c :: cs) = digit (c.val / 16) :: digit (c.val % 16) :: digits cs := rfl
      have hhigh (c : Fin 256) : c.val / 16 < 16 := by omega
      have hlow (c : Fin 256) : c.val % 16 < 16 := by omega
      rw [hcons, hcons, List.cons_lt_cons_iff, List.cons_lt_cons_iff, List.cons_lt_cons_iff, ih,
        digit_lt_iff (hhigh a) (hhigh b), digit_lt_iff (hlow a) (hlow b),
        digit_inj (hhigh a) (hhigh b), digit_inj (hlow a) (hlow b), Fin.lt_def, Fin.ext_iff]
      -- of two bytes the greater has the greater high digit, or the same one and a greater low one
      generalize (as < bs) = tails
      constructor
      · rintro (h | ⟨h, h' | ⟨h', htails⟩⟩)
        · exact .inl (by omega)
        · exact .inl (by omega)
        · exact .inr ⟨by omega, htails⟩
      · rintro (h | ⟨h, htails⟩)
        · by_cases hdiv : a.val / 16 < b.val / 16
          · exact .inl hdiv
          · exact .inr ⟨by omega, .inl (by omega)⟩
        · exact .inr ⟨by omega, .inr ⟨by omega, htails⟩⟩

theorem append_lt_append_iff {as bs : List Char} (h : as.length = bs.length) (cs ds : List Char) :
    as ++ cs < bs ++ ds ↔ as < bs ∨ as = bs ∧ cs < ds := by
  induction as generalizing bs with
  | nil =>
    obtain rfl := List.eq_nil_of_length_eq_zero h.symm
    simp
  | cons a as ih =>
    cases bs with
    | nil => cases h
    | cons b bs =>
      rw [List.cons_append, List.cons_append, List.cons_lt_cons_iff, List.cons_lt_cons_iff,
        ih (Nat.succ.inj h), List.cons.injEq]
      tauto

/-- A character that stands in one place of two texts has no part in their order. -/
theorem append_cons_lt_iff {as bs : List Char} (h : as.length = bs.length) (c : Char)
    {cs ds es fs : List Char} (hrest : cs < ds ↔ es < fs) :
    as ++ c :: cs < bs ++ c :: ds ↔ as ++ es < bs ++ fs := by
  rw [append_lt_append_iff h, append_lt_append_iff h, List.cons_lt_cons_self, hrest]

variable (a b : ObjectId)

theorem lt_iff_display_lt : a.lt b = true ↔ a.display < b.display := by
  rw [lt, bytesLt_iff, ← digits_lt_iff, String.lt_iff_toList_lt, display, display,
    String.toList_ofList, String.toList_ofList]

theorem display_inj : a.display = b.display ↔ a = b := by
  refine ⟨fun h => ?_, congrArg display⟩
  have hdigits : digits a.bytes = digits b.bytes := String.ofList_injective h
  have hread := ofDigits_digits a
  rw [hdigits, ofDigits_digits] at hread
  exact (Option.some.inj hread).symm

theorem stored_inj : a.stored = b.stored ↔ a = b := by
  refine ⟨fun h => ?_, congrArg stored⟩
  have hread := parse_stored a
  rw [h, parse_stored] at hread
  exact (Except.ok.inj hread).symm

theorem stored_lt_iff_display_lt : a.stored < b.stored ↔ a.display < b.display := by
  have hlength {start size : Nat} (h : start + size ≤ 16) :
      (a.groupDigits start size).length = (b.groupDigits start size).length := by
    rw [length_groupDigits a h, length_groupDigits b h]
  have hgroups (id : ObjectId) : id.display.toList = id.groupDigits 0 4 ++ (id.groupDigits 4 2 ++
      (id.groupDigits 6 2 ++ (id.groupDigits 8 2 ++ id.groupDigits 10 6))) := by
    rw [groupDigits_append id 8 2 6, groupDigits_append id 6 2 8, groupDigits_append id 4 2 10,
      groupDigits_append id 0 4 12, groupDigits_all, display, String.toList_ofList]
  rw [String.lt_iff_toList_lt, String.lt_iff_toList_lt, toList_stored, toList_stored, hgroups,
    hgroups]
  simp only [List.append_assoc, List.cons_append]
  exact append_cons_lt_iff (hlength (by decide)) _ <| append_cons_lt_iff (hlength (by decide)) _ <|
    append_cons_lt_iff (hlength (by decide)) _ <| append_cons_lt_iff (hlength (by decide)) _ Iff.rfl

variable {a b}

theorem sort_perm (ids : List ObjectId) : (sort ids).Perm ids := List.mergeSort_perm ..

theorem not_lt_iff : (!b.lt a) = true ↔ a.display ≤ b.display := by
  rw [Bool.not_eq_true', ← Bool.not_eq_true, lt_iff_display_lt, not_lt]

theorem pairwise_sort (ids : List ObjectId) :
    (sort ids).Pairwise fun a b => a.display ≤ b.display := by
  refine (List.pairwise_mergeSort (fun a b c hab hbc => ?_) (fun a b => ?_) ids).imp not_lt_iff.mp
  · rw [not_lt_iff] at hab hbc ⊢
    exact hab.trans hbc
  · rw [Bool.or_eq_true, not_lt_iff, not_lt_iff]
    exact le_total ..

/-- There is one way to put identifiers in the order of their digits. -/
theorem eq_sort_iff {ids sorted : List ObjectId} : sorted = sort ids ↔
    sorted.Perm ids ∧ sorted.Pairwise fun a b => a.display ≤ b.display := by
  constructor
  · rintro rfl
    exact ⟨sort_perm ids, pairwise_sort ids⟩
  · rintro ⟨hperm, hsorted⟩
    refine List.Perm.eq_of_pairwise (fun a b _ _ hab hba => ?_) hsorted (pairwise_sort ids)
      (hperm.trans (sort_perm ids).symm)
    exact (display_inj a b).mp (hab.antisymm hba)

theorem decode_string {text : String} {id : ObjectId} :
    Data.decode (.string text) .objectId = .ok (.objectId id) ↔ parse text = .ok id := by
  have hread : Data.decode (.string text) .objectId =
      (Data.ofText text .objectId).map (Data.presentIn 0) := by
    rw [Data.decode]
    rfl
  rw [hread]
  simp only [Data.ofText]
  cases parse text <;> simp [Except.map, Data.presentIn]

/-- Identifiers are in the order of their digits and in that of their stored forms, each of which
is different for different identifiers. A text is read as an identifier if it is one of its
spellings in any letter case, among them what is shown for it and what is stored, so both are read
as it; and to sort identifiers by bytes or by either text is the same. -/
theorem agrees_with_texts :
    (∀ a b : ObjectId, (a.lt b = true ↔ a.display < b.display) ∧
      (a.lt b = true ↔ a.stored < b.stored) ∧
      (a = b ↔ a.display = b.display) ∧ (a = b ↔ a.stored = b.stored)) ∧
    (∀ (text : String) (id : ObjectId),
      Data.decode (.string text) .objectId = .ok (.objectId id) ↔ text.toLower ∈ id.spellings) ∧
    (∀ id : ObjectId, (Data.objectId id).encode = .ok (.string id.stored) ∧
      Data.decode (.string id.display) .objectId = .ok (.objectId id) ∧
      Data.decode (.string id.stored) .objectId = .ok (.objectId id)) ∧
    ∀ ids sorted : List ObjectId,
      (sorted = sort ids ↔ sorted.Perm ids ∧ sorted.Pairwise fun a b => b.lt a = false) ∧
      (sorted = sort ids ↔ sorted.Perm ids ∧ sorted.Pairwise fun a b => a.display ≤ b.display) ∧
      (sorted = sort ids ↔ sorted.Perm ids ∧ sorted.Pairwise fun a b => a.stored ≤ b.stored) := by
  refine ⟨fun a b => ⟨lt_iff_display_lt a b, ?_, (display_inj a b).symm, (stored_inj a b).symm⟩,
    fun text id => decode_string.trans parse_eq_ok_iff,
    fun id => ⟨rfl, decode_string.mpr (parse_display id), decode_string.mpr (parse_stored id)⟩,
    fun ids sorted => ⟨?_, eq_sort_iff, ?_⟩⟩
  · rw [stored_lt_iff_display_lt, lt_iff_display_lt]
  · have hle (a b : ObjectId) : b.lt a = false ↔ a.display ≤ b.display := by
      rw [← not_lt_iff, Bool.not_eq_true']
    simp only [hle, eq_sort_iff]
  · have hle (a b : ObjectId) : a.stored ≤ b.stored ↔ a.display ≤ b.display := by
      rw [← not_lt, ← not_lt, stored_lt_iff_display_lt]
    simp only [hle, eq_sort_iff]

end RecordStore.ObjectId
