import RecordStore.Field.ObjectId

/-!
The stored form of an identifier is read back as that identifier. Each digit stands for its value,
so two digits give their byte, and the hyphens stand where a reader looks for them.
-/
namespace RecordStore.ObjectId

theorem hexDigit_digit {n : Nat} (h : n < 16) : Json.hexDigit? (digit n) = some n := by
  rcases n with _ | _ | _ | _ | _ | _ | _ | _ | _ | _ | _ | _ | _ | _ | _ | _ | n
  all_goals first | rfl | omega

theorem utf8Size_digit {n : Nat} (h : n < 16) : (digit n).utf8Size = 1 := by
  rcases n with _ | _ | _ | _ | _ | _ | _ | _ | _ | _ | _ | _ | _ | _ | _ | _ | n
  all_goals first | rfl | omega

theorem bytesOf_digits (bytes : List (Fin 256)) : bytesOf? (digits bytes) = some bytes := by
  induction bytes with
  | nil => rfl
  | cons b rest ih =>
    have hhigh : b.val / 16 < 16 := by omega
    have hlow : b.val % 16 < 16 := Nat.mod_lt _ (by decide)
    have hbyte : b.val / 16 * 16 + b.val % 16 = b.val := by omega
    have hcons : digits (b :: rest) = digit (b.val / 16) :: digit (b.val % 16) :: digits rest := rfl
    rw [hcons, bytesOf?, hexDigit_digit hhigh, hexDigit_digit hlow, ih]
    simp [hbyte]

theorem ofDigits_digits (id : ObjectId) : ofDigits? (digits id.bytes) = some id := by
  simp [ofDigits?, bytesOf_digits, id.size_eq]

theorem length_digits (bytes : List (Fin 256)) : (digits bytes).length = 2 * bytes.length := by
  induction bytes with
  | nil => rfl
  | cons b rest ih =>
    have hcons : digits (b :: rest) = byteDigits b ++ digits rest := rfl
    rw [hcons, List.length_append, ih, List.length_cons]
    simp [byteDigits]
    omega

theorem digits_append (as bs : List (Fin 256)) : digits (as ++ bs) = digits as ++ digits bs := by
  simp [digits]

theorem byteSize_append (as bs : List Char) : byteSize (as ++ bs) = byteSize as + byteSize bs := by
  simp [byteSize]

theorem byteSize_digits (bytes : List (Fin 256)) : byteSize (digits bytes) = 2 * bytes.length := by
  induction bytes with
  | nil => rfl
  | cons b rest ih =>
    have hhigh : b.val / 16 < 16 := by omega
    have hlow : b.val % 16 < 16 := Nat.mod_lt _ (by decide)
    have hcons : digits (b :: rest) = byteDigits b ++ digits rest := rfl
    rw [hcons, byteSize_append, ih, List.length_cons]
    simp [byteSize, byteDigits, utf8Size_digit hhigh, utf8Size_digit hlow]
    omega

/-- Five groups of the right sizes with hyphens between them are read like their digits alone. -/
theorem ofHyphenated_groups (a b c d e : List Char) (ha : a.length = 8) (hb : b.length = 4)
    (hc : c.length = 4) (hd : d.length = 4) (he : e.length = 12) :
    ofHyphenated? (a ++ '-' :: b ++ '-' :: c ++ '-' :: d ++ '-' :: e) =
      ofDigits? (a ++ b ++ c ++ d ++ e) := by
  have hnil (cs : List Char) {n : Nat} (h : cs.length ≤ n) : cs.drop n = [] :=
    List.drop_eq_nil_of_le h
  simp [ofHyphenated?, hyphenPositions, List.drop_append, List.getElem?_append,
    ha, hb, hc, hd, he, hnil]

def groupDigits (id : ObjectId) (start size : Nat) : List Char :=
  digits ((id.bytes.drop start).take size)

theorem length_groupDigits (id : ObjectId) {start size : Nat} (h : start + size ≤ 16) :
    (id.groupDigits start size).length = 2 * size := by
  rw [groupDigits, length_digits, List.length_take, List.length_drop, id.size_eq]
  omega

theorem byteSize_groupDigits (id : ObjectId) {start size : Nat} (h : start + size ≤ 16) :
    byteSize (id.groupDigits start size) = 2 * size := by
  rw [groupDigits, byteSize_digits, List.length_take, List.length_drop, id.size_eq]
  omega

theorem groupDigits_append (id : ObjectId) (start size next : Nat) :
    id.groupDigits start size ++ id.groupDigits (start + size) next =
      id.groupDigits start (size + next) := by
  rw [groupDigits, groupDigits, groupDigits, ← digits_append, List.take_add, List.drop_drop]

theorem groupDigits_all (id : ObjectId) : id.groupDigits 0 16 = digits id.bytes := by
  rw [groupDigits, List.drop_zero, List.take_of_length_le (Nat.le_of_eq id.size_eq)]

theorem toList_stored (id : ObjectId) :
    id.stored.toList = id.groupDigits 0 4 ++ '-' :: id.groupDigits 4 2 ++
      '-' :: id.groupDigits 6 2 ++ '-' :: id.groupDigits 8 2 ++ '-' :: id.groupDigits 10 6 :=
  String.toList_ofList

theorem byteSize_stored (id : ObjectId) : byteSize id.stored.toList = 36 := by
  have hhyphen (cs : List Char) : byteSize ('-' :: cs) = 1 + byteSize cs := rfl
  rw [toList_stored]
  simp only [byteSize_append, hhyphen]
  rw [byteSize_groupDigits id (by decide), byteSize_groupDigits id (by decide),
    byteSize_groupDigits id (by decide), byteSize_groupDigits id (by decide),
    byteSize_groupDigits id (by decide)]

theorem ofHyphenated_stored (id : ObjectId) : ofHyphenated? id.stored.toList = some id := by
  rw [toList_stored, ofHyphenated_groups _ _ _ _ _ (length_groupDigits id (by decide))
    (length_groupDigits id (by decide)) (length_groupDigits id (by decide))
    (length_groupDigits id (by decide)) (length_groupDigits id (by decide))]
  rw [groupDigits_append id 0 4 2, groupDigits_append id 0 6 2, groupDigits_append id 0 8 2,
    groupDigits_append id 0 10 6, groupDigits_all, ofDigits_digits]

/-- What is stored for an identifier reads back as it. -/
theorem parse_stored (id : ObjectId) : parse id.stored = .ok id := by
  have hform : Form.of id.stored.toList = .hyphenated id.stored.toList := by
    simp [Form.of, byteSize_stored]
  simp only [parse, hform, ofHyphenated_stored]

end RecordStore.ObjectId
