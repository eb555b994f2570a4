import RecordStore.Proofs.Field.Order
import RecordStore.Proofs.Json.Equality
import RecordStore.Field.Decoding
import RecordStore.Field.Encoding

/-!
Which field values belong to a type, which types have a stored form that is read back, and which
values that form can express. Boxes do not show in a type, and options only where they are empty.
-/
namespace RecordStore

namespace FieldType

def unbox : FieldType → FieldType
  | .box t => t.unbox
  | t => t

theorem unbox_unbox (t : FieldType) : t.unbox.unbox = t.unbox := by
  fun_induction FieldType.unbox t with
  | case1 t ih => exact ih
  | case2 t h => rw [unbox.eq_2 t h]

def admitsNull : FieldType → Bool
  | .option _ | .unit | .json => true
  | .box t => t.admitsNull
  | _ => false

def storesNull : FieldType → Bool
  | .option _ | .unit | .json | .float _ => true
  | .box t => t.storesNull
  | _ => false

mutual

/-- Types whose values can be members of a set: they have an order that tells them apart. -/
def isKey : FieldType → Bool
  | .bool | .integer _ | .char | .string | .unit | .objectId => true
  | .option t => !t.admitsNull && t.isKey
  | .box t | .list t | .array t _ | .set t => t.isKey
  | .tuple ts => areKeys ts
  | _ => false

def areKeys : List FieldType → Bool
  | [] => true
  | t :: rest => t.isKey && areKeys rest

end

mutual

/-- Types whose stored form is read back: numbers have double precision, members of sets are
apart, and keys of maps are texts. -/
def isStable : FieldType → Bool
  | .float p => p = .double
  | .option t | .box t | .list t | .array t _ => t.isStable
  | .tuple ts => areStable ts
  | .set t => t.isKey
  | .map k t => (match k with | .string => true | _ => false) && t.isStable
  | _ => true

def areStable : List FieldType → Bool
  | [] => true
  | t :: rest => t.isStable && areStable rest

end

/-- Types whose values have texts where they are keys of maps. What is in an option has none, nor
has a stored value, and a number need not be finite. -/
def isTextKey (t : FieldType) : Bool :=
  match t.peel with
  | (0, .json) | (0, .float _) => false
  | (0, _) => true
  | _ => false

mutual

/-- Types in which all keys of maps have texts. -/
def hasTextKeys : FieldType → Bool
  | .option t | .box t | .list t | .array t _ | .set t => t.hasTextKeys
  | .tuple ts => haveTextKeys ts
  | .map k t => k.isTextKey && t.hasTextKeys
  | _ => true

def haveTextKeys : List FieldType → Bool
  | [] => true
  | t :: rest => t.hasTextKeys && haveTextKeys rest

end

mutual

/-- Types of which a value that loses nothing when it is stored is read back: numbers have double
precision, and keys of maps are texts. -/
def isReadable : FieldType → Bool
  | .float p => p = .double
  | .option t | .box t | .list t | .array t _ | .set t => t.isReadable
  | .tuple ts => areReadable ts
  | .map k t => (match k with | .string => true | _ => false) && t.isReadable
  | _ => true

def areReadable : List FieldType → Bool
  | [] => true
  | t :: rest => t.isReadable && areReadable rest

end

mutual

/-- Types without an option around a type whose values may be stored as null: no two values of them
are stored alike, but for numbers that are not finite. -/
def isFaithful : FieldType → Bool
  | .option t => !t.storesNull && t.isFaithful
  | .box t | .list t | .array t _ | .set t | .map _ t => t.isFaithful
  | .tuple ts => areFaithful ts
  | _ => true

def areFaithful : List FieldType → Bool
  | [] => true
  | t :: rest => t.isFaithful && areFaithful rest

end

mutual

theorem isStable_of_isKey (t : FieldType) (h : t.isKey) : t.isStable := by
  cases t with
  | option t =>
    have hk : !t.admitsNull ∧ t.isKey := by simpa [isKey] using h
    exact isStable_of_isKey t hk.2
  | box t => exact isStable_of_isKey t h
  | list t => exact isStable_of_isKey t h
  | array t n => exact isStable_of_isKey t h
  | set t => exact h
  | tuple ts => exact areStable_of_areKeys ts h
  | float p => exact absurd h (by simp [isKey])
  | map k t => exact absurd h (by simp [isKey])
  | _ => rfl

theorem areStable_of_areKeys (ts : List FieldType) (h : areKeys ts) : areStable ts := by
  cases ts with
  | nil => rfl
  | cons t rest =>
    have hk : t.isKey ∧ areKeys rest := by simpa [areKeys] using h
    simp [areStable, isStable_of_isKey t hk.1, areStable_of_areKeys rest hk.2]

end

theorem isReadable_map {k t : FieldType} (h : (FieldType.map k t).isReadable) :
    k = .string ∧ t.isReadable := by
  cases k <;> simp_all [isReadable]

theorem isStable_map {k t : FieldType} (h : (FieldType.map k t).isStable) :
    k = .string ∧ t.isStable := by
  cases k <;> simp_all [isStable]

mutual

theorem isReadable_of_isStable (t : FieldType) (h : t.isStable) : t.isReadable := by
  cases t with
  | float p => exact h
  | option t => exact isReadable_of_isStable t h
  | box t => exact isReadable_of_isStable t h
  | list t => exact isReadable_of_isStable t h
  | array t n => exact isReadable_of_isStable t h
  | set t => exact isReadable_of_isStable t (isStable_of_isKey t h)
  | tuple ts => exact areReadable_of_areStable ts h
  | map k t =>
    obtain ⟨rfl, ht⟩ := isStable_map h
    simp [isReadable, isReadable_of_isStable t ht]
  | _ => rfl

theorem areReadable_of_areStable (ts : List FieldType) (h : areStable ts) : areReadable ts := by
  cases ts with
  | nil => rfl
  | cons t rest =>
    have hs : t.isStable ∧ areStable rest := by simpa [areStable] using h
    simp [areReadable, isReadable_of_isStable t hs.1, areReadable_of_areStable rest hs.2]

end

mutual

theorem hasTextKeys_of_isStable (t : FieldType) (h : t.isStable) : t.hasTextKeys := by
  cases t with
  | option t => exact hasTextKeys_of_isStable t h
  | box t => exact hasTextKeys_of_isStable t h
  | list t => exact hasTextKeys_of_isStable t h
  | array t n => exact hasTextKeys_of_isStable t h
  | set t => exact hasTextKeys_of_isStable t (isStable_of_isKey t h)
  | tuple ts => exact haveTextKeys_of_areStable ts h
  | map k t =>
    obtain ⟨rfl, ht⟩ := isStable_map h
    exact hasTextKeys_of_isStable t ht
  | _ => rfl

theorem haveTextKeys_of_areStable (ts : List FieldType) (h : areStable ts) : haveTextKeys ts := by
  cases ts with
  | nil => rfl
  | cons t rest =>
    have hs : t.isStable ∧ areStable rest := by simpa [areStable] using h
    simp [haveTextKeys, hasTextKeys_of_isStable t hs.1, haveTextKeys_of_areStable rest hs.2]

end

/-- The parts of a struct are of types that are read back. -/
theorem isStable_structField {n : StructName} {f : StructField} (h : f ∈ n.fields) :
    f.type.isStable := by
  cases n <;> simp [StructName.fields] at h <;> aesop

end FieldType

namespace Data

mutual

/-- Whether a field value belongs to a type. Members of a set and keys of a map are in strict
order. -/
def Fits : Data → FieldType → Prop
  | .bool _, t => t.unbox = .bool
  | .integer n, t => ∃ k, t.unbox = .integer k ∧ k.contains n
  | .float _, t => ∃ p, t.unbox = .float p
  | .char _, t => t.unbox = .char
  | .string _, t => t.unbox = .string
  | .unit, t => t.unbox = .unit
  | .json v, t => t.unbox = .json ∧ v.Proper
  | .objectId _, t => t.unbox = .objectId
  | .absent, t => ∃ u, t.unbox = .option u
  | .present d, t => ∃ u, t.unbox = .option u ∧ Fits d u
  | .list items, t =>
    (∃ u, t.unbox = .list u ∧ FitsAll items u) ∨
    (∃ u, t.unbox = .set u ∧ FitsAll items u ∧ Ascending items) ∨
    (∃ u n, t.unbox = .array u n ∧ FitsEach items (List.replicate n u)) ∨
    (∃ ts, t.unbox = .tuple ts ∧ FitsEach items ts)
  | .map entries, t =>
    ∃ k u, t.unbox = .map k u ∧ FitsEntries entries k u ∧ Ascending (entries.map Prod.fst)
  | .struct fields, t => ∃ n, t.unbox = .struct n ∧ FitsFields fields n.fields
  | .variant name none, t => ∃ n, t.unbox = .enum n ∧ n.variants.lookup name = some none
  | .variant name (some d), t =>
    ∃ n u, t.unbox = .enum n ∧ n.variants.lookup name = some (some u) ∧ Fits d u

def FitsAll : List Data → FieldType → Prop
  | [], _ => True
  | d :: rest, t => Fits d t ∧ FitsAll rest t

def FitsEach : List Data → List FieldType → Prop
  | [], [] => True
  | d :: rest, t :: ts => Fits d t ∧ FitsEach rest ts
  | _, _ => False

def FitsEntries : List (Data × Data) → FieldType → FieldType → Prop
  | [], _, _ => True
  | (k, d) :: rest, t, u => Fits k t ∧ Fits d u ∧ FitsEntries rest t u

def FitsFields : List (String × Data) → List StructField → Prop
  | [], [] => True
  | (name, d) :: rest, f :: fs => name = f.name ∧ Fits d f.type ∧ FitsFields rest fs
  | _, _ => False

end

mutual

/-- Values that hold no number that is not finite, and nothing present that is stored as null. -/
def Plain : Data → Prop
  | .float x => x.isFinite = true
  | .present d => d.encode ≠ .ok .null ∧ Plain d
  | .list items => PlainItems items
  | .map entries => PlainEntries entries
  | .struct fields => PlainFields fields
  | .variant _ (some d) => Plain d
  | _ => True

def PlainItems : List Data → Prop
  | [] => True
  | d :: rest => Plain d ∧ PlainItems rest

def PlainEntries : List (Data × Data) → Prop
  | [] => True
  | (k, d) :: rest => Plain k ∧ Plain d ∧ PlainEntries rest

def PlainFields : List (String × Data) → Prop
  | [] => True
  | (_, d) :: rest => Plain d ∧ PlainFields rest

end

mutual

/-- Whether the members of the sets in a value of a type lose nothing when they are stored, so that
they are read back apart. The named types hold no sets. -/
def SetsApart : Data → FieldType → Prop
  | .present d, t => ∀ u, t.unbox = .option u → SetsApart d u
  | .list items, t =>
    (∀ u, t.unbox = .set u → PlainItems items) ∧
    (∀ u, t.unbox = .list u → SetsApartAll items u) ∧
    (∀ u n, t.unbox = .array u n → SetsApartEach items (List.replicate n u)) ∧
    ∀ ts, t.unbox = .tuple ts → SetsApartEach items ts
  | .map entries, t => ∀ k u, t.unbox = .map k u → SetsApartEntries entries u
  | _, _ => True

def SetsApartAll : List Data → FieldType → Prop
  | [], _ => True
  | d :: rest, t => SetsApart d t ∧ SetsApartAll rest t

def SetsApartEach : List Data → List FieldType → Prop
  | d :: rest, t :: ts => SetsApart d t ∧ SetsApartEach rest ts
  | _, _ => True

def SetsApartEntries : List (Data × Data) → FieldType → Prop
  | [], _ => True
  | (_, d) :: rest, t => SetsApart d t ∧ SetsApartEntries rest t

end

attribute [local simp] Fits SetsApart

theorem fitsAll_iff {items : List Data} {t : FieldType} :
    FitsAll items t ↔ ∀ d ∈ items, Fits d t := by
  induction items with
  | nil => simp [FitsAll]
  | cons d rest ih => simp [FitsAll, ih]

theorem plainItems_iff {items : List Data} : PlainItems items ↔ ∀ d ∈ items, Plain d := by
  induction items with
  | nil => simp [PlainItems]
  | cons d rest ih => simp [PlainItems, ih]

theorem fitsEntries_iff {entries : List (Data × Data)} {t u : FieldType} :
    FitsEntries entries t u ↔
      (∀ k ∈ entries.map Prod.fst, Fits k t) ∧ ∀ d ∈ entries.map Prod.snd, Fits d u := by
  induction entries with
  | nil => simp [FitsEntries]
  | cons e rest ih =>
    simp only [FitsEntries, ih, List.map_cons, List.forall_mem_cons]
    tauto

theorem plainEntries_iff {entries : List (Data × Data)} :
    PlainEntries entries ↔
      (∀ k ∈ entries.map Prod.fst, Plain k) ∧ ∀ d ∈ entries.map Prod.snd, Plain d := by
  induction entries with
  | nil => simp [PlainEntries]
  | cons e rest ih =>
    simp only [PlainEntries, ih, List.map_cons, List.forall_mem_cons]
    tauto

theorem fits_unbox (d : Data) (t : FieldType) : Fits d t.unbox ↔ Fits d t := by
  cases d with
  | variant name content => cases content <;> simp [t.unbox_unbox]
  | _ => simp [t.unbox_unbox]

theorem setsApart_unbox (d : Data) (t : FieldType) : SetsApart d t.unbox ↔ SetsApart d t := by
  cases d <;> simp [t.unbox_unbox]

theorem eq_objectId_of_fits {d : Data} (h : Fits d .objectId) : ∃ id, d = .objectId id := by
  cases d with
  | objectId id => exact ⟨id, rfl⟩
  | variant name content => cases content <;> simp [FieldType.unbox] at h
  | _ => simp [FieldType.unbox] at h

theorem eq_string_of_fits {d : Data} (h : Fits d .string) : ∃ s, d = .string s := by
  cases d with
  | string s => exact ⟨s, rfl⟩
  | variant name content => cases content <;> simp [FieldType.unbox] at h
  | _ => simp [FieldType.unbox] at h

theorem eq_integer_of_fits {d : Data} {k : IntegerType} (h : Fits d (.integer k)) :
    ∃ n, d = .integer n ∧ k.contains n = true := by
  cases d with
  | integer n =>
    obtain ⟨k', hk, hn⟩ := h
    cases hk
    exact ⟨n, rfl, hn⟩
  | variant name content => cases content <;> simp [FieldType.unbox] at h
  | _ => simp [FieldType.unbox] at h

theorem eq_list_of_fits {d : Data} {t : FieldType} (h : Fits d (.list t)) :
    ∃ items, d = .list items ∧ FitsAll items t := by
  cases d with
  | list items =>
    rcases h with ⟨u, hu, hitems⟩ | ⟨u, hu, -⟩ | ⟨u, n, hu, -⟩ | ⟨ts, hts, -⟩
    · cases hu
      exact ⟨items, rfl, hitems⟩
    · cases hu
    · cases hu
    · cases hts
  | variant name content => cases content <;> simp [FieldType.unbox] at h
  | _ => simp [FieldType.unbox] at h

theorem eq_struct_of_fits {d : Data} {n : StructName} (h : Fits d (.struct n)) :
    ∃ fields, d = .struct fields ∧ FitsFields fields n.fields := by
  cases d with
  | struct fields =>
    obtain ⟨n', hn, hfields⟩ := h
    cases hn
    exact ⟨fields, rfl, hfields⟩
  | variant name content => cases content <;> simp [FieldType.unbox] at h
  | _ => simp [FieldType.unbox] at h

theorem within_plain {t : FieldType} {read : FieldType → Except CodecError Data}
    (h : t.peel = (0, t)) : within t read = read t := by
  rw [within, h]
  cases read t <;> rfl

theorem within_option (t : FieldType) (read : FieldType → Except CodecError Data) :
    within (.option t) read = (within t read).map .present := by
  simp only [within, FieldType.peel]
  cases read t.peel.2 <;> rfl

/-- A box is not there to see. -/
theorem decode_box (v : Json) (t : FieldType) : decode v (.box t) = decode v t := by
  cases v with
  | null => rfl
  | _ => simp only [decode, within, FieldType.peel]

theorem decode_unbox (v : Json) (t : FieldType) : decode v t.unbox = decode v t := by
  fun_induction FieldType.unbox t with
  | case1 t ih => rw [decode_box, ih]
  | case2 t h => rfl

theorem decode_option_null (t : FieldType) : decode .null (.option t) = .ok .absent := by
  simp [decode, FieldType.peel]

/-- What is not null is read as the type inside the option. -/
theorem decode_option {v : Json} (h : v ≠ .null) (t : FieldType) :
    decode v (.option t) = (decode v t).map .present := by
  cases v with
  | null => exact absurd rfl h
  | _ => simp only [decode, within_option]

end Data

end RecordStore
