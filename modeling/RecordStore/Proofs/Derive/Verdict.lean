import RecordStore.Derive.Expansion
import RecordStore.Proofs.Derive.SelfType
import RecordStore.Proofs.Source.Item
import Mathlib.Data.List.Induction

/-!
Which items expand, and why the others do not. The shape of an item is judged before its generic
parameters and those before its fields, but a field whose marker is wrong comes before all but the
shape. Of the fields the first that fails is reported; in it a path through `Self` comes before what
else is wrong with the type, and that before a second primary key.
-/
namespace RecordStore

open SelfType

namespace NamedField

def IsRead (f : NamedField) : Prop := ∃ marker, Marker.ofAttributes f.attributes = .ok marker

def marker? (f : NamedField) : Option Marker :=
  match Marker.ofAttributes f.attributes with
  | .ok marker => marker
  | .error _ => none

def isKey (f : NamedField) : Bool := f.marker?.any Marker.primaryKey

/-- Whether the type of a field can be persisted: no type path in it goes through `Self`, and it has
a signature once `Self` is named. -/
structure HasSignature (model : String) (f : NamedField) : Prop where
  direct : firstThrough (uses f.type) = none
  signature : ∃ s, Signature.resolve f.name (rename model f.type) = .ok s

/-- Why a marked field fails that comes after some primary key or none. -/
inductive Fails (model : String) (key : Option String) (f : NamedField) : ExpansionError → Prop
  | through {path : TypeExpr} (h : firstThrough (uses f.type) = some path) :
      Fails model key f (.unsupportedType path.text f.name)
  | signature {e : ExpansionError} (hdirect : firstThrough (uses f.type) = none)
      (h : Signature.resolve f.name (rename model f.type) = .error e) : Fails model key f e
  | secondKey {first : String} (htype : f.HasSignature model) (hkey : f.isKey = true)
      (hfirst : key = some first) : Fails model key f (.duplicatePrimaryKey f.name first)

end NamedField

def firstKey (fields : List NamedField) : Option String :=
  (fields.find? NamedField.isKey).map NamedField.name

/-- Fields none of which fails: the marked ones have signatures, and at most one is a primary
key. -/
structure Accepted (model : String) (fields : List NamedField) : Prop where
  types : ∀ f ∈ fields, f.marker?.isSome → f.HasSignature model
  keys : (fields.filter NamedField.isKey).length ≤ 1

namespace Item

/-- Items that expand. -/
structure Expands (i : Item) : Prop where
  shape : i.shape = .struct
  markers : ∀ f ∈ i.fields, f.IsRead
  generics : i.isGeneric = false
  fields : Accepted i.name i.fields

/-- Items that do not expand, with the reason. -/
inductive Refused (i : Item) : ExpansionError → Prop
  | shape (hshape : i.shape ≠ .struct) : Refused i (.structuralMismatch i.name i.shape)
  | marker {before after : List NamedField} {f : NamedField} {errors : List MarkerError}
      (hshape : i.shape = .struct) (hfields : i.fields = before ++ f :: after)
      (hbefore : ∀ g ∈ before, g.IsRead)
      (hf : Marker.ofAttributes f.attributes = .error errors) :
      Refused i (.invalidAttribute errors)
  | generics (hshape : i.shape = .struct) (hmarkers : ∀ f ∈ i.fields, f.IsRead)
      (hgenerics : i.isGeneric = true) : Refused i (.unsupportedGenerics i.name)
  | field {before after : List NamedField} {f : NamedField} {e : ExpansionError}
      (hshape : i.shape = .struct) (hmarkers : ∀ f ∈ i.fields, f.IsRead)
      (hgenerics : i.isGeneric = false) (hfields : i.fields = before ++ f :: after)
      (hbefore : Accepted i.name before) (hmarked : f.marker?.isSome)
      (hf : f.Fails i.name (firstKey before) e) : Refused i e

end Item

namespace NamedField

variable {f : NamedField}

/-- A field with its marker read. -/
def member (f : NamedField) : Member := ⟨f.name, f.type, f.marker?⟩

theorem ofField_of_isRead (h : f.IsRead) : Member.ofField f = .ok f.member := by
  obtain ⟨marker, hmarker⟩ := h
  simp only [Member.ofField, member, marker?, hmarker]

theorem isRead_or (f : NamedField) :
    f.IsRead ∨ ∃ errors, Marker.ofAttributes f.attributes = .error errors := by
  unfold IsRead
  cases Marker.ofAttributes f.attributes with
  | ok marker => exact .inl ⟨marker, rfl⟩
  | error errors => exact .inr ⟨errors, rfl⟩

end NamedField

/-- Fields that are read make members in their order, before those of the rest. -/
theorem Member.ofFields_append {before : List NamedField} (h : ∀ f ∈ before, f.IsRead)
    (rest : List NamedField) :
    Member.ofFields (before ++ rest) =
      (Member.ofFields rest).map (before.map NamedField.member ++ ·) := by
  induction before with
  | nil =>
    rw [List.nil_append]
    cases Member.ofFields rest <;> rfl
  | cons f before ih =>
    obtain ⟨hf, hbefore⟩ := List.forall_mem_cons.mp h
    rw [List.cons_append, Member.ofFields, NamedField.ofField_of_isRead hf, ih hbefore]
    cases Member.ofFields rest <;> rfl

theorem Member.ofFields_of_isRead {fields : List NamedField} (h : ∀ f ∈ fields, f.IsRead) :
    Member.ofFields fields = .ok (fields.map NamedField.member) := by
  have happend := Member.ofFields_append h []
  rw [List.append_nil] at happend
  rw [happend, Member.ofFields]
  simp [Except.map]

theorem Member.ofFields_of_error {before : List NamedField} {f : NamedField}
    {errors : List MarkerError} (h : ∀ g ∈ before, g.IsRead)
    (hf : Marker.ofAttributes f.attributes = .error errors) (after : List NamedField) :
    Member.ofFields (before ++ f :: after) = .error (.invalidAttribute errors) := by
  have hfield : Member.ofField f = .error (.invalidAttribute errors) := by
    simp only [Member.ofField, hf]
  rw [Member.ofFields_append h, Member.ofFields, hfield]
  rfl

/-- Among fields whose markers are not all read there is a first that is not. -/
theorem isRead_or_first (fields : List NamedField) :
    (∀ f ∈ fields, f.IsRead) ∨ ∃ before f after errors, fields = before ++ f :: after ∧
      (∀ g ∈ before, g.IsRead) ∧ Marker.ofAttributes f.attributes = .error errors := by
  induction fields with
  | nil => exact .inl fun f hf => absurd hf List.not_mem_nil
  | cons f rest ih =>
    rcases f.isRead_or with hf | ⟨errors, hf⟩
    · rcases ih with hrest | ⟨before, g, after, errors, rfl, hbefore, hg⟩
      · exact .inl (List.forall_mem_cons.mpr ⟨hf, hrest⟩)
      · exact .inr ⟨f :: before, g, after, errors, rfl, List.forall_mem_cons.mpr ⟨hf, hbefore⟩, hg⟩
    · exact .inr ⟨[], f, rest, errors, rfl, fun g hg => absurd hg List.not_mem_nil, hf⟩

section

variable {model : String} {key : Option String} {f : NamedField} {before after : List NamedField}

theorem firstKey_eq_none_iff : firstKey before = none ↔ ∀ f ∈ before, f.isKey = false := by
  simp [firstKey]

/-- A field with a signature is persisted. -/
theorem NamedField.HasSignature.ofMember (h : f.HasSignature model) (marker : Marker) :
    ∃ field, PersistedField.ofMember model f.member marker = .ok field := by
  obtain ⟨s, hs⟩ := h.signature
  have hname : SelfType.name model f.member.type = .ok (rename model f.type) := by
    rw [NamedField.member, name_eq, verdict_of_none h.direct]
  have hs : Signature.resolve f.member.name (rename model f.type) = .ok s := hs
  unfold PersistedField.ofMember
  rw [hname]
  simp only [hs]
  exact ⟨_, rfl⟩

theorem ofMembers_unmarked (h : f.marker? = none) (rest : List Member) :
    Schema.ofMembers model key (f.member :: rest) = Schema.ofMembers model key rest := by
  simp only [Schema.ofMembers, NamedField.member, h]

/-- A field that is no second primary key is persisted before the others. -/
theorem ofMembers_marked {marker : Marker} {field : PersistedField} (h : f.marker? = some marker)
    (hfield : PersistedField.ofMember model f.member marker = .ok field)
    (hkey : key.isSome → f.isKey = false) (rest : List Member) :
    Schema.ofMembers model key (f.member :: rest) =
      (Schema.ofMembers model (if f.isKey then some f.name else key) rest).map (field :: ·) := by
  have hmarker : f.member.marker = some marker := h
  have hprimary : f.isKey = marker.primaryKey := by simp [NamedField.isKey, h]
  rw [hprimary] at hkey ⊢
  simp only [Schema.ofMembers, hmarker, hfield]
  cases key with
  | none =>
    show (Schema.ofMembers model (if marker.primaryKey then some f.name else none) rest >>=
      fun schema => pure (field :: schema)) = _
    cases Schema.ofMembers model (if marker.primaryKey then some f.name else none) rest <;> rfl
  | some first =>
    rw [hkey rfl, if_neg Bool.false_ne_true]
    show (Schema.ofMembers model (some first) rest >>= fun schema => pure (field :: schema)) = _
    cases Schema.ofMembers model (some first) rest <;> rfl

theorem firstKey_cons (f : NamedField) (fields : List NamedField) :
    firstKey (f :: fields) = if f.isKey then some f.name else firstKey fields := by
  unfold firstKey
  rw [List.find?_cons]
  cases f.isKey <;> rfl

theorem accepted_tail (h : Accepted model (f :: before)) : Accepted model before := by
  refine ⟨fun g hg => h.types g (List.mem_cons_of_mem _ hg), ?_⟩
  have hkeys := h.keys
  rw [List.filter_cons] at hkeys
  split at hkeys
  · exact Nat.le_of_succ_le hkeys
  · exact hkeys

/-- After a primary key there is no other. -/
theorem not_isKey_of_accepted (h : Accepted model (f :: before)) (hf : f.isKey = true) :
    ∀ g ∈ before, g.isKey = false := by
  have hkeys := h.keys
  rw [List.filter_cons, if_pos hf] at hkeys
  have hnil : before.filter NamedField.isKey = [] :=
    List.eq_nil_of_length_eq_zero (by simpa using hkeys)
  simpa [List.filter_eq_nil_iff] using hnil

/-- Fields that do not fail are passed over, and leave their first primary key behind. -/
theorem ofMembers_append (h : Accepted model before)
    (hkey : key.isSome → ∀ f ∈ before, f.isKey = false) :
    ∃ schema, ∀ rest, Schema.ofMembers model key (before.map NamedField.member ++ rest) =
      (Schema.ofMembers model (key.or (firstKey before)) rest).map (schema ++ ·) := by
  induction before generalizing key with
  | nil =>
    refine ⟨[], fun rest => ?_⟩
    have hfirst : firstKey [] = none := rfl
    rw [hfirst, Option.or_none, List.map_nil, List.nil_append]
    cases Schema.ofMembers model key rest <;> rfl
  | cons f before ih =>
    have hnext : (if f.isKey then some f.name else key).isSome →
        ∀ g ∈ before, g.isKey = false := by
      cases hf : f.isKey with
      | true => exact fun _ => not_isKey_of_accepted h hf
      | false => exact fun hsome g hg => hkey hsome g (List.mem_cons_of_mem _ hg)
    have hfirst : key.or (firstKey (f :: before)) =
        (if f.isKey then some f.name else key).or (firstKey before) := by
      rw [firstKey_cons]
      cases hf : f.isKey with
      | true =>
        cases key with
        | none => rfl
        | some first => simp [hkey rfl f (List.mem_cons_self ..)] at hf
      | false => rfl
    obtain ⟨schema, hschema⟩ := ih (accepted_tail h) hnext
    rw [hfirst]
    cases hmarker : f.marker? with
    | none =>
      have hf : f.isKey = false := by simp [NamedField.isKey, hmarker]
      refine ⟨schema, fun rest => ?_⟩
      rw [List.map_cons, List.cons_append, ofMembers_unmarked hmarker, ← hschema, hf]
      rfl
    | some marker =>
      have htype := h.types f (List.mem_cons_self ..) (by rw [hmarker]; rfl)
      obtain ⟨field, hfield⟩ := htype.ofMember marker
      refine ⟨field :: schema, fun rest => ?_⟩
      rw [List.map_cons, List.cons_append, ofMembers_marked hmarker hfield
        (fun hsome => hkey hsome f (List.mem_cons_self ..)), hschema]
      cases Schema.ofMembers model _ rest <;> rfl

theorem ofMembers_of_accepted (h : Accepted model before) :
    ∃ schema, Schema.ofMembers model none (before.map NamedField.member) = .ok schema := by
  have hkey : (none : Option String).isSome → ∀ f ∈ before, f.isKey = false := nofun
  obtain ⟨schema, hschema⟩ := ofMembers_append h hkey
  refine ⟨schema ++ [], ?_⟩
  rw [← List.append_nil (before.map NamedField.member), hschema, Schema.ofMembers]
  rfl

/-- The first field that fails decides with what error the fields are refused. -/
theorem ofMembers_of_fails {e : ExpansionError} (h : Accepted model before)
    (hmarked : f.marker?.isSome) (hf : f.Fails model (firstKey before) e)
    (after : List NamedField) :
    Schema.ofMembers model none ((before ++ f :: after).map NamedField.member) = .error e := by
  obtain ⟨marker, hmarker⟩ := Option.isSome_iff_exists.mp hmarked
  have hkey : (none : Option String).isSome → ∀ f ∈ before, f.isKey = false := nofun
  obtain ⟨schema, hschema⟩ := ofMembers_append h hkey
  have hmember : f.member.marker = some marker := hmarker
  have hhead : Schema.ofMembers model (firstKey before)
      (f.member :: after.map NamedField.member) = .error e := by
    cases hf with
    | @through path hpath =>
      have hname : SelfType.name model f.member.type = .error path := by
        rw [NamedField.member, name_eq, verdict, hpath]
      simp only [Schema.ofMembers, hmember, PersistedField.ofMember, hname]
      rfl
    | signature hdirect hsignature =>
      have hname : SelfType.name model f.member.type = .ok (rename model f.type) := by
        rw [NamedField.member, name_eq, verdict_of_none hdirect]
      have hresolve : Signature.resolve f.member.name (rename model f.type) = .error e := hsignature
      simp only [Schema.ofMembers, hmember, PersistedField.ofMember, hname, hresolve]
      rfl
    | secondKey htype hkey hfirst =>
      obtain ⟨field, hfield⟩ := htype.ofMember marker
      have hprimary : marker.primaryKey = true := by
        simpa [NamedField.isKey, hmarker] using hkey
      simp only [Schema.ofMembers, hmember, hfield, hfirst, hprimary]
      rfl
  rw [List.map_append, List.map_cons, hschema, Option.none_or, hhead]
  rfl

/-- A field after accepted ones fails or is accepted with them. -/
theorem accepted_or_fails (h : Accepted model before) (f : NamedField) :
    Accepted model (before ++ [f]) ∨
      f.marker?.isSome ∧ ∃ e, f.Fails model (firstKey before) e := by
  cases hmarker : f.marker? with
  | none =>
    have hf : f.isKey = false := by simp [NamedField.isKey, hmarker]
    refine .inl ⟨fun g hg hmarked => ?_, by simpa [List.filter_append, hf] using h.keys⟩
    rcases List.mem_append.mp hg with hg | hg
    · exact h.types g hg hmarked
    · rw [List.mem_singleton.mp hg, hmarker] at hmarked
      cases hmarked
  | some marker =>
    cases hpath : firstThrough (uses f.type) with
    | some path => exact .inr ⟨rfl, _, .through hpath⟩
    | none =>
      cases hresolve : Signature.resolve f.name (rename model f.type) with
      | error e => exact .inr ⟨rfl, e, .signature hpath hresolve⟩
      | ok s =>
        have htype : f.HasSignature model := ⟨hpath, s, hresolve⟩
        have htypes : ∀ g ∈ before ++ [f], g.marker?.isSome → g.HasSignature model := by
          intro g hg hmarked
          rcases List.mem_append.mp hg with hg | hg
          · exact h.types g hg hmarked
          · rwa [List.mem_singleton.mp hg]
        cases hkey : f.isKey with
        | false => exact .inl ⟨htypes, by simpa [List.filter_append, hkey] using h.keys⟩
        | true =>
          cases hfirst : firstKey before with
          | some first => exact .inr ⟨rfl, _, .secondKey htype hkey rfl⟩
          | none =>
            have hnone : before.filter NamedField.isKey = [] := by
              simpa [List.filter_eq_nil_iff] using firstKey_eq_none_iff.mp hfirst
            exact .inl ⟨htypes, by simp [List.filter_append, hnone, hkey]⟩

/-- Among fields that are not accepted there is a first that fails. -/
theorem accepted_or_first (model : String) (fields : List NamedField) :
    Accepted model fields ∨ ∃ before f after e, fields = before ++ f :: after ∧
      Accepted model before ∧ f.marker?.isSome ∧ f.Fails model (firstKey before) e := by
  induction fields using List.reverseRecOn with
  | nil => exact .inl ⟨fun f hf => absurd hf List.not_mem_nil, Nat.zero_le 1⟩
  | append_singleton fields f ih =>
    rcases ih with h | ⟨before, g, after, e, rfl, h, hmarked, hg⟩
    · rcases accepted_or_fails h f with h' | ⟨hmarked, e, hf⟩
      · exact .inl h'
      · exact .inr ⟨fields, f, [], e, rfl, h, hmarked, hf⟩
    · refine .inr ⟨before, g, after ++ [f], e, ?_, h, hmarked, hg⟩
      rw [List.append_assoc, List.cons_append]

end

namespace Item

variable {i : Item} {e : ExpansionError}

theorem ofItem_of_isRead (h : ∀ f ∈ i.fields, f.IsRead) :
    Declaration.ofItem i =
      .ok ⟨i.name, i.visibility, i.isGeneric, i.shape, i.fields.map NamedField.member⟩ := by
  rw [Declaration.ofItem, Member.ofFields_of_isRead h]
  rfl

theorem model_of_expands (h : i.Expands) : ∃ result, Expansion.model i = .ok result := by
  obtain ⟨schema, hschema⟩ := ofMembers_of_accepted h.fields
  simp only [Expansion.model, ofItem_of_isRead h.markers, bind, Except.bind,
    Declaration.requireModel, h.shape, h.generics, Schema.ofDeclaration, hschema]
  exact ⟨_, rfl⟩

/-- An item is refused for the reason that comes first. -/
theorem model_of_refused (hfields : i.shape ≠ .struct → i.fields = []) (h : i.Refused e) :
    Expansion.model i = .error e := by
  cases h with
  | shape hshape =>
    have hread : ∀ f ∈ i.fields, f.IsRead := by simp [hfields hshape]
    simp only [Expansion.model, ofItem_of_isRead hread, bind, Except.bind,
      Declaration.requireModel, if_pos hshape]
  | @marker before after f errors hshape hsplit hbefore hf =>
    have hmembers := Member.ofFields_of_error hbefore hf after
    rw [← hsplit] at hmembers
    simp only [Expansion.model, Declaration.ofItem, hmembers]
    rfl
  | generics hshape hmarkers hgenerics =>
    simp only [Expansion.model, ofItem_of_isRead hmarkers, bind, Except.bind,
      Declaration.requireModel, hshape, hgenerics]
    rfl
  | @field before after f e hshape hmarkers hgenerics hsplit hbefore hmarked hf =>
    have hschema := ofMembers_of_fails hbefore hmarked hf after
    rw [← hsplit] at hschema
    simp only [Expansion.model, ofItem_of_isRead hmarkers, bind, Except.bind,
      Declaration.requireModel, hshape, hgenerics, Schema.ofDeclaration, hschema]
    rfl

/-- Every item expands or is refused. -/
theorem expands_or_refused (i : Item) : i.Expands ∨ ∃ e, i.Refused e := by
  by_cases hshape : i.shape = .struct
  · rcases isRead_or_first i.fields with hmarkers | ⟨before, f, after, errors, hfields, hbefore, hf⟩
    · cases hgenerics : i.isGeneric with
      | true => exact .inr ⟨_, .generics hshape hmarkers hgenerics⟩
      | false =>
        rcases accepted_or_first i.name i.fields with
          haccepted | ⟨before, f, after, e, hfields, hbefore, hmarked, hf⟩
        · exact .inl ⟨hshape, hmarkers, hgenerics, haccepted⟩
        · exact .inr ⟨e, .field hshape hmarkers hgenerics hfields hbefore hmarked hf⟩
    · exact .inr ⟨_, .marker hshape hfields hbefore hf⟩
  · exact .inr ⟨_, .shape hshape⟩

theorem model_eq_ok_iff (hfields : i.shape ≠ .struct → i.fields = []) :
    (∃ result, Expansion.model i = .ok result) ↔ i.Expands := by
  refine ⟨fun ⟨result, h⟩ => ?_, model_of_expands⟩
  rcases i.expands_or_refused with hexpands | ⟨e, hrefused⟩
  · exact hexpands
  · rw [model_of_refused hfields hrefused] at h
    cases h

/-- An item makes no model just when it is refused, and with that reason. -/
theorem model_eq_error_iff (hfields : i.shape ≠ .struct → i.fields = []) :
    Expansion.model i = .error e ↔ i.Refused e := by
  refine ⟨fun h => ?_, model_of_refused hfields⟩
  rcases i.expands_or_refused with hexpands | ⟨e', hrefused⟩
  · obtain ⟨result, hresult⟩ := model_of_expands hexpands
    rw [hresult] at h
    cases h
  · rw [model_of_refused hfields hrefused] at h
    cases h
    exact hrefused

/-- Items that expand, and in whose marked fields no path goes through `Self`, be it a type or
not. -/
structure ExpandsStrictly (i : Item) : Prop extends i.Expands where
  direct : ∀ f ∈ i.fields, f.marker?.isSome → ∀ u ∈ uses f.type, u.goesOn = false

/-- What expanding an item comes to: the expansion where nothing is wrong, and else what is wrong
first. Paths through `Self` that are no types go unnoticed. -/
structure Verdict (manifest : Option Manifest) (i : Item) : Prop where
  expands : (∃ tokens, Expansion.ofItem manifest i = .ok tokens) ↔ i.Expands
  refused : ∀ failure, Expansion.ofItem manifest i = .error failure ↔
    ∃ e, failure = .invalid e ∧ i.Refused e
  output : ∀ e, i.Refused e → Expansion.output manifest i = some e.diagnostic
  strictly : ((∃ tokens, Expansion.ofItem manifest i = .ok tokens) ↔ i.ExpandsStrictly) ↔
    ¬(i.Expands ∧ ∃ f ∈ i.fields, f.marker?.isSome ∧ ∃ segments, .beyond segments ∈ uses f.type)

/-- The stricter rule refuses the expressions that `Self` is used in, and nothing else. -/
theorem expandsStrictly_iff : i.ExpandsStrictly ↔ i.Expands ∧
    ¬∃ f ∈ i.fields, f.marker?.isSome ∧ ∃ segments, .beyond segments ∈ uses f.type := by
  constructor
  · rintro ⟨hexpands, hdirect⟩
    refine ⟨hexpands, fun ⟨f, hf, hmarked, segments, hu⟩ => ?_⟩
    cases hdirect f hf hmarked _ hu
  · rintro ⟨hexpands, hbeyond⟩
    refine ⟨hexpands, fun f hf hmarked u hu => ?_⟩
    have hnone := (hexpands.fields.types f hf hmarked).direct
    cases u with
    | through path =>
      have hpath := List.findSome?_eq_none_iff.mp hnone _ hu
      cases hpath
    | beyond segments => exact absurd ⟨f, hf, hmarked, segments, hu⟩ hbeyond
    | _ => rfl

variable {ts : List Token} {manifest : Option Manifest} {store : List Token}

theorem verdict_of_ofTokens (hi : ofTokens? ts = some i) (hstore : RuntimePath.resolve manifest = .ok store) :
    i.Verdict manifest := by
  have hfields := fields_eq_nil hi
  have hok : (∃ tokens, Expansion.ofItem manifest i = .ok tokens) ↔ i.Expands := by
    rw [← model_eq_ok_iff hfields]
    unfold Expansion.ofItem
    cases Expansion.model i <;> simp [hstore]
  have herror (failure : ExpansionFailure) : Expansion.ofItem manifest i = .error failure ↔
      ∃ e, failure = .invalid e ∧ i.Refused e := by
    simp only [← model_eq_error_iff hfields]
    unfold Expansion.ofItem
    cases Expansion.model i with
    | error e => simp [eq_comm]
    | ok result => simp [hstore]
  refine ⟨hok, herror, fun e he => ?_, ?_⟩
  · rw [Expansion.output, (herror (.invalid e)).mpr ⟨e, rfl, he⟩]
  · rw [hok, expandsStrictly_iff, iff_self_and, not_and]

def associatedLength : List Token := [
  .ident "struct", .ident "Node", .group .brace [
    .punct '#' false, .group .bracket [.ident "persisted"], .ident "id", .punct ':' false,
    .group .bracket [.ident "u8", .punct ';' false, .ident "Self", .punct ':' true,
      .punct ':' false, .ident "N"]]]

theorem verdict_associatedLength : ∃ i, ofTokens? associatedLength = some i ∧
    RuntimePath.resolve none = .ok (Token.operator "::" ++ [.ident "gencrud_store"]) ∧
      i.Verdict none := by
  have hread : (ofTokens? associatedLength).isSome = true := by decide +kernel
  obtain ⟨i, hi⟩ := Option.isSome_iff_exists.mp hread
  have hstore : RuntimePath.resolve none = .ok (Token.operator "::" ++ [.ident "gencrud_store"]) :=
    rfl
  exact ⟨i, hi, hstore, verdict_of_ofTokens hi hstore⟩

/-- A path through `Self` in the length of an array is no reason not to expand. -/
theorem not_expandsStrictly_associatedLength :
    ¬∀ ts i manifest store, ofTokens? ts = some i → RuntimePath.resolve manifest = .ok store →
      ((∃ tokens, Expansion.ofItem manifest i = .ok tokens) ↔ i.ExpandsStrictly) := by
  intro h
  have hread : (ofTokens? associatedLength).any (fun i =>
      (Expansion.ofItem none i).toOption.isSome && i.fields.any fun f =>
        f.marker?.isSome && (uses f.type).any SelfUse.goesOn) = true := by
    decide +kernel
  cases hi : ofTokens? associatedLength with
  | none =>
    rw [hi] at hread
    cases hread
  | some i =>
    rw [hi, Option.any_some, Bool.and_eq_true, List.any_eq_true] at hread
    obtain ⟨hexpands, f, hf, hgoesOn⟩ := hread
    rw [Bool.and_eq_true, List.any_eq_true] at hgoesOn
    obtain ⟨hmarked, u, hu, hpath⟩ := hgoesOn
    have hok : ∃ tokens, Expansion.ofItem none i = .ok tokens := by
      cases hresult : Expansion.ofItem none i with
      | ok tokens => exact ⟨tokens, rfl⟩
      | error e =>
        rw [hresult] at hexpands
        cases hexpands
    have hstrict := ((h associatedLength i none _ hi rfl).mp hok).direct f hf hmarked u hu
    rw [hstrict] at hpath
    cases hpath

end Item

end RecordStore
