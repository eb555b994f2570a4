import RecordStore.Proofs.Derive.SelfNamed

/-!
What the generated methods use of their surroundings. The body of a method means its parameters by
their names, so a name that it binds must not hide one of them where it is used; raw or not, names
are the same. The methods of a model use just their parameters unless two of its fields are called
as the parameter for a record may be, or a field as something that a method binds.
-/
namespace RecordStore

open Token

namespace Code

def outside (name : String) (used : List String) : List String := used.filter (· ≠ unraw name)

mutual

/-- The names that a term uses without binding them; what a method is called on is none. -/
def Term.free : Term → List String
  | .name s => if s = "self" then [] else [unraw s]
  | .path _ | .text _ | .truth _ | .unit => []
  | .field t _ | .await t | .propagate t | .borrow t | .borrowMut t => t.free
  | .call f arguments _ => f.free ++ freeInTerms arguments
  | .method t _ _ arguments _ => t.free ++ freeInTerms arguments
  | .array items => freeInTerms items
  | .record _ fields => freeInFields fields
  | .closure p body => outside p body.free
  | .block body result =>
    freeInStatements body
      (match result with
       | some t => t.free
       | none => [])

def freeInTerms : List Term → List String
  | [] => []
  | t :: rest => t.free ++ freeInTerms rest

def freeInFields : List (String × Term) → List String
  | [] => []
  | (_, t) :: rest => t.free ++ freeInFields rest

/-- The names used by a statement and by what comes after it, which uses the given ones. A name is
bound in all that comes after, or only where a value is present. -/
def Statement.free : Statement → List String → List String
  | .bind _ name value, after => value.free ++ outside name after
  | .evaluate t, after => t.free ++ after
  | .assign target value, after => target.free ++ value.free ++ after
  | .whenSome name value body, after =>
    value.free ++ outside name (freeInStatements body []) ++ after

def freeInStatements : List Statement → List String → List String
  | [], after => after
  | s :: rest, after => s.free (freeInStatements rest after)

end

namespace Method

def parameterNames (m : Method) : List String := m.parameters.map fun p => unraw p.name

def free (m : Method) : List String := (Term.block m.body m.value).free

/-- Whether the parameters of a method are different and its body uses each of them once, in order,
and nothing else that it does not bind: nothing it binds hides a parameter where it is used. -/
structure Hygienic (m : Method) : Prop where
  distinct : m.parameterNames.Nodup
  free : m.free = m.parameterNames

theorem hygienic_iff (m : Method) :
    m.Hygienic ↔ m.parameterNames.Nodup ∧ m.free = m.parameterNames :=
  ⟨fun h => ⟨h.distinct, h.free⟩, fun h => ⟨h.1, h.2⟩⟩

end Method

variable {name s : String} {used used' : List String}

@[simp]
theorem outside_nil : outside name [] = [] := rfl

@[simp]
theorem outside_cons : outside name (s :: used) =
    if s = unraw name then outside name used else s :: outside name used := by
  by_cases h : s = unraw name <;> simp [outside, h]

@[simp]
theorem outside_append : outside name (used ++ used') = outside name used ++ outside name used' :=
  List.filter_append ..

theorem outside_eq_self : outside name used = used ↔ unraw name ∉ used := by
  simp only [outside, List.filter_eq_self, decide_eq_true_eq]
  exact ⟨fun h hmem => h _ hmem rfl, fun h s hs heq => h (heq ▸ hs)⟩

theorem outside_sublist (name : String) (used : List String) : (outside name used).Sublist used :=
  List.filter_sublist

/-- Where several names are bound, nothing is lost just where none of them is used. -/
theorem outside_eq_iff (h : used'.Sublist used) :
    outside name used' = used ↔ unraw name ∉ used ∧ used' = used := by
  constructor
  · intro heq
    have hsame : used' = used := h.antisymm (heq ▸ outside_sublist name used')
    rw [hsame] at heq
    exact ⟨outside_eq_self.mp heq, hsame⟩
  · rintro ⟨hname, rfl⟩
    exact outside_eq_self.mpr hname

theorem free_name (h : s ≠ "self") : (Term.name s).free = [unraw s] := by
  rw [Term.free, if_neg h]

theorem freeInTerms_names {idents : List String} (h : ∀ s ∈ idents, s ≠ "self") :
    freeInTerms (idents.map .name) = idents.map unraw := by
  induction idents with
  | nil => rfl
  | cons s rest ih =>
    obtain ⟨hs, hrest⟩ := List.forall_mem_cons.mp h
    rw [List.map_cons, freeInTerms, free_name hs, ih hrest]
    rfl

/-- Statements that use, besides what is bound around them, some name each. -/
theorem outside_freeInStatements_map {α : Type} {g : α → Statement} {xs : List α}
    (u : α → List String)
    (h : ∀ x ∈ xs, ∀ after, outside name ((g x).free after) = outside name (u x ++ after))
    (after : List String) : outside name (freeInStatements (xs.map g) after) =
      outside name (xs.flatMap u) ++ outside name after := by
  induction xs with
  | nil => rfl
  | cons x rest ih =>
    obtain ⟨hx, hrest⟩ := List.forall_mem_cons.mp h
    rw [List.map_cons, freeInStatements, hx, outside_append, ih hrest, List.flatMap_cons,
      outside_append, List.append_assoc]

end Code

open Code

namespace ModelContext

def names (c : ModelContext) : List String := c.schema.map PersistedField.name

/-- What the generated methods bind where they still use a parameter for each field. -/
def helperNames : List String :=
  ["__gencrud_actor", "__gencrud_values", "__gencrud_reference", "__gencrud_txn",
    "__gencrud_record"]

/-- Whether the methods of every operation are hygienic, and the parameter for a record is called
as no persisted field is. -/
structure Hygienic (c : ModelContext) : Prop where
  member : ∀ op, (c.memberMethod op).Hygienic
  actor : ∀ op, (c.actorMethod op).Hygienic
  record : c.freeName "object" ∉ c.names

/-- Whether the persisted fields are stored under their own names, which are different and none of
which is what a method is called on. -/
structure Plain (c : ModelContext) : Prop where
  entries : ∀ f ∈ c.schema, f.name = unraw f.ident ∧ f.ident ≠ "self"
  distinct : c.names.Nodup

variable {c : ModelContext}

namespace Plain

theorem map_ident (hc : c.Plain) : (c.schema.map fun f => unraw f.ident) = c.names :=
  List.map_congr_left fun f hf => ((hc.entries f hf).1).symm

theorem map_idents (hc : c.Plain) : c.idents.map unraw = c.names := by
  rw [idents, List.map_map]
  exact hc.map_ident

theorem ident_ne (hc : c.Plain) : ∀ s ∈ c.idents, s ≠ "self" :=
  List.forall_mem_map.mpr fun f hf => (hc.entries f hf).2

theorem freeInTerms_arguments (hc : c.Plain) : freeInTerms c.arguments = c.names := by
  rw [arguments, freeInTerms_names hc.ident_ne, hc.map_idents]

theorem parameterNames (hc : c.Plain) :
    (c.parameters.map fun p => unraw p.name) = c.names := by
  rw [parameters, List.map_map]
  exact hc.map_ident

theorem optionalParameterNames (hc : c.Plain) :
    (c.optionalParameters.map fun p => unraw p.name) = c.names := by
  rw [optionalParameters, List.map_map]
  exact hc.map_ident

end Plain

/-- What the generated code binds has no raw marker. -/
@[simp]
theorem unraw_helpers : unraw "__gencrud_actor" = "__gencrud_actor" ∧
    unraw "__gencrud_values" = "__gencrud_values" ∧
    unraw "__gencrud_reference" = "__gencrud_reference" ∧
    unraw "__gencrud_txn" = "__gencrud_txn" ∧ unraw "__gencrud_record" = "__gencrud_record" ∧
    unraw "__gencrud_value" = "__gencrud_value" ∧ unraw "context" = "context" := by
  decide

/-- The parameter for a record is called as a field is just where fields are called as both. -/
theorem freeName_mem_names (base : String) :
    c.freeName base ∈ c.names ↔ base ∈ c.names ∧ "__gencrud_" ++ base ∈ c.names := by
  have hany : (c.schema.any fun f => f.name == base) = true ↔ base ∈ c.names := by
    simp [names, List.any_eq_true]
  unfold freeName
  by_cases h : base ∈ c.names
  · rw [if_pos (hany.mpr h), and_iff_right h]
  · rw [if_neg (mt hany.mp h)]
    simp [h]

@[simp]
theorem freeName_object : unraw (c.freeName "object") = c.freeName "object" ∧
    c.freeName "object" ≠ "self" := by
  unfold freeName
  split <;> decide

section

attribute [local simp] Method.free Method.parameterNames Term.free Statement.free freeInStatements
  freeInTerms memberMethod actorMethod forward openActor write inner transaction bindReference
  reference encoded ok contextParameter

namespace Plain

variable (hc : c.Plain)
include hc

theorem free_memberCreate :
    (c.memberMethod .create).free = outside "__gencrud_actor" c.names := by
  simp [hc.freeInTerms_arguments]

/-- The record that comes back is bound after the last use of a parameter. -/
theorem free_memberUpdate :
    (c.memberMethod .update).free = outside "__gencrud_actor" c.names := by
  have hnone : (c.idents.flatMap fun _ => ([] : List String)) = [] :=
    List.flatMap_eq_nil_iff.mpr fun _ _ => rfl
  simp only [Method.free, memberMethod, openActor, forward, Term.free, Statement.free,
    freeInStatements, freeInTerms, hc.freeInTerms_arguments]
  -- What is swapped belongs to the two records, which no parameter is.
  rw [outside_freeInStatements_map fun _ => [], hnone]
  · simp
  · intro s _ after
    simp

/-- What a value is called where it is present is bound where no parameter is used. -/
theorem free_actorUpdate :
    (c.actorMethod .update).free = c.freeName "object" :: outside "__gencrud_reference"
      (outside "__gencrud_txn" (outside "__gencrud_record" c.names)) := by
  simp only [Method.free, actorMethod, write, Term.free, freeInTerms, freeInStatements]
  rw [outside_freeInStatements_map fun s => [unraw s], ← List.map_eq_flatMap, hc.map_idents]
  · simp
  · intro s hs after
    simp [hc.ident_ne s hs]

theorem free_actorCreate :
    (c.actorMethod .create).free = outside "__gencrud_values" c.names := by
  simp only [Method.free, actorMethod, collectValues, Term.free, Statement.free, freeInStatements,
    freeInTerms]
  rw [outside_freeInStatements_map fun f => [f.name], ← List.map_eq_flatMap, ← names]
  · simp
  · intro f hf after
    simp [hc.entries f hf]

end Plain

/-- A field that is called as the collection is hidden by it, and would have it stored. -/
example : ((ModelContext.mk "Note" [] [⟨"__gencrud_values", "__gencrud_values", .tuple [] false,
    .tuple [], false, false⟩] [] []).actorMethod .create).free = [] := by
  decide

/-- A method without a parameter for each field is hygienic. -/
theorem hygienic_of_ne {op : Operation} (hcreate : op ≠ .create) (hupdate : op ≠ .update) :
    (c.memberMethod op).Hygienic ∧ (c.actorMethod op).Hygienic := by
  cases op with
  | create => exact absurd rfl hcreate
  | update => exact absurd rfl hupdate
  | delete | list | observe => exact ⟨⟨by simp, by simp⟩, ⟨by simp, by simp⟩⟩

end

namespace Plain

variable (hc : c.Plain)
include hc

theorem hygienic_memberCreate :
    (c.memberMethod .create).Hygienic ↔ "__gencrud_actor" ∉ c.names := by
  have hnames : (c.memberMethod .create).parameterNames = c.names := hc.parameterNames
  simp [Method.hygienic_iff, hnames, hc.distinct, hc.free_memberCreate, outside_eq_self]

theorem hygienic_memberUpdate :
    (c.memberMethod .update).Hygienic ↔ "__gencrud_actor" ∉ c.names := by
  have hnames : (c.memberMethod .update).parameterNames = c.names := hc.optionalParameterNames
  simp [Method.hygienic_iff, hnames, hc.distinct, hc.free_memberUpdate, outside_eq_self]

theorem hygienic_actorCreate :
    (c.actorMethod .create).Hygienic ↔ "__gencrud_values" ∉ c.names := by
  have hnames : (c.actorMethod .create).parameterNames = c.names := hc.parameterNames
  simp [Method.hygienic_iff, hnames, hc.distinct, hc.free_actorCreate, outside_eq_self]

/-- The update of an actor is hygienic just where no field has a name that it binds. -/
theorem hygienic_actorUpdate : (c.actorMethod .update).Hygienic ↔
    c.freeName "object" ∉ c.names ∧ "__gencrud_reference" ∉ c.names ∧
      "__gencrud_txn" ∉ c.names ∧ "__gencrud_record" ∉ c.names := by
  have hnames : (c.actorMethod .update).parameterNames = c.freeName "object" :: c.names := by
    rw [← hc.optionalParameterNames, ← freeName_object.1]
    rfl
  have hrecord := outside_sublist "__gencrud_record" c.names
  have htransaction := (outside_sublist "__gencrud_txn" _).trans hrecord
  simp [Method.hygienic_iff, hnames, hc.distinct, hc.free_actorUpdate, outside_eq_iff htransaction,
    outside_eq_iff hrecord, outside_eq_self]

/-- The generated methods are hygienic unless the parameter for a record has no name left, or a
field is called as something that is bound around a use of its parameter. -/
theorem hygienic_iff : c.Hygienic ↔ ¬("object" ∈ c.names ∧ "__gencrud_object" ∈ c.names) ∧
    ∀ name ∈ helperNames, name ∉ c.names := by
  have hrecord : c.freeName "object" ∉ c.names ↔
      ¬("object" ∈ c.names ∧ "__gencrud_object" ∈ c.names) := not_congr (freeName_mem_names _)
  constructor
  · intro h
    have hactor := hc.hygienic_memberCreate.mp (h.member .create)
    have hvalues := hc.hygienic_actorCreate.mp (h.actor .create)
    obtain ⟨-, hreference, htransaction, hbound⟩ := hc.hygienic_actorUpdate.mp (h.actor .update)
    exact ⟨hrecord.mp h.record, by simp [helperNames, *]⟩
  · rintro ⟨hobject, hhelpers⟩
    simp only [helperNames, List.forall_mem_cons] at hhelpers
    obtain ⟨hactor, hvalues, hreference, htransaction, hbound, -⟩ := hhelpers
    refine ⟨fun op => ?_, fun op => ?_, hrecord.mpr hobject⟩
    · cases op with
      | create => exact hc.hygienic_memberCreate.mpr hactor
      | update => exact hc.hygienic_memberUpdate.mpr hactor
      | delete | list | observe => exact (hygienic_of_ne (by decide) (by decide)).1
    · cases op with
      | create => exact hc.hygienic_actorCreate.mpr hvalues
      | update =>
        exact hc.hygienic_actorUpdate.mpr
          ⟨hrecord.mpr hobject, hreference, htransaction, hbound⟩
      | delete | list | observe => exact (hygienic_of_ne (by decide) (by decide)).2

end Plain

end ModelContext

/-- Reading its marker leaves the name of a field. -/
theorem Member.map_name_of_ofFields {fields : List NamedField} {members : List Member}
    (h : Member.ofFields fields = .ok members) :
    members.map Member.name = fields.map NamedField.name := by
  induction fields generalizing members with
  | nil =>
    cases h
    rfl
  | cons f rest ih =>
    obtain ⟨m, hm, h⟩ := Data.bind_eq_ok.mp h
    obtain ⟨rest', hrest, h⟩ := Data.bind_eq_ok.mp h
    cases h
    have hname : m.name = f.name := by
      unfold Member.ofField at hm
      split at hm <;> cases hm
      rfl
    rw [List.map_cons, List.map_cons, hname, ih hrest]

variable {ts : List Token} {i : Item} {d : Declaration} {schema : List PersistedField}

theorem Expansion.model_eq_ok (h : Expansion.model i = .ok (d, schema)) :
    Declaration.ofItem i = .ok d ∧ Schema.ofDeclaration d = .ok schema := by
  obtain ⟨d', hd, h⟩ := Data.bind_eq_ok.mp h
  obtain ⟨-, -, h⟩ := Data.bind_eq_ok.mp h
  obtain ⟨schema', hschema, h⟩ := Data.bind_eq_ok.mp h
  cases h
  exact ⟨hd, hschema⟩

/-- A field that was read is not called as what a method is called on. -/
theorem Item.field_ne_self (hi : Item.ofTokens? ts = some i) : ∀ f ∈ i.fields, f.name ≠ "self" := by
  intro f hf hself
  rcases Item.field_name hi f hf with hname | hname
  · rw [hself] at hname
    exact absurd hname (by decide)
  · rw [hself] at hname
    exact absurd hname (by decide)

/-- What is generated for a declaration that was read stores its fields under their names. -/
theorem plain_of_ofTokens (hi : Item.ofTokens? ts = some i)
    (hmodel : Expansion.model i = .ok (d, schema))
    (hdistinct : (i.fields.map fun f => unraw f.name).Nodup) (store : List Token) :
    (ModelContext.ofDeclaration d schema store).Plain := by
  obtain ⟨hd, hschema⟩ := Expansion.model_eq_ok hmodel
  obtain ⟨members, hmembers, rfl⟩ := Data.map_eq_ok.mp hd
  have hnames := Member.map_name_of_ofFields hmembers
  have hentries := forall₂_of_ofMembers hschema
  constructor
  · refine (forall_mem_iff_of_forall₂ (P := fun m => m.name ≠ "self") hentries ?_).mp ?_
    · intro m f hf
      rw [hf.name, hf.ident, and_iff_right rfl]
    · intro m hm
      have hmem : m.name ∈ i.fields.map NamedField.name :=
        hnames ▸ List.mem_map_of_mem (List.mem_of_mem_filter hm)
      obtain ⟨f, hf, hname⟩ := List.mem_map.mp hmem
      exact hname ▸ Item.field_ne_self hi f hf
  · have hsame : (members.filter Member.isPersisted).map (fun m => unraw m.name) =
        schema.map PersistedField.name := by
      rw [← List.forall₂_eq_eq_eq, List.forall₂_map_left_iff, List.forall₂_map_right_iff]
      exact hentries.imp fun m f hf => hf.name.symm
    have hall : members.map (fun m => unraw m.name) = i.fields.map fun f => unraw f.name := by
      have := congrArg (List.map unraw) hnames
      rwa [List.map_map, List.map_map] at this
    have hsublist : ((members.filter Member.isPersisted).map fun m => unraw m.name).Sublist
        (members.map fun m => unraw m.name) := List.filter_sublist.map _
    change (schema.map PersistedField.name).Nodup
    rw [← hsame]
    exact (hall ▸ hdistinct).sublist hsublist

/-- For a struct whose fields have different names the generated methods are hygienic unless the
parameter for a record has no name left, or a persisted field is called as something that is bound
around a use of its parameter. -/
theorem hygienic_iff_of_ofTokens (hi : Item.ofTokens? ts = some i)
    (hmodel : Expansion.model i = .ok (d, schema))
    (hdistinct : (i.fields.map fun f => unraw f.name).Nodup) (store : List Token) :
    (ModelContext.ofDeclaration d schema store).Hygienic ↔
      ¬("object" ∈ schema.map PersistedField.name ∧
          "__gencrud_object" ∈ schema.map PersistedField.name) ∧
        ∀ name ∈ ModelContext.helperNames, name ∉ schema.map PersistedField.name :=
  (plain_of_ofTokens hi hmodel hdistinct store).hygienic_iff

def Expansion.modelOfTokens? (ts : List Token) :
    Option (Item × Declaration × List PersistedField) := do
  let i ← Item.ofTokens? ts
  return (i, ← (Expansion.model i).toOption)

theorem Expansion.modelOfTokens_eq_some (h : modelOfTokens? ts = some (i, d, schema)) :
    Item.ofTokens? ts = some i ∧ Expansion.model i = .ok (d, schema) := by
  obtain ⟨i', hi, h⟩ := Option.bind_eq_some_iff.mp h
  obtain ⟨result, hmodel, h⟩ := Option.bind_eq_some_iff.mp h
  cases h
  exact ⟨hi, eq_ok_of_toOption hmodel⟩

def linkOf (names : List String) : List Token := [
  .ident "struct", .ident "Link", .group .brace (names.flatMap fun name => [
    .punct '#' false, .group .bracket [.ident "persisted"], .ident name, .punct ':' false,
    .ident "String", .comma])]

/-- The names of the fields of a declaration, and those that the persisted ones are stored under. -/
def fieldNames (p : Item × Declaration × List PersistedField) : List String × List String :=
  (p.1.fields.map fun f => unraw f.name, p.2.2.map PersistedField.name)

/-- A field may be called as the parameter for a record would be. -/
theorem hygienic_object : ∃ i d schema, Item.ofTokens? (linkOf ["object"]) = some i ∧
    Expansion.model i = .ok (d, schema) ∧ (i.fields.map fun f => unraw f.name).Nodup ∧
      (ModelContext.ofDeclaration d schema []).Hygienic := by
  have hread : (Expansion.modelOfTokens? (linkOf ["object"])).map fieldNames =
      some (["object"], ["object"]) := by decide +kernel
  obtain ⟨⟨i, d, schema⟩, h, hnames⟩ := Option.map_eq_some_iff.mp hread
  obtain ⟨hi, hmodel⟩ := Expansion.modelOfTokens_eq_some h
  obtain ⟨hfields, hschema⟩ := Prod.mk.inj hnames
  have hdistinct : (i.fields.map fun f => unraw f.name).Nodup := hfields ▸ List.nodup_singleton _
  refine ⟨i, d, schema, hi, hmodel, hdistinct, ?_⟩
  refine (hygienic_iff_of_ofTokens hi hmodel hdistinct []).mpr ?_
  rw [hschema]
  decide

/-- The one other name for the parameter may be that of a field as well. -/
theorem not_hygienic_fallback : ¬∀ ts i d schema store, Item.ofTokens? ts = some i →
    Expansion.model i = .ok (d, schema) → (i.fields.map fun f => unraw f.name).Nodup →
      (ModelContext.ofDeclaration d schema store).Hygienic := by
  intro hall
  have hread : (Expansion.modelOfTokens? (linkOf ["object", "__gencrud_object"])).map fieldNames =
      some (["object", "__gencrud_object"], ["object", "__gencrud_object"]) := by decide +kernel
  obtain ⟨⟨i, d, schema⟩, h, hnames⟩ := Option.map_eq_some_iff.mp hread
  obtain ⟨hi, hmodel⟩ := Expansion.modelOfTokens_eq_some h
  obtain ⟨hfields, hschema⟩ := Prod.mk.inj hnames
  have hdistinct : (i.fields.map fun f => unraw f.name).Nodup := hfields ▸ by decide
  have hschema : (ModelContext.ofDeclaration d schema []).names =
      ["object", "__gencrud_object"] := hschema
  have hrecord := (hall _ i d schema [] hi hmodel hdistinct).record
  rw [ModelContext.freeName_mem_names, hschema] at hrecord
  exact hrecord (by decide)

end RecordStore
