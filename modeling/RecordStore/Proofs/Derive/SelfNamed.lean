import RecordStore.Proofs.Derive.SelfSpelled
import RecordStore.Proofs.Derive.Verdict
import RecordStore.Proofs.Field.Reading

/-!
What of `Self` is left in a schema. The types of its entries mention `Self` just where some use of
it in the types as written is no type of its own, and the schema is that of the declaration with
every `Self` spelled as the name of the model just where there is no such use; then neither the
signatures nor the parameters of the generated methods mention it.
-/
namespace RecordStore

open SelfType Token

def TextAvoids (w text : String) : Prop := ∃ ts, text = Token.textOf ts ∧ anyMentions w ts = false

namespace Signature

mutual

/-- Whether a word is no name in a signature nor among the tokens in it. -/
def Avoids (w : String) : Signature → Prop
  | .path _ names arguments => (∀ n ∈ names, (n == w) = false) ∧ ArgumentsAvoid w arguments
  | .tuple items => ItemsAvoid w items
  | .array element length => Avoids w element ∧ TextAvoids w length
  | .slice element => Avoids w element

def ItemsAvoid (w : String) : List Signature → Prop
  | [] => True
  | s :: rest => Avoids w s ∧ ItemsAvoid w rest

def ArgumentsAvoid (w : String) : List SignatureArgument → Prop
  | [] => True
  | a :: rest => ArgumentAvoids w a ∧ ArgumentsAvoid w rest

def ArgumentAvoids (w : String) : SignatureArgument → Prop
  | .type s => Avoids w s
  | .const text => TextAvoids w text

end

variable {member : String}

theorem resolveArgument_type {t : TypeExpr} (h : t ≠ .infer) :
    resolveArgument member (.type t) = (resolve member t).map .type := by
  cases t with
  | infer => exact absurd rfl h
  | _ => rfl

theorem segmentNames_avoid (segments : List PathSegment)
    (h : (segmentTokens segments).any (anyMentions word) = false) :
    ∀ n ∈ segments.map segmentName, (n == word) = false := by
  induction segments with
  | nil => exact fun n hn => absurd hn List.not_mem_nil
  | cons s rest ih =>
    rw [segmentTokens, List.any_cons, Bool.or_eq_false_iff] at h
    refine List.forall_mem_cons.mpr ⟨?_, ih h.2⟩
    cases s with
    | plain n => simpa [PathSegment.tokens, anyMentions_singleton, mentions, segmentName] using h.1
    | generic n turbofish arguments trailing =>
      rw [anyMentions_generic, Bool.or_eq_false_iff] at h
      exact h.1.1

mutual

/-- The signature of a type avoids the words that its tokens do. -/
theorem avoids_of_resolve (t : TypeExpr) (s : Signature) (hs : resolve member t = .ok s)
    (h : anyMentions word t.tokens = false) : s.Avoids word := by
  cases t with
  | infer => cases hs
  | paren inner =>
    rw [TypeExpr.tokens, anyMentions_singleton, mentions] at h
    exact avoids_of_resolve inner s hs h
  | path isGlobal segments =>
    rw [TypeExpr.tokens, anyMentions_pathTokens] at h
    rw [resolve] at hs
    split at hs
    · cases hs
    · obtain ⟨arguments, harguments, rfl⟩ := Data.map_eq_ok.mp hs
      exact ⟨segmentNames_avoid segments h, avoid_of_resolveLast segments arguments harguments h⟩
  | tuple items trailing =>
    rw [TypeExpr.tokens, anyMentions_singleton, mentions, anyMentions_separated rfl] at h
    rw [resolve] at hs
    obtain ⟨signatures, hsignatures, rfl⟩ := Data.map_eq_ok.mp hs
    exact avoid_of_resolveItems items signatures hsignatures h
  | array element length =>
    rw [TypeExpr.tokens, anyMentions_singleton, mentions, anyMentions_append, anyMentions,
      Bool.or_eq_false_iff, Bool.or_eq_false_iff] at h
    rw [resolve] at hs
    obtain ⟨signature, hsignature, rfl⟩ := Data.map_eq_ok.mp hs
    exact ⟨avoids_of_resolve element signature hsignature h.1, _, rfl, h.2.2⟩
  | slice element =>
    rw [TypeExpr.tokens, anyMentions_singleton, mentions] at h
    rw [resolve] at hs
    obtain ⟨signature, hsignature, rfl⟩ := Data.map_eq_ok.mp hs
    exact avoids_of_resolve element signature hsignature h
  | bound isParenthesized fragments =>
    rw [resolve] at hs
    cases hs
  | other fragments =>
    rw [resolve] at hs
    cases hs

theorem avoid_of_resolveItems (ts : List TypeExpr) (ss : List Signature)
    (hs : resolveItems member ts = .ok ss)
    (h : (itemTokens ts).any (anyMentions word) = false) : ItemsAvoid word ss := by
  cases ts with
  | nil =>
    cases hs
    trivial
  | cons t rest =>
    rw [itemTokens, List.any_cons, Bool.or_eq_false_iff] at h
    obtain ⟨s, hs', hs⟩ := Data.bind_eq_ok.mp hs
    obtain ⟨ss', hss', hs⟩ := Data.bind_eq_ok.mp hs
    cases hs
    exact ⟨avoids_of_resolve t s hs' h.1, avoid_of_resolveItems rest ss' hss' h.2⟩

/-- A signature has no `Self` in it where the path has none. -/
theorem avoid_of_resolveLast (segments : List PathSegment) (ss : List SignatureArgument)
    (hs : resolveLast member segments = .ok ss)
    (h : (segmentTokens segments).any (anyMentions word) = false) : ArgumentsAvoid word ss := by
  match segments with
  | [] =>
    cases hs
    trivial
  | [.plain _] =>
    cases hs
    trivial
  | [.generic _ _ arguments _] =>
    rw [segmentTokens, List.any_cons, anyMentions_generic, Bool.or_eq_false_iff,
      Bool.or_eq_false_iff] at h
    exact avoid_of_resolveArguments arguments ss hs h.1.2
  | s :: s' :: rest =>
    rw [segmentTokens, List.any_cons, Bool.or_eq_false_iff] at h
    have hrest : resolveLast member (s' :: rest) = .ok ss := by
      cases s <;> exact hs
    exact avoid_of_resolveLast (s' :: rest) ss hrest h.2

theorem avoid_of_resolveArguments (arguments : List TypeArgument) (ss : List SignatureArgument)
    (hs : resolveArguments member arguments = .ok ss)
    (h : (argumentTokens arguments).any (fun a => anyMentions word a.2) = false) :
    ArgumentsAvoid word ss := by
  cases arguments with
  | nil =>
    cases hs
    trivial
  | cons a rest =>
    rw [argumentTokens, List.any_cons, Bool.or_eq_false_iff] at h
    obtain ⟨s, hs', hs⟩ := Data.bind_eq_ok.mp hs
    obtain ⟨ss', hss', hs⟩ := Data.bind_eq_ok.mp hs
    cases hs
    exact ⟨avoids_of_resolveArgument a s hs' h.1, avoid_of_resolveArguments rest ss' hss' h.2⟩

theorem avoids_of_resolveArgument (a : TypeArgument) (s : SignatureArgument)
    (hs : resolveArgument member a = .ok s) (h : anyMentions word a.tokens.2 = false) :
    ArgumentAvoids word s := by
  match a with
  | .type t =>
    rw [TypeArgument.tokens] at h
    by_cases ht : t = .infer
    · subst ht
      cases hs
    · rw [resolveArgument_type ht] at hs
      obtain ⟨signature, hsignature, rfl⟩ := Data.map_eq_ok.mp hs
      exact avoids_of_resolve t signature hsignature h
  | .literal ts =>
    rw [TypeArgument.tokens] at h
    cases hs
    exact ⟨ts, rfl, h⟩
  | .lifetime n => cases hs
  | .other fragments => cases hs

end

end Signature

/-- A member whose type has `Self` spelled as the name of the model, if it is persisted. -/
def Member.spelled (model : String) (m : Member) : Member :=
  if m.isPersisted then { m with type := spell model m.type } else m

namespace Declaration

/-- The declaration with every `Self` in the type of a persisted field spelled as its name. -/
def spelled (d : Declaration) : Declaration :=
  { d with members := d.members.map (Member.spelled d.name) }

/-- Whether `Self` is used in the types of persisted fields only as a type of its own. -/
def AllNamed (d : Declaration) : Prop :=
  ∀ m ∈ d.members, m.isPersisted → SelfType.AllNamed (uses m.type)

end Declaration

variable {model : String} {key : Option String} {members : List Member}
  {schema : List PersistedField}

/-- What the entry of a persisted member says of it: its name without a raw marker, and its type
with `Self` named. -/
structure PersistedField.Describes (model : String) (m : Member) (f : PersistedField) : Prop where
  ident : f.ident = m.name
  name : f.name = unraw m.name
  type : f.type = rename model m.type
  signature : Signature.resolve m.name f.type = .ok f.signature

/-- The schema of a field describes the field. -/
theorem describes_of_ofMember {m : Member} {marker : Marker} {field : PersistedField}
    (h : PersistedField.ofMember model m marker = .ok field) : field.Describes model m := by
  unfold PersistedField.ofMember at h
  rw [name_eq, verdict] at h
  cases hpath : firstThrough (uses m.type) with
  | some path =>
    rw [hpath] at h
    cases h
  | none =>
    rw [hpath] at h
    obtain ⟨signature, hsignature, h⟩ := Data.bind_eq_ok.mp h
    cases h
    exact ⟨rfl, rfl, rfl, hsignature⟩

/-- Every entry comes from a persisted member. -/
theorem forall₂_of_ofMembers (h : Schema.ofMembers model key members = .ok schema) :
    List.Forall₂ (fun m f => f.Describes model m) (members.filter Member.isPersisted) schema := by
  induction members generalizing key schema with
  | nil =>
    cases h
    exact .nil
  | cons m rest ih =>
    cases hmarker : m.marker with
    | none =>
      have hm : m.isPersisted = false := by simp [Member.isPersisted, hmarker]
      simp only [Schema.ofMembers, hmarker] at h
      rw [List.filter_cons, hm]
      exact ih h
    | some marker =>
      have hm : m.isPersisted = true := by simp [Member.isPersisted, hmarker]
      simp only [Schema.ofMembers, hmarker] at h
      obtain ⟨field, hfield, h⟩ := Data.bind_eq_ok.mp h
      rw [List.filter_cons, hm]
      split at h
      · cases h
      · obtain ⟨schema', hschema', h⟩ := Data.bind_eq_ok.mp h
        cases h
        exact .cons (describes_of_ofMember hfield) (ih hschema')

/-- Lists whose items correspond have the properties that correspond. -/
theorem forall_mem_iff_of_forall₂ {α β : Type} {R : α → β → Prop} {P : α → Prop} {Q : β → Prop}
    {as : List α} {bs : List β} (h : List.Forall₂ R as bs) (hR : ∀ a b, R a b → (P a ↔ Q b)) :
    (∀ a ∈ as, P a) ↔ ∀ b ∈ bs, Q b := by
  induction h with
  | nil => simp
  | cons hhead _ ih => rw [List.forall_mem_cons, List.forall_mem_cons, hR _ _ hhead, ih]

variable {ts : List Token} {i : Item} {d : Declaration}

theorem eq_ok_of_toOption {ε α : Type} {e : Except ε α} {a : α} (h : e.toOption = some a) :
    e = .ok a := by
  cases e with
  | error => cases h
  | ok => exact congrArg _ (Option.some.inj h)

end RecordStore
