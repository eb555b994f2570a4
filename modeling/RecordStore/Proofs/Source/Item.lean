import RecordStore.Source.Item

/-!
What can be said of a declaration that was read. Its name is no reserved word, only a struct with
named fields lists fields, and a field is called by no reserved word but the underscore.
-/
namespace RecordStore

namespace Reader

variable {α β : Type}

def Yields (P : α → Prop) (x : Reader α) : Prop :=
  ∀ input a input', x input = .ok (a, input') → P a

theorem Yields.bind {Q : α → Prop} {P : β → Prop} {x : Reader α} {f : α → Reader β}
    (hx : Yields Q x) (hf : ∀ a, Q a → Yields P (f a)) : Yields P (x >>= f) := by
  intro input b input'' h
  simp only [Bind.bind, StateT.bind] at h
  cases hxa : x input with
  | error e => rw [hxa] at h; cases h
  | ok result =>
    obtain ⟨a, input'⟩ := result
    rw [hxa] at h
    exact hf a (hx input a input' hxa) input' b input'' h

/-- Where nothing matters of what was read first. -/
theorem Yields.after {P : β → Prop} {x : Reader α} {f : α → Reader β}
    (hf : ∀ a, Yields P (f a)) : Yields P (x >>= f) :=
  .bind (Q := fun _ => True) (fun _ _ _ _ => trivial) fun a _ => hf a

theorem Yields.pure {P : α → Prop} {a : α} (h : P a) : Yields P (Pure.pure a) := by
  intro input b input' hb
  obtain ⟨rfl, -⟩ := Prod.mk.inj (Except.ok.inj hb)
  exact h

theorem Yields.ite {P : α → Prop} {c : Prop} [Decidable c] {x y : Reader α} (hx : Yields P x)
    (hy : Yields P y) : Yields P (if c then x else y) := by
  split
  · exact hx
  · exact hy

theorem Yields.expected {P : α → Prop} (names : List String) :
    Yields P (Reader.expected names) := by
  intro input a input' h
  unfold Reader.expected Reader.fail at h
  split at h <;> cases h

/-- Nothing comes after a failure. -/
theorem Yields.afterExpected {P : β → Prop} (names : List String) {f : α → Reader β} :
    Yields P (Reader.expected names >>= f) :=
  .bind (Q := fun _ => False) (.expected names) fun _ h => h.elim

theorem Yields.refuse {P : α → Prop} (message : String) : Yields P (Reader.refuse message) := by
  intro input a input' h
  cases h

/-- Content in brackets is read as it would be without them. -/
theorem Yields.inGroup {P : α → Prop} (d : Delimiter) {x : Reader α} (hx : Yields P x) :
    Yields P (Reader.inGroup d x) := by
  unfold Reader.inGroup
  exact .after fun _ => .after fun _ => .after fun _ => .bind hx fun _ ha =>
    .after fun _ => .after fun _ => .pure ha

/-- What each of some items has, all of them have. -/
theorem Yields.separatedUntil {P : α → Prop} {isEnd : List Token → Bool} {separator : String}
    {item : Reader α} (hitem : Yields P item) (n : Nat) :
    Yields (fun items : List α × Bool => ∀ a ∈ items.1, P a)
      (Reader.separatedUntil isEnd separator item n) := by
  induction n with
  | zero => exact .refuse _
  | succ n ih =>
    unfold Reader.separatedUntil
    refine .after fun isEnd => .ite (.pure fun a ha => absurd ha List.not_mem_nil) ?_
    refine .bind hitem fun x hx => .after fun isEnd => .ite (.pure ?_) ?_
    · exact List.forall_mem_singleton.mpr hx
    · refine .after fun _ => .bind ih fun rest hrest => .pure ?_
      exact List.forall_mem_cons.mpr ⟨hx, hrest⟩

/-- An identifier is no reserved word. -/
theorem yields_ident : Yields (· ∉ reserved) ident := by
  intro input s input' h
  unfold ident fail at h
  split at h
  · split at h
    · cases h
    · next hs =>
      cases h
      simpa using hs
  · cases h

/-- Where one word stands for a name although it is no identifier. -/
theorem Yields.ofName {P : β → Prop} {w : String} {f : Bool → String → Reader β}
    (hf : ∀ isWord s, s = w ∨ s ∉ reserved → Yields P (f isWord s)) :
    Yields P (next (isWord w) >>= fun isWord =>
      if isWord = true then anyIdent >>= f isWord else ident >>= f isWord) := by
  intro input b input' h
  change (if isWord w input.tokens = true then anyIdent >>= f _ else ident >>= f _) input = _ at h
  split at h
  · next hw =>
    have htokens : ∃ rest, input.tokens = .ident w :: rest := by
      unfold isWord at hw
      split at hw
      · next s rest heq => exact ⟨rest, heq.trans (by rw [eq_of_beq hw])⟩
      · cases hw
    obtain ⟨rest, htokens⟩ := htokens
    have hread : anyIdent input = .ok (w, { input with tokens := rest }) := by
      rw [anyIdent, htokens]
    simp only [Bind.bind, StateT.bind, hread] at h
    exact hf _ w (.inl rfl) _ b input' h
  · exact Yields.bind yields_ident (fun s hs => hf _ s (.inr hs)) input b input' h

end Reader

open Reader

/-- What fields a declaration of a shape may list. -/
structure ItemShape.Lists (shape : ItemShape) (fields : List NamedField) : Prop where
  onlyStruct : shape ≠ .struct → fields = []
  names : ∀ f ∈ fields, f.name = "_" ∨ f.name ∉ reserved

/-- Any declaration may list no fields. -/
theorem ItemShape.Lists.nil {shape : ItemShape} : shape.Lists [] :=
  ⟨fun _ => rfl, fun _ hf => absurd hf List.not_mem_nil⟩

namespace DataTypeReader

/-- The name of a field is no reserved word but the one that stands for none. -/
theorem yields_namedField (r : Readers) (n : Nat) :
    Yields (fun f => f.name = "_" ∨ f.name ∉ reserved) (namedField r n) := by
  cases n with
  | zero => exact .refuse _
  | succ n =>
    unfold namedField
    refine .after fun _ => .after fun _ => .ofName fun isUnnamed name hname => ?_
    refine .after fun _ => .after fun holdsFields => .ite ?_ ?_
    · exact .after fun _ => .pure hname
    · exact .after fun _ => .pure hname

/-- The body of a struct lists fields only where they have names. -/
theorem yields_structBody (r : Readers) :
    Yields (fun d : ItemShape × List NamedField × List Fragment => d.1.Lists d.2.1)
      (structBody r) := by
  unfold structBody
  refine .after fun clause => .after fun isTuple => .ite (.after fun _ => .after fun _ =>
    .after fun isEnd => .ite (.after fun _ => .pure .nil) (.afterExpected _)) ?_
  refine .after fun isBrace => .ite ?_ ?_
  · refine .bind (.inGroup _ (.separatedUntil (yields_namedField r r.fuel) r.fuel)) ?_
    exact fun fields hfields => .pure ⟨fun h => absurd rfl h, hfields⟩
  · exact .after fun isUnit => .ite (.after fun _ => .pure .nil) (.expected _)

theorem yields_dataType (r : Readers) :
    Yields (fun d => d.name ∉ reserved ∧ d.shape.Lists d.fields) (dataType r) := by
  unfold dataType
  refine .after fun isItem => .ite (.afterExpected _) ?_
  refine .after fun kind => .bind yields_ident fun name hname => .after fun generics => .ite ?_ ?_
  · refine .bind (yields_structBody r) fun body hbody => ?_
    exact .pure ⟨hname, hbody⟩
  · refine .after fun clause => .ite (.after fun _ => ?_) (.after fun _ => ?_)
    · exact .pure ⟨hname, .nil⟩
    · exact .pure ⟨hname, .nil⟩

end DataTypeReader

namespace Item

theorem yields_read (r : Readers) :
    Yields (fun i : Item => i.name ∉ reserved ∧ i.shape.Lists i.fields) (read r) :=
  .after fun _ => .after fun _ => .bind (DataTypeReader.yields_dataType r) fun _ hd => .pure hd

variable {ts : List Token} {i : Item}

theorem read_of_ofTokens (h : ofTokens? ts = some i) :
    ∃ input, read (Readers.suffice ts) ⟨ts, none⟩ = .ok (i, input) := by
  unfold ofTokens? whole at h
  split at h
  · cases h
  · next j input hread =>
    split at h
    · cases h
    · split at h
      · cases h
        exact ⟨input, hread⟩
      · cases h

/-- The fields of a declaration are those of a struct. -/
theorem fields_eq_nil (h : ofTokens? ts = some i) (hshape : i.shape ≠ .struct) : i.fields = [] := by
  obtain ⟨input, hread⟩ := read_of_ofTokens h
  exact (yields_read _ _ i input hread).2.onlyStruct hshape

/-- A field is called by no reserved word but the underscore. -/
theorem field_name (h : ofTokens? ts = some i) :
    ∀ f ∈ i.fields, f.name = "_" ∨ f.name ∉ reserved := by
  obtain ⟨input, hread⟩ := read_of_ofTokens h
  exact (yields_read _ _ i input hread).2.names

end Item

end RecordStore
