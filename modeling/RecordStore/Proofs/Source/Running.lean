import RecordStore.Proofs.Source.Item
import RecordStore.Source.Grammar

/-!
Running readers: what has been read where a reader succeeds, and what it takes for one to succeed.
-/
namespace RecordStore

namespace Reader

variable {α β : Type}

theorem bind_eq_ok {x : Reader α} {f : α → Reader β} {input : Input} {out : β × Input} :
    (x >>= f) input = .ok out ↔
      ∃ a input', x input = .ok (a, input') ∧ f a input' = .ok out := by
  simp only [Bind.bind, StateT.bind]
  cases hx : x input with
  | error e => exact ⟨nofun, fun ⟨_, _, h, _⟩ => nomatch h⟩
  | ok result =>
    obtain ⟨a, input'⟩ := result
    exact ⟨fun h => ⟨a, input', rfl, h⟩, fun ⟨_, _, h, hf⟩ => by cases h; exact hf⟩

theorem next_bind (test : List Token → Bool) (f : Bool → Reader β) (input : Input) :
    (next test >>= f) input = f (test input.tokens) input :=
  rfl

/-- Where what comes next decides what is read. -/
theorem next_cases {test : List Token → Bool} {x y : Reader α} {input : Input} {out : α × Input}
    (h : (next test >>= fun b => if b = true then x else y) input = .ok out) :
    test input.tokens = true ∧ x input = .ok out ∨
      test input.tokens = false ∧ y input = .ok out := by
  rw [next_bind] at h
  cases htest : test input.tokens with
  | true => exact .inl ⟨rfl, by rwa [htest, if_pos rfl] at h⟩
  | false => exact .inr ⟨rfl, by rwa [htest, if_neg Bool.false_ne_true] at h⟩

theorem mark_eq_ok {s : String} {input input' : Input} {fragments : List Fragment}
    (h : mark s input = .ok (fragments, input')) :
    startsWith s input.tokens = true ∧ fragments = Fragment.mark s ∧
      input'.tokens = input.tokens.drop s.length := by
  unfold mark at h
  obtain ⟨hstarts, h⟩ | ⟨-, h⟩ := next_cases h
  · cases h
    exact ⟨hstarts, rfl, rfl⟩
  · cases h

theorem mark?_cases {s : String} {input input' : Input} {fragments : List Fragment}
    (h : mark? s input = .ok (fragments, input')) :
    startsWith s input.tokens = true ∧ fragments = Fragment.mark s ∧
        input'.tokens = input.tokens.drop s.length ∨
      startsWith s input.tokens = false ∧ fragments = [] ∧ input' = input := by
  unfold mark? at h
  obtain ⟨hstarts, h⟩ | ⟨hstarts, h⟩ := next_cases h
  · exact .inl (mark_eq_ok h)
  · cases h
    exact .inr ⟨hstarts, rfl, rfl⟩

theorem anyIdent_eq_ok {input input' : Input} {name : String}
    (h : anyIdent input = .ok (name, input')) :
    ∃ rest, input.tokens = .ident name :: rest ∧ input' = { input with tokens := rest } := by
  unfold anyIdent at h
  split at h
  · next s rest htokens =>
    cases h
    exact ⟨rest, htokens, rfl⟩
  · unfold fail at h
    cases h

/-- A name is read from an identifier that is not reserved. -/
theorem ident_eq_ok {input input' : Input} {name : String}
    (h : ident input = .ok (name, input')) :
    ∃ rest, input.tokens = .ident name :: rest ∧ name ∉ reserved ∧
      input' = { input with tokens := rest } := by
  have hname := yields_ident _ _ _ h
  unfold ident at h
  split at h
  · next s rest htokens =>
    split at h
    · cases h
    · cases h
      exact ⟨rest, htokens, hname, rfl⟩
  · unfold fail at h
    cases h

inductive IsLiteral : List Token → Prop where
  | token (s : String) : IsLiteral [.literal s]
  | truth {s : String} (h : (s == "true" || s == "false") = true) : IsLiteral [.ident s]
  | negative {s : String} (h : Literal.isNumber s = true) :
    IsLiteral [.punct '-' false, .literal s]

theorem isLiteral_literalTokens {ts : List Token} (h : literalTokens ts ≠ []) :
    IsLiteral (literalTokens ts) := by
  revert h
  fun_cases literalTokens ts with
  | case1 s => exact fun _ => .token s
  | case2 s rest htruth => exact fun _ => .truth htruth
  | case4 joint s rest hnumber => exact fun _ => .negative hnumber
  | case3 | case5 | case6 => exact fun h => absurd rfl h

theorem literal_eq_ok {input input' : Input} {ts : List Token}
    (h : literal input = .ok (ts, input')) :
    IsLiteral ts ∧ input'.tokens = input.tokens.drop ts.length := by
  unfold literal at h
  obtain ⟨_, _, hget, h⟩ := bind_eq_ok.mp h
  cases hget
  cases hliteral : literalTokens input.tokens with
  | nil =>
    rw [hliteral] at h
    cases h
  | cons t rest =>
    rw [hliteral] at h
    cases h
    exact ⟨hliteral ▸ isLiteral_literalTokens (hliteral ▸ List.cons_ne_nil _ _), rfl⟩

theorem whole_eq_ok {α : Type} {x : Reader α} {ts : List Token} {a : α} :
    whole x ts = .ok a ↔ x ⟨ts, none⟩ = .ok (a, ⟨[], none⟩) := by
  unfold whole
  split
  · next h => simp [h]
  · next b input h =>
    obtain ⟨left, unfinished⟩ := input
    rw [h]
    cases unfinished with
    | some d => simp
    | none => cases left <;> simp

/-- A bracketed part is read from its group alone. -/
theorem inGroup_eq_ok {d : Delimiter} {x : Reader α} {input input' : Input} {a : α}
    (h : inGroup d x input = .ok (a, input')) :
    ∃ content rest inner, input.tokens = .group d content :: rest ∧
      x ⟨content, input.unfinished⟩ = .ok (a, inner) ∧ input'.tokens = rest := by
  unfold inGroup at h
  obtain ⟨content, outer, hgroup, h⟩ := bind_eq_ok.mp h
  unfold group at hgroup
  split at hgroup
  · next e content' rest htokens =>
    split at hgroup
    · next hd =>
      cases hgroup
      obtain ⟨_, _, hget, h⟩ := bind_eq_ok.mp h
      cases hget
      obtain ⟨_, _, hset, h⟩ := bind_eq_ok.mp h
      cases hset
      obtain ⟨b, inner, hx, h⟩ := bind_eq_ok.mp h
      obtain ⟨_, _, hget, h⟩ := bind_eq_ok.mp h
      cases hget
      obtain ⟨_, _, hset, h⟩ := bind_eq_ok.mp h
      cases hset
      cases h
      exact ⟨content, rest, inner, hd ▸ htokens, hx, rfl⟩
    · unfold fail at hgroup
      cases hgroup
  · unfold fail at hgroup
    cases hgroup

theorem bind_of_ok {x : Reader α} {f : α → Reader β} {input input' : Input} {a : α}
    (h : x input = .ok (a, input')) : (x >>= f) input = f a input' := by
  simp only [Bind.bind, StateT.bind, h, Except.bind]

theorem next_of_true {test : List Token → Bool} {x y : Reader α} {input : Input}
    (h : test input.tokens = true) :
    (next test >>= fun b => if b = true then x else y) input = x input := by
  rw [next_bind, h, if_pos rfl]

theorem next_of_false {test : List Token → Bool} {x y : Reader α} {input : Input}
    (h : test input.tokens = false) :
    (next test >>= fun b => if b = true then x else y) input = y input := by
  rw [next_bind, h, if_neg Bool.false_ne_true]

theorem skip_bind (count : Nat) (f : Unit → Reader β) (input : Input) :
    (skip count >>= f) input = f () { input with tokens := input.tokens.drop count } :=
  rfl

theorem mark_of_startsWith {s : String} {input : Input} (h : startsWith s input.tokens = true) :
    mark s input =
      .ok (Fragment.mark s, { input with tokens := input.tokens.drop s.length }) :=
  next_of_true h

theorem mark?_of_not_startsWith {s : String} {input : Input}
    (h : startsWith s input.tokens = false) : mark? s input = .ok ([], input) :=
  next_of_false h

theorem inGroup_of_ok {d : Delimiter} {x : Reader α} {content rest : List Token} {a : α}
    (h : x ⟨content, none⟩ = .ok (a, ⟨[], none⟩)) :
    inGroup d x ⟨.group d content :: rest, none⟩ = .ok (a, ⟨rest, none⟩) := by
  unfold inGroup
  rw [bind_of_ok (if_pos rfl : group d ⟨.group d content :: rest, none⟩ = _)]
  rw [bind_of_ok (rfl : (get : Reader Input) ⟨rest, none⟩ = .ok (⟨rest, none⟩, ⟨rest, none⟩))]
  rw [bind_of_ok (rfl : (set (⟨content, none⟩ : Input) : Reader Unit) ⟨rest, none⟩ =
    .ok ((), ⟨content, none⟩))]
  exact bind_of_ok h

end Reader

@[simp] theorem Readers.level_fuel (fuel n : Nat) : (level fuel n).fuel = fuel := by
  induction n with
  | zero => rfl
  | succ n ih => exact ih

theorem TypeExpr.ofTokens?_eq_some {ts : List Token} {t : TypeExpr} :
    ofTokens? ts = some t ↔
      (Readers.suffice ts).type true ⟨ts, none⟩ = .ok (t, ⟨[], none⟩) := by
  rw [← Reader.whole_eq_ok, ofTokens?]
  cases Reader.whole ((Readers.suffice ts).type true) ts <;> simp [Except.toOption]

theorem TypeExpr.parse?_eq_some {source : String} {t : TypeExpr} :
    parse? source = some t ↔ ∃ ts, Lexer.tokens? source = some ts ∧
      (Readers.suffice ts).type true ⟨ts, none⟩ = .ok (t, ⟨[], none⟩) := by
  simp only [parse?, Option.bind_eq_some_iff, ofTokens?_eq_some]

end RecordStore
