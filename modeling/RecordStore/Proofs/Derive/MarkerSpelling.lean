import RecordStore.Derive.Marker
import RecordStore.Proofs.Derive.CanonicalText

/-!
The items of a marker as they are written. An item is a literal, a name alone, a name with a list in
brackets, or a name with a truth value or a literal after an equals sign; with commas between them
and maybe one after the last, the items are read as they were written.
-/
namespace RecordStore

open Reader

namespace MarkerItem

/-- The tokens of an item. A truth value is no name. -/
inductive Written : List Token → MarkerItem → Prop
  | literal (s : String) : Written [.literal s] .literal
  | word {name : String} (hname : (name == "true" || name == "false") = false) :
      Written [.ident name] (.named name .word)
  | list {name : String} (hname : (name == "true" || name == "false") = false) (d : Delimiter)
      (content : List Token) : Written [.ident name, .group d content] (.named name (.list content))
  | truth {name s : String} (hname : (name == "true" || name == "false") = false) (joint : Bool)
      (hs : s = "true" ∨ s = "false") :
      Written [.ident name, .punct '=' joint, .ident s] (.named name (.value (.bool (s == "true"))))
  | value {name : String} (hname : (name == "true" || name == "false") = false) (joint : Bool)
      (s : String) :
      Written [.ident name, .punct '=' joint, .literal s]
        (.named name (.value (literalValue [.literal s])))

inductive EndsItem : List Token → Prop where
  | nil : EndsItem []
  | comma (rest : List Token) : EndsItem (.comma :: rest)

inductive LiteralToken : Token → Prop where
  | literal (s : String) : LiteralToken (.literal s)
  | truth {s : String} (hs : s = "true" ∨ s = "false") : LiteralToken (.ident s)

variable {below : Readers} {rest : List Token}

theorem LiteralToken.literalTokens {t : Token} (ht : LiteralToken t) (ts : List Token) :
    literalTokens (t :: ts) = [t] := by
  cases ht with
  | literal s => rfl
  | truth hs => rcases hs with rfl | rfl <;> rfl

/-- A literal is read as an expression of its own where a comma follows it. -/
theorem step_comma (hfuel : 0 < below.fuel) {t : Token} (ht : LiteralToken t)
    (rest : List Token) :
    ExpressionReader.step below true .assign ⟨t :: .comma :: rest, none⟩ =
      .ok (⟨.literal, [.token t], false⟩, ⟨.comma :: rest, none⟩) := by
  obtain ⟨fuel, _, _, _, _, _, _, _, _⟩ := below
  obtain _ | k := fuel
  · cases hfuel
  · cases ht with
    | literal s => rfl
    | truth hs => rcases hs with rfl | rfl <;> rfl

/-- A literal before the end of an item is read as its value. -/
theorem value_of_literal (hfuel : 0 < below.fuel) {t : Token} (ht : LiteralToken t)
    (hrest : EndsItem rest) :
    AttributeReader.value (.above below) ⟨t :: rest, none⟩ =
      .ok (⟨.literal, [.token t], false⟩, ⟨rest, none⟩) := by
  cases hrest with
  | nil =>
    cases ht with
    | literal s => rfl
    | truth hs => rcases hs with rfl | rfl <;> rfl
  | comma rest =>
    have hliteral : (isLiteral (t :: .comma :: rest) &&
        (t :: .comma :: rest).length == (literalTokens (t :: .comma :: rest)).length) = false := by
      rw [isLiteral, ht.literalTokens]
      rfl
    have hinner : (startsWith "#" (t :: .comma :: rest) &&
        isGroup .bracket (tail (t :: .comma :: rest))) = false := by
      cases ht <;> rfl
    exact (next_of_false hliteral).trans <| (next_of_false hinner).trans <|
      step_comma hfuel ht rest

theorem names_of_word (n : Nat) (name : String) (hrest : startsWith "::" rest = false) :
    names (n + 1) ⟨.ident name :: rest, none⟩ = .ok ([name], ⟨rest, none⟩) := by
  unfold names
  rw [bind_of_ok (rfl : anyIdent ⟨.ident name :: rest, none⟩ = .ok (name, ⟨rest, none⟩))]
  exact next_of_false hrest

theorem EndsItem.not_startsWith {s : String} {c : Char} {cs : List Char} (h : EndsItem rest)
    (hs : s.toList = c :: cs) (hc : c ≠ ',') : startsWith s rest = false := by
  cases h with
  | nil =>
    unfold startsWith
    rw [hs]
    cases cs <;> rfl
  | comma rest => exact startsWith_of_ne hs hc

def afterName (r : Readers) (name : String) : Reader MarkerItem := do
  match (← get).tokens with
  | .group _ content :: _ =>
    skip 1
    return .named name (.list content)
  | ts =>
    if startsWith "=" ts then
      skip 1
      return .named name (.value (expressionValue (← AttributeReader.value r)))
    return .named name .word

/-- An item that starts with a name and is no truth value is read by what follows. -/
theorem item_of_name {r : Readers} (hfuel : 0 < r.fuel) {name : String}
    (hname : (name == "true" || name == "false") = false) (hrest : startsWith "::" rest = false) :
    item r ⟨.ident name :: rest, none⟩ = afterName r name ⟨rest, none⟩ := by
  have hliteral : (isLiteral (.ident name :: rest) && !isNamedTruth (.ident name :: rest)) =
      false := by
    have htokens : literalTokens (.ident name :: rest) = [] := if_neg (Bool.eq_false_iff.mp hname)
    rw [isLiteral, htokens]
    rfl
  obtain ⟨n, hn⟩ : ∃ n, r.fuel = n + 1 := ⟨r.fuel - 1, by omega⟩
  have hnames : names r.fuel ⟨.ident name :: rest, none⟩ = .ok ([name], ⟨rest, none⟩) :=
    hn ▸ names_of_word n name hrest
  refine (next_of_false hliteral).trans ?_
  change (names r.fuel >>= fun ns => afterName r ("::".intercalate ns))
    ⟨.ident name :: rest, none⟩ = _
  exact bind_of_ok hnames

theorem afterName_of_literal (hfuel : 0 < below.fuel) {t : Token} (ht : LiteralToken t)
    (hrest : EndsItem rest) (name : String) (joint : Bool) :
    afterName (.above below) name ⟨.punct '=' joint :: t :: rest, none⟩ =
      .ok (.named name (.value (literalValue [t])), ⟨rest, none⟩) := by
  change (AttributeReader.value (.above below) >>= fun e =>
    pure (MarkerItem.named name (.value (expressionValue e)))) ⟨t :: rest, none⟩ = _
  have hvalue : expressionValue ⟨.literal, [.token t], false⟩ = literalValue [t] :=
    congrArg literalValue (Signature.fragmentTokens_ofTokens [t])
  rw [bind_of_ok (value_of_literal hfuel ht hrest), hvalue]
  rfl

/-- An item is read as it is written where an item may end. -/
theorem Written.item_eq {ts : List Token} {it : MarkerItem} (h : Written ts it)
    (hfuel : 0 < below.fuel) (hrest : EndsItem rest) :
    item (.above below) ⟨ts ++ rest, none⟩ = .ok (it, ⟨rest, none⟩) := by
  have hname {name : String} (h : (name == "true" || name == "false") = false)
      {rest : List Token} (hrest : startsWith "::" rest = false) :
      item (.above below) ⟨.ident name :: rest, none⟩ = afterName (.above below) name ⟨rest, none⟩ :=
    item_of_name (r := .above below) hfuel h hrest
  have hcolons {rest : List Token} (joint : Bool) :
      startsWith "::" (.punct '=' joint :: rest) = false :=
    startsWith_of_ne rfl (by decide)
  cases h with
  | literal s => rfl
  | word h =>
    refine (hname h (hrest.not_startsWith rfl (by decide))).trans ?_
    cases hrest <;> rfl
  | list h d content => exact hname h rfl
  | truth h joint hs =>
    exact (hname h (hcolons joint)).trans (afterName_of_literal hfuel (.truth hs) hrest _ joint)
  | value h joint s =>
    exact (hname h (hcolons joint)).trans (afterName_of_literal hfuel (.literal s) hrest _ joint)

theorem Written.ne_nil {ts : List Token} {it : MarkerItem} (h : Written ts it) : ts ≠ [] := by
  cases h <;> exact List.cons_ne_nil _ _

/-- Items are read as they are written with commas between them, and maybe one after the last. -/
theorem separatedUntil_of_written (hfuel : 0 < below.fuel) {tss : List (List Token)}
    {items : List MarkerItem} (h : List.Forall₂ Written tss items) (trailing : Bool) {n : Nat}
    (hn : tss.length < n) :
    ∃ hasTrailing, separatedUntil List.isEmpty "," (item (.above below)) n
      ⟨separated [.comma] trailing tss, none⟩ = .ok ((items, hasTrailing), ⟨[], none⟩) := by
  induction h generalizing n with
  | nil =>
    obtain _ | n := n
    · cases hn
    · exact ⟨false, rfl⟩
  | @cons ts it tss items hts htss ih =>
    obtain _ | n := n
    · cases hn
    have hopen (rest : List Token) : (ts ++ rest).isEmpty = false := by
      simp [hts.ne_nil]
    cases htss with
    | nil =>
      cases trailing with
      | false =>
        refine ⟨false, ?_⟩
        have hitem := hts.item_eq hfuel .nil
        rw [List.append_nil] at hitem
        unfold separatedUntil
        rw [separated, if_neg Bool.false_ne_true, next_of_false (List.append_nil ts ▸ hopen []),
          bind_of_ok hitem]
        rfl
      | true =>
        obtain _ | n := n
        · simp at hn
        refine ⟨true, ?_⟩
        unfold separatedUntil
        rw [separated, if_pos rfl, next_of_false (hopen [.comma]),
          bind_of_ok (hts.item_eq hfuel (.comma []))]
        rfl
    | @cons us it' tss items hus htss =>
      obtain ⟨hasTrailing, hread⟩ := ih (Nat.lt_of_succ_lt_succ hn)
      refine ⟨(it' :: items).isEmpty || hasTrailing, ?_⟩
      unfold separatedUntil
      rw [separated, List.append_assoc, next_of_false (hopen _), List.singleton_append,
        bind_of_ok (hts.item_eq hfuel (.comma _)), next_of_false rfl,
        bind_of_ok (mark_of_startsWith rfl)]
      exact bind_of_ok hread

theorem length_le_separated (separator : List Token) (trailing : Bool) {tss : List (List Token)}
    (h : ∀ ts ∈ tss, ts ≠ []) : tss.length ≤ (separated separator trailing tss).length := by
  fun_induction separated separator trailing tss with
  | case1 => exact Nat.le_refl 0
  | case2 us htrailing =>
    have := List.length_pos_iff.mpr (h us List.mem_cons_self)
    simp only [List.length_singleton, List.length_append]
    omega
  | case3 us =>
    have := List.length_pos_iff.mpr (h us List.mem_cons_self)
    simp only [List.length_singleton]
    omega
  | case4 us vs rest ih =>
    have := List.length_pos_iff.mpr (h us List.mem_cons_self)
    have := ih fun ts hts => h ts (List.mem_cons_of_mem _ hts)
    simp only [List.length_cons, List.length_append] at this ⊢
    omega

/-- A list of written items is read as these items. -/
theorem list_of_written {tss : List (List Token)} {items : List MarkerItem}
    (h : List.Forall₂ Written tss items) (trailing : Bool) :
    MarkerItem.list (separated [.comma] trailing tss) = .ok items := by
  have hne : ∀ ts ∈ tss, ts ≠ [] :=
    ((List.forall₂_and_left _ _).mp (h.imp fun ts it hit => ⟨hit.ne_nil, hit⟩)).1
  have hlength := (length_le_separated [.comma] trailing hne).trans (Token.length_le_sizeOfAll _)
  generalize hcontent : separated [.comma] trailing tss = content at hlength
  have hfuel : (Readers.suffice content).fuel = 4 * Token.sizeOfAll content + 8 :=
    Readers.level_fuel ..
  have hbelow : 0 < (Readers.level (4 * Token.sizeOfAll content + 8)
      (4 * Token.sizeOfAll content + 7)).fuel := by
    rw [Readers.level_fuel]
    omega
  obtain ⟨hasTrailing, hread⟩ := separatedUntil_of_written hbelow h trailing
    (show tss.length < (Readers.suffice content).fuel by omega)
  have hwhole : whole (commaSeparated (item (Readers.suffice content))
      (Readers.suffice content).fuel) content = .ok (items, hasTrailing) :=
    whole_eq_ok.mpr (hcontent ▸ hread)
  unfold MarkerItem.list
  simp only [hwhole]
  rfl

end MarkerItem

end RecordStore
