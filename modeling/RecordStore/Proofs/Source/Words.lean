import RecordStore.Proofs.Source.TokenText
import RecordStore.Proofs.Source.Item

/-!
Words: the texts that are lexed as one identifier. Every identifier among the tokens of a text is a
word, and a word in front of a closing character is lexed as that identifier again.
-/
namespace RecordStore

namespace Lexer

def IsWord (s : String) : Prop := step s.toList = some ([.leaf (.ident s)], [])

section

variable {cs r : List Char} {s : String}

theorem quote_mem_of_raw {alphabet : Alphabet} {letters : List Char}
    {taken : List Char × List Char} (h : raw? alphabet letters cs = some taken) :
    '\x22' ∈ cs := by
  unfold raw? at h
  simp only at h
  split at h
  · next rest hrest => exact List.mem_of_mem_drop (by rw [hrest]; exact List.mem_cons_self ..)
  · cases h

/-- A quoted literal has a quote or an apostrophe. -/
theorem quote_mem_of_quotedLiteral {taken : List Char × List Char}
    (h : quotedLiteral? cs = some taken) : '\x22' ∈ cs ∨ '\x27' ∈ cs := by
  unfold quotedLiteral? at h
  split at h
  · exact .inl (by simp)
  · exact .inl (by simp [quote_mem_of_raw h])
  · exact .inl (by simp)
  · exact .inl (by simp [quote_mem_of_raw h])
  · exact .inr (by simp)
  · exact .inl (by simp)
  · exact .inl (by simp [quote_mem_of_raw h])
  · exact .inr (by simp)
  · cases h

theorem not_isDigit_of_identStart {c : Char} (hc : identStart c) : c.isDigit = false := by
  by_contra hdigit
  have hbounds : 48 ≤ c.val ∧ c.val ≤ 57 := by simpa [Char.isDigit] using hdigit
  simp only [identStart, Identifier.isStart, Char.isAlpha, Char.isUpper, Char.isLower,
    Bool.or_eq_true, beq_iff_eq, Bool.and_eq_true, decide_eq_true_eq] at hc
  have h48 : 48 ≤ c.toNat := UInt32.le_iff_toNat_le.mp hbounds.1
  have h57 : c.toNat ≤ 57 := UInt32.le_iff_toNat_le.mp hbounds.2
  rcases hc with rfl | (⟨hupper, -⟩ | ⟨hlower, -⟩) | ⟨hwide, -⟩
  · exact absurd h57 (by decide)
  · have h65 : 65 ≤ c.toNat := UInt32.le_iff_toNat_le.mp hupper
    omega
  · have h97 : 97 ≤ c.toNat := UInt32.le_iff_toNat_le.mp hlower
    omega
  · omega

/-- A name is read alone as it is read from the front of a text. -/
theorem plainIdent_alone {name : List Char} (h : plainIdent? cs = some (name, r)) :
    plainIdent? name = some (name, []) ∧
      ∃ c rest, name = c :: rest ∧ identStart c ∧ ∀ d ∈ rest, Identifier.isContinue d := by
  unfold plainIdent? at h
  split at h
  · cases h
  · next c rest =>
    split at h
    · next hc =>
      cases h
      have hall : ∀ d ∈ rest.takeWhile Identifier.isContinue, Identifier.isContinue d :=
        fun d hd => List.mem_takeWhile_imp hd
      refine ⟨?_, c, _, rfl, hc, hall⟩
      rw [plainIdent?, if_pos hc, List.takeWhile_eq_self_iff.mpr hall,
        List.dropWhile_eq_nil_iff.mpr hall]
    · cases h

/-- An identifier is taken whole where nothing follows it. Its first character starts identifiers,
and it has no quotes. -/
theorem anyIdent_alone (h : anyIdent? cs = some (s, r)) :
    anyIdent? s.toList = some (s, []) ∧
      (∃ c rest, s.toList = c :: rest ∧ identStart c) ∧
        ∀ c ∈ s.toList, c ≠ '\x22' ∧ c ≠ '\x27' := by
  have hstart : ∀ c, identStart c → c ≠ '\x22' ∧ c ≠ '\x27' := by
    intro c hc
    constructor <;> rintro rfl <;> revert hc <;> decide
  have hcontinue : ∀ c, Identifier.isContinue c → c ≠ '\x22' ∧ c ≠ '\x27' := by
    intro c hc
    constructor <;> rintro rfl <;> revert hc <;> decide
  unfold anyIdent? at h
  split at h
  · next rest =>
    split at h
    · next name rest' hname =>
      obtain ⟨halone, c, tail, rfl, hc, htail⟩ := plainIdent_alone hname
      simp only at h
      split at h
      · cases h
      · next hraw =>
        cases h
        have htext : ("r#" ++ String.ofList (c :: tail)).toList = 'r' :: '#' :: c :: tail := by simp
        rw [htext]
        refine ⟨?_, ⟨'r', _, rfl, by decide⟩, ?_⟩
        · simp only [anyIdent?, halone]
          rw [if_neg hraw]
        · simp only [List.forall_mem_cons]
          exact ⟨by decide, by decide, hstart c hc, fun d hd => hcontinue d (htail d hd)⟩
    · cases h
  · next hraw =>
    obtain ⟨⟨name, rest⟩, hname, heq⟩ := Option.map_eq_some_iff.mp h
    cases heq
    obtain ⟨halone, c, tail, rfl, hc, htail⟩ := plainIdent_alone hname
    have hplain : ∀ after, c :: tail = 'r' :: '#' :: after → False := by
      intro after heq
      have hmark := htail '#' (by simp [(List.cons.inj heq).2])
      revert hmark
      decide
    rw [String.toList_ofList]
    refine ⟨?_, ⟨c, tail, rfl, hc⟩, ?_⟩
    · rw [anyIdent?.eq_2 _ hplain, halone]
      rfl
    · simp only [List.forall_mem_cons]
      exact ⟨hstart c hc, fun d hd => hcontinue d (htail d hd)⟩

theorem punct_none_of_identStart {c : Char} (hc : identStart c) (rest : List Char) :
    startsPunct (c :: rest) = false ∧ punct? (c :: rest) = none := by
  have hpunct : ∀ p ∈ punctChars, identStart p = false := by decide
  have hc' : punctChars.contains c = false := by
    refine Bool.eq_false_iff.mpr fun hmem => ?_
    rw [hpunct c (List.contains_iff_mem.mp hmem)] at hc
    cases hc
  have hstarts : startsPunct (c :: rest) = false := by
    rw [startsPunct.eq_def]
    split
    · rfl
    · rfl
    · next heq =>
      cases heq
      exact hc'
    · rfl
  refine ⟨hstarts, ?_⟩
  rw [punct_other, hstarts]
  · rfl
  · rintro rfl
    revert hc
    decide

/-- What it takes for an identifier to be read. -/
structure ReadsIdent (cs : List Char) (s : String) (r : List Char) : Prop where
  comment : comment? cs = none
  lost : ¬ lostLiteral.toList <+: cs
  head : ∀ c ∈ cs.head?, c ∉ brackets ∧ isBlank c = false
  opens : startsLiteral cs = false
  ident : anyIdent? cs = some (s, r)

/-- What a step that leaves a token has read. -/
inductive ReadsLeaf (cs : List Char) (r : List Char) : Token → Prop
  | literal (s : String) : ReadsLeaf cs r (.literal s)
  | punct (c : Char) (joint : Bool) : ReadsLeaf cs r (.punct c joint)
  | ident (s : String) (h : ReadsIdent cs s r) : ReadsLeaf cs r (.ident s)

/-- A step that leaves a token leaves nothing else. -/
theorem readsLeaf_of_step {ls : List Lexeme} {t : Token} (h : step cs = some (ls, r))
    (ht : .leaf t ∈ ls) : ls = [.leaf t] ∧ ReadsLeaf cs r t := by
  have hcomment : comment? cs = none := by
    cases hcomment : comment? cs with
    | none => rfl
    | some outcome =>
      rw [step.eq_def, hcomment] at h
      obtain rfl : outcome = _ := h
      obtain ⟨tail, hleaves, -⟩ := comment_leaves hcomment
      exact absurd ht (hleaves.noLeaf t)
  by_cases hlost : lostLiteral.toList <+: cs
  · obtain ⟨rest, rfl⟩ := hlost
    cases h
    cases List.mem_singleton.mp ht
    exact ⟨rfl, .literal _⟩
  cases cs with
  | nil => cases h
  | cons c rest =>
    by_cases hc : c ∈ brackets
    · obtain ⟨l, hl⟩ := bracket_of_mem hc
      rw [step_bracket hcomment hlost hl] at h
      cases h
      cases List.mem_singleton.mp ht
      unfold bracket? at hl
      split_ifs at hl <;> cases hl
    rw [step_other hcomment hlost hc] at h
    split at h
    · cases h
      cases ht
    · next hblank =>
      split at h
      · cases h
        cases List.mem_singleton.mp ht
        exact ⟨rfl, .literal _⟩
      · split at h
        · next token rest' hpunct =>
          obtain ⟨d, joint, rfl, -⟩ := punct_front hpunct
          cases h
          cases List.mem_singleton.mp ht
          exact ⟨rfl, .punct d joint⟩
        · split at h
          · cases h
          · next hstarts =>
            obtain ⟨⟨s, rest'⟩, hname, heq⟩ := Option.map_eq_some_iff.mp h
            cases heq
            cases List.mem_singleton.mp ht
            refine ⟨rfl, .ident s ⟨hcomment, hlost, fun d hd => ?_, ?_, hname⟩⟩
            · obtain rfl : c = d := Option.some.inj hd
              exact ⟨hc, Bool.eq_false_iff.mpr hblank⟩
            · exact Bool.eq_false_iff.mpr hstarts

theorem readsIdent_of_step (h : step cs = some ([.leaf (.ident s)], r)) : ReadsIdent cs s r := by
  obtain ⟨-, hreads⟩ := readsLeaf_of_step h (List.mem_singleton_self _)
  cases hreads with
  | ident s h => exact h

/-- A name without quotation marks is read in one step. -/
theorem step_of_readsIdent (h : ReadsIdent cs s r)
    (hquotes : ∀ c ∈ cs, c ≠ '\x22' ∧ c ≠ '\x27') (hhead : ∀ c ∈ cs.head?, identStart c) :
    step cs = some ([.leaf (.ident s)], r) := by
  have hname := h.ident
  cases cs with
  | nil => cases hname
  | cons c rest =>
    have hc : identStart c := hhead c rfl
    have hquoted : quotedLiteral? (c :: rest) = none := by
      cases hquoted : quotedLiteral? (c :: rest) with
      | none => rfl
      | some taken =>
        rcases quote_mem_of_quotedLiteral hquoted with hmem | hmem
        · exact absurd rfl (hquotes _ hmem).1
        · exact absurd rfl (hquotes _ hmem).2
    have hliteral : literal? (c :: rest) = none := by
      rw [literal?, hquoted]
      simp [number_eq, not_isDigit_of_identStart hc]
    obtain ⟨hbracket, hblank⟩ := h.head c rfl
    rw [step_other h.comment h.lost hbracket, hblank, hliteral,
      (punct_none_of_identStart hc rest).2, h.opens, hname]
    rfl

/-- Every identifier that is lexed is a word. -/
theorem isWord_of_step (h : step cs = some ([.leaf (.ident s)], r)) : IsWord s := by
  have hreads := readsIdent_of_step h
  obtain ⟨halone, ⟨c, tail, htext, hc⟩, hquotes⟩ := anyIdent_alone hreads.ident
  have hfront := anyIdent_front hreads.ident
  have hleads {word : List Char} (hword : word <+: s.toList) : word <+: cs :=
    hword.trans ⟨r, hfront⟩
  have hhead : ∀ d ∈ s.toList.head?, d ∈ cs.head? := by
    rw [← hfront, htext]
    exact fun d hd => hd
  refine step_of_readsIdent ⟨?_, fun hlost => hreads.lost (hleads hlost),
    fun d hd => hreads.head d (hhead d hd), ?_, halone⟩ hquotes ?_
  · have hcomment := comment_eq_none_iff.mp hreads.comment
    exact comment_eq_none_iff.mpr
      ⟨fun h => hcomment.1 (hleads h), fun h => hcomment.2 (hleads h)⟩
  · refine Bool.eq_false_iff.mpr fun hstart => ?_
    obtain ⟨word, hword, hopens⟩ := List.any_eq_true.mp hstart
    exact not_prefix_of_startsLiteral hreads.opens _ hword
      (hleads (List.isPrefixOf_iff_prefix.mp hopens))
  · rw [htext]
    intro d hd
    obtain rfl : c = d := Option.some.inj hd
    exact hc

variable {t : List Char}

/-- A word starts as identifiers do. -/
theorem IsWord.head (h : IsWord s) : ∃ c rest, s.toList = c :: rest ∧ identStart c :=
  (anyIdent_alone (readsIdent_of_step h).ident).2.1

/-- A word is one identifier wherever something closes it, or nothing follows. -/
theorem IsWord.spans (h : IsWord s) (ht : t = [] ∨ Closes t) : Spans s.toList [.ident s] t := by
  obtain ⟨c, rest, htext, hc⟩ := h.head
  refine .token (by simp [htext]) ?_
  rcases ht with rfl | ht
  · rw [List.append_nil]
    exact h
  · refine step_append ht (readsIdent_of_step h).comment h (fun hlost => ?_) (by simp)
    rw [htext] at hlost
    have hparen : '(' = c := (List.cons_prefix_cons.mp hlost).1
    rw [← hparen] at hc
    exact absurd hc (by decide)

end

end Lexer

mutual

def Token.HasWords : Token → Prop
  | .ident s => Lexer.IsWord s
  | .group _ content => HaveWords content
  | .punct .. | .literal _ => True

def HaveWords : List Token → Prop
  | [] => True
  | t :: rest => t.HasWords ∧ HaveWords rest

end

theorem haveWords_iff {ts : List Token} : HaveWords ts ↔ ∀ t ∈ ts, t.HasWords := by
  induction ts with
  | nil => simp [HaveWords]
  | cons t ts ih => simp [HaveWords, ih]

theorem HaveWords.drop {ts : List Token} (h : HaveWords ts) (n : Nat) : HaveWords (ts.drop n) :=
  haveWords_iff.mpr fun t ht => haveWords_iff.mp h t (List.mem_of_mem_drop ht)

namespace Lexer

theorem hasWords_of_step {cs r : List Char} {ls : List Lexeme} {t : Token}
    (h : step cs = some (ls, r)) (ht : .leaf t ∈ ls) : t.HasWords := by
  obtain ⟨rfl, hreads⟩ := readsLeaf_of_step h ht
  cases hreads with
  | literal | punct => trivial
  | ident s _ => exact isWord_of_step h

theorem hasWords_of_lexemes {n : Nat} {cs : List Char} {ls : List Lexeme}
    (h : lexemes n cs = some ls) : ∀ t, .leaf t ∈ ls → t.HasWords := by
  fun_induction lexemes n cs generalizing ls with
  | case1 =>
    cases h
    simp
  | case2 | case3 => cases h
  | case4 n cs hcs more r hstep ih =>
    obtain ⟨ls', hls, rfl⟩ := Option.map_eq_some_iff.mp h
    intro t ht
    rcases List.mem_append.mp ht with ht | ht
    · exact hasWords_of_step hstep ht
    · exact ih hls t ht

theorem haveWords_documentation (inner : Bool) (text : String) :
    HaveWords (documentationTokens inner text) := by
  have hdoc : IsWord "doc" := by rfl
  cases inner <;> simp [documentationTokens, HaveWords, Token.HasWords, hdoc]

def StateHasWords (state : List Token × List Frame) : Prop :=
  HaveWords state.1 ∧ ∀ frame ∈ state.2, HaveWords frame.2

/-- Nesting keeps every name a word. -/
theorem stateHasWords_nestStep {state state' : List Token × List Frame} {l : Lexeme}
    (hstate : StateHasWords state) (hl : ∀ t, l = .leaf t → t.HasWords)
    (h : nestStep state l = some state') : StateHasWords state' := by
  obtain ⟨hout, hframes⟩ := hstate
  rw [haveWords_iff] at hout
  cases l with
  | leaf t =>
    cases h
    exact ⟨⟨hl t rfl, haveWords_iff.mpr hout⟩, hframes⟩
  | comment inner text =>
    cases h
    refine ⟨haveWords_iff.mpr fun t ht => ?_, hframes⟩
    rcases List.mem_append.mp ht with ht | ht
    · exact haveWords_iff.mp (haveWords_documentation inner text) t (List.mem_reverse.mp ht)
    · exact hout t ht
  | opening d =>
    cases h
    exact ⟨trivial, List.forall_mem_cons.mpr ⟨haveWords_iff.mpr hout, hframes⟩⟩
  | closing d =>
    unfold nestStep at h
    simp only at h
    split at h
    · cases h
    · next e before frames heq =>
      rw [heq, List.forall_mem_cons] at hframes
      split at h
      · cases h
        have hcontent := haveWords_iff.mpr fun t ht => hout t (List.mem_reverse.mp ht)
        exact ⟨⟨hcontent, hframes.1⟩, hframes.2⟩
      · cases h

theorem stateHasWords_foldlM {ls : List Lexeme} {state state' : List Token × List Frame}
    (hstate : StateHasWords state) (hls : ∀ t, .leaf t ∈ ls → t.HasWords)
    (h : ls.foldlM nestStep state = some state') : StateHasWords state' := by
  induction ls generalizing state with
  | nil =>
    cases h
    exact hstate
  | cons l ls ih =>
    obtain ⟨next, hstep, hrest⟩ := Option.bind_eq_some_iff.mp h
    have hl : ∀ t, l = .leaf t → t.HasWords := fun t ht => hls t (ht ▸ List.mem_cons_self ..)
    exact ih (stateHasWords_nestStep hstate hl hstep)
      (fun t ht => hls t (List.mem_cons_of_mem _ ht)) hrest

/-- All identifiers of a text are words. -/
theorem haveWords_of_tokens {text : String} {ts : List Token} (h : tokens? text = some ts) :
    HaveWords ts := by
  obtain ⟨ls, hls, hnest⟩ := Option.bind_eq_some_iff.mp h
  unfold nest at hnest
  split at hnest
  · next out hfold =>
    cases hnest
    have hstart : StateHasWords ([], []) := ⟨trivial, by simp⟩
    have hout := (stateHasWords_foldlM hstart (hasWords_of_lexemes hls) hfold).1
    exact haveWords_iff.mpr fun t ht => haveWords_iff.mp hout t (List.mem_reverse.mp ht)
  · cases hnest

end Lexer

end RecordStore
