import RecordStore.Proofs.Source.Numerals

/-!
Reading a token does not look past its end. A text that is lexed by itself is lexed in the same
way in front of a comma or of a closing bracket, whatever follows that.
-/
namespace RecordStore.Lexer

section

variable {cs r t : List Char} {s : String}

theorem anyIdent_front (h : anyIdent? cs = some (s, r)) : s.toList ++ r = cs := by
  unfold anyIdent? at h
  split at h
  · next rest =>
    split at h
    · next name rest' hname =>
      simp only at h
      split at h
      · cases h
      · cases h
        simp [stopsAtClosers_plainIdent.front hname]
    · cases h
  · obtain ⟨⟨name, rest⟩, hname, heq⟩ := Option.map_eq_some_iff.mp h
    cases heq
    simp [stopsAtClosers_plainIdent.front hname]

/-- What closes a name does not become part of it. -/
theorem anyIdent_append (ht : Closes t) (cs : List Char) :
    anyIdent? (cs ++ t) = (anyIdent? cs).map (Prod.map id (· ++ t)) := by
  have hcs := anyIdent?.eq_def cs
  split at hcs
  · next rest =>
    rw [hcs, List.cons_append, List.cons_append, anyIdent?, stopsAtClosers_plainIdent.closed ht]
    cases plainIdent? rest with
    | none => rfl
    | some taken =>
      simp only [Option.map_some, Prod.map, id]
      split <;> rfl
  · next hraw =>
    rw [hcs, anyIdent?.eq_def]
    split
    · next rest heq =>
      obtain ⟨rest, rfl⟩ := pair_of_closes ht (by decide) (by decide) heq
      exact absurd rfl (hraw rest)
    · rw [stopsAtClosers_plainIdent.closed ht]
      cases plainIdent? cs <;> rfl

theorem startsPunct_append (ht : Closes t) (hcs : cs ≠ []) :
    startsPunct (cs ++ t) = startsPunct cs := by
  have hleft := startsPunct.eq_def cs
  split at hleft
  · rfl
  · rfl
  · next c rest hline hblock =>
    rw [hleft, startsPunct.eq_def]
    split
    · next rest heq =>
      obtain ⟨rest, heq⟩ := pair_of_closes ht (by decide) (by decide) heq
      cases heq
      exact absurd rfl (hline _ rfl)
    · next rest heq =>
      obtain ⟨rest, heq⟩ := pair_of_closes ht (by decide) (by decide) heq
      cases heq
      exact absurd rfl (hblock _ rfl)
    · next heq =>
      cases heq
      rfl
    · next heq => cases heq
  · exact absurd rfl hcs

theorem punct_front {token : Token} (h : punct? cs = some (token, r)) :
    ∃ c joint, token = .punct c joint ∧ c :: r = cs := by
  unfold punct? at h
  split at h
  · next rest =>
    split at h
    · split at h
      · cases h
      · cases h
        exact ⟨_, _, rfl, rfl⟩
    · cases h
  · next c rest _ =>
    split at h
    · cases h
      exact ⟨_, _, rfl, rfl⟩
    · cases h
  · cases h

theorem head_append {c : Char} (ht : Closes t) (hc : c ∉ closers) (cs : List Char) :
    ((cs ++ t).head? == some c) = (cs.head? == some c) := by
  cases cs with
  | nil =>
    obtain ⟨d, hd, rest, rfl⟩ := ht
    have hne : d ≠ c := fun h => hc (h ▸ hd)
    simpa using hne
  | cons d cs => rfl

/-- An apostrophe that starts a lifetime does so in a closed text. -/
theorem punct_apostrophe_append (ht : Closes t) (rest : List Char) :
    punct? ('\x27' :: rest ++ t) = (punct? ('\x27' :: rest)).map (Prod.map id (· ++ t)) := by
  rw [List.cons_append, punct?, punct?, anyIdent_append ht]
  cases hname : anyIdent? rest with
  | none => rfl
  | some taken =>
    have htake : ((rest ++ t).take 2 != ['r', '#']) = (rest.take 2 != ['r', '#']) := by
      match rest with
      | [] => cases hname
      | [c] =>
        have hshort : ([c].take 2 != ['r', '#']) = true := bne_iff_ne.mpr (by simp)
        obtain ⟨t, rfl | rfl | rfl | rfl | rfl | rfl | rfl⟩ := closes_cases ht <;>
          exact (bne_iff_ne.mpr (by simp)).trans hshort.symm
      | c :: d :: rest => rfl
    simp only [Option.map_some, Prod.map, id, head_append (c := '\x27') ht (by decide), htake,
      head_append (c := '#') ht (by decide)]
    split <;> rfl

theorem punct_other {c : Char} (hc : c ≠ '\x27') (rest : List Char) :
    punct? (c :: rest) =
      if startsPunct (c :: rest) then some (.punct c (startsPunct rest), rest) else none := by
  rw [punct?]
  exact hc

/-- Whether a character of punctuation is joined to what comes next can be told where something
comes next, or where the text is closed by no punctuation. -/
theorem punct_append {token : Token} (ht : Closes t) (h : punct? cs = some (token, r))
    (hend : r = [] → startsPunct t = false) : punct? (cs ++ t) = some (token, r ++ t) := by
  cases cs with
  | nil => cases h
  | cons c rest =>
    by_cases hc : c = '\x27'
    · subst hc
      rw [punct_apostrophe_append ht, h]
      rfl
    · rw [punct_other hc] at h
      split at h
      · next hstarts =>
        cases h
        have hjoint : startsPunct (r ++ t) = startsPunct r := by
          by_cases hr : r = []
          · rw [hr, List.nil_append, hend hr]
            rfl
          · exact startsPunct_append ht hr
        rw [List.cons_append, punct_other hc, ← List.cons_append,
          startsPunct_append ht (by simp), if_pos hstarts, hjoint]
      · cases h

theorem punct_append_none (ht : Closes t) (hcs : cs ≠ []) (h : punct? cs = none) :
    punct? (cs ++ t) = none := by
  cases cs with
  | nil => exact absurd rfl hcs
  | cons c rest =>
    by_cases hc : c = '\x27'
    · subst hc
      rw [punct_apostrophe_append ht, h]
      rfl
    · rw [punct_other hc] at h
      split at h
      · cases h
      · next hstarts =>
        rw [List.cons_append, punct_other hc, ← List.cons_append,
          startsPunct_append ht (by simp), if_neg hstarts]

end

section

variable {cs t : List Char}

def openings : List String :=
  ["r\"", "r#\"", "r##", "b\"", "b\x27", "br\"", "br#", "c\"", "cr\"", "cr#"]

theorem not_prefix_of_startsLiteral (h : startsLiteral cs = false) (word : String)
    (hword : word ∈ openings) : ¬ word.toList <+: cs := by
  intro hleads
  have hstarts : startsLiteral cs = true :=
    List.any_eq_true.mpr ⟨word, hword, List.isPrefixOf_iff_prefix.mpr hleads⟩
  rw [h] at hstarts
  cases hstarts

/-- A raw literal starts with a quotation mark, a number sign before one, or two number signs. -/
theorem raw_none {alphabet : Alphabet} {letters : List Char} (ht : Closes t)
    (hquote : ¬ ['\x22'] <+: cs) (hmark : ¬ ['#', '\x22'] <+: cs) (hmarks : ¬ ['#', '#'] <+: cs) :
    raw? alphabet letters (cs ++ t) = none := by
  have hstop := not_of_closes (p := (· == '#')) ht (by decide)
  unfold raw?
  simp only [takeWhile_append_eq hstop]
  split
  · next rest hrest =>
    rw [List.drop_append_of_le_length (List.takeWhile_prefix _).length_le] at hrest
    obtain ⟨rest, hrest⟩ :=
      prefix_of_closes ht ['\x22'] (by decide) ⟨_, hrest.symm⟩
    have hmarked : ∀ c ∈ cs.takeWhile (· == '#'), c = '#' :=
      fun c hc => by simpa using List.mem_takeWhile_imp hc
    have hcs := (takeWhile_append_drop hrest.symm).1
    -- the marks and the quote that would open a literal are all inside
    match hopening : cs.takeWhile (· == '#') with
    | [] =>
      rw [hopening] at hcs
      exact absurd ⟨_, hcs⟩ hquote
    | [c] =>
      rw [hopening] at hcs hmarked
      obtain rfl := hmarked c (by simp)
      exact absurd ⟨_, hcs⟩ hmark
    | c :: d :: marks =>
      rw [hopening] at hcs hmarked
      obtain rfl := hmarked c (by simp)
      obtain rfl := hmarked d (by simp)
      exact absurd ⟨_, hcs⟩ hmarks
  · rfl

/-- After two letters no mark may come. -/
theorem raw_none_of_not_mark {alphabet : Alphabet} {letters : List Char} (ht : Closes t)
    (hquote : ¬ ['\x22'] <+: cs) (hmark : ¬ ['#'] <+: cs) :
    raw? alphabet letters (cs ++ t) = none :=
  raw_none ht hquote (fun h => hmark ((List.prefix_append ['#'] ['\x22']).trans h))
    fun h => hmark ((List.prefix_append ['#'] ['#']).trans h)

/-- A character makes a literal with an apostrophe right after it. -/
theorem apostrophe_eq_none_iff {c : Char} (hc : c ≠ '\\') :
    apostrophe? .text [] (c :: cs) = none ↔ ¬ ['\x27'] <+: cs := by
  unfold apostrophe?
  simp only
  split
  · next s rest hinner =>
    split at hinner
    · cases hinner
      exact ⟨nofun, fun h => absurd ⟨rest, rfl⟩ h⟩
    · cases hinner
  · next hother =>
    refine ⟨fun _ hleads => ?_, fun _ => rfl⟩
    obtain ⟨rest, rfl⟩ := hleads
    exact hother [c] rest (if_pos rfl)

/-- An apostrophe that starts a lifetime starts no literal. -/
theorem apostrophe_none (ht : Closes t) (h : quotedLiteral? ('\x27' :: cs) = none)
    (hlifetime : (punct? ('\x27' :: cs)).isSome) : apostrophe? .text [] (cs ++ t) = none := by
  have hname : (anyIdent? cs).isSome := by
    rw [punct?] at hlifetime
    split at hlifetime
    · next hname => rw [hname]; rfl
    · cases hlifetime
  have halone : apostrophe? .text [] cs = none := h
  cases cs with
  | nil => cases hname
  | cons c cs =>
    have hc : c ≠ '\\' := by
      rintro rfl
      cases hname
    rw [apostrophe_eq_none_iff hc] at halone
    exact (apostrophe_eq_none_iff hc).mpr fun hleads =>
      halone (prefix_of_closes ht _ (by decide) hleads)

/-- Where no literal in quotes starts a text that does not look like one, none starts it where it
is closed. An apostrophe may start a lifetime instead. -/
theorem quotedLiteral_append_none (ht : Closes t) (hcs : cs ≠ [])
    (h : quotedLiteral? cs = none)
    (hstarts : startsLiteral cs = false) (hquote : ∀ rest, cs ≠ '\x22' :: rest)
    (hlifetime : ∀ rest, cs = '\x27' :: rest → (punct? cs).isSome) :
    quotedLiteral? (cs ++ t) = none := by
  have hopening := not_prefix_of_startsLiteral hstarts
  rw [quotedLiteral?.eq_def]
  split
  · next rest heq =>
    obtain ⟨rest, hcs⟩ := prefix_of_closes ht ['\x22'] (by decide) ⟨_, heq.symm⟩
    exact absurd hcs.symm (hquote rest)
  · next rest heq =>
    obtain ⟨cs, rfl⟩ := prefix_of_closes ht ['r'] (by decide) ⟨_, heq.symm⟩
    obtain rfl := (List.cons.inj heq).2
    refine raw_none ht ?_ ?_ ?_
    · exact fun h => hopening "r\"" (by decide) (List.cons_prefix_cons.mpr ⟨rfl, h⟩)
    · exact fun h => hopening "r#\"" (by decide) (List.cons_prefix_cons.mpr ⟨rfl, h⟩)
    · exact fun h => hopening "r##" (by decide) (List.cons_prefix_cons.mpr ⟨rfl, h⟩)
  · next rest heq =>
    obtain ⟨rest, rfl⟩ := pair_of_closes ht (by decide) (by decide) heq
    exact absurd ⟨rest, rfl⟩ (hopening "b\"" (by decide))
  · next rest heq =>
    obtain ⟨cs, rfl⟩ := pair_of_closes ht (by decide) (by decide) heq
    obtain rfl := (List.cons.inj (List.cons.inj heq).2).2
    refine raw_none_of_not_mark ht (fun h => hopening "br\"" (by decide) ?_)
      fun h => hopening "br#" (by decide) ?_
    · exact List.cons_prefix_cons.mpr ⟨rfl, List.cons_prefix_cons.mpr ⟨rfl, h⟩⟩
    · exact List.cons_prefix_cons.mpr ⟨rfl, List.cons_prefix_cons.mpr ⟨rfl, h⟩⟩
  · next rest heq =>
    obtain ⟨rest, rfl⟩ := pair_of_closes ht (by decide) (by decide) heq
    exact absurd ⟨rest, rfl⟩ (hopening "b\x27" (by decide))
  · next rest heq =>
    obtain ⟨rest, rfl⟩ := pair_of_closes ht (by decide) (by decide) heq
    exact absurd ⟨rest, rfl⟩ (hopening "c\"" (by decide))
  · next rest heq =>
    obtain ⟨cs, rfl⟩ := pair_of_closes ht (by decide) (by decide) heq
    obtain rfl := (List.cons.inj (List.cons.inj heq).2).2
    refine raw_none_of_not_mark ht (fun h => hopening "cr\"" (by decide) ?_)
      fun h => hopening "cr#" (by decide) ?_
    · exact List.cons_prefix_cons.mpr ⟨rfl, List.cons_prefix_cons.mpr ⟨rfl, h⟩⟩
    · exact List.cons_prefix_cons.mpr ⟨rfl, List.cons_prefix_cons.mpr ⟨rfl, h⟩⟩
  · next rest heq =>
    obtain ⟨cs, rfl⟩ := prefix_of_closes ht ['\x27'] (by decide) ⟨_, heq.symm⟩
    obtain rfl := (List.cons.inj heq).2
    exact apostrophe_none ht h (hlifetime cs rfl)
  · rfl

end

section

variable {cs r t : List Char} {s : String}

theorem literal_front (h : literal? cs = some (s, r)) : s.toList ++ r = cs := by
  unfold literal? at h
  split at h
  · next body rest hbody =>
    have hfront := withSuffix_front body rest
    rw [Option.some.inj h, (takesFront_quotedLiteral _ _ _ hbody).1] at hfront
    exact hfront
  · exact number_front h

theorem quotedLiteral_digit {c : Char} (hc : c.isDigit) (cs : List Char) :
    quotedLiteral? (c :: cs) = none := by
  rw [quotedLiteral?.eq_def]
  split <;> first
    | rfl
    | next heq =>
      obtain ⟨rfl, -⟩ := List.cons.inj heq
      cases hc

/-- A literal ends where it ended, whatever closes it. -/
theorem literal_append (ht : Closes t) (h : literal? cs = some (s, r)) :
    literal? (cs ++ t) = some (s, r ++ t) := by
  unfold literal? at h ⊢
  split at h
  · next body rest hbody =>
    rw [(takesFront_quotedLiteral _ _ _ hbody).2 t]
    simp only [withSuffix_append ht, Option.some.inj h]
    rfl
  · have hnumber := number_append ht cs
    rw [h] at hnumber
    cases cs with
    | nil => cases h
    | cons c cs =>
      have hc : c.isDigit := by
        rw [number_eq] at h
        split at h
        · assumption
        · cases h
      rw [List.cons_append, quotedLiteral_digit hc]
      exact hnumber

theorem literal_append_none (ht : Closes t) (hcs : cs ≠ []) (h : literal? cs = none)
    (hstarts : startsLiteral cs = false) (hquote : ∀ rest, cs ≠ '\x22' :: rest)
    (hlifetime : ∀ rest, cs = '\x27' :: rest → (punct? cs).isSome) :
    literal? (cs ++ t) = none := by
  unfold literal? at h ⊢
  split at h
  · cases h
  · next hquoted =>
    rw [quotedLiteral_append_none ht hcs hquoted hstarts hquote hlifetime, number_append ht, h]
    rfl

/-- Only two kinds of marks start a comment. -/
theorem comment_eq_none_iff :
    comment? cs = none ↔ ¬ ['/', '/'] <+: cs ∧ ¬ ['/', '*'] <+: cs := by
  refine ⟨fun h => ⟨?_, ?_⟩, fun ⟨hline, hblock⟩ => ?_⟩
  · rintro ⟨rest, rfl⟩
    revert h
    unfold comment?
    simp only
    split <;> first
      | exact fun h => absurd h (Option.some_ne_none _)
      | next hline _ _ _ _ _ => exact fun _ => hline rest rfl
  · rintro ⟨rest, rfl⟩
    revert h
    unfold comment?
    simp only
    split <;> first
      | exact fun h => absurd h (Option.some_ne_none _)
      | next hblock => exact fun _ => hblock rest rfl
  · unfold comment?
    simp only
    split <;> first
      | rfl
      | exact absurd ⟨_, rfl⟩ hline
      | exact absurd ⟨_, rfl⟩ hblock

theorem comment_append_none (ht : Closes t) (h : comment? cs = none) :
    comment? (cs ++ t) = none := by
  rw [comment_eq_none_iff] at h ⊢
  exact ⟨fun hline => h.1 (prefix_of_closes ht _ (by decide) hline),
    fun hblock => h.2 (prefix_of_closes ht _ (by decide) hblock)⟩

def brackets : List Char := ['(', ')', '[', ']', '\x7b', '\x7d']

/-- A step that reads no comment and no bracket reads a blank or one token. -/
theorem step_other {c : Char} {rest : List Char} (hcomment : comment? (c :: rest) = none)
    (hlost : ¬ lostLiteral.toList <+: c :: rest) (hc : c ∉ brackets) :
    step (c :: rest) =
      if isBlank c then some ([], rest)
      else
        match literal? (c :: rest) with
        | some (s, rest) => some ([.leaf (.literal s)], rest)
        | none =>
          match punct? (c :: rest) with
          | some (t, rest) => some ([.leaf t], rest)
          | none =>
            if startsLiteral (c :: rest) then none
            else (anyIdent? (c :: rest)).map fun (s, rest) => ([.leaf (.ident s)], rest) := by
  have hlost : lostLiteral.toList.isPrefixOf (c :: rest) = false :=
    Bool.eq_false_iff.mpr fun h => hlost (List.isPrefixOf_iff_prefix.mp h)
  simp only [brackets, List.mem_cons, List.not_mem_nil, or_false, not_or] at hc
  obtain ⟨h1, h2, h3, h4, h5, h6⟩ := hc
  unfold step
  rw [hcomment]
  refine (if_neg (Bool.eq_false_iff.mp hlost)).trans ?_
  split
  · next heq => cases heq
  · next heq => exact absurd (List.cons.inj heq).1 h1
  · next heq => exact absurd (List.cons.inj heq).1 h2
  · next heq => exact absurd (List.cons.inj heq).1 h3
  · next heq => exact absurd (List.cons.inj heq).1 h4
  · next heq => exact absurd (List.cons.inj heq).1 h5
  · next heq => exact absurd (List.cons.inj heq).1 h6
  · next heq =>
    cases heq
    rfl

def bracket? (c : Char) : Option Lexeme :=
  if c = '(' then some (.opening .paren)
  else if c = ')' then some (.closing .paren)
  else if c = '[' then some (.opening .bracket)
  else if c = ']' then some (.closing .bracket)
  else if c = '\x7b' then some (.opening .brace)
  else if c = '\x7d' then some (.closing .brace)
  else none

theorem step_bracket {c : Char} {rest : List Char} (hcomment : comment? (c :: rest) = none)
    (hlost : ¬ lostLiteral.toList <+: c :: rest) {l : Lexeme} (hc : bracket? c = some l) :
    step (c :: rest) = some ([l], rest) := by
  have hlost : lostLiteral.toList.isPrefixOf (c :: rest) = false :=
    Bool.eq_false_iff.mpr fun h => hlost (List.isPrefixOf_iff_prefix.mp h)
  unfold bracket? at hc
  split_ifs at hc with h1 h2 h3 h4 h5 h6
  all_goals
    subst c
    cases hc
    unfold step
    rw [hcomment]
    exact if_neg (Bool.eq_false_iff.mp hlost)

theorem bracket_of_mem {c : Char} (hc : c ∈ brackets) : ∃ l, bracket? c = some l := by
  simp only [brackets, List.mem_cons, List.not_mem_nil, or_false] at hc
  rcases hc with rfl | rfl | rfl | rfl | rfl | rfl <;> exact ⟨_, rfl⟩

theorem startsLiteral_append (ht : Closes t) (h : startsLiteral cs = false) :
    startsLiteral (cs ++ t) = false := by
  refine Bool.eq_false_iff.mpr fun hstarts => ?_
  obtain ⟨word, hword, hleads⟩ := List.any_eq_true.mp hstarts
  have hclosers : ∀ word ∈ openings, ∀ c ∈ word.toList, c ∉ closers := by decide
  exact not_prefix_of_startsLiteral h _ hword <|
    prefix_of_closes ht _ (hclosers word hword) (List.isPrefixOf_iff_prefix.mp hleads)

/-- Punctuation starts no literal. -/
theorem startsLiteral_of_punct {token : Token} (h : punct? cs = some (token, r)) :
    startsLiteral cs = false ∧ ∀ rest, cs ≠ '\x22' :: rest := by
  refine ⟨Bool.eq_false_iff.mpr fun hstarts => ?_, ?_⟩
  · obtain ⟨word, hword, hleads⟩ := List.any_eq_true.mp hstarts
    obtain ⟨rest, rfl⟩ := List.isPrefixOf_iff_prefix.mp hleads
    simp only [List.mem_cons, List.not_mem_nil, or_false] at hword
    rcases hword with rfl | rfl | rfl | rfl | rfl | rfl | rfl | rfl | rfl | rfl <;> cases h
  · rintro rest rfl
    cases h

/-- A token is read in a closed text as it is without what closes the text, which must not complete
a lost literal. The last character of punctuation may be joined to what closes the text, unless that
is no punctuation. -/
theorem step_append {ls : List Lexeme} (ht : Closes t) (hcomment : comment? cs = none)
    (h : step cs = some (ls, r))
    (hlosing : lostLiteral.toList <+: cs ++ t → lostLiteral.toList <+: cs)
    (hend : r = [] → startsPunct t = true → ∀ c joint, ls ≠ [.leaf (.punct c joint)]) :
    step (cs ++ t) = some (ls, r ++ t) := by
  have hcomment' := comment_append_none ht hcomment
  by_cases hlost : lostLiteral.toList <+: cs
  · obtain ⟨rest, rfl⟩ := hlost
    cases h
    rfl
  · have hlost' : ¬ lostLiteral.toList <+: cs ++ t := fun hleads => hlost (hlosing hleads)
    cases cs with
    | nil => cases h
    | cons c rest =>
      rw [List.cons_append] at hcomment' hlost' ⊢
      by_cases hc : c ∈ brackets
      · obtain ⟨l, hl⟩ := bracket_of_mem hc
        rw [step_bracket hcomment hlost hl] at h
        cases h
        exact step_bracket hcomment' hlost' hl
      · rw [step_other hcomment hlost hc] at h
        rw [step_other hcomment' hlost' hc, ← List.cons_append]
        split at h
        · next hblank =>
          cases h
          rw [if_pos hblank]
        · next hblank =>
          rw [if_neg hblank]
          split at h
          · next s rest' hliteral =>
            cases h
            rw [literal_append ht hliteral]
          · next hliteral =>
            split at h
            · next token rest' hpunct =>
              cases h
              obtain ⟨hstarts, hquote⟩ := startsLiteral_of_punct hpunct
              have hjoint : r = [] → startsPunct t = false := fun hr => by
                obtain ⟨c, joint, rfl, -⟩ := punct_front hpunct
                exact Bool.eq_false_iff.mpr fun hstart => hend hr hstart c joint rfl
              rw [literal_append_none ht (by simp) hliteral hstarts hquote
                (fun _ _ => Option.isSome_of_eq_some hpunct), punct_append ht hpunct hjoint]
            · next hpunct =>
              split at h
              · cases h
              · next hstarts =>
                obtain ⟨⟨s, rest'⟩, hname, heq⟩ := Option.map_eq_some_iff.mp h
                cases heq
                have hstarts := Bool.eq_false_iff.mpr hstarts
                rw [literal_append_none ht (by simp) hliteral hstarts
                  (fun _ heq => by rw [heq] at hname; cases hname)
                  (fun _ heq => by rw [heq] at hname; cases hname),
                  punct_append_none ht (by simp) hpunct, startsLiteral_append ht hstarts,
                  anyIdent_append ht, hname]
                rfl

end

end RecordStore.Lexer
