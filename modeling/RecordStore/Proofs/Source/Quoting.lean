import RecordStore.Source.Lexer
import Mathlib.Data.List.TakeWhile

/-!
Reading a quoted literal takes the front of a text, and does so whatever comes after the text. The
characters that close what is read before them are no part of an opening.
-/
namespace RecordStore.Lexer

/-- What holds of all characters in a list is decided by going through the list, not through all
characters. -/
scoped instance decidableForallMem (cs : List Char) (p : Char → Prop) [DecidablePred p] :
    Decidable (∀ c ∈ cs, p c) :=
  List.decidableBAll p cs

def closers : List Char := [',', '>', ']', ')', ':', '<', ';']

def Closes (t : List Char) : Prop := ∃ c ∈ closers, ∃ rest, t = c :: rest

section

variable {t : List Char}

theorem closes_cases (ht : Closes t) :
    ∃ rest, t = ',' :: rest ∨ t = '>' :: rest ∨ t = ']' :: rest ∨ t = ')' :: rest ∨
      t = ':' :: rest ∨ t = '<' :: rest ∨ t = ';' :: rest := by
  obtain ⟨c, hc, rest, rfl⟩ := ht
  refine ⟨rest, ?_⟩
  simp only [closers, List.mem_cons, List.not_mem_nil, or_false] at hc
  rcases hc with rfl | rfl | rfl | rfl | rfl | rfl | rfl <;> simp

/-- What a larger text starts with, if what comes after a text has no part in it, the text starts
with. -/
theorem prefix_of_prefix_append {word cs : List Char} (hword : ∀ c ∈ t.head?, c ∉ word)
    (h : word <+: cs ++ t) : word <+: cs := by
  rcases List.prefix_or_prefix_of_prefix h (List.prefix_append cs t) with h' | ⟨more, rfl⟩
  · exact h'
  · have hmore := (List.prefix_append_right_inj cs).mp h
    cases more with
    | nil => simp
    | cons d more =>
      obtain ⟨rest, rfl⟩ := hmore
      exact absurd (by simp) (hword d rfl)

theorem prefix_of_closes {cs : List Char} (ht : Closes t) (word : List Char)
    (hword : ∀ c ∈ word, c ∉ closers)
    (h : word <+: cs ++ t) : word <+: cs := by
  obtain ⟨c, hc, rest, rfl⟩ := ht
  refine prefix_of_prefix_append (fun d hd hmem => ?_) h
  obtain rfl : c = d := Option.some.inj hd
  exact hword c hmem hc

/-- Two characters at the front of a closed text are in the text inside. -/
theorem pair_of_closes {c d : Char} {cs rest : List Char} (ht : Closes t)
    (hc : c ∉ closers) (hd : d ∉ closers) (h : cs ++ t = c :: d :: rest) :
    ∃ rest, cs = c :: d :: rest := by
  have hpair : [c, d] <+: cs ++ t := ⟨rest, h.symm⟩
  obtain ⟨rest, hrest⟩ := prefix_of_closes ht _ (by simp [hc, hd]) hpair
  exact ⟨rest, hrest.symm⟩

/-- A closing character has no property that none of the closing characters has. -/
theorem not_of_closes {p : Char → Bool} (ht : Closes t) (hp : ∀ c ∈ closers, p c = false) :
    ∀ c ∈ t.head?, p c = false := by
  obtain ⟨c, hc, rest, rfl⟩ := ht
  intro d hd
  obtain rfl : c = d := Option.some.inj hd
  exact hp c hc

end

section

variable {p : Char → Bool} {cs t : List Char}

theorem takeWhile_append_eq (h : ∀ c ∈ t.head?, p c = false) :
    (cs ++ t).takeWhile p = cs.takeWhile p := by
  induction cs with
  | nil =>
    cases t with
    | nil => rfl
    | cons c rest => simp [h c rfl]
  | cons c cs ih =>
    simp only [List.cons_append, List.takeWhile_cons, ih]

theorem dropWhile_append_eq (h : ∀ c ∈ t.head?, p c = false) :
    (cs ++ t).dropWhile p = cs.dropWhile p ++ t := by
  induction cs with
  | nil =>
    cases t with
    | nil => rfl
    | cons c rest => simp [h c rfl]
  | cons c cs ih =>
    simp only [List.cons_append, List.dropWhile_cons, ih]
    split <;> rfl

/-- What stops a run inside a text stops it with anything after the text. -/
theorem takeWhile_append_of_lt (h : (cs.takeWhile p).length < cs.length) :
    (cs ++ t).takeWhile p = cs.takeWhile p := by
  rw [List.takeWhile_append, if_neg h.ne]

theorem takeWhile_lt_of_mem {c : Char} (hc : c ∈ cs) (hp : p c = false) :
    (cs.takeWhile p).length < cs.length := by
  refine lt_of_le_of_ne (List.takeWhile_prefix p).length_le fun hlength => ?_
  have hall := List.takeWhile_eq_self_iff.mp ((List.takeWhile_prefix p).eq_of_length hlength)
  rw [hall c hc] at hp
  cases hp

theorem takeWhile_append_drop_length :
    cs.takeWhile p ++ cs.drop (cs.takeWhile p).length = cs := by
  calc cs.takeWhile p ++ cs.drop (cs.takeWhile p).length
      = cs.take (cs.takeWhile p).length ++ cs.drop (cs.takeWhile p).length := by
        rw [← List.prefix_iff_eq_take.mp (List.takeWhile_prefix p)]
    _ = cs := List.take_append_drop ..

/-- What is left after a run, if it is not nothing, comes after the run. -/
theorem takeWhile_append_drop {c : Char} {rest : List Char}
    (h : cs.drop (cs.takeWhile p).length = c :: rest) :
    cs.takeWhile p ++ c :: rest = cs ∧ (cs.takeWhile p).length < cs.length := by
  have happend : cs.takeWhile p ++ c :: rest = cs := by
    rw [← h, takeWhile_append_drop_length]
  refine ⟨happend, ?_⟩
  calc (cs.takeWhile p).length < (cs.takeWhile p ++ c :: rest).length := by simp
    _ = cs.length := by rw [happend]

end

/-- Whether what a reader of characters takes is the front of the text, taken in the same way
whatever comes after the text. -/
def TakesFront (f : List Char → Option (List Char × List Char)) : Prop :=
  ∀ cs s r, f cs = some (s, r) → s ++ r = cs ∧ ∀ t, f (cs ++ t) = some (s, r ++ t)

/-- An escape is read from the front, whatever comes after it. -/
theorem takesFront_escape (alphabet : Alphabet) : TakesFront (escape? alphabet) := by
  intro cs s r h
  unfold escape? at h
  split at h
  · next a b rest =>
    split at h
    · next hcode =>
      cases h
      exact ⟨rfl, fun t => by simp [escape?, hcode]⟩
    · cases h
  · next rest =>
    simp only at h
    split at h
    · next after hafter =>
      split at h
      · cases h
      · next hcode =>
        cases h
        obtain ⟨happend, hlt⟩ := takeWhile_append_drop hafter
        refine ⟨by simpa using happend, fun t => ?_⟩
        simp only [List.cons_append, escape?]
        rw [takeWhile_append_of_lt hlt, List.drop_append_of_le_length hlt.le, hafter]
        simp only [List.cons_append]
        rw [if_neg hcode]
    · cases h
  · next rest =>
    split at h
    · cases h
    · next hcode =>
      cases h
      exact ⟨rfl, fun t => by simp [escape?, hcode]⟩
  · next c rest hx hu h0 =>
    split at h
    · next hc =>
      cases h
      refine ⟨rfl, fun t => ?_⟩
      have hplain : c ≠ 'x' ∧ c ≠ 'u' ∧ c ≠ '0' := by
        refine ⟨?_, ?_, ?_⟩ <;> rintro rfl <;> revert hc <;> decide
      have hescape := escape?.eq_4 alphabet c (r ++ t)
        (fun _ _ _ hx => absurd hx hplain.1) (fun _ hu => absurd hu hplain.2.1) hplain.2.2
      exact hescape.trans (if_pos hc)
    · cases h
  · cases h

/-- A line break cannot be escaped as a character. -/
theorem head_of_escape {alphabet : Alphabet} {cs : List Char} {result : List Char × List Char}
    (h : escape? alphabet cs = some result) :
    ∃ c rest, cs = c :: rest ∧ c ≠ '\n' ∧ c ≠ '\r' := by
  cases cs with
  | nil => cases h
  | cons c rest =>
    refine ⟨c, rest, rfl, ?_, ?_⟩ <;> rintro rfl <;> simp [escape?] at h

/-- With more fuel than it needs, a quoted literal is read as with just enough. -/
theorem takesFront_quotedBody {alphabet : Alphabet} {n : Nat} {cs s r : List Char}
    (h : quotedBody alphabet n cs = some (s, r)) :
    s ++ r = cs ∧ ∀ k t, quotedBody alphabet (n + k) (cs ++ t) = some (s, r ++ t) := by
  fun_induction quotedBody alphabet n cs generalizing s r with
  | case1 | case2 | case5 | case8 | case11 => cases h
  | case3 n rest =>
    cases h
    refine ⟨rfl, fun k t => ?_⟩
    rw [Nat.succ_add]
    rfl
  | case4 n rest ih | case6 n rest ih | case7 n rest ih =>
    obtain ⟨⟨s, r⟩, hbody, heq⟩ := Option.map_eq_some_iff.mp h
    cases heq
    obtain ⟨hfront, hcontext⟩ := ih hbody
    refine ⟨by rw [← hfront]; rfl, fun k t => ?_⟩
    rw [Nat.succ_add]
    simp [quotedBody, hcontext]
  | case9 n rest _ _ e rest' he ih =>
    obtain ⟨⟨s, r⟩, hbody, heq⟩ := Option.map_eq_some_iff.mp h
    cases heq
    obtain ⟨hfront, hcontext⟩ := ih hbody
    obtain ⟨hescape, hafter⟩ := takesFront_escape alphabet _ _ _ he
    refine ⟨by simp [hfront, hescape], fun k t => ?_⟩
    obtain ⟨c, cs, rfl, hc, hc'⟩ := head_of_escape he
    have hbody := quotedBody.eq_8 alphabet (n + k) (c :: cs ++ t)
      (fun _ h => hc (List.cons.inj h).1) (fun _ h => hc' (List.cons.inj h).1)
    rw [Nat.succ_add, List.cons_append, hbody, hafter]
    simp [hcontext]
  | case10 n c rest hquote _ hreturn _ _ hescape hplain ih =>
    obtain ⟨⟨s, r⟩, hbody, heq⟩ := Option.map_eq_some_iff.mp h
    cases heq
    obtain ⟨hfront, hcontext⟩ := ih hbody
    refine ⟨by rw [← hfront]; rfl, fun k t => ?_⟩
    have hbody := quotedBody.eq_9 alphabet (n + k) c (rest ++ t) hquote
      (fun _ h => absurd h hreturn) hreturn (fun _ h => absurd h hescape)
      (fun _ h => absurd h hescape) hescape
    rw [Nat.succ_add, List.cons_append, hbody, if_pos hplain, hcontext]
    rfl

/-- The quote that ends a raw literal is in its rest. -/
theorem quote_mem_of_rawBody {alphabet : Alphabet} {marks : Nat} {cs : List Char}
    {result : List Char × List Char} (h : rawBody alphabet marks cs = some result) :
    '\x22' ∈ cs := by
  fun_induction rawBody alphabet marks cs generalizing result with
  | case1 | case5 => cases h
  | case2 | case3 => exact List.mem_cons_self ..
  | case4 c rest _ _ ih =>
    obtain ⟨_, hbody, -⟩ := Option.map_eq_some_iff.mp h
    exact List.mem_cons_of_mem _ (ih hbody)

theorem takesFront_rawBody (alphabet : Alphabet) (marks : Nat) :
    TakesFront (rawBody alphabet marks) := by
  intro cs s r h
  fun_induction rawBody alphabet marks cs generalizing s r with
  | case1 | case5 => cases h
  | case2 rest hmarks ih =>
    obtain ⟨⟨s, r⟩, hbody, heq⟩ := Option.map_eq_some_iff.mp h
    cases heq
    obtain ⟨hfront, hcontext⟩ := ih _ _ hbody
    refine ⟨by rw [← hfront]; rfl, fun t => ?_⟩
    have hrun : ((rest ++ t).takeWhile (· == '#')).length < marks := by
      rwa [takeWhile_append_of_lt (takeWhile_lt_of_mem (quote_mem_of_rawBody hbody) rfl)]
    rw [List.cons_append, rawBody, if_pos hrun, hcontext]
    rfl
  | case3 rest hmarks =>
    cases h
    refine ⟨by simp, fun t => ?_⟩
    have hle : marks ≤ rest.length :=
      (Nat.le_of_not_lt hmarks).trans (List.takeWhile_prefix _).length_le
    have hrun : ¬ ((rest ++ t).takeWhile (· == '#')).length < marks := by
      rw [List.takeWhile_append]
      split
      · simp only [List.length_append]
        omega
      · exact hmarks
    rw [List.cons_append, rawBody, if_neg hrun, List.take_append_of_le_length hle,
      List.drop_append_of_le_length hle]
  | case4 c rest hquote hplain ih =>
    obtain ⟨⟨s, r⟩, hbody, heq⟩ := Option.map_eq_some_iff.mp h
    cases heq
    obtain ⟨hfront, hcontext⟩ := ih _ _ hbody
    refine ⟨by rw [← hfront]; rfl, fun t => ?_⟩
    have hhead : (rest ++ t).head? = rest.head? := by
      cases rest with
      | nil => cases quote_mem_of_rawBody hbody
      | cons d rest => rfl
    rw [List.cons_append, rawBody.eq_3 _ _ _ _ hquote, hhead, if_pos hplain, hcontext]
    rfl

/-- A raw literal is read from the front, whatever comes after it. -/
theorem takesFront_raw (alphabet : Alphabet) {letters cs s r : List Char}
    (h : raw? alphabet letters cs = some (s, r)) :
    s ++ r = letters ++ cs ∧ ∀ t, raw? alphabet letters (cs ++ t) = some (s, r ++ t) := by
  unfold raw? at h
  simp only at h
  split at h
  · next rest hrest =>
    split at h
    · cases h
    · next hmarks =>
      obtain ⟨⟨s, r⟩, hbody, heq⟩ := Option.map_eq_some_iff.mp h
      cases heq
      obtain ⟨hfront, hcontext⟩ := takesFront_rawBody _ _ _ _ _ hbody
      obtain ⟨happend, hlt⟩ := takeWhile_append_drop hrest
      refine ⟨?_, fun t => ?_⟩
      · calc letters ++ cs.takeWhile (· == '#') ++ '\x22' :: s ++ r
            = letters ++ (cs.takeWhile (· == '#') ++ '\x22' :: (s ++ r)) := by simp
          _ = letters ++ cs := by rw [hfront, happend]
      · unfold raw?
        simp only
        rw [takeWhile_append_of_lt hlt, List.drop_append_of_le_length hlt.le, hrest]
        simp only [List.cons_append]
        rw [if_neg hmarks, hcontext]
        rfl
  · cases h

theorem takesFront_quoted (alphabet : Alphabet) {letters cs s r : List Char}
    (h : quoted? alphabet letters cs = some (s, r)) :
    s ++ r = letters ++ '\x22' :: cs ∧
      ∀ t, quoted? alphabet letters (cs ++ t) = some (s, r ++ t) := by
  obtain ⟨⟨s, r⟩, hbody, heq⟩ := Option.map_eq_some_iff.mp h
  cases heq
  obtain ⟨hfront, hcontext⟩ := takesFront_quotedBody hbody
  refine ⟨by simp [hfront], fun t => ?_⟩
  have hfuel : (cs ++ t).length + 1 = cs.length + 1 + t.length := by
    simp only [List.length_append]
    omega
  rw [quoted?, hfuel, hcontext]
  rfl

/-- A character is read from the front, whatever comes after it. -/
theorem takesFront_apostrophe (alphabet : Alphabet) {letters cs s r : List Char}
    (h : apostrophe? alphabet letters cs = some (s, r)) :
    s ++ r = letters ++ '\x27' :: cs ∧
      ∀ t, apostrophe? alphabet letters (cs ++ t) = some (s, r ++ t) := by
  unfold apostrophe? at h
  simp only at h
  split at h
  · next inner rest hinner =>
    cases h
    split at hinner
    · next cs =>
      obtain ⟨⟨e, r⟩, he, heq⟩ := Option.map_eq_some_iff.mp hinner
      cases heq
      obtain ⟨hfront, hcontext⟩ := takesFront_escape alphabet _ _ _ he
      exact ⟨by rw [← hfront]; simp, fun t => by simp [apostrophe?, hcontext]⟩
    · next c cs hc =>
      split at hinner
      · next hplain =>
        cases hinner
        exact ⟨by simp, fun t => by simp [apostrophe?, hplain]⟩
      · cases hinner
    · cases hinner
  · cases h

theorem takesFront_quotedLiteral : TakesFront quotedLiteral? := by
  intro cs s r h
  unfold quotedLiteral? at h
  split at h
  · next rest => exact takesFront_quoted .text h
  · next rest => exact takesFront_raw .text h
  · next rest => exact takesFront_quoted .bytes h
  · next rest => exact takesFront_raw .bytes h
  · next rest => exact takesFront_apostrophe .bytes h
  · next rest => exact takesFront_quoted .nulEnded h
  · next rest => exact takesFront_raw .nulEnded h
  · next rest => exact takesFront_apostrophe .text h
  · cases h

end RecordStore.Lexer
