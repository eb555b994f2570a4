import Mathlib
import RecordStore.Proofs.Source.Lexing

/-!
Texts that are lexed as the tokens whose text they are. A comment takes more than it leaves, and so
does a byte order mark, so such a text has neither; it is lexed in the same way inside a larger one.
-/
namespace RecordStore

namespace Lexer

/-- How often a character stands in what was lexed; brackets and blanks apart. -/
def Lexeme.count (x : Char) : Lexeme → Nat
  | .leaf t => t.text.toList.count x
  | .opening _ | .closing _ => 0
  | .comment _ text => text.toList.count x

def countIn (x : Char) (ls : List Lexeme) : Nat := (ls.map (·.count x)).sum

section

variable {cs r : List Char} {ls : List Lexeme}

@[simp] theorem countIn_nil (x : Char) : countIn x [] = 0 := rfl

@[simp] theorem countIn_cons (x : Char) (l : Lexeme) (ls : List Lexeme) :
    countIn x (l :: ls) = l.count x + countIn x ls := by
  simp [countIn]

@[simp] theorem countIn_append (x : Char) (ls more : List Lexeme) :
    countIn x (ls ++ more) = countIn x ls + countIn x more := by
  simp [countIn]

theorem blockComment_front {depth : Nat} {s : List Char}
    (h : blockComment depth cs = some (s, r)) : s ++ '*' :: '/' :: r = cs := by
  fun_induction blockComment depth cs generalizing s r with
  | case1 => cases h
  | case2 | case4 | case5 =>
    rename_i ih
    obtain ⟨⟨s, r⟩, hbody, heq⟩ := Option.map_eq_some_iff.mp h
    cases heq
    rw [← ih hbody]
    rfl
  | case3 =>
    cases h
    rfl

theorem blockComment_count {depth : Nat} {s : List Char}
    (h : blockComment depth cs = some (s, r)) (x : Char) : s.count x + r.count x ≤ cs.count x := by
  rw [← blockComment_front h]
  simp only [List.count_append, List.count_cons]
  omega

/-- What is left after a comment with the given text: no token, and no more of a character than
there was. -/
structure Leaves (text : List Char) (ls : List Lexeme) (r : List Char) : Prop where
  noLeaf : ∀ t, .leaf t ∉ ls
  count : ∀ x, countIn x ls + r.count x ≤ text.count x

theorem Leaves.blank {text : List Char} (h : ∀ x, r.count x ≤ text.count x) : Leaves text [] r where
  noLeaf _ := List.not_mem_nil
  count x := by simpa using h x

theorem leaves_documentation {inner : Bool} {tail text rest : List Char}
    (hcount : ∀ x, text.count x + rest.count x ≤ tail.count x)
    (h : (if hasLoneReturn text then none
      else some ([Lexeme.comment inner (String.ofList text)], rest)) = some (ls, r)) :
    Leaves tail ls r := by
  split at h
  · cases h
  · cases h
    exact ⟨by simp, fun x => by simpa [Lexeme.count] using hcount x⟩

/-- The text of a comment on one line loses the carriage return of a line that ends. -/
theorem count_line (tail : List Char) (ended : Bool) (x : Char) :
    (if ended && (tail.takeWhile (· != '\n')).getLast? == some '\r' then
      (tail.takeWhile (· != '\n')).dropLast else tail.takeWhile (· != '\n')).count x +
      (tail.dropWhile (· != '\n')).count x ≤ tail.count x := by
  have hsplit : (tail.takeWhile (· != '\n')).count x + (tail.dropWhile (· != '\n')).count x =
      tail.count x := by
    rw [← List.count_append, List.takeWhile_append_dropWhile]
  have hlast := (List.dropLast_sublist (tail.takeWhile (· != '\n'))).count_le x
  split <;> omega

theorem leaves_block {depth : Nat} {rest : List Char}
    (h : (blockComment depth rest).map (fun (_, r) => ([], r)) = some (ls, r)) :
    Leaves rest ls r := by
  obtain ⟨⟨s, r⟩, hbody, heq⟩ := Option.map_eq_some_iff.mp h
  cases heq
  refine .blank fun x => ?_
  have hcount := blockComment_count hbody x
  omega

theorem leaves_documentedBlock {inner : Bool} {rest : List Char}
    (h : ((blockComment 0 rest).bind fun (s, r) => if hasLoneReturn s then none
      else some ([Lexeme.comment inner (String.ofList s)], r)) = some (ls, r)) :
    Leaves rest ls r := by
  obtain ⟨⟨s, r'⟩, hbody, heq⟩ := Option.bind_eq_some_iff.mp h
  exact leaves_documentation (blockComment_count hbody) heq

/-- A comment takes a slash and more. -/
theorem comment_leaves (h : comment? cs = some (some (ls, r))) :
    ∃ tail, Leaves tail ls r ∧ ('/' :: tail).Sublist cs := by
  have hblank {tail : List Char} : Leaves tail [] (tail.dropWhile (· != '\n')) :=
    .blank fun x => (List.dropWhile_sublist _).count_le x
  unfold comment? at h
  simp only at h
  split at h
  · next tail => exact ⟨tail, leaves_documentation (count_line tail _) (Option.some.inj h), by simp⟩
  · next tail =>
    cases h
    exact ⟨'/' :: '/' :: '/' :: tail, hblank, List.Sublist.refl _⟩
  · next tail _ =>
    exact ⟨tail, leaves_documentation (count_line tail _) (Option.some.inj h), by simp⟩
  · next tail _ _ _ =>
    cases h
    exact ⟨tail, hblank, by simp⟩
  · next rest =>
    cases h
    exact ⟨'*' :: '*' :: '/' :: r,
      .blank fun x => (List.sublist_append_right ['*', '*', '/'] r).count_le x, List.Sublist.refl _⟩
  · next rest => exact ⟨_, leaves_block (Option.some.inj h), by simp⟩
  · next rest _ _ => exact ⟨rest, leaves_documentedBlock (Option.some.inj h), by simp⟩
  · next rest => exact ⟨rest, leaves_documentedBlock (Option.some.inj h), by simp⟩
  · next rest _ _ _ _ => exact ⟨rest, leaves_block (Option.some.inj h), by simp⟩
  · cases h

/-- A comment leaves fewer slashes than it takes, and no more of any other character. -/
theorem comment_count (h : comment? cs = some (some (ls, r))) (x : Char) :
    countIn x ls + r.count x + ['/'].count x ≤ cs.count x := by
  obtain ⟨tail, hleaves, hsublist⟩ := comment_leaves h
  have hcount := hsublist.count_le x
  have htail := hleaves.count x
  simp only [List.count_cons, List.count_nil] at hcount ⊢
  omega

theorem count_bracket {c : Char} {l : Lexeme} (h : bracket? c = some l) (x : Char) :
    l.count x = 0 := by
  unfold bracket? at h
  split_ifs at h <;> cases h <;> rfl

/-- What is no comment leaves no more of a character than it takes. -/
theorem step_count (hcomment : comment? cs = none) (h : step cs = some (ls, r)) (x : Char) :
    countIn x ls + r.count x ≤ cs.count x := by
  by_cases hlost : lostLiteral.toList <+: cs
  · obtain ⟨rest, rfl⟩ := hlost
    cases h
    have hdrop : (lostLiteral.toList ++ rest).drop lostLiteral.length = rest := rfl
    simp [Lexeme.count, Token.text, hdrop]
  · cases cs with
    | nil => cases h
    | cons c rest =>
      by_cases hc : c ∈ brackets
      · obtain ⟨l, hl⟩ := bracket_of_mem hc
        rw [step_bracket hcomment hlost hl] at h
        cases h
        simp [count_bracket hl, List.count_cons]
      · rw [step_other hcomment hlost hc] at h
        split at h
        · cases h
          simp [List.count_cons]
        · split at h
          · next s rest' hliteral =>
            cases h
            rw [← literal_front hliteral]
            simp [Lexeme.count, Token.text]
          · split at h
            · next token rest' hpunct =>
              cases h
              obtain ⟨c, joint, rfl, hfront⟩ := punct_front hpunct
              rw [← hfront]
              simp [Lexeme.count, Token.text, List.count_cons]
              omega
            · split at h
              · cases h
              · obtain ⟨⟨s, rest'⟩, hname, heq⟩ := Option.map_eq_some_iff.mp h
                cases heq
                rw [← anyIdent_front hname]
                simp [Lexeme.count, Token.text]

end

/-- What was lexed of a text has no more of a character than the text. -/
theorem lexemes_count {n : Nat} {cs : List Char} {ls : List Lexeme} (h : lexemes n cs = some ls)
    (x : Char) : countIn x ls ≤ cs.count x := by
  fun_induction lexemes n cs generalizing ls with
  | case1 =>
    cases h
    simp
  | case2 => cases h
  | case3 => cases h
  | case4 n cs hcs more r hstep ih =>
    obtain ⟨ls', hls, rfl⟩ := Option.map_eq_some_iff.mp h
    have hrest := ih hls
    rw [countIn_append]
    cases hcomment : comment? cs with
    | none =>
      have hcount := step_count hcomment hstep x
      omega
    | some outcome =>
      rw [step.eq_def, hcomment] at hstep
      obtain rfl : outcome = some (more, r) := hstep
      have hcount := comment_count hcomment x
      omega

theorem lexemes_step {n : Nat} {cs r : List Char} {ls : List Lexeme}
    (h : step cs = some (ls, r)) : lexemes (n + 1) cs = (lexemes n r).map (ls ++ ·) := by
  cases cs with
  | nil => cases h
  | cons c rest =>
    rw [lexemes, h]
    nofun

def Lexes (cs : List Char) (ls : List Lexeme) (t : List Char) : Prop :=
  ∃ k ≤ cs.length, ∀ n, lexemes (k + n) (cs ++ t) = (lexemes n t).map (ls ++ ·)

/-- A text without comments is lexed alone as it is inside a larger one. -/
theorem lexes_of_lexemes {n : Nat} {cs t : List Char} {ls : List Lexeme} (ht : Closes t)
    (hlost : ∀ c ∈ t.head?, c ∉ lostLiteral.toList) (h : lexemes n cs = some ls)
    (hcount : cs.count '/' ≤ countIn '/' ls)
    (hend : startsPunct t = true → ∀ c joint, ls.getLast? ≠ some (.leaf (.punct c joint))) :
    ∃ k ≤ n, ∀ m, lexemes (k + m) (cs ++ t) = (lexemes m t).map (ls ++ ·) := by
  fun_induction lexemes n cs generalizing ls with
  | case1 n =>
    cases h
    refine ⟨0, Nat.zero_le n, fun m => ?_⟩
    simp
  | case2 => cases h
  | case3 => cases h
  | case4 n cs hcs more r hstep ih =>
    obtain ⟨ls', hls, rfl⟩ := Option.map_eq_some_iff.mp h
    have hrest := lexemes_count hls '/'
    rw [countIn_append] at hcount
    have hcomment : comment? cs = none := by
      cases hcomment : comment? cs with
      | none => rfl
      | some outcome =>
        rw [step.eq_def, hcomment] at hstep
        obtain rfl : outcome = some (more, r) := hstep
        have hstrict := comment_count hcomment '/'
        simp only [List.count_singleton_self] at hstrict
        omega
    have hstepCount := step_count hcomment hstep '/'
    obtain ⟨k, hk, hlexes⟩ := ih hls (by omega) fun hpunct c joint hlast =>
      hend hpunct c joint (by rw [List.getLast?_append, hlast]; rfl)
    have hlocal : step (cs ++ t) = some (more, r ++ t) := by
      refine step_append ht hcomment hstep (prefix_of_prefix_append hlost)
        fun hr hpunct c joint hmore => ?_
      subst hr hmore
      have hnil : ls' = [] := by
        rw [lexemes] at hls
        exact (Option.some.inj hls).symm
      exact hend hpunct c joint (by rw [hnil]; rfl)
    refine ⟨k + 1, Nat.succ_le_succ hk, fun m => ?_⟩
    rw [Nat.add_right_comm, lexemes_step hlocal, hlexes, Option.map_map]
    simp [Function.comp_def, List.append_assoc]

def Unadded (x : Char) : Prop := x = '/' ∨ x = '\ufeff'

section

variable {x : Char}

/-- But for blanks, the characters of printed tokens are those of the tokens. -/
theorem count_textOf (hx : Unadded x) (ts : List Token) :
    (Token.textOf ts).toList.count x = (ts.map (·.text.toList.count x)).sum := by
  match ts with
  | [] => simp [Token.textOf]
  | [t] => simp [Token.textOf]
  | t :: u :: rest =>
    have hspace : (if t.isJoint then "" else " ").toList.count x = 0 := by
      rcases hx with rfl | rfl <;> cases t.isJoint <;> rfl
    rw [Token.textOf, String.toList_append, String.toList_append, List.count_append,
      List.count_append, hspace, count_textOf hx (u :: rest)]
    simp

theorem count_group (hx : Unadded x) (d : Delimiter) (content : List Token) :
    (Token.group d content).text.toList.count x = (Token.textOf content).toList.count x := by
  rcases hx with rfl | rfl <;> cases d <;> cases h : content.isEmpty <;>
    simp [Token.text, Delimiter.opening, Delimiter.closing, h]

theorem mem_toDigits {n : Nat} {c : Char} (hc : c ∈ Nat.toDigits 16 n) :
    ∃ d < 16, c = Nat.digitChar d := by
  induction n using Nat.strongRecOn with
  | ind n ih =>
    rw [Nat.toDigits_eq_if (by decide)] at hc
    split at hc
    · next hn => exact ⟨n, hn, List.mem_singleton.mp hc⟩
    · next hn =>
      rcases List.mem_append.mp hc with hc | hc
      · exact ih (n / 16) (by omega) hc
      · exact ⟨n % 16, Nat.mod_lt _ (by decide), List.mem_singleton.mp hc⟩

theorem count_hex (hx : Unadded x) (n : Nat) : (Escape.hex n).toList.count x = 0 := by
  refine List.count_eq_zero.mpr fun hmem => ?_
  rw [Escape.hex, String.toList_ofList] at hmem
  obtain ⟨d, hd, rfl⟩ := mem_toDigits hmem
  have hdigits : ∀ d < 16, Nat.digitChar d ≠ '/' ∧ Nat.digitChar d ≠ '\ufeff' := by decide
  exact hx.elim (hdigits d hd).1 (hdigits d hd).2

/-- An escaped character shows, if at all, as itself. -/
theorem count_char (hx : Unadded x) (c : Char) :
    (Escape.char c).toList.count x ≤ [c].count x := by
  have hhex := count_hex hx c.toNat
  unfold Escape.char
  split_ifs
  · rcases hx with rfl | rfl <;> simp
  · rcases hx with rfl | rfl <;> simp
  · rcases hx with rfl | rfl <;> simp
  · rcases hx with rfl | rfl <;> simp
  · rcases hx with rfl | rfl <;> simp
  · rcases hx with rfl | rfl <;> simp
  · rw [String.toList_append, String.toList_append, List.count_append, List.count_append, hhex]
    rcases hx with rfl | rfl <;> simp
  · simp

theorem count_quoted (hx : Unadded x) (s : String) :
    (Escape.quoted s).toList.count x ≤ s.toList.count x := by
  have hjoin : ((s.toList.map Escape.char).flatMap String.toList).count x ≤ s.toList.count x := by
    induction s.toList with
    | nil => simp
    | cons c rest ih =>
      have hc := count_char hx c
      simp only [List.map_cons, List.flatMap_cons, List.count_append, List.count_cons,
        List.count_nil] at ih hc ⊢
      omega
  rw [Escape.quoted, String.toList_append, String.toList_append, List.count_append,
    List.count_append, String.toList_join]
  rcases hx with rfl | rfl <;> simpa using hjoin

theorem count_documentation (hx : Unadded x) (inner : Bool) (text : String) :
    ((documentationTokens inner text).map (·.text.toList.count x)).sum ≤ text.toList.count x := by
  have hquoted := count_quoted hx text
  have hgroup : (Token.group .bracket
      [.ident "doc", .punct '=' false, .literal (Escape.quoted text)]).text.toList.count x =
        (Escape.quoted text).toList.count x := by
    rw [count_group hx, count_textOf hx]
    rcases hx with rfl | rfl <;> simp [Token.text]
  have hmarks : ∀ c ∈ ['#', '!'], (Token.punct c false).text.toList.count x = 0 := by
    rcases hx with rfl | rfl <;> simp [Token.text]
  cases inner <;>
    simpa [documentationTokens, hgroup, hmarks] using hquoted

def tally (x : Char) (state : List Token × List Frame) : Nat :=
  (state.1.map (·.text.toList.count x)).sum +
    (state.2.map fun frame => (frame.2.map (·.text.toList.count x)).sum).sum

/-- Nesting a token adds no character to what was read. -/
theorem tally_nestStep (hx : Unadded x) {state state' : List Token × List Frame} {l : Lexeme}
    (h : nestStep state l = some state') : tally x state' ≤ tally x state + l.count x := by
  cases l with
  | leaf t =>
    cases h
    simp only [tally, Lexeme.count, List.map_cons, List.sum_cons]
    omega
  | comment inner text =>
    cases h
    have hdoc := count_documentation hx inner text
    simp only [tally, Lexeme.count, List.map_append, List.sum_append, List.map_reverse,
      List.sum_reverse] at hdoc ⊢
    omega
  | opening d =>
    cases h
    simp only [tally, Lexeme.count, List.map_cons, List.sum_cons, List.map_nil, List.sum_nil]
    omega
  | closing d =>
    unfold nestStep at h
    simp only at h
    split at h
    · cases h
    · next e before frames hframes =>
      split at h
      · cases h
        have hgroup := count_group hx d state.1.reverse
        rw [count_textOf hx] at hgroup
        simp only [tally, Lexeme.count, hframes, List.map_cons, List.sum_cons, List.map_reverse,
          List.sum_reverse, hgroup]
        omega
      · cases h

theorem tally_foldlM (hx : Unadded x) {ls : List Lexeme} {state state' : List Token × List Frame}
    (h : ls.foldlM nestStep state = some state') :
    tally x state' ≤ tally x state + countIn x ls := by
  induction ls generalizing state with
  | nil =>
    cases h
    simp
  | cons l ls ih =>
    obtain ⟨next, hstep, hrest⟩ := Option.bind_eq_some_iff.mp h
    have htally := tally_nestStep hx hstep
    have hls := ih hrest
    rw [countIn_cons]
    omega

theorem count_of_nest (hx : Unadded x) {ls : List Lexeme} {ts : List Token}
    (h : nest ls = some ts) : (Token.textOf ts).toList.count x ≤ countIn x ls := by
  unfold nest at h
  split at h
  · next out hfold =>
    cases h
    have htally := tally_foldlM hx hfold
    rw [count_textOf hx]
    simpa [tally, List.sum_reverse] using htally
  · cases h

end

def Nests (ls : List Lexeme) (ts : List Token) : Prop :=
  ∀ acc frames, ls.foldlM nestStep (acc, frames) = some (ts.reverse ++ acc, frames)

def inside (acc : List Token) (frames : List Frame) :
    List Token → List Frame → List Token × List Frame
  | out, [] => (out ++ acc, frames)
  | out, (d, before) :: inner =>
    (out, (d, (inside acc frames before inner).1) :: (inside acc frames before inner).2)

theorem inside_append (acc : List Token) (frames : List Frame) (ts out : List Token)
    (inner : List Frame) : inside acc frames (ts ++ out) inner =
      (ts ++ (inside acc frames out inner).1, (inside acc frames out inner).2) := by
  cases inner with
  | nil => simp [inside]
  | cons frame inner => rfl

/-- Tokens nest inside an open bracket as they do outside. -/
theorem nestStep_inside (acc : List Token) (frames : List Frame)
    {state state' : List Token × List Frame} {l : Lexeme} (h : nestStep state l = some state') :
    nestStep (inside acc frames state.1 state.2) l =
      some (inside acc frames state'.1 state'.2) := by
  cases l with
  | leaf t =>
    cases h
    exact congrArg some (inside_append acc frames [t] state.1 state.2).symm
  | comment inner text =>
    cases h
    exact congrArg some (inside_append acc frames _ state.1 state.2).symm
  | opening d =>
    cases h
    rfl
  | closing d =>
    obtain ⟨out, inner⟩ := state
    cases inner with
    | nil => cases h
    | cons frame inner =>
      obtain ⟨e, before⟩ := frame
      simp only [nestStep] at h
      split at h
      · next hd =>
        cases h
        subst hd
        exact (if_pos rfl).trans
          (congrArg some (inside_append acc frames [.group d out.reverse] before inner).symm)
      · cases h

theorem foldlM_inside (acc : List Token) (frames : List Frame) {ls : List Lexeme}
    {state state' : List Token × List Frame} (h : ls.foldlM nestStep state = some state') :
    ls.foldlM nestStep (inside acc frames state.1 state.2) =
      some (inside acc frames state'.1 state'.2) := by
  induction ls generalizing state with
  | nil =>
    cases h
    rfl
  | cons l ls ih =>
    obtain ⟨next, hstep, hrest⟩ := Option.bind_eq_some_iff.mp h
    exact Option.bind_eq_some_iff.mpr ⟨_, nestStep_inside acc frames hstep, ih hrest⟩

theorem nests_of_nest {ls : List Lexeme} {ts : List Token} (h : nest ls = some ts) :
    Nests ls ts := by
  unfold nest at h
  split at h
  · next out hfold =>
    cases h
    intro acc frames
    simpa [inside] using foldlM_inside acc frames hfold
  · cases h

/-- The last tree of a text is the last thing that was lexed, if that was no bracket. -/
theorem getLast_of_nest {ls : List Lexeme} {ts : List Token} {t : Token} (h : nest ls = some ts)
    (hlast : ls.getLast? = some (.leaf t)) : ts.getLast? = some t := by
  obtain ⟨ls, rfl⟩ := List.getLast?_eq_some_iff.mp hlast
  unfold nest at h
  split at h
  · next out hfold =>
    cases h
    rw [List.foldlM_append] at hfold
    obtain ⟨⟨acc, frames⟩, -, hstep⟩ := Option.bind_eq_some_iff.mp hfold
    cases hstep
    simp
  · cases h

def Spans (cs : List Char) (ts : List Token) (t : List Char) : Prop :=
  ∃ ls, Lexes cs ls t ∧ Nests ls ts

section

variable {cs more t : List Char} {ts us : List Token}

theorem Lexes.append {ls ls' : List Lexeme} (h : Lexes cs ls (more ++ t))
    (hmore : Lexes more ls' t) : Lexes (cs ++ more) (ls ++ ls') t := by
  obtain ⟨k, hk, hlexes⟩ := h
  obtain ⟨m, hm, hlexes'⟩ := hmore
  refine ⟨k + m, by simp only [List.length_append]; omega, fun n => ?_⟩
  rw [List.append_assoc, Nat.add_assoc, hlexes, hlexes', Option.map_map]
  simp [Function.comp_def]

theorem lexes_step {ls : List Lexeme} (hcs : cs ≠ []) (h : step (cs ++ t) = some (ls, t)) :
    Lexes cs ls t := by
  refine ⟨1, List.length_pos_iff.mpr hcs, fun n => ?_⟩
  rw [Nat.add_comm, lexemes_step h]

theorem Nests.append {ls ls' : List Lexeme} (h : Nests ls ts) (h' : Nests ls' us) :
    Nests (ls ++ ls') (ts ++ us) := by
  intro acc frames
  rw [List.foldlM_append, h]
  simpa using h' (ts.reverse ++ acc) frames

theorem Nests.group {ls : List Lexeme} (d : Delimiter) (h : Nests ls ts) :
    Nests (.opening d :: ls ++ [.closing d]) [.group d ts] := by
  intro acc frames
  have hinner := h [] ((d, acc) :: frames)
  simp only [List.cons_append, List.foldlM_cons, nestStep, Option.bind_eq_bind, Option.bind_some,
    List.foldlM_append, hinner]
  simp

theorem Spans.nil : Spans [] [] t :=
  ⟨[], ⟨0, Nat.zero_le _, fun n => by simp⟩, fun _ _ => rfl⟩

theorem Spans.append (h : Spans cs ts (more ++ t)) (hmore : Spans more us t) :
    Spans (cs ++ more) (ts ++ us) t := by
  obtain ⟨ls, hlexes, hnests⟩ := h
  obtain ⟨ls', hlexes', hnests'⟩ := hmore
  exact ⟨ls ++ ls', hlexes.append hlexes', hnests.append hnests'⟩

theorem Spans.token {token : Token} (hcs : cs ≠ [])
    (h : step (cs ++ t) = some ([.leaf token], t)) : Spans cs [token] t :=
  ⟨[.leaf token], lexes_step hcs h, fun _ _ => rfl⟩

theorem Spans.blank (hcs : cs ≠ []) (h : step (cs ++ t) = some ([], t)) : Spans cs [] t :=
  ⟨[], lexes_step hcs h, fun _ _ => rfl⟩

theorem Spans.group {d : Delimiter} {a b : Char} (h : Spans cs ts (b :: t))
    (hopening : step (a :: (cs ++ b :: t)) = some ([.opening d], cs ++ b :: t))
    (hclosing : step (b :: t) = some ([.closing d], t)) :
    Spans (a :: cs ++ [b]) [.group d ts] t := by
  obtain ⟨ls, hlexes, hnests⟩ := h
  have hfront : Lexes [a] [.opening d] (cs ++ b :: t) := lexes_step (by simp) hopening
  have hback : Lexes [b] [.closing d] t := lexes_step (by simp) hclosing
  refine ⟨_, ?_, hnests.group d⟩
  have hinner : Lexes (cs ++ [b]) (ls ++ [.closing d]) t := hlexes.append hback
  have hall : Lexes ([a] ++ (cs ++ [b])) ([.opening d] ++ (ls ++ [.closing d])) t :=
    Lexes.append (by simpa using hfront) hinner
  simpa using hall

/-- A text that stands for some trees up to its end is lexed as these. -/
theorem tokens_of_spans {text : String} (h : Spans text.toList ts [])
    (hmark : text.toList.head? ≠ some '\ufeff') : tokens? text = some ts := by
  obtain ⟨ls, ⟨k, hk, hlexes⟩, hnests⟩ := h
  have hall : lexemes text.toList.length text.toList = some ls := by
    have hlexes := hlexes (text.toList.length - k)
    rw [Nat.add_sub_cancel' hk, List.append_nil, lexemes] at hlexes
    simpa using hlexes
  unfold tokens?
  simp only
  split
  · next rest heq =>
    rw [heq] at hmark
    exact absurd rfl hmark
  · rw [hall, Option.bind_some, nest, hnests [] []]
    simp

end

/-- What is lexed as the tokens whose text it is stands for them in a closed text too. -/
theorem spans_of_tokens {ts : List Token} {t : List Char}
    (h : tokens? (Token.textOf ts) = some ts) (ht : Closes t)
    (hlost : ∀ c ∈ t.head?, c ∉ lostLiteral.toList)
    (hend : startsPunct t = true → ∀ c joint, ts.getLast? ≠ some (.punct c joint)) :
    Spans (Token.textOf ts).toList ts t := by
  unfold tokens? at h
  simp only at h
  split at h
  · next rest heq =>
    -- a byte order mark would be lost
    obtain ⟨ls, hls, hnest⟩ := Option.bind_eq_some_iff.mp h
    have htext := count_of_nest (x := '\ufeff') (.inr rfl) hnest
    have hcount := lexemes_count hls '\ufeff'
    rw [heq, List.count_cons_self] at htext
    omega
  · obtain ⟨ls, hls, hnest⟩ := Option.bind_eq_some_iff.mp h
    have hcount := count_of_nest (x := '/') (.inl rfl) hnest
    refine ⟨ls, lexes_of_lexemes ht hlost hls hcount ?_, nests_of_nest hnest⟩
    exact fun hpunct c joint hlast => hend hpunct c joint (getLast_of_nest hnest hlast)

end Lexer

end RecordStore
