import FeatureFlags.Json.Printer
import FeatureFlags.Proofs.Json.Numerals
import Mathlib.Data.List.Chain
import Mathlib.Tactic.IntervalCases

/-!
# Proofs/Json/Lexing — the lexemes of a text

A lexeme is a token as a text spells it: for a string it is recorded whether an escape stands in it.
`Lexer.lexemes?` reads the lexemes of a text with the steps of the machine, so a text has the tokens
of its lexemes (`Lexer.ofText?_eq_lexemes?`).

The text of a row of tokens gives their lexemes, whatever follows it, as long as no two words or
numerals touch (`Token.lexemesFrom_texts`).
-/

namespace FeatureFlags

namespace Lexer

/-! ## Lexemes -/

/-- **A token as it is spelled**: a string with an escape in it, or without. -/
structure Lexeme where
  token : Token
  escaped : Bool
  deriving DecidableEq, Inhabited, Repr

/-- Only strings have escapes. -/
def mark (escaped : Bool) : Token → Lexeme
  | .str s => ⟨.str s, escaped⟩
  | t => ⟨t, false⟩

@[simp] theorem mark_token (escaped : Bool) (t : Token) : (mark escaped t).token = t := by
  cases t <;> rfl

/-- An escape has been met in the string at hand, now that the machine is in this state. -/
def State.escapeMet (escaped : Bool) : State → Bool
  | .escape _ => true
  | .between => false
  | .word _ => false
  | .numeral _ => false
  | .string [] => false
  | _ => escaped

/-- **The lexemes of the rest of a text**, from a state of the machine on. -/
def lexemesFrom (state : State) (escaped : Bool) : List Char → Option (List Lexeme)
  | [] => (finish state).map (·.map (mark escaped))
  | c :: cs =>
    match step state c with
    | none => none
    | some (next, ts) =>
      (lexemesFrom next (next.escapeMet escaped) cs).map (ts.map (mark escaped) ++ ·)

/-- **The lexemes of a text.** -/
def lexemes? (cs : List Char) : Option (List Lexeme) := lexemesFrom .between false cs

variable {state next : State} {escaped : Bool} {c : Char} {cs rest : List Char}

theorem lexemesFrom_cons_some {ts : List Token} (h : step state c = some (next, ts)) :
    lexemesFrom state escaped (c :: cs) =
      (lexemesFrom next (next.escapeMet escaped) cs).map (ts.map (mark escaped) ++ ·) := by
  rw [lexemesFrom, h]

theorem lexemesFrom_cons (h : step state c = some (next, [])) :
    lexemesFrom state escaped (c :: cs) = lexemesFrom next (next.escapeMet escaped) cs := by
  rw [lexemesFrom_cons_some h]
  exact congrFun Option.map_id _

theorem lexemesFrom_cons_none (h : step state c = none) :
    lexemesFrom state escaped (c :: cs) = none := by
  rw [lexemesFrom, h]

/-- **Lexemes begin with those that the first step completes.** -/
theorem exists_of_lexemesFrom_cons {ls : List Lexeme}
    (h : lexemesFrom state escaped (c :: cs) = some ls) :
    ∃ next ts more, step state c = some (next, ts) ∧
      lexemesFrom next (next.escapeMet escaped) cs = some more ∧ ls = ts.map (mark escaped) ++ more := by
  cases hstep : step state c with
  | none =>
    rw [lexemesFrom_cons_none hstep] at h
    cases h
  | some result =>
    rw [lexemesFrom_cons_some hstep] at h
    obtain ⟨more, hmore, rfl⟩ := Option.map_eq_some_iff.mp h
    exact ⟨result.1, result.2, more, rfl, hmore, rfl⟩

/-- The machine completes the tokens of the lexemes. -/
theorem run_eq_lexemesFrom (state : State) (escaped : Bool) (done : List Token) (cs : List Char) :
    ((Machine.mk state done).run cs).bind
        (fun m => (finish m.state).map (m.completed.reverse ++ ·)) =
      (lexemesFrom state escaped cs).map fun ls => done.reverse ++ ls.map Lexeme.token := by
  induction cs generalizing state escaped done with
  | nil => simp [Machine.run, lexemesFrom, Function.comp_def]
  | cons c cs ih =>
    cases hstep : step state c with
    | none => simp [Machine.run, Machine.take, hstep, lexemesFrom_cons_none hstep]
    | some result =>
      obtain ⟨next, ts⟩ := result
      have hrun : (Machine.mk state done).run (c :: cs) =
          (Machine.mk next (ts.reverse ++ done)).run cs := by
        simp [Machine.run, Machine.take, hstep]
      rw [hrun, ih next (next.escapeMet escaped), lexemesFrom_cons_some hstep, Option.map_map]
      simp [Function.comp_def]

/-- **A text has the tokens of its lexemes.** -/
theorem ofText?_eq_lexemes? (cs : List Char) :
    Token.ofText? cs = (lexemes? cs).map (·.map Lexeme.token) := by
  have := run_eq_lexemesFrom .between false [] cs
  simpa [Token.ofText?, start, lexemes?] using this

/-- What a text has been read as up to some place, and what is left. -/
theorem exists_run_of_lexemesFrom {state : State} {escaped : Bool} {done : List Token}
    {ls : List Lexeme} (h : lexemesFrom state escaped (cs ++ rest) = some ls) :
    ∃ m met ms more, (Machine.mk state done).run cs = some m ∧ ls = ms ++ more ∧
      m.completed = (ms.map Lexeme.token).reverse ++ done ∧
      lexemesFrom m.state met rest = some more := by
  induction cs generalizing state escaped done ls with
  | nil => exact ⟨⟨state, done⟩, escaped, [], ls, rfl, rfl, rfl, h⟩
  | cons c cs ih =>
    rw [List.cons_append] at h
    obtain ⟨next, ts, ls, hstep, hls, rfl⟩ := exists_of_lexemesFrom_cons h
    obtain ⟨m, met, ms, more, hrun, rfl, hdone, hmore⟩ := @ih next _ (ts.reverse ++ done) ls hls
    refine ⟨m, met, ts.map (mark escaped) ++ ms, more, ?_, by simp, ?_, hmore⟩
    · simpa [Machine.run, Machine.take, hstep] using hrun
    · simp [hdone, Function.comp_def]

/-! ## Blanks and single characters -/

/-- The token of a single character. -/
def single? : Char → Option Token
  | '\x7b' => some .openBrace
  | '\x7d' => some .closeBrace
  | '[' => some .openBracket
  | ']' => some .closeBracket
  | ':' => some .colon
  | ',' => some .comma
  | _ => none

/-- **A step outside every token**: a blank, a single-character token, or the first character of a
longer one. -/
theorem step_between_cases {ts : List Token} (h : step .between c = some (next, ts)) :
    (isBlank c = true ∧ next = .between ∧ ts = []) ∨
      (∃ t, single? c = some t ∧ next = .between ∧ ts = [t]) ∨
      (c = '"' ∧ next = .string [] ∧ ts = []) ∨
      (isNumeralStart c = true ∧ next = .numeral [c] ∧ ts = []) ∨
      (c.isLower = true ∧ next = .word [c] ∧ ts = []) := by
  have hinj {s : State} {us : List Token} (h : some (s, us) = some (next, ts)) :
      next = s ∧ ts = us :=
    ⟨(Prod.mk.inj (Option.some.inj h)).1.symm, (Prod.mk.inj (Option.some.inj h)).2.symm⟩
  simp only [step, stepBetween] at h
  split at h
  · exact .inl ⟨‹_›, hinj h⟩
  iterate 6
    split at h
    · subst c
      exact .inr (.inl ⟨_, rfl, hinj h⟩)
  split at h
  · exact .inr (.inr (.inl ⟨‹_›, hinj h⟩))
  split at h
  · exact .inr (.inr (.inr (.inl ⟨‹_›, hinj h⟩)))
  split at h
  · exact .inr (.inr (.inr (.inr ⟨‹_›, hinj h⟩)))
  · cases h

theorem step_single {t : Token} (h : single? c = some t) :
    step .between c = some (.between, [t]) := by
  unfold single? at h
  split at h <;> cases h <;> rfl

/-- Outside every token there is no string at hand. -/
theorem lexemesFrom_between : lexemesFrom .between escaped cs = lexemesFrom .between false cs := by
  cases cs with
  | nil => rfl
  | cons c cs =>
    cases hstep : step .between c with
    | none => rw [lexemesFrom_cons_none hstep, lexemesFrom_cons_none hstep]
    | some result =>
      obtain ⟨next, ts⟩ := result
      have hmark : ts.map (mark escaped) = ts.map (mark false) ∧
          next.escapeMet escaped = next.escapeMet false := by
        rcases step_between_cases hstep with ⟨-, rfl, rfl⟩ | ⟨t, ht, rfl, rfl⟩ | ⟨-, rfl, rfl⟩ |
          ⟨-, rfl, rfl⟩ | ⟨-, rfl, rfl⟩
        case inr.inl =>
          unfold single? at ht
          split at ht <;> cases ht <;> exact ⟨rfl, rfl⟩
        all_goals exact ⟨rfl, rfl⟩
      rw [lexemesFrom_cons_some hstep, lexemesFrom_cons_some hstep, hmark.1, hmark.2]

theorem lexemesFrom_single {t : Token} (h : single? c = some t) :
    lexemesFrom .between escaped (c :: cs) =
      (lexemesFrom .between false cs).map (mark false t :: ·) := by
  rw [lexemesFrom_between]
  exact lexemesFrom_cons_some (step_single h)

/-! ## Ends of words and numerals -/

/-- **A text that goes on with no word and no numeral.** -/
def Cut (cs : List Char) : Prop := ∀ c ∈ cs.head?, isNumeralPart c = false ∧ c.isLower = false

theorem cut_nil : Cut [] := nofun

theorem cut_cons : Cut (c :: cs) ↔ isNumeralPart c = false ∧ c.isLower = false := by
  simp [Cut]

/-- The token of a word or a numeral, should it end here. -/
def completed? : State → Option Token
  | .word taken => wordToken? taken.reverse
  | .numeral taken => (Number.ofLexeme? taken.reverse).map .num
  | _ => none

/-- The character goes on with the word or the numeral. -/
def continues : State → Char → Bool
  | .word _, c => c.isLower
  | .numeral _, c => isNumeralPart c
  | _, _ => true

theorem step_of_not_continues (h : continues state c = false) :
    step state c = (completed? state).bind fun t =>
      (step .between c).map fun result => (result.1, t :: result.2) := by
  cases state with
  | word taken =>
    have hc : c.isLower = false := h
    simp only [step, hc, completed?]
    cases wordToken? taken.reverse <;> cases stepBetween c <;> rfl
  | numeral taken =>
    have hc : isNumeralPart c = false := h
    simp only [step, hc, completed?]
    cases Number.ofLexeme? taken.reverse <;> cases stepBetween c <;> rfl
  | _ => cases h

theorem step_of_continues (hstate : ∃ taken, state = .word taken ∨ state = .numeral taken)
    (h : continues state c = true) :
    ∃ next, (∃ taken, next = .word taken ∨ next = .numeral taken) ∧
      step state c = some (next, []) := by
  obtain ⟨taken, rfl | rfl⟩ := hstate
  · exact ⟨.word (c :: taken), ⟨_, .inl rfl⟩, if_pos h⟩
  · exact ⟨.numeral (c :: taken), ⟨_, .inr rfl⟩, if_pos h⟩

/-- **A step inside a word or a numeral** goes on with it, or completes it and is a step outside every
token. -/
theorem step_bare_cases {ts : List Token}
    (hstate : ∃ taken, state = .word taken ∨ state = .numeral taken)
    (h : step state c = some (next, ts)) :
    ((∃ taken, next = .word taken ∨ next = .numeral taken) ∧ ts = []) ∨
      ∃ t us, completed? state = some t ∧ step .between c = some (next, us) ∧ ts = t :: us := by
  cases hcont : continues state c with
  | true =>
    obtain ⟨next', hnext, hstep⟩ := step_of_continues hstate hcont
    obtain ⟨rfl, rfl⟩ := Prod.mk.inj (Option.some.inj (hstep.symm.trans h))
    exact .inl ⟨hnext, rfl⟩
  | false =>
    rw [step_of_not_continues hcont] at h
    obtain ⟨t, ht, h⟩ := Option.bind_eq_some_iff.mp h
    obtain ⟨⟨_, us⟩, hbetween, h⟩ := Option.map_eq_some_iff.mp h
    obtain ⟨rfl, rfl⟩ := Prod.mk.inj h
    exact .inr ⟨t, us, ht, hbetween, rfl⟩

/-- **A word or a numeral that ends** gives its token. -/
theorem lexemesFrom_completed (hstate : ∃ taken, state = .word taken ∨ state = .numeral taken)
    (h : ∀ c ∈ cs.head?, continues state c = false) :
    lexemesFrom state escaped cs =
      (completed? state).bind fun t => (lexemesFrom .between false cs).map (mark escaped t :: ·) := by
  cases cs with
  | nil =>
    obtain ⟨taken, rfl | rfl⟩ := hstate
    · cases hword : wordToken? taken.reverse <;> simp [lexemesFrom, finish, completed?, hword]
    · cases hnum : Number.ofLexeme? taken.reverse <;> simp [lexemesFrom, finish, completed?, hnum]
  | cons c cs =>
    have hstep := step_of_not_continues (h c rfl)
    cases hdone : completed? state with
    | none =>
      rw [hdone] at hstep
      rw [lexemesFrom_cons_none hstep]
      rfl
    | some t =>
      cases hnext : step .between c with
      | none =>
        rw [hdone, hnext] at hstep
        rw [lexemesFrom_cons_none hstep, Option.bind_some, lexemesFrom_cons_none hnext]
        rfl
      | some result =>
        obtain ⟨next, ts⟩ := result
        rw [hdone, hnext] at hstep
        rw [lexemesFrom_cons_some hstep, Option.bind_some, ← @lexemesFrom_between escaped,
          lexemesFrom_cons_some hnext, Option.map_map]
        rfl

/-! ## Inside a string -/

/-- Characters that complete no token. -/
def quietRun : State → Bool → List Char → Option (State × Bool)
  | state, escaped, [] => some (state, escaped)
  | state, escaped, c :: cs =>
    match step state c with
    | some (next, []) => quietRun next (next.escapeMet escaped) cs
    | _ => none

theorem lexemesFrom_quietRun {met : Bool} (h : quietRun state escaped cs = some (next, met)) :
    lexemesFrom state escaped (cs ++ rest) = lexemesFrom next met rest := by
  induction cs generalizing state escaped with
  | nil =>
    obtain ⟨rfl, rfl⟩ := Prod.mk.inj (Option.some.inj h)
    rfl
  | cons c cs ih =>
    rw [quietRun] at h
    split at h
    · rename_i hstep
      rw [List.cons_append, lexemesFrom_cons hstep, ih h]
    · cases h

/-- **A character that is written with an escape.** -/
def needsEscape (c : Char) : Bool := c = '"' || c = '\\' || decide (c.toNat < 0x20)

theorem step_string {taken : List Char} (h : needsEscape c = false) :
    step (.string taken) c = some (.string (c :: taken), []) := by
  simp only [needsEscape, Bool.or_eq_false_iff, decide_eq_false_iff_not] at h
  obtain ⟨⟨hquote, hslash⟩, hcontrol⟩ := h
  simp only [step]
  rw [if_neg hquote, if_neg hslash, if_neg hcontrol]

/-- What is not escaped is written as it is. -/
theorem escapeChar_of_not_needsEscape (h : needsEscape c = false) : Token.escapeChar c = [c] := by
  simp only [needsEscape, Bool.or_eq_false_iff, decide_eq_false_iff_not] at h
  obtain ⟨⟨hquote, hslash⟩, hcontrol⟩ := h
  unfold Token.escapeChar
  split
  case h_8 => rw [if_neg hcontrol]
  all_goals first | exact absurd rfl hquote | exact absurd rfl hslash | exact absurd (by decide) hcontrol

/-- **An escape is read as the character.** -/
theorem quietRun_escapeChar {taken : List Char} (h : needsEscape c = true) :
    quietRun (.string taken) escaped (Token.escapeChar c) = some (.string (c :: taken), true) := by
  simp only [needsEscape, Bool.or_eq_true, decide_eq_true_eq] at h
  rcases h with (rfl | rfl) | hcontrol
  · rfl
  · rfl
  · obtain ⟨n, hn, rfl⟩ : ∃ n, n < 0x20 ∧ c = Char.ofNat n :=
      ⟨c.toNat, hcontrol, (Char.ofNat_toNat c).symm⟩
    clear hcontrol
    interval_cases n <;> rfl

/-- **A written string is read back.** -/
theorem lexemesFrom_quote {taken s : List Char} (hfresh : taken = [] → escaped = false) :
    lexemesFrom (.string taken) escaped (s.flatMap Token.escapeChar ++ '"' :: rest) =
      (lexemesFrom .between false rest).map
        (⟨.str (String.ofList (taken.reverse ++ s)), escaped || s.any needsEscape⟩ :: ·) := by
  induction s generalizing taken escaped with
  | nil =>
    rw [List.flatMap_nil, List.nil_append, lexemesFrom_cons_some rfl, List.append_nil,
      List.any_nil, Bool.or_false]
    rfl
  | cons c s ih =>
    rw [List.flatMap_cons, List.append_assoc]
    cases hescape : needsEscape c with
    | false =>
      have hmet : (State.string (c :: taken)).escapeMet escaped = escaped := rfl
      rw [escapeChar_of_not_needsEscape hescape, List.singleton_append,
        lexemesFrom_cons (step_string hescape), hmet, ih (by simp)]
      simp [hescape]
    | true =>
      rw [lexemesFrom_quietRun (quietRun_escapeChar hescape), ih (by simp)]
      simp [hescape]

/-! ## The text of a token -/

theorem lexemesFrom_numeral {taken : List Char} (hparts : ∀ c ∈ cs, isNumeralPart c = true) :
    lexemesFrom (.numeral taken) false (cs ++ rest) =
      lexemesFrom (.numeral (cs.reverse ++ taken)) false rest := by
  induction cs generalizing taken with
  | nil => rfl
  | cons c cs ih =>
    obtain ⟨hc, hcs⟩ := List.forall_mem_cons.mp hparts
    have hstep : step (.numeral taken) c = some (.numeral (c :: taken), []) := by simp [step, hc]
    rw [List.cons_append, lexemesFrom_cons hstep, show State.escapeMet false _ = false from rfl,
      ih hcs, List.reverse_cons, List.append_assoc, List.singleton_append]

theorem step_numeralStart (h : isNumeralStart c = true) :
    step .between c = some (.numeral [c], []) := by
  have hne {d : Char} (hd : isNumeralStart d = false) : c ≠ d := by
    rintro rfl
    rw [h] at hd
    cases hd
  have hblank : isBlank c = false := by
    simp [isBlank, hne (show isNumeralStart ' ' = false from rfl),
      hne (show isNumeralStart '\t' = false from rfl), hne (show isNumeralStart '\n' = false from rfl),
      hne (show isNumeralStart '\r' = false from rfl)]
  simp only [step, stepBetween, hblank]
  rw [if_neg Bool.false_ne_true, if_neg (hne rfl), if_neg (hne rfl), if_neg (hne rfl),
    if_neg (hne rfl), if_neg (hne rfl), if_neg (hne rfl), if_neg (hne rfl), if_pos h]

end Lexer

/-! ## The text of a row of tokens -/

namespace Token

open Lexer

/-- **The lexeme of a token's own text.** -/
def lexeme : Token → Lexeme
  | str s => ⟨str s, s.toList.any needsEscape⟩
  | t => ⟨t, false⟩

@[simp] theorem lexeme_token (t : Token) : t.lexeme.token = t := by cases t <;> rfl

/-- The token is a word or a numeral, so that it must end where it ends. -/
def isBare : Token → Bool
  | null | bool _ | num _ => true
  | _ => false

/-- **The tokens may touch.** -/
def Apart (t u : Token) : Prop := ¬ (t.isBare = true ∧ u.isBare = true)

/-- The numbers of the token can be read. -/
def Readable : Token → Prop
  | num n => n.Readable
  | _ => True

theorem cut_text {t : Token} (h : t.isBare = false) (rest : List Char) : Cut (t.text ++ rest) := by
  cases t with
  | null | bool | num => cases h
  | _ => exact cut_cons.mpr ⟨rfl, rfl⟩

/-- A word ends where no letter follows. -/
theorem lexemesFrom_word {t : Token} {cs taken rest : List Char} (hcut : Cut rest)
    (hrun : quietRun .between false cs = some (.word taken, false))
    (htoken : wordToken? taken.reverse = some t) :
    lexemesFrom .between false (cs ++ rest) =
      (lexemesFrom .between false rest).map (mark false t :: ·) := by
  rw [lexemesFrom_quietRun hrun, lexemesFrom_completed ⟨taken, .inl rfl⟩
    fun c hc => (hcut c hc).2, completed?, htoken, Option.bind_some]

/-- A numeral ends where no part of a numeral follows. -/
theorem lexemesFrom_numeralText {n : Number} {rest : List Char} (hread : n.Readable)
    (hcut : Cut rest) :
    lexemesFrom .between false ((num n).text ++ rest) =
      (lexemesFrom .between false rest).map ((num n).lexeme :: ·) := by
  have hlexeme := Number.ofLexeme?_text hread
  have hparts := Number.isNumeralPart_of_ofLexeme? hlexeme
  obtain ⟨c, cs, htext, hstart⟩ := Number.isNumeralStart_of_ofLexeme? hlexeme
  rw [htext] at hparts hlexeme
  have hend : completed? (.numeral (cs.reverse ++ [c])) = some (num n) := by
    rw [completed?, List.reverse_append, List.reverse_reverse]
    exact congrArg (Option.map num) hlexeme
  rw [text, htext, List.cons_append, lexemesFrom_cons (step_numeralStart hstart),
    show State.escapeMet false _ = false from rfl,
    lexemesFrom_numeral (List.forall_mem_cons.mp hparts).2,
    lexemesFrom_completed ⟨_, .inr rfl⟩ fun c hc => (hcut c hc).1, hend, Option.bind_some]
  rfl

/-- **The text of a token gives its lexeme**, if it ends where it ends. -/
theorem lexemesFrom_text {t : Token} {rest : List Char} (hread : t.Readable)
    (hcut : t.isBare = true → Cut rest) :
    lexemesFrom .between false (t.text ++ rest) =
      (lexemesFrom .between false rest).map (t.lexeme :: ·) := by
  cases t with
  | null => exact lexemesFrom_word (t := null) (hcut rfl) rfl rfl
  | bool b => cases b <;> exact lexemesFrom_word (t := bool _) (hcut rfl) rfl rfl
  | num n => exact lexemesFrom_numeralText hread (hcut rfl)
  | str s =>
    rw [text, quote, List.cons_append, List.append_assoc, List.singleton_append,
      lexemesFrom_cons rfl, show State.escapeMet false (.string []) = false from rfl,
      lexemesFrom_quote fun _ => rfl]
    simp [lexeme]
  | openBrace => exact lexemesFrom_single (show single? '\x7b' = some openBrace from rfl)
  | closeBrace => exact lexemesFrom_single (show single? '\x7d' = some closeBrace from rfl)
  | openBracket => exact lexemesFrom_single (show single? '[' = some openBracket from rfl)
  | closeBracket => exact lexemesFrom_single (show single? ']' = some closeBracket from rfl)
  | colon => exact lexemesFrom_single (show single? ':' = some colon from rfl)
  | comma => exact lexemesFrom_single (show single? ',' = some comma from rfl)

/-- **The text of a row of tokens gives their lexemes.** -/
theorem lexemesFrom_texts {ts : List Token} {rest : List Char} (hchain : ts.IsChain Apart)
    (hread : ∀ t ∈ ts, t.Readable) (hcut : Cut rest) :
    lexemesFrom .between false (ts.flatMap text ++ rest) =
      (lexemesFrom .between false rest).map (ts.map lexeme ++ ·) := by
  induction ts with
  | nil => exact (congrFun Option.map_id _).symm
  | cons t ts ih =>
    obtain ⟨ht, hts⟩ := List.forall_mem_cons.mp hread
    have hnext : t.isBare = true → Cut (ts.flatMap text ++ rest) := by
      intro hbare
      cases ts with
      | nil => exact hcut
      | cons u us =>
        have hapart : Apart t u := by
          cases hchain
          assumption
        rw [List.flatMap_cons, List.append_assoc]
        exact cut_text (by simpa [Apart, hbare] using hapart) _
    have htail : ts.IsChain Apart := hchain.tail
    rw [List.flatMap_cons, List.append_assoc, lexemesFrom_text ht hnext, ih htail hts, Option.map_map]
    rfl

end Token

end FeatureFlags
