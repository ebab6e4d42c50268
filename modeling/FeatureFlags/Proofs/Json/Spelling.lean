import FeatureFlags.Proofs.Json.Lexing
import FeatureFlags.Text.Blank

/-!
# Proofs/Json/Spelling — how a text spells its tokens

Two texts may spell one row of tokens differently: with other blanks, and with other escapes in their
strings.  `Spells plain` says that a text spells a row of tokens, and the strings in `plain` without
escapes.  The text of a row of tokens spells it (`spells_texts`), and a text without a backslash spells
every string plainly (`spells_of_no_backslash`).

The second half reads off a text what it begins with, from the lexemes it has.
-/

namespace FeatureFlags

/-! ## Spelling -/

open Lexer

/-- The strings in `plain` have no escape. -/
def Plainly (plain : String → Prop) (ls : List Lexeme) : Prop :=
  ∀ l ∈ ls, ∀ s, l.token = .str s → plain s → l.escaped = false

/-- **A text spells a row of tokens**, and the strings in `plain` without escapes. -/
def Spells (plain : String → Prop) (cs : List Char) (ts : List Token) : Prop :=
  ∃ ls, lexemes? cs = some ls ∧ ls.map Lexeme.token = ts ∧ Plainly plain ls

/-- No character of the string is written with an escape. -/
def IsPlain (s : String) : Prop := s.toList.any needsEscape = false

instance (s : String) : Decidable (IsPlain s) := inferInstanceAs (Decidable (_ = _))

theorem Spells.ofText? {plain : String → Prop} {cs : List Char} {ts : List Token}
    (h : Spells plain cs ts) : Token.ofText? cs = some ts := by
  obtain ⟨ls, hls, rfl, -⟩ := h
  rw [ofText?_eq_lexemes?, hls]
  rfl

/-- **A text spells its tokens**, whatever is escaped. -/
theorem spells_of_ofText? {cs : List Char} {ts : List Token} (h : Token.ofText? cs = some ts) :
    Spells (fun _ => False) cs ts := by
  rw [ofText?_eq_lexemes?] at h
  obtain ⟨ls, hls, rfl⟩ := Option.map_eq_some_iff.mp h
  exact ⟨ls, hls, rfl, fun _ _ _ _ hfalse => hfalse.elim⟩

theorem Spells.mono {plain fewer : String → Prop} {cs : List Char} {ts : List Token}
    (h : Spells plain cs ts) (hfewer : ∀ s, fewer s → plain s) : Spells fewer cs ts := by
  obtain ⟨ls, hls, rfl, hplain⟩ := h
  exact ⟨ls, hls, rfl, fun l hl s hs hf => hplain l hl s hs (hfewer s hf)⟩

/-- **The text of a row of tokens spells it.** -/
theorem spells_texts {ts : List Token} (hchain : ts.IsChain Token.Apart)
    (hread : ∀ t ∈ ts, t.Readable) : Spells IsPlain (ts.flatMap Token.text) ts := by
  have hlex := Token.lexemesFrom_texts hchain hread cut_nil
  rw [List.append_nil] at hlex
  refine ⟨ts.map Token.lexeme, ?_, by simp [Function.comp_def], ?_⟩
  · rw [lexemes?, hlex]
    simp [lexemesFrom, finish]
  · intro l hl s hs hplain
    obtain ⟨t, -, rfl⟩ := List.mem_map.mp hl
    rw [Token.lexeme_token] at hs
    rwa [hs]

/-! ### Without a backslash -/

/-- No escape has been met in the state. -/
def Lexer.State.Unescaped : State → Prop
  | .string taken => taken.any needsEscape = false
  | .between | .word _ | .numeral _ => True
  | _ => False

theorem isBare_of_completed? {state : State} {t : Token} (h : completed? state = some t) :
    t.isBare = true := by
  cases state with
  | word taken =>
    rw [completed?] at h
    unfold wordToken? at h
    split at h <;> cases h <;> rfl
  | numeral taken =>
    rw [completed?, Option.map_eq_some_iff] at h
    obtain ⟨n, -, rfl⟩ := h
    rfl
  | _ => cases h

/-- The end of the text completes the word or the numeral it has come to. -/
theorem completed?_of_mem_finish {state : State} {ts : List Token} {t : Token}
    (h : finish state = some ts) (ht : t ∈ ts) : completed? state = some t := by
  cases state with
  | between =>
    cases h
    cases ht
  | word taken =>
    obtain ⟨u, hu, rfl⟩ := Option.map_eq_some_iff.mp h
    obtain rfl := List.mem_singleton.mp ht
    exact hu
  | numeral taken =>
    obtain ⟨n, hn, rfl⟩ := Option.map_eq_some_iff.mp h
    obtain rfl := List.mem_singleton.mp ht
    exact Option.map_eq_some_iff.mpr ⟨n, hn, rfl⟩
  | _ => cases h

/-- Outside every token no string is completed, and none is begun but an empty one. -/
theorem unescaped_of_step_between {c : Char} {next : State} {ts : List Token}
    (h : step .between c = some (next, ts)) :
    next.Unescaped ∧ next.escapeMet false = false ∧ ∀ s, .str s ∉ ts := by
  rcases step_between_cases h with ⟨-, rfl, rfl⟩ | ⟨t, ht, rfl, rfl⟩ | ⟨-, rfl, rfl⟩ |
    ⟨-, rfl, rfl⟩ | ⟨-, rfl, rfl⟩
  case inr.inl =>
    refine ⟨trivial, rfl, fun s hs => ?_⟩
    rw [← List.mem_singleton.mp hs] at ht
    unfold single? at ht
    split at ht <;> cases ht
  case inr.inr.inl => exact ⟨rfl, rfl, fun _ => List.not_mem_nil⟩
  all_goals exact ⟨trivial, rfl, fun _ => List.not_mem_nil⟩

/-- Inside a word or a numeral the step goes on with it, or is that outside every token. -/
theorem unescaped_of_step_bare {state next : State} {c : Char} {ts : List Token}
    (hstate : ∃ taken, state = .word taken ∨ state = .numeral taken)
    (h : step state c = some (next, ts)) :
    next.Unescaped ∧ next.escapeMet false = false ∧ ∀ s, .str s ∉ ts := by
  rcases step_bare_cases hstate h with ⟨⟨taken, hnext⟩, rfl⟩ | ⟨t, us, ht, hbetween, rfl⟩
  · obtain rfl | rfl := hnext <;> exact ⟨trivial, rfl, fun _ => List.not_mem_nil⟩
  · obtain ⟨hnext, hmet, hus⟩ := unescaped_of_step_between hbetween
    refine ⟨hnext, hmet, fun s hs => ?_⟩
    rcases List.mem_cons.mp hs with rfl | hs
    · cases isBare_of_completed? ht
    · exact hus s hs

/-- **No step meets an escape** but at a backslash, and a completed string is plain. -/
theorem unescaped_of_step {state next : State} {c : Char} {ts : List Token} (hc : c ≠ '\\')
    (hstate : state.Unescaped) (h : step state c = some (next, ts)) :
    next.Unescaped ∧ next.escapeMet false = false ∧ ∀ s, .str s ∈ ts → IsPlain s := by
  have hnone (h : next.Unescaped ∧ next.escapeMet false = false ∧ ∀ s, .str s ∉ ts) :
      next.Unescaped ∧ next.escapeMet false = false ∧ ∀ s, .str s ∈ ts → IsPlain s :=
    ⟨h.1, h.2.1, fun s hs => absurd hs (h.2.2 s)⟩
  cases state with
  | between => exact hnone (unescaped_of_step_between h)
  | word taken => exact hnone (unescaped_of_step_bare ⟨taken, .inl rfl⟩ h)
  | numeral taken => exact hnone (unescaped_of_step_bare ⟨taken, .inr rfl⟩ h)
  | string taken =>
    have htaken : taken.any needsEscape = false := hstate
    simp only [step] at h
    split at h
    · obtain ⟨rfl, rfl⟩ := Prod.mk.inj (Option.some.inj h)
      refine ⟨trivial, rfl, fun s hs => ?_⟩
      obtain rfl := Token.str.inj (List.mem_singleton.mp hs)
      rwa [IsPlain, String.toList_ofList, List.any_reverse]
    · split at h
      · cases h
      · obtain ⟨rfl, rfl⟩ := Prod.mk.inj (Option.some.inj h)
        exact ⟨by simp_all [State.Unescaped, needsEscape], rfl, fun _ hs => absurd hs List.not_mem_nil⟩
  | _ => cases hstate

theorem unescaped_of_mem {cs : List Char} {state : State} {ls : List Lexeme} (hcs : '\\' ∉ cs)
    (hstate : state.Unescaped) (h : lexemesFrom state false cs = some ls) :
    ∀ l ∈ ls, l.escaped = false ∧ ∀ s, l.token = .str s → IsPlain s := by
  have hmark (t : Token) : (mark false t).escaped = false := by cases t <;> rfl
  induction cs generalizing state ls with
  | nil =>
    rw [lexemesFrom] at h
    obtain ⟨ts, hts, rfl⟩ := Option.map_eq_some_iff.mp h
    intro l hl
    obtain ⟨t, ht, rfl⟩ := List.mem_map.mp hl
    refine ⟨hmark t, fun s hs => ?_⟩
    rw [mark_token] at hs
    subst hs
    cases isBare_of_completed? (completed?_of_mem_finish hts ht)
  | cons c cs ih =>
    obtain ⟨hc, hcs⟩ : c ≠ '\\' ∧ '\\' ∉ cs := ⟨fun h => hcs (h ▸ List.mem_cons_self),
      fun h => hcs (List.mem_cons_of_mem _ h)⟩
    obtain ⟨next, ts, rest, hstep, hrest, rfl⟩ := exists_of_lexemesFrom_cons h
    obtain ⟨hnext, hmet, hts⟩ := unescaped_of_step hc hstate hstep
    rw [hmet] at hrest
    intro l hl
    rcases List.mem_append.mp hl with hl | hl
    · obtain ⟨t, ht, rfl⟩ := List.mem_map.mp hl
      refine ⟨hmark t, fun s hs => hts s ?_⟩
      rwa [← hs, mark_token]
    · exact ih hcs hnext hrest l hl

/-- **A text without a backslash** spells every string plainly, and its strings are plain. -/
theorem spells_of_no_backslash {cs : List Char} {ts : List Token} (hcs : '\\' ∉ cs)
    (h : Token.ofText? cs = some ts) :
    Spells (fun _ => True) cs ts ∧ ∀ s, .str s ∈ ts → IsPlain s := by
  rw [ofText?_eq_lexemes?] at h
  obtain ⟨ls, hls, rfl⟩ := Option.map_eq_some_iff.mp h
  have hplain := @unescaped_of_mem cs .between ls hcs trivial hls
  refine ⟨⟨ls, hls, rfl, fun l hl _ _ _ => (hplain l hl).1⟩, fun s hs => ?_⟩
  obtain ⟨l, hl, hs⟩ := List.mem_map.mp hs
  exact (hplain l hl).2 s hs

/-- A plain string is written as it is. -/
theorem flatMap_escapeChar {cs : List Char} (h : cs.any needsEscape = false) :
    cs.flatMap Token.escapeChar = cs := by
  induction cs with
  | nil => rfl
  | cons c cs ih =>
    obtain ⟨hc, hcs⟩ := Bool.or_eq_false_iff.mp (List.any_cons.symm.trans h)
    rw [List.flatMap_cons, escapeChar_of_not_needsEscape hc, ih hcs, List.singleton_append]

/-! ## What a text begins with -/

namespace Lexer

/-- **A plain string between quotes** is read as it stands. -/
theorem lexemesFrom_plain {s : String} {rest : List Char} (hs : IsPlain s) :
    lexemesFrom .between false ('"' :: (s.toList ++ '"' :: rest)) =
      (lexemesFrom .between false rest).map (⟨.str s, false⟩ :: ·) := by
  have h := @Token.lexemesFrom_text (.str s) rest trivial (by simp [Token.isBare])
  have hs' : s.toList.any needsEscape = false := hs
  rw [Token.text, Token.quote, flatMap_escapeChar hs', Token.lexeme, hs', List.cons_append,
    List.append_assoc] at h
  exact h

variable {state next : State} {escaped : Bool} {c : Char} {cs rest : List Char} {ls : List Lexeme}

/-- The machine is inside a string. -/
def State.isOpen : State → Bool
  | .string _ | .escape _ | .unit .. | .pairSlash .. | .pairLetter .. => true
  | _ => false

theorem open_of_closeUnit {taken : List Char} {high : Option Nat} {value : Nat}
    (h : closeUnit taken high value = some next) :
    next.isOpen = true ∧ next.escapeMet true = true := by
  unfold closeUnit at h
  split at h
  · split at h
    · obtain rfl := Option.some.inj h
      exact ⟨rfl, rfl⟩
    · split at h
      · cases h
      · obtain rfl := Option.some.inj h
        exact ⟨rfl, rfl⟩
  · split at h
    · obtain rfl := Option.some.inj h
      exact ⟨rfl, rfl⟩
    · cases h

/-- The string goes on: nothing is completed, and an escape met before is remembered. -/
def GoesOn (next : State) (ts : List Token) : Prop :=
  next.isOpen = true ∧ ts = [] ∧ next.escapeMet true = true

theorem goesOn_of_eq {s : State} {ts : List Token} (hopen : s.isOpen = true)
    (hmet : s.escapeMet true = true) (h : some (s, []) = some (next, ts)) : GoesOn next ts := by
  obtain ⟨rfl, rfl⟩ := Prod.mk.inj (Option.some.inj h)
  exact ⟨hopen, rfl, hmet⟩

/-- **One step inside a string** stays inside it, or completes it at the quote. -/
theorem step_open {ts : List Token} (hstate : state.isOpen = true)
    (h : step state c = some (next, ts)) :
    GoesOn next ts ∨ ∃ taken, state = .string taken ∧ c = '"' ∧ next = .between ∧
      ts = [.str (String.ofList taken.reverse)] := by
  cases state with
  | between | word | numeral => cases hstate
  | string taken =>
    rw [step] at h
    by_cases hquote : c = '"'
    · rw [if_pos hquote] at h
      obtain ⟨rfl, rfl⟩ := Prod.mk.inj (Option.some.inj h)
      exact .inr ⟨taken, rfl, hquote, rfl, rfl⟩
    · rw [if_neg hquote] at h
      left
      split at h
      · exact goesOn_of_eq rfl rfl h
      · split at h
        · cases h
        · exact goesOn_of_eq rfl rfl h
  | escape taken =>
    rw [step] at h
    left
    split at h
    · exact goesOn_of_eq rfl rfl h
    · obtain ⟨d, -, h⟩ := Option.map_eq_some_iff.mp h
      exact goesOn_of_eq rfl rfl (congrArg some h)
  | unit taken high count value =>
    rw [step] at h
    left
    split at h
    · cases h
    · split at h
      · exact goesOn_of_eq rfl rfl h
      · -- the fourth digit closes the escape, so the state may be any inside the string
        obtain ⟨s, hs, h⟩ := Option.map_eq_some_iff.mp h
        obtain ⟨hopen, hmet⟩ := open_of_closeUnit hs
        exact goesOn_of_eq hopen hmet (congrArg some h)
  | pairSlash taken high | pairLetter taken high =>
    rw [step] at h
    left
    split at h
    · exact goesOn_of_eq rfl rfl h
    · cases h

/-- **Inside a string the first lexeme is a string**, escaped if an escape has been met. -/
theorem head_of_open (hstate : state.isOpen = true)
    (h : lexemesFrom state escaped cs = some ls) :
    ∃ s met more, ls = ⟨.str s, met⟩ :: more ∧ (escaped = true → met = true) := by
  induction cs generalizing state escaped ls with
  | nil =>
    rw [lexemesFrom] at h
    cases state with
    | between | word | numeral => cases hstate
    | _ => cases h
  | cons c cs ih =>
    obtain ⟨next, ts, more, hstep, hmore, rfl⟩ := exists_of_lexemesFrom_cons h
    rcases step_open hstate hstep with ⟨hopen, rfl, hmet⟩ | ⟨taken, rfl, rfl, rfl, rfl⟩
    · obtain ⟨s, met, more, rfl, hescaped⟩ := ih hopen hmore
      exact ⟨s, met, more, rfl, fun he => hescaped (he ▸ hmet)⟩
    · exact ⟨_, _, more, rfl, id⟩

/-- Outside every token a string is begun by a quote only. -/
theorem open_of_step_between {us : List Token} (h : step .between c = some (next, us))
    (hnext : next.isOpen = true) : c = '"' ∧ next = .string [] := by
  rcases step_between_cases h with ⟨-, rfl, -⟩ | ⟨_, -, rfl, -⟩ | ⟨hc, rfl, -⟩ | ⟨-, rfl, -⟩ |
    ⟨-, rfl, -⟩
  case inr.inr.inl => exact ⟨hc, rfl⟩
  all_goals cases hnext

/-- Outside strings no string is completed, and one is begun by a quote only. -/
theorem step_closed {ts : List Token} (hstate : state.isOpen = false)
    (h : step state c = some (next, ts)) :
    (∀ s, .str s ∉ ts) ∧ (next.isOpen = true → c = '"' ∧ next = .string []) := by
  have hbare (hstate : ∃ taken, state = .word taken ∨ state = .numeral taken) :
      (∀ s, .str s ∉ ts) ∧ (next.isOpen = true → c = '"' ∧ next = .string []) := by
    refine ⟨(unescaped_of_step_bare hstate h).2.2, fun hopen => ?_⟩
    rcases step_bare_cases hstate h with ⟨⟨taken, hnext⟩, -⟩ | ⟨t, us, -, hus, -⟩
    · obtain rfl | rfl := hnext <;> cases hopen
    · exact open_of_step_between hus hopen
  cases state with
  | between => exact ⟨(unescaped_of_step_between h).2.2, open_of_step_between h⟩
  | word taken => exact hbare ⟨taken, .inl rfl⟩
  | numeral taken => exact hbare ⟨taken, .inr rfl⟩
  | _ => cases hstate

/-- Inside a word or a numeral the first lexeme is its token. -/
theorem head_of_bare (hstate : ∃ taken, state = .word taken ∨ state = .numeral taken)
    (h : lexemesFrom state escaped cs = some ls) :
    ∃ l more, ls = l :: more ∧ l.token.isBare = true := by
  have hend {cs : List Char} {state : State} {escaped : Bool} {ls : List Lexeme}
      (hstate : ∃ taken, state = .word taken ∨ state = .numeral taken)
      (hcs : ∀ c ∈ cs.head?, continues state c = false)
      (h : lexemesFrom state escaped cs = some ls) :
      ∃ l more, ls = l :: more ∧ l.token.isBare = true := by
    rw [lexemesFrom_completed hstate hcs] at h
    obtain ⟨t, ht, h⟩ := Option.bind_eq_some_iff.mp h
    obtain ⟨more, -, rfl⟩ := Option.map_eq_some_iff.mp h
    exact ⟨_, more, rfl, by rw [mark_token]; exact isBare_of_completed? ht⟩
  induction cs generalizing state escaped ls with
  | nil => exact hend hstate (by simp) h
  | cons c cs ih =>
    cases hcont : continues state c with
    | false => exact hend hstate (fun d hd => by rwa [← Option.some.inj hd]) h
    | true =>
      obtain ⟨next, hnext, hstep⟩ := step_of_continues hstate hcont
      rw [lexemesFrom_cons hstep] at h
      exact ih hnext h

theorem isBare_of_head {l : Lexeme} (hstate : ∃ taken, state = .word taken ∨ state = .numeral taken)
    (h : lexemesFrom state escaped cs = some (l :: ls)) : l.token.isBare = true := by
  obtain ⟨k, more, hls, hbare⟩ := head_of_bare hstate h
  rwa [(List.cons.inj hls).1]

/-! ### Behind blanks -/

/-- **A text read from outside every token**, by its first character. -/
theorem lexemesFrom_between_cases (h : lexemesFrom .between false (c :: cs) = some ls) :
    (isBlank c = true ∧ lexemesFrom .between false cs = some ls) ∨
      (∃ t more, single? c = some t ∧ ls = mark false t :: more ∧
        lexemesFrom .between false cs = some more) ∨
      (c = '"' ∧ lexemesFrom (.string []) false cs = some ls) ∨
      (isNumeralStart c = true ∧ lexemesFrom (.numeral [c]) false cs = some ls) ∨
      (c.isLower = true ∧ lexemesFrom (.word [c]) false cs = some ls) := by
  obtain ⟨next, ts, -, hstep, -, -⟩ := exists_of_lexemesFrom_cons h
  rcases step_between_cases hstep with ⟨hc, rfl, rfl⟩ | ⟨t, ht, rfl, rfl⟩ | ⟨hc, rfl, rfl⟩ |
    ⟨hc, rfl, rfl⟩ | ⟨hc, rfl, rfl⟩
  · rw [lexemesFrom_cons hstep] at h
    exact .inl ⟨hc, h⟩
  · rw [lexemesFrom_single ht] at h
    obtain ⟨more, hmore, rfl⟩ := Option.map_eq_some_iff.mp h
    exact .inr (.inl ⟨t, more, ht, rfl, hmore⟩)
  · rw [lexemesFrom_cons hstep] at h
    exact .inr (.inr (.inl ⟨hc, h⟩))
  · rw [lexemesFrom_cons hstep] at h
    exact .inr (.inr (.inr (.inl ⟨hc, h⟩)))
  · rw [lexemesFrom_cons hstep] at h
    exact .inr (.inr (.inr (.inr ⟨hc, h⟩)))

theorem Blank_of_isBlank (h : isBlank c = true) : Blank.isBlank c = true := by
  simp only [isBlank, Bool.or_eq_true, decide_eq_true_eq] at h
  rcases h with ((rfl | rfl) | rfl) | rfl <;> rfl

/-- A character that begins a token is no blank. -/
theorem not_blank (h : single? c ≠ none ∨ c = '"' ∨ isNumeralStart c = true ∨ c.isLower = true) :
    Blank.isBlank c = false := by
  rcases h with h | rfl | h | h
  · unfold single? at h
    split at h <;> first | rfl | exact absurd rfl h
  · rfl
  · simp only [isNumeralStart, Bool.or_eq_true, decide_eq_true_eq] at h
    rcases h with h | rfl
    · exact Blank.isBlank_of_isAlphanum ((Bool.or_eq_true _ _).mpr (.inr h))
    · rfl
  · have halpha : c.isAlpha = true := (Bool.or_eq_true _ _).mpr (.inr h)
    exact Blank.isBlank_of_isAlphanum ((Bool.or_eq_true _ _).mpr (.inl halpha))

/-- **Blanks may be dropped** before a lexeme. -/
theorem lexemesFrom_dropBlanks (h : lexemesFrom .between false cs = some ls) :
    lexemesFrom .between false (cs.dropWhile Blank.isBlank) = some ls := by
  induction cs with
  | nil => exact h
  | cons c cs ih =>
    have hstop (hc : Blank.isBlank c = false) :
        lexemesFrom .between false ((c :: cs).dropWhile Blank.isBlank) = some ls := by
      rwa [List.dropWhile_cons_of_neg (by simp [hc])]
    rcases lexemesFrom_between_cases h with ⟨hc, hcs⟩ | ⟨t, more, hc, -, -⟩ | ⟨hc, -⟩ | ⟨hc, -⟩ | ⟨hc, -⟩
    · rw [List.dropWhile_cons_of_pos (Blank_of_isBlank hc)]
      exact ih hcs
    · exact hstop (not_blank (.inl (by simp [hc])))
    · exact hstop (not_blank (.inr (.inl hc)))
    · exact hstop (not_blank (.inr (.inr (.inl hc))))
    · exact hstop (not_blank (.inr (.inr (.inr hc))))

/-- **A colon** is what its lexeme begins with, behind blanks. -/
theorem dropBlanks_of_colon {l : Lexeme} (hl : l.token = .colon)
    (h : lexemesFrom .between false cs = some (l :: ls)) :
    ∃ rest, cs.dropWhile Blank.isBlank = ':' :: rest ∧
      lexemesFrom .between false rest = some ls := by
  induction cs with
  | nil => cases h
  | cons c cs ih =>
    rcases lexemesFrom_between_cases h with ⟨hc, hcs⟩ | ⟨t, more, hc, hls, hmore⟩ | ⟨-, hcs⟩ |
      ⟨-, hcs⟩ | ⟨-, hcs⟩
    · rw [List.dropWhile_cons_of_pos (Blank_of_isBlank hc)]
      exact ih hcs
    · obtain ⟨rfl, rfl⟩ := List.cons.inj hls
      rw [mark_token] at hl
      subst hl
      refine ⟨cs, ?_, hmore⟩
      have hblank : Blank.isBlank c = false := not_blank (.inl (by simp [hc]))
      rw [List.dropWhile_cons_of_neg (by simp [hblank])]
      unfold single? at hc
      split at hc <;> cases hc
      rfl
    · obtain ⟨s, met, more, hls, -⟩ := head_of_open rfl hcs
      cases (List.cons.inj hls).1
      cases hl
    · have hbare := isBare_of_head ⟨_, .inr rfl⟩ hcs
      rw [hl] at hbare
      cases hbare
    · have hbare := isBare_of_head ⟨_, .inl rfl⟩ hcs
      rw [hl] at hbare
      cases hbare

/-- The rest of an unescaped string is spelled by its characters. -/
theorem rest_of_string {taken : List Char} {s : String}
    (h : lexemesFrom (.string taken) false cs = some (⟨.str s, false⟩ :: ls)) :
    ∃ more rest, cs = more ++ '"' :: rest ∧ s = String.ofList (taken.reverse ++ more) ∧
      lexemesFrom .between false rest = some ls := by
  induction cs generalizing taken with
  | nil => cases h
  | cons c cs ih =>
    by_cases hquote : c = '"'
    · subst hquote
      rw [lexemesFrom_cons_some rfl] at h
      obtain ⟨more, hmore, hls⟩ := Option.map_eq_some_iff.mp h
      obtain ⟨hhead, rfl⟩ := List.cons.inj hls
      refine ⟨[], cs, rfl, ?_, hmore⟩
      rw [List.append_nil]
      exact (Token.str.inj (congrArg Lexeme.token hhead)).symm
    by_cases hslash : c = '\\'
    · subst hslash
      -- behind a backslash the string would be escaped
      rw [lexemesFrom_cons rfl] at h
      obtain ⟨t, met, more, hls, hmet⟩ := head_of_open rfl h
      have hescaped := congrArg Lexeme.escaped (List.cons.inj hls).1
      rw [hmet rfl] at hescaped
      cases hescaped
    by_cases hcontrol : c.toNat < 0x20
    · rw [lexemesFrom_cons_none (by simp [step, hquote, hslash, hcontrol])] at h
      cases h
    · have hplain : needsEscape c = false := by simp [needsEscape, hquote, hslash, hcontrol]
      rw [lexemesFrom_cons (step_string hplain)] at h
      obtain ⟨more, rest, rfl, rfl, hrest⟩ := ih h
      exact ⟨c :: more, rest, rfl, by simp, hrest⟩

/-- **An unescaped string** is spelled by its characters, behind blanks. -/
theorem dropBlanks_of_str {s : String}
    (h : lexemesFrom .between false cs = some (⟨.str s, false⟩ :: ls)) :
    ∃ rest, cs.dropWhile Blank.isBlank = '"' :: (s.toList ++ '"' :: rest) ∧
      lexemesFrom .between false rest = some ls := by
  induction cs with
  | nil => cases h
  | cons c cs ih =>
    rcases lexemesFrom_between_cases h with ⟨hc, hcs⟩ | ⟨t, more, hc, hls, -⟩ | ⟨rfl, hcs⟩ |
      ⟨-, hcs⟩ | ⟨-, hcs⟩
    · rw [List.dropWhile_cons_of_pos (Blank_of_isBlank hc)]
      exact ih hcs
    · have htoken := congrArg Lexeme.token (List.cons.inj hls).1
      rw [mark_token] at htoken
      subst htoken
      unfold single? at hc
      split at hc <;> cases hc
    · obtain ⟨more, rest, rfl, rfl, hrest⟩ := rest_of_string hcs
      exact ⟨rest, by simp [not_blank], hrest⟩
    · cases isBare_of_head ⟨_, .inr rfl⟩ hcs
    · cases isBare_of_head ⟨_, .inl rfl⟩ hcs

/-! ## What is read can be written -/

theorem readable_of_completed? {state : State} {t : Token} (h : completed? state = some t) :
    t.Readable := by
  cases state with
  | word taken =>
    rw [completed?] at h
    unfold wordToken? at h
    split at h <;> cases h <;> trivial
  | numeral taken =>
    obtain ⟨n, hn, rfl⟩ := Option.map_eq_some_iff.mp h
    exact Number.readable_of_ofLexeme? hn
  | _ => cases h

/-- Outside every token only marks are completed. -/
theorem readable_of_step_between {c : Char} {next : State} {ts : List Token}
    (h : step .between c = some (next, ts)) : ∀ t ∈ ts, t.Readable := by
  rcases step_between_cases h with ⟨-, -, rfl⟩ | ⟨t, ht, -, rfl⟩ | ⟨-, -, rfl⟩ | ⟨-, -, rfl⟩ |
    ⟨-, -, rfl⟩
  case inr.inl =>
    intro u hu
    rw [List.mem_singleton.mp hu]
    unfold single? at ht
    split at ht <;> cases ht <;> trivial
  all_goals exact fun _ hu => absurd hu List.not_mem_nil

theorem readable_of_step {state next : State} {c : Char} {ts : List Token}
    (h : step state c = some (next, ts)) : ∀ t ∈ ts, t.Readable := by
  have hbare (hword : ∃ taken, state = .word taken ∨ state = .numeral taken) : ∀ t ∈ ts, t.Readable := by
    rcases step_bare_cases hword h with ⟨-, rfl⟩ | ⟨t, us, ht, hbetween, rfl⟩
    · exact fun _ hu => absurd hu List.not_mem_nil
    · exact List.forall_mem_cons.mpr ⟨readable_of_completed? ht, readable_of_step_between hbetween⟩
  cases hopen : state.isOpen with
  | true =>
    rcases step_open hopen h with ⟨-, rfl, -⟩ | ⟨taken, -, -, -, rfl⟩
    · exact fun _ hu => absurd hu List.not_mem_nil
    · exact List.forall_mem_singleton.mpr trivial
  | false =>
    cases state with
    | between => exact readable_of_step_between h
    | word taken => exact hbare ⟨taken, .inl rfl⟩
    | numeral taken => exact hbare ⟨taken, .inr rfl⟩
    | _ => cases hopen

theorem readable_of_lexemesFrom {state : State} {escaped : Bool} {cs : List Char} {ls : List Lexeme}
    (h : lexemesFrom state escaped cs = some ls) : ∀ l ∈ ls, l.token.Readable := by
  induction cs generalizing state escaped ls with
  | nil =>
    obtain ⟨ts, hts, rfl⟩ := Option.map_eq_some_iff.mp h
    intro l hl
    obtain ⟨t, ht, rfl⟩ := List.mem_map.mp hl
    rw [mark_token]
    exact readable_of_completed? (completed?_of_mem_finish hts ht)
  | cons c cs ih =>
    obtain ⟨next, ts, more, hstep, hmore, rfl⟩ := exists_of_lexemesFrom_cons h
    intro l hl
    rcases List.mem_append.mp hl with hl | hl
    · obtain ⟨t, ht, rfl⟩ := List.mem_map.mp hl
      rw [mark_token]
      exact readable_of_step hstep t ht
    · exact ih hmore l hl

end Lexer

/-- **What is read is readable.** -/
theorem Spells.readable {plain : String → Prop} {cs : List Char} {ts : List Token}
    (h : Spells plain cs ts) : ∀ t ∈ ts, t.Readable := by
  obtain ⟨ls, hls, rfl, -⟩ := h
  intro t ht
  obtain ⟨l, hl, rfl⟩ := List.mem_map.mp ht
  exact readable_of_lexemesFrom hls l hl

end FeatureFlags
