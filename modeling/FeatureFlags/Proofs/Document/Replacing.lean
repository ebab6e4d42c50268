import FeatureFlags.Document.Fragments
import FeatureFlags.Proofs.Json.Spelling

/-!
# Proofs/Document/Replacing — replacing references in a text is replacing them among its tokens

A reference is replaced in the text, by its characters.  They match where the tokens are those of a
reference that is spelled without escapes, and where a key ends in what looks like the key of one; what
becomes of the tokens of the text is `Token.Rewrites` (`Fragments.rewrites_replace`).  As long as the
text spells the key of a reference and the name without escapes, and no key ends so, the text with the
references replaced spells the tokens with the references replaced (`Fragments.spells_replace`).
-/

namespace FeatureFlags

open Lexer

namespace Token

/-! ## Adjacent tokens -/

/-- The token ends a value, or is a key. -/
def endsValue : Token → Bool
  | null | bool _ | num _ | str _ | closeBrace | closeBracket => true
  | _ => false

/-- The token may stand behind a value or a key. -/
def isBehind : Token → Bool
  | comma | colon | closeBrace | closeBracket => true
  | _ => false

/-- **What holds between neighbours** in what a value writes: behind a value or a key stands a mark of
punctuation, and what stands before a colon is a key in `keys`. -/
structure Adjacent (keys : String → Prop) (t u : Token) : Prop where
  behind : t.endsValue = true → u.isBehind = true
  key : ∀ s, t = .str s → u = .colon → keys s

theorem endsValue_of_isBare {t : Token} (h : t.isBare = true) : t.endsValue = true := by
  cases t <;> simp_all [isBare, endsValue]

theorem Adjacent.apart {keys : String → Prop} {t u : Token} (h : Adjacent keys t u) :
    Apart t u := by
  rintro ⟨ht, hu⟩
  have hbehind := h.behind (endsValue_of_isBare ht)
  cases u <;> simp_all [isBare, isBehind]

/-! ## References among tokens -/

/-- **The key of a reference.** -/
def refKey : String := "$ref"

/-- **Replaces references** among tokens, each by what its name stands for. -/
def substituted (bodies : String → Option (List Token)) : List Token → List Token
  | .str key :: .colon :: .str n :: rest =>
    match if key = refKey then bodies n else none with
    | some body => body ++ substituted bodies rest
    | none => .str key :: substituted bodies (.colon :: .str n :: rest)
  | t :: rest => t :: substituted bodies rest
  | [] => []

/-- Only one name stands for anything. -/
def only (name : String) (body : List Token) (n : String) : Option (List Token) :=
  if n = name then some body else none

theorem only_self {name : String} {body : List Token} : only name body name = some body :=
  if_pos rfl

section Substituted

variable {bodies : String → Option (List Token)} {name : String} {body ts : List Token}

@[simp] theorem substituted_nil : substituted bodies [] = [] := rfl

theorem substituted_reference (h : bodies name = some body) :
    substituted bodies (.str refKey :: .colon :: .str name :: ts) =
      body ++ substituted bodies ts := by
  simp [substituted, h]

theorem substituted_cons {t : Token}
    (h : ∀ n rest, t = .str refKey → ts = .colon :: .str n :: rest → bodies n = none) :
    substituted bodies (t :: ts) = t :: substituted bodies ts := by
  rw [substituted.eq_def]
  split
  · rename_i key n rest heq
    obtain ⟨rfl, rfl⟩ := List.cons.inj heq
    split
    · rename_i hsome
      split at hsome
      · subst key
        rw [h n rest rfl rfl] at hsome
        cases hsome
      · cases hsome
    · rfl
  · rename_i heq
    obtain ⟨rfl, rfl⟩ := List.cons.inj heq
    rfl
  · rename_i heq
    cases heq

theorem substituted_singleton (t : Token) : substituted bodies [t] = [t] :=
  substituted_cons (by simp)

end Substituted

/-! ## What becomes of tokens -/

/-- **What takes the place of a member**, by its key: the body, where the key is that of a reference.
Where it only ends in what looks like one, it goes on with the first key of the body instead. -/
inductive Takes (body : List Token) : String → List Token → Prop
  | reference : Takes body refKey body
  | stray {before : List Char} {key : String} {more : List Token} (hbody : body = .str key :: more) :
      Takes body (String.ofList (before ++ ['"', '$', 'r', 'e', 'f']))
        (.str (String.ofList (before ++ '"' :: key.toList)) :: more)

/-- **What becomes of tokens** between `p` and `q` when the references to `n` in their text give way to
the body.  A reference that is spelled as `plain` says does not stay.  With `alone`, nothing takes the
place of a member only where it stands alone between braces. -/
inductive Rewrites (plain : String → Prop) (alone : Prop) (n : String) (body : List Token) :
    Token → Token → List Token → List Token → Prop
  | nil {p q : Token} : Rewrites plain alone n body p q [] []
  | keep {p q t : Token} {ts us : List Token}
      (hkept : plain refKey → plain n → ∀ rest, t :: ts ≠ .str refKey :: .colon :: .str n :: rest)
      (h : Rewrites plain alone n body t q ts us) :
      Rewrites plain alone n body p q (t :: ts) (t :: us)
  | swap {p q : Token} {key s : String} {row ts us : List Token} (htakes : Takes body key row)
      (hname : plain n → s = n)
      (halone : alone → row = [] → p = .openBrace ∧ ts.head?.getD q = .closeBrace)
      (h : Rewrites plain alone n body (.str s) q ts us) :
      Rewrites plain alone n body p q (.str key :: .colon :: .str s :: ts) (row ++ us)

/-- Tokens that are no strings stay. -/
theorem Rewrites.append_left {plain : String → Prop} {alone : Prop} {n : String} {body : List Token}
    {p q : Token} {ts us vs : List Token} (hts : ∀ s, .str s ∉ ts)
    (h : Rewrites plain alone n body (ts.getLast?.getD p) q us vs) :
    Rewrites plain alone n body p q (ts ++ us) (ts ++ vs) := by
  induction ts generalizing p with
  | nil => exact h
  | cons t ts ih =>
    refine .keep (fun _ _ _ heq => hts refKey ?_)
      (ih (fun s hs => hts s (List.mem_cons_of_mem t hs)) ?_)
    · rw [(List.cons.inj heq).1]
      exact List.mem_cons_self
    · rwa [List.getLast?_cons, Option.getD_some] at h

end Token

namespace Fragments

/-! ## References among characters -/

section Characters

variable {name body cs rest : List Char}

theorem dropBeginning?_eq_some_iff {beginning cs rest : List Char} :
    dropBeginning? beginning cs = some rest ↔ cs = beginning ++ rest := by
  induction beginning generalizing cs with
  | nil => simp [dropBeginning?, eq_comm]
  | cons b bs ih =>
    cases cs with
    | nil => simp [dropBeginning?]
    | cons c cs =>
      rw [dropBeginning?]
      split
      · rename_i h
        simp [ih, h]
      · rename_i h
        simp [Ne.symm h]

/-- **A reference** is its key, a colon and its name, with blanks around the colon. -/
theorem dropReference?_eq_some_iff :
    dropReference? name cs = some rest ↔
      ∃ behindKey behindColon, cs = referenceKey ++ behindKey ∧
        behindKey.dropWhile Blank.isBlank = ':' :: behindColon ∧
        behindColon.dropWhile Blank.isBlank = '"' :: (name ++ '"' :: rest) := by
  simp only [dropReference?, Option.bind_eq_bind, Option.bind_eq_some_iff,
    dropBeginning?_eq_some_iff]
  simp

/-- A reference begins and ends with a quote. -/
theorem quote_suffix_of_dropReference? {c : Char}
    (h : dropReference? name (c :: cs) = some rest) : c = '"' ∧ '"' :: rest <:+ cs := by
  obtain ⟨behindKey, behindColon, hkey, hcolon, hname⟩ := dropReference?_eq_some_iff.mp h
  obtain ⟨rfl, rfl⟩ := List.cons.inj hkey
  have hquoted : '"' :: rest <:+ '"' :: (name ++ '"' :: rest) := ⟨'"' :: name, by simp⟩
  have hrest : '"' :: rest <:+ behindColon := hquoted.trans (hname ▸ List.dropWhile_suffix _)
  have hcolon : behindColon <:+ behindKey :=
    (List.suffix_cons ':' behindColon).trans (hcolon ▸ List.dropWhile_suffix _)
  exact ⟨rfl, (hrest.trans hcolon).trans (List.suffix_append ['$', 'r', 'e', 'f', '"'] behindKey)⟩

/-- The rest of a reference is a proper rest of the text. -/
theorem suffix_of_dropReference? {c : Char} (h : dropReference? name (c :: cs) = some rest) :
    c = '"' ∧ rest <:+ cs :=
  (quote_suffix_of_dropReference? h).imp_right (List.suffix_cons '"' rest).trans

/-- Characters of a replaced reference are skipped. -/
theorem replaceFrom_eq_drop (skip : Nat) :
    replaceFrom name body skip cs = replaceFrom name body 0 (cs.drop skip) := by
  induction skip generalizing cs with
  | zero => rfl
  | succ skip ih =>
    cases cs with
    | nil => rfl
    | cons c cs => exact ih

theorem replaceFrom_reference {c : Char} (h : dropReference? name (c :: cs) = some rest) :
    replaceFrom name body 0 (c :: cs) = body ++ replaceFrom name body 0 rest := by
  obtain ⟨-, hsuffix⟩ := suffix_of_dropReference? h
  rw [replaceFrom, h]
  simp only
  rw [replaceFrom_eq_drop, ← List.suffix_iff_eq_drop.mp hsuffix]

theorem replaceFrom_cons {c : Char} (h : dropReference? name (c :: cs) = none) :
    replaceFrom name body 0 (c :: cs) = c :: replaceFrom name body 0 cs := by
  rw [replaceFrom, h]

theorem dropReference?_eq_none {c : Char} (h : c ≠ '"') : dropReference? name (c :: cs) = none :=
  Option.eq_none_iff_forall_ne_some.mpr fun _ hsome => h (suffix_of_dropReference? hsome).1

end Characters

/-! ## Names between quotes -/

/-- **A name between quotes is one string**, as far as it can be read at all. -/
def isWhole (name : String) : Bool :=
  match start.run ('"' :: (name.toList ++ ['"'])) with
  | none => true
  | some ⟨.between, [.str _]⟩ => true
  | some _ => false

section Whole

variable {name : String}

/-- **A whole name** ends at its quote. -/
theorem lexemesFrom_whole {rest : List Char} {ls : List Lexeme} (h : isWhole name = true)
    (hls : lexemesFrom (.string []) false (name.toList ++ '"' :: rest) = some ls) :
    ∃ s met more, ls = ⟨.str s, met⟩ :: more ∧ lexemesFrom .between false rest = some more := by
  have hquoted : lexemesFrom .between false ('"' :: (name.toList ++ ['"']) ++ rest) = some ls := by
    rw [List.cons_append, List.append_assoc]
    exact (lexemesFrom_cons rfl).trans hls
  obtain ⟨m, met, ms, more, hrun, rfl, hdone, hmore⟩ :=
    @exists_run_of_lexemesFrom _ _ .between false [] ls hquoted
  have hrun : start.run ('"' :: (name.toList ++ ['"'])) = some m := hrun
  rw [isWhole, hrun] at h
  split at h
  · cases ‹some m = none›
  · rename_i s heq
    obtain rfl := Option.some.inj heq
    have htoken : ms.map Lexeme.token = [.str s] := by simpa using congrArg List.reverse hdone.symm
    obtain ⟨⟨t, met'⟩, rfl, rfl⟩ := List.map_eq_singleton_iff.mp htoken
    rw [lexemesFrom_between] at hmore
    exact ⟨s, met', more, rfl, hmore⟩
  · cases h

/-- A plain name is whole. -/
theorem isWhole_of_isPlain (h : IsPlain name) : isWhole name = true := by
  have hrun {taken cs : List Char} (hcs : cs.any needsEscape = false) :
      (Machine.mk (.string taken) []).run (cs ++ ['"']) =
        some ⟨.between, [.str (String.ofList (taken.reverse ++ cs))]⟩ := by
    induction cs generalizing taken with
    | nil => simp [Machine.run, Machine.take, step]
    | cons c cs ih =>
      obtain ⟨hc, hcs⟩ := Bool.or_eq_false_iff.mp (List.any_cons.symm.trans hcs)
      have hnext := @ih (c :: taken) hcs
      simp only [Machine.run] at hnext ⊢
      simpa [Machine.take, step_string hc] using hnext
  have hstart : start.run ('"' :: (name.toList ++ ['"'])) =
      (Machine.mk (.string []) []).run (name.toList ++ ['"']) := rfl
  rw [isWhole, hstart, hrun h]

end Whole

/-! ## The references match

Where the tokens of a reference are spelled without escapes, its characters are; and where its
characters are, its tokens are, but in the middle of a string. -/

section Matching

variable {n : String} {cs rest : List Char} {ls : List Lexeme}

theorem exists_dropReference? {l : Lexeme} (hl : l.token = .colon)
    (h : lexemesFrom .between false ('"' :: cs) =
      some (⟨.str Token.refKey, false⟩ :: l :: ⟨.str n, false⟩ :: ls)) :
    ∃ rest, dropReference? n.toList ('"' :: cs) = some rest ∧
      lexemesFrom .between false rest = some ls := by
  obtain ⟨behindKey, hkey, h⟩ := dropBlanks_of_str h
  obtain ⟨behindColon, hcolon, h⟩ := dropBlanks_of_colon hl h
  obtain ⟨rest, hname, h⟩ := dropBlanks_of_str h
  refine ⟨rest, dropReference?_eq_some_iff.mpr ⟨behindKey, behindColon, ?_, hcolon, hname⟩, h⟩
  rwa [List.dropWhile_cons_of_neg (by decide)] at hkey

theorem eq_of_lexemesFrom_plain {s : String} {l : Lexeme} (hs : IsPlain s)
    (h : lexemesFrom (.string []) false (s.toList ++ '"' :: rest) = some (l :: ls)) :
    l.token = .str s := by
  have hquoted : lexemesFrom .between false ('"' :: (s.toList ++ '"' :: rest)) = some (l :: ls) :=
    (lexemesFrom_cons rfl).trans h
  rw [lexemesFrom_plain hs] at hquoted
  obtain ⟨more, -, hcons⟩ := Option.map_eq_some_iff.mp hquoted
  rw [← (List.cons.inj hcons).1]

/-- What is left behind the key of a reference is its name, and the rest. -/
theorem lexemes_of_colon (hwhole : isWhole n = true) {behindKey behindColon : List Char}
    (hcolon : behindKey.dropWhile Blank.isBlank = ':' :: behindColon)
    (hname : behindColon.dropWhile Blank.isBlank = '"' :: (n.toList ++ '"' :: rest))
    (h : lexemesFrom .between false behindKey = some ls) :
    ∃ s met more, ls = ⟨.colon, false⟩ :: ⟨.str s, met⟩ :: more ∧ (IsPlain n → s = n) ∧
      lexemesFrom .between false rest = some more := by
  have hfirst := lexemesFrom_dropBlanks h
  rw [hcolon, lexemesFrom_single (show single? ':' = some .colon from rfl)] at hfirst
  obtain ⟨ls, hrest, rfl⟩ := Option.map_eq_some_iff.mp hfirst
  have hsecond := lexemesFrom_dropBlanks hrest
  rw [hname, lexemesFrom_cons rfl] at hsecond
  obtain ⟨s, met, more, rfl, hmore⟩ := lexemesFrom_whole hwhole hsecond
  exact ⟨s, met, more, rfl, fun hn => Token.str.inj (eq_of_lexemesFrom_plain hn hsecond), hmore⟩

theorem lexemes_of_dropReference? (hwhole : isWhole n = true)
    (hdrop : dropReference? n.toList ('"' :: cs) = some rest)
    (h : lexemesFrom .between false ('"' :: cs) = some ls) :
    ∃ s met more, ls = ⟨.str Token.refKey, false⟩ :: ⟨.colon, false⟩ :: ⟨.str s, met⟩ :: more ∧
      (IsPlain n → s = n) ∧ lexemesFrom .between false rest = some more := by
  obtain ⟨behindKey, behindColon, hkey, hcolon, hname⟩ := dropReference?_eq_some_iff.mp hdrop
  have hstring : '"' :: cs = '"' :: (Token.refKey.toList ++ '"' :: behindKey) := hkey
  rw [hstring, lexemesFrom_plain (by decide)] at h
  obtain ⟨ls, hls, rfl⟩ := Option.map_eq_some_iff.mp h
  obtain ⟨s, met, more, rfl, hs, hmore⟩ := lexemes_of_colon hwhole hcolon hname hls
  exact ⟨s, met, more, rfl, hs, hmore⟩

/-- **A reference that begins at an escaped quote** is what a key ends in. -/
theorem lexemes_of_escaped_dropReference? (hwhole : isWhole n = true) {taken : List Char}
    {escaped : Bool} (hdrop : dropReference? n.toList ('"' :: cs) = some rest)
    (h : lexemesFrom (.string ('"' :: taken)) escaped cs = some ls) :
    ∃ s met met' more, ls = ⟨.str (String.ofList (taken.reverse ++ ['"', '$', 'r', 'e', 'f'])), met⟩ ::
        ⟨.colon, false⟩ :: ⟨.str s, met'⟩ :: more ∧ (IsPlain n → s = n) ∧
      lexemesFrom .between false rest = some more := by
  obtain ⟨behindKey, behindColon, hkey, hcolon, hname⟩ := dropReference?_eq_some_iff.mp hdrop
  obtain ⟨-, rfl⟩ := List.cons.inj hkey
  have hquiet : quietRun (.string ('"' :: taken)) escaped ['$', 'r', 'e', 'f'] =
      some (.string ('f' :: 'e' :: 'r' :: '$' :: '"' :: taken), escaped) := rfl
  rw [show ['$', 'r', 'e', 'f', '"'].append behindKey = ['$', 'r', 'e', 'f'] ++ '"' :: behindKey
    from rfl, lexemesFrom_quietRun hquiet, lexemesFrom_cons_some rfl] at h
  obtain ⟨ls, hls, rfl⟩ := Option.map_eq_some_iff.mp h
  obtain ⟨s, met, more, rfl, hs, hmore⟩ := lexemes_of_colon hwhole hcolon hname hls
  exact ⟨s, escaped, met, more, by simp [mark], hs, hmore⟩

end Matching

/-! ## References that stand alone in a text -/

/-- **Every reference to `name` stands alone between braces**, in a text behind `last`, the last
character that is no blank. -/
def standsAlone (name : List Char) (last : Option Char) : List Char → Bool
  | [] => true
  | c :: cs =>
    (match dropReference? name (c :: cs) with
      | some rest => last == some '\x7b' && (rest.dropWhile Blank.isBlank).head? == some '\x7d'
      | none => true) &&
    standsAlone name (if Blank.isBlank c then last else some c) cs

section Alone

variable {name cs rest : List Char} {last : Option Char} {c : Char}

theorem standsAlone_tail (h : standsAlone name last (c :: cs) = true) :
    standsAlone name (if Blank.isBlank c then last else some c) cs = true := by
  rw [standsAlone, Bool.and_eq_true] at h
  exact h.2

theorem standsAlone_reference (h : standsAlone name last (c :: cs) = true)
    (hdrop : dropReference? name (c :: cs) = some rest) :
    last = some '\x7b' ∧ (rest.dropWhile Blank.isBlank).head? = some '\x7d' := by
  rw [standsAlone, Bool.and_eq_true, hdrop] at h
  simpa using h.1

/-- … also in what stands behind a character. -/
theorem standsAlone_suffix (hc : Blank.isBlank c = false) (hsuffix : c :: rest <:+ cs)
    (h : standsAlone name last cs = true) : standsAlone name (some c) rest = true := by
  obtain ⟨before, rfl⟩ := hsuffix
  induction before generalizing last with
  | nil =>
    have htail := standsAlone_tail h
    rwa [if_neg (by simp [hc])] at htail
  | cons b before ih => exact ih (standsAlone_tail h)

end Alone

/-! ## Replacing in a text -/

/-- **A key that does not end** in what looks like the key of a reference. -/
def IsDistinguished (key : String) : Prop := ¬ ['"', '$', 'r', 'e', 'f'] <:+ key.toList

/-- **What replacing needs to know**: plain strings need no escape, and the name is whole; the body
begins with a key, its tokens may touch, and its numbers can be read. -/
structure Replaceable (plain : String → Prop) (n : String) (body : List Token) : Prop where
  isPlain : ∀ s, plain s → IsPlain s
  whole : isWhole n = true
  begins : ∀ t ∈ body.head?, ∃ key, t = .str key
  chain : body.IsChain Token.Apart
  readable : ∀ t ∈ body, t.Readable

/-- What the machine may be in the middle of behind an opening brace and blanks: the brace is the token
`p`, or it stands in a string. -/
def Opened (p : Token) : State → Prop
  | .between => p = .openBrace
  | .string _ => True
  | _ => False

/-- **A rest of a text is being read**: behind the token `p` and the character `last`, in some state of
the machine. -/
structure Reads (plain : String → Prop) (alone : Prop) (n : String) (body : List Token)
    (p : Token) (last : Option Char) (state : State) (escaped : Bool) (cs : List Char)
    (ls : List Lexeme) : Prop where
  lexemes : lexemesFrom state escaped cs = some ls
  plainly : Plainly plain ls
  chain : (ls.map Lexeme.token).IsChain (Token.Adjacent fun s => alone ∨ IsDistinguished s)
  standsAlone : alone → body = [] → standsAlone n.toList last cs = true
  opened : last = some '\x7b' → Opened p state
  /-- The string at hand is no key of a plain reference, which would have been replaced. -/
  kept : state.isOpen = true → plain Token.refKey → plain n →
    ∀ rest, ls.map Lexeme.token ≠ .str Token.refKey :: .colon :: .str n :: rest

/-- **What the rest is read as** once its references have been replaced. -/
def Replaces (plain : String → Prop) (alone : Prop) (n : String) (body : List Token) (p : Token)
    (state : State) (escaped : Bool) (cs : List Char) (ls : List Lexeme) : Prop :=
  ∃ ls', lexemesFrom state escaped (replaceFrom n.toList (body.flatMap Token.text) 0 cs) = some ls' ∧
    Plainly plain ls' ∧
    ∀ q, Token.Rewrites plain alone n body p q (ls.map Lexeme.token) (ls'.map Lexeme.token)

section Replacing

variable {plain : String → Prop} {alone : Prop} {n : String} {body : List Token} {p : Token}
  {last : Option Char} {state next : State} {escaped : Bool} {c : Char} {cs rest : List Char}
  {ls more : List Lexeme}

theorem map_token_mark (ts : List Token) : (ts.map (mark escaped)).map Lexeme.token = ts := by
  simp [Function.comp_def]

theorem map_token_lexeme (ts : List Token) : (ts.map Token.lexeme).map Lexeme.token = ts := by
  simp [Function.comp_def]

theorem plainly_append {ms : List Lexeme} :
    Plainly plain (ms ++ more) ↔ Plainly plain ms ∧ Plainly plain more := by
  simp only [Plainly, List.mem_append, or_imp, forall_and]

theorem plainly_cons {l : Lexeme} :
    Plainly plain (l :: more) ↔ (∀ s, l.token = .str s → plain s → l.escaped = false) ∧
      Plainly plain more := by
  simp only [Plainly, List.forall_mem_cons]

/-- What is written by its own text is spelled plainly. -/
theorem plainly_lexeme (hplain : ∀ s, plain s → IsPlain s) (ts : List Token) :
    Plainly plain (ts.map Token.lexeme) := by
  intro l hl s hs hs'
  obtain ⟨t, -, rfl⟩ := List.mem_map.mp hl
  rw [Token.lexeme_token] at hs
  rw [hs]
  exact hplain s hs'

theorem replaces_nil (h : Reads plain alone n body p last state escaped [] ls) :
    Replaces plain alone n body p state escaped [] ls := by
  refine ⟨ls, h.lexemes, h.plainly, fun q => ?_⟩
  have hls := h.lexemes
  cases state with
  | between =>
    obtain rfl := Option.some.inj hls
    exact .nil
  | word taken | numeral taken =>
    obtain ⟨ts, hts, rfl⟩ := Option.map_eq_some_iff.mp hls
    obtain ⟨t, -, rfl⟩ := Option.map_eq_some_iff.mp hts
    exact .keep (fun _ _ _ heq => by simp at heq) .nil
  | _ => cases hls

/-! ### Where no reference begins

The machine takes the character as it did before. -/

/-- An opening brace is a token, or stands in a string. -/
theorem opened_of_brace {ts : List Token} (h : step state '\x7b' = some (next, ts)) :
    Opened (ts.getLast?.getD p) next := by
  cases state with
  | between =>
    cases h
    rfl
  | word taken | numeral taken =>
    rw [step_of_not_continues rfl] at h
    obtain ⟨t, -, h⟩ := Option.bind_eq_some_iff.mp h
    cases h
    rfl
  | string taken =>
    cases h
    trivial
  | _ => cases h

/-- A blank behind a brace changes nothing. -/
theorem opened_of_blank {ts : List Token} (hblank : Blank.isBlank c = true) (hopened : Opened p state)
    (h : step state c = some (next, ts)) : Opened (ts.getLast?.getD p) next := by
  have hne {d : Char} (hd : Blank.isBlank d = false) : c ≠ d := by
    rintro rfl
    rw [hblank] at hd
    cases hd
  cases state with
  | between =>
    rcases step_between_cases h with ⟨-, rfl, rfl⟩ | ⟨t, ht, -, -⟩ | ⟨hc, -⟩ | ⟨hc, -⟩ | ⟨hc, -⟩
    · exact hopened
    · exact absurd hblank (by simp [not_blank (.inl (show single? c ≠ none by simp [ht]))])
    · exact absurd hc (hne rfl)
    · exact absurd hblank (by simp [not_blank (.inr (.inr (.inl hc)))])
    · exact absurd hblank (by simp [not_blank (.inr (.inr (.inr hc)))])
  | string taken =>
    simp only [step, if_neg (hne (show Blank.isBlank '"' = false from rfl)),
      if_neg (hne (show Blank.isBlank '\\' = false from rfl))] at h
    split at h
    · cases h
    · cases h
      trivial
  | _ => exact hopened.elim

/-- A plain reference is matched. -/
theorem dropReference?_ne_none {tail : List Token} (hplain : Plainly plain ls)
    (hkey : plain Token.refKey) (hname : plain n)
    (htokens : ls.map Lexeme.token = .str Token.refKey :: .colon :: .str n :: tail)
    (h : lexemesFrom (.string []) false cs = some ls) : dropReference? n.toList ('"' :: cs) ≠ none := by
  obtain ⟨⟨_, met⟩, ls₁, rfl, rfl, hls₁⟩ := List.map_eq_cons_iff.mp htokens
  obtain ⟨l, ls₂, rfl, hcolon, hls₂⟩ := List.map_eq_cons_iff.mp hls₁
  obtain ⟨⟨_, met'⟩, ls₃, rfl, rfl, -⟩ := List.map_eq_cons_iff.mp hls₂
  obtain rfl : met = false := hplain _ List.mem_cons_self _ rfl hkey
  obtain rfl : met' = false := hplain ⟨.str n, met'⟩ (by simp) n rfl hname
  obtain ⟨rest, hsome, -⟩ := exists_dropReference? hcolon ((lexemesFrom_cons rfl).trans h)
  exact hsome ▸ nofun

/-- **One step** where no reference begins. -/
theorem Reads.advance {ts : List Token}
    (h : Reads plain alone n body p last state escaped (c :: cs) (ts.map (mark escaped) ++ more))
    (hdrop : dropReference? n.toList (c :: cs) = none) (hstep : step state c = some (next, ts))
    (hmore : lexemesFrom next (next.escapeMet escaped) cs = some more) :
    Reads plain alone n body (ts.getLast?.getD p) (if Blank.isBlank c then last else some c) next
      (next.escapeMet escaped) cs more where
  lexemes := hmore
  plainly := (plainly_append.mp h.plainly).2
  chain := by
    have hchain := h.chain
    rw [List.map_append] at hchain
    exact hchain.right_of_append
  standsAlone halone hnil := standsAlone_tail (h.standsAlone halone hnil)
  opened hlast := by
    split at hlast
    · exact opened_of_blank ‹_› (h.opened hlast) hstep
    · obtain rfl := Option.some.inj hlast
      exact opened_of_brace hstep
  kept hnext hkey hname tail htokens := by
    cases hstate : state.isOpen with
    | true =>
      rcases step_open hstate hstep with ⟨-, rfl, -⟩ | ⟨-, -, -, rfl, -⟩
      · exact h.kept hstate hkey hname tail htokens
      · cases hnext
    | false =>
      -- a plain reference would begin at the quote
      obtain ⟨rfl, rfl⟩ := (step_closed hstate hstep).2 hnext
      have hplain := (plainly_append.mp h.plainly).2
      exact dropReference?_ne_none hplain hkey hname htokens hmore hdrop

/-- The tokens that a step completes stay. -/
theorem Reads.rewrites_step {ts us : List Token} {q : Token}
    (h : Reads plain alone n body p last state escaped (c :: cs) (ts.map (mark escaped) ++ more))
    (hstep : step state c = some (next, ts))
    (hus : Token.Rewrites plain alone n body (ts.getLast?.getD p) q (more.map Lexeme.token) us) :
    Token.Rewrites plain alone n body p q (ts ++ more.map Lexeme.token) (ts ++ us) := by
  cases hstate : state.isOpen with
  | true =>
    rcases step_open hstate hstep with ⟨-, rfl, -⟩ | ⟨taken, -, -, -, rfl⟩
    · exact hus
    · exact .keep (h.kept hstate) hus
  | false => exact hus.append_left (step_closed hstate hstep).1

theorem replaces_step (h : Reads plain alone n body p last state escaped (c :: cs) ls)
    (hdrop : dropReference? n.toList (c :: cs) = none)
    (ih : ∀ p last state escaped ls, Reads plain alone n body p last state escaped cs ls →
      Replaces plain alone n body p state escaped cs ls) :
    Replaces plain alone n body p state escaped (c :: cs) ls := by
  have hlexemes := h.lexemes
  cases hstep : step state c with
  | none =>
    rw [lexemesFrom_cons_none hstep] at hlexemes
    cases hlexemes
  | some result =>
    obtain ⟨next, ts⟩ := result
    rw [lexemesFrom_cons_some hstep] at hlexemes
    obtain ⟨more, hmore, rfl⟩ := Option.map_eq_some_iff.mp hlexemes
    obtain ⟨ls', hls', hplain', hrewrites⟩ := ih _ _ _ _ _ (h.advance hdrop hstep hmore)
    refine ⟨ts.map (mark escaped) ++ ls', ?_,
      plainly_append.mpr ⟨(plainly_append.mp h.plainly).1, hplain'⟩, fun q => ?_⟩
    · rw [replaceFrom_cons hdrop, lexemesFrom_cons_some hstep, hls']
      rfl
    · rw [List.map_append, List.map_append, map_token_mark]
      exact h.rewrites_step hstep (hrewrites q)

/-! ### Where a reference begins -/

/-- Behind a reference no word and no numeral goes on. -/
theorem cut_replaceFrom {rest : List Char} {more : List Lexeme}
    (h : lexemesFrom .between false rest = some more)
    (hbehind : ∀ l ∈ more.head?, l.token.isBehind = true) (chars : List Char) :
    Cut (replaceFrom n.toList chars 0 rest) := by
  cases rest with
  | nil => exact cut_nil
  | cons c cs =>
    have hkept (hquote : c ≠ '"') (hc : isNumeralPart c = false ∧ c.isLower = false) :
        Cut (replaceFrom n.toList chars 0 (c :: cs)) := by
      rw [replaceFrom_cons (dropReference?_eq_none hquote)]
      exact cut_cons.mpr hc
    rcases lexemesFrom_between_cases h with ⟨hc, -⟩ | ⟨t, more, hc, -, -⟩ | ⟨-, hcs⟩ | ⟨-, hcs⟩ |
      ⟨-, hcs⟩
    · simp only [isBlank, Bool.or_eq_true, decide_eq_true_eq] at hc
      rcases hc with ((rfl | rfl) | rfl) | rfl <;> exact hkept (by decide) ⟨rfl, rfl⟩
    · unfold single? at hc
      split at hc <;> cases hc <;> exact hkept (by decide) ⟨rfl, rfl⟩
    · obtain ⟨s, met, more, rfl, -⟩ := head_of_open rfl hcs
      cases hbehind _ rfl
    · obtain ⟨l, more, rfl, hbare⟩ := head_of_bare ⟨_, .inr rfl⟩ hcs
      have := hbehind l rfl
      cases htoken : l.token <;> simp_all [Token.isBare, Token.isBehind]
    · obtain ⟨l, more, rfl, hbare⟩ := head_of_bare ⟨_, .inl rfl⟩ hcs
      have := hbehind l rfl
      cases htoken : l.token <;> simp_all [Token.isBare, Token.isBehind]

/-- **Behind a reference** the rest of the text is read. -/
theorem Reads.behind {s : String} {met : Bool} (ms : List Lexeme)
    (h : Reads plain alone n body p last state escaped (c :: cs) (ms ++ ⟨.str s, met⟩ :: more))
    (hdrop : dropReference? n.toList (c :: cs) = some rest)
    (hmore : lexemesFrom .between false rest = some more) :
    Reads plain alone n body (.str s) (some '"') .between false rest more ∧
      ∀ l ∈ more.head?, l.token.isBehind = true := by
  have hchain := h.chain
  rw [List.map_append, List.map_cons] at hchain
  have hsuffix : '"' :: rest <:+ c :: cs :=
    (quote_suffix_of_dropReference? hdrop).2.trans (List.suffix_cons c cs)
  refine ⟨⟨hmore, (plainly_cons.mp (plainly_append.mp h.plainly).2).2, hchain.right_of_append.tail,
    fun halone hnil => standsAlone_suffix rfl hsuffix (h.standsAlone halone hnil),
    fun hlast => ?_, nofun⟩, ?_⟩
  · exact absurd (Option.some.inj hlast) (by decide)
  · intro l hl
    obtain ⟨tail, rfl⟩ := List.head?_eq_some_iff.mp hl
    exact (List.isChain_cons_cons.mp hchain.right_of_append).1.behind rfl

/-- The text of the body's tokens, and then the rest with its references replaced. -/
theorem lexemesFrom_body {ts : List Token} {ls' : List Lexeme} (hchain : ts.IsChain Token.Apart)
    (hread : ∀ t ∈ ts, t.Readable) (hmore : lexemesFrom .between false rest = some more)
    (hbehind : ∀ l ∈ more.head?, l.token.isBehind = true) {chars : List Char}
    (hls' : lexemesFrom .between false (replaceFrom n.toList chars 0 rest) = some ls') :
    lexemesFrom .between false (ts.flatMap Token.text ++ replaceFrom n.toList chars 0 rest) =
      some (ts.map Token.lexeme ++ ls') := by
  rw [Token.lexemesFrom_texts hchain hread (cut_replaceFrom hmore hbehind chars), hls']
  rfl

/-- Behind a backslash the quote of the body's first key goes on with the string. -/
theorem lexemesFrom_escaped_body {taken : List Char} {key : String} {tail : List Token} :
    lexemesFrom (.escape taken) escaped ((Token.str key :: tail).flatMap Token.text ++ cs) =
      (lexemesFrom .between false (tail.flatMap Token.text ++ cs)).map
        (⟨.str (String.ofList (taken.reverse ++ '"' :: key.toList)),
          escaped || key.toList.any needsEscape⟩ :: ·) := by
  have htext : (Token.str key :: tail).flatMap Token.text ++ cs =
      '"' :: (key.toList.flatMap Token.escapeChar ++ '"' :: (tail.flatMap Token.text ++ cs)) := by
    simp [Token.text, Token.quote]
  have hstep : step (.escape taken) '"' = some (.string ('"' :: taken), []) := rfl
  rw [htext, lexemesFrom_cons hstep, lexemesFrom_quote (by simp), List.reverse_cons,
    List.append_assoc]
  rfl

/-- **A reference** gives way to the body. -/
theorem replaces_reference (hrep : Replaceable plain n body)
    (h : Reads plain alone n body p last .between escaped (c :: cs) ls)
    (hdrop : dropReference? n.toList (c :: cs) = some rest)
    (ih : ∀ p more, Reads plain alone n body p (some '"') .between false rest more →
      Replaces plain alone n body p .between false rest more) :
    Replaces plain alone n body p .between escaped (c :: cs) ls := by
  obtain ⟨rfl, -⟩ := suffix_of_dropReference? hdrop
  have hlexemes := h.lexemes
  rw [lexemesFrom_between] at hlexemes
  obtain ⟨s, met, more, rfl, hs, hmore⟩ := lexemes_of_dropReference? hrep.whole hdrop hlexemes
  obtain ⟨hreads, hbehind⟩ :=
    Reads.behind [⟨.str Token.refKey, false⟩, ⟨.colon, false⟩] h hdrop hmore
  obtain ⟨ls', hls', hplain', hrewrites⟩ := ih _ more hreads
  refine ⟨body.map Token.lexeme ++ ls', ?_,
    plainly_append.mpr ⟨plainly_lexeme hrep.isPlain body, hplain'⟩, fun q => ?_⟩
  · rw [replaceFrom_reference hdrop, lexemesFrom_between,
      lexemesFrom_body hrep.chain hrep.readable hmore hbehind hls']
  · rw [List.map_append, map_token_lexeme]
    refine .swap .reference (fun hn => hs (hrep.isPlain n hn)) (fun halone hnil => ?_) (hrewrites q)
    obtain ⟨hlast, hfirst⟩ := standsAlone_reference (h.standsAlone halone hnil) hdrop
    obtain ⟨behind, hbrace⟩ := List.head?_eq_some_iff.mp hfirst
    have hdropped := lexemesFrom_dropBlanks hmore
    rw [hbrace, lexemesFrom_single (show single? '\x7d' = some .closeBrace from rfl)] at hdropped
    obtain ⟨tail, -, rfl⟩ := Option.map_eq_some_iff.mp hdropped
    exact ⟨h.opened hlast, rfl⟩

/-- Where a key ends in what looks like the key of a reference there is a body: without one the
backslash would stand before the rest. -/
theorem Reads.exists_body {taken before : List Char} {met met' : Bool}
    (h : Reads plain alone n body p last (.escape taken) escaped (c :: cs)
      (⟨.str (String.ofList (before ++ ['"', '$', 'r', 'e', 'f'])), met⟩ :: ⟨.colon, met'⟩ :: more))
    (hrep : Replaceable plain n body) (hdrop : dropReference? n.toList (c :: cs) = some rest) :
    ∃ key tail, body = .str key :: tail := by
  have hnil : body ≠ [] := by
    intro hnil
    rcases (List.isChain_cons_cons.mp h.chain).1.key _ rfl rfl with halone | hdistinguished
    · exact h.opened (standsAlone_reference (h.standsAlone halone hnil) hdrop).1
    · exact hdistinguished ⟨before, String.toList_ofList.symm⟩
  obtain ⟨t, tail, rfl⟩ := List.exists_cons_of_ne_nil hnil
  obtain ⟨key, rfl⟩ := hrep.begins t rfl
  exact ⟨key, tail, rfl⟩

/-- **A key that ends in what looks like the key of a reference** goes on with the first key of the
body. -/
theorem replaces_stray {taken : List Char} (hrep : Replaceable plain n body)
    (h : Reads plain alone n body p last (.escape taken) escaped ('"' :: cs) ls)
    (hdrop : dropReference? n.toList ('"' :: cs) = some rest)
    (ih : ∀ p more, Reads plain alone n body p (some '"') .between false rest more →
      Replaces plain alone n body p .between false rest more) :
    Replaces plain alone n body p (.escape taken) escaped ('"' :: cs) ls := by
  have hstep : step (.escape taken) '"' = some (.string ('"' :: taken), []) := rfl
  have hlexemes := h.lexemes
  rw [lexemesFrom_cons hstep] at hlexemes
  obtain ⟨s, met, met', more, rfl, hs, hmore⟩ :=
    lexemes_of_escaped_dropReference? hrep.whole hdrop hlexemes
  obtain ⟨hreads, hbehind⟩ :=
    Reads.behind [⟨.str (String.ofList _), met⟩, ⟨.colon, false⟩] h hdrop hmore
  obtain ⟨ls', hls', hplain', hrewrites⟩ := ih _ more hreads
  obtain ⟨key, tail, rfl⟩ := h.exists_body hrep hdrop
  have htail : tail.IsChain Token.Apart := hrep.chain.tail
  have hreadable : ∀ t ∈ tail, t.Readable := fun t ht => hrep.readable t (List.mem_cons_of_mem _ ht)
  refine ⟨⟨.str (String.ofList (taken.reverse ++ '"' :: key.toList)),
    escaped || key.toList.any needsEscape⟩ :: (tail.map Token.lexeme ++ ls'), ?_, ?_, fun q => ?_⟩
  · rw [replaceFrom_reference hdrop, lexemesFrom_escaped_body,
      lexemesFrom_body htail hreadable hmore hbehind hls']
    rfl
  · refine plainly_cons.mpr ⟨fun s hs hs' => ?_, plainly_append.mpr
      ⟨plainly_lexeme hrep.isPlain tail, hplain'⟩⟩
    -- a quote stands in it, so it is not plain
    obtain rfl := Token.str.inj hs
    have := hrep.isPlain _ hs'
    simp [IsPlain, needsEscape] at this
  · simp only [List.map_cons, List.map_append, map_token_lexeme]
    exact .swap (.stray rfl) (fun hn => hs (hrep.isPlain n hn))
      (fun _ hnone => absurd hnone (List.cons_ne_nil _ _)) (hrewrites q)

/-! ### The whole text -/

/-- **A reference begins** outside every token, or at an escaped quote. -/
theorem Reads.state_of_dropReference?
    (h : Reads plain alone n body p last state escaped ('"' :: cs) ls)
    (hdrop : dropReference? n.toList ('"' :: cs) = some rest) :
    state = .between ∨ ∃ taken, state = .escape taken := by
  have hlexemes := h.lexemes
  have hbare (hstate : ∃ taken, state = .word taken ∨ state = .numeral taken) : False := by
    have hend : ∀ c ∈ ('"' :: cs).head?, continues state c = false := by
      rintro c hc
      obtain rfl := Option.some.inj hc
      obtain ⟨taken, rfl | rfl⟩ := hstate <;> rfl
    rw [lexemesFrom_completed hstate hend] at hlexemes
    obtain ⟨t, ht, hlexemes⟩ := Option.bind_eq_some_iff.mp hlexemes
    obtain ⟨more, hmore, rfl⟩ := Option.map_eq_some_iff.mp hlexemes
    rw [lexemesFrom_cons rfl] at hmore
    obtain ⟨s, met, tail, rfl, -⟩ := head_of_open rfl hmore
    have hbehind := (List.isChain_cons_cons.mp h.chain).1.behind
      (by rw [mark_token]; exact Token.endsValue_of_isBare (isBare_of_completed? ht))
    cases hbehind
  cases state with
  | between => exact .inl rfl
  | escape taken => exact .inr ⟨taken, rfl⟩
  | word taken => exact (hbare ⟨taken, .inl rfl⟩).elim
  | numeral taken => exact (hbare ⟨taken, .inr rfl⟩).elim
  | string taken =>
    -- no token begins like the rest of a reference
    obtain ⟨behindKey, -, hkey, -, -⟩ := dropReference?_eq_some_iff.mp hdrop
    obtain ⟨-, rfl⟩ := List.cons.inj hkey
    rw [lexemesFrom_cons_some rfl] at hlexemes
    obtain ⟨more, hmore, -⟩ := Option.map_eq_some_iff.mp hlexemes
    cases hmore.symm.trans (lexemesFrom_cons_none (show step .between '$' = none from rfl))
  | _ => cases hlexemes

/-- **Replacing in the rest of a text** rewrites its tokens. -/
theorem Reads.replaces (hrep : Replaceable plain n body)
    (h : Reads plain alone n body p last state escaped cs ls) :
    Replaces plain alone n body p state escaped cs ls := by
  induction hlen : cs.length using Nat.strong_induction_on generalizing p last state escaped cs ls with
  | _ len ih =>
    cases cs with
    | nil => exact replaces_nil h
    | cons c cs =>
      cases hdrop : dropReference? n.toList (c :: cs) with
      | none =>
        exact replaces_step h hdrop fun _ _ _ _ _ hreads =>
          ih cs.length (by simp [← hlen]) hreads rfl
      | some rest =>
        obtain ⟨rfl, hsuffix⟩ := suffix_of_dropReference? hdrop
        have ih (p : Token) (more : List Lexeme)
            (hreads : Reads plain alone n body p (some '"') .between false rest more) :
            Replaces plain alone n body p .between false rest more :=
          ih rest.length (hlen ▸ Nat.lt_succ_of_le hsuffix.length_le) hreads rfl
        rcases h.state_of_dropReference? hdrop with rfl | ⟨taken, rfl⟩
        · exact replaces_reference hrep h hdrop ih
        · exact replaces_stray hrep h hdrop ih

/-- **Replacing references in a text** rewrites its tokens. -/
theorem rewrites_replace {ts : List Token} (hrep : Replaceable plain n body)
    (hchain : ts.IsChain (Token.Adjacent fun s => alone ∨ IsDistinguished s))
    (halone : alone → body = [] → standsAlone n.toList none cs = true) (h : Spells plain cs ts) :
    ∃ us, Spells plain (replace n.toList (body.flatMap Token.text) cs) us ∧
      ∀ p q, Token.Rewrites plain alone n body p q ts us := by
  obtain ⟨ls, hls, rfl, hplain⟩ := h
  have hreads (p : Token) : Reads plain alone n body p none .between false cs ls :=
    ⟨hls, hplain, hchain, halone, nofun, nofun⟩
  obtain ⟨ls', hls', hplain', -⟩ := (hreads .comma).replaces hrep
  refine ⟨ls'.map Lexeme.token, ⟨ls', hls', rfl, hplain'⟩, fun p q => ?_⟩
  obtain ⟨ls₁, hls₁, -, hrewrites⟩ := (hreads p).replaces hrep
  obtain rfl := Option.some.inj (hls'.symm.trans hls₁)
  exact hrewrites q

/-- **Where references are plain and keys are no strays**, all references are replaced, and nothing
else. -/
theorem eq_substituted_of_rewrites {q : Token} {ts us : List Token}
    (h : Token.Rewrites plain alone n body p q ts us) (hkey : plain Token.refKey) (hname : plain n)
    (hchain : ts.IsChain (Token.Adjacent IsDistinguished)) :
    us = Token.substituted (Token.only n body) ts := by
  induction h with
  | nil => rfl
  | keep hkept _ ih =>
    rw [Token.substituted_cons, ih hchain.tail]
    rintro n' rest rfl rfl
    exact if_neg fun heq => hkept hkey hname rest (by rw [heq])
  | swap htakes hs _ _ ih =>
    cases htakes with
    | reference =>
      rw [hs hname, Token.substituted_reference Token.only_self, ih hchain.tail.tail.tail]
    | stray =>
      have hstray := (List.isChain_cons_cons.mp hchain).1.key _ rfl rfl
      exact absurd ⟨_, String.toList_ofList.symm⟩ hstray

/-- **Replacing plain references in a text replaces them among its tokens.** -/
theorem spells_replace {ts : List Token} (hrep : Replaceable plain n body)
    (hkey : plain Token.refKey) (hname : plain n)
    (hchain : ts.IsChain (Token.Adjacent IsDistinguished)) (h : Spells plain cs ts) :
    Spells plain (replace n.toList (body.flatMap Token.text) cs)
      (Token.substituted (Token.only n body) ts) := by
  have hloose : ts.IsChain (Token.Adjacent fun s => False ∨ IsDistinguished s) :=
    hchain.imp fun _ _ hadjacent => ⟨hadjacent.behind, fun s ht hu => .inr (hadjacent.key s ht hu)⟩
  obtain ⟨us, hspells, hrewrites⟩ := rewrites_replace hrep hloose (fun hfalse => hfalse.elim) h
  rwa [eq_substituted_of_rewrites (hrewrites .comma .comma) hkey hname hchain] at hspells

end Replacing

end Fragments

end FeatureFlags
