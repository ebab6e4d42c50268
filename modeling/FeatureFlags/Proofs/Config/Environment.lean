import FeatureFlags.Proofs.Collections.Results
import FeatureFlags.Proofs.Config.Layering
import FeatureFlags.Proofs.Json.Numerals

/-!
# Proofs/Config/Environment — what the variables of an environment set

A layer is read setting by setting, each by its kind, and the first setting that cannot be read decides
(`Layer.read_eq_ok_iff`, `Layer.read_eq_error_iff`).  `SettingKind.Writes` says which texts are literals of
a kind, and of what value.  In an environment a number has to be a literal.  A switch need not: every text
but the literals of `true` turns it off (`ConfigSource.load_environment`).
-/

namespace FeatureFlags

/-! ## Kinds -/

/-- **What a setting may be set to**: a text, a number up to a greatest one, on or off. -/
inductive SettingKind
  | text
  | number (greatest : Nat)
  | switch
  deriving DecidableEq

namespace SettingKind

/-- The name of a kind. -/
def name : SettingKind → String
  | text => "text"
  | number greatest => Environment.kindName greatest
  | switch => "boolean"

/-- **The literals of a kind**, each with its value.  A number may have a plus sign before it; a switch is
`true` or `false` in any case, or `1` or `0`. -/
inductive Writes : SettingKind → String → SettingValue → Prop
  | text (v : String) : Writes text v (.text v)
  | number {greatest n : Nat} {v : String} {digits : List Char}
      (shape : v.toList = digits ∨ v.toList = '+' :: digits) (isNumeral : Numeral.Digits digits)
      (value : Nat.ofDigitChars 10 digits 0 = n) (le : n ≤ greatest) :
      Writes (number greatest) v (.number n)
  | on {v : String} (shape : v.toList.map Char.toLower = "true".toList ∨ v = "1") :
      Writes switch v (.switch true)
  | off {v : String} (shape : v.toList.map Char.toLower = "false".toList ∨ v = "0") :
      Writes switch v (.switch false)

/-- **How the text of a variable is read**: as the value that it writes, but a switch is off for every text
that does not turn it on. -/
inductive Reads : SettingKind → String → SettingValue → Prop
  | literal {kind : SettingKind} {v : String} {value : SettingValue} (h : Writes kind v value) :
      Reads kind v value
  | notOn {v : String} (h : ¬ Writes switch v (.switch true)) : Reads switch v (.switch false)

/-- The value that a text is read as. -/
def read? (kind : SettingKind) (v : String) : Option SettingValue :=
  match kind with
  | text => some (.text v)
  | number greatest => (Numeral.unsigned? greatest v.toList).map .number
  | switch => some (.switch (Environment.isOn v))

end SettingKind

/-- A numeral has at most one plus sign before its digits. -/
theorem Numeral.unsigned?_eq_some_iff {greatest n : Nat} {cs : List Char} :
    unsigned? greatest cs = some n ↔
      ∃ digits, (cs = digits ∨ cs = '+' :: digits) ∧ Digits digits ∧ value digits = n ∧
        n ≤ greatest := by
  have hread {rest : List Char} : (digits? rest).filter (· ≤ greatest) = some n ↔
      Digits rest ∧ value rest = n ∧ n ≤ greatest := by
    rw [Option.filter_eq_some_iff, digits?_eq_some_iff, decide_eq_true_iff, and_assoc]
  by_cases hplus : ∃ rest, cs = '+' :: rest
  · obtain ⟨rest, rfl⟩ := hplus
    refine hread.trans ⟨fun h => ⟨rest, .inr rfl, h⟩, ?_⟩
    rintro ⟨digits, rfl | hshape, hdigits, h⟩
    · exact absurd (hdigits.isDigit '+' List.mem_cons_self) (by decide)
    · obtain rfl := (List.cons.inj hshape).2
      exact ⟨hdigits, h⟩
  · have hplain : unsigned? greatest cs = (digits? cs).filter (· ≤ greatest) := by
      rw [unsigned?.eq_def]
      grind
    rw [hplain]
    refine hread.trans ⟨fun h => ⟨cs, .inl rfl, h⟩, ?_⟩
    rintro ⟨digits, rfl | hshape, h⟩
    · exact h
    · exact absurd ⟨digits, hshape⟩ hplus

namespace SettingKind

section Reading

variable {v : String}

theorem isOn_iff : Environment.isOn v = true ↔ Writes switch v (.switch true) := by
  rw [Environment.isOn, Bool.or_eq_true, beq_iff_eq, beq_iff_eq]
  exact ⟨.on, fun | .on shape => shape⟩

/-- No text turns a switch on and off. -/
theorem Writes.not_on (h : Writes switch v (.switch false)) : ¬ Writes switch v (.switch true) := by
  intro hwrites
  cases hwrites with
  | on hon =>
    cases h with
    | off hoff =>
      rcases hoff with hoff | rfl
      · rcases hon with hon | rfl
        · exact absurd (hon.symm.trans hoff) (by decide)
        · exact absurd hoff (by decide)
      · exact absurd hon (by decide)

theorem reads_switch_iff {value : SettingValue} :
    Reads switch v value ↔ value = .switch (Environment.isOn v) := by
  constructor
  · rintro (h | h)
    · cases h with
      | on shape => rw [isOn_iff.mpr (.on shape)]
      | off shape => rw [Bool.eq_false_iff.mpr (mt isOn_iff.mp (Writes.off shape).not_on)]
    · rw [Bool.eq_false_iff.mpr (mt isOn_iff.mp h)]
  · rintro rfl
    cases hon : Environment.isOn v with
    | true => exact .literal (isOn_iff.mp hon)
    | false => exact .notOn (mt isOn_iff.mpr (Bool.eq_false_iff.mp hon))

/-- **What a text is read as.** -/
theorem read?_eq_some_iff {kind : SettingKind} {value : SettingValue} :
    kind.read? v = some value ↔ kind.Reads v value := by
  cases kind with
  | text =>
    constructor
    · rintro ⟨⟩
      exact .literal (.text v)
    · rintro ⟨⟨⟩⟩
      rfl
  | number greatest =>
    simp only [read?, Option.map_eq_some_iff, Numeral.unsigned?_eq_some_iff,
      Numeral.value_eq_ofDigitChars]
    constructor
    · rintro ⟨n, ⟨digits, hshape, hdigits, hvalue, hle⟩, rfl⟩
      exact .literal (.number hshape hdigits hvalue hle)
    · rintro ⟨hwrites⟩
      cases hwrites with
      | number hshape hdigits hvalue hle => exact ⟨_, ⟨_, hshape, hdigits, hvalue, hle⟩, rfl⟩
  | switch => exact (Option.some_inj.trans eq_comm).trans reads_switch_iff.symm

end Reading

end SettingKind

/-! ## Reading setting by setting -/

/-- What a setting may be set to. -/
def Setting.kind : Setting → SettingKind
  | host | certPath | selector | providerId | offlineFlagSourcePath => .text
  | port => .number Layer.greatestPort
  | deadline | streamDeadline | retryBackoff | retryBackoffMax | retryJitter | keepAlive
  | offlinePollInterval | shutdownGrace => .number Numeral.greatest64
  | tls | syncMetadataDisabled | throwIfInvalid => .switch

variable {ε : Type}

/-- **What a setting is read as**, by its kind. -/
def SettingReader.value (r : SettingReader ε) (s : Setting) : Except ε (Option SettingValue) :=
  match s.kind with
  | .text => Option.map .text <$> r.text s
  | .number greatest => Option.map .number <$> r.number greatest s
  | .switch => Option.map .switch <$> r.flag s

theorem Setting.mem_all (s : Setting) : s ∈ all := by
  cases s <;> decide

namespace Layer

/-- **A layer is read setting by setting**, in order. -/
theorem map_read (r : SettingReader ε) :
    (fun l => Setting.all.map l.value?) <$> read r = Setting.all.mapM r.value := by
  simp only [read, Setting.all, List.mapM_cons, List.mapM_nil, SettingReader.value, Setting.kind,
    List.map_cons, List.map_nil, value?, map_eq_pure_bind, bind_assoc, pure_bind]

variable {r : SettingReader ε}

/-- **A layer says of every setting what it is read as** … -/
theorem read_eq_ok_iff {l : Layer} : read r = .ok l ↔ ∀ s, r.value s = .ok (l.value? s) := by
  have hrow : Setting.all.mapM r.value = .ok (Setting.all.map l.value?) ↔
      ∀ s, r.value s = .ok (l.value? s) := by
    rw [mapM_eq_ok_iff, List.forall₂_map_right_iff, List.forall₂_same]
    exact ⟨fun h s => h s s.mem_all, fun h s _ => h s⟩
  rw [← hrow, ← map_read]
  constructor
  · rintro h
    rw [h]
    rfl
  · intro h
    cases hread : read r with
    | error e => cases hread ▸ h
    | ok l' =>
      have hvalues := Except.ok.inj (hread ▸ h : Except.ok _ = _)
      exact congrArg _ (ext_value? fun s => List.map_inj_left.mp hvalues s s.mem_all)

/-- … or the first setting that cannot be read decides. -/
theorem read_eq_error_iff {e : ε} :
    read r = .error e ↔ ∃ before s after, Setting.all = before ++ s :: after ∧
      (∀ b ∈ before, ∃ v, r.value b = .ok v) ∧ r.value s = .error e := by
  rw [← mapM_eq_error_iff, ← map_read]
  cases read r with
  | error => exact ⟨fun h => congrArg _ (Except.error.inj h), fun h => congrArg _ (Except.error.inj h)⟩
  | ok => exact ⟨nofun, nofun⟩

end Layer

/-! ## The environment -/

namespace Environment

section Meaning

variable (Means : SettingKind → String → SettingValue → Prop) (env : Environment)

/-- **A layer is what an environment says**: of each variable that is set what its text means, and nothing
of the others. -/
structure Says (l : Layer) : Prop where
  unset : ∀ s, env.value? s = none → l.value? s = none
  isSet : ∀ s v, env.value? s = some v → ∃ value, l.value? s = some value ∧ Means s.kind v value

/-- **An environment is refused** for the first variable whose text means nothing. -/
inductive Refuses : ConfigError → Prop
  | first {before after : List Setting} {s : Setting} {v : String}
      (order : Setting.all = before ++ s :: after)
      (earlier : ∀ b ∈ before, ∀ v, env.value? b = some v → ∃ value, Means b.kind v value)
      (isSet : env.value? s = some v) (bad : ∀ value, ¬ Means s.kind v value) :
      Refuses (.badVariable s.variableName s.kind.name v)

end Meaning

/-- Every switch that is set is set to a literal. -/
def WritesSwitches (env : Environment) : Prop :=
  ∀ s v, s.kind = .switch → env.value? s = some v → ∃ value, SettingKind.Writes .switch v value

variable {env : Environment} {s : Setting} {v : String} {e : ConfigError} {l : Layer}

/-! ### Reading a variable -/

theorem value_reader_of_none (h : env.value? s = none) : env.reader.value s = .ok none := by
  rw [SettingReader.value]
  split <;> simp only [reader, number, h] <;> rfl

theorem value_reader_of_some (h : env.value? s = some v) :
    env.reader.value s = match s.kind.read? v with
      | some value => .ok (some value)
      | none => .error (.badVariable s.variableName s.kind.name v) := by
  rw [SettingReader.value]
  cases s.kind with
  | text => simp only [reader, h]; rfl
  | switch => simp only [reader, h]; rfl
  | number greatest =>
    simp only [reader, number, h, SettingKind.read?]
    cases Numeral.unsigned? greatest v.toList <;> rfl

/-- **A setting is what the text of its variable is read as** … -/
theorem value_reader_eq_ok_iff (h : env.value? s = some v) {value : Option SettingValue} :
    env.reader.value s = .ok value ↔ ∃ read, value = some read ∧ s.kind.Reads v read := by
  simp only [value_reader_of_some h, ← SettingKind.read?_eq_some_iff]
  cases s.kind.read? v with
  | none => simp
  | some => simp [eq_comm]

/-- … or it is refused for that text. -/
theorem value_reader_eq_error_iff :
    env.reader.value s = .error e ↔ ∃ v, env.value? s = some v ∧
      (∀ value, ¬ s.kind.Reads v value) ∧ .badVariable s.variableName s.kind.name v = e := by
  cases h : env.value? s with
  | none => simp [value_reader_of_none h]
  | some v =>
    simp only [value_reader_of_some h, ← SettingKind.read?_eq_some_iff, Option.some.injEq,
      exists_eq_left', ← Option.eq_none_iff_forall_ne_some]
    cases s.kind.read? v with
    | none => simp
    | some => simp

theorem exists_value_reader_iff :
    (∃ value, env.reader.value s = .ok value) ↔
      ∀ v, env.value? s = some v → ∃ value, s.kind.Reads v value := by
  cases h : env.value? s with
  | none => simp [value_reader_of_none h]
  | some v => simp [value_reader_eq_ok_iff h]

/-! ### Reading an environment -/

theorem load_eq_ok_iff :
    ConfigSource.load (.environment env) = .ok l ↔ env.Says SettingKind.Reads l := by
  refine Layer.read_eq_ok_iff.trans ⟨fun h => ?_, fun ⟨hunset, hset⟩ s => ?_⟩
  · refine ⟨fun s hs => ?_, fun s v hs => (value_reader_eq_ok_iff hs).mp (h s)⟩
    exact (Except.ok.inj ((value_reader_of_none hs).symm.trans (h s))).symm
  · cases hs : env.value? s with
    | none => rw [value_reader_of_none hs, hunset s hs]
    | some v => exact (value_reader_eq_ok_iff hs).mpr (hset s v hs)

theorem load_eq_error_iff :
    ConfigSource.load (.environment env) = .error e ↔ env.Refuses SettingKind.Reads e := by
  refine Layer.read_eq_error_iff.trans ?_
  simp only [exists_value_reader_iff, value_reader_eq_error_iff]
  constructor
  · rintro ⟨before, s, after, horder, hearlier, v, hset, hbad, rfl⟩
    exact .first horder hearlier hset hbad
  · rintro ⟨horder, hearlier, hset, hbad⟩
    exact ⟨_, _, _, horder, hearlier, _, hset, hbad, rfl⟩

/-! ### Switches that are set to literals -/

theorem WritesSwitches.reads_iff (h : env.WritesSwitches) (hset : env.value? s = some v)
    (value : SettingValue) : s.kind.Reads v value ↔ s.kind.Writes v value := by
  refine ⟨fun hreads => ?_, .literal⟩
  generalize hkind : s.kind = kind at hreads ⊢
  cases hreads with
  | literal hwrites => exact hwrites
  | notOn hoff =>
    obtain ⟨value, hwrites⟩ := h s v hkind hset
    cases hwrites with
    | on shape => exact absurd (.on shape) hoff
    | off shape => exact .off shape

variable {Means Means' : SettingKind → String → SettingValue → Prop}

theorem Says.imp (h : env.Says Means l)
    (himp : ∀ s v value, env.value? s = some v → Means s.kind v value → Means' s.kind v value) :
    env.Says Means' l where
  unset := h.unset
  isSet s v hset := by
    obtain ⟨value, hvalue, hmeans⟩ := h.isSet s v hset
    exact ⟨value, hvalue, himp s v value hset hmeans⟩

theorem Refuses.congr (h : env.Refuses Means e)
    (hiff : ∀ s v, env.value? s = some v → ∀ value, Means s.kind v value ↔ Means' s.kind v value) :
    env.Refuses Means' e := by
  obtain ⟨horder, hearlier, hset, hbad⟩ := h
  refine .first horder (fun b hb v hv => ?_) hset fun value hm => hbad value ((hiff _ _ hset _).mpr hm)
  obtain ⟨value, hm⟩ := hearlier b hb v hv
  exact ⟨value, (hiff b v hv value).mp hm⟩

/-- A layer that says what the texts write was read from literals only. -/
theorem Says.writesSwitches (h : env.Says SettingKind.Writes l) : env.WritesSwitches := by
  intro s v hkind hset
  obtain ⟨value, -, hwrites⟩ := h.isSet s v hset
  exact ⟨value, hkind ▸ hwrites⟩

/-- **A switch is off** if its variable is set and does not turn it on. -/
theorem Says.eq_off_iff (h : env.Says SettingKind.Reads l) (hkind : s.kind = .switch) :
    l.value? s = some (.switch false) ↔
      ∃ v, env.value? s = some v ∧ ¬ SettingKind.Writes .switch v (.switch true) := by
  cases hset : env.value? s with
  | none => simp [h.unset s hset]
  | some v =>
    obtain ⟨value, hvalue, hreads⟩ := h.isSet s v hset
    rw [hkind, SettingKind.reads_switch_iff] at hreads
    simp [hvalue, hreads, ← SettingKind.isOn_iff]

end Environment

namespace ConfigSource

open Environment SettingKind

/-- **What an environment sets.**  Loading gives the layer that says what the variables are read as, and
fails for the first variable in order that is not read.  If every switch that is set is set to a literal,
all of this holds of what the variables write; otherwise the layer that is loaded does not say what they
write.  So `tls` is turned off by every text that does not turn it on. -/
theorem load_environment (env : Environment) :
    (∀ l, load (.environment env) = .ok l ↔ env.Says Reads l) ∧
      (∀ e, load (.environment env) = .error e ↔ env.Refuses Reads e) ∧
      (env.WritesSwitches →
        (∀ l, load (.environment env) = .ok l ↔ env.Says Writes l) ∧
        ∀ e, load (.environment env) = .error e ↔ env.Refuses Writes e) ∧
      ∀ l, load (.environment env) = .ok l →
        (env.Says Writes l ↔ env.WritesSwitches) ∧
        (l.tls = some false ↔ ∃ v, env.value? .tls = some v ∧ ¬ Writes .switch v (.switch true)) := by
  have hwrites (h : env.WritesSwitches) (l : Layer) : env.Says Reads l ↔ env.Says Writes l :=
    ⟨fun hsays => hsays.imp fun s v value hset => (h.reads_iff hset value).mp,
      fun hsays => hsays.imp fun _ _ _ _ => .literal⟩
  refine ⟨fun l => load_eq_ok_iff, fun e => load_eq_error_iff, fun h => ⟨fun l => ?_, fun e => ?_⟩,
    fun l hload => ?_⟩
  · exact load_eq_ok_iff.trans (hwrites h l)
  · refine load_eq_error_iff.trans ⟨fun hrefuses => ?_, fun hrefuses => ?_⟩
    · exact hrefuses.congr fun s v hset => h.reads_iff hset
    · exact hrefuses.congr fun s v hset value => (h.reads_iff hset value).symm
  · have hsays := load_eq_ok_iff.mp hload
    refine ⟨⟨Says.writesSwitches, fun h => (hwrites h l).mp hsays⟩, ?_⟩
    rw [← hsays.eq_off_iff rfl, Layer.value?]
    exact (SettingValue.map_switch_injective.eq_iff (b := some false)).symm

/-- A text that is no literal of `false` turns `tls` off. -/
example : load (.environment (KeyMap.ofList [("FLAGD_TLS", "yes")])) =
    .ok { Layer.empty with tls := some false } := by
  rfl

end ConfigSource

end FeatureFlags
