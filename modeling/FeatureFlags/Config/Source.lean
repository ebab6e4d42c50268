import FeatureFlags.Config.Settings

/-!
# Config/Source — where settings come from

Settings come from the environment, from a TOML file and from the defaults, in this order of
precedence; a program may add sources of its own.  `ConfigSource.load` reads one source,
`Settings.ofSources` puts all of them together.

In the environment an empty variable counts as absent, numbers must be written as such, and of a
switch every text but `true` and `1` means off.
-/

namespace FeatureFlags

/-- **Why settings cannot be had.** -/
inductive ConfigError
  /-- A variable whose value is no number of the kind it should be. -/
  | badVariable (name kind value : String)
  | badToml
  | unusable (fault : SettingsFault)
  deriving DecidableEq, Inhabited, Repr

namespace ConfigError

def message : ConfigError → String
  | badVariable name kind value =>
    "invalid value for " ++ name ++ ": invalid " ++ kind ++ " value '" ++ value ++ "'"
  | badToml => "failed to parse config file"
  | unusable fault => fault.message

end ConfigError

/-- Variables by name. -/
abbrev Environment := KeyMap String

namespace Environment

/-- A variable that is set to something. -/
def value? (env : Environment) (s : Setting) : Option String :=
  (env.get? s.variableName).filter fun v => !v.isEmpty

/-- The switch is on. -/
def isOn (v : String) : Bool := v.toList.map Char.toLower == ['t', 'r', 'u', 'e'] || v == "1"

/-- The name of a number of a given greatest value. -/
def kindName (greatest : Nat) : String := if greatest = Layer.greatestPort then "u16" else "u64"

def number (env : Environment) (greatest : Nat) (s : Setting) : Except ConfigError (Option Nat) :=
  match env.value? s with
  | none => .ok none
  | some v =>
    match Numeral.unsigned? greatest v.toList with
    | some n => .ok (some n)
    | none => .error (.badVariable s.variableName (kindName greatest) v)

def reader (env : Environment) : SettingReader ConfigError where
  text s := .ok (env.value? s)
  flag s := .ok ((env.value? s).map isOn)
  number := env.number

end Environment

/-- **A source of settings.** -/
inductive ConfigSource
  | defaults
  /-- A TOML file: its text, or nothing when there is no such file. -/
  | file (text : Option String)
  | environment (env : Environment)
  /-- A source of a program's own, and what loading it comes to. -/
  | custom (name : String) (precedence : Nat) (outcome : Except ConfigError Layer)
  deriving Inhabited

namespace ConfigSource

def name : ConfigSource → String
  | defaults => "defaults"
  | file _ => "toml-config"
  | environment _ => "environment"
  | custom name _ _ => name

/-- The source of the greater precedence overrides. -/
def precedence : ConfigSource → Nat
  | defaults => 10
  | file _ => 20
  | environment _ => 50
  | custom _ precedence _ => precedence

/-- **The layer of a source.**  A file that is not there says nothing. -/
def load : ConfigSource → Except ConfigError Layer
  | defaults => .ok ∅
  | file none => .ok ∅
  | file (some text) =>
    match Layer.ofToml? text with
    | some layer => .ok layer
    | none => .error .badToml
  | environment env => Layer.read env.reader
  | custom _ _ outcome => outcome

end ConfigSource

namespace Settings

/-- Sources in the order of their precedence; of equal ones the order stays. -/
def inOrder (sources : List ConfigSource) : List ConfigSource :=
  sources.mergeSort fun a b => decide (a.precedence ≤ b.precedence)

/-- All layers, each over the ones before it. -/
def merge (sources : List ConfigSource) : Except ConfigError Layer :=
  sources.foldlM (fun layer source => source.load.map layer.overlay) ∅

/-- **The settings of a list of sources.**  The first source that cannot be read decides. -/
def ofSources (sources : List ConfigSource) : Except ConfigError Settings := do
  let settings := (← merge (inOrder sources)).settle
  match settings.fault? with
  | some fault => throw (.unusable fault)
  | none => pure settings

/-- The sources of a program: the defaults, the environment, and a file when one is named. -/
def systemSources (env : Environment) (file : Option (Option String)) : List ConfigSource :=
  [.defaults, .environment env] ++ (file.map ConfigSource.file).toList

end Settings

end FeatureFlags
