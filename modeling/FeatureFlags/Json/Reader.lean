import FeatureFlags.Json.Token

/-!
# Json/Reader — reading a value from its tokens

`Json.read?` reads a text that holds exactly one value.  Tokens drive a machine whose stack holds
the containers that are still open, each with what has been read of it; the stack is never deeper
than `Builder.deepest`.  Of two members with one key the later stands.
-/

namespace FeatureFlags

namespace Builder

/-- An open container that waits for a value. -/
inductive Frame
  /-- An array; its items so far, in reverse. -/
  | items (rev : List Json)
  /-- An object; its members so far, and the key whose value comes. -/
  | member (done : List (String × Json)) (key : String)
  deriving Inhabited, Repr

/-- **What may come next.** -/
inductive Expect
  | value
  /-- An array was just opened. -/
  | firstItem
  | itemEnd (rev : List Json)
  /-- An object was just opened. -/
  | firstKey
  | key (done : List (String × Json))
  | colon (done : List (String × Json)) (key : String)
  | memberEnd (done : List (String × Json))
  | finished (v : Json)
  deriving Inhabited, Repr

/-- The open containers, innermost first, and what may come next. -/
structure State where
  frames : List Frame
  expect : Expect
  deriving Inhabited, Repr

/-- How many containers may be open at once. -/
def deepest : Nat := 127

/-- A value is complete: it goes into the innermost open container. -/
def complete (v : Json) : List Frame → State
  | [] => ⟨[], .finished v⟩
  | .items rev :: frames => ⟨frames, .itemEnd (v :: rev)⟩
  | .member done key :: frames => ⟨frames, .memberEnd (insertEntry key v done)⟩

/-- A token where a value is due. -/
def begin (frames : List Frame) : Token → Option State
  | .null => some (complete .null frames)
  | .bool b => some (complete (.bool b) frames)
  | .num n => some (complete (.num n) frames)
  | .str s => some (complete (.str s) frames)
  | .openBracket => if frames.length < deepest then some ⟨.items [] :: frames, .firstItem⟩ else none
  | .openBrace => if frames.length < deepest then some ⟨frames, .firstKey⟩ else none
  | _ => none

/-- **One token.** -/
def step (state : State) (token : Token) : Option State :=
  match state.expect, token with
  | .value, t => begin state.frames t
  | .firstItem, .closeBracket => some (complete (.arr []) state.frames.tail)
  | .firstItem, t => begin state.frames t
  | .itemEnd rev, .comma => some ⟨.items rev :: state.frames, .value⟩
  | .itemEnd rev, .closeBracket => some (complete (.arr rev.reverse) state.frames)
  | .firstKey, .closeBrace => some (complete (.obj []) state.frames)
  | .firstKey, .str key => some ⟨state.frames, .colon [] key⟩
  | .key done, .str key => some ⟨state.frames, .colon done key⟩
  | .colon done key, .colon => some ⟨.member done key :: state.frames, .value⟩
  | .memberEnd done, .comma => some ⟨state.frames, .key done⟩
  | .memberEnd done, .closeBrace => some (complete (.obj done) state.frames)
  | _, _ => none

/-- Before the first token. -/
def start : State := ⟨[], .value⟩

/-- The value, once it is whole. -/
def State.result? : State → Option Json
  | ⟨[], .finished v⟩ => some v
  | _ => none

end Builder

namespace Json

/-- **The value that a row of tokens writes.** -/
def ofTokens? (tokens : List Token) : Option Json :=
  (tokens.foldlM Builder.step Builder.start).bind Builder.State.result?

/-- **Reads a text.** -/
def read? (text : String) : Option Json := (Token.ofText? text.toList).bind ofTokens?

end Json

end FeatureFlags
