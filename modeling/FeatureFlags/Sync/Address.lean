/-!
# Sync/Address — addresses of services

An address is a scheme, an authority and possibly a path and a query.  `Address.isWellFormed` checks
what comes after the scheme.  The authority is a host with at most one port; a host in square
brackets, and a user before an at sign, may hold further colons, and a percent sign may stand
nowhere else.
-/

namespace FeatureFlags.Address

/-! ## Characters -/

/-- Characters that an authority may hold, besides the percent sign. -/
def isAuthorityChar (c : Char) : Bool :=
  c.isAlphanum || "!$&'()*+,-.:;=@[]_~".toList.contains c

/-- Characters that end an authority. -/
def endsAuthority (c : Char) : Bool := c == '/' || c == '?' || c == '#'

/-- Characters that a query may hold.  All beyond ASCII are among them. -/
def isQueryChar (c : Char) : Bool :=
  '!' ≤ c && c != '"' && c != '#' && c != '<' && c != '>'

/-- Characters that a path may hold.  All beyond ASCII are among them. -/
def isPathChar (c : Char) : Bool :=
  c == '"' || isQueryChar c && c != '?' && c != '`'

/-! ## Authority -/

/-- **What was seen of an authority** so far, from its last at sign or bracket on. -/
structure AuthorityScan where
  colons : Nat
  opened : Bool
  closed : Bool
  hasPercent : Bool
  endsWithAt : Bool
  deriving DecidableEq, Inhabited, Repr

namespace AuthorityScan

def start : AuthorityScan := ⟨0, false, false, false, false⟩

/-- The most colons that can be in a host in brackets. -/
def greatestColons : Nat := 8

/-- One more character. -/
def step (s : AuthorityScan) (c : Char) : Option AuthorityScan :=
  let s := { s with endsWithAt := false }
  match c with
  | ':' => if greatestColons ≤ s.colons then none else some { s with colons := s.colons + 1 }
  | '[' => if s.hasPercent || s.opened then none else some { s with opened := true }
  | ']' =>
    if !s.opened || s.closed then none
    else some { s with closed := true, colons := 0, hasPercent := false }
  | '@' => some { s with colons := 0, hasPercent := false, endsWithAt := true }
  | '%' => some { s with hasPercent := true }
  | c => if isAuthorityChar c then some s else none

/-- The authority may end here. -/
def isComplete (s : AuthorityScan) : Bool :=
  s.opened == s.closed && s.colons ≤ 1 && !s.endsWithAt && !s.hasPercent

end AuthorityScan

/-- The authority at the front of a text, and the rest. -/
def span (cs : List Char) : List Char × List Char :=
  (cs.takeWhile fun c => !endsAuthority c, cs.dropWhile fun c => !endsAuthority c)

def isAuthority (cs : List Char) : Bool :=
  !cs.isEmpty && (cs.foldlM AuthorityScan.step AuthorityScan.start).any AuthorityScan.isComplete

/-! ## The whole -/

/-- A path and a query, up to a number sign. -/
def isPathAndQuery (cs : List Char) : Bool :=
  let cs := cs.takeWhile (· != '#')
  (cs.takeWhile (· != '?')).all isPathChar && ((cs.dropWhile (· != '?')).drop 1).all isQueryChar

/-- The most bytes of an address. -/
def greatestLength : Nat := 65534

/-- **The address is well formed**, given as its scheme and what comes after it. -/
def isWellFormed (scheme rest : String) : Bool :=
  let (authority, path) := span rest.toList
  (scheme ++ rest).utf8ByteSize ≤ greatestLength && isAuthority authority && isPathAndQuery path

end FeatureFlags.Address
