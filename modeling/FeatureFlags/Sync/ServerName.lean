import FeatureFlags.Text.Numeral

/-!
# Sync/ServerName — names that a certificate can be made out to

A server name is a domain name or an address of four numbers.  A domain name is a row of labels of
at most 63 letters, digits, underscores and inner hyphens, of which the last is not a number.
-/

namespace FeatureFlags.ServerName

def isLabelChar (c : Char) : Bool := c.isAlphanum || c == '_' || c == '-'

/-- **A label of a domain name.** -/
def isLabel (label : List Char) : Bool :=
  !label.isEmpty && label.length ≤ 63 && label.all isLabelChar &&
    label.head? != some '-' && label.getLast? != some '-'

/-- The labels of a name, of which a last empty one does not count. -/
def labels (name : List Char) : List (List Char) :=
  let parts := name.splitOn '.'
  if 1 < parts.length && parts.getLast? == some [] then parts.dropLast else parts

/-- A domain name; an address would end in a number. -/
def isDomainName (name : List Char) : Bool :=
  name.length ≤ 253 && (labels name).all isLabel &&
    !(labels name).getLast?.any (·.all Char.isDigit)

/-- A number of an address: at most 255 and without zeros before it. -/
def isByte (digits : List Char) : Bool :=
  (digits.length == 1 || digits.head? != some '0') &&
    (Numeral.digits? digits).any (· ≤ 255)

def isAddress (name : List Char) : Bool :=
  let parts := name.splitOn '.'
  parts.length == 4 && parts.all isByte

/-- **A certificate can be made out to the name.** -/
def isValid (name : String) : Bool := isDomainName name.toList || isAddress name.toList

end FeatureFlags.ServerName
