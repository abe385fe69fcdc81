/-!
# Collations

A collation is known by its name, and ASCII case does not distinguish two names.  Whether an index
built under one collation certifies equality under another is left to a compatibility test; it is
given two collations in order and need be neither reflexive nor symmetric.  The usual test puts
some well-known names into families and holds any other name compatible with itself alone.
-/

namespace IndexAccess

/-- A collation name with its ASCII letters in lower case. -/
structure Collation where
  name : String
  deriving DecidableEq, Inhabited

namespace Collation

def ofName (name : String) : Collation :=
  ⟨name.map Char.toLower⟩

def binary : Collation := ⟨"binary"⟩

/-- Names compare by code point, which is the order of their UTF-8 bytes. -/
def order (left right : Collation) : Ordering :=
  compare left.name right.name

end Collation

/-- Decides whether equality under the first collation is certified by an index under the second. -/
abbrev Compatibility := Collation → Collation → Bool

namespace Compatibility

def generalNames : List String :=
  ["utf8_general_ci", "utf8mb4_general_ci"]

def binaryNames : List String :=
  ["utf8_bin", "utf8mb4_bin", "latin1_bin", "ascii_bin", "binary"]

def unicodeNames : List String :=
  ["utf8_unicode_ci", "utf8mb4_unicode_ci"]

/-- Names of one family compare alike for equality. -/
def families : List (List String) :=
  [generalNames, binaryNames, unicodeNames]

def byFamily : Compatibility := fun left right ↦
  left == right ||
    families.any fun family ↦ family.contains left.name && family.contains right.name

def exact : Compatibility := fun left right ↦ left == right

/-- Holds for the listed pairs of names, in that order and letter case, and for nothing else. -/
def ofPairs (pairs : List (String × String)) : Compatibility := fun left right ↦
  pairs.contains (left.name, right.name)

end Compatibility

/-- Which of the built-in compatibility tests is in force. -/
inductive CollationRule where
  | families
  | exact
  deriving DecidableEq

namespace CollationRule

def all : List CollationRule := [.families, .exact]

def label : CollationRule → String
  | .families => "families"
  | .exact => "exact"

def compatibility : CollationRule → Compatibility
  | .families => .byFamily
  | .exact => .exact

end CollationRule

end IndexAccess
