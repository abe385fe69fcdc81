import IndexAccess.Document.Strings

/-!
# Values that are passed over

The value of an unknown key is not used, but its shape is checked.  The brackets that are open form
a stack, so the depth of a value is bounded by its length alone.
-/

namespace IndexAccess.Document.Reader

def skipExponent : Reader Unit := do
  eat
  match ← peek with
  | some Byte.plus => eat
  | some Byte.minus => eat
  | _ => pure ()
  match ← next with
  | none => flawHere .invalidNumber
  | some byte =>
    if isDigit byte then
      let _ ← skipDigits
      return ()
    else flawHere .invalidNumber

def skipFraction : Reader Unit := do
  eat
  if (← skipDigits) = 0 then flawAhead .invalidNumber
  else
    match ← peek with
    | some Byte.lowerE => skipExponent
    | some Byte.upperE => skipExponent
    | _ => return ()

/-- A number after its sign. -/
def skipNumber : Reader Unit := do
  match ← next with
  | none => flawHere .invalidNumber
  | some Byte.zero =>
    match ← peekDigit with
    | some _ => flawAhead .invalidNumber
    | none => pure ()
  | some byte =>
    if isDigit byte then
      let _ ← skipDigits
    else flawHere .invalidNumber
  match ← peek with
  | some Byte.point => skipFraction
  | some Byte.lowerE => skipExponent
  | some Byte.upperE => skipExponent
  | _ => return ()

inductive Bracket where
  | list
  | object
  deriving DecidableEq

namespace Bracket

def close : Bracket → UInt8
  | .list => Byte.closeList
  | .object => Byte.closeObject

def expectedEnd : Bracket → Cause
  | .list => .expectedListEnd
  | .object => .expectedObjectEnd

def endInside : Bracket → Cause
  | .list => .endInList
  | .object => .endInObject

end Bracket

/-- A scalar is taken whole; of a list or an object only the opening bracket is taken. -/
def skipScalar : Reader (Option Bracket) := do
  match ← peekSolid with
  | none => flawAhead .endInValue
  | some Byte.lowerN => do eat; ident [0x75, 0x6C, 0x6C]; return none
  | some Byte.lowerT => do eat; ident [0x72, 0x75, 0x65]; return none
  | some Byte.lowerF => do eat; ident [0x61, 0x6C, 0x73, 0x65]; return none
  | some Byte.minus => do eat; skipNumber; return none
  | some Byte.quote => do eat; skipStringBody; return none
  | some Byte.openList => do eat; return some .list
  | some Byte.openObject => do eat; return some .object
  | some byte =>
    if isDigit byte then
      skipNumber
      return none
    else flawAhead .expectedValue

/-- Takes closing brackets of the open ones, innermost first, and then a comma unless nothing
precedes it in its bracket.  Returns the brackets that are still open. -/
def closeBrackets (afterValue : Bool) : List Bracket → Reader (List Bracket)
  | [] => return []
  | bracket :: outer => do
    match ← peekSolid with
    | none => flawAhead bracket.endInside
    | some byte =>
      if afterValue ∧ byte = Byte.comma then
        eat
        return bracket :: outer
      else if byte = bracket.close then
        eat
        closeBrackets true outer
      else if afterValue then flawAhead bracket.expectedEnd
      else return bracket :: outer

/-- A key and the colon after it. -/
def skipKey : Reader Unit := do
  match ← peekSolid with
  | none => flawAhead .endInObject
  | some Byte.quote =>
    eat
    skipStringBody
    match ← peekSolid with
    | none => flawAhead .endInObject
    | some Byte.colon => eat
    | some _ => flawAhead .expectedColon
  | some _ => flawAhead .keyNotString

def skipNested : Nat → List Bracket → Reader Unit
  | 0, _ => flawAhead .endInValue
  | fuel + 1, enclosing => do
    let opened ← skipScalar
    match ← closeBrackets opened.isNone (opened.toList ++ enclosing) with
    | [] => return ()
    | bracket :: outer =>
      if bracket = .object then skipKey
      skipNested fuel (bracket :: outer)

def skipValue : Reader Unit := do
  skipNested ((← bytesLeft) + 1) []

end IndexAccess.Document.Reader
