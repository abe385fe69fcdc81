import IndexAccess.Document.Reader

/-!
# Strings of a document

A string is read from the byte after its opening quote.  Reading decodes escapes, where the two
halves of a surrogate pair must stand together; skipping only looks for the closing quote.
-/

namespace IndexAccess.Document.Reader

/-- The bytes of a code point in UTF-8. -/
def utf8 (codePoint : Nat) : List UInt8 :=
  (String.singleton (Char.ofNat codePoint)).toUTF8.toList

def hexDigit? (byte : UInt8) : Option Nat :=
  let n := byte.toNat
  if 0x30 ≤ n ∧ n ≤ 0x39 then some (n - 0x30)
  else if 0x41 ≤ n ∧ n ≤ 0x46 then some (n - 0x37)
  else if 0x61 ≤ n ∧ n ≤ 0x66 then some (n - 0x57)
  else none

/-- Takes up to `n` bytes. -/
def eatMany : Nat → Reader Unit
  | 0 => return ()
  | n + 1 => do eat; eatMany n

/-- Four hexadecimal digits.  All four bytes are taken before they are looked at. -/
def codeUnit : Reader Nat := fun cursor ↦
  match cursor.rest with
  | a :: b :: c :: d :: _ =>
    let digits := [a, b, c, d].mapM hexDigit?
    (do
      eatMany 4
      match digits with
      | some ds => return ds.foldl (fun unit digit ↦ 16 * unit + digit) 0
      | none => flawHere .invalidEscape : Reader Nat) cursor
  | few => (do eatMany few.length; flawHere .endInString : Reader Nat) cursor

def isLeading (unit : Nat) : Bool := decide (0xD800 ≤ unit ∧ unit ≤ 0xDBFF)

def isTrailing (unit : Nat) : Bool := decide (0xDC00 ≤ unit ∧ unit ≤ 0xDFFF)

/-- Takes a byte that a surrogate pair needs next. -/
def expectInPair (expected : UInt8) : Reader Unit := do
  match ← peek with
  | none => flawHere .endInString
  | some byte =>
    eat
    if byte = expected then return () else flawHere .endInEscape

/-- The code point of an escape, from its first digit on. -/
def codePoint : Reader Nat := do
  let first ← codeUnit
  if isTrailing first then flawHere .loneSurrogate
  else if isLeading first then
    expectInPair Byte.backslash
    expectInPair Byte.lowerU
    let second ← codeUnit
    if isTrailing second then
      return 0x10000 + (first - 0xD800) * 0x400 + (second - 0xDC00)
    else flawHere .loneSurrogate
  else return first

/-- The bytes that an escape stands for, from the byte after the backslash on. -/
def escape : Reader (List UInt8) := do
  match ← next with
  | none => flawHere .endInString
  | some Byte.quote => return [Byte.quote]
  | some Byte.backslash => return [Byte.backslash]
  | some Byte.slash => return [Byte.slash]
  | some Byte.lowerB => return [0x08]
  | some Byte.lowerF => return [0x0C]
  | some Byte.lowerN => return [0x0A]
  | some Byte.lowerR => return [0x0D]
  | some Byte.lowerT => return [0x09]
  | some Byte.lowerU => return utf8 (← codePoint)
  | some _ => flawHere .invalidEscape

def stringBytes : Nat → Reader (List UInt8)
  | 0 => flawHere .endInString
  | fuel + 1 => do
    match ← next with
    | none => flawHere .endInString
    | some Byte.quote => return []
    | some Byte.backslash =>
      let bytes ← escape
      return bytes ++ (← stringBytes fuel)
    | some byte =>
      if byte < 0x20 then flawHere .controlCharacter
      else return byte :: (← stringBytes fuel)

/-- The text up to the closing quote. -/
def stringBody : Reader String := do
  let bytes ← stringBytes ((← bytesLeft) + 1)
  return (String.fromUTF8? ⟨bytes.toArray⟩).getD ""

/-- Surrogates are not looked at in a string that is skipped. -/
def skipEscape : Reader Unit := do
  match ← next with
  | none => flawHere .endInString
  | some Byte.quote => return ()
  | some Byte.backslash => return ()
  | some Byte.slash => return ()
  | some Byte.lowerB => return ()
  | some Byte.lowerF => return ()
  | some Byte.lowerN => return ()
  | some Byte.lowerR => return ()
  | some Byte.lowerT => return ()
  | some Byte.lowerU =>
    let _ ← codeUnit
    return ()
  | some _ => flawHere .invalidEscape

/-- A control character in a skipped string is noticed before it is taken. -/
def skipStringBody : Reader Unit := do
  loop ((← bytesLeft) + 1)
where
  loop : Nat → Reader Unit
    | 0 => flawHere .endInString
    | fuel + 1 => do
      match ← peek with
      | none => flawHere .endInString
      | some Byte.quote => eat
      | some Byte.backslash => do eat; skipEscape; loop fuel
      | some byte =>
        if byte < 0x20 then flawHere .controlCharacter
        else do eat; loop fuel

end IndexAccess.Document.Reader
