import IndexAccess.Document.Flaw

/-!
# Reading a document byte by byte

A cursor holds the bytes that are left and the place before them.  A reader takes bytes off the
cursor and ends with a value or a flaw; the cursor it reached is kept in either case, because the
end of a record is looked for from there.  A flaw is noticed either at the bytes already taken or
at the byte that comes next.
-/

namespace IndexAccess.Document

structure Cursor where
  rest : List UInt8
  place : Place

namespace Cursor

def ofText (text : String) : Cursor := ⟨text.toUTF8.toList, ⟨1, 0⟩⟩

/-- Takes one byte, if one is left; a line feed begins a line. -/
def advance (cursor : Cursor) : Cursor :=
  match cursor.rest with
  | [] => cursor
  | byte :: rest =>
    if byte = 0x0A then ⟨rest, ⟨cursor.place.line + 1, 0⟩⟩
    else ⟨rest, ⟨cursor.place.line, cursor.place.column + 1⟩⟩

end Cursor

def Reader (α : Type) := Cursor → Except Flaw α × Cursor

namespace Reader

variable {α β : Type}

instance : Monad Reader where
  pure value := fun cursor ↦ (.ok value, cursor)
  bind reader next := fun cursor ↦
    match reader cursor with
    | (.ok value, cursor) => next value cursor
    | (.error flaw, cursor) => (.error flaw, cursor)

/-- A flaw at the bytes taken. -/
def flawHere (cause : Cause) : Reader α := fun cursor ↦
  (.error ⟨cause, some cursor.place⟩, cursor)

/-- A flaw at the next byte, or at the end of the text. -/
def flawAhead (cause : Cause) : Reader α := fun cursor ↦
  (.error ⟨cause, some cursor.advance.place⟩, cursor)

/-- A flaw whose place is still open. -/
def flawUnplaced (cause : Cause) : Reader α := fun cursor ↦
  (.error ⟨cause, none⟩, cursor)

/-- Puts an open flaw at the bytes taken by then. -/
def placed (reader : Reader α) : Reader α := fun cursor ↦
  match reader cursor with
  | (.error ⟨cause, none⟩, cursor) => (.error ⟨cause, some cursor.place⟩, cursor)
  | read => read

/-- Reads `body` and then its end.  The end is looked for even after a flaw in the body, which is
the one reported. -/
def closedBy (body : Reader α) (close : Reader Unit) : Reader α := fun cursor ↦
  match body cursor with
  | (.ok value, cursor) =>
    match close cursor with
    | (.ok _, cursor) => (.ok value, cursor)
    | (.error flaw, cursor) => (.error flaw, cursor)
  | (.error flaw, cursor) => (.error flaw, (close cursor).2)

def peek : Reader (Option UInt8) := fun cursor ↦ (.ok cursor.rest.head?, cursor)

def eat : Reader Unit := fun cursor ↦ (.ok (), cursor.advance)

def next : Reader (Option UInt8) := do
  let byte ← peek
  eat
  return byte

/-- As many bytes as are left bound every loop of a reader. -/
def bytesLeft : Reader Nat := fun cursor ↦ (.ok cursor.rest.length, cursor)

def isBlank (byte : UInt8) : Bool :=
  byte == 0x20 || byte == 0x0A || byte == 0x09 || byte == 0x0D

def skipBlanksIn : List UInt8 → Cursor → Cursor
  | [], cursor => cursor
  | byte :: rest, cursor => if isBlank byte then skipBlanksIn rest cursor.advance else cursor

/-- The next byte that is no blank. -/
def peekSolid : Reader (Option UInt8) := fun cursor ↦
  let cursor := skipBlanksIn cursor.rest cursor
  (.ok cursor.rest.head?, cursor)

def isDigit (byte : UInt8) : Bool := decide (0x30 ≤ byte ∧ byte ≤ 0x39)

def peekDigit : Reader (Option Nat) := do
  match ← peek with
  | none => return none
  | some byte => return if isDigit byte then some (byte.toNat - 0x30) else none

/-- Takes the digits that come next and tells their number. -/
def skipDigits : Reader Nat := do
  loop (← bytesLeft)
where
  loop : Nat → Reader Nat
    | 0 => return 0
    | fuel + 1 => do
      match ← peekDigit with
      | none => return 0
      | some _ =>
        eat
        return (← loop fuel) + 1

/-- The rest of a literal name, byte for byte. -/
def ident : List UInt8 → Reader Unit
  | [] => return ()
  | expected :: rest => do
    match ← next with
    | none => flawHere .endInValue
    | some byte => if byte = expected then ident rest else flawHere .expectedIdent

end Reader

/-! ## Bytes with a meaning -/

namespace Byte

@[match_pattern] def quote : UInt8 := 0x22
@[match_pattern] def plus : UInt8 := 0x2B
@[match_pattern] def comma : UInt8 := 0x2C
@[match_pattern] def minus : UInt8 := 0x2D
@[match_pattern] def point : UInt8 := 0x2E
@[match_pattern] def slash : UInt8 := 0x2F
@[match_pattern] def zero : UInt8 := 0x30
@[match_pattern] def colon : UInt8 := 0x3A
@[match_pattern] def openList : UInt8 := 0x5B
@[match_pattern] def backslash : UInt8 := 0x5C
@[match_pattern] def closeList : UInt8 := 0x5D
@[match_pattern] def openObject : UInt8 := 0x7B
@[match_pattern] def closeObject : UInt8 := 0x7D
@[match_pattern] def upperE : UInt8 := 0x45
@[match_pattern] def lowerB : UInt8 := 0x62
@[match_pattern] def lowerE : UInt8 := 0x65
@[match_pattern] def lowerF : UInt8 := 0x66
@[match_pattern] def lowerN : UInt8 := 0x6E
@[match_pattern] def lowerR : UInt8 := 0x72
@[match_pattern] def lowerT : UInt8 := 0x74
@[match_pattern] def lowerU : UInt8 := 0x75

end Byte

end IndexAccess.Document
