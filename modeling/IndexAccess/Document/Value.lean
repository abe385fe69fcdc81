import IndexAccess.Document.Number
import IndexAccess.Document.Skip

/-!
# Typed values of a document

Readers for a truth value, an unsigned 64-bit number, one of several names, and a record.  A record
is an object, or a list of the values of its fields in order.  A name may also be written as an
object with that one key and the value null.  Where a value of another type stands, the message
says what was found; a scalar is read to its end for this, a list or an object is not entered.
-/

namespace IndexAccess.Document

namespace Reader

variable {α : Type}

/-- A flaw that tells what stands at the next byte instead of what is expected. -/
def flawFound (expected : String) : Reader α := placed do
  match ← peek with
  | some Byte.lowerN => do
    eat
    ident [0x75, 0x6C, 0x6C]
    flawUnplaced (.invalidType "null" expected)
  | some Byte.lowerT => do
    eat
    ident [0x72, 0x75, 0x65]
    flawUnplaced (.invalidType ("boolean " ++ ticked "true") expected)
  | some Byte.lowerF => do
    eat
    ident [0x61, 0x6C, 0x73, 0x65]
    flawUnplaced (.invalidType ("boolean " ++ ticked "false") expected)
  | some Byte.quote => do
    eat
    let text ← stringBody
    flawUnplaced (.invalidType ("string " ++ Text.quoted text) expected)
  | some Byte.openList => flawUnplaced (.invalidType "sequence" expected)
  | some Byte.openObject => flawUnplaced (.invalidType "map" expected)
  | some byte =>
    if isDigit byte || byte == Byte.minus then do
      let n ← signedNumber
      flawUnplaced (.invalidType n.describe expected)
    else flawAhead .expectedValue
  | none => flawAhead .expectedValue

def truth : Reader Bool := do
  match ← peekSolid with
  | none => flawAhead .endInValue
  | some Byte.lowerT => do
    eat
    ident [0x72, 0x75, 0x65]
    return true
  | some Byte.lowerF => do
    eat
    ident [0x61, 0x6C, 0x73, 0x65]
    return false
  | some _ => flawFound "a boolean"

def word : Reader Nat := do
  match ← peekSolid with
  | none => flawAhead .endInValue
  | some byte =>
    if isDigit byte || byte == Byte.minus then
      match ← signedNumber with
      | .integer n =>
        if n < 0 then flawHere (.invalidValue (Number.integer n).describe "u64")
        else return n.toNat
      | .real x => flawHere (.invalidType (Number.real x).describe "u64")
    else flawFound "u64"

def null : Reader Unit := do
  match ← peekSolid with
  | none => flawAhead .endInValue
  | some Byte.lowerN => do
    eat
    ident [0x75, 0x6C, 0x6C]
  | some _ => flawFound "unit"

/-- The colon after a key. -/
def colon : Reader Unit := do
  match ← peekSolid with
  | none => flawAhead .endInObject
  | some Byte.colon => eat
  | some _ => flawAhead .expectedColon

/-! ## One of several names -/

/-- A name whose opening quote is next, looked up among the names of `cases`. -/
def caseName (label : α → String) (cases : List α) : Reader α := do
  eat
  let name ← stringBody
  match cases.find? fun c ↦ label c == name with
  | some c => return c
  | none => flawHere (.unknownVariant name (cases.map label))

/-- A name alone, or as the one key of an object whose value is null. -/
def oneOf (label : α → String) (cases : List α) : Reader α := do
  match ← peekSolid with
  | none => flawAhead .endInValue
  | some Byte.quote => caseName label cases
  | some Byte.openObject => do
    eat
    match ← peekSolid with
    | none => flawAhead .endInObject
    | some Byte.closeObject => flawAhead .expectedValue
    | some Byte.quote => do
      let c ← caseName label cases
      colon
      null
      match ← peekSolid with
      | none => flawHere .endInObject
      | some Byte.closeObject => do
        eat
        return c
      | some _ => flawHere .expectedValue
    | some _ => flawAhead .keyNotString
  | some _ => flawAhead .expectedValue

/-! ## Lists and objects -/

/-- Whether another element of a list follows; if so, its comma is taken. -/
def hasElement (isFirst : Bool) : Reader Bool := do
  match ← peekSolid with
  | none => flawAhead .endInList
  | some Byte.closeList => return false
  | some byte =>
    if isFirst then return true
    else if byte = Byte.comma then
      eat
      match ← peekSolid with
      | none => flawAhead .endInValue
      | some Byte.closeList => flawAhead .trailingComma
      | some _ => return true
    else flawAhead .expectedListEnd

def closeList : Reader Unit := do
  match ← peekSolid with
  | none => flawAhead .endInList
  | some Byte.closeList => eat
  | some Byte.comma => do
    eat
    match ← peekSolid with
    | some Byte.closeList => flawAhead .trailingComma
    | _ => flawAhead .trailingCharacters
  | some _ => flawAhead .trailingCharacters

/-- The next key of an object, if there is one. -/
def key (isFirst : Bool) : Reader (Option String) := do
  match ← peekSolid with
  | none => flawAhead .endInObject
  | some Byte.closeObject => return none
  | some byte =>
    if isFirst then
      if byte = Byte.quote then keyBody else flawAhead .keyNotString
    else if byte = Byte.comma then
      eat
      match ← peekSolid with
      | none => flawAhead .endInValue
      | some Byte.quote => keyBody
      | some Byte.closeObject => flawAhead .trailingComma
      | some _ => flawAhead .keyNotString
    else flawAhead .expectedObjectEnd
where
  keyBody : Reader (Option String) := do
    eat
    return some (← stringBody)

def closeObject : Reader Unit := do
  match ← peekSolid with
  | none => flawAhead .endInObject
  | some Byte.closeObject => eat
  | some Byte.comma => flawAhead .trailingComma
  | some _ => flawAhead .trailingCharacters

/-! ## Records -/

/-- A field: its key, and how its value changes the record read so far. -/
structure Field (α : Type) where
  name : String
  read : α → Reader α

/-- The form of a record.  Either every field is required and other keys are passed over, or no
field is required and other keys are flaws. -/
structure Form (α : Type) where
  title : String
  fields : List (Field α)
  isOpen : Bool

namespace Form

def names (form : Form α) : List String := form.fields.map Field.name

def arity (form : Form α) : String :=
  form.title ++ " with " ++ toString form.fields.length ++ " elements"

def fromList (form : Form α) : Nat → List (Field α) → α → Reader α
  | _, [], record => return record
  | position, field :: fields, record => do
    if ← hasElement (position = 0) then
      form.fromList (position + 1) fields (← field.read record)
    else if form.isOpen then flawUnplaced (.invalidLength position form.arity)
    else return record

/-- The first required field that was not among the keys. -/
def missing? (form : Form α) (seen : List String) : Option String :=
  if form.isOpen then form.names.find? fun name ↦ !seen.contains name else none

def fromObject (form : Form α) : Nat → List String → α → Reader α
  | 0, _, _ => flawAhead .endInObject
  | fuel + 1, seen, record => do
    match ← key seen.isEmpty with
    | none =>
      match form.missing? seen with
      | some name => flawUnplaced (.missingField name)
      | none => return record
    | some name =>
      match form.fields.find? fun field ↦ field.name == name with
      | none =>
        if form.isOpen then
          colon
          skipValue
          form.fromObject fuel (name :: seen) record
        else flawUnplaced (.unknownField name form.names)
      | some field =>
        if seen.contains name then flawUnplaced (.duplicateField name)
        else
          colon
          form.fromObject fuel (name :: seen) (← field.read record)

def read (form : Form α) (start : α) : Reader α := placed do
  match ← peekSolid with
  | none => flawAhead .endInValue
  | some Byte.openList => do
    eat
    closedBy (form.fromList 0 form.fields start) closeList
  | some Byte.openObject => do
    eat
    closedBy (form.fromObject ((← bytesLeft) + 1) [] start) closeObject
  | some _ => flawFound form.title

end Form

/-! ## Documents -/

/-- A value with nothing but blanks after it. -/
def document (value : Reader α) : Reader α := do
  let read ← value
  match ← peekSolid with
  | none => return read
  | some _ => flawAhead .trailingCharacters

end Reader

/-- Reads a whole text. -/
def read {α : Type} (value : Reader α) (text : String) : Except Flaw α :=
  (Reader.document value (.ofText text)).1

end IndexAccess.Document
