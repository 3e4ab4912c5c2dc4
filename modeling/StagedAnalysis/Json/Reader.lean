import StagedAnalysis.Json.Basic
import StagedAnalysis.Number.Numeral
/-!
Reading a JSON value from its text. Escapes of 16-bit units are joined into characters; a unit
that is half of a pair without its other half, and a bare character below the space in a string,
are refused. A zero with a sign is no whole number, since the whole numbers have one zero.

A document has all members that its text has (`document?`). Records are read from that; where only
a value is wanted, the last of several members with one key counts (`parse?`).
-/
namespace StagedAnalysis.Json

def isSpace (character : Char) : Bool :=
  character == ' ' || character == '\t' || character == '\n' || character == '\r'

def skipSpace (text : List Char) : List Char :=
  text.dropWhile isSpace

def hexValue? (digit : Char) : Option Nat :=
  if digit.isDigit then some (digit.toNat - '0'.toNat)
  else if 'a' ≤ digit ∧ digit ≤ 'f' then some (digit.toNat - 'a'.toNat + 10)
  else if 'A' ≤ digit ∧ digit ≤ 'F' then some (digit.toNat - 'A'.toNat + 10)
  else none

def unescape? : Char → Option Char
  | '"' => some '"'
  | '\\' => some '\\'
  | '/' => some '/'
  | 'b' => some '\x08'
  | 'f' => some '\x0c'
  | 'n' => some '\n'
  | 'r' => some '\r'
  | 't' => some '\t'
  | _ => none

/-- Reads the code units of a string behind its opening quote; `units` holds those read so far, the
last one first. -/
def readUnits (units : List Nat) : List Char → Option (List Nat × List Char)
  | [] => none
  | '"' :: rest => some (units.reverse, rest)
  | '\\' :: 'u' :: a :: b :: c :: d :: rest =>
    match hexValue? a, hexValue? b, hexValue? c, hexValue? d with
    | some a, some b, some c, some d =>
      readUnits ((((a * 16 + b) * 16 + c) * 16 + d) :: units) rest
    | _, _, _, _ => none
  | '\\' :: mark :: rest =>
    match unescape? mark with
    | some character => readUnits (character.toNat :: units) rest
    | none => none
  | character :: rest =>
    if character.toNat < 0x20 then none else readUnits (character.toNat :: units) rest

/-- The characters that a row of code units stands for. A high half takes the low half behind it. -/
def joinUnits? (characters : List Char) : List Nat → Option (List Char)
  | [] => some characters.reverse
  | high :: low :: units =>
    if 0xD800 ≤ high ∧ high < 0xDC00 then
      if 0xDC00 ≤ low ∧ low < 0xE000 then
        joinUnits? (Char.ofNat (0x10000 + (high - 0xD800) * 0x400 + (low - 0xDC00)) :: characters)
          units
      else none
    else if high.isValidChar then joinUnits? (Char.ofNat high :: characters) (low :: units)
    else none
  | [unit] => if unit.isValidChar then some (Char.ofNat unit :: characters).reverse else none

def readString (text : List Char) : Option (String × List Char) := do
  let (units, rest) ← readUnits [] text
  let characters ← joinUnits? [] units
  some (String.ofList characters, rest)

def splitMinus : List Char → List Char × List Char
  | '-' :: rest => (['-'], rest)
  | text => ([], text)

def readNumber (text : List Char) : Option (Json × List Char) :=
  let (minus, unsigned) := splitMinus text
  let (numeral, rest) := Numeral.split unsigned
  let value := Decimal.value numeral.whole
  let padded := numeral.whole.head? == some '0' && 1 < numeral.whole.length
  if numeral.whole.isEmpty || padded then none
  else if numeral.isWhole && minus.isEmpty then some (.int value, rest)
  else if numeral.isWhole && value != 0 then some (.int (-value), rest)
  else some (.real (String.ofList (minus ++ numeral.text)), rest)

mutual

def readValue : Nat → List Char → Option (Json × List Char)
  | 0, _ => none
  | fuel + 1, text =>
    match skipSpace text with
    | 'n' :: 'u' :: 'l' :: 'l' :: rest => some (.null, rest)
    | 't' :: 'r' :: 'u' :: 'e' :: rest => some (.bool true, rest)
    | 'f' :: 'a' :: 'l' :: 's' :: 'e' :: rest => some (.bool false, rest)
    | '"' :: rest => (readString rest).map fun (value, behind) => (.string value, behind)
    | '[' :: rest =>
      match skipSpace rest with
      | ']' :: behind => some (.array [], behind)
      | items => (readItems fuel items).map fun (items, behind) => (.array items, behind)
    | '\x7b' :: rest =>
      match skipSpace rest with
      | '\x7d' :: behind => some (.object [], behind)
      | members => (readMembers fuel members).map fun (members, behind) => (.object members, behind)
    | other => readNumber other

def readItems : Nat → List Char → Option (List Json × List Char)
  | 0, _ => none
  | fuel + 1, text => do
    let (item, rest) ← readValue fuel text
    match skipSpace rest with
    | ',' :: behind =>
      let (items, last) ← readItems fuel behind
      some (item :: items, last)
    | ']' :: behind => some ([item], behind)
    | _ => none

def readMembers : Nat → List Char → Option (List (String × Json) × List Char)
  | 0, _ => none
  | fuel + 1, text =>
    match skipSpace text with
    | '"' :: rest => do
      let (key, behindKey) ← readString rest
      match skipSpace behindKey with
      | ':' :: behindColon =>
        let (value, behindValue) ← readValue fuel behindColon
        match skipSpace behindValue with
        | ',' :: behind =>
          let (members, last) ← readMembers fuel behind
          some ((key, value) :: members, last)
        | '\x7d' :: behind => some ([(key, value)], behind)
        | _ => none
      | _ => none
    | _ => none

end

/-- What a text says, if it is one value and nothing else. Each call but one in two takes a
character, so twice the length of the text is fuel enough. -/
def document? (text : String) : Option Json :=
  match readValue (2 * text.length + 2) text.toList with
  | some (json, rest) => if (skipSpace rest).isEmpty then some json else none
  | none => none

mutual

/-- Of several members with one key only the last one is left. -/
def pruned : Json → Json
  | array items => array (prunedItems items)
  | object members => object (prunedMembers members)
  | json => json

def prunedItems : List Json → List Json
  | [] => []
  | item :: items => item.pruned :: prunedItems items

def prunedMembers : List (String × Json) → List (String × Json)
  | [] => []
  | (key, value) :: members =>
    if members.any (·.1 == key) then prunedMembers members
    else (key, value.pruned) :: prunedMembers members

end

def parse? (text : String) : Option Json :=
  (document? text).map pruned

end StagedAnalysis.Json
