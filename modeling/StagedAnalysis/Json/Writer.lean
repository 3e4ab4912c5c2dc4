import StagedAnalysis.Json.Basic
/-!
The text of a JSON value, on one line without spaces or with one item to a line and two spaces for
each level. Quotes, backslashes and the characters below the space are escaped; nothing else is.
-/
namespace StagedAnalysis.Json

def hexDigit (value : Nat) : Char :=
  Nat.digitChar value

def escapeCharacter (character : Char) : List Char :=
  if character = '"' then ['\\', '"']
  else if character = '\\' then ['\\', '\\']
  else if character = '\x08' then ['\\', 'b']
  else if character = '\x0c' then ['\\', 'f']
  else if character = '\n' then ['\\', 'n']
  else if character = '\r' then ['\\', 'r']
  else if character = '\t' then ['\\', 't']
  else if character.toNat < 0x20 then
    ['\\', 'u', '0', '0', hexDigit (character.toNat / 16), hexDigit (character.toNat % 16)]
  else [character]

def quote (text : String) : List Char :=
  '"' :: text.toList.flatMap escapeCharacter ++ ['"']

def writeInt : Int → List Char
  | .ofNat value => Nat.toDigits 10 value
  | .negSucc value => '-' :: Nat.toDigits 10 (value + 1)

mutual

def write (layout : Layout) : Json → List Char
  | null => ['n', 'u', 'l', 'l']
  | bool true => ['t', 'r', 'u', 'e']
  | bool false => ['f', 'a', 'l', 's', 'e']
  | int value => writeInt value
  | real text => text.toList
  | string value => quote value
  | array [] => ['[', ']']
  | array (item :: items) =>
    '[' :: layout.deeper.lineBreak ++ write layout.deeper item ++ writeItems layout.deeper items
      ++ layout.lineBreak ++ [']']
  | object [] => ['\x7b', '\x7d']
  | object ((key, value) :: members) =>
    '\x7b' :: layout.deeper.lineBreak ++ quote key ++ layout.colon ++ write layout.deeper value
      ++ writeMembers layout.deeper members ++ layout.lineBreak ++ ['\x7d']

/-- The items behind the first, each behind a comma. -/
def writeItems (layout : Layout) : List Json → List Char
  | [] => []
  | item :: items => ',' :: layout.lineBreak ++ write layout item ++ writeItems layout items

def writeMembers (layout : Layout) : List (String × Json) → List Char
  | [] => []
  | (key, value) :: members =>
    ',' :: layout.lineBreak ++ quote key ++ layout.colon ++ write layout value
      ++ writeMembers layout members

end

def compact (json : Json) : String :=
  String.ofList (json.write .compact)

def pretty (json : Json) : String :=
  String.ofList (json.write (.indented 0))

end StagedAnalysis.Json
