/-!
String literals. Behind the opening quote, a backslash joins the next character to one of the
value; the literal ends at the first quote that no backslash joins. It may not go past the end of
its line: it then stops in front of the line feed, and a backslash there stands for itself.
-/
namespace StagedAnalysis

/-- What stands behind an opening quote: the text up to the end of the literal, its value, whether
the closing quote is there, and what is behind it. -/
structure Quoted where
  text : List Char
  value : List Char
  closed : Bool
  rest : List Char
  deriving DecidableEq

namespace Quoted

def unescape (character : Char) : Char :=
  if character = 'n' then '\n'
  else if character = 'r' then '\r'
  else if character = 't' then '\t'
  else if character = '0' then '\x00'
  else character

def prepend (text : List Char) (character : Char) (quoted : Quoted) : Quoted :=
  ⟨text ++ quoted.text, character :: quoted.value, quoted.closed, quoted.rest⟩

def split : List Char → Quoted
  | [] => ⟨[], [], false, []⟩
  | '"' :: rest => ⟨['"'], [], true, rest⟩
  | '\n' :: rest => ⟨[], [], false, '\n' :: rest⟩
  | '\\' :: '\n' :: rest => ⟨['\\'], ['\\'], false, '\n' :: rest⟩
  | '\\' :: character :: rest => prepend ['\\', character] (unescape character) (split rest)
  | character :: rest => prepend [character] character (split rest)

theorem split_append (text : List Char) : (split text).text ++ (split text).rest = text := by
  fun_induction split text <;> simp_all [prepend]

end Quoted

end StagedAnalysis
