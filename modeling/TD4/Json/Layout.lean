/-
Values written as text.

* `compact` writes a value without any blanks;
* `pretty` puts every item and every member on a line of its own, two blanks
  further in than what it belongs to.
-/
import TD4.Json.Reader

namespace TD4
namespace Json

/-- A value without blanks. -/
def compact (value : Json) : List Char := value.tokens.flatMap Token.text

/-- A line break, and the blanks at the start of the next line. -/
def newLine (indent : Nat) : List Char := '\n' :: List.replicate indent ' '

/-- The name of a member with its colon. -/
def nameText (name : List Symbol) : List Char := (Token.string name).text ++ [':', ' ']

mutual

/-- A value over several lines, the first of which is begun with an indent. -/
def prettyFrom (indent : Nat) : Json → List Char
  | .array [] => ['[', ']']
  | .array (item :: items) =>
    '[' :: newLine (indent + 2) ++ prettyFrom (indent + 2) item ++ prettyItems indent items
  | .object [] => ['\x7b', '\x7d']
  | .object ((name, value) :: members) =>
    '\x7b' :: newLine (indent + 2) ++ nameText name ++ prettyFrom (indent + 2) value
      ++ prettyMembers indent members
  | .null => Token.null.text
  | .bool b => (Token.bool b).text
  | .natural n => (Token.natural n).text
  | .real => Token.real.text
  | .string s => (Token.string s).text

/-- The items after the first, and the end of their array. -/
def prettyItems (indent : Nat) : List Json → List Char
  | [] => newLine indent ++ [']']
  | item :: items =>
    ',' :: newLine (indent + 2) ++ prettyFrom (indent + 2) item ++ prettyItems indent items

/-- The members after the first, and the end of their object. -/
def prettyMembers (indent : Nat) : List (List Symbol × Json) → List Char
  | [] => newLine indent ++ ['\x7d']
  | (name, value) :: members =>
    ',' :: newLine (indent + 2) ++ nameText name ++ prettyFrom (indent + 2) value
      ++ prettyMembers indent members

end

/-- A value over several lines. -/
def pretty (value : Json) : List Char := prettyFrom 0 value

end Json
end TD4
