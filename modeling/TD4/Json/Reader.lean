/-
Tokens put together to a value.

`Json.ofTokens?` reads tokens from left to right and keeps the arrays and
objects that are still open on a stack, so that no depth of nesting is too
deep for it.  `Json.tokens` is the way back, and `Json.parse?` reads a text.
-/
import TD4.Json.Token

namespace TD4
namespace Json

/-- An array or object that is still open. -/
inductive Frame
  /-- The items so far, last first. -/
  | array (items : List Json)
  /-- The members so far, last first, and the name of the one being read. -/
  | object (members : List (List Symbol × Json)) (name : List Symbol)

/-- What may come next. -/
inductive Expectation
  | value
  /-- The first item of an array, or its end. -/
  | itemOrEnd
  /-- The first name of an object, or its end. -/
  | nameOrEnd
  /-- The next name of an object with some members. -/
  | name (members : List (List Symbol × Json))
  | colon (members : List (List Symbol × Json)) (name : List Symbol)
  /-- What follows a value that has just ended. -/
  | after (value : Json)

/-- The value of a token that is one. -/
def Token.scalar? : Token → Option Json
  | .null => some .null
  | .bool b => some (.bool b)
  | .natural n => some (.natural n)
  | .real => some .real
  | .string s => some (.string s)
  | _ => none

/-- Take a token where a value must stand. -/
def takeValue (stack : List Frame) : Token → Option (List Frame × Expectation)
  | .openArray => some (.array [] :: stack, .itemOrEnd)
  | .openObject => some (stack, .nameOrEnd)
  | token => token.scalar?.map fun value => (stack, .after value)

/-- Take a token after a value. -/
def takeAfter (value : Json) : List Frame → Token → Option (List Frame × Expectation)
  | .array items :: stack, .comma => some (.array (value :: items) :: stack, .value)
  | .array items :: stack, .closeArray =>
    some (stack, .after (.array (value :: items).reverse))
  | .object members name :: stack, .comma => some (stack, .name ((name, value) :: members))
  | .object members name :: stack, .closeObject =>
    some (stack, .after (.object ((name, value) :: members).reverse))
  | _, _ => none

/-- Take one token. -/
def take : List Frame → Expectation → Token → Option (List Frame × Expectation)
  | stack, .value, token => takeValue stack token
  | .array [] :: stack, .itemOrEnd, .closeArray => some (stack, .after (.array []))
  | stack, .itemOrEnd, token => takeValue stack token
  | stack, .nameOrEnd, .closeObject => some (stack, .after (.object []))
  | stack, .nameOrEnd, .string name => some (stack, .colon [] name)
  | stack, .name members, .string name => some (stack, .colon members name)
  | stack, .colon members name, .colon => some (.object members name :: stack, .value)
  | stack, .after value, token => takeAfter value stack token
  | _, _, _ => none

/-- Take tokens to the end, where a single value must be left. -/
def takeAll : List Frame → Expectation → List Token → Option Json
  | [], .after value, [] => some value
  | _, _, [] => none
  | stack, expectation, token :: rest =>
    match take stack expectation token with
    | some (stack, expectation) => takeAll stack expectation rest
    | none => none

/-- The value that tokens spell. -/
def ofTokens? (tokens : List Token) : Option Json := takeAll [] .value tokens

/-- The value that a text spells. -/
def parse? (text : List Char) : Option Json := (scan text).bind ofTokens?

/-! ### The way back -/

mutual

/-- The tokens of a value. -/
def tokens : Json → List Token
  | .null => [.null]
  | .bool b => [.bool b]
  | .natural n => [.natural n]
  | .real => [.real]
  | .string s => [.string s]
  | .array [] => [.openArray, .closeArray]
  | .array (item :: items) => .openArray :: (item.tokens ++ itemTokens items)
  | .object [] => [.openObject, .closeObject]
  | .object ((name, value) :: members) =>
    .openObject :: .string name :: .colon :: (value.tokens ++ memberTokens members)

/-- The tokens of the items after the first, and of the end of their array. -/
def itemTokens : List Json → List Token
  | [] => [.closeArray]
  | item :: items => .comma :: (item.tokens ++ itemTokens items)

/-- The tokens of the members after the first, and of the end of their object. -/
def memberTokens : List (List Symbol × Json) → List Token
  | [] => [.closeObject]
  | (name, value) :: members =>
    .comma :: .string name :: .colon :: (value.tokens ++ memberTokens members)

end

end Json
end TD4
