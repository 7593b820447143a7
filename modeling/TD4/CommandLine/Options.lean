/-
Options and operands among the words of a command line.

An option has a long name after two dashes and may have a letter after one.  It
takes no value, or exactly one: attached (`--limit=3`, `-m3`, `-m=3`) or in the
next word (`--limit 3`, `-m 3`), which then must not look like an option.
Letters without values can stand together (`-vj`).  A word of two dashes ends
the options.

* `scan` sorts the words of a command;
* `single?` and `given?` find the value or the presence of an option, which
  must not be given twice.
-/

namespace TD4
namespace CommandLine

/-- An option that a command knows. -/
structure OptionSpec (ι : Type) where
  key : ι
  long : List Char
  short : Option Char
  takesValue : Bool

/-- A word, sorted: an option with its value, or an operand. -/
inductive Item (ι : Type)
  | option (key : ι) (value : Option (List Char))
  | operand (text : List Char)
  deriving DecidableEq, Repr

/-- Does a word look like an option?  A lone dash does not. -/
def looksLikeOption (word : List Char) : Bool :=
  match word with
  | '-' :: _ :: _ => true
  | _ => false

/-- Sort a word with a long name.  The second part is the option that waits for
its value in the next word, if one does. -/
def scanLong {ι : Type} (specs : List (OptionSpec ι)) (text : List Char) :
    Option (List (Item ι) × Option ι) :=
  let name := text.takeWhile fun c => c != '='
  match specs.find? fun spec => spec.long == name with
  | none => none
  | some spec =>
    match text.dropWhile fun c => c != '=' with
    | [] =>
      if spec.takesValue then some ([], some spec.key) else some ([.option spec.key none], none)
    | _ :: value => if spec.takesValue then some ([.option spec.key (some value)], none) else none

/-- Sort a word of letters. -/
def scanShort {ι : Type} (specs : List (OptionSpec ι)) :
    List Char → Option (List (Item ι) × Option ι)
  | [] => some ([], none)
  | c :: rest =>
    match specs.find? fun spec => spec.short == some c with
    | none => none
    | some spec =>
      if spec.takesValue then
        match rest with
        | [] => some ([], some spec.key)
        | '=' :: value => some ([.option spec.key (some value)], none)
        | value => some ([.option spec.key (some value)], none)
      else
        (scanShort specs rest).map fun (items, waiting) => (.option spec.key none :: items, waiting)

/-- Sort words, the first of which may be the value of an option that waits for
it.  There is no answer if a word fits nothing or a value is missing. -/
def scan {ι : Type} (specs : List (OptionSpec ι)) :
    Option ι → List (List Char) → Option (List (Item ι))
  | none, [] => some []
  | some _, [] => none
  | some key, word :: rest =>
    if looksLikeOption word then none
    else (scan specs none rest).map (.option key (some word) :: ·)
  | none, word :: rest =>
    if word = ['-', '-'] then some (rest.map .operand)
    else
      let sorted := match word with
        | '-' :: '-' :: name => scanLong specs name
        | '-' :: c :: letters => scanShort specs (c :: letters)
        | _ => some ([.operand word], none)
      match sorted with
      | none => none
      | some (items, waiting) => (scan specs waiting rest).map (items ++ ·)

/-- The operands among items. -/
def operandsOf {ι : Type} (items : List (Item ι)) : List (List Char) :=
  items.filterMap fun item =>
    match item with
    | .operand text => some text
    | .option _ _ => none

/-- The values with which an option was given. -/
def valuesOf {ι : Type} [DecidableEq ι] (key : ι) (items : List (Item ι)) :
    List (Option (List Char)) :=
  items.filterMap fun item =>
    match item with
    | .option k value => if k = key then some value else none
    | .operand _ => none

/-- The value of an option, read: nothing if it was not given, and no answer if
it was given twice or cannot be read. -/
def single? {ι α : Type} [DecidableEq ι] (key : ι) (read : List Char → Option α)
    (items : List (Item ι)) : Option (Option α) :=
  match valuesOf key items with
  | [] => some none
  | [some value] => (read value).map some
  | _ => none

/-- Was an option without a value given?  No answer if it was given twice. -/
def given? {ι : Type} [DecidableEq ι] (key : ι) (items : List (Item ι)) : Option Bool :=
  match valuesOf key items with
  | [] => some false
  | [_] => some true
  | _ => none

end CommandLine
end TD4
