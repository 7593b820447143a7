/-
What a command line asks for.

An `Invocation` is one of four commands with its operand and options, or one of
the two things that are answered without a command.  `Invocation.parse?` reads
the words of a command line; there is no answer if they are used wrongly.

Words before the name of a command are taken from left to right: the question
for the version is answered as soon as it is met.
-/
import TD4.CommandLine.Options
import TD4.Text.Numeral

namespace TD4
namespace CommandLine

/-- The options of the commands. -/
inductive Key
  | verbose
  | input
  | tickMs
  | maxSteps
  | config
  | json
  | steps
  | output
  deriving DecidableEq, Repr

/-- How a program is to be run.  What is not given comes from the settings. -/
structure RunRequest where
  program : List Char
  input : Option UInt8
  tickMs : Option UInt64
  maxSteps : Option UInt64
  /-- The file with settings. -/
  config : Option (List Char)
  /-- Is the machine to be shown as JSON? -/
  json : Bool
  deriving DecidableEq, Repr

/-- What is asked for. -/
inductive Invocation
  /-- Nothing; a few words about the program are the answer. -/
  | banner
  | version
  | run (request : RunRequest)
  | trace (program : List Char) (input : UInt8) (steps : UInt64)
  | assemble (source : List Char) (output : Option (List Char))
  | disassemble (program : List Char)
  deriving DecidableEq, Repr

/-- The files whose contents an invocation depends on. -/
def Invocation.reads : Invocation → List (List Char)
  | .banner => []
  | .version => []
  | .run request => request.program :: request.config.toList
  | .trace program _ _ => [program]
  | .assemble source _ => [source]
  | .disassemble program => [program]

/-! ### Values -/

/-- A number of 64 bits. -/
def word? (text : List Char) : Option UInt64 :=
  match Text.signless? 10 text with
  | some n => if n < UInt64.size then some (UInt64.ofNat n) else none
  | none => none

/-- A nibble.  Zero may have a minus sign. -/
def nibble? (text : List Char) : Option UInt8 :=
  let value? := match text with
    | '-' :: digits => (Text.natural? 10 digits).filter fun n => n == 0
    | _ => Text.signless? 10 text
  match value? with
  | some n => if n < 16 then some (UInt8.ofNat n) else none
  | none => none

/-! ### Commands -/

/-- The option that makes the program talk about what it does.  It changes no
answer. -/
def verboseSpec : OptionSpec Key := ⟨.verbose, "verbose".toList, some 'v', false⟩

def inputSpec : OptionSpec Key := ⟨.input, "input".toList, some 'i', true⟩

def runSpecs : List (OptionSpec Key) :=
  [verboseSpec, inputSpec, ⟨.tickMs, "tick-ms".toList, some 't', true⟩,
    ⟨.maxSteps, "max-steps".toList, some 'm', true⟩, ⟨.config, "config".toList, some 'c', true⟩,
    ⟨.json, "json".toList, none, false⟩]

def traceSpecs : List (OptionSpec Key) :=
  [verboseSpec, inputSpec, ⟨.steps, "steps".toList, some 's', true⟩]

def assembleSpecs : List (OptionSpec Key) :=
  [verboseSpec, ⟨.output, "output".toList, some 'o', true⟩]

/-- The items of a command with exactly one operand. -/
def scanCommand (specs : List (OptionSpec Key)) (words : List (List Char)) :
    Option (List Char × List (Item Key)) := do
  let items ← scan specs none words
  let _ ← given? .verbose items
  match operandsOf items with
  | [operand] => some (operand, items)
  | _ => none

def parseRun? (words : List (List Char)) : Option Invocation := do
  let (program, items) ← scanCommand runSpecs words
  some (.run {
    program
    input := ← single? .input nibble? items
    tickMs := ← single? .tickMs word? items
    maxSteps := ← single? .maxSteps word? items
    config := ← single? .config some items
    json := ← given? .json items })

/-- Without options a trace has input zero and shows at most 64 steps. -/
def parseTrace? (words : List (List Char)) : Option Invocation := do
  let (program, items) ← scanCommand traceSpecs words
  let input ← single? .input nibble? items
  let steps ← single? .steps word? items
  some (.trace program (input.getD 0) (steps.getD 64))

def parseAssemble? (words : List (List Char)) : Option Invocation := do
  let (source, items) ← scanCommand assembleSpecs words
  some (.assemble source (← single? .output some items))

def parseDisassemble? (words : List (List Char)) : Option Invocation := do
  let (program, _) ← scanCommand [verboseSpec] words
  some (.disassemble program)

/-- Read the words after the name of a command. -/
def parseCommand? (name : List Char) (words : List (List Char)) : Option Invocation :=
  if name = "run".toList then parseRun? words
  else if name = "trace".toList then parseTrace? words
  else if name = "asm".toList then parseAssemble? words
  else if name = "disasm".toList then parseDisassemble? words
  else none

/-! ### Before the command -/

/-- What a word before the command leads to. -/
inductive Lead
  /-- Go on; was the program made to talk by now? -/
  | proceed (verbose : Bool)
  | version
  | wrong

/-- Take a word of letters. -/
def leadShort : Bool → List Char → Lead
  | verbose, [] => .proceed verbose
  | verbose, c :: rest =>
    if c = 'V' then .version
    else if c = 'v' ∧ verbose = false then leadShort true rest
    else .wrong

/-- Take a long name. -/
def leadLong (verbose : Bool) (name : List Char) : Lead :=
  if name = "version".toList then .version
  else if name = "verbose".toList ∧ verbose = false then .proceed true
  else .wrong

/-- Read words up to the name of a command, and the command. -/
def parseFrom? : Bool → List (List Char) → Option Invocation
  | _, [] => some .banner
  | verbose, word :: rest =>
    if word = ['-', '-'] then if rest.isEmpty then some .banner else none
    else if looksLikeOption word then
      let lead := match word with
        | '-' :: '-' :: name => leadLong verbose name
        | _ => leadShort verbose word.tail
      match lead with
      | .proceed verbose => parseFrom? verbose rest
      | .version => some .version
      | .wrong => none
    else parseCommand? word rest

/-- Read a command line. -/
def Invocation.parse? (words : List (List Char)) : Option Invocation := parseFrom? false words

end CommandLine
end TD4
