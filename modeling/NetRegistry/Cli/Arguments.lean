/-
# Cli.Arguments -- the command line

A command line is options, the name of a command, and the options and operands of
the command.  The options for the configuration file and for JSON output may
stand before or behind the name; where both give a file, the one behind counts.

An option with a value takes it after an equals sign, in the same word behind a
short name, or as the next word, which then may not start with a dash.  Behind a
lone `--` every word is an operand.  No option may be given twice in one place, and
each operand has to be one that the command takes there.  Words are read from left to
right, so a request for the version or for help counts unless a fault stands before
it.
-/
import NetRegistry.Address.Net

namespace NetRegistry.Cli

set_option autoImplicit false

/-- The options. -/
inductive OptionName where
  | config
  | json
  | help
  | version
  | coverage
  | buffered
  | output
  | list
  | rebuild
deriving DecidableEq

/-- What an option takes. -/
inductive ValueKind where
  | flag
  | text
  /-- A path, which is not empty. -/
  | path
deriving DecidableEq

/-- How an option is written and what it takes. -/
structure OptionSpec where
  name : OptionName
  long : String
  short : Option Char
  kind : ValueKind

/-- Options that may stand before and behind the name of a command. -/
def globalOptions : List OptionSpec :=
  [⟨.config, "config", some 'c', .path⟩, ⟨.json, "json", none, .flag⟩,
    ⟨.help, "help", some 'h', .flag⟩]

/-- Options before the name of a command. -/
def mainOptions : List OptionSpec := globalOptions ++ [⟨.version, "version", some 'V', .flag⟩]

/-- What a command takes as an operand. -/
inductive OperandKind where
  | text
  | address
deriving DecidableEq

/-- Whether a word is an operand of the kind. -/
def OperandKind.accepts : OperandKind → String → Bool
  | .text, _ => true
  | .address, word => (Host.parse? word.toList).isSome

inductive Command where
  | init
  | rebuild (coverage buffered : Bool)
  | order
  | export (list : String) (output : Option String)
  | lookup (address : Host) (list : Option String)
  | coverage (rebuild : Bool)

/-- What a command line asks for. -/
inductive Invocation where
  | run (config : String) (json : Bool) (command : Command)
  | help
  | version

/-- Why the reading of a command line ended early. -/
inductive Stop where
  | usage
  | help
  | version
deriving DecidableEq

/-- What has been read: options with their values, operands, and the option that waits for its
value. -/
structure Words where
  options : List (OptionName × String)
  operands : List String
  waiting : Option OptionSpec

namespace Words

/-- Nothing has been read. -/
def empty : Words := ⟨[], [], none⟩

def has (w : Words) (name : OptionName) : Bool := w.options.any (·.1 == name)

def value? (w : Words) (name : OptionName) : Option String :=
  (w.options.find? (·.1 == name)).map (·.2)

/-- Record an option with its value. -/
def give (spec : OptionSpec) (value : String) (w : Words) : Except Stop Words :=
  if spec.name = .help then .error .help
  else if spec.name = .version then .error .version
  else if w.has spec.name || (spec.kind = .path && value.isEmpty) then .error .usage
  else .ok { w with options := w.options ++ [(spec.name, value)], waiting := none }

/-- Record an option that may have its value in the same word. -/
def giveOption (spec : OptionSpec) (attached : Option String) (w : Words) : Except Stop Words :=
  match spec.kind, attached with
  | .flag, none => w.give spec ""
  | .flag, some _ => .error .usage
  | _, some value => w.give spec value
  | _, none => .ok { w with waiting := some spec }

/-- An option by its long name, with a value behind an equals sign. -/
def readLong (specs : List OptionSpec) (word : List Char) (w : Words) : Except Stop Words :=
  let name := String.ofList (word.takeWhile (· != '='))
  let attached :=
    if word.contains '=' then some (String.ofList ((word.dropWhile (· != '=')).drop 1)) else none
  match specs.find? (·.long == name) with
  | none => .error .usage
  | some spec => w.giveOption spec attached

/-- An option by its short name, with a value in the same word. -/
def readShort (specs : List OptionSpec) (c : Char) (behind : List Char) (w : Words) :
    Except Stop Words :=
  match specs.find? (·.short == some c) with
  | none => .error .usage
  | some spec =>
      if spec.kind = .flag then w.give spec ""
      else
        let attached := match behind with
          | [] => none
          | '=' :: value => some (String.ofList value)
          | value => some (String.ofList value)
        w.giveOption spec attached

/-- Record an operand, which is of the kind that comes next. -/
def giveOperand (kinds : List OperandKind) (word : String) (w : Words) : Except Stop Words :=
  match kinds[w.operands.length]? with
  | some kind =>
      if kind.accepts word then .ok { w with operands := w.operands ++ [word] }
      else .error .usage
  | none => .error .usage

def giveOperands (kinds : List OperandKind) : List String → Words → Except Stop Words
  | [], w => .ok w
  | word :: rest, w => do giveOperands kinds rest (← w.giveOperand kinds word)

/-- Read words up to the name of a command, which is left with the words behind it. -/
def readBefore (specs : List OptionSpec) :
    List String → Words → Except Stop (Words × List String)
  | [], w => if w.waiting.isSome then .error .usage else .ok (w, [])
  | word :: rest, w =>
      match w.waiting, word.toList with
      | none, ['-', '-'] => .error .usage
      | none, '-' :: '-' :: name => do readBefore specs rest (← w.readLong specs name)
      | none, '-' :: c :: behind => do readBefore specs rest (← w.readShort specs c behind)
      | some _, '-' :: _ :: _ => .error .usage
      | some spec, _ => do readBefore specs rest (← w.give spec word)
      | none, _ => .ok (w, word :: rest)

/-- Read the words behind the name of a command. -/
def readBehind (specs : List OptionSpec) (kinds : List OperandKind) :
    List String → Words → Except Stop Words
  | [], w => if w.waiting.isSome then .error .usage else .ok w
  | word :: rest, w =>
      match w.waiting, word.toList with
      | none, ['-', '-'] => w.giveOperands kinds rest
      | none, '-' :: '-' :: name => do readBehind specs kinds rest (← w.readLong specs name)
      | none, '-' :: c :: behind => do readBehind specs kinds rest (← w.readShort specs c behind)
      | some _, '-' :: _ :: _ => .error .usage
      | some spec, _ => do readBehind specs kinds rest (← w.give spec word)
      | none, _ => do readBehind specs kinds rest (← w.giveOperand kinds word)

end Words

/-! ## Commands -/

structure CommandSpec where
  name : String
  options : List OptionSpec
  operands : List OperandKind
  /-- The command of the words behind its name, if none is missing. -/
  command? : Words → Option Command

def commands : List CommandSpec := [
  ⟨"init", [], [], fun _ => some .init⟩,
  ⟨"rebuild", [⟨.coverage, "coverage", none, .flag⟩, ⟨.buffered, "buffered", none, .flag⟩], [],
    fun w => some (.rebuild (w.has .coverage) (w.has .buffered))⟩,
  ⟨"order", [], [], fun _ => some .order⟩,
  ⟨"export", [⟨.output, "output", some 'o', .path⟩], [.text],
    fun w => w.operands.head?.map fun list => .export list (w.value? .output)⟩,
  ⟨"lookup", [⟨.list, "list", some 'l', .text⟩], [.address],
    fun w => (w.operands.head?.bind fun word => Host.parse? word.toList).map fun address =>
      .lookup address (w.value? .list)⟩,
  ⟨"coverage", [⟨.rebuild, "rebuild", none, .flag⟩], [],
    fun w => some (.coverage (w.has .rebuild))⟩]

/-- The configuration file where none is given. -/
def defaultConfig : String := "rackradar.yaml"

/-- Read the words behind the name of a command. -/
def readCommand (before : Words) (spec : CommandSpec) (words : List String) :
    Except Stop Invocation := do
  let w ← Words.readBehind (globalOptions ++ spec.options) spec.operands words .empty
  match spec.command? w with
  | none => .error .usage
  | some command =>
      let config := (w.value? .config <|> before.value? .config).getD defaultConfig
      return .run config (w.has .json || before.has .json) command

/-- A request for help on a command, or on all. -/
def isHelpRequest : List String → Bool
  | ["help"] => true
  | ["help", command] => command == "help" || commands.any (·.name == command)
  | _ => false

def readAll (words : List String) : Except Stop Invocation := do
  let (before, rest) ← Words.readBefore mainOptions words .empty
  match rest with
  | [] => .error .usage
  | name :: behind =>
      if isHelpRequest rest then .error .help
      else
        match commands.find? (·.name == name) with
        | none => .error .usage
        | some spec => readCommand before spec behind

/-- What a command line asks for; nothing if it does not follow the rules. -/
def Invocation.ofArguments? (words : List String) : Option Invocation :=
  match readAll words with
  | .ok i => some i
  | .error .help => some .help
  | .error .version => some .version
  | .error .usage => none

end NetRegistry.Cli
