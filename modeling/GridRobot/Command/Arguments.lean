/-!
# Arguments of the command line

**Input.**  The words behind the name of the program.

**Algorithm.**  The first word names a command, or asks for help or for the
version.  The words behind a command are taken from left to right: a switch, an
option with its value in the same word or in the next one, or the value of a
positional argument.  A lone `--` ends the options.  Help is given as soon as it
is asked for, and a fault is reported as soon as it is met.
-/

namespace GridRobot

/-- What the command line can be asked to do. -/
inductive Command
  | run (file : String) (trace : Bool) (maxSteps : Option Nat)
  | disasm (file : String)
  | demo (save : Option String)
  deriving DecidableEq, Repr

/-- Why arguments are not understood. -/
inductive UsageError
  | noCommand
  | unknownCommand (word : String)
  | unexpected (word : String)
  | repeated (option : String)
  | missingValue (option : String)
  | badValue (option value : String)
  | missing (argument : String)
  deriving DecidableEq, Repr

namespace UsageError

/-- The text of an error. -/
def message : UsageError → String
  | noCommand => "error: a command is required"
  | unknownCommand word => s!"error: unrecognized subcommand '{word}'"
  | unexpected word => s!"error: unexpected argument '{word}' found"
  | repeated option => s!"error: the argument '{option}' cannot be used multiple times"
  | missingValue option => s!"error: a value is required for '{option}' but none was supplied"
  | badValue option value => s!"error: invalid value '{value}' for '{option}'"
  | missing argument => s!"error: the argument '{argument}' was not provided"

end UsageError

/-- Why no command is carried out: there is something to show, or the arguments are not
understood. -/
inductive Stop
  | page (text : String)
  | misuse (cause : UsageError)
  deriving DecidableEq, Repr

/-- A word of the command line by its shape. -/
inductive Word
  | divider
  | long (name : String) (value : Option String)
  | short (letters : List Char)
  | plain (text : String)
  deriving DecidableEq, Repr

namespace Word

/-- The shape of a word.  A lone dash is a value. -/
def ofString (s : String) : Word :=
  match s.toList with
  | '-' :: '-' :: [] => divider
  | '-' :: '-' :: rest =>
      match rest.dropWhile (· != '=') with
      | _ :: value => long (.ofList (rest.takeWhile (· != '='))) (some (.ofList value))
      | [] => long (.ofList rest) none
  | '-' :: c :: rest => short (c :: rest)
  | _ => plain s

end Word

/-- Which words a command takes besides the request for help: switches, options with a
value that passes a test, and positional arguments. -/
structure Grammar where
  help : String
  switches : List String
  options : List (String × (String → Bool))
  positionals : List String

/-- The words taken so far. -/
structure Taken where
  switches : List String
  options : List (String × String)
  positionals : List String
  deriving DecidableEq, Repr

namespace Taken

/-- Nothing taken. -/
def nothing : Taken := ⟨[], [], []⟩

/-- Take a positional argument, which may not be empty. -/
def takePlain (t : Taken) (g : Grammar) (word : String) : Except Stop Taken :=
  match g.positionals[t.positionals.length]? with
  | none => .error (.misuse (.unexpected word))
  | some name =>
      if word = "" then .error (.misuse (.badValue name word))
      else .ok { t with positionals := t.positionals ++ [word] }

/-- Take the value of an option. -/
def takeValue (t : Taken) (option : String) (test : String → Bool) (value : String) :
    Except Stop Taken :=
  if (t.options.lookup option).isSome then .error (.misuse (.repeated option))
  else if test value then .ok { t with options := (option, value) :: t.options }
  else .error (.misuse (.badValue option value))

/-- Take a switch. -/
def takeSwitch (t : Taken) (name : String) : Except Stop Taken :=
  if name ∈ t.switches then .error (.misuse (.repeated name))
  else .ok { t with switches := name :: t.switches }

/-- Take the words of a command from left to right. -/
def takeAll (g : Grammar) (t : Taken) : List String → Except Stop Taken
  | [] => .ok t
  | word :: rest =>
      match Word.ofString word with
      | .divider => rest.foldlM (·.takePlain g ·) t
      | .plain text => do takeAll g (← t.takePlain g text) rest
      | .short ('h' :: _) => .error (.page g.help)
      | .short _ => .error (.misuse (.unexpected word))
      | .long "help" none => .error (.page g.help)
      | .long name none =>
          if name ∈ g.switches then do takeAll g (← t.takeSwitch name) rest
          else
            match g.options.lookup name, rest with
            | none, _ => .error (.misuse (.unexpected word))
            | some _, [] => .error (.misuse (.missingValue name))
            | some test, value :: rest =>
                match Word.ofString value with
                | .plain value => do takeAll g (← t.takeValue name test value) rest
                | _ => .error (.misuse (.missingValue name))
      | .long name (some value) =>
          match g.options.lookup name with
          | some test => do takeAll g (← t.takeValue name test value) rest
          | none => .error (.misuse (.unexpected word))

end Taken

/-- A count of at most 64 bits: decimal digits, perhaps behind a plus sign. -/
def readCount? (s : String) : Option Nat :=
  let ds := match s.toList with
    | '+' :: rest => rest
    | cs => cs
  let n := Nat.ofDigitChars 10 ds 0
  if !ds.isEmpty && ds.all Char.isDigit && n < UInt64.size then some n else none

namespace Command

/-- The page on the whole program. -/
def mainPage : String :=
  "Run structured Karel programs on a grid world\n\nUsage: karel <COMMAND>\n\n"
    ++ "Commands:\n  run     Compile and run a saved session\n"
    ++ "  disasm  Show the compiled instructions of a session's program and macros\n"
    ++ "  demo    Run a built-in example session\n"
    ++ "  help    Print this message or the help of the given subcommand(s)\n\n"
    ++ "Options:\n  -h, --help     Print help\n  -V, --version  Print version\n"

/-- The page on running a session. -/
def runPage : String :=
  "Compile and run a saved session\n\nUsage: karel run [OPTIONS] <SESSION>\n\n"
    ++ "Arguments:\n  <SESSION>  Session file (.json, or postcard binary otherwise)\n\n"
    ++ "Options:\n      --trace                  Print the status of every step\n"
    ++ "      --max-steps <MAX_STEPS>  Stop after this many steps\n"
    ++ "  -h, --help                   Print help\n"

/-- The page on listing the code of a session. -/
def disasmPage : String :=
  "Show the compiled instructions of a session's program and macros\n\n"
    ++ "Usage: karel disasm <SESSION>\n\nArguments:\n  <SESSION>  \n\n"
    ++ "Options:\n  -h, --help  Print help\n"

/-- The page on the example session. -/
def demoPage : String :=
  "Run a built-in example session\n\nUsage: karel demo [OPTIONS]\n\nOptions:\n"
    ++ "      --save <SAVE>  Also write the example session to this path\n"
    ++ "  -h, --help         Print help\n"

/-- The page on help. -/
def helpPage : String :=
  "Print this message or the help of the given subcommand(s)\n\n"
    ++ "Usage: karel help [COMMAND]...\n\n"
    ++ "Arguments:\n  [COMMAND]...  Print help for the subcommand(s)\n"

/-- The name and the version of the program. -/
def version : String := "karel 0.1.0\n"

/-- The words of running a session. -/
def runGrammar : Grammar where
  help := runPage
  switches := ["trace"]
  options := [("max-steps", fun s => (readCount? s).isSome)]
  positionals := ["<SESSION>"]

/-- The words of listing the code of a session. -/
def disasmGrammar : Grammar := ⟨disasmPage, [], [], ["<SESSION>"]⟩

/-- The words of the example session. -/
def demoGrammar : Grammar := ⟨demoPage, [], [("save", (· != ""))], []⟩

/-- The command to run a session. -/
def ofRunWords (words : List String) : Except Stop Command := do
  let t ← Taken.takeAll runGrammar .nothing words
  match t.positionals with
  | file :: _ =>
      return run file ("trace" ∈ t.switches) ((t.options.lookup "max-steps").bind readCount?)
  | [] => throw (.misuse (.missing "<SESSION>"))

/-- The command to list the code of a session. -/
def ofDisasmWords (words : List String) : Except Stop Command := do
  let t ← Taken.takeAll disasmGrammar .nothing words
  match t.positionals with
  | file :: _ => return disasm file
  | [] => throw (.misuse (.missing "<SESSION>"))

/-- The command for the example session. -/
def ofDemoWords (words : List String) : Except Stop Command := do
  let t ← Taken.takeAll demoGrammar .nothing words
  return demo (t.options.lookup "save")

/-- The page that a request for help names. -/
def pageOn : List String → Stop
  | [] => .page mainPage
  | ["run"] => .page runPage
  | ["disasm"] => .page disasmPage
  | ["demo"] => .page demoPage
  | ["help"] => .page helpPage
  | word :: _ => .misuse (.unknownCommand word)

/-- The command that the words of the command line ask for. -/
def parse : List String → Except Stop Command
  | [] => .error (.misuse .noCommand)
  | "run" :: words => ofRunWords words
  | "disasm" :: words => ofDisasmWords words
  | "demo" :: words => ofDemoWords words
  | "help" :: words => .error (pageOn words)
  | word :: _ =>
      match Word.ofString word with
      | .long "help" none | .short ('h' :: _) => .error (.page mainPage)
      | .long "version" none | .short ('V' :: _) => .error (.page version)
      | .divider => .error (.misuse .noCommand)
      | .plain _ => .error (.misuse (.unknownCommand word))
      | _ => .error (.misuse (.unexpected word))

end Command

end GridRobot
