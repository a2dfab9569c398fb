import SchemaGraph.Text.Pieces

/-!
Command lines: options, a command, and the options of the command. An option is a long name after
two dashes or a letter after one; letters of options without values may be joined. A value follows
in the same word, with or without an equals sign, or is the next word.
-/

namespace SchemaGraph

inductive Command where
  /-- Generates code, into a directory other than the configured one if one is given. -/
  | compile (out : Option String)
  /-- Compiles without writing anything. -/
  | check
  /-- Draws the import graph, into a file if one is given. -/
  | graph (output : Option String)
  deriving DecidableEq, Inhabited

/-- What the program is asked to do. -/
structure Invocation where
  config : Option String
  verbose : Bool
  /-- Source ids with semicolons between them. -/
  sources : String
  /-- Search directories in place of the configured ones. -/
  dirs : List String
  command : Command
  deriving DecidableEq, Inhabited

namespace CommandLine

/-! ### Options -/

inductive Flag where
  | help
  | verbose
  | config
  | sources
  | dir
  | out
  | output
  deriving DecidableEq, Inhabited

namespace Flag

def long : Flag → String
  | help => "help"
  | verbose => "verbose"
  | config => "config"
  | sources => "sources"
  | dir => "dir"
  | out => "out"
  | output => "output"

/-- The letter of an option: the first of its name. -/
def short (f : Flag) : Option Char :=
  f.long.toList.head?

def hasValue : Flag → Bool
  | help | verbose => false
  | config | sources | dir | out | output => true

/-- Whether an option may be given more than once. -/
def repeats (f : Flag) : Bool := f = dir

/-- Paths are not empty. -/
def accepts (f : Flag) (value : String) : Bool :=
  !f.hasValue || f = sources || value ≠ ""

/-- The options that may stand before the command as well as after it. -/
def everywhere : List Flag := [help, verbose, config]

end Flag

/-- An option with its value, which is empty for options without one. -/
abbrev Given := Flag × String

inductive Stop where
  /-- A call for help. Nothing after it counts. -/
  | help
  | misuse
  deriving DecidableEq, Inhabited

/-- Adds an option to those before it: its value has to be acceptable, and none may be repeated that
does not repeat. -/
def add (given : List Given) (f : Flag) (value : String) : Except Stop (List Given) :=
  if f = .help then .error .help
  else if f.accepts value && (f.repeats || given.all fun g => g.1 ≠ f) then
    .ok (given ++ [(f, value)])
  else .error .misuse

/-- The options up to the end of a word, and the one whose value is yet to come. -/
abbrev WordReading := List Given × Option Flag

/-- The options of a word with one dash. -/
def readLetters (allowed : List Flag) (given : List Given) : List Char → Except Stop WordReading
  | [] => .ok (given, none)
  | c :: cs =>
    match allowed.find? fun f => f.short = some c with
    | none => .error .misuse
    | some f =>
      if !f.hasValue then do readLetters allowed (← add given f "") cs
      else match cs with
        | [] => .ok (given, some f)
        | '=' :: value => do return (← add given f (String.ofList value), none)
        | value => do return (← add given f (String.ofList value), none)

/-- The option of a word with two dashes. -/
def readName (allowed : List Flag) (given : List Given) (word : List Char) :
    Except Stop WordReading :=
  let (name, value?) := match Text.cutAt '=' word with
    | some (name, value) => (name, some value)
    | none => (word, none)
  match allowed.find? fun f => f.long = String.ofList name with
  | none => .error .misuse
  | some f =>
    match f.hasValue, value? with
    | true, some value => do return (← add given f (String.ofList value), none)
    | true, none => .ok (given, some f)
    | false, none => do return (← add given f "", none)
    | false, some _ => .error .misuse

def readWord (allowed : List Flag) (given : List Given) (word : String) :
    Except Stop WordReading :=
  match word.toList with
  | '-' :: '-' :: name => readName allowed given name
  | '-' :: letters => readLetters allowed given letters
  | _ => .error .misuse

/-- Whether a word holds options. A single dash is a word like any other. -/
def isOption (word : String) : Bool :=
  word.startsWith "-" && word ≠ "-"

/-- The options up to the first other word, and all words from there on. Two dashes end the options;
no words may follow them. -/
def readOptions (allowed : List Flag) (given : List Given) :
    List String → Except Stop (List Given × List String)
  | [] => .ok (given, [])
  | w :: ws =>
    if w = "--" then if ws.isEmpty then .ok (given, []) else .error .misuse
    else if !isOption w then .ok (given, w :: ws)
    else do
      match ← readWord allowed given w with
      | (given, none) => readOptions allowed given ws
      | (given, some f) =>
        match ws with
        | [] => .error .misuse
        | value :: ws =>
          if isOption value then .error .misuse
          else readOptions allowed (← add given f value) ws

def values (f : Flag) (given : List Given) : List String :=
  (given.filter fun g => g.1 = f).map Prod.snd

def value? (f : Flag) (given : List Given) : Option String :=
  (values f given).head?

/-! ### Commands -/

inductive Request where
  | run (invocation : Invocation)
  | help
  | misuse
  deriving DecidableEq, Inhabited

def Stop.request : Stop → Request
  | help => .help
  | misuse => .misuse

/-- The options that only the command of this name has. -/
def ownFlags? : String → Option (List Flag)
  | "compile" => some [.sources, .dir, .out]
  | "check" => some [.sources, .dir]
  | "graph" => some [.sources, .dir, .output]
  | _ => none

def commandOf (name : String) (given : List Given) : Command :=
  match name with
  | "compile" => .compile (value? .out given)
  | "graph" => .graph (value? .output given)
  | _ => .check

/-- The request of a command with its options, after the options `top` before it. An option after
the command wins over the same one before it. -/
def request (top : List Given) (name : String) (given : List Given) : Request :=
  match value? .sources given with
  | none => .misuse
  | some sources =>
    .run
      { config := (value? .config given).orElse fun _ => value? .config top
        verbose := (value? .verbose (top ++ given)).isSome
        sources
        dirs := values .dir given
        command := commandOf name given }

def readCommand (top : List Given) (name : String) (words : List String) : Request :=
  match ownFlags? name with
  | none => .misuse
  | some own =>
    match readOptions (Flag.everywhere ++ own) [] words with
    | .ok (given, []) => request top name given
    | .ok _ => .misuse
    | .error stop => stop.request

/-- Reads the words after `help`: at most the name of a command. -/
def readHelp : List String → Request
  | [] => .help
  | [name] => if (ownFlags? name).isSome ∨ name = "help" then .help else .misuse
  | _ => .misuse

def usage : String :=
  "Usage: schemac [OPTIONS] <COMMAND>\n\n" ++
    "Commands:\n" ++
    "  compile  Compile and generate code\n" ++
    "  check    Compile and report without writing anything\n" ++
    "  graph    Print the import graph in DOT format\n\n" ++
    "Options:\n" ++
    "  -c, --config <CONFIG>    Explicit config file, layered over schemac.toml\n" ++
    "  -v, --verbose            Debug-level logging\n" ++
    "  -s, --sources <SOURCES>  Root source ids, separated by ';' (every command)\n" ++
    "  -d, --dir <DIR>          Search directory, repeatable (every command)\n" ++
    "  -o, --out <DIR>          Output directory (compile)\n" ++
    "  -o, --output <FILE>      Write to a file instead of stdout (graph)\n" ++
    "  -h, --help               Print help\n"

def read (words : List String) : Request :=
  match readOptions Flag.everywhere [] words with
  | .error stop => stop.request
  | .ok (_, []) => .misuse
  | .ok (_, "help" :: words) => readHelp words
  | .ok (top, name :: words) => readCommand top name words

end CommandLine

end SchemaGraph
