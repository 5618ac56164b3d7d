/-! # Command line options

Options may stand anywhere among the other words until `--`; what follows it is never an
option. The first other word is the pass and the rest are programs.
-/
namespace Dataflow.Command

structure Options where
  pass : Option String
  programs : List String
  list : Bool
  print : Bool
  output : Option String
deriving DecidableEq

def Options.blank : Options := ⟨none, [], false, false, none⟩

inductive Request where
  | help
  | refused
  | run (options : Options)
deriving DecidableEq

/-- A word of the command line. -/
inductive Word where
  | separator
  | long (name : List Char) (value : Option (List Char))
  | short (letters : List Char)
  | plain
deriving DecidableEq

def Word.ofChars : List Char → Word
  | ['-', '-'] => separator
  | '-' :: '-' :: word =>
    match word.dropWhile (· != '=') with
    | [] => long word none
    | _ :: value => long (word.takeWhile (· != '=')) (some value)
  | '-' :: c :: letters => short (c :: letters)
  | _ => plain

namespace Options

/-- An output path must not be empty and is given only once. -/
def setOutput (o : Options) (path : String) : Option Options :=
  if path.isEmpty || o.output.isSome then none else some { o with output := some path }

def setList (o : Options) : Option Options :=
  if o.list then none else some { o with list := true }

def setPrint (o : Options) : Option Options :=
  if o.print then none else some { o with print := true }

/-- The pass may be empty, the path of a program may not. -/
def addWord (o : Options) (word : String) : Option Options :=
  if o.pass.isNone then some { o with pass := some word }
  else if word.isEmpty then none
  else some { o with programs := o.programs ++ [word] }

/-- Without a pass and a program there is nothing to do but to list the passes. -/
def request (o : Options) : Request :=
  if o.list || (o.pass.isSome && !o.programs.isEmpty) then .run o else .refused

end Options

/-- What the next word is taken for. -/
inductive Mode where
  | any
  | output
  | words
deriving DecidableEq

/-- What follows a word that is an option. -/
inductive Step where
  | help
  | refused
  | next (mode : Mode) (options : Options)

def Step.ofOptions : Option Options → Step
  | some o => next .any o
  | none => refused

def shortStep (o : Options) : List Char → Step
  | 'h' :: _ => .help
  | ['o'] => .next .output o
  | 'o' :: '=' :: path => .ofOptions (o.setOutput (String.ofList path))
  | 'o' :: path => .ofOptions (o.setOutput (String.ofList path))
  | _ => .refused

def longStep (o : Options) (name : List Char) (value : Option (List Char)) : Step :=
  match String.ofList name, value with
  | "output", none => .next .output o
  | "output", some path => .ofOptions (o.setOutput (String.ofList path))
  | "list", none => .ofOptions o.setList
  | "print", none => .ofOptions o.setPrint
  | "help", none => .help
  | _, _ => .refused

def step (mode : Mode) (o : Options) (word : String) : Step :=
  match mode, Word.ofChars word.toList with
  | .words, _ =>
    match o.addWord word with
    | some o => .next .words o
    | none => .refused
  | .output, .plain => .ofOptions (o.setOutput word)
  | .output, _ => .refused
  | .any, .plain => .ofOptions (o.addWord word)
  | .any, .separator => .next .words o
  | .any, .short letters => shortStep o letters
  | .any, .long name value => longStep o name value

def readWords : Mode → Options → List String → Request
  | .output, _, [] => .refused
  | _, o, [] => o.request
  | mode, o, word :: words =>
    match step mode o word with
    | .help => .help
    | .refused => .refused
    | .next mode o => readWords mode o words

def readRequest (words : List String) : Request := readWords .any .blank words

def usage : String := "Iterative dataflow analysis over quad control flow graphs

Usage: flow [OPTIONS] [PASS] [PROGRAMS]...

Arguments:
  [PASS]         Pass to run
  [PROGRAMS]...  Programs to analyze

Options:
      --list             List the registered passes
      --print            Print the quads of every function after the pass
  -o, --output <OUTPUT>  Write the optimized program here
  -h, --help             Print help
"

end Dataflow.Command
