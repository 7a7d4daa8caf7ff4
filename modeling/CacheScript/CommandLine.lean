/-
The command line: one script, run once over one store that reads its records
from a directory. What is printed is a function of the arguments and of the
files.
-/
import CacheScript.Run.Watchers
import CacheScript.Script
import CacheScript.Store.Sources

namespace CacheScript

namespace CommandLine

/-- How the program is called. -/
def usage : String :=
  "usage: blueprint_script <script.json> [--data-dir DIR] [--store ID] [--input JSON] [--trace]"

/-- What the arguments say. -/
structure Options where
  script : String
  dataDir : String
  store : String
  input : Json
  trace : Bool

/-- What holds when nothing is said. -/
def Options.default : Options where
  script := ""
  dataDir := "data"
  store := "default"
  input := .obj []
  trace := false

/-- Why arguments are refused. -/
inductive Refusal where
  | help
  | missingValue (flag : String)
  | invalidInput
  | unexpected (argument : String)
deriving DecidableEq

/-- The wording of a refusal. -/
def Refusal.message : Refusal → String
  | help => usage
  | missingValue flag => flag ++ " needs a value"
  | invalidInput => "--input is not valid JSON"
  | unexpected argument => "unexpected argument " ++ Text.quoted argument ++ "\n" ++ usage

/-- Read arguments from the left. A flag with a value takes the next argument
whatever it looks like, the last of several flags counts, and the first
argument that is neither a flag nor empty is the script. -/
def parseFrom (o : Options) : List String → Except Refusal Options
  | [] => if o.script = "" then .error .help else .ok o
  | arg :: args =>
    if arg = "--data-dir" then
      match args with
      | [] => .error (.missingValue arg)
      | value :: args => parseFrom { o with dataDir := value } args
    else if arg = "--store" then
      match args with
      | [] => .error (.missingValue arg)
      | value :: args => parseFrom { o with store := value } args
    else if arg = "--input" then
      match args with
      | [] => .error (.missingValue arg)
      | value :: args =>
        match Json.parse? value with
        | none => .error .invalidInput
        | some input => parseFrom { o with input } args
    else if arg = "--trace" then parseFrom { o with trace := true } args
    else if arg = "-h" ∨ arg = "--help" then .error .help
    else if o.script = "" then parseFrom { o with script := arg } args
    else .error (.unexpected arg)

/-- What the arguments say, if they are accepted. -/
def parse (args : List String) : Except Refusal Options :=
  parseFrom .default args

/-- What the program leaves behind: its exit code, what it prints, and the
paths of the files that it looked at, in order. -/
structure Report where
  code : UInt32
  stdout : String
  stderr : String
  consulted : List String

/-- A failed call of the program. -/
def failure (message : String) (consulted : List String) : Report :=
  { code := 1, stdout := "", stderr := "Error: " ++ message ++ "\n", consulted }

/-- The store of the program, before any run. -/
def store (files : FileSystem) (o : Options) : Store Record :=
  Store.empty o.store .createIfAbsent (Directory.loader files o.dataDir)

/-- The files that the calls of a directory's loader looked at. -/
def filesOf (o : Options) (s : Session) : List String :=
  (s.stores.flatMap Store.calls).filterMap fun key =>
    if Directory.acceptsKey key then some (Directory.path o.dataDir key) else none

/-- Run a script as the options say. -/
def runScript (files : FileSystem) (o : Options) (script : Script Empty) : Report :=
  let context := Context.ofInput ⟨[store files o]⟩ o.input
  let watcher := if o.trace then some Watcher.logging else none
  let run := script.execute watcher o.input context ()
  let consulted := o.script :: filesOf o run.context.session
  match run.result with
  | .ok document =>
    { code := 0, stdout := (Json.obj document).indented ++ "\n", stderr := "", consulted }
  | .error f => failure ("[" ++ f.code ++ "] " ++ f.message) consulted

/-- The program. -/
def run (args : List String) (files : FileSystem) : Report :=
  match parse args with
  | .error refusal => failure refusal.message []
  | .ok o =>
    match Script.load Catalog.standard files o.script with
    | .error _ => failure ("loading script " ++ o.script) [o.script]
    | .ok script => runScript files o script

end CommandLine

end CacheScript
