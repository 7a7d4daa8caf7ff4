/-
Scripts: built once, run any number of times. A run gives the document that
it wrote, or the failure that stopped it and no document. A batch runs a script
once for every input over one session, each run in a context of its own.
-/
import CacheScript.Files
import CacheScript.Node.Build
import CacheScript.Run

namespace CacheScript

/-- A built script. -/
structure Script (κ : Type) where
  root : Node κ

/-- What a run comes to. The log and the notes come in the order in which they
were written. -/
structure Execution (ω : Type) where
  result : Except Failure (Dict Json)
  context : Context
  log : List Log.Line
  notes : List (String × Option String)
  memory : ω

/-- Why a text gives no script. -/
inductive LoadFailure where
  /-- The text is no definition. -/
  | invalid
  /-- The file with the text cannot be read. -/
  | unreadable
  | build (failure : BuildFailure)
deriving DecidableEq

namespace Script

variable {κ ω : Type}

/-- The script of a definition. -/
def build (catalog : Catalog κ) (d : Definition) : Except BuildFailure (Script κ) :=
  match catalog.build d with
  | .ok root => .ok ⟨root⟩
  | .error f => .error f

/-- The script that a text defines. -/
def parse (catalog : Catalog κ) (text : String) : Except LoadFailure (Script κ) :=
  match Definition.parse? text with
  | none => .error .invalid
  | some d =>
    match build catalog d with
    | .ok script => .ok script
    | .error f => .error (.build f)

/-- The script that a file defines. -/
def load (catalog : Catalog κ) (files : FileSystem) (path : String) :
    Except LoadFailure (Script κ) :=
  match files path with
  | .text text => parse catalog text
  | _ => .error .unreadable

/-- The state that a run starts in: an empty document and an empty log. -/
def start (context : Context) (memory : ω) : State ω :=
  { context, document := [], log := [], notes := [], memory }

/-- Run a script in a context. -/
def execute [Performs κ] (script : Script κ) (watcher : Option (Watcher ω)) (input : Json)
    (context : Context) (memory : ω) : Execution ω :=
  let (outcome, s) := script.root.execute watcher input (start context memory)
  let s := s.tell watcher (·.onComplete outcome)
  { result := match outcome with
      | .done => .ok s.document
      | .failed f => .error f
    context := s.context
    log := s.log.reverse
    notes := s.notes.reverse
    memory := s.memory }

/-- Run a script once for every input, in order, over one session. -/
def executeBatch [Performs κ] (script : Script κ) (watcher : Option (Watcher ω)) :
    Session → ω → List Json → List (Except Failure (Dict Json)) × Session × ω
  | session, memory, [] => ([], session, memory)
  | session, memory, input :: inputs =>
    let run := script.execute watcher input (Context.ofInput session input) memory
    let (results, session, memory) := executeBatch script watcher run.context.session run.memory inputs
    (run.result :: results, session, memory)

end Script

end CacheScript
