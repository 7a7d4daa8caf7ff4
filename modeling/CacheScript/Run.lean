/-
Runs: what happens when the nodes of a tree are executed, depth first and in
order, up to the first failure.

A run changes a state: the context, the document, the log, the notes of
custom nodes, and what a watcher remembers. A watcher is told before and after
each node, of each logged message and of the end, and may remember and log;
it never sees more of the state than that, and no node sees what it remembers.
-/
import CacheScript.Context
import CacheScript.Node

namespace CacheScript

/-- How a node, or a whole run, ended. -/
inductive Outcome where
  | done
  | failed (failure : Failure)
deriving DecidableEq

/-- The failure of an outcome that is one. -/
def Outcome.failure? : Outcome → Option Failure
  | done => none
  | failed f => some f

/-- Someone who is told what a run does. Each answer is what is remembered
after, and remarks for the log. -/
structure Watcher (ω : Type) where
  onStart : Label → ω → ω × List Log.Remark
  onFinish : Label → Outcome → ω → ω × List Log.Remark
  onLog : String → ω → ω × List Log.Remark
  onComplete : Outcome → ω → ω × List Log.Remark

/-- What a run changes. -/
structure State (ω : Type) where
  context : Context
  /-- The object at the current position of the document. -/
  document : Dict Json
  /-- The log, the newest line first. -/
  log : List Log.Line
  /-- What custom nodes noted down, each under a heading, the newest first. -/
  notes : List (String × Option String)
  /-- What the watcher remembers. -/
  memory : ω

namespace State

variable {ω : Type}

/-- Bind a name. -/
def bind (s : State ω) (name : String) (value : Value) : State ω :=
  { s with context := s.context.bind name value }

/-- Unbind a name. -/
def unbind (s : State ω) (name : String) : State ω :=
  { s with context := s.context.unbind name }

/-- Write a member into the document. -/
def write (s : State ω) (name : String) (value : Json) : State ω :=
  { s with document := s.document.put name value }

/-- Write lines to the log, in order. -/
def logAll (s : State ω) (lines : List Log.Line) : State ω :=
  { s with log := lines.reverse ++ s.log }

/-- Write down a note. -/
def note (s : State ω) (heading : String) (text : Option String) : State ω :=
  { s with notes := (heading, text) :: s.notes }

/-- Tell a watcher, if there is one. Its remarks are logged as its own. -/
def tell (s : State ω) (watcher : Option (Watcher ω))
    (event : Watcher ω → ω → ω × List Log.Remark) : State ω :=
  match watcher with
  | none => s
  | some w =>
    let (memory, remarks) := event w s.memory
    let s := { s with memory }
    s.logAll (remarks.map fun remark => { toRemark := remark, source := .watcher })

/-- Load a key from a store. -/
def load (s : State ω) (store : StoreRef) (key : String) : Option Record × State ω :=
  let (found, context, lines) := s.context.load store key true
  let s := { s with context }
  (found, s.logAll lines)

/-- Run with a name bound, and unbind it however that ends. -/
def bracket (s : State ω) (name : String) (value : Value)
    (body : State ω → Outcome × State ω) : Outcome × State ω :=
  let (outcome, s) := body (s.bind name value)
  (outcome, s.unbind name)

/-- Run at the child object `name` of the document, which is made first when
there is no object. -/
def within (s : State ω) (name : String) (body : State ω → Outcome × State ω) : Outcome × State ω :=
  let child := ((s.document.value? name).bind Json.members?).getD []
  let (outcome, t) := body { s with document := child }
  (outcome, { t with document := s.document.put name (.obj t.document) })

end State

variable {ω κ : Type}

/-- What a step does. -/
def Step.perform (watcher : Option (Watcher ω)) (s : State ω) : Step → Outcome × State ω
  | cacheGet cid field id default =>
    match s.context.recordAt cid with
    | .error f => (.failed f, s)
    | .ok record =>
      let text := (record.field? field).getD (s.context.interpolate default)
      (.done, s.bind id (.str text))
  | set id value => (.done, s.bind id (.str (s.context.interpolate value)))
  | output id value reference =>
    let written :=
      if reference = "" then .str (s.context.interpolate value)
      else ((s.context.binding? reference).map Value.toJson).getD .null
    (.done, s.write id written)
  | log message level =>
    let text := s.context.interpolate message
    (.done, (s.logAll [Log.line .node level text]).tell watcher (·.onLog text))
  | throw code message => (.failed (.thrown code (s.context.interpolate message)), s)

/-- What a scope does around its children. -/
def Scope.perform (children : State ω → Outcome × State ω) (s : State ω) :
    Scope → Outcome × State ω
  | segment => children s
  | cache id cid =>
    match s.context.session.find? id with
    | none => (.failed (.storeNotRegistered id), s)
    | some store => s.bracket cid (.store store) children
  | locate id pid cid =>
    match s.context.storeAt pid with
    | .error f => (.failed f, s)
    | .ok store =>
      let key := s.context.interpolate id
      if key = "" then
        (.done, s.logAll [Log.line .node .trace
          ("cache-locate: empty id from " ++ Text.quoted id ++ ", skipping")])
      else
        match s.load store key with
        | (none, s) => (.failed (.objectNotFound key), s)
        | (some record, s) => s.bracket cid (.object record) children
  | object tag => s.within (s.context.interpolate tag) children

/-- What the nodes of custom kinds do, given the input of the run and a way to
run their children. -/
class Performs (κ : Type) where
  perform {ω : Type} : κ → Json → (State ω → Outcome × State ω) → State ω → Outcome × State ω

instance : Performs Empty := ⟨fun kind => nomatch kind⟩

namespace Node

/-- Tell a watcher before and after. -/
def watched (watcher : Option (Watcher ω)) (label : Label) (body : State ω → Outcome × State ω)
    (s : State ω) : Outcome × State ω :=
  let (outcome, s) := body (s.tell watcher (·.onStart label))
  (outcome, s.tell watcher (·.onFinish label outcome))

variable [Performs κ]

mutual
/-- Execute a node. -/
def execute (watcher : Option (Watcher ω)) (input : Json) : Node κ → State ω → Outcome × State ω
  | step label action, s => watched watcher label (fun s => action.perform watcher s) s
  | scope label around children, s =>
    watched watcher label (fun s => around.perform (fun s => executeAll watcher input children s) s) s
  | custom label kind children, s =>
    watched watcher label
      (fun s => Performs.perform kind input (fun s => executeAll watcher input children s) s) s

/-- Execute nodes in order, up to the first that fails. -/
def executeAll (watcher : Option (Watcher ω)) (input : Json) :
    List (Node κ) → State ω → Outcome × State ω
  | [], s => (.done, s)
  | node :: nodes, s =>
    match execute watcher input node s with
    | (.done, s) => executeAll watcher input nodes s
    | (.failed f, s) => (.failed f, s)
end

end Node

end CacheScript
