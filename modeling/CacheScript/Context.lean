/-
Contexts: what a run sees besides its input, the stores of its session and
the values bound to names.
-/
import CacheScript.Failure
import CacheScript.Session
import CacheScript.Template
import CacheScript.Value.Json

namespace CacheScript

/-- The stores and the bindings of a run. -/
structure Context where
  session : Session
  bindings : Dict Value

namespace Context

/-- A context that binds nothing. -/
def new (session : Session) : Context := ⟨session, []⟩

/-- Bind a name, in the place of what was bound there. -/
def bind (c : Context) (name : String) (value : Value) : Context :=
  { c with bindings := c.bindings.put name value }

/-- Unbind a name. -/
def unbind (c : Context) (name : String) : Context :=
  { c with bindings := c.bindings.remove name }

/-- The value bound to a name. -/
def binding? (c : Context) (name : String) : Option Value :=
  c.bindings.value? name

/-- A context that binds every member of an object. -/
def withParams (session : Session) (params : Dict Json) : Context :=
  params.foldl (fun c (name, value) => c.bind name value.toValue) (new session)

/-- The context that a run starts with: the members of its input are bound
when the input is an object. -/
def ofInput (session : Session) (input : Json) : Context :=
  match input with
  | .obj params => withParams session params
  | _ => new session

/-- The text that stands for a name. -/
def text? (c : Context) (name : String) : Option String :=
  (c.binding? name).map Value.text

/-- A text with its references filled from the bindings. -/
def interpolate (c : Context) (text : String) : String :=
  CacheScript.interpolate c.text? text

/-- The store bound to a name. -/
def storeAt (c : Context) (name : String) : Except Failure StoreRef :=
  match (c.binding? name).bind Value.store? with
  | some ref => .ok ref
  | none => .error (.missingCacheContext name)

/-- The record bound to a name. -/
def recordAt (c : Context) (name : String) : Except Failure Record :=
  match (c.binding? name).bind Value.object? with
  | some record => .ok record
  | none => .error (.missingBinding name)

/-- Load a key from a store of the session. -/
def load (c : Context) (ref : StoreRef) (key : String) (create : Bool) :
    Option Record × Context × List Log.Line :=
  let (found, session, lines) := c.session.load ref key create
  (found, { c with session }, lines)

end Context

end CacheScript
