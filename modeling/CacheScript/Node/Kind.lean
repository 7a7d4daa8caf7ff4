/-
The kinds of nodes that every script knows: their tags, the properties they
are configured from, and which of them take children.

Texts that are filled when the node runs are taken as configured; all others
are resolved against the node's own properties once, here. A required
property must come out of that non-empty.
-/
import CacheScript.Failure
import CacheScript.Node
import CacheScript.Properties

namespace CacheScript

/-- The kinds of nodes. -/
inductive Kind where
  | segment
  | cache
  | cacheLocate
  | cacheGet
  | set
  | output
  | obj
  | log
  | throw
deriving DecidableEq

/-- What a node of a known kind does. -/
inductive Role where
  | step (step : Step)
  | scope (scope : Scope)
deriving DecidableEq

/-- A resolved property that must not be empty. -/
def Properties.required (p : Properties) (tag name : String) : Except BuildFailure String :=
  let value := p.getString name ""
  if value = "" then .error (.missingAttribute tag name) else .ok value

namespace Kind

/-- Every kind, in the order in which they are listed. -/
def all : List Kind :=
  [segment, cache, cacheLocate, cacheGet, set, output, obj, log, throw]

/-- The tag of a kind. -/
def tag : Kind → String
  | segment => "segment"
  | cache => "cache"
  | cacheLocate => "cache-locate"
  | cacheGet => "cache-get"
  | set => "set"
  | output => "output"
  | obj => "obj"
  | log => "log"
  | throw => "throw"

/-- The kind of a tag. -/
def ofTag? (tag : String) : Option Kind :=
  all.find? fun kind => kind.tag = tag

/-- The kinds that take children. -/
def takesChildren : Kind → Bool
  | segment | cache | cacheLocate | obj => true
  | _ => false

/-- The property that a kind cannot do without. -/
def requiredName? : Kind → Option String
  | cache | set | output => some "id"
  | cacheGet => some "field"
  | obj => some "tag"
  | _ => none

/-- What a node of a kind does, from its tag and its properties. -/
def configure (tag : String) (p : Properties) : Kind → Except BuildFailure Role
  | segment => .ok (.scope .segment)
  | cache => do
    let id ← p.required tag "id"
    .ok (.scope (.cache id (p.getString "cid" "$cache")))
  | cacheLocate =>
    .ok (.scope (.locate (p.getRaw "id" "id") (p.getString "pid" "$cache")
      (p.getString "cid" "$cache-object")))
  | cacheGet => do
    let field ← p.required tag "field"
    .ok (.step (.cacheGet (p.getString "cid" "$cache-object") field (p.getString "id" field)
      (p.getRaw "dft" "")))
  | set => do
    let id ← p.required tag "id"
    .ok (.step (.set id (p.getRaw "value" "")))
  | output => do
    let id ← p.required tag "id"
    .ok (.step (.output id (p.getRaw "value" "") (p.getString "ref" "")))
  | obj => do
    let position ← p.required tag "tag"
    .ok (.scope (.object position))
  | log =>
    .ok (.step (.log (p.getRaw "msg" "")
      ((Log.Level.ofName? (p.getString "level" "info")).getD .info)))
  | throw => .ok (.step (.throw (p.getString "code" "core.e1004") (p.getRaw "msg" "")))

end Kind

end CacheScript
