/-
Nodes: a script after it was built. A node is a step, which does one thing; a
scope, which runs its children with something in place; or a node of a kind
that the builder of the script brings along. The configured texts are kept as
they are and are filled each time the node runs.
-/
import CacheScript.Log

namespace CacheScript

/-- Which node this is: its place in the tree, its tag, and the node around
it. -/
structure Label where
  id : NodeId
  tag : String
  parent : Option NodeId
deriving DecidableEq

/-- What a node without children does. -/
inductive Step where
  /-- Bind `id` to a field of the record bound to `cid`, or to the filled
  `default` when there is no such field. -/
  | cacheGet (cid field id default : String)
  /-- Bind `id` to the filled `value`. -/
  | set (id value : String)
  /-- Write `id` into the document: what is bound to `reference`, or the
  filled `value` when there is no reference. -/
  | output (id value reference : String)
  /-- Write the filled `message` to the log. -/
  | log (message : String) (level : Log.Level)
  /-- Stop with a code and the filled `message`. -/
  | throw (code message : String)
deriving DecidableEq

/-- What a node with children has in place while they run. -/
inductive Scope where
  /-- Nothing. -/
  | segment
  /-- The session's store `id`, bound to `cid`. -/
  | cache (id cid : String)
  /-- The object with the filled `id` in the store bound to `pid`, bound to
  `cid`. -/
  | locate (id pid cid : String)
  /-- The child object with the filled `tag` as the position to write to. -/
  | object (tag : String)
deriving DecidableEq

/-- A node, whose own kinds are those of `κ`. -/
inductive Node (κ : Type) where
  | step (label : Label) (step : Step)
  | scope (label : Label) (scope : Scope) (children : List (Node κ))
  | custom (label : Label) (kind : κ) (children : List (Node κ))

namespace Node

variable {κ : Type}

/-- Which node this is. -/
def label : Node κ → Label
  | step label _ => label
  | scope label _ _ => label
  | custom label _ _ => label

/-- The nodes inside. -/
def children : Node κ → List (Node κ)
  | step _ _ => []
  | scope _ _ children => children
  | custom _ _ children => children

end Node

end CacheScript
