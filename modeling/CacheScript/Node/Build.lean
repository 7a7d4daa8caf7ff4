/-
Building: from a definition to a tree of nodes. A node is checked before its
children, its tag first, then its properties, then whether it may have
children at all; so the failure that is reported is that of the first node,
parents before children and children in order, with anything wrong.
-/
import CacheScript.Definition
import CacheScript.Node.Kind

namespace CacheScript

/-- A kind of nodes that a catalog brings along, before and after it was
configured. -/
structure CustomKind (κ : Type) where
  takesChildren : Bool
  configure : String → Properties → Except BuildFailure κ

/-- What tags mean. The tags of the catalog come before the known ones. -/
structure Catalog (κ : Type) where
  custom : Dict (CustomKind κ)

/-- The catalog of the known kinds alone. -/
def Catalog.standard : Catalog Empty := ⟨[]⟩

/-- What a tag means for the node that has it. -/
inductive Shape (κ : Type) where
  | step (step : Step)
  | scope (scope : Scope)
  | custom (kind : κ) (takesChildren : Bool)

namespace Shape

variable {κ : Type}

/-- Whether a node of this shape takes children. -/
def takesChildren : Shape κ → Bool
  | step _ => false
  | scope _ => true
  | custom _ takes => takes

/-- The node of a shape. -/
def node (label : Label) (children : List (Node κ)) : Shape κ → Node κ
  | step action => .step label action
  | scope around => .scope label around children
  | custom kind _ => .custom label kind children

end Shape

namespace Catalog

variable {κ : Type}

/-- What a tag with these properties means. -/
def configure (c : Catalog κ) (tag : String) (p : Properties) : Except BuildFailure (Shape κ) :=
  match c.custom.value? tag with
  | some kind => do
    let configured ← kind.configure tag p
    .ok (.custom configured kind.takesChildren)
  | none =>
    match Kind.ofTag? tag with
    | none => .error (.unknownTag tag)
    | some kind => do
      match ← kind.configure tag p with
      | .step step => .ok (.step step)
      | .scope scope => .ok (.scope scope)

mutual
/-- The node of a definition at a place of the tree. -/
def buildAt (c : Catalog κ) (id : NodeId) (parent : Option NodeId) :
    Definition → Except BuildFailure (Node κ)
  | ⟨tag, props, children⟩ => do
    let shape ← c.configure tag (Properties.ofObject props)
    if children.isEmpty = false ∧ shape.takesChildren = false then
      .error (.unexpectedChildren tag)
    else
      let children ← c.buildAll id 0 children
      .ok (shape.node ⟨id, tag, parent⟩ children)

/-- The nodes of definitions, which are the children of `parent` from
`position` on. -/
def buildAll (c : Catalog κ) (parent : NodeId) (position : Nat) :
    List Definition → Except BuildFailure (List (Node κ))
  | [] => .ok []
  | child :: children => do
    let node ← c.buildAt (position :: parent) (some parent) child
    let nodes ← c.buildAll parent (position + 1) children
    .ok (node :: nodes)
end

/-- The tree of a definition. -/
def build (c : Catalog κ) (d : Definition) : Except BuildFailure (Node κ) :=
  c.buildAt [] none d

end Catalog

end CacheScript
