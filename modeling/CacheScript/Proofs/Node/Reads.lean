/-
The names that a tree reads: those its texts refer to, and those its nodes
want a store, an object or a value under. They are read off the texts that the
nodes hold once they are configured, whatever the names are bound to.
-/
import CacheScript.Proofs.Node.Places
import CacheScript.Template

namespace CacheScript

/-- The names that a text refers to. -/
def Text.references (text : String) : List String :=
  (Template.parse text.toList).names

/-- The names that a step reads. -/
def Step.reads : Step → List String
  | cacheGet cid _ _ default => cid :: Text.references default
  | set _ value => Text.references value
  | output _ value reference => Text.references value ++ if reference = "" then [] else [reference]
  | log message _ => Text.references message
  | throw _ message => Text.references message

/-- The names that a scope itself reads. -/
def Scope.reads : Scope → List String
  | segment | cache _ _ => []
  | locate id pid _ => pid :: Text.references id
  | object tag => Text.references tag

namespace Node

variable {κ : Type}

/-- The names that a node itself reads. -/
def ownReads : Node κ → List String
  | step _ action => action.reads
  | scope _ around _ => around.reads
  | custom _ _ _ => []

/-- The names that the nodes of a tree read. -/
def reads (node : Node κ) : List String :=
  (node.places []).flatMap (·.2.ownReads)

theorem mem_reads {node : Node κ} {name : String} (around : List Scope) :
    name ∈ node.reads ↔ ∃ place ∈ places around node, name ∈ place.2.ownReads := by
  have h : node.reads = ((places around node).map (·.2)).flatMap ownReads := by
    rw [map_places, List.flatMap_map]; rfl
  rw [h, List.flatMap_map, List.mem_flatMap]

theorem reads_self {node : Node κ} {name : String} (h : name ∈ node.ownReads) : name ∈ node.reads :=
  (mem_reads []).2 ⟨_, self_mem_places [] node, h⟩

theorem reads_child {node child : Node κ} (hc : child ∈ node.children) {name : String} (h : name ∈ child.reads) :
    name ∈ node.reads := by
  obtain ⟨place, hp, hn⟩ := (mem_reads _).1 h
  exact (mem_reads []).2 ⟨place, places_child hc hp, hn⟩

end Node

/-- Filling a template asks only for its names. -/
theorem Template.fill_congr {f g : String → Option String} {t : Template} (h : ∀ name ∈ t.names, f name = g name) :
    t.fill f = t.fill g := by
  induction t with
  | last literal tail => rfl
  | reference literal name rest ih =>
    simp only [names, List.mem_cons, forall_eq_or_imp] at h
    simp only [fill, h.1, ih h.2]

end CacheScript
