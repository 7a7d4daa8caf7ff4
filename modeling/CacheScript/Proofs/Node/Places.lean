/-
Places in a tree: every node of it together with the scopes around it. What
is asked of the nodes of a tree is asked of its places, so it can be computed,
and it is found again in every subtree (`places_child`).
-/
import CacheScript.Node

namespace CacheScript

/-- The name that a step writes a text to. -/
def Step.written? : Step → Option String
  | cacheGet _ _ id _ | set id _ => some id
  | _ => none

/-- The name that a scope binds while its children run. -/
def Scope.bound? : Scope → Option String
  | cache _ cid | locate _ _ cid => some cid
  | _ => none

namespace Node

variable {κ : Type}

/-- The name that a node itself writes a text to. -/
def written? : Node κ → Option String
  | step _ action => action.written?
  | _ => none

/-- The name that a node itself binds while its children run. -/
def bound? : Node κ → Option String
  | scope _ around _ => around.bound?
  | _ => none

mutual
/-- The nodes of a tree that stands inside some scopes, each with all the
scopes around it, innermost first. -/
def places (around : List Scope) : Node κ → List (List Scope × Node κ)
  | step label action => [(around, step label action)]
  | scope label inner children => (around, scope label inner children) :: placesAll (inner :: around) children
  | custom label kind children => (around, custom label kind children) :: placesAll around children

/-- The nodes of several trees inside the same scopes. -/
def placesAll (around : List Scope) : List (Node κ) → List (List Scope × Node κ)
  | [] => []
  | node :: nodes => places around node ++ placesAll around nodes
end

/-- The names that the nodes of a tree write texts to. -/
def written (node : Node κ) : List String :=
  (node.places []).filterMap (·.2.written?)

/-- The names that the nodes of a tree bind while their children run. -/
def bound (node : Node κ) : List String :=
  (node.places []).filterMap (·.2.bound?)

theorem mem_placesAll {around : List Scope} {nodes : List (Node κ)} {place : List Scope × Node κ} :
    place ∈ placesAll around nodes ↔ ∃ node ∈ nodes, place ∈ places around node := by
  induction nodes with
  | nil => simp [placesAll]
  | cons node nodes ih => simp [placesAll, ih]

/-- The scopes around the children of a node. -/
def inside (around : List Scope) : Node κ → List Scope
  | scope _ inner _ => inner :: around
  | _ => around

theorem mem_places {around : List Scope} {node : Node κ} {place : List Scope × Node κ} :
    place ∈ places around node ↔
      place = (around, node) ∨ ∃ child ∈ node.children, place ∈ places (node.inside around) child := by
  cases node <;> simp [places, children, inside, mem_placesAll]

theorem self_mem_places (around : List Scope) (node : Node κ) : (around, node) ∈ places around node :=
  mem_places.2 (.inl rfl)

/-- The places of a child are places of its parent. -/
theorem places_child {around : List Scope} {node child : Node κ} (hc : child ∈ node.children)
    {place : List Scope × Node κ} (hp : place ∈ places (node.inside around) child) :
    place ∈ places around node :=
  mem_places.2 (.inr ⟨child, hc, hp⟩)

theorem sizeOf_lt_of_mem_children {node child : Node κ} (h : child ∈ node.children) :
    sizeOf child < sizeOf node := by
  cases node with
  | step label action => simp [children] at h
  | scope label around nodes =>
    have := List.sizeOf_lt_of_mem h
    simp only [children, scope.sizeOf_spec] at this ⊢
    omega
  | custom label kind nodes =>
    have := List.sizeOf_lt_of_mem h
    simp only [children, custom.sizeOf_spec] at this ⊢
    omega

/-- What a node has whenever its children have it, every node has. -/
theorem byChildren {P : Node κ → Prop} (h : ∀ node, (∀ child ∈ node.children, P child) → P node) (node : Node κ) :
    P node :=
  h node fun child _hc => byChildren h child
termination_by sizeOf node
decreasing_by exact sizeOf_lt_of_mem_children _hc

mutual
/-- The scopes around a tree are around each of its nodes as well, outermost. -/
theorem places_inside (outer around : List Scope) : ∀ node : Node κ,
    places (around ++ outer) node = (places around node).map fun place => (place.1 ++ outer, place.2)
  | step _ _ => rfl
  | scope _ inner children => by
    simp only [places, List.map_cons, List.cons.injEq, true_and]
    exact placesAll_inside outer (inner :: around) children
  | custom _ _ children => by
    simp only [places, List.map_cons, List.cons.injEq, true_and]
    exact placesAll_inside outer around children

theorem placesAll_inside (outer around : List Scope) : ∀ nodes : List (Node κ),
    placesAll (around ++ outer) nodes = (placesAll around nodes).map fun place => (place.1 ++ outer, place.2)
  | [] => rfl
  | node :: nodes => by
    simp only [placesAll, List.map_append, places_inside outer around node,
      placesAll_inside outer around nodes]
end

/-- Which nodes there are does not hang on the scopes around the tree. -/
theorem map_places (around : List Scope) (node : Node κ) :
    (places around node).map (·.2) = (places [] node).map (·.2) := by
  have h := places_inside around [] node
  rw [List.nil_append] at h
  rw [h, List.map_map]
  rfl

theorem mem_written {node : Node κ} {name : String} (around : List Scope) :
    name ∈ node.written ↔ ∃ place ∈ places around node, place.2.written? = some name := by
  have h : node.written = ((places around node).map (·.2)).filterMap written? := by
    rw [map_places, List.filterMap_map]; rfl
  simp [h]

theorem mem_bound {node : Node κ} {name : String} (around : List Scope) :
    name ∈ node.bound ↔ ∃ place ∈ places around node, place.2.bound? = some name := by
  have h : node.bound = ((places around node).map (·.2)).filterMap bound? := by
    rw [map_places, List.filterMap_map]; rfl
  simp [h]

theorem written_step (label : Label) (action : Step) :
    (step label action : Node κ).written = action.written?.toList := by
  cases h : action.written? <;> simp [written, places, written?, h]

theorem bound_of_scope {label : Label} {around : Scope} {children : List (Node κ)} {name : String}
    (h : around.bound? = some name) : name ∈ (scope label around children).bound :=
  (mem_bound []).2 ⟨_, self_mem_places [] _, h⟩

theorem written_child {node child : Node κ} (hc : child ∈ node.children) {name : String}
    (h : name ∈ child.written) : name ∈ node.written := by
  obtain ⟨place, hp, hn⟩ := (mem_written _).1 h
  exact (mem_written []).2 ⟨place, places_child hc hp, hn⟩

theorem bound_child {node child : Node κ} (hc : child ∈ node.children) {name : String}
    (h : name ∈ child.bound) : name ∈ node.bound := by
  obtain ⟨place, hp, hn⟩ := (mem_bound _).1 h
  exact (mem_bound []).2 ⟨place, places_child hc hp, hn⟩

end Node

end CacheScript
