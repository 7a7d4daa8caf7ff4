/-
Visits: which nodes a run comes to, in order, each with the state that it
finds. A visit is of the tree's own node, or lies in a child that the run comes
to after all children before it (`mem_visits`); what is shown of a node and the
children it comes to so holds of all visits of a run.
-/
import CacheScript.Proofs.Run.Scopes

namespace CacheScript

variable {ω : Type}

/-- A node that a run came to. -/
structure Visit (ω : Type) where
  /-- Where the node stands, as the positions on the way down to it. -/
  path : List Nat
  /-- Where it writes, as the keys on the way to that object of the document. -/
  keys : List String
  node : Node Empty
  /-- The state that the node found. -/
  state : State ω

namespace Visit

/-- A visit, seen from the node whose child at `position` it lies in. -/
def under (position : Nat) (keys : List String) (v : Visit ω) : Visit ω :=
  { v with path := position :: v.path, keys := keys ++ v.keys }

/-- How the visited node ended. -/
def outcome (watcher : Option (Watcher ω)) (input : Json) (v : Visit ω) : Outcome :=
  (v.node.execute watcher input v.state).1

end Visit

/-- The keys from the object that a scope finds to the one that its children
write to. -/
def Scope.keys (s : State ω) : Scope → List String
  | object tag => [s.context.interpolate tag]
  | _ => []

namespace Node

section

variable (watcher : Option (Watcher ω)) (input : Json)

mutual
/-- The nodes that a run comes to: the node itself, and those in its children
when these are run. -/
def visits : Node Empty → State ω → List (Visit ω)
  | step label action, s => [⟨[], [], step label action, s⟩]
  | scope label around children, s =>
    ⟨[], [], scope label around children, s⟩ ::
      match around.enter (s.tell watcher (·.onStart label)) with
      | .error _ => []
      | .ok t => visitsAll (around.keys s) 0 children t

/-- The nodes that a run of several comes to, which are children from
`position` on. After one that fails there are no more. -/
def visitsAll (keys : List String) (position : Nat) : List (Node Empty) → State ω → List (Visit ω)
  | [], _ => []
  | node :: nodes, s =>
    (visits node s).map (Visit.under position keys) ++
      match node.execute watcher input s with
      | (.done, t) => visitsAll keys (position + 1) nodes t
      | (.failed _, _) => []
end

/-- The run of a node comes to its child at a position, which finds a state. -/
inductive ComesTo : Node Empty → State ω → Nat → List String → Node Empty → State ω → Prop
  | child {label : Label} {around : Scope} {children : List (Node Empty)} {s t : State ω} {position : Nat}
      {node : Node Empty} {u : State ω} (begins : around.enter (s.tell watcher (·.onStart label)) = .ok t)
      (there : children[position]? = some node)
      (before : executeAll watcher input (children.take position) t = (.done, u)) :
      ComesTo (scope label around children) s position (around.keys s) node u

end

variable {watcher : Option (Watcher ω)} {input : Json}

/-! ## Running a scope and a list of nodes -/

/-- A scope that does not run its children. -/
theorem execute_scope_error {label : Label} {around : Scope} {children : List (Node Empty)} {s t : State ω}
    {outcome : Outcome} (h : around.enter (s.tell watcher (·.onStart label)) = .error (outcome, t)) :
    (scope label around children).execute watcher input s = (outcome, t.tell watcher (·.onFinish label outcome)) := by
  rw [execute, watched, Scope.perform_eq_enter, h]

/-- A scope that runs its children ends as they do. -/
theorem execute_scope_ok {label : Label} {around : Scope} {children : List (Node Empty)} {s t : State ω}
    (h : around.enter (s.tell watcher (·.onStart label)) = .ok t) :
    (scope label around children).execute watcher input s =
      ((executeAll watcher input children t).1,
        (around.leave (s.tell watcher (·.onStart label)) (executeAll watcher input children t).2).tell watcher
          (·.onFinish label (executeAll watcher input children t).1)) := by
  rw [execute, watched, Scope.perform_eq_enter, h]

theorem executeAll_cons_done {node : Node Empty} {nodes : List (Node Empty)} {s t : State ω}
    (h : node.execute watcher input s = (.done, t)) :
    executeAll watcher input (node :: nodes) s = executeAll watcher input nodes t := by
  rw [executeAll, h]

theorem executeAll_cons_failed {node : Node Empty} {nodes : List (Node Empty)} {s t : State ω} {f : Failure}
    (h : node.execute watcher input s = (.failed f, t)) :
    executeAll watcher input (node :: nodes) s = (.failed f, t) := by
  rw [executeAll, h]

theorem executeAll_singleton (node : Node Empty) (s : State ω) :
    executeAll watcher input [node] s = node.execute watcher input s := by
  rcases hx : node.execute watcher input s with ⟨_ | f, t⟩
  · rw [executeAll_cons_done hx, executeAll]
  · rw [executeAll_cons_failed hx]

/-- Nodes that run to their end hand over to those after them. -/
theorem executeAll_append {nodes others : List (Node Empty)} {s t : State ω}
    (h : executeAll watcher input nodes s = (.done, t)) :
    executeAll watcher input (nodes ++ others) s = executeAll watcher input others t := by
  induction nodes generalizing s with
  | nil => cases h; rfl
  | cons node nodes ih =>
    rw [List.cons_append]
    rcases hx : node.execute watcher input s with ⟨_ | f, u⟩
    · rw [executeAll_cons_done hx] at h ⊢
      exact ih h
    · rw [executeAll_cons_failed hx] at h
      cases h

/-- A run of several nodes fails as the first of them that fails. -/
theorem executeAll_failed {nodes : List (Node Empty)} {s t : State ω} {f : Failure}
    (h : executeAll watcher input nodes s = (.failed f, t)) :
    ∃ position node u, nodes[position]? = some node ∧
      executeAll watcher input (nodes.take position) s = (.done, u) ∧ node.execute watcher input u = (.failed f, t) := by
  induction nodes generalizing s with
  | nil => cases h
  | cons node nodes ih =>
    rcases hx : node.execute watcher input s with ⟨_ | g, u⟩
    · rw [executeAll_cons_done hx] at h
      obtain ⟨position, other, r, hp, hb, hf⟩ := ih h
      exact ⟨position + 1, other, r, hp, by rw [List.take_succ_cons, executeAll_cons_done hx, hb], hf⟩
    · rw [executeAll_cons_failed hx] at h
      exact ⟨0, node, s, rfl, rfl, hx.trans h⟩

/-- What runs before a node that fails is all that runs to its end. -/
theorem executeAll_of_failed {nodes : List (Node Empty)} {position : Nat} {node : Node Empty} {s t u : State ω}
    {f : Failure} (hp : nodes[position]? = some node)
    (hb : executeAll watcher input (nodes.take position) s = (.done, u))
    (hx : node.execute watcher input u = (.failed f, t)) : executeAll watcher input nodes s = (.failed f, t) := by
  obtain ⟨hlt, rfl⟩ := List.getElem?_eq_some_iff.1 hp
  conv => lhs; rw [← List.take_append_drop position nodes]
  rw [executeAll_append hb, List.drop_eq_getElem_cons hlt, executeAll_cons_failed hx]

/-! ## Which visits there are -/

theorem mem_visitsAll {keys : List String} {position : Nat} {nodes : List (Node Empty)} {s : State ω} {v : Visit ω} :
    v ∈ visitsAll watcher input keys position nodes s ↔
      ∃ place node t, nodes[place]? = some node ∧ executeAll watcher input (nodes.take place) s = (.done, t) ∧
        ∃ u ∈ node.visits watcher input t, v = u.under (position + place) keys := by
  induction nodes generalizing position s with
  | nil => simp [visitsAll]
  | cons node nodes ih =>
    have first : v ∈ (node.visits watcher input s).map (Visit.under position keys) ↔
        ∃ u ∈ node.visits watcher input s, v = u.under position keys := by
      simp only [List.mem_map, eq_comm]
    rw [visitsAll, List.mem_append, first]
    constructor
    · rintro (⟨u, hu, rfl⟩ | hv)
      · exact ⟨0, node, s, rfl, rfl, u, hu, rfl⟩
      · rcases hx : node.execute watcher input s with ⟨_ | f, t⟩
        · rw [hx] at hv
          obtain ⟨place, other, r, hp, hb, u, hu, rfl⟩ := ih.1 hv
          refine ⟨place + 1, other, r, hp, ?_, u, hu, ?_⟩
          · rw [List.take_succ_cons, executeAll_cons_done hx, hb]
          · rw [Nat.add_assoc, Nat.add_comm 1]
        · rw [hx] at hv
          cases hv
    · rintro ⟨place, other, r, hp, hb, u, hu, rfl⟩
      cases place with
      | zero =>
        cases hp
        cases hb
        exact .inl ⟨u, hu, rfl⟩
      | succ place =>
        rcases hx : node.execute watcher input s with ⟨_ | f, t⟩
        · rw [List.take_succ_cons, executeAll_cons_done hx] at hb
          exact .inr (ih.2 ⟨place, other, r, hp, hb, u, hu, by rw [Nat.add_assoc, Nat.add_comm 1]⟩)
        · rw [List.take_succ_cons, executeAll_cons_failed hx] at hb
          cases hb

/-- A visit is of the node itself, or lies in a child that the run comes to. -/
theorem mem_visits {node : Node Empty} {s : State ω} {v : Visit ω} :
    v ∈ node.visits watcher input s ↔ v = ⟨[], [], node, s⟩ ∨
      ∃ position keys child t, ComesTo watcher input node s position keys child t ∧
        ∃ u ∈ child.visits watcher input t, v = u.under position keys := by
  cases node with
  | custom label kind children => exact kind.elim
  | step label action =>
    rw [visits, List.mem_singleton]
    refine ⟨.inl, fun h => h.elim id ?_⟩
    rintro ⟨_, _, _, _, hc, -⟩
    cases hc
  | scope label around children =>
    rw [visits, List.mem_cons]
    refine or_congr_right ⟨fun hv => ?_, ?_⟩
    · split at hv
      · cases hv
      · rename_i t he
        obtain ⟨place, node, r, hp, hb, u, hu, rfl⟩ := mem_visitsAll.1 hv
        exact ⟨place, _, node, r, .child he hp hb, u, hu, by rw [Nat.zero_add]⟩
    · rintro ⟨_, _, _, _, hc, u, hu, rfl⟩
      cases hc with
      | child he hp hb =>
        rw [he]
        exact mem_visitsAll.2 ⟨_, _, _, hp, hb, u, hu, by rw [Nat.zero_add]⟩

theorem self_mem_visits (node : Node Empty) (s : State ω) : ⟨[], [], node, s⟩ ∈ node.visits watcher input s :=
  mem_visits.2 (.inl rfl)

namespace ComesTo

variable {node child : Node Empty} {s t : State ω} {position : Nat} {keys : List String}

theorem children_getElem? (h : ComesTo watcher input node s position keys child t) : node.children[position]? = some child := by
  cases h with
  | child _ there _ => exact there

theorem mem_children (h : ComesTo watcher input node s position keys child t) : child ∈ node.children :=
  List.mem_of_getElem? h.children_getElem?

/-- At one position a run comes to one child, in one state. -/
theorem eq_of_position {child' : Node Empty} {t' : State ω} {keys' : List String}
    (h : ComesTo watcher input node s position keys child t)
    (h' : ComesTo watcher input node s position keys' child' t') : keys = keys' ∧ child = child' ∧ t = t' := by
  cases h with
  | child begins there before =>
    cases h' with
    | child begins' there' before' =>
      cases begins.symm.trans begins'
      cases there.symm.trans there'
      cases before.symm.trans before'
      exact ⟨rfl, rfl, rfl⟩

end ComesTo

end Node

end CacheScript
