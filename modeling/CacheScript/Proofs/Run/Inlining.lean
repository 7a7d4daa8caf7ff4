/-
Segments can be inlined. A segment has nothing in place while its children run,
so the nodes inside it may stand where it stands, whatever is around them and
wherever one of them fails (`execute_spliced`).

Nobody but a watcher sees the labels of nodes. A tree that runs without one may
therefore be labelled anew, as it has to be when nodes move to another place.
-/
import CacheScript.Proofs.Run.Stopping
import CacheScript.Script

namespace CacheScript

variable {ω κ : Type}

namespace Node

/-- The node with other nodes inside. A step has none. -/
def withChildren (nodes : List (Node κ)) : Node κ → Node κ
  | step label action => step label action
  | scope label around _ => scope label around nodes
  | custom label kind _ => custom label kind nodes

/-- What becomes of a tree when the nodes inside the node at a place take the
place of that node. -/
def spliced : List Nat → Node κ → List (Node κ)
  | [], node => node.children
  | position :: path, node =>
    [node.withChildren (node.children.take position ++ (node.children[position]?.map (spliced path)).getD [] ++
      node.children.drop (position + 1))]

mutual
/-- The tree with all labels left blank. -/
def unlabelled : Node κ → Node κ
  | step _ action => step ⟨[], "", none⟩ action
  | scope _ around children => scope ⟨[], "", none⟩ around (unlabelledAll children)
  | custom _ kind children => custom ⟨[], "", none⟩ kind (unlabelledAll children)

/-- Trees with all labels left blank. -/
def unlabelledAll : List (Node κ) → List (Node κ)
  | [] => []
  | node :: nodes => node.unlabelled :: unlabelledAll nodes
end

/-- Without a watcher one tree does what another does, from every state. The
states are compared as a whole: bindings, stores with the calls of their loaders,
document and log. -/
structure RunsAs (tree other : Node Empty) : Prop where
  execute : ∀ {ω : Type} (input : Json) (s : State ω), tree.execute none input s = other.execute none input s
  script : ∀ {ω : Type} (input : Json) (context : Context) (memory : ω),
    (Script.mk tree).execute none input context memory = (Script.mk other).execute none input context memory

theorem runsAs_of_execute {tree other : Node Empty}
    (h : ∀ {ω : Type} (input : Json) (s : State ω), tree.execute none input s = other.execute none input s) :
    RunsAs tree other where
  execute := h
  script input context memory := by simp only [Script.execute, h]

/-! ## Labels -/

theorem watched_none (label : Label) (body : State ω → Outcome × State ω) (s : State ω) :
    watched none label body s = body s := rfl

mutual
/-- Without a watcher labels are not looked at. -/
theorem execute_unlabelled (input : Json) : ∀ (node : Node Empty) (s : State ω),
    node.unlabelled.execute none input s = node.execute none input s
  | step label action, s => rfl
  | scope label around children, s => by
    have hall : executeAll none input (unlabelledAll children) = executeAll (ω := ω) none input children :=
      funext (executeAll_unlabelled input children)
    simp only [unlabelled, execute, watched_none, hall]

theorem executeAll_unlabelled (input : Json) : ∀ (nodes : List (Node Empty)) (s : State ω),
    executeAll none input (unlabelledAll nodes) s = executeAll none input nodes s
  | [], s => rfl
  | node :: nodes, s => by
    rw [unlabelledAll, executeAll, executeAll, execute_unlabelled input node s]
    split
    · exact executeAll_unlabelled input nodes _
    · rfl
end

/-! ## Nodes in a row -/

section

variable {watcher : Option (Watcher ω)} {input : Json}

/-- Of two rows of nodes the second runs if the first comes to its end. -/
theorem executeAll_append_eq (nodes others : List (Node Empty)) (s : State ω) :
    executeAll watcher input (nodes ++ others) s =
      match executeAll watcher input nodes s with
      | (.done, t) => executeAll watcher input others t
      | (.failed f, t) => (.failed f, t) := by
  rcases hx : executeAll watcher input nodes s with ⟨_ | f, t⟩
  · exact executeAll_append hx
  · obtain ⟨position, node, u, hp, hb, hf⟩ := executeAll_failed hx
    have hlt : position < nodes.length := (List.getElem?_eq_some_iff.1 hp).1
    refine executeAll_of_failed ((List.getElem?_append_left hlt).trans hp) ?_ hf
    rw [List.take_append_of_le_length (Nat.le_of_lt hlt), hb]

/-- Rows that run alike may stand for each other between any nodes. -/
theorem executeAll_between {nodes nodes' : List (Node Empty)}
    (h : ∀ s, executeAll watcher input nodes s = executeAll watcher input nodes' s)
    (before after : List (Node Empty)) (s : State ω) :
    executeAll watcher input (before ++ nodes ++ after) s = executeAll watcher input (before ++ nodes' ++ after) s := by
  simp only [executeAll_append_eq, h]

theorem execute_withChildren {nodes : List (Node Empty)} {node : Node Empty}
    (h : ∀ s, executeAll watcher input nodes s = executeAll watcher input node.children s) (s : State ω) :
    (node.withChildren nodes).execute watcher input s = node.execute watcher input s := by
  cases node with
  | step label action => rfl
  | custom label kind children => exact kind.elim
  | scope label around children =>
    have hall : executeAll watcher input nodes = executeAll watcher input children := funext h
    simp only [withChildren, execute, hall]

end

/-! ## Segments -/

/-- A tree runs as what is left of it when a segment is taken out from around
its children. -/
theorem executeAll_spliced (input : Json) {label : Label} {children : List (Node Empty)} :
    ∀ {path : List Nat} {root : Node Empty}, root.at? path = some (scope label .segment children) →
      ∀ s : State ω, executeAll none input (root.spliced path) s = root.execute none input s
  | [], root, h, s => by
    cases h
    rfl
  | position :: path, root, h, s => by
    obtain ⟨child, hchild, hinside⟩ := Option.bind_eq_some_iff.1 h
    have hrow (t : State ω) : executeAll none input (child.spliced path) t = executeAll none input [child] t := by
      rw [executeAll_singleton, executeAll_spliced input hinside]
    obtain ⟨hlt, rfl⟩ := List.getElem?_eq_some_iff.1 hchild
    rw [spliced, executeAll_singleton]
    refine execute_withChildren (fun t => ?_) s
    rw [hchild, Option.map_some, Option.getD_some, executeAll_between hrow, List.append_assoc, List.singleton_append,
      List.getElem_cons_drop, List.take_append_drop]

/-- **A segment can be inlined**: the tree that is left, however it is labelled,
runs as the tree with the segment. The segment is any node of that kind below
the root, or the root itself when there is one node in it. -/
theorem execute_spliced {root : Node Empty} {path : List Nat} {label : Label} {children : List (Node Empty)}
    (h : root.at? path = some (scope label .segment children)) (hroot : path = [] → ∃ child, children = [child]) :
    ∃ tree, root.spliced path = [tree] ∧
      ∀ other : Node Empty, other.unlabelled = tree.unlabelled → other.RunsAs root := by
  obtain ⟨tree, htree⟩ : ∃ tree, root.spliced path = [tree] := by
    cases path with
    | cons position path => exact ⟨_, rfl⟩
    | nil =>
      obtain ⟨child, rfl⟩ := hroot rfl
      cases h
      exact ⟨child, rfl⟩
  refine ⟨tree, htree, fun other hother => runsAs_of_execute fun input s => ?_⟩
  rw [← execute_unlabelled input other, hother, execute_unlabelled, ← executeAll_singleton, ← htree,
    executeAll_spliced input h]

/-- A segment that gives up half way, in the scope of a store and before a node
that is then not run. -/
def halfWayInside : Node Empty :=
  .scope ⟨[], "cache", none⟩ (.cache "users" "$cache")
    [.step ⟨[0], "set", some []⟩ (.set "uid" "7"),
      .scope ⟨[1], "segment", some []⟩ .segment
        [.step ⟨[0, 1], "output", some [1]⟩ (.output "uid" "${uid}" ""),
          .step ⟨[1, 1], "throw", some [1]⟩ (.throw "enough" "")],
      .step ⟨[2], "output", some []⟩ (.output "late" "" "")]

/-- The same without the segment, and with the labels that its nodes then have. -/
def halfWay : Node Empty :=
  .scope ⟨[], "cache", none⟩ (.cache "users" "$cache")
    [.step ⟨[0], "set", some []⟩ (.set "uid" "7"),
      .step ⟨[1], "output", some []⟩ (.output "uid" "${uid}" ""),
      .step ⟨[2], "throw", some []⟩ (.throw "enough" ""),
      .step ⟨[3], "output", some []⟩ (.output "late" "" "")]

theorem halfWay_runsAs :
    (∃ label children, halfWayInside.at? [1] = some (.scope label .segment children)) ∧ RunsAs halfWay halfWayInside ∧
      RunsAs halfWay (.scope ⟨[], "segment", none⟩ .segment [halfWay]) := by
  refine ⟨⟨_, _, rfl⟩, ?_, ?_⟩
  · obtain ⟨tree, htree, h⟩ := execute_spliced (show halfWayInside.at? [1] = some (.scope _ .segment _) from rfl) nofun
    cases htree
    exact h halfWay rfl
  · have hroot : (scope ⟨[], "segment", none⟩ .segment [halfWay]).at? [] =
        some (.scope ⟨[], "segment", none⟩ .segment [halfWay]) := rfl
    obtain ⟨tree, htree, h⟩ := execute_spliced hroot fun _ => ⟨_, rfl⟩
    cases htree
    exact h halfWay rfl

end Node

end CacheScript
