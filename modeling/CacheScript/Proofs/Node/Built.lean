/-
Built trees. Building gives every node its place in the tree as its id and the
node around it as its parent (`buildAt_stands`), so the nodes of a built tree
are told apart by their ids (`Stands.nodup`). Only the tag `log` makes nodes
that log.
-/
import CacheScript.Node.Build
import CacheScript.Proofs.Node.Places
import Mathlib.Data.List.Nodup

namespace CacheScript

namespace Node

variable {κ : Type}

/-- The labels of the nodes of a tree, parents before children and children in
order. -/
def labels (node : Node κ) : List Label := (node.places []).map (·.2.label)

theorem map_placesAll (around : List Scope) (nodes : List (Node κ)) :
    (placesAll around nodes).map (·.2.label) = nodes.flatMap labels := by
  induction nodes with
  | nil => rfl
  | cons node nodes ih =>
    have h := congrArg (List.map label) (map_places around node)
    rw [List.map_map, List.map_map] at h
    rw [placesAll, List.map_append, ih, List.flatMap_cons]
    exact congrArg (· ++ nodes.flatMap labels) h

theorem labels_eq (node : Node κ) : node.labels = node.label :: node.children.flatMap labels := by
  cases node with
  | step label action => rfl
  | scope label around children => exact congrArg (label :: ·) (map_placesAll [around] children)
  | custom label kind children => exact congrArg (label :: ·) (map_placesAll [] children)

/-- The node stands at a place inside a parent, and what is inside it stands
where its own place says. -/
inductive Stands : Node κ → NodeId → Option NodeId → Prop
  | mk {id : NodeId} {parent : Option NodeId} {node : Node κ} (id_eq : node.label.id = id)
      (parent_eq : node.label.parent = parent)
      (logs : ∀ label message level, node = step label (.log message level) → label.tag = "log")
      (inside : ∀ (position : Nat) child, node.children[position]? = some child →
        Stands child (position :: id) (some id)) : Stands node id parent

namespace Stands

variable {id : NodeId} {parent : Option NodeId} {node : Node κ}

theorem id_eq (h : node.Stands id parent) : node.label.id = id := by
  cases h; assumption

theorem parent_eq (h : node.Stands id parent) : node.label.parent = parent := by
  cases h; assumption

theorem logs {label : Label} {message : String} {level : Log.Level}
    (h : (step label (.log message level) : Node κ).Stands id parent) : label.tag = "log" := by
  cases h with
  | mk _ _ logs _ => exact logs label message level rfl

theorem inside (h : node.Stands id parent) {position : Nat} {child : Node κ}
    (hc : node.children[position]? = some child) : child.Stands (position :: id) (some id) := by
  cases h with
  | mk _ _ _ inside => exact inside position child hc

theorem child (h : node.Stands id parent) {child : Node κ} (hc : child ∈ node.children) :
    ∃ position : Nat, child.Stands (position :: id) (some id) := by
  obtain ⟨position, hp⟩ := List.mem_iff_getElem?.1 hc
  exact ⟨position, h.inside hp⟩

/-- The way to a node goes on to the nodes inside it. -/
theorem suffix (node : Node κ) : ∀ {id : NodeId} {parent : Option NodeId}, node.Stands id parent →
    ∀ label ∈ node.labels, id <:+ label.id := by
  induction node using byChildren with
  | h node ih =>
    intro id parent h label hl
    rw [labels_eq, List.mem_cons, List.mem_flatMap] at hl
    rcases hl with rfl | ⟨child, hc, hl⟩
    · exact h.id_eq ▸ List.suffix_rfl
    · obtain ⟨position, hp⟩ := h.child hc
      exact (List.suffix_cons position id).trans (ih child hc hp label hl)

/-- No two nodes of a tree stand at one place. -/
theorem nodup (node : Node κ) : ∀ {id : NodeId} {parent : Option NodeId}, node.Stands id parent →
    (node.labels.map (·.id)).Nodup := by
  induction node using byChildren with
  | h node ih =>
    intro id parent h
    rw [labels_eq, List.map_cons, List.map_flatMap, List.nodup_cons, List.nodup_flatMap]
    refine ⟨fun hm => ?_, fun child hc => ?_, ?_⟩
    · obtain ⟨child, hc, hm⟩ := List.mem_flatMap.1 hm
      obtain ⟨label, hl, he⟩ := List.mem_map.1 hm
      obtain ⟨position, hp⟩ := h.child hc
      have hs := (suffix child hp label hl).length_le
      rw [he, h.id_eq, List.length_cons] at hs
      omega
    · obtain ⟨position, hp⟩ := h.child hc
      exact ih child hc hp
    · -- Ids in two children end in the ids of these, which differ in their first position.
      rw [List.pairwise_iff_getElem]
      intro i j hi hj hij place hpi hpj
      obtain ⟨label, hl, rfl⟩ := List.mem_map.1 hpi
      obtain ⟨label', hl', he⟩ := List.mem_map.1 hpj
      have hsi := suffix _ (h.inside (List.getElem?_eq_getElem hi)) label hl
      have hsj := suffix _ (h.inside (List.getElem?_eq_getElem hj)) label' hl'
      rw [he] at hsj
      have hs : i :: id <:+ j :: id := List.suffix_of_suffix_length_le hsi hsj (Nat.le_refl _)
      have heq := hs.eq_of_length rfl
      simp only [List.cons.injEq, and_true] at heq
      exact absurd heq (Nat.ne_of_lt hij)

end Stands

end Node

namespace Catalog

variable {κ : Type}

theorem bind_eq_ok {α β : Type} {x : Except BuildFailure α} {f : α → Except BuildFailure β} {b : β}
    (h : (x >>= f) = .ok b) : ∃ a, x = .ok a ∧ f a = .ok b := by
  cases x with
  | error e => cases h
  | ok a => exact ⟨a, rfl, h⟩

theorem tag_of_ofTag? {tag : String} {kind : Kind} (h : Kind.ofTag? tag = some kind) : kind.tag = tag := by
  have := List.find?_some h
  simpa using this

/-- Only the tag `log` configures a node that logs. -/
theorem tag_of_configure_log (c : Catalog κ) {tag : String} {p : Properties} {message : String} {level : Log.Level}
    (h : c.configure tag p = .ok (.step (.log message level))) : tag = "log" := by
  unfold configure at h
  split at h
  · obtain ⟨_, _, h⟩ := bind_eq_ok h
    cases h
  · split at h
    · cases h
    · rename_i kind hk
      obtain ⟨role, hr, h⟩ := bind_eq_ok h
      cases role with
      | scope around => cases h
      | step action =>
        cases h
        rw [← tag_of_ofTag? hk]
        cases kind with
        | log => rfl
        | _ =>
          first
          | cases hr
          | (obtain ⟨_, _, hr⟩ := bind_eq_ok hr; cases hr)

/-- A node of a shape stands where it is put when its children do. -/
theorem stands_node (c : Catalog κ) {id : NodeId} {parent : Option NodeId} {tag : String} {p : Properties}
    {shape : Shape κ} (h : c.configure tag p = .ok shape) {children : List (Node κ)}
    (hc : ∀ (position : Nat) child, children[position]? = some child → child.Stands (position :: id) (some id)) :
    (shape.node ⟨id, tag, parent⟩ children).Stands id parent := by
  cases shape with
  | step action =>
    refine ⟨rfl, rfl, fun label message level he => ?_, fun position child hp => nomatch hp⟩
    cases he
    exact c.tag_of_configure_log h
  | scope around => exact ⟨rfl, rfl, (fun _ _ _ he => nomatch he), hc⟩
  | custom kind takes => exact ⟨rfl, rfl, (fun _ _ _ he => nomatch he), hc⟩

mutual
/-- A node is built to stand where it is meant to. -/
theorem buildAt_stands (c : Catalog κ) : ∀ (d : Definition) {id : NodeId} {parent : Option NodeId} {node : Node κ},
    c.buildAt id parent d = .ok node → node.Stands id parent
  | ⟨tag, props, children⟩, id, parent, node, h => by
    rw [buildAt] at h
    obtain ⟨shape, hs, h⟩ := bind_eq_ok h
    split at h
    · cases h
    · obtain ⟨nodes, hn, h⟩ := bind_eq_ok h
      cases h
      refine c.stands_node hs fun position child hp => ?_
      simpa using c.buildAll_stands children hn hp

theorem buildAll_stands (c : Catalog κ) : ∀ (ds : List Definition) {parent : NodeId} {first : Nat}
    {nodes : List (Node κ)}, c.buildAll parent first ds = .ok nodes → ∀ {position : Nat} {child : Node κ},
      nodes[position]? = some child → child.Stands ((first + position) :: parent) (some parent)
  | [], _, _, nodes, h, position, child, hp => by
    rw [buildAll] at h
    cases h
    cases hp
  | d :: ds, parent, first, nodes, h, position, child, hp => by
    rw [buildAll] at h
    obtain ⟨node, hd, h⟩ := bind_eq_ok h
    obtain ⟨others, ho, h⟩ := bind_eq_ok h
    cases h
    cases position with
    | zero =>
      cases hp
      exact c.buildAt_stands d hd
    | succ position =>
      have := c.buildAll_stands ds ho hp
      rwa [Nat.add_right_comm] at this
end

end Catalog

end CacheScript
