/-
The document of a run. A run works at one position of the document and hands
its children a position inside; seen from outside, every `obj` and every
`output` that it comes to makes one write to the whole document, and the
document after the run is the one before it with these writes made in order.
-/
import CacheScript.Proofs.Json.Writes
import CacheScript.Proofs.Run.Visits
import CacheScript.Script

namespace CacheScript

variable {ω : Type}

/-- What an `output` writes: what is bound to its reference, or its filled
value when it has no reference. -/
def Context.outputOf (c : Context) (value reference : String) : Json :=
  if reference = "" then .str (c.interpolate value)
  else ((c.binding? reference).map Value.toJson).getD .null

namespace Visit

/-- The key that a visited `obj` computes. -/
def key? (v : Visit ω) : Option String :=
  match v.node with
  | .scope _ (.object tag) _ => some (v.state.context.interpolate tag)
  | _ => none

/-- The write that a visited node makes. -/
def write? (v : Visit ω) : Option Write :=
  match v.node with
  | .step _ (.output id value reference) => some ⟨v.keys, id, .value (v.state.context.outputOf value reference)⟩
  | .scope _ (.object tag) _ => some ⟨v.keys, v.state.context.interpolate tag, .object⟩
  | _ => none

theorem write?_under (position : Nat) (keys : List String) (v : Visit ω) :
    (v.under position keys).write? = v.write?.map (Write.under keys) := by
  obtain ⟨path, place, node, s⟩ := v
  cases node with
  | step label action => cases action <;> rfl
  | scope label around children => cases around <;> rfl
  | custom label kind children => exact kind.elim

end Visit

namespace Node

section

variable (watcher : Option (Watcher ω)) (input : Json)

/-- The writes of a run, in order. -/
def writes (node : Node Empty) (s : State ω) : List Write :=
  (node.visits watcher input s).filterMap Visit.write?

/-- The writes of a run of several nodes, in order. -/
def writesAll : List (Node Empty) → State ω → List Write
  | [], _ => []
  | node :: nodes, s =>
    node.writes watcher input s ++
      match node.execute watcher input s with
      | (.done, t) => writesAll nodes t
      | (.failed _, _) => []

/-- What a run does to the document. -/
structure ReplaysWrites (root : Node Empty) (s : State ω) : Prop where
  replay : (root.execute watcher input s).2.document = replay (root.writes watcher input s) s.document
  /-- Nothing else in the document changes. -/
  elsewhere : ∀ path, (∀ w ∈ root.writes watcher input s, ¬ w.Touches path) →
    Json.at? path (.obj (root.execute watcher input s).2.document) = Json.at? path (.obj s.document)
  /-- What lies in an `obj` writes inside the child object that this enters. -/
  inside : ∀ v ∈ root.visits watcher input s, ∀ key, v.key? = some key →
    ∀ u ∈ root.visits watcher input s, v.path <+: u.path → u.path ≠ v.path → v.keys ++ [key] <+: u.keys

end

variable {watcher : Option (Watcher ω)} {input : Json}

/-! ## The writes of scopes and of lists -/

theorem filterMap_visitsAll (keys : List String) (position : Nat) (nodes : List (Node Empty)) (s : State ω) :
    (visitsAll watcher input keys position nodes s).filterMap Visit.write? =
      (writesAll watcher input nodes s).map (Write.under keys) := by
  induction nodes generalizing position s with
  | nil => rfl
  | cons node nodes ih =>
    have first : ((node.visits watcher input s).map (Visit.under position keys)).filterMap Visit.write? =
        (node.writes watcher input s).map (Write.under keys) := by
      rw [List.filterMap_map, writes, List.map_filterMap]
      exact congrArg (List.filterMap · _) (funext fun v => Visit.write?_under position keys v)
    rw [visitsAll, writesAll, List.filterMap_append, List.map_append, first]
    rcases node.execute watcher input s with ⟨_ | f, t⟩
    · rw [ih]
    · rfl

/-- A scope that runs its children makes its own write and those of the
children, seen from outside. -/
theorem writes_scope_ok {label : Label} {around : Scope} {children : List (Node Empty)} {s t : State ω}
    (h : around.enter (s.tell watcher (·.onStart label)) = .ok t) :
    (scope label around children).writes watcher input s =
      (⟨[], [], scope label around children, s⟩ : Visit ω).write?.toList ++
        (writesAll watcher input children t).map (Write.under (around.keys s)) := by
  rw [writes, visits, h, ← filterMap_visitsAll _ 0, List.filterMap_cons]
  cases (⟨[], [], scope label around children, s⟩ : Visit ω).write? <;> rfl

theorem writes_scope_error {label : Label} {around : Scope} {children : List (Node Empty)} {s : State ω}
    {ended : Outcome × State ω} (h : around.enter (s.tell watcher (·.onStart label)) = .error ended) :
    (scope label around children).writes watcher input s = [] := by
  rw [writes, visits, h]
  cases around with
  | object tag => cases h
  | _ => rfl

/-! ## The document after a run -/

/-- A step writes at its own position, whatever a watcher was told before. -/
theorem perform_document (label : Label) (action : Step) {s t : State ω} (hc : t.context = s.context)
    (hd : t.document = s.document) :
    (action.perform watcher t).2.document =
      replay ((⟨[], [], step label action, s⟩ : Visit ω).write?.toList) s.document := by
  cases action with
  | cacheGet cid field id default =>
    simp only [Step.perform]
    split <;> exact hd
  | log message level =>
    simp only [Step.perform, State.document_tell, State.document_logAll]
    exact hd
  | output id value reference =>
    simp only [Step.perform, State.write, hc, hd]
    rfl
  | set id value => exact hd
  | throw code message => exact hd

/-- What a scope makes of the document after its children: they wrote where
the scope put them. -/
theorem leave_document {label : Label} {around : Scope} {children : List (Node Empty)} {s t u v : State ω}
    {ws : List Write} (hc : t.context = s.context) (hd : t.document = s.document)
    (h : around.enter t = .ok u) (hv : v.document = replay ws u.document) :
    (around.leave t v).document =
      replay ((⟨[], [], scope label around children, s⟩ : Visit ω).write?.toList ++
        ws.map (Write.under (around.keys s))) s.document := by
  have same : ws.map (Write.under []) = ws := List.map_id'' (fun _ => rfl) ws
  rcases Scope.enter_eq_ok h with ⟨rfl, rfl⟩ | ⟨tag, rfl, rfl⟩ | ⟨cid, value, r, hb, rfl, hr⟩
  · simp only [Scope.leave, Visit.write?, Scope.keys, Option.toList_none, List.nil_append, same, hv, hd]
  · simp only [Scope.leave, Visit.write?, Scope.keys, Option.toList_some, replay_append, hv, hc, hd]
    exact (replay_under _ _ _ _).symm
  · have hr : r.document = s.document := by
      rcases hr with rfl | ⟨store, key, rfl⟩
      · exact hd
      · exact hd
    cases around <;> cases hb <;>
      simp only [Scope.leave, State.document_unbind, Visit.write?, Scope.keys, Option.toList_none, List.nil_append,
        same, hv, State.document_bind, hr]

theorem enter_error_document {around : Scope} {s t : State ω} {outcome : Outcome}
    (h : around.enter s = .error (outcome, t)) : t.document = s.document := by
  rcases Scope.enter_eq_error h with ⟨_, -, rfl | ⟨store, key, hl⟩⟩ | ⟨-, level, text, rfl⟩
  · rfl
  · exact (congrArg (·.2.document) hl).symm
  · rfl

mutual
/-- The document after a run is the one before it with the writes made. -/
theorem execute_document : ∀ (node : Node Empty) (s : State ω),
    (node.execute watcher input s).2.document = replay (node.writes watcher input s) s.document
  | step label action, s => by
    rw [execute, watched]
    simp only [State.document_tell]
    rw [perform_document label action (State.context_tell _ _ _) (State.document_tell _ _ _), writes, visits,
      List.filterMap_cons]
    cases (⟨[], [], step label action, s⟩ : Visit ω).write? <;> rfl
  | scope label around children, s => by
    cases he : around.enter (s.tell watcher (·.onStart label)) with
    | error ended =>
      obtain ⟨outcome, t⟩ := ended
      rw [execute_scope_error he, writes_scope_error he]
      simp only [State.document_tell, enter_error_document he]
      rfl
    | ok t =>
      rw [execute_scope_ok he, writes_scope_ok he, State.document_tell]
      exact leave_document (State.context_tell _ _ _) (State.document_tell _ _ _) he (executeAll_document children t)

theorem executeAll_document : ∀ (nodes : List (Node Empty)) (s : State ω),
    (executeAll watcher input nodes s).2.document = replay (writesAll watcher input nodes s) s.document
  | [], s => rfl
  | node :: nodes, s => by
    have hn := execute_document node s
    rcases hx : node.execute watcher input s with ⟨_ | f, t⟩
    · rw [hx] at hn
      rw [executeAll_cons_done hx, executeAll_document nodes t, writesAll, hx, replay_append, ← hn]
    · rw [hx] at hn
      rw [executeAll_cons_failed hx, writesAll, hx, List.append_nil]
      exact hn
end

/-! ## Where a run writes -/

/-- Inside an `obj` a run writes inside the child object that this enters. -/
theorem keys_of_inside (node : Node Empty) : ∀ {s : State ω} {u v : Visit ω} {key : String},
    v ∈ node.visits watcher input s → v.key? = some key → u ∈ node.visits watcher input s → v.path <+: u.path →
      u.path ≠ v.path → v.keys ++ [key] <+: u.keys := by
  induction node using byChildren with
  | h node ih =>
    intro s u v key hv hk hu hp hne
    rcases mem_visits.1 hu with rfl | ⟨position, keys, child, t, hc, u, hu', rfl⟩
    · exact absurd (List.prefix_nil.1 hp).symm hne
    rcases mem_visits.1 hv with rfl | ⟨position', keys', child', t', hc', v, hv', rfl⟩
    · cases hc with
      | @child label around children _ _ _ _ _ begins there before =>
        cases around <;> cases hk
        exact List.prefix_append _ _
    · obtain ⟨rfl, hp'⟩ := List.cons_prefix_cons.1 hp
      obtain ⟨rfl, rfl, rfl⟩ := hc.eq_of_position hc'
      have hin := ih child hc.mem_children hv' hk hu' hp' fun he => hne (by simp only [Visit.under, he])
      simp only [Visit.under, List.append_assoc]
      exact (List.prefix_append_right_inj _).2 hin

theorem replaysWrites (root : Node Empty) (s : State ω) : root.ReplaysWrites watcher input s where
  replay := execute_document root s
  elsewhere path h := by rw [execute_document, at?_replay h]
  inside v hv key hk u hu := keys_of_inside root hv hk hu

end Node

/-- **A run replays its writes**, and a script gives the document that they
make of an empty one, or the failure alone. -/
theorem Script.execute_replaysWrites (script : Script Empty) (watcher : Option (Watcher ω)) (input : Json) :
    (∀ s : State ω, script.root.ReplaysWrites watcher input s) ∧
      ∀ context (memory : ω), (script.execute watcher input context memory).result =
        match (script.root.execute watcher input (start context memory)).1 with
        | .done => .ok (replay (script.root.writes watcher input (start context memory)) [])
        | .failed f => .error f := by
  refine ⟨fun s => script.root.replaysWrites s, fun context memory => ?_⟩
  have hd : (script.root.execute watcher input (start context memory)).2.document =
      replay (script.root.writes watcher input (start context memory)) [] :=
    Node.execute_document script.root (start context memory)
  rw [execute]
  rcases hx : script.root.execute watcher input (start context memory) with ⟨_ | f, t⟩
  · rw [hx] at hd
    exact congrArg Except.ok ((State.document_tell _ _ _).trans hd)
  · rfl

end CacheScript
