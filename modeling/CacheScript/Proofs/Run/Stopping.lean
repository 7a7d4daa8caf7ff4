/-
A failure is a clean stop. A run that fails does so at one node, which failed
while its children did not; what the run leaves behind is what a run of the
tree up to that node leaves behind, and that run succeeds. So the failing node
itself changes nothing, and a scope is left on a failure as it is otherwise.
-/
import CacheScript.Proofs.Run.Visits

namespace CacheScript

variable {ω κ : Type}

/-- A store without the record of the calls that its loader got. -/
def Store.uncalled {α : Type} (s : Store α) : Store α :=
  { s with calls := [] }

/-- Two states that hold the same: the same under every name, the same entries
in every store, as many of them made, and the same document. A loader that was
asked in vain can tell such states apart. -/
structure HoldsAlike (s t : State ω) : Prop where
  bindings : ∀ name, s.context.binding? name = t.context.binding? name
  stores : s.context.session.stores.map Store.uncalled = t.context.session.stores.map Store.uncalled
  document : s.document = t.document

/-- The part of a tree before the node at a place: what comes before it in
depth-first order, and all that it lies in. Before the root there is nothing. -/
def Node.upTo? : List Nat → Node κ → Option (Node κ)
  | [], _ => none
  | _ :: _, step label action => some (step label action)
  | position :: path, scope label around children =>
    some (scope label around (children.take position ++ (children[position]?.bind (upTo? path)).toList))
  | position :: path, custom label kind children =>
    some (custom label kind (children.take position ++ (children[position]?.bind (upTo? path)).toList))

/-- The node at a place of a tree. -/
def Node.at? : List Nat → Node κ → Option (Node κ)
  | [], node => some node
  | position :: path, node => node.children[position]?.bind (at? path)

/-- The visited node failed while none of its own children did. -/
structure Visit.FailsItself (watcher : Option (Watcher ω)) (input : Json) (v : Visit ω) : Prop where
  failed : ∃ f, v.outcome watcher input = .failed f
  children : ∀ u ∈ v.node.visits watcher input v.state, u.path.length = 1 → u.outcome watcher input = .done

/-- A run of a tree that stops at a visit stops there cleanly. -/
structure StopsCleanly (watcher : Option (Watcher ω)) (input : Json) (root : Node Empty) (s : State ω)
    (v : Visit ω) : Prop where
  place : root.at? v.path = some v.node
  /-- The run fails with the very failure of the node. -/
  failure : (root.execute watcher input s).1 = v.outcome watcher input
  atRoot : v.path = [] → HoldsAlike s (root.execute watcher input s).2
  before : v.path ≠ [] → ∃ tree, root.upTo? v.path = some tree ∧ (tree.execute watcher input s).1 = .done ∧
    HoldsAlike (tree.execute watcher input s).2 (root.execute watcher input s).2

/-! ## Stores that are looked at in vain -/

theorem Store.uncalled_load {α : Type} {s : Store α} {key : String} {create : Bool}
    (h : (s.load key create).found = none) : (s.load key create).store.uncalled = s.uncalled := by
  cases hv : s.entries.value? key with
  | some entry => simp [load, hv] at h
  | none =>
    by_cases hc : create ∧ s.policy = .createIfAbsent
    · simp only [load, hv, if_pos hc] at h ⊢
      cases ha : s.loader s.calls key with
      | found object => simp [materialize, ha] at h
      | absent => simp [materialize, ha, uncalled]
      | failed causes => simp [materialize, ha, uncalled]
    · simp only [load, hv, if_neg hc]

theorem Session.uncalled_load {s : Session} {store : StoreRef} {key : String} {create : Bool}
    (h : (s.load store key create).1 = none) :
    (s.load store key create).2.1.stores.map Store.uncalled = s.stores.map Store.uncalled := by
  unfold load at h ⊢
  cases hs : s.store? store with
  | none => rfl
  | some found =>
    simp only [hs, Option.map_eq_none_iff] at h
    simp only [List.map_set, Store.uncalled_load h]
    obtain ⟨hlt, rfl⟩ := List.getElem?_eq_some_iff.1 hs
    rw [← List.map_set, List.set_getElem_self]

namespace HoldsAlike

variable {s t u : State ω}

theorem refl (s : State ω) : HoldsAlike s s :=
  ⟨fun _ => rfl, rfl, rfl⟩

theorem symm (h : HoldsAlike s t) : HoldsAlike t s :=
  ⟨fun name => (h.bindings name).symm, h.stores.symm, h.document.symm⟩

theorem trans (h₁ : HoldsAlike s t) (h₂ : HoldsAlike t u) : HoldsAlike s u :=
  ⟨fun name => (h₁.bindings name).trans (h₂.bindings name), h₁.stores.trans h₂.stores,
    h₁.document.trans h₂.document⟩

/-- What a watcher is told changes nothing that is held. -/
theorem tell (s : State ω) (watcher : Option (Watcher ω)) (event : Watcher ω → ω → ω × List Log.Remark) :
    HoldsAlike s (s.tell watcher event) :=
  ⟨fun _ => by rw [State.context_tell], by rw [State.context_tell], by rw [State.document_tell]⟩

theorem unbind (name : String) (h : HoldsAlike s t) : HoldsAlike (s.unbind name) (t.unbind name) := by
  refine ⟨fun other => ?_, h.stores, h.document⟩
  simp only [State.unbind, Context.binding?_unbind, h.bindings other]

/-- A scope is left alike from states that hold the same. -/
theorem leave (before : State ω) (around : Scope) (h : HoldsAlike s t) :
    HoldsAlike (around.leave before s) (around.leave before t) := by
  cases around with
  | segment => exact h
  | cache id cid => exact h.unbind cid
  | locate id pid cid => exact h.unbind cid
  | object tag => exact ⟨h.bindings, h.stores, by simp only [Scope.leave, h.document]⟩

theorem of_load {store : StoreRef} {key : String} (h : s.load store key = (none, t)) : HoldsAlike s t := by
  have hs : (s.context.session.load store key true).1 = none := congrArg Prod.fst h
  have ht : (s.load store key).2 = t := congrArg Prod.snd h
  subst ht
  exact ⟨fun _ => rfl, (Session.uncalled_load hs).symm, rfl⟩

end HoldsAlike

/-- A step that fails changes nothing. -/
theorem Step.perform_failed {watcher : Option (Watcher ω)} {s : State ω} {action : Step} {f : Failure}
    (h : (action.perform watcher s).1 = .failed f) : (action.perform watcher s).2 = s := by
  cases action with
  | cacheGet cid field id default =>
    simp only [perform] at h ⊢
    split at h
    · rfl
    · cases h
  | throw code message => rfl
  | _ => cases h

/-- A scope that fails before its children changes nothing that is held. -/
theorem Scope.enter_failed {s t : State ω} {around : Scope} {f : Failure}
    (h : around.enter s = .error (.failed f, t)) : HoldsAlike s t := by
  rcases enter_eq_error h with ⟨_, _, rfl | ⟨store, key, hl⟩⟩ | ⟨hd, -⟩
  · exact .refl _
  · exact .of_load hl
  · cases hd

/-! ## A node and the children that it comes to -/

namespace Node

variable {watcher : Option (Watcher ω)} {input : Json}

/-- A node fails with a child, or by itself, and then it changes nothing that
is held. -/
theorem execute_failed {node : Node Empty} {s : State ω} {f : Failure}
    (h : (node.execute watcher input s).1 = .failed f) :
    HoldsAlike s (node.execute watcher input s).2 ∨
      ∃ position keys child t, ComesTo watcher input node s position keys child t ∧
        (child.execute watcher input t).1 = .failed f := by
  have told (label : Label) := HoldsAlike.tell s watcher (·.onStart label)
  cases node with
  | custom label kind children => exact kind.elim
  | step label action =>
    simp only [execute, watched] at h ⊢
    rw [Step.perform_failed h]
    exact .inl ((told label).trans (.tell _ _ _))
  | scope label around children =>
    cases he : around.enter (s.tell watcher (·.onStart label)) with
    | error ended =>
      obtain ⟨outcome, t⟩ := ended
      rw [execute_scope_error he] at h ⊢
      cases h
      exact .inl ((told label).trans ((Scope.enter_failed he).trans (.tell _ _ _)))
    | ok t =>
      rw [execute_scope_ok he] at h
      obtain ⟨position, child, u, hp, hb, hx⟩ := executeAll_failed (Prod.ext h rfl)
      exact .inr ⟨position, _, child, u, .child he hp hb, congrArg Prod.fst hx⟩

namespace ComesTo

variable {node child : Node Empty} {s t : State ω} {position : Nat} {keys : List String} {f : Failure}

/-- A node fails with each child that fails. -/
theorem failed (h : ComesTo watcher input node s position keys child t)
    (hf : (child.execute watcher input t).1 = .failed f) : (node.execute watcher input s).1 = .failed f := by
  cases h with
  | child begins there before =>
    rw [execute_scope_ok begins, executeAll_of_failed there before (Prod.ext hf rfl)]

/-- After a child that fails there is no other. -/
theorem not_lt {child' : Node Empty} {t' : State ω} {position' : Nat} {keys' : List String}
    (h : ComesTo watcher input node s position keys child t)
    (h' : ComesTo watcher input node s position' keys' child' t')
    (hf : (child.execute watcher input t).1 = .failed f) : ¬ position < position' := by
  intro hlt
  cases h with
  | @child _ _ children _ start _ _ _ begins there before =>
    cases h' with
    | child begins' there' before' =>
      cases begins.symm.trans begins'
      have there : (children.take position')[position]? = some child := by rwa [List.getElem?_take_of_lt hlt]
      have before : executeAll watcher input ((children.take position').take position) start = (.done, t) := by
        rwa [List.take_take, Nat.min_eq_left (Nat.le_of_lt hlt)]
      have hx := executeAll_of_failed there before (Prod.ext hf rfl)
      rw [before'] at hx
      cases hx

/-- Only one child fails. -/
theorem eq_of_failed {child' : Node Empty} {t' : State ω} {position' : Nat} {keys' : List String} {f' : Failure}
    (h : ComesTo watcher input node s position keys child t)
    (h' : ComesTo watcher input node s position' keys' child' t')
    (hf : (child.execute watcher input t).1 = .failed f) (hf' : (child'.execute watcher input t').1 = .failed f') :
    position = position' ∧ keys = keys' ∧ child = child' ∧ t = t' := by
  obtain rfl : position = position' :=
    Nat.le_antisymm (Nat.le_of_not_lt (h'.not_lt h hf')) (Nat.le_of_not_lt (h.not_lt h' hf))
  exact ⟨rfl, h.eq_of_position h'⟩

/-- What stands before a place in a failing child ends as that child does, so
with all that stands before the child it ends as the node does. -/
theorem upTo (h : ComesTo watcher input node s position keys child t)
    (hf : (child.execute watcher input t).1 = .failed f) {path : List Nat} {u : State ω}
    (hd : executeAll watcher input (child.upTo? path).toList t = (.done, u))
    (hu : HoldsAlike u (child.execute watcher input t).2) :
    ∃ tree, node.upTo? (position :: path) = some tree ∧ (tree.execute watcher input s).1 = .done ∧
      HoldsAlike (tree.execute watcher input s).2 (node.execute watcher input s).2 := by
  cases h with
  | @child label around children _ start _ _ _ begins there before =>
    refine ⟨_, rfl, ?_⟩
    have ha : executeAll watcher input (children.take position ++ (children[position]?.bind (upTo? path)).toList) start =
        (.done, u) := by
      rw [executeAll_append before, there]
      exact hd
    rw [execute_scope_ok begins, execute_scope_ok begins, ha, executeAll_of_failed there before (Prod.ext hf rfl)]
    refine ⟨rfl, (HoldsAlike.tell _ _ _).symm.trans (.trans ?_ (.tell _ _ _))⟩
    exact hu.leave _ around

end ComesTo

/-! ## Where a run fails -/

theorem exists_upTo (node : Node κ) {path : List Nat} (h : path ≠ []) : ∃ tree, node.upTo? path = some tree := by
  cases path with
  | nil => exact absurd rfl h
  | cons position path => cases node <;> exact ⟨_, rfl⟩

/-- Whatever visited node fails, the run fails with its failure. -/
theorem failed_of_visit (node : Node Empty) : ∀ {s : State ω} {v : Visit ω} {f : Failure},
    v ∈ node.visits watcher input s → v.outcome watcher input = .failed f →
      (node.execute watcher input s).1 = .failed f := by
  induction node using byChildren with
  | h node ih =>
    intro s v f hv hf
    rcases mem_visits.1 hv with rfl | ⟨position, keys, child, t, hc, u, hu, rfl⟩
    · exact hf
    · exact hc.failed (ih child hc.mem_children hu hf)

/-- A run that fails comes to a node that fails by itself. -/
theorem exists_failsItself (node : Node Empty) : ∀ {s : State ω} {f : Failure},
    (node.execute watcher input s).1 = .failed f →
      ∃ v ∈ node.visits watcher input s, v.FailsItself watcher input := by
  induction node using byChildren with
  | h node ih =>
    intro s f h
    by_cases hc : ∃ position keys child t g, ComesTo watcher input node s position keys child t ∧
        (child.execute watcher input t).1 = .failed g
    · obtain ⟨position, keys, child, t, g, hc, hf⟩ := hc
      obtain ⟨u, hu, hi⟩ := ih child hc.mem_children hf
      exact ⟨u.under position keys, mem_visits.2 (.inr ⟨_, _, _, _, hc, u, hu, rfl⟩), hi.failed, hi.children⟩
    · refine ⟨_, self_mem_visits node s, ⟨f, h⟩, fun u hu hl => ?_⟩
      rcases mem_visits.1 hu with rfl | ⟨position, keys, child, t, hct, w, hw, rfl⟩
      · cases hl
      · rcases mem_visits.1 hw with rfl | ⟨_, _, _, _, -, x, -, rfl⟩
        · cases ho : (child.execute watcher input t).1 with
          | done => exact ho
          | failed g => exact absurd ⟨_, _, _, _, g, hct, ho⟩ hc
        · simp [Visit.under] at hl

/-- A node that comes to a child that fails does not fail by itself. -/
theorem ComesTo.not_failsItself {node child : Node Empty} {s t : State ω} {position : Nat} {keys : List String}
    {f : Failure} (h : ComesTo watcher input node s position keys child t)
    (hf : (child.execute watcher input t).1 = .failed f) :
    ¬ (⟨[], [], node, s⟩ : Visit ω).FailsItself watcher input := by
  intro hi
  have hd := hi.children _ (mem_visits.2 (.inr ⟨_, _, _, _, h, _, self_mem_visits child t, rfl⟩)) rfl
  exact nomatch hf.symm.trans hd

/-- At most one visited node fails by itself. -/
theorem failsItself_unique (node : Node Empty) : ∀ {s : State ω} {u v : Visit ω},
    u ∈ node.visits watcher input s → v ∈ node.visits watcher input s → u.FailsItself watcher input →
      v.FailsItself watcher input → u = v := by
  induction node using byChildren with
  | h node ih =>
    intro s u v hu hv hfu hfv
    have inside {position keys child t w} (hc : ComesTo watcher input node s position keys child t)
        (hw : w ∈ child.visits watcher input t) (hf : w.FailsItself watcher input) :
        ∃ f, (child.execute watcher input t).1 = .failed f :=
      hf.failed.imp fun f => failed_of_visit child hw
    rcases mem_visits.1 hu with rfl | ⟨position, keys, child, t, hc, u, hu', rfl⟩
    · rcases mem_visits.1 hv with rfl | ⟨position, keys, child, t, hc, v, hv', rfl⟩
      · rfl
      · obtain ⟨f, hf⟩ := inside hc hv' ⟨hfv.failed, hfv.children⟩
        exact absurd hfu (hc.not_failsItself hf)
    · obtain ⟨f, hf⟩ := inside hc hu' ⟨hfu.failed, hfu.children⟩
      rcases mem_visits.1 hv with rfl | ⟨position', keys', child', t', hc', v, hv', rfl⟩
      · exact absurd hfv (hc.not_failsItself hf)
      · obtain ⟨f', hf'⟩ := inside hc' hv' ⟨hfv.failed, hfv.children⟩
        obtain ⟨rfl, rfl, rfl, rfl⟩ := hc.eq_of_failed hc' hf hf'
        rw [ih child hc.mem_children hu' hv' ⟨hfu.failed, hfu.children⟩ ⟨hfv.failed, hfv.children⟩]

/-- The path of a visit leads to its node. -/
theorem at?_of_visit (node : Node Empty) : ∀ {s : State ω} {v : Visit ω}, v ∈ node.visits watcher input s →
    node.at? v.path = some v.node := by
  induction node using byChildren with
  | h node ih =>
    intro s v hv
    rcases mem_visits.1 hv with rfl | ⟨position, keys, child, t, hc, u, hu, rfl⟩
    · rfl
    · simp only [Visit.under, at?, hc.children_getElem?, Option.bind_some]
      exact ih child hc.mem_children hu

/-- What stands before a node that fails by itself runs to its end, and leaves
what the failing run leaves. -/
theorem upTo_of_failsItself (node : Node Empty) : ∀ {s : State ω} {v : Visit ω}, v ∈ node.visits watcher input s →
    v.FailsItself watcher input →
      ∃ t, executeAll watcher input (node.upTo? v.path).toList s = (.done, t) ∧
        HoldsAlike t (node.execute watcher input s).2 := by
  induction node using byChildren with
  | h node ih =>
    intro s v hv hi
    rcases mem_visits.1 hv with rfl | ⟨position, keys, child, t, hc, u, hu, rfl⟩
    · obtain ⟨f, hf⟩ := hi.failed
      rcases execute_failed hf with h | ⟨position, keys, child, t, hc, hx⟩
      · exact ⟨s, rfl, h⟩
      · exact absurd hi (hc.not_failsItself hx)
    · obtain ⟨f, hf⟩ := hi.failed
      obtain ⟨r, hd, hr⟩ := ih child hc.mem_children hu ⟨hi.failed, hi.children⟩
      obtain ⟨tree, ht, hx, ha⟩ := hc.upTo (failed_of_visit child hu hf) hd hr
      refine ⟨_, ?_, ha⟩
      rw [Visit.under, ht]
      exact executeAll_cons_done (Prod.ext hx rfl)

/-- **A run that fails stops cleanly** at exactly one node. -/
theorem execute_stopsCleanly (root : Node Empty) {s : State ω} {f : Failure}
    (h : (root.execute watcher input s).1 = .failed f) :
    ∃ v ∈ root.visits watcher input s, v.FailsItself watcher input ∧
      (∀ u ∈ root.visits watcher input s, u.FailsItself watcher input → u = v) ∧
      StopsCleanly watcher input root s v := by
  obtain ⟨v, hv, hi⟩ := exists_failsItself root h
  obtain ⟨t, ht, ha⟩ := upTo_of_failsItself root hv hi
  obtain ⟨g, hg⟩ := hi.failed
  refine ⟨v, hv, hi, fun u hu hu' => failsItself_unique root hu hv hu' hi, at?_of_visit root hv,
    (failed_of_visit root hv hg).trans hg.symm, fun hp => ?_, fun hp => ?_⟩
  · rw [hp] at ht
    cases ht
    exact ha
  · obtain ⟨tree, hr⟩ := exists_upTo root hp
    rw [hr, Option.toList_some, executeAll_singleton] at ht
    exact ⟨tree, hr, by rw [ht], by rwa [ht]⟩

/-- A look-up in a store whose source has nothing, between nodes that are run
and some that are not. -/
def emptyShelf : Node Empty :=
  .scope ⟨[], "cache", none⟩ (.cache "users" "$cache")
    [.step ⟨[0], "set", some []⟩ (.set "uid" "7"),
      .scope ⟨[1], "segment", some []⟩ .segment
        [.scope ⟨[0, 1], "cache-locate", some [1]⟩ (.locate "${uid}" "$cache" "$cache-object")
          [.step ⟨[0, 0, 1], "throw", some [0, 1]⟩ (.throw "late" "")]],
      .step ⟨[2], "set", some []⟩ (.set "uid" "8")]

/-- A state with one store, whose source has nothing. -/
def shelfState : State Unit :=
  ⟨⟨⟨[Store.empty "users" .createIfAbsent fun _ _ => .absent]⟩, [("$cache", .str "before")]⟩, [], [], [], ()⟩

theorem emptyShelf_stopsCleanly :
    (emptyShelf.execute none .null shelfState).1 = .failed (.objectNotFound "7") ∧
      ∃ v ∈ emptyShelf.visits none .null shelfState, v.FailsItself none .null ∧
        (∀ u ∈ emptyShelf.visits none .null shelfState, u.FailsItself none .null → u = v) ∧
        StopsCleanly none .null emptyShelf shelfState v := by
  have h : (emptyShelf.execute none .null shelfState).1 = .failed (.objectNotFound "7") := by decide +kernel
  exact ⟨h, execute_stopsCleanly emptyShelf h⟩

end Node

end CacheScript
