/-
What runs keep. Nodes change a state in few ways, so whatever each of these
keeps a run keeps, however it ends (`Kept.execute`). The changes of a scope are
those at its beginning and its end, around those of its children.
-/
import CacheScript.Proofs.Run.Visits
import CacheScript.Script

namespace CacheScript

variable {ω : Type}

/-- What a run leaves is what the state holds. -/
structure Execution.EndsIn (run : Execution ω) (s : State ω) : Prop where
  context : run.context = s.context
  log : run.log = s.log.reverse
  memory : run.memory = s.memory

/-- What each change that nodes make of a state keeps. -/
structure Kept (watcher : Option (Watcher ω)) (P : State ω → Prop) : Prop where
  bind : ∀ {s} name value, P s → P (s.bind name value)
  unbind : ∀ {s} name, P s → P (s.unbind name)
  move : ∀ {s} document, P s → P { s with document }
  load : ∀ {s} store key, P s → P (s.load store key).2
  /-- The lines of nodes; those of stores and watchers come with a load and a word to the watcher. -/
  log : ∀ {s} level text, P s → P (s.logAll [Log.line .node level text])
  tell : ∀ {s} event, P s → P (s.tell watcher event)

namespace Kept

variable {watcher : Option (Watcher ω)} {P : State ω → Prop} {s t : State ω}

theorem step (h : Kept watcher P) (hs : P s) (action : Step) : P (action.perform watcher s).2 := by
  cases action with
  | cacheGet cid field id default =>
    rw [Step.perform]
    split
    · exact hs
    · exact h.bind _ _ hs
  | set id value => exact h.bind _ _ hs
  | output id value reference => exact h.move _ hs
  | log message level => exact h.tell _ (h.log _ _ hs)
  | throw code message => exact hs

theorem enter_error (h : Kept watcher P) (hs : P s) {around : Scope} {outcome : Outcome}
    (he : around.enter s = .error (outcome, t)) : P t := by
  rcases Scope.enter_eq_error he with ⟨-, -, rfl | ⟨store, key, hl⟩⟩ | ⟨-, level, text, rfl⟩
  · exact hs
  · have hload := h.load store key hs
    rwa [hl] at hload
  · exact h.log level text hs

theorem enter (h : Kept watcher P) (hs : P s) {around : Scope} (he : around.enter s = .ok t) : P t := by
  rcases Scope.enter_eq_ok he with ⟨-, rfl⟩ | ⟨tag, -, rfl⟩ | ⟨cid, value, u, -, rfl, rfl | ⟨store, key, rfl⟩⟩
  · exact hs
  · exact h.move _ hs
  · exact h.bind cid value hs
  · exact h.bind cid value (h.load store key hs)

theorem leave (h : Kept watcher P) (ht : P t) (around : Scope) : P (around.leave s t) := by
  cases around with
  | segment => exact ht
  | cache id cid => exact h.unbind cid ht
  | locate id pid cid => exact h.unbind cid ht
  | object tag => exact h.move _ ht

mutual
/-- What each change keeps, a run keeps. -/
theorem execute (h : Kept watcher P) (input : Json) : ∀ (node : Node Empty) {s : State ω}, P s →
    P (node.execute watcher input s).2
  | .step label action, s, hs => by
    rw [Node.execute]
    exact h.tell _ (h.step (h.tell _ hs) action)
  | .scope label around children, s, hs => by
    have hs := h.tell (·.onStart label) hs
    rcases he : around.enter (s.tell watcher (·.onStart label)) with ⟨outcome, t⟩ | t
    · rw [Node.execute_scope_error he]
      exact h.tell _ (h.enter_error hs he)
    · rw [Node.execute_scope_ok he]
      exact h.tell _ (h.leave (h.executeAll input children (h.enter hs he)) around)

theorem executeAll (h : Kept watcher P) (input : Json) : ∀ (nodes : List (Node Empty)) {s : State ω}, P s →
    P (Node.executeAll watcher input nodes s).2
  | [], s, hs => hs
  | node :: nodes, s, hs => by
    have hn := h.execute input node hs
    rcases hx : node.execute watcher input s with ⟨_ | f, t⟩
    · rw [Node.executeAll_cons_done hx]
      rw [hx] at hn
      exact h.executeAll input nodes hn
    · rw [Node.executeAll_cons_failed hx]
      rw [hx] at hn
      exact hn
end

/-- So a run ends in a state that has it. -/
theorem script (h : Kept watcher P) (script : Script Empty) (input : Json) (context : Context) (memory : ω)
    (hs : P (Script.start context memory)) : ∃ s, P s ∧ (script.execute watcher input context memory).EndsIn s :=
  ⟨_, h.tell _ (h.execute input script.root hs), rfl, rfl, rfl⟩

end Kept

end CacheScript
