/-
What a run does to the bindings. A run moves a name only by writing a text to
it or by dropping it at the end of a scope, so all that can be said of a name
follows from two lists: the names the tree writes and the names its scopes
bind. This holds however the run ends, as a scope drops its name on a failure
too.
-/
import CacheScript.Proofs.Node.Places
import CacheScript.Run

namespace CacheScript

variable {ω : Type}

/-- A store, or an object of one. -/
def Value.IsHandle (value : Value) : Prop :=
  (∃ ref, value = .store ref) ∨ ∃ record, value = .object record

/-- What is bound after a run, given the names that its tree writes texts to
and those that its scopes bind. -/
structure BindingFrame (written bound : List String) (before after : Context) : Prop where
  /-- No other name is touched. -/
  untouched : ∀ name, name ∉ written → name ∉ bound → after.binding? name = before.binding? name
  onlyWritten : ∀ name, name ∈ written → name ∉ bound →
    after.binding? name = before.binding? name ∨ ∃ text, after.binding? name = some (.str text)
  onlyBound : ∀ name, name ∉ written → name ∈ bound →
    after.binding? name = before.binding? name ∨ after.binding? name = none
  both : ∀ name, name ∈ written → name ∈ bound →
    after.binding? name = before.binding? name ∨ (∃ text, after.binding? name = some (.str text)) ∨
      after.binding? name = none
  /-- No scope leaves behind a name that was free. -/
  free : ∀ name, name ∉ written → name ∈ bound → before.binding? name = none → after.binding? name = none
  /-- No store and no object gets out of its scope. -/
  handles : ∀ name value, after.binding? name = some value → value.IsHandle → before.binding? name = some value

/-! ## One change of the bindings -/

namespace Context

theorem binding?_bind (c : Context) (name other : String) (value : Value) :
    (c.bind name value).binding? other = if other = name then some value else c.binding? other :=
  Dict.value?_put c.bindings name other value

theorem binding?_unbind (c : Context) (name other : String) :
    (c.unbind name).binding? other = if other = name then none else c.binding? other :=
  Dict.value?_remove c.bindings name other

@[simp] theorem bindings_load (c : Context) (store : StoreRef) (key : String) (create : Bool) :
    (c.load store key create).2.1.bindings = c.bindings := rfl

end Context

namespace State

@[simp] theorem context_logAll (s : State ω) (lines : List Log.Line) : (s.logAll lines).context = s.context :=
  rfl

@[simp] theorem context_tell (s : State ω) (watcher : Option (Watcher ω))
    (event : Watcher ω → ω → ω × List Log.Remark) : (s.tell watcher event).context = s.context := by
  cases watcher <;> rfl

@[simp] theorem context_write (s : State ω) (name : String) (value : Json) :
    (s.write name value).context = s.context := rfl

theorem bindings_load (s : State ω) (store : StoreRef) (key : String) :
    (s.load store key).2.context.bindings = s.context.bindings := rfl

end State

/-! ## Many changes of the bindings -/

/-- Every name is bound as it was, or to a text and among `written`, or to
nothing and among `bound`. -/
def Moves (written bound : List String) (before after : Context) : Prop :=
  ∀ name, after.binding? name = before.binding? name ∨
    (name ∈ written ∧ ∃ text, after.binding? name = some (.str text)) ∨
    (name ∈ bound ∧ after.binding? name = none)

namespace Moves

variable {written bound : List String} {c d e : Context}

theorem of_bindings (h : d.bindings = c.bindings) : Moves written bound c d :=
  fun name => .inl (by rw [Context.binding?, h]; rfl)

theorem refl (c : Context) : Moves written bound c c :=
  of_bindings rfl

theorem trans (h₁ : Moves written bound c d) (h₂ : Moves written bound d e) : Moves written bound c e := by
  intro name
  rcases h₂ name with h | h | h
  · rw [h]; exact h₁ name
  · exact .inr (.inl h)
  · exact .inr (.inr h)

theorem mono {written' bound' : List String} (h : Moves written bound c d)
    (hw : ∀ name ∈ written, name ∈ written') (hb : ∀ name ∈ bound, name ∈ bound') :
    Moves written' bound' c d :=
  fun name => (h name).imp id (Or.imp (And.imp_left (hw name)) (And.imp_left (hb name)))

theorem bind_text (c : Context) {name : String} (h : name ∈ written) (text : String) :
    Moves written bound c (c.bind name (.str text)) := by
  intro other
  rw [Context.binding?_bind]
  split
  · rename_i he
    subst he
    exact .inr (.inl ⟨h, text, rfl⟩)
  · exact .inl rfl

/-- A scope ends without its name, whatever was bound to it before, and hands
on all other moves of its children. -/
theorem bracket {name : String} {value : Value} (hn : name ∈ bound)
    (h : Moves written bound (c.bind name value) d) : Moves written bound c (d.unbind name) := by
  intro other
  rw [Context.binding?_unbind]
  split
  · rename_i he
    subst he
    exact .inr (.inr ⟨hn, rfl⟩)
  · rename_i hne
    have ho := h other
    rwa [Context.binding?_bind, if_neg hne] at ho

theorem frame (h : Moves written bound c d) : BindingFrame written bound c d where
  untouched name hw hb := by
    rcases h name with h | ⟨hn, -⟩ | ⟨hn, -⟩
    · exact h
    · exact absurd hn hw
    · exact absurd hn hb
  onlyWritten name _ hb := by
    rcases h name with h | ⟨-, h⟩ | ⟨hn, -⟩
    · exact .inl h
    · exact .inr h
    · exact absurd hn hb
  onlyBound name hw _ := by
    rcases h name with h | ⟨hn, -⟩ | ⟨-, h⟩
    · exact .inl h
    · exact absurd hn hw
    · exact .inr h
  both name _ _ := (h name).imp id (Or.imp And.right And.right)
  free name hw _ hf := by
    rcases h name with h | ⟨hn, -⟩ | ⟨-, h⟩
    · exact h.trans hf
    · exact absurd hn hw
    · exact h
  handles name value hv hh := by
    rcases h name with h | ⟨-, text, h⟩ | ⟨-, h⟩
    · exact h.symm.trans hv
    · rw [hv] at h
      cases h
      rcases hh with ⟨ref, h⟩ | ⟨record, h⟩ <;> cases h
    · rw [hv] at h
      cases h

end Moves

/-! ## Runs -/

theorem Step.perform_moves (watcher : Option (Watcher ω)) (s : State ω) (action : Step) (bound : List String) :
    Moves action.written?.toList bound s.context (action.perform watcher s).2.context := by
  cases action with
  | cacheGet cid field id default =>
    simp only [Step.perform]
    split
    · exact .refl _
    · exact .bind_text _ (by simp [written?]) _
  | set id value => exact .bind_text _ (by simp [written?]) _
  | output id value reference => exact .refl _
  | log message level =>
    simp only [Step.perform, State.context_tell, State.context_logAll]
    exact .refl _
  | throw code message => exact .refl _

/-- A scope moves what its children move, and drops the name it binds. -/
theorem Scope.perform_moves {children : State ω → Outcome × State ω} {written bound : List String}
    (hc : ∀ s, Moves written bound s.context (children s).2.context) (s : State ω) (around : Scope)
    (hb : ∀ name, around.bound? = some name → name ∈ bound) :
    Moves written bound s.context (around.perform children s).2.context := by
  cases around with
  | segment => exact hc s
  | cache id cid =>
    simp only [Scope.perform]
    split
    · exact .refl _
    · exact .bracket (hb cid rfl) (hc _)
  | locate id pid cid =>
    simp only [Scope.perform]
    split
    · exact .refl _
    · rename_i store _
      split
      · exact .refl _
      · have hl : Moves written bound s.context (s.load store (s.context.interpolate id)).2.context :=
          .of_bindings (State.bindings_load s store _)
        split
        · rename_i h
          rw [h] at hl
          exact hl
        · rename_i h
          rw [h] at hl
          exact hl.trans (.bracket (hb cid rfl) (hc _))
  | object tag => exact hc _

namespace Node

variable (watcher : Option (Watcher ω)) (input : Json)

theorem watched_moves {body : State ω → Outcome × State ω} {written bound : List String} {s : State ω}
    {label : Label} (h : ∀ t : State ω, t.context = s.context → Moves written bound s.context (body t).2.context) :
    Moves written bound s.context (watched watcher label body s).2.context := by
  simp only [watched, State.context_tell]
  exact h _ (State.context_tell s watcher _)

mutual
/-- A run moves only what its tree names. -/
theorem execute_moves : ∀ (node : Node Empty) (s : State ω),
    Moves node.written node.bound s.context (node.execute watcher input s).2.context
  | step label action, s => by
    rw [execute, written_step]
    refine watched_moves watcher fun t ht => ?_
    rw [← ht]
    exact action.perform_moves watcher t _
  | scope label around children, s => by
    rw [execute]
    refine watched_moves watcher fun t ht => ?_
    rw [← ht]
    refine Scope.perform_moves (fun t => ?_) t around fun name h => bound_of_scope h
    exact executeAll_moves children t (fun child hc _ h => written_child hc h) fun child hc _ h => bound_child hc h

theorem executeAll_moves {written bound : List String} : ∀ (nodes : List (Node Empty)) (s : State ω),
    (∀ node ∈ nodes, ∀ name ∈ node.written, name ∈ written) →
    (∀ node ∈ nodes, ∀ name ∈ node.bound, name ∈ bound) →
    Moves written bound s.context (executeAll watcher input nodes s).2.context
  | [], s, _, _ => .refl s.context
  | node :: nodes, s, hw, hb => by
    have hn := (execute_moves node s).mono (hw node (by simp)) (hb node (by simp))
    rw [executeAll]
    split
    · rename_i t h
      rw [h] at hn
      exact hn.trans (executeAll_moves nodes t (fun n hm => hw n (by simp [hm])) fun n hm => hb n (by simp [hm]))
    · rename_i h
      rw [h] at hn
      exact hn
end

/-- However a run ends, of every name it leaves what `BindingFrame` says. -/
theorem execute_bindingFrame (node : Node Empty) (s : State ω) :
    BindingFrame node.written node.bound s.context (node.execute watcher input s).2.context :=
  (execute_moves watcher input node s).frame

end Node

end CacheScript
