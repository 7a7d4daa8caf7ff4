/-
A scope taken apart into how it begins, which settles whether its children run
and from what state, and how it ends after them. What a scope does is these
two around its children (`perform_eq_enter`), so whatever is to be shown of
scopes is shown of the two.
-/
import CacheScript.Proofs.Run.Bindings

namespace CacheScript

variable {ω : Type}

/-! ## What a change of the state leaves alone -/

namespace State

@[simp] theorem document_bind (s : State ω) (name : String) (value : Value) :
    (s.bind name value).document = s.document := rfl

@[simp] theorem document_unbind (s : State ω) (name : String) : (s.unbind name).document = s.document := rfl

@[simp] theorem document_logAll (s : State ω) (lines : List Log.Line) : (s.logAll lines).document = s.document :=
  rfl

@[simp] theorem document_tell (s : State ω) (watcher : Option (Watcher ω))
    (event : Watcher ω → ω → ω × List Log.Remark) : (s.tell watcher event).document = s.document := by
  cases watcher <;> rfl

@[simp] theorem memory_load (s : State ω) (store : StoreRef) (key : String) :
    (s.load store key).2.memory = s.memory := rfl

end State

/-! ## The beginning and the end of a scope -/

namespace Scope

/-- How a scope begins: with the state that its children start from, or, when
they do not run, with what the scope comes to. -/
def enter (s : State ω) : Scope → Except (Outcome × State ω) (State ω)
  | segment => .ok s
  | cache id cid =>
    match s.context.session.find? id with
    | none => .error (.failed (.storeNotRegistered id), s)
    | some store => .ok (s.bind cid (.store store))
  | locate id pid cid =>
    match s.context.storeAt pid with
    | .error f => .error (.failed f, s)
    | .ok store =>
      let key := s.context.interpolate id
      if key = "" then
        .error (.done, s.logAll [Log.line .node .trace
          ("cache-locate: empty id from " ++ Text.quoted id ++ ", skipping")])
      else
        match s.load store key with
        | (none, s) => .error (.failed (.objectNotFound key), s)
        | (some record, s) => .ok (s.bind cid (.object record))
  | object tag =>
    .ok { s with document := ((s.document.value? (s.context.interpolate tag)).bind Json.members?).getD [] }

/-- How a scope that began in `s` ends, from the state after its children. -/
def leave (s t : State ω) : Scope → State ω
  | segment => t
  | cache _ cid | locate _ _ cid => t.unbind cid
  | object tag => { t with document := s.document.put (s.context.interpolate tag) (.obj t.document) }

theorem perform_eq_enter (children : State ω → Outcome × State ω) (s : State ω) (around : Scope) :
    around.perform children s =
      match around.enter s with
      | .error ended => ended
      | .ok t => ((children t).1, around.leave s (children t).2) := by
  cases around with
  | segment => rfl
  | object tag => rfl
  | cache id cid =>
    rw [perform, enter]
    cases s.context.session.find? id <;> rfl
  | locate id pid cid =>
    rw [perform, enter]
    cases s.context.storeAt pid with
    | error f => rfl
    | ok store =>
      by_cases hk : s.context.interpolate id = ""
      · simp only [hk, if_true]
      · simp only [hk, if_false]
        rcases s.load store (s.context.interpolate id) with ⟨_ | record, u⟩ <;> rfl

/-- A scope that does not run its children fails, having changed nothing but
what a fruitless look-up changes, or it skips them with a line in the log. -/
theorem enter_eq_error {s t : State ω} {around : Scope} {outcome : Outcome}
    (h : around.enter s = .error (outcome, t)) :
    (∃ f, outcome = .failed f ∧ (t = s ∨ ∃ store key, s.load store key = (none, t))) ∨
      outcome = .done ∧ ∃ level text, t = s.logAll [Log.line .node level text] := by
  cases around with
  | segment => cases h
  | object tag => cases h
  | cache id cid =>
    simp only [enter] at h
    split at h
    · cases h
      exact .inl ⟨_, rfl, .inl rfl⟩
    · cases h
  | locate id pid cid =>
    simp only [enter] at h
    split at h
    · cases h
      exact .inl ⟨_, rfl, .inl rfl⟩
    · split at h
      · cases h
        exact .inr ⟨rfl, _, _, rfl⟩
      · split at h
        · rename_i hl
          cases h
          exact .inl ⟨_, rfl, .inr ⟨_, _, hl⟩⟩
        · cases h

/-- The children of a scope start from its own state, or with one more name
bound, or inside a member of the document. -/
theorem enter_eq_ok {s t : State ω} {around : Scope} (h : around.enter s = .ok t) :
    (around = segment ∧ t = s) ∨
      (∃ tag, around = object tag ∧
        t = { s with document := ((s.document.value? (s.context.interpolate tag)).bind Json.members?).getD [] }) ∨
      ∃ cid value u, around.bound? = some cid ∧ t = u.bind cid value ∧
        (u = s ∨ ∃ store key, (s.load store key).2 = u) := by
  cases around with
  | segment => cases h; exact .inl ⟨rfl, rfl⟩
  | object tag => cases h; exact .inr (.inl ⟨tag, rfl, rfl⟩)
  | cache id cid =>
    simp only [enter] at h
    split at h
    · cases h
    · cases h
      exact .inr (.inr ⟨cid, _, s, rfl, rfl, .inl rfl⟩)
  | locate id pid cid =>
    simp only [enter] at h
    split at h
    · cases h
    · split at h
      · cases h
      · split at h
        · cases h
        · rename_i u hl
          cases h
          exact .inr (.inr ⟨cid, _, u, rfl, rfl, .inr ⟨_, _, congrArg Prod.snd hl⟩⟩)

end Scope

end CacheScript
