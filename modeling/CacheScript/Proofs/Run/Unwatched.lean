/-
Watching never changes a run. A watched run and one without a watcher are in
states that are the same but for the watcher's own lines in the log
(`State.Unwatched`), and without a watcher nobody writes such lines.
-/
import CacheScript.Proofs.Run.Likeness

namespace CacheScript

variable {ω ω' : Type}

/-- The lines of a log that are no watcher's, in their order. -/
def Log.ownLines (lines : List Log.Line) : List Log.Line :=
  lines.filter (·.source ≠ .watcher)

theorem Log.ownLines_append (lines others : List Log.Line) :
    ownLines (lines ++ others) = ownLines lines ++ ownLines others :=
  List.filter_append lines others

theorem Log.ownLines_reverse (lines : List Log.Line) : ownLines lines.reverse = (ownLines lines).reverse :=
  List.filter_reverse

/-- The same but for what a watcher logs and remembers. -/
structure State.Unwatched (s : State ω) (t : State ω') : Prop where
  context : s.context = t.context
  document : s.document = t.document
  log : Log.ownLines s.log = Log.ownLines t.log

namespace State.Unwatched

variable {s : State ω} {t : State ω'}

theorem logAll (h : s.Unwatched t) (lines : List Log.Line) : (s.logAll lines).Unwatched (t.logAll lines) := by
  refine ⟨h.context, h.document, ?_⟩
  rw [State.logAll, State.logAll, Log.ownLines_append, Log.ownLines_append, h.log]

theorem load (h : s.Unwatched t) (store : StoreRef) (key : String) : (s.load store key).1 = (t.load store key).1 ∧
    (s.load store key).2.Unwatched (t.load store key).2 := by
  simp only [State.load, h.context]
  refine ⟨trivial, logAll ?_ _⟩
  exact ⟨rfl, h.document, h.log⟩

/-- The remarks of a watcher are logged as its own. -/
theorem tell (h : s.Unwatched t) (w : Watcher ω) (event : Watcher ω → ω → ω × List Log.Remark) :
    (s.tell (some w) event).Unwatched t := by
  refine ⟨h.context, h.document, ?_⟩
  have hremarks (remarks : List Log.Remark) :
      Log.ownLines (remarks.map fun remark => { toRemark := remark, source := .watcher }).reverse = [] := by
    simp [Log.ownLines]
  simp only [State.tell, State.logAll]
  rw [Log.ownLines_append, hremarks]
  exact h.log

end State.Unwatched

theorem State.Unwatched.likeness (w : Watcher ω) :
    Likeness (fun _ => True) (some w) (none : Option (Watcher ω')) State.Unwatched where
  find? _ h := by rw [h.context]
  binding h _ _ := by rw [h.context]
  document h := h.document
  bind name value h := ⟨congrArg (·.bind name value) h.context, h.document, h.log⟩
  unbind name h := ⟨congrArg (·.unbind name) h.context, h.document, h.log⟩
  move _ h := ⟨h.context, rfl, h.log⟩
  load store key h := h.load store key
  logAll lines h := h.logAll lines
  tell event h := h.tell w (Watcher.told event)

/-! ## Runs without a watcher -/

/-- All lines are the run's own. -/
def State.LogsOwn (s : State ω) : Prop :=
  ∀ line ∈ s.log, line.source ≠ .watcher

theorem State.LogsOwn.logAll {s : State ω} (h : s.LogsOwn) {lines : List Log.Line}
    (hl : ∀ line ∈ lines, line.source ≠ .watcher) : (s.logAll lines).LogsOwn := by
  intro line hm
  rcases List.mem_append.1 hm with hm | hm
  · exact hl line (List.mem_reverse.1 hm)
  · exact h line hm

theorem State.LogsOwn.ownLines_eq {s : State ω} (h : s.LogsOwn) : Log.ownLines s.log = s.log :=
  List.filter_eq_self.2 fun line hm => decide_eq_true (h line hm)

theorem Answer.source_line {α : Type} (store key : String) (answer : Answer α) :
    (answer.line store key).source = .store := by
  cases answer <;> rfl

/-- What a load logs, its store logs. -/
theorem Store.source_load {α : Type} (s : Store α) (key : String) (create : Bool) :
    ∀ line ∈ (s.load key create).lines, line.source = .store := by
  intro line hm
  unfold Store.load at hm
  split at hm
  · cases hm
  · split at hm
    · have hline : (s.materialize key).lines = [(s.loader s.calls key).line s.id key] := by
        unfold Store.materialize
        dsimp only
        split <;> rfl
      rw [hline] at hm
      rw [List.mem_singleton.1 hm]
      exact Answer.source_line s.id key _
    · cases hm

theorem State.LogsOwn.load {s : State ω} (h : s.LogsOwn) (store : StoreRef) (key : String) :
    (s.load store key).2.LogsOwn := by
  have hlines : ∀ line ∈ (s.context.session.load store key true).2.2, line.source ≠ .watcher := by
    intro line hm
    unfold Session.load at hm
    split at hm
    · cases hm
    · rw [Store.source_load _ key true line hm]
      exact nofun
  exact LogsOwn.logAll (s := { s with context := _ }) h hlines

theorem State.LogsOwn.kept : Kept (none : Option (Watcher ω)) State.LogsOwn where
  bind _ _ h := h
  unbind _ h := h
  move _ h := h
  load store key h := h.load store key
  log level text h := h.logAll fun line hm => by
    rw [List.mem_singleton.1 hm]
    exact nofun
  tell _ h := h

namespace Script

/-- **Watching never changes a run.** With any watcher and without one the same
script comes to the same result, in the same context with the same stores, and
logs the same lines but for those of the watcher. -/
theorem execute_unwatched (script : Script Empty) (w : Watcher ω) (input : Json) (context : Context) (memory : ω)
    (memory' : ω') :
    let watched := script.execute (some w) input context memory
    let alone := script.execute (none : Option (Watcher ω')) input context memory'
    watched.result = alone.result ∧ watched.context = alone.context ∧ Log.ownLines watched.log = alone.log := by
  intro watched alone
  have hstart : (start context memory).Unwatched (start context memory') := ⟨rfl, rfl, rfl⟩
  obtain ⟨hresult, s, t, hend, hs, ht⟩ := (State.Unwatched.likeness w).script script input hstart fun _ _ => trivial
  obtain ⟨u, hown, hu⟩ := State.LogsOwn.kept.script script input context memory' nofun
  refine ⟨hresult, (hs.context.trans hend.context).trans ht.context.symm, ?_⟩
  have hsame : Log.ownLines watched.log = Log.ownLines alone.log := by
    rw [show watched.log = s.log.reverse from hs.log, show alone.log = t.log.reverse from ht.log, Log.ownLines_reverse,
      Log.ownLines_reverse, hend.log]
  rw [hsame, show alone.log = u.log.reverse from hu.log, Log.ownLines_reverse, hown.ownLines_eq]

end Script

end CacheScript
