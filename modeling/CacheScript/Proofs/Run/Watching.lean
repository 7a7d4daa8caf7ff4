/-
What watchers are told. A run tells every watcher the same events, whatever it
does with them (`Retold`), so it is enough to see what a run tells one that
remembers them all (`execute_tells`). The last event is the end of the run,
with the outcome that the run returns.
-/
import CacheScript.Proofs.Run.Likeness
import CacheScript.Proofs.Run.Telling
import CacheScript.Script

namespace CacheScript

variable {ω : Type}

/-! ## What is remembered -/

/-- What a watcher remembers after some events. -/
def Watcher.after (w : Watcher ω) (memory : ω) (events : List Event) : ω :=
  events.foldl (fun memory event => (w.told event memory).1) memory

theorem Watcher.after_snoc (w : Watcher ω) (memory : ω) (events : List Event) (event : Event) :
    w.after memory (events ++ [event]) = (w.told event (w.after memory events)).1 := by
  rw [after, List.foldl_append]
  rfl

theorem State.memory_tell (s : State ω) (w : Watcher ω) (event : Event) :
    (s.tell (some w) (Watcher.told event)).memory = (w.told event s.memory).1 := rfl

theorem State.memory_tell_recorder (s : State (List Event)) (event : Event) :
    (s.tell (some .recorder) (Watcher.told event)).memory = event :: s.memory := by
  cases event <;> rfl

/-- Only steps that log tell anything. -/
theorem Step.perform_memory (watcher : Option (Watcher ω)) (s : State ω) (action : Step) :
    (action.perform watcher s).2.memory = s.memory ∨
      ∃ message level text, action = .log message level ∧
        action.perform watcher s =
          (.done, (s.logAll [Log.line .node level text]).tell watcher (Watcher.told (.log text))) := by
  cases action with
  | cacheGet cid field id default =>
    rw [perform]
    split <;> exact .inl rfl
  | log message level => exact .inr ⟨message, level, _, rfl, rfl⟩
  | _ => exact .inl rfl

theorem Scope.enter_error_memory {s t : State ω} {around : Scope} {outcome : Outcome}
    (h : around.enter s = .error (outcome, t)) : t.memory = s.memory := by
  rcases enter_eq_error h with ⟨-, -, rfl | ⟨store, key, hl⟩⟩ | ⟨-, level, text, rfl⟩
  · rfl
  · rw [← State.memory_load s store key, hl]
  · rfl

theorem Scope.enter_memory {s t : State ω} {around : Scope} (h : around.enter s = .ok t) : t.memory = s.memory := by
  rcases enter_eq_ok h with ⟨-, rfl⟩ | ⟨-, -, rfl⟩ | ⟨-, -, u, -, rfl, rfl | ⟨store, key, rfl⟩⟩ <;> rfl

theorem Scope.leave_memory (s t : State ω) (around : Scope) : (around.leave s t).memory = t.memory := by
  cases around <;> rfl

/-! ## Runs that are recorded -/

namespace Node

/-- The start and the finish of a node stand around what is remembered in between. -/
theorem watched_memory {label : Label} {body : State (List Event) → Outcome × State (List Event)}
    {s : State (List Event)} (word : List Event)
    (h : (body (s.tell (some .recorder) (Watcher.told (.start label)))).2.memory =
      word.reverse ++ (s.tell (some .recorder) (Watcher.told (.start label))).memory) :
    (watched (some .recorder) label body s).2.memory =
      (Event.start label :: (word ++ [.finish label (watched (some .recorder) label body s).1])).reverse ++ s.memory := by
  rw [watched_eq, State.memory_tell_recorder, h, State.memory_tell_recorder]
  simp

mutual
/-- A recorded run remembers the events that its tree tells. -/
theorem execute_tells (input : Json) : ∀ (node : Node Empty) (s : State (List Event)),
    ∃ word, node.Tells word (node.execute (some .recorder) input s).1 ∧
      (node.execute (some .recorder) input s).2.memory = word.reverse ++ s.memory
  | .step label action, s => by
    rw [execute]
    rcases action.perform_memory (some .recorder) (s.tell (some .recorder) (Watcher.told (.start label))) with
      hm | ⟨message, level, text, rfl, hp⟩
    · exact ⟨_, .quiet _ _, watched_memory [] hm⟩
    · refine ⟨_, ?_, watched_memory [.log text] ?_⟩
      · rw [watched_eq, hp]
        exact .logs label message level text
      · rw [hp]
        exact State.memory_tell_recorder _ _
  | .scope label around children, s => by
    have hp := around.perform_eq_enter (fun s => executeAll (some .recorder) input children s)
      (s.tell (some .recorder) (Watcher.told (.start label)))
    rw [execute]
    rcases he : around.enter (s.tell (some .recorder) (Watcher.told (.start label))) with ⟨outcome, t⟩ | t
    · rw [he] at hp
      refine ⟨_, .quiet _ _, watched_memory [] ?_⟩
      rw [hp]
      exact Scope.enter_error_memory he
    · rw [he] at hp
      obtain ⟨word, hw, hm⟩ := executeAll_tells input children t
      refine ⟨_, ?_, watched_memory word ?_⟩
      · rw [watched_eq, hp]
        exact .around hw
      · rw [hp, Scope.leave_memory, hm, Scope.enter_memory he]

theorem executeAll_tells (input : Json) : ∀ (nodes : List (Node Empty)) (s : State (List Event)),
    ∃ word, TellsAll nodes word (executeAll (some .recorder) input nodes s).1 ∧
      (executeAll (some .recorder) input nodes s).2.memory = word.reverse ++ s.memory
  | [], s => ⟨[], .nil, rfl⟩
  | node :: nodes, s => by
    obtain ⟨word, hw, hm⟩ := execute_tells input node s
    rcases hx : node.execute (some .recorder) input s with ⟨_ | f, t⟩
    · rw [executeAll_cons_done hx]
      rw [hx] at hw hm
      obtain ⟨words, hws, hms⟩ := executeAll_tells input nodes t
      refine ⟨_, .next hw hws, ?_⟩
      rw [hms, hm, List.reverse_append, List.append_assoc]
    · rw [executeAll_cons_failed hx]
      rw [hx] at hw hm
      exact ⟨word, .stop nodes hw, hm⟩
end

end Node

/-! ## Runs that are watched -/

/-- The watcher remembers what it would after the events that are recorded in
the other state, which is otherwise the same but for the log. -/
structure Retold (w : Watcher ω) (memory : ω) (s : State ω) (t : State (List Event)) : Prop where
  context : s.context = t.context
  document : s.document = t.document
  memory : s.memory = w.after memory t.memory.reverse

theorem Retold.load {w : Watcher ω} {memory : ω} {s : State ω} {t : State (List Event)} (store : StoreRef)
    (key : String) (h : Retold w memory s t) : (s.load store key).1 = (t.load store key).1 ∧
      Retold w memory (s.load store key).2 (t.load store key).2 := by
  simp only [State.load, Context.load, h.context]
  exact ⟨trivial, rfl, h.document, h.memory⟩

theorem Retold.likeness (w : Watcher ω) (memory : ω) :
    Likeness (fun _ => True) (some w) (some .recorder) (Retold w memory) where
  find? _ h := by rw [h.context]
  binding h _ _ := by rw [h.context]
  document h := h.document
  bind name value h := ⟨congrArg (·.bind name value) h.context, h.document, h.memory⟩
  unbind name h := ⟨congrArg (·.unbind name) h.context, h.document, h.memory⟩
  move _ h := ⟨h.context, rfl, h.memory⟩
  load store key h := h.load store key
  logAll _ h := ⟨h.context, h.document, h.memory⟩
  tell {s t} event h := by
    refine ⟨?_, ?_, ?_⟩
    · rw [State.context_tell, State.context_tell, h.context]
    · rw [State.document_tell, State.document_tell, h.document]
    · rw [State.memory_tell, State.memory_tell_recorder, List.reverse_cons, w.after_snoc, h.memory]

/-- How a run ended. -/
def Execution.outcome (e : Execution ω) : Outcome :=
  match e.result with
  | .ok _ => .done
  | .error f => .failed f

namespace Script

/-- The nodes of a built script stand where their labels say. -/
theorem stands_of_build {κ : Type} {c : Catalog κ} {d : Definition} {script : Script κ} (h : build c d = .ok script) :
    script.root.Stands [] none := by
  unfold build at h
  split at h
  · rename_i root hr
    cases h
    exact c.buildAt_stands d hr
  · cases h

theorem outcome_execute (script : Script Empty) (watcher : Option (Watcher ω)) (input : Json) (context : Context)
    (memory : ω) : (script.execute watcher input context memory).outcome =
      (script.root.execute watcher input (start context memory)).1 := by
  unfold execute
  rcases script.root.execute watcher input (start context memory) with ⟨_ | f, s⟩ <;> rfl

/-- The end of the run is told last. -/
theorem memory_execute (script : Script Empty) (w : Watcher ω) (input : Json) (context : Context) (memory : ω) :
    (script.execute (some w) input context memory).memory =
      (w.told (.complete (script.root.execute (some w) input (start context memory)).1)
        (script.root.execute (some w) input (start context memory)).2.memory).1 := rfl

/-- **A run of a built script tells a proper story**, the same to every
watcher: nodes open and close like brackets in the order of the tree, a failure
goes straight up to the root, and at last comes the outcome of the run. -/
theorem execute_wellTold {d : Definition} {script : Script Empty} (h : Script.build .standard d = .ok script)
    (input : Json) (context : Context) :
    ∃ word outcome, WellTold script.root word outcome ∧ ∀ {ω : Type} (w : Watcher ω) (memory : ω),
      (script.execute (some w) input context memory).outcome = outcome ∧
        (script.execute (some w) input context memory).memory = w.after memory (word ++ [.complete outcome]) := by
  obtain ⟨word, hw, hm⟩ := script.root.execute_tells input (start context [])
  refine ⟨word, _, hw.wellTold (stands_of_build h), fun w memory => ?_⟩
  have hs : Retold w memory (start context memory) (start context []) := ⟨rfl, rfl, rfl⟩
  have he := (Retold.likeness w memory).execute input script.root hs fun _ _ => trivial
  have remembered : (script.root.execute (some w) input (start context memory)).2.memory = w.after memory word := by
    rw [he.state.memory, hm]
    simp [start]
  refine ⟨(outcome_execute script (some w) input context memory).trans he.outcome, ?_⟩
  rw [memory_execute, remembered, he.outcome, w.after_snoc]

/-- Says something and gives up inside another node. -/
def givingUp : Definition :=
  ⟨"segment", [],
    [⟨"log", [("msg", .str "before")], []⟩,
      ⟨"obj", [("tag", .str "inside")], [⟨"throw", [("code", .str "app.enough"), ("msg", .str "no more")], []⟩]⟩,
      ⟨"log", [("msg", .str "after")], []⟩]⟩

/-- `givingUp`, built. -/
def givenUp : Script Empty :=
  ⟨.scope ⟨[], "segment", none⟩ .segment
    [.step ⟨[0], "log", some []⟩ (.log "before" .info),
      .scope ⟨[1], "obj", some []⟩ (.object "inside")
        [.step ⟨[0, 1], "throw", some [1]⟩ (.throw "app.enough" "no more")],
      .step ⟨[2], "log", some []⟩ (.log "after" .info)]⟩

theorem givingUp_wellTold : build .standard givingUp = .ok givenUp ∧
    ∃ word outcome, WellTold givenUp.root word outcome ∧
      (givenUp.execute (some .recorder) .null (.new ⟨[]⟩) []).outcome = outcome ∧
      (givenUp.execute (some .recorder) .null (.new ⟨[]⟩) []).memory =
        Watcher.recorder.after [] (word ++ [.complete outcome]) := by
  have h : build .standard givingUp = .ok givenUp := by with_unfolding_all rfl
  obtain ⟨word, outcome, hw, ht⟩ := execute_wellTold h .null (.new ⟨[]⟩)
  exact ⟨h, word, outcome, hw, ht .recorder []⟩

end Script

end CacheScript
