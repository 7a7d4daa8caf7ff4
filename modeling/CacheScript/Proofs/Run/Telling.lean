/-
What a run tells. The events of a node stand between its start and its finish,
and those of nodes in a row follow one another up to the first that fails
(`Tells`, `TellsAll`). Whatever tree tells a word in this way, its nodes open
and close like brackets, in the order in which they are declared, and a
failure is all that is told after it.
-/
import CacheScript.Proofs.Node.Built
import CacheScript.Run.Watchers
import Mathlib.Data.List.Chain

namespace CacheScript

namespace Node

mutual
/-- What a node tells, and how it ends. -/
inductive Tells : Node Empty → List Event → Outcome → Prop
  /-- It has nothing to tell but itself: it is a step, or it does not run its children. -/
  | quiet (node : Node Empty) (outcome : Outcome) :
      Tells node [.start node.label, .finish node.label outcome] outcome
  | logs (label : Label) (message : String) (level : Log.Level) (text : String) :
      Tells (step label (.log message level)) [.start label, .log text, .finish label .done] .done
  /-- Its children tell something as well, and settle how it ends. -/
  | around {node : Node Empty} {word : List Event} {outcome : Outcome} (inside : TellsAll node.children word outcome) :
      Tells node (.start node.label :: (word ++ [.finish node.label outcome])) outcome

/-- What nodes in a row tell, and how the last of them that runs ends. -/
inductive TellsAll : List (Node Empty) → List Event → Outcome → Prop
  | nil : TellsAll [] [] .done
  | next {node : Node Empty} {nodes : List (Node Empty)} {word words : List Event} {outcome : Outcome}
      (first : Tells node word .done) (rest : TellsAll nodes words outcome) :
      TellsAll (node :: nodes) (word ++ words) outcome
  | stop {node : Node Empty} (nodes : List (Node Empty)) {word : List Event} {f : Failure}
      (first : Tells node word (.failed f)) : TellsAll (node :: nodes) word (.failed f)
end

end Node

/-! ## Nesting -/

/-- The events open and close nodes like brackets while some nodes are open,
innermost first: only the innermost is closed, a node opens inside its parent,
and only in a node that logs is there something logged. -/
def Nested : List Label → List Event → Prop
  | opened, [] => opened = []
  | opened, .start node :: events => node.parent = opened.head?.map (·.id) ∧ Nested (node :: opened) events
  | opened, .finish node _ :: events => opened.head? = some node ∧ Nested opened.tail events
  | opened, .log _ :: events => opened.head?.map (·.tag) = some "log" ∧ Nested opened events
  | _, .complete _ :: _ => False

mutual
/-- What a node tells leaves the nodes open that were open before. -/
theorem Node.Tells.nested : ∀ {node : Node Empty} {word : List Event} {outcome : Outcome}, node.Tells word outcome →
    ∀ {rest : List Event} {id : NodeId} {opened : List Label}, node.Stands id (opened.head?.map (·.id)) →
      Nested opened rest → Nested opened (word ++ rest)
  | _, _, _, .quiet node outcome, rest, id, opened, hs, hr => ⟨hs.parent_eq, rfl, hr⟩
  | _, _, _, .logs label message level text, rest, id, opened, hs, hr =>
    ⟨hs.parent_eq, congrArg some hs.logs, rfl, hr⟩
  | _, _, _, @Tells.around node word outcome told, rest, id, opened, hs, hr => by
    -- To the children, the finish of their node is one of the events to come.
    have hf : Nested (node.label :: opened) (.finish node.label outcome :: rest) := ⟨rfl, hr⟩
    rw [List.cons_append, List.append_assoc]
    refine ⟨hs.parent_eq, told.nested (fun child hc => ?_) hf⟩
    rw [List.head?_cons, Option.map_some, hs.id_eq]
    obtain ⟨position, hp⟩ := hs.child hc
    exact ⟨_, hp⟩

theorem Node.TellsAll.nested : ∀ {nodes : List (Node Empty)} {word : List Event} {outcome : Outcome},
    TellsAll nodes word outcome → ∀ {rest : List Event} {opened : List Label},
      (∀ node ∈ nodes, ∃ id, node.Stands id (opened.head?.map (·.id))) → Nested opened rest →
        Nested opened (word ++ rest)
  | _, _, _, .nil, _, _, _, hr => hr
  | _, _, _, .next first others, rest, opened, hs, hr => by
    obtain ⟨id, hn⟩ := hs _ List.mem_cons_self
    rw [List.append_assoc]
    exact first.nested hn (others.nested (fun node hm => hs node (List.mem_cons_of_mem _ hm)) hr)
  | _, _, _, .stop _ first, rest, opened, hs, hr => by
    obtain ⟨id, hn⟩ := hs _ List.mem_cons_self
    exact first.nested hn hr
end

/-! ## Order -/

/-- The node that an event starts. -/
def Event.started? : Event → Option Label
  | start node => some node
  | _ => none

/-- The nodes that events start, in order. -/
def started (word : List Event) : List Label := word.filterMap Event.started?

theorem started_append (word words : List Event) : started (word ++ words) = started word ++ started words :=
  List.filterMap_append

mutual
/-- The nodes that start do so as they are declared. -/
theorem Node.Tells.started_sublist : ∀ {node : Node Empty} {word : List Event} {outcome : Outcome},
    node.Tells word outcome → (started word).Sublist node.labels
  | _, _, _, .quiet node outcome => by
    rw [labels_eq]
    exact (List.nil_sublist _).cons_cons _
  | _, _, _, .logs label message level text => by
    rw [labels_eq]
    exact (List.nil_sublist _).cons_cons _
  | _, _, _, @Tells.around node word outcome told => by
    have hw : started (.start node.label :: (word ++ [.finish node.label outcome])) = node.label :: started word := by
      rw [← List.append_nil (started word)]
      exact congrArg (node.label :: ·) (started_append word _)
    rw [hw, labels_eq]
    exact told.started_sublist.cons_cons _

theorem Node.TellsAll.started_sublist : ∀ {nodes : List (Node Empty)} {word : List Event} {outcome : Outcome},
    TellsAll nodes word outcome → (started word).Sublist (nodes.flatMap labels)
  | _, _, _, .nil => List.nil_sublist _
  | _, _, _, .next first others => by
    rw [started_append, List.flatMap_cons]
    exact first.started_sublist.append others.started_sublist
  | _, _, _, .stop nodes first => by
    rw [List.flatMap_cons]
    exact first.started_sublist.trans (List.sublist_append_left _ _)
end

/-! ## Failures -/

/-- The event tells of a node that fails. -/
def Event.Fails : Event → Prop
  | finish _ (.failed _) => True
  | _ => False

/-- No event tells of a failure. -/
def Calm (word : List Event) : Prop := ∀ event ∈ word, ¬ event.Fails

/-- The first event of a node that fails is followed by those of its ancestors
up to `node`, innermost first, all with the same failure. -/
def FailsThrough (node : Label) (f : Failure) (word : List Event) : Prop :=
  ∃ (before : List Event) (chain : List Label), word = before ++ chain.map (.finish · (.failed f)) ∧ Calm before ∧
    chain.getLast? = some node ∧ chain.IsChain fun inner outer => inner.parent = some outer.id

namespace FailsThrough

variable {node child : Label} {f : Failure} {word : List Event}

theorem single (node : Label) (f : Failure) : FailsThrough node f [.start node, .finish node (.failed f)] :=
  ⟨[.start node], [node], rfl, by simp [Calm, Event.Fails], rfl, .singleton node⟩

/-- What comes before may be anything that does not fail. -/
theorem after {before : List Event} (hb : Calm before) (h : FailsThrough node f word) :
    FailsThrough node f (before ++ word) := by
  obtain ⟨between, chain, rfl, hc, hl, hp⟩ := h
  refine ⟨before ++ between, chain, (List.append_assoc _ _ _).symm, fun event he => ?_, hl, hp⟩
  exact (List.mem_append.1 he).elim (hb event) (hc event)

/-- A failure goes up from a node to its parent. -/
theorem climb (h : FailsThrough child f word) (hp : child.parent = some node.id) :
    FailsThrough node f (.start node :: (word ++ [.finish node (.failed f)])) := by
  obtain ⟨before, chain, rfl, hb, hl, hc⟩ := h
  have word_eq : Event.start node :: (before ++ chain.map (.finish · (.failed f)) ++ [.finish node (.failed f)]) =
      [.start node] ++ (before ++ (chain ++ [node]).map (.finish · (.failed f))) := by
    simp
  have linked : (chain ++ [node]).IsChain fun inner outer => inner.parent = some outer.id := by
    refine hc.append (.singleton node) fun inner hi outer ho => ?_
    rw [hl] at hi
    cases hi
    cases ho
    exact hp
  rw [word_eq]
  exact after (by simp [Calm, Event.Fails]) ⟨before, chain ++ [node], rfl, hb, List.getLast?_concat, linked⟩

end FailsThrough

mutual
/-- A node that is done tells of no failure. -/
theorem Node.Tells.calm : ∀ {node : Node Empty} {word : List Event} {outcome : Outcome}, node.Tells word outcome →
    outcome = .done → Calm word
  | _, _, _, .quiet node outcome, ho => by simp [Calm, Event.Fails, ho]
  | _, _, _, .logs label message level text, _ => by simp [Calm, Event.Fails]
  | _, _, _, @Tells.around node word outcome told, ho => by
    intro event he
    simp only [List.mem_cons, List.mem_append, List.not_mem_nil, or_false, ho] at he
    rcases he with rfl | he | rfl
    · exact id
    · exact told.calm ho event he
    · exact id

theorem Node.TellsAll.calm : ∀ {nodes : List (Node Empty)} {word : List Event} {outcome : Outcome},
    TellsAll nodes word outcome → outcome = .done → Calm word
  | _, _, _, .nil, _ => fun _ he => nomatch he
  | _, _, _, .next first others, ho => fun event he =>
    (List.mem_append.1 he).elim (first.calm rfl event) (others.calm ho event)
end

mutual
/-- A node that fails tells of it at last, after the descendants that failed. -/
theorem Node.Tells.failsThrough : ∀ {node : Node Empty} {word : List Event} {outcome : Outcome},
    node.Tells word outcome → ∀ {f : Failure} {id : NodeId} {parent : Option NodeId}, outcome = .failed f →
      node.Stands id parent → FailsThrough node.label f word
  | _, _, _, .quiet node outcome, f, id, parent, ho, _ => by
    rw [ho]
    exact .single node.label f
  | _, _, _, @Tells.around node word outcome told, f, id, parent, ho, hs => by
    obtain ⟨child, hc, hf⟩ := told.failsThrough ho fun child hc =>
      (hs.child hc).elim fun position hp => ⟨_, _, hp⟩
    obtain ⟨position, hp⟩ := hs.child hc
    rw [ho]
    exact hf.climb (by rw [hp.parent_eq, hs.id_eq])

theorem Node.TellsAll.failsThrough : ∀ {nodes : List (Node Empty)} {word : List Event} {outcome : Outcome},
    TellsAll nodes word outcome → ∀ {f : Failure}, outcome = .failed f →
      (∀ node ∈ nodes, ∃ id parent, node.Stands id parent) → ∃ node ∈ nodes, FailsThrough node.label f word
  | _, _, _, .next first others, f, ho, hs => by
    obtain ⟨node, hn, hf⟩ := others.failsThrough ho fun node hm => hs node (List.mem_cons_of_mem _ hm)
    exact ⟨node, List.mem_cons_of_mem _ hn, hf.after (first.calm rfl)⟩
  | _, _, _, @TellsAll.stop node nodes word g first, f, ho, hs => by
    obtain ⟨id, parent, hn⟩ := hs node List.mem_cons_self
    exact ⟨node, List.mem_cons_self, first.failsThrough ho hn⟩
end

/-! ## The whole word -/

/-- After a failure there are only the ends of nodes. -/
theorem FailsThrough.started_eq_nil {node : Label} {f : Failure} {before after : List Event} {event : Event}
    (h : FailsThrough node f (before ++ event :: after)) (he : event.Fails) : started after = [] := by
  obtain ⟨calm, chain, hw, hc, -, -⟩ := h
  have ends (labels : List Label) : started (labels.map (.finish · (.failed f))) = [] := by
    simp [started, Event.started?]
  -- The failing event cannot lie before the chain, so all that follows it lies in the chain.
  have later : ∃ inner, chain.map (Event.finish · (.failed f)) = inner ++ event :: after := by
    rcases List.append_eq_append_iff.1 hw with ⟨inner, rfl, hi⟩ | ⟨inner, rfl, hi⟩
    · cases inner with
      | nil => exact ⟨[], hi.symm⟩
      | cons first inner =>
        obtain rfl : event = first := by simpa using (List.cons.inj hi).1
        exact absurd he (hc event (by simp))
    · exact ⟨inner, hi⟩
  obtain ⟨inner, hi⟩ := later
  have hn := ends chain
  rw [hi, started_append, List.append_eq_nil_iff] at hn
  exact (List.append_eq_nil_iff.1 ((started_append [event] after).symm.trans hn.2)).2

/-- What is true of the events that a whole tree tells. -/
structure WellTold (root : Node Empty) (word : List Event) (outcome : Outcome) : Prop where
  nested : Nested [] word
  whole : ∃ inside, word = .start root.label :: (inside ++ [.finish root.label outcome])
  /-- Nodes start as they are declared. -/
  ordered : (started word).Sublist root.labels
  once : ((started word).map (·.id)).Nodup
  calm : outcome = .done → Calm word
  failsThrough : ∀ f, outcome = .failed f → FailsThrough root.label f word
  /-- After a failure no node starts. -/
  stops : ∀ before event after, word = before ++ event :: after → event.Fails → started after = []

theorem Node.Tells.wellTold {root : Node Empty} {word : List Event} {outcome : Outcome} (h : root.Tells word outcome)
    (hs : root.Stands [] none) : WellTold root word outcome where
  nested := by
    have hn := h.nested (hs : root.Stands [] (([] : List Label).head?.map (·.id))) (show Nested [] [] from rfl)
    rwa [List.append_nil] at hn
  whole := by
    cases h with
    | quiet => exact ⟨[], rfl⟩
    | logs label message level text => exact ⟨[.log text], rfl⟩
    | around told => exact ⟨_, rfl⟩
  ordered := h.started_sublist
  once := (Stands.nodup root hs).sublist (h.started_sublist.map _)
  calm := h.calm
  failsThrough _ ho := h.failsThrough ho hs
  stops before event after hw he := by
    cases outcome with
    | done =>
      rw [hw] at h
      exact absurd he (h.calm rfl event (by simp))
    | failed f =>
      rw [hw] at h
      exact (h.failsThrough rfl hs).started_eq_nil he

end CacheScript
