/-
Two runs of one tree. Nodes read a state at few places, so a relation between
states that is kept by the changes that nodes make, and that settles what they
read, is kept by whole runs, which then end alike (`Likeness.execute`). The
two states may have different watchers, or none.
-/
import CacheScript.Proofs.Node.Reads
import CacheScript.Proofs.Run.Keeping
import CacheScript.Run.Watchers

namespace CacheScript

variable {ω ω' : Type}

/-- What a watcher does with an event. -/
def Watcher.told (event : Event) (w : Watcher ω) : ω → ω × List Log.Remark :=
  match event with
  | .start node => w.onStart node
  | .finish node outcome => w.onFinish node outcome
  | .log message => w.onLog message
  | .complete outcome => w.onComplete outcome

theorem Node.watched_eq (watcher : Option (Watcher ω)) (label : Label) (body : State ω → Outcome × State ω)
    (s : State ω) : watched watcher label body s =
      ((body (s.tell watcher (Watcher.told (.start label)))).1,
        (body (s.tell watcher (Watcher.told (.start label)))).2.tell watcher
          (Watcher.told (.finish label (body (s.tell watcher (Watcher.told (.start label)))).1))) := rfl

/-- A relation between states, of which nodes that read some names see no more
than that it holds. -/
structure Likeness (names : String → Prop) (watcher : Option (Watcher ω)) (watcher' : Option (Watcher ω'))
    (R : State ω → State ω' → Prop) : Prop where
  find? : ∀ {s t} id, R s t → s.context.session.find? id = t.context.session.find? id
  binding : ∀ {s t}, R s t → ∀ name, names name → s.context.binding? name = t.context.binding? name
  document : ∀ {s t}, R s t → s.document = t.document
  bind : ∀ {s t} name value, R s t → R (s.bind name value) (t.bind name value)
  unbind : ∀ {s t} name, R s t → R (s.unbind name) (t.unbind name)
  move : ∀ {s t} document, R s t → R { s with document } { t with document }
  load : ∀ {s t} store key, R s t → (s.load store key).1 = (t.load store key).1 ∧
    R (s.load store key).2 (t.load store key).2
  logAll : ∀ {s t} lines, R s t → R (s.logAll lines) (t.logAll lines)
  tell : ∀ {s t} event, R s t → R (s.tell watcher (Watcher.told event)) (t.tell watcher' (Watcher.told event))

/-- Two parts of runs end alike. -/
structure EndAlike (R : State ω → State ω' → Prop) (x : Outcome × State ω) (y : Outcome × State ω') : Prop where
  outcome : x.1 = y.1
  state : R x.2 y.2

namespace Likeness

variable {names : String → Prop} {watcher : Option (Watcher ω)} {watcher' : Option (Watcher ω')}
  {R : State ω → State ω' → Prop} {s : State ω} {t : State ω'}

/-! ## What nodes read -/

theorem interpolate (h : Likeness names watcher watcher' R) (hr : R s t) {text : String}
    (hn : ∀ name ∈ Text.references text, names name) : s.context.interpolate text = t.context.interpolate text := by
  refine congrArg String.ofList (Template.fill_congr fun name hm => ?_)
  rw [Context.text?, Context.text?, h.binding hr name (hn name hm)]

theorem storeAt (h : Likeness names watcher watcher' R) (hr : R s t) {name : String} (hn : names name) :
    s.context.storeAt name = t.context.storeAt name := by
  rw [Context.storeAt, Context.storeAt, h.binding hr name hn]

theorem recordAt (h : Likeness names watcher watcher' R) (hr : R s t) {name : String} (hn : names name) :
    s.context.recordAt name = t.context.recordAt name := by
  rw [Context.recordAt, Context.recordAt, h.binding hr name hn]

/-! ## Steps and scopes -/

theorem step (h : Likeness names watcher watcher' R) (hr : R s t) (action : Step)
    (hn : ∀ name ∈ action.reads, names name) : EndAlike R (action.perform watcher s) (action.perform watcher' t) := by
  cases action with
  | cacheGet cid field id default =>
    have hd : s.context.interpolate default = t.context.interpolate default :=
      h.interpolate hr fun name hm => hn name (List.mem_cons_of_mem _ hm)
    simp only [Step.perform, h.recordAt hr (hn cid List.mem_cons_self), hd]
    split
    · exact ⟨rfl, hr⟩
    · exact ⟨rfl, h.bind _ _ hr⟩
  | set id value =>
    simp only [Step.perform, h.interpolate hr hn]
    exact ⟨rfl, h.bind _ _ hr⟩
  | output id value reference =>
    have hv : s.context.interpolate value = t.context.interpolate value :=
      h.interpolate hr fun name hm => hn name (List.mem_append_left _ hm)
    simp only [Step.perform, State.write, hv, h.document hr]
    by_cases he : reference = ""
    · simp only [if_pos he]
      exact ⟨rfl, h.move _ hr⟩
    · have hb := h.binding hr reference (hn reference (List.mem_append_right _ (by simp [he])))
      simp only [if_neg he, hb]
      exact ⟨rfl, h.move _ hr⟩
  | log message level =>
    simp only [Step.perform, h.interpolate hr hn]
    exact ⟨rfl, h.tell (.log _) (h.logAll _ hr)⟩
  | throw code message =>
    simp only [Step.perform, h.interpolate hr hn]
    exact ⟨rfl, hr⟩

/-- A scope begins alike in both states. -/
theorem enter (h : Likeness names watcher watcher' R) (hr : R s t) (around : Scope)
    (hn : ∀ name ∈ around.reads, names name) :
    (∃ x y, around.enter s = .error x ∧ around.enter t = .error y ∧ EndAlike R x y) ∨
      ∃ u v, around.enter s = .ok u ∧ around.enter t = .ok v ∧ R u v := by
  cases around with
  | segment => exact .inr ⟨s, t, rfl, rfl, hr⟩
  | cache id cid =>
    simp only [Scope.enter, h.find? id hr]
    cases t.context.session.find? id with
    | none => exact .inl ⟨_, _, rfl, rfl, rfl, hr⟩
    | some store => exact .inr ⟨_, _, rfl, rfl, h.bind _ _ hr⟩
  | locate id pid cid =>
    have hi : s.context.interpolate id = t.context.interpolate id :=
      h.interpolate hr fun name hm => hn name (List.mem_cons_of_mem _ hm)
    simp only [Scope.enter, h.storeAt hr (hn pid List.mem_cons_self), hi]
    cases t.context.storeAt pid with
    | error f => exact .inl ⟨_, _, rfl, rfl, rfl, hr⟩
    | ok store =>
      by_cases hk : t.context.interpolate id = ""
      · simp only [if_pos hk]
        exact .inl ⟨_, _, rfl, rfl, rfl, h.logAll _ hr⟩
      · simp only [if_neg hk]
        obtain ⟨hf, hl⟩ := h.load store (t.context.interpolate id) hr
        rcases hs : s.load store (t.context.interpolate id) with ⟨found, u⟩
        rcases ht : t.load store (t.context.interpolate id) with ⟨found', v⟩
        rw [hs, ht] at hf hl
        cases hf
        cases found with
        | none => exact .inl ⟨_, _, rfl, rfl, rfl, hl⟩
        | some record => exact .inr ⟨_, _, rfl, rfl, h.bind _ _ hl⟩
  | object tag =>
    simp only [Scope.enter, h.interpolate hr hn, h.document hr]
    exact .inr ⟨_, _, rfl, rfl, h.move _ hr⟩

theorem leave (h : Likeness names watcher watcher' R) (hr : R s t) {u : State ω} {v : State ω'} (hu : R u v)
    (around : Scope) (hn : ∀ name ∈ around.reads, names name) : R (around.leave s u) (around.leave t v) := by
  cases around with
  | segment => exact hu
  | cache id cid => exact h.unbind _ hu
  | locate id pid cid => exact h.unbind _ hu
  | object tag =>
    simp only [Scope.leave, h.interpolate hr hn, h.document hr, h.document hu]
    exact h.move _ hu

/-! ## Runs -/

theorem watched (h : Likeness names watcher watcher' R) (hr : R s t) (label : Label)
    {body : State ω → Outcome × State ω} {body' : State ω' → Outcome × State ω'}
    (hb : ∀ {u v}, R u v → EndAlike R (body u) (body' v)) :
    EndAlike R (Node.watched watcher label body s) (Node.watched watcher' label body' t) := by
  have he := hb (h.tell (.start label) hr)
  rw [Node.watched_eq, Node.watched_eq]
  refine ⟨he.outcome, ?_⟩
  rw [he.outcome]
  exact h.tell (.finish label _) he.state

theorem scope (h : Likeness names watcher watcher' R) (hr : R s t) (around : Scope)
    (hn : ∀ name ∈ around.reads, names name) {children : State ω → Outcome × State ω}
    {children' : State ω' → Outcome × State ω'} (hc : ∀ {u v}, R u v → EndAlike R (children u) (children' v)) :
    EndAlike R (around.perform children s) (around.perform children' t) := by
  rw [Scope.perform_eq_enter, Scope.perform_eq_enter]
  rcases h.enter hr around hn with ⟨x, y, hx, hy, he⟩ | ⟨u, v, hu, hv, huv⟩
  · rw [hx, hy]
    exact he
  · rw [hu, hv]
    exact ⟨(hc huv).outcome, h.leave hr (hc huv).state around hn⟩

mutual
/-- Two runs of a tree from states that are alike end alike. -/
theorem execute (h : Likeness names watcher watcher' R) (input : Json) : ∀ (node : Node Empty) {s t}, R s t →
    (∀ name ∈ node.reads, names name) → EndAlike R (node.execute watcher input s) (node.execute watcher' input t)
  | .step label action, s, t, hr, hn => by
    rw [Node.execute, Node.execute]
    exact h.watched hr label fun hu => h.step hu action fun name hm => hn name (Node.reads_self hm)
  | .scope label around children, s, t, hr, hn => by
    rw [Node.execute, Node.execute]
    refine h.watched hr label fun hu => h.scope hu around (fun name hm => hn name (Node.reads_self hm)) fun hv => ?_
    exact h.executeAll input children hv fun child hc name hm => hn name (Node.reads_child hc hm)

theorem executeAll (h : Likeness names watcher watcher' R) (input : Json) : ∀ (nodes : List (Node Empty)) {s t},
    R s t → (∀ node ∈ nodes, ∀ name ∈ node.reads, names name) →
      EndAlike R (Node.executeAll watcher input nodes s) (Node.executeAll watcher' input nodes t)
  | [], s, t, hr, _ => ⟨rfl, hr⟩
  | node :: nodes, s, t, hr, hn => by
    have he := h.execute input node hr (hn node (by simp))
    rcases hs : node.execute watcher input s with ⟨_ | f, u⟩
    · rcases ht : node.execute watcher' input t with ⟨o, v⟩
      rw [hs, ht] at he
      obtain rfl : Outcome.done = o := he.outcome
      rw [Node.executeAll_cons_done hs, Node.executeAll_cons_done ht]
      exact h.executeAll input nodes he.state fun n hm => hn n (by simp [hm])
    · rcases ht : node.execute watcher' input t with ⟨o, v⟩
      rw [hs, ht] at he
      obtain rfl : Outcome.failed f = o := he.outcome
      rw [Node.executeAll_cons_failed hs, Node.executeAll_cons_failed ht]
      exact he
end

/-- So two runs of a script come to the same result, and end alike. -/
theorem script (h : Likeness names watcher watcher' R) (script : Script Empty) (input : Json) {c d : Context} {memory : ω}
    {memory' : ω'} (hr : R (Script.start c memory) (Script.start d memory')) (hn : ∀ name ∈ script.root.reads, names name) :
    (script.execute watcher input c memory).result = (script.execute watcher' input d memory').result ∧
      ∃ s t, R s t ∧ (script.execute watcher input c memory).EndsIn s ∧
        (script.execute watcher' input d memory').EndsIn t := by
  have he := h.execute input script.root hr hn
  unfold Script.execute
  rcases hx : script.root.execute watcher input (Script.start c memory) with ⟨o, s⟩
  rcases hy : script.root.execute watcher' input (Script.start d memory') with ⟨o', t⟩
  rw [hx, hy] at he
  obtain rfl : o = o' := he.outcome
  have hend := h.tell (.complete o) he.state
  refine ⟨?_, _, _, hend, ⟨rfl, rfl, rfl⟩, ⟨rfl, rfl, rfl⟩⟩
  cases o with
  | done => exact congrArg Except.ok (h.document hend)
  | failed f => rfl

end Likeness

end CacheScript
