/-
What a scope binds, and for how long. A scope binds its name when it begins
and drops it when it ends, whatever the name was bound to before, and so does
a scope inside it with the same name. So bindings are a stack only as long as
scopes with one name do not meet: the name is lost to the outer scope, and to
whoever bound it before, once an inner scope with it has ended
(`execute_scope_bindings`).
-/
import CacheScript.Proofs.Run.Visits
import CacheScript.Script

namespace CacheScript

variable {ω : Type}

/-! ## What scopes bind -/

/-- The store or the object that a scope binds while its children run, if it
runs them and binds anything. -/
def Scope.handle? (c : Context) : Scope → Option Value
  | segment | object _ => none
  | cache id _ => (c.session.find? id).map .store
  | locate id pid _ =>
    match c.storeAt pid with
    | .error _ => none
    | .ok store =>
      if c.interpolate id = "" then none
      else (c.load store (c.interpolate id) true).1.map .object

/-- The store or the object that a node itself binds while its children run. -/
def Node.handle? {κ : Type} (c : Context) : Node κ → Option Value
  | scope _ around _ => around.handle? c
  | _ => none

/-- A name is bound to no store and no object. -/
def Context.HasNoHandle (c : Context) (name : String) : Prop :=
  ∀ value, c.binding? name = some value → ¬ value.IsHandle

namespace Scope

variable {s t : State ω} {around : Scope}

theorem isHandle_of_handle? {c : Context} {value : Value} (h : around.handle? c = some value) : value.IsHandle := by
  cases around with
  | segment => cases h
  | object tag => cases h
  | cache id cid =>
    obtain ⟨ref, -, rfl⟩ := Option.map_eq_some_iff.1 h
    exact .inl ⟨ref, rfl⟩
  | locate id pid cid =>
    simp only [handle?] at h
    split at h
    · cases h
    · split at h
      · cases h
      · obtain ⟨record, -, rfl⟩ := Option.map_eq_some_iff.1 h
        exact .inr ⟨record, rfl⟩

/-- A scope does not run its children, or starts them with the same bindings,
or with what it binds as well. -/
theorem enter_cases (s : State ω) (around : Scope) :
    (∃ ended, around.enter s = .error ended ∧ around.handle? s.context = none ∧
        ended.2.context.bindings = s.context.bindings) ∨
      ∃ t, around.enter s = .ok t ∧
        ((around.bound? = none ∧ t.context.bindings = s.context.bindings) ∨
          ∃ cid value, around.bound? = some cid ∧ around.handle? s.context = some value ∧
            t.context.bindings = s.context.bindings.put cid value) := by
  cases around with
  | segment => exact .inr ⟨_, rfl, .inl ⟨rfl, rfl⟩⟩
  | object tag => exact .inr ⟨_, rfl, .inl ⟨rfl, rfl⟩⟩
  | cache id cid =>
    simp only [enter, handle?]
    cases s.context.session.find? id with
    | none => exact .inl ⟨_, rfl, rfl, rfl⟩
    | some store => exact .inr ⟨_, rfl, .inr ⟨cid, _, rfl, rfl, rfl⟩⟩
  | locate id pid cid =>
    simp only [enter, handle?]
    cases s.context.storeAt pid with
    | error f => exact .inl ⟨_, rfl, rfl, rfl⟩
    | ok store =>
      by_cases hk : s.context.interpolate id = ""
      · exact .inl ⟨_, if_pos hk, if_pos hk, rfl⟩
      · have hbindings := State.bindings_load s store (s.context.interpolate id)
        have hfound : (s.context.load store (s.context.interpolate id) true).1 =
            (s.load store (s.context.interpolate id)).1 := rfl
        rcases hl : s.load store (s.context.interpolate id) with ⟨_ | record, u⟩
        · rw [hl] at hbindings hfound
          exact .inl ⟨_, (if_neg hk).trans (by rw [hl]), (if_neg hk).trans (by rw [hfound]; rfl), hbindings⟩
        · rw [hl] at hbindings hfound
          refine .inr ⟨_, (if_neg hk).trans (by rw [hl]), .inr ⟨cid, .object record, rfl, ?_, ?_⟩⟩
          · exact (if_neg hk).trans (by rw [hfound]; rfl)
          · exact congrArg (Dict.put · cid (Value.object record)) hbindings

/-- A scope that does not run its children binds nothing. -/
theorem handle?_of_enter_error {ended : Outcome × State ω} (h : around.enter s = .error ended) :
    around.handle? s.context = none ∧ ended.2.context.bindings = s.context.bindings := by
  rcases enter_cases s around with ⟨_, he, hn⟩ | ⟨_, he, -⟩
  · cases h.symm.trans he
    exact hn
  · cases h.symm.trans he

theorem handle?_of_enter_ok (h : around.enter s = .ok t) {name : String} (hb : around.bound? = some name) :
    ∃ value, around.handle? s.context = some value := by
  rcases enter_cases s around with ⟨_, he, -⟩ | ⟨_, -, ⟨hn, -⟩ | ⟨_, value, -, hv, -⟩⟩
  · cases h.symm.trans he
  · cases hb.symm.trans hn
  · exact ⟨value, hv⟩

/-- The children of a scope start with what it binds under its name, and with
everything else as it was. -/
theorem binding?_enter (h : around.enter s = .ok t) (name : String) :
    t.context.binding? name = if around.bound? = some name then around.handle? s.context else s.context.binding? name := by
  rcases enter_cases s around with ⟨_, he, -⟩ | ⟨_, he, ⟨hn, ht⟩ | ⟨cid, value, hc, hv, ht⟩⟩
  · cases h.symm.trans he
  · cases h.symm.trans he
    rw [hn, if_neg nofun, Context.binding?, ht]
    rfl
  · cases h.symm.trans he
    rw [Context.binding?, ht, Dict.value?_put, hc, hv]
    simp only [Option.some.injEq, eq_comm]
    rfl

/-- A scope ends without its name. -/
theorem binding?_leave (s t : State ω) (around : Scope) (name : String) :
    (around.leave s t).context.binding? name = if around.bound? = some name then none else t.context.binding? name := by
  have dropped (cid : String) : (t.unbind cid).context.binding? name =
      if some cid = some name then none else t.context.binding? name := by
    rw [State.unbind, Context.binding?_unbind]
    simp only [Option.some.injEq, eq_comm]
  cases around with
  | segment => rfl
  | object tag => rfl
  | cache id cid => exact dropped cid
  | locate id pid cid => exact dropped cid

end Scope

/-! ## Names that are taken -/

/-- The visited node takes a name from whoever has it bound: it writes a text
to it, or binds it while its children run and drops it after them. -/
def Visit.Takes (name : String) (v : Visit ω) : Prop :=
  v.node.written? = some name ∨ v.node.bound? = some name ∧ v.node.handle? v.state.context ≠ none

/-- A step that does what it is to do binds the name that it writes to a text. -/
theorem Step.perform_writes {watcher : Option (Watcher ω)} {s : State ω} {action : Step} {name : String}
    (hw : action.written? = some name) (hd : (action.perform watcher s).1 = .done) :
    ∃ text, (action.perform watcher s).2.context.binding? name = some (.str text) := by
  cases action with
  | cacheGet cid field id default =>
    cases hw
    simp only [perform] at hd ⊢
    split
    · rename_i hr
      rw [hr] at hd
      cases hd
    · exact ⟨_, (Context.binding?_bind _ _ _ _).trans (if_pos rfl)⟩
  | set id value =>
    cases hw
    exact ⟨_, (Context.binding?_bind _ _ _ _).trans (if_pos rfl)⟩
  | _ => cases hw

namespace Node

variable {watcher : Option (Watcher ω)} {input : Json} {name : String}

theorem visits_scope_ok {label : Label} {around : Scope} {children : List (Node Empty)} {s t : State ω}
    (h : around.enter (s.tell watcher (·.onStart label)) = .ok t) :
    (scope label around children).visits watcher input s =
      ⟨[], [], scope label around children, s⟩ :: visitsAll watcher input (around.keys s) 0 children t := by
  rw [visits, h]

mutual
/-- A name that no visited node takes keeps its binding. -/
theorem execute_spares : ∀ (node : Node Empty) (s : State ω), (∀ v ∈ node.visits watcher input s, ¬ v.Takes name) →
    (node.execute watcher input s).2.context.binding? name = s.context.binding? name
  | .step label action, s, h => by
    have hself := h _ (self_mem_visits _ s)
    refine (execute_bindingFrame watcher input (.step label action) s).untouched name (fun hw => hself (.inl ?_)) ?_
    · rwa [written_step, Option.mem_toList] at hw
    · simp [bound, places, bound?]
  | .scope label around children, s, h => by
    have hself := h _ (self_mem_visits _ s)
    rcases he : around.enter (s.tell watcher (·.onStart label)) with ⟨outcome, t⟩ | t
    · obtain ⟨-, ht⟩ := Scope.handle?_of_enter_error he
      rw [State.context_tell] at ht
      rw [execute_scope_error he, State.context_tell, Context.binding?, ht]
      rfl
    · have hfree : around.bound? ≠ some name := fun hb => by
        obtain ⟨value, hv⟩ := Scope.handle?_of_enter_ok he hb
        rw [State.context_tell] at hv
        exact hself (.inr ⟨hb, by rw [Node.handle?, hv]; exact nofun⟩)
      have hall := executeAll_spares (around.keys s) 0 children t fun v hv => h v (by
        rw [visits_scope_ok he]
        exact List.mem_cons_of_mem _ hv)
      rw [execute_scope_ok he, State.context_tell, Scope.binding?_leave, if_neg hfree, hall, Scope.binding?_enter he,
        if_neg hfree, State.context_tell]

theorem executeAll_spares (keys : List String) : ∀ (position : Nat) (nodes : List (Node Empty)) (s : State ω),
    (∀ v ∈ visitsAll watcher input keys position nodes s, ¬ v.Takes name) →
      (executeAll watcher input nodes s).2.context.binding? name = s.context.binding? name
  | _, [], s, _ => rfl
  | position, node :: nodes, s, h => by
    rw [visitsAll] at h
    have hn := execute_spares node s fun v hv => h (v.under position keys) (List.mem_append_left _ (List.mem_map_of_mem hv))
    rcases hx : node.execute watcher input s with ⟨_ | f, t⟩
    · rw [hx] at h hn
      rw [executeAll_cons_done hx]
      exact (executeAll_spares keys (position + 1) nodes t fun v hv => h v (List.mem_append_right _ hv)).trans hn
    · rw [hx] at hn
      rw [executeAll_cons_failed hx]
      exact hn
end

/-- No run of nodes binds a store or an object and leaves it bound. -/
theorem executeAll_hasNoHandle {nodes : List (Node Empty)} {s : State ω} (h : s.context.HasNoHandle name) :
    (executeAll watcher input nodes s).2.context.HasNoHandle name := by
  have hm : Moves (nodes.flatMap written) (nodes.flatMap bound) s.context (executeAll watcher input nodes s).2.context :=
    executeAll_moves watcher input nodes s (fun node hn _ hw => List.mem_flatMap.2 ⟨node, hn, hw⟩)
      fun node hn _ hb => List.mem_flatMap.2 ⟨node, hn, hb⟩
  exact fun value hv hh => h value (hm.frame.handles name value hv hh) hh

mutual
/-- A name that a visited node takes is bound to a text or to nothing after a
run that does not fail. -/
theorem execute_takes : ∀ (node : Node Empty) (s : State ω), (node.execute watcher input s).1 = .done →
    (∃ v ∈ node.visits watcher input s, v.Takes name) → (node.execute watcher input s).2.context.HasNoHandle name
  | .step label action, s, hd, ⟨v, hv, ht⟩ => by
    rw [visits, List.mem_singleton] at hv
    subst hv
    rcases ht with hw | ⟨hb, -⟩
    · rw [execute, watched] at hd ⊢
      obtain ⟨text, hb⟩ := Step.perform_writes hw hd
      intro value hv
      rw [State.context_tell, hb] at hv
      cases hv
      rintro (⟨ref, h⟩ | ⟨record, h⟩) <;> cases h
    · cases hb
  | .scope label around children, s, hd, ⟨v, hv, ht⟩ => by
    rcases he : around.enter (s.tell watcher (·.onStart label)) with ⟨outcome, t⟩ | t
    · -- A scope that skips its children takes nothing.
      rw [visits, he, List.mem_singleton] at hv
      subst hv
      rcases ht with hw | ⟨-, hh⟩
      · cases hw
      · refine absurd ?_ hh
        rw [← State.context_tell s watcher (·.onStart label)]
        exact (Scope.handle?_of_enter_error he).1
    · rw [execute_scope_ok he] at hd ⊢
      intro value hv'
      rw [State.context_tell, Scope.binding?_leave] at hv'
      split at hv'
      · cases hv'
      · rename_i hfree
        rw [visits_scope_ok he, List.mem_cons] at hv
        rcases hv with rfl | hv
        · rcases ht with hw | ⟨hb, -⟩
          · cases hw
          · exact absurd hb hfree
        · exact executeAll_takes (around.keys s) 0 children t hd ⟨v, hv, ht⟩ value hv'

theorem executeAll_takes (keys : List String) : ∀ (position : Nat) (nodes : List (Node Empty)) (s : State ω),
    (executeAll watcher input nodes s).1 = .done → (∃ v ∈ visitsAll watcher input keys position nodes s, v.Takes name) →
      (executeAll watcher input nodes s).2.context.HasNoHandle name
  | _, [], s, _, ⟨v, hv, _⟩ => by
    rw [visitsAll] at hv
    cases hv
  | position, node :: nodes, s, hd, ⟨v, hv, ht⟩ => by
    rw [visitsAll, List.mem_append] at hv
    rcases hx : node.execute watcher input s with ⟨_ | f, t⟩
    · rw [executeAll_cons_done hx] at hd ⊢
      rw [hx] at hv
      rcases hv with hv | hv
      · obtain ⟨u, hu, rfl⟩ := List.mem_map.1 hv
        have hn := execute_takes node s (by rw [hx]) ⟨u, hu, ht⟩
        rw [hx] at hn
        exact executeAll_hasNoHandle hn
      · exact executeAll_takes keys (position + 1) nodes t hd ⟨v, hv, ht⟩
    · rw [executeAll_cons_failed hx] at hd
      cases hd
end

/-- Nodes that run to their end leave a store or an object bound exactly when
none of them takes its name. -/
theorem executeAll_binding?_iff (keys : List String) {nodes : List (Node Empty)} {s t : State ω} {value : Value}
    (hrun : executeAll watcher input nodes s = (.done, t)) (hv : s.context.binding? name = some value)
    (hh : value.IsHandle) :
    t.context.binding? name = some value ↔ ∀ v ∈ visitsAll watcher input keys 0 nodes s, ¬ v.Takes name := by
  constructor
  · intro hkept v hm htakes
    have hlost := executeAll_takes keys 0 nodes s (by rw [hrun]) ⟨v, hm, htakes⟩
    rw [hrun] at hlost
    exact hlost value hkept hh
  · intro hfree
    have hkept := executeAll_spares keys 0 nodes s hfree
    rw [hrun] at hkept
    exact hkept.trans hv

theorem eq_of_mem_visits {node : Node Empty} {s : State ω} {v : Visit ω} (h : v ∈ node.visits watcher input s)
    (hp : v.path = []) : v = ⟨[], [], node, s⟩ := by
  rcases mem_visits.1 h with rfl | ⟨position, keys, child, t, -, u, -, rfl⟩
  · rfl
  · cases hp

/-- The visits up to a position are those that lie in children before it. -/
theorem mem_visitsAll_take {keys : List String} {nodes : List (Node Empty)} {s : State ω} {place : Nat} {v : Visit ω} :
    v ∈ visitsAll watcher input keys 0 (nodes.take place) s ↔
      v ∈ visitsAll watcher input keys 0 nodes s ∧ ∃ earlier rest, v.path = earlier :: rest ∧ earlier < place := by
  have before {earlier : Nat} (h : earlier < place) : (nodes.take place).take earlier = nodes.take earlier := by
    rw [List.take_take, Nat.min_eq_left (Nat.le_of_lt h)]
  rw [mem_visitsAll, mem_visitsAll]
  constructor
  · rintro ⟨earlier, node, t, hp, hb, u, hu, rfl⟩
    rw [List.getElem?_take] at hp
    split at hp
    · rename_i hlt
      rw [before hlt] at hb
      exact ⟨⟨earlier, node, t, hp, hb, u, hu, rfl⟩, earlier, u.path, by rw [Nat.zero_add]; rfl, hlt⟩
    · cases hp
  · rintro ⟨⟨earlier, node, t, hp, hb, u, hu, rfl⟩, other, rest, hpath, hlt⟩
    have hlt : earlier < place := by
      rw [Nat.zero_add] at hpath
      cases hpath
      exact hlt
    exact ⟨earlier, node, t, by rwa [List.getElem?_take, if_pos hlt], by rwa [before hlt], u, hu, rfl⟩

variable {label : Label} {around : Scope} {children : List (Node Empty)} {s : State ω}

/-- A scope that ran its children ends without its name, and one that did not
leaves it as it was. -/
theorem binding?_execute_scope (hb : around.bound? = some name) :
    ((scope label around children).execute watcher input s).2.context.binding? name =
      if around.handle? s.context = none then s.context.binding? name else none := by
  rcases he : around.enter (s.tell watcher (·.onStart label)) with ⟨outcome, t⟩ | t
  · obtain ⟨hnone, hbindings⟩ := Scope.handle?_of_enter_error he
    rw [State.context_tell] at hnone hbindings
    rw [execute_scope_error he, State.context_tell, Context.binding?, hbindings, if_pos hnone]
    rfl
  · obtain ⟨value, hvalue⟩ := Scope.handle?_of_enter_ok he hb
    rw [State.context_tell] at hvalue
    rw [execute_scope_ok he, State.context_tell, Scope.binding?_leave, if_pos hb, hvalue, if_neg nofun]

/-- A child that a scope comes to finds what the scope binds, until the name is
taken. -/
theorem binding?_child_iff (hb : around.bound? = some name) {v : Visit ω}
    (hv : v ∈ (scope label around children).visits watcher input s) {position : Nat} (hp : v.path = [position]) :
    (∃ value, around.handle? s.context = some value ∧ value.IsHandle) ∧
      (v.state.context.binding? name = around.handle? s.context ↔
        ∀ u ∈ (scope label around children).visits watcher input s,
          (∃ earlier rest, u.path = earlier :: rest ∧ earlier < position) → ¬ u.Takes name) := by
  rcases he : around.enter (s.tell watcher (·.onStart label)) with ended | t
  · rw [visits, he, List.mem_singleton] at hv
    subst hv
    cases hp
  obtain ⟨value, hvalue⟩ := Scope.handle?_of_enter_ok he hb
  rw [State.context_tell] at hvalue
  have hhandle : value.IsHandle := Scope.isHandle_of_handle? hvalue
  have hstart : t.context.binding? name = some value := by
    rw [Scope.binding?_enter he, if_pos hb, State.context_tell, hvalue]
  refine ⟨⟨value, hvalue, hhandle⟩, ?_⟩
  rw [visits_scope_ok he, List.mem_cons] at hv
  rcases hv with rfl | hv
  · cases hp
  -- The child runs after those before it, which start where the scope's children start.
  obtain ⟨place, child, t', hchild, hbefore, u, hu, rfl⟩ := mem_visitsAll.1 hv
  rw [Nat.zero_add] at hp
  obtain ⟨rfl, hpath⟩ := List.cons.inj hp
  rw [eq_of_mem_visits hu hpath, hvalue]
  refine (executeAll_binding?_iff (around.keys s) hbefore hstart hhandle).trans (forall_congr' fun u => ?_)
  rw [mem_visitsAll_take, visits_scope_ok he, List.mem_cons]
  constructor
  · rintro h (rfl | hu) hpath
    · obtain ⟨earlier, rest, hpath, -⟩ := hpath
      cases hpath
    · exact h ⟨hu, hpath⟩
  · rintro h ⟨hu, hpath⟩
    exact h (.inr hu) hpath

/-- **What a scope binds, and for how long.** Each child that a scope comes to
finds under its name what the scope binds, until a node that ran before in the
scope takes the name; it may be a scope inside it. After the scope, however it
ends, the name is bound to nothing, so it is as it was before only where it was
bound to nothing then, or the children did not run. -/
theorem execute_scope_bindings (watcher : Option (Watcher ω)) (input : Json) {label : Label} {around : Scope}
    {children : List (Node Empty)} {cid : String} (hb : around.bound? = some cid) (s : State ω) :
    let node := scope label around children
    let visits := node.visits watcher input s
    let after := (node.execute watcher input s).2
    (∀ v ∈ visits, ∀ position, v.path = [position] →
        (∃ value, around.handle? s.context = some value ∧ value.IsHandle) ∧
          (v.state.context.binding? cid = around.handle? s.context ↔
            ∀ u ∈ visits, (∃ earlier rest, u.path = earlier :: rest ∧ earlier < position) → ¬ u.Takes cid)) ∧
      (after.context.binding? cid = s.context.binding? cid ↔
        around.handle? s.context = none ∨ s.context.binding? cid = none) ∧
      (around.handle? s.context ≠ none → after.context.binding? cid = none) := by
  intro node visits after
  have hafter : after.context.binding? cid =
      if around.handle? s.context = none then s.context.binding? cid else none := binding?_execute_scope hb
  refine ⟨fun v hv position hp => binding?_child_iff hb hv hp, ?_, fun hran => by rw [hafter, if_neg hran]⟩
  by_cases hnone : around.handle? s.context = none
  · rw [hafter, if_pos hnone]
    exact iff_of_true rfl (.inl hnone)
  · rw [hafter, if_neg hnone, eq_comm, or_iff_right hnone]

end Node

/-! ## Two scopes with one name -/

namespace Script

/-- The users "1" and "2", with their names. -/
def aliceAndBob : Session :=
  ⟨[(((Store.empty "users" .createIfAbsent fun _ _ => .absent).insert "1" ⟨"1", [("name", "alice")]⟩).2.insert "2"
    ⟨"2", [("name", "bob")]⟩).2]⟩

/-- Looks up one user, then inside it another one, and then reads the name of
the first, all under the name that objects have by default. -/
def oneInsideOther : Node Empty :=
  .scope ⟨[0], "cache-locate", some []⟩ (.locate "1" "$cache" "$cache-object")
    [.scope ⟨[0, 0], "cache-locate", some [0]⟩ (.locate "2" "$cache" "$cache-object") [],
      .step ⟨[1, 0], "cache-get", some [0]⟩ (.cacheGet "$cache-object" "name" "name" ""),
      .step ⟨[2, 0], "output", some [0]⟩ (.output "name" "${name}" "")]

theorem oneInsideOther_bindings :
    let input := Json.obj []
    let s := (start (.new aliceAndBob) ()).bind "$cache" (.store ⟨0, "users"⟩)
    let visits := oneInsideOther.visits none input s
    Scope.bound? (.locate "1" "$cache" "$cache-object") = some "$cache-object" ∧
      (∀ v ∈ visits, ∀ position, v.path = [position] →
        (v.state.context.binding? "$cache-object" = oneInsideOther.handle? s.context ↔
          ∀ u ∈ visits, (∃ earlier rest, u.path = earlier :: rest ∧ earlier < position) →
            ¬ u.Takes "$cache-object")) ∧
      (oneInsideOther.execute none input s).2.context.binding? "$cache-object" = none := by
  intro input s visits
  have hbound : Scope.bound? (.locate "1" "$cache" "$cache-object") = some "$cache-object" := rfl
  obtain ⟨hchildren, -, hafter⟩ := Node.execute_scope_bindings none input hbound s
  exact ⟨hbound, fun v hv position hp => (hchildren v hv position hp).2, hafter (by decide +kernel)⟩

/-- The same among the users. -/
def amongUsers : Script Empty :=
  ⟨.scope ⟨[], "cache", none⟩ (.cache "users" "$cache") [oneInsideOther]⟩

/-- A name is lost to the outer of two scopes with it, though no text is ever
written to it: its next child does not find the user, and after the inner scope
the name is not bound as it was. -/
theorem amongUsers_losesName :
    let input := Json.obj []
    let visits := amongUsers.root.visits (none : Option (Watcher Unit)) input (start (.new aliceAndBob) ())
    (amongUsers.execute (none : Option (Watcher Unit)) input (.new aliceAndBob) ()).result =
        .error (.missingBinding "$cache-object") ∧
      (¬ ∀ v ∈ visits, ∀ cid, v.node.bound? = some cid →
        (∀ u ∈ v.node.visits none input v.state, u.node.written? ≠ some cid) →
          ∀ u ∈ v.node.visits none input v.state, ∀ position, u.path = [position] →
            u.state.context.binding? cid = v.node.handle? v.state.context) ∧
      ¬ ∀ v ∈ visits, ∀ cid, v.node.bound? = some cid →
        (∀ u ∈ v.node.visits none input v.state, u.node.written? ≠ some cid) →
          (v.node.execute none input v.state).2.context.binding? cid = v.state.context.binding? cid := by
  intro input visits
  have hfails : (amongUsers.execute (none : Option (Watcher Unit)) (.obj []) (.new aliceAndBob) ()).result =
      .error (.missingBinding "$cache-object") := by with_unfolding_all rfl
  have hchild : ∃ v ∈ visits, v.node.bound? = some "$cache-object" ∧
      (∀ u ∈ v.node.visits none input v.state, u.node.written? ≠ some "$cache-object") ∧
        (v.node.handle? v.state.context).isSome = true ∧
          ∃ u ∈ v.node.visits none input v.state, u.path = [1] ∧
            (u.state.context.binding? "$cache-object").isNone = true := by decide +kernel
  have hinner : ∃ v ∈ visits, v.node.bound? = some "$cache-object" ∧
      (∀ u ∈ v.node.visits none input v.state, u.node.written? ≠ some "$cache-object") ∧
        (v.state.context.binding? "$cache-object").isSome = true ∧
          ((v.node.execute none input v.state).2.context.binding? "$cache-object").isNone = true := by decide +kernel
  refine ⟨hfails, fun h => ?_, fun h => ?_⟩
  · obtain ⟨v, hv, hbound, hwritten, hsome, u, hu, hpath, hnone⟩ := hchild
    rw [h v hv _ hbound hwritten u hu 1 hpath, Option.isNone_iff_eq_none] at hnone
    rw [hnone] at hsome
    cases hsome
  · obtain ⟨v, hv, hbound, hwritten, hsome, hnone⟩ := hinner
    rw [h v hv _ hbound hwritten, Option.isNone_iff_eq_none] at hnone
    rw [hnone] at hsome
    cases hsome

end Script

end CacheScript
