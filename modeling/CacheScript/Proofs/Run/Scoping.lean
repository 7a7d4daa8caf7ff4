/-
Scoping: a tree in which every name that is read as a store or as an object is
bound by a scope further out, where no scope hides another one's name and no
text is written over it, never stops for want of a binding.

The conditions look at the tree alone. What they come to at a run is
`Supplied`: the scopes around a node have in place what they bind, from before
the node to after it, whatever ran in between.
-/
import CacheScript.Proofs.Run.Bindings

namespace CacheScript

variable {ω κ : Type}

/-- The name that a scope binds a store to. -/
def Scope.storeName? : Scope → Option String
  | cache _ cid => some cid
  | _ => none

/-- The name that a scope binds an object to. -/
def Scope.objectName? : Scope → Option String
  | locate _ _ cid => some cid
  | _ => none

namespace Node

/-- The name under which a node wants a store. -/
def storeWanted? : Node κ → Option String
  | scope _ (.locate _ pid _) _ => some pid
  | _ => none

/-- The name under which a node wants an object. -/
def objectWanted? : Node κ → Option String
  | step _ (.cacheGet cid _ _ _) => some cid
  | _ => none

/-- Every wanted name is bound further out, and stays bound. -/
structure WellScoped (root : Node κ) : Prop where
  stores : ∀ place ∈ root.places [], ∀ name ∈ place.2.storeWanted?,
    ∃ outer ∈ place.1, outer.storeName? = some name
  objects : ∀ place ∈ root.places [], ∀ name ∈ place.2.objectWanted?,
    ∃ outer ∈ place.1, outer.objectName? = some name
  /-- No scope lies inside another one with the same name. -/
  distinct : ∀ place ∈ root.places [], ∀ name ∈ place.2.bound?, ∀ outer ∈ place.1, outer.bound? ≠ some name
  /-- No text is written to the name of a scope. -/
  apart : ∀ name ∈ root.written, name ∉ root.bound

/-! ## Places of well-scoped trees -/

theorem around_subset {around : List Scope} {node : Node κ} {place : List Scope × Node κ}
    (h : place ∈ places around node) : ∀ outer ∈ around, outer ∈ place.1 := by
  have hp := places_inside around [] node
  rw [List.nil_append] at hp
  rw [hp, List.mem_map] at h
  obtain ⟨inner, -, rfl⟩ := h
  exact fun outer ho => List.mem_append_right _ ho

/-- A scope around a place is around the whole tree, or a node of it. -/
theorem scope_of_place {outer : Scope} {place : List Scope × Node κ} (ho : outer ∈ place.1) (node : Node κ) :
    ∀ {around : List Scope}, place ∈ places around node →
      outer ∈ around ∨ ∀ name, outer.bound? = some name → name ∈ node.bound := by
  induction node using byChildren with
  | h node ih =>
    intro around hp
    rcases mem_places.1 hp with rfl | ⟨child, hc, hp⟩
    · exact .inl ho
    rcases ih child hc hp with h | h
    · cases node with
      | step label action => exact .inl h
      | custom label kind children => exact .inl h
      | scope label inner children =>
        rcases List.mem_cons.1 h with rfl | h
        · exact .inr fun name hn => bound_of_scope hn
        · exact .inl h
    · exact .inr fun name hn => bound_child hc (h name hn)

/-- A node stands in a tree inside these scopes. -/
def StandsIn (node root : Node κ) (around : List Scope) : Prop :=
  ∀ place ∈ node.places around, place ∈ root.places []

theorem StandsIn.self_mem {node root : Node κ} {around : List Scope} (h : node.StandsIn root around) :
    (around, node) ∈ root.places [] :=
  h _ (self_mem_places around node)

theorem StandsIn.child {root node child : Node κ} {around : List Scope} (h : node.StandsIn root around)
    (hc : child ∈ node.children) : child.StandsIn root (node.inside around) :=
  fun place hp => h place (places_child hc hp)

/-- A node of a well-scoped tree neither writes nor binds the names of the
scopes around it. -/
theorem WellScoped.spares {root node : Node κ} (hr : root.WellScoped) {around : List Scope}
    (hn : node.StandsIn root around) {outer : Scope} (ho : outer ∈ around) {name : String}
    (hb : outer.bound? = some name) : name ∉ node.written ∧ name ∉ node.bound := by
  have hbound : name ∈ root.bound := by
    rcases scope_of_place ho root hn.self_mem with h | h
    · simp at h
    · exact h name hb
  refine ⟨fun hw => ?_, fun hw => ?_⟩
  · obtain ⟨place, hp, h⟩ := (mem_written around).1 hw
    exact hr.apart name ((mem_written []).2 ⟨place, hn place hp, h⟩) hbound
  · obtain ⟨place, hp, h⟩ := (mem_bound around).1 hw
    exact hr.distinct place (hn place hp) name h outer (around_subset hp outer ho) hb

end Node

/-! ## Runs of well-scoped trees -/

/-- What a scope binds is in place. -/
def Scope.Holds (c : Context) : Scope → Prop
  | cache _ cid => ∃ ref, c.binding? cid = some (.store ref)
  | locate _ _ cid => ∃ record, c.binding? cid = some (.object record)
  | _ => True

theorem Scope.Holds.congr {c d : Context} {outer : Scope} (h : outer.Holds c)
    (hb : ∀ name, outer.bound? = some name → d.binding? name = c.binding? name) : outer.Holds d := by
  cases outer with
  | cache id cid => exact h.imp fun _ h => (hb cid rfl).trans h
  | locate id pid cid => exact h.imp fun _ h => (hb cid rfl).trans h
  | segment => trivial
  | object tag => trivial

/-- What the scopes around a node bind is in place. -/
def Supplied (around : List Scope) (c : Context) : Prop :=
  ∀ outer ∈ around, outer.Holds c

/-- An outcome that is not for want of a store or an object. -/
def Outcome.LacksNothing (outcome : Outcome) : Prop :=
  ∀ name, outcome ≠ .failed (.missingCacheContext name) ∧ outcome ≠ .failed (.missingBinding name)

namespace Supplied

variable {around : List Scope} {c : Context}

theorem storeAt (h : Supplied around c) {name : String} (hw : ∃ outer ∈ around, outer.storeName? = some name) :
    ∃ ref, c.storeAt name = .ok ref := by
  obtain ⟨outer, ho, hn⟩ := hw
  have hh := h outer ho
  cases outer <;> simp only [Scope.storeName?, Option.some.injEq, reduceCtorEq] at hn
  subst hn
  obtain ⟨ref, hb⟩ := hh
  exact ⟨ref, by rw [Context.storeAt, hb]; rfl⟩

theorem recordAt (h : Supplied around c) {name : String} (hw : ∃ outer ∈ around, outer.objectName? = some name) :
    ∃ record, c.recordAt name = .ok record := by
  obtain ⟨outer, ho, hn⟩ := hw
  have hh := h outer ho
  cases outer <;> simp only [Scope.objectName?, Option.some.injEq, reduceCtorEq] at hn
  subst hn
  obtain ⟨record, hb⟩ := hh
  exact ⟨record, by rw [Context.recordAt, hb]; rfl⟩

/-- Binding the name of one more scope hides none of the others. -/
theorem bind (h : Supplied around c) {inner : Scope} {name : String} {value : Value}
    (hd : ∀ outer ∈ around, outer.bound? ≠ some name) (hi : inner.Holds (c.bind name value)) :
    Supplied (inner :: around) (c.bind name value) := by
  intro outer ho
  rcases List.mem_cons.1 ho with rfl | ho
  · exact hi
  · refine (h outer ho).congr fun other hb => ?_
    rw [Context.binding?_bind, if_neg]
    rintro rfl
    exact hd outer ho hb

end Supplied

theorem Step.perform_lacksNothing (watcher : Option (Watcher ω)) {around : List Scope} {s : State ω}
    (hs : Supplied around s.context) {label : Label} (action : Step)
    (hw : ∀ name ∈ (Node.step label action : Node κ).objectWanted?,
      ∃ outer ∈ around, outer.objectName? = some name) :
    (action.perform watcher s).1.LacksNothing := by
  intro name
  cases action with
  | cacheGet cid field id default =>
    obtain ⟨record, h⟩ := hs.recordAt (hw cid rfl)
    simp [Step.perform, h]
  | _ => simp [Step.perform]

/-- A scope that finds its store runs its children, if it does, with what it
binds in place. -/
theorem Scope.perform_lacksNothing {children : State ω → Outcome × State ω} {around : List Scope}
    {inner : Scope} {label : Label} {nodes : List (Node κ)} {s : State ω} (hs : Supplied around s.context)
    (hw : ∀ name ∈ (Node.scope label inner nodes).storeWanted?, ∃ outer ∈ around, outer.storeName? = some name)
    (hd : ∀ name ∈ inner.bound?, ∀ outer ∈ around, outer.bound? ≠ some name)
    (hc : ∀ t, Supplied (inner :: around) t.context → (children t).1.LacksNothing) :
    (inner.perform children s).1.LacksNothing := by
  have plain : (∀ c, inner.Holds c) → ∀ t : State ω, t.context = s.context → (children t).1.LacksNothing :=
    fun hi t ht => hc t fun outer ho => by
      rcases List.mem_cons.1 ho with rfl | ho
      · exact hi _
      · rw [ht]; exact hs outer ho
  cases inner with
  | segment => exact plain (fun _ => trivial) s rfl
  | cache id cid =>
    simp only [Scope.perform]
    split
    · intro name; simp
    · exact hc _ (hs.bind (hd cid rfl) ⟨_, by rw [Context.binding?_bind, if_pos rfl]⟩)
  | locate id pid cid =>
    obtain ⟨store, hstore⟩ := hs.storeAt (hw pid rfl)
    simp only [Scope.perform, hstore]
    split
    · intro name; simp
    · have hl : Supplied around (s.load store (s.context.interpolate id)).2.context :=
        fun outer ho => (hs outer ho).congr fun name _ => by
          rw [Context.binding?, State.bindings_load]; rfl
      split
      · intro name; simp
      · rename_i h
        rw [h] at hl
        exact hc _ (hl.bind (hd cid rfl) ⟨_, by rw [Context.binding?_bind, if_pos rfl]⟩)
  | object tag => exact plain (fun _ => trivial) _ rfl

namespace Node

variable (watcher : Option (Watcher ω)) (input : Json) {root : Node Empty}

/-- Running a node of a well-scoped tree leaves in place what the scopes
around it bind. -/
theorem WellScoped.supplied_execute (hr : root.WellScoped) {around : List Scope} {node : Node Empty}
    (hn : node.StandsIn root around) {s : State ω} (hs : Supplied around s.context) :
    Supplied around (node.execute watcher input s).2.context := by
  intro outer ho
  refine (hs outer ho).congr fun name hb => ?_
  obtain ⟨hw, hb⟩ := hr.spares hn ho hb
  exact (execute_moves watcher input node s).frame.untouched name hw hb

/-- So a list of such nodes lacks nothing when each of them does not. -/
theorem WellScoped.executeAll_lacksNothing (hr : root.WellScoped) {around : List Scope} :
    ∀ {nodes : List (Node Empty)} {s : State ω}, (∀ node ∈ nodes, node.StandsIn root around) →
      (∀ node ∈ nodes, ∀ t : State ω, Supplied around t.context → (node.execute watcher input t).1.LacksNothing) →
      Supplied around s.context → (executeAll watcher input nodes s).1.LacksNothing
  | [], _, _, _, _ => fun name => by simp [executeAll]
  | node :: nodes, s, hn, hx, hs => by
    have hl := hx node (by simp) s hs
    have hk := hr.supplied_execute watcher input (hn node (by simp)) hs
    rw [executeAll]
    split
    · rename_i t h
      rw [h] at hk
      exact hr.executeAll_lacksNothing (fun n hm => hn n (by simp [hm])) (fun n hm => hx n (by simp [hm])) hk
    · rename_i h
      rw [h] at hl
      exact hl

theorem WellScoped.node_lacksNothing (hr : root.WellScoped) (node : Node Empty) :
    ∀ {around : List Scope} {s : State ω}, node.StandsIn root around → Supplied around s.context →
      (node.execute watcher input s).1.LacksNothing := by
  induction node using byChildren with
  | h node ih =>
    intro around s hn hs
    have hself := hn.self_mem
    cases node with
    | step label action =>
      rw [execute, watched]
      exact Step.perform_lacksNothing watcher (by rwa [State.context_tell]) action (hr.objects _ hself)
    | custom label kind children => exact kind.elim
    | scope label inner children =>
      rw [execute, watched]
      refine Scope.perform_lacksNothing (by rwa [State.context_tell]) (hr.stores _ hself)
        (hr.distinct _ hself) fun t ht => ?_
      exact hr.executeAll_lacksNothing watcher input (fun child hc => hn.child hc)
        (fun child hc t ht => ih child hc (hn.child hc) ht) ht

/-- A run of a well-scoped tree never fails for want of a store or an object,
whatever it starts from. -/
theorem execute_lacksNothing (h : root.WellScoped) (s : State ω) :
    ∀ name, (root.execute watcher input s).1 ≠ .failed (.missingCacheContext name) ∧
      (root.execute watcher input s).1 ≠ .failed (.missingBinding name) :=
  h.node_lacksNothing watcher input root (fun _ hp => hp) fun _ ho => nomatch ho

/-- Two users, looked up one after the other under one name. -/
def twoUsers : Node Empty :=
  .scope ⟨[], "cache", none⟩ (.cache "users" "$cache")
    [.step ⟨[0], "set", some []⟩ (.set "uid" "1"),
      .scope ⟨[1], "cache-locate", some []⟩ (.locate "${uid}" "$cache" "$cache-object")
        [.step ⟨[0, 1], "cache-get", some [1]⟩ (.cacheGet "$cache-object" "name" "first" ""),
          .scope ⟨[1, 1], "obj", some [1]⟩ (.object "${first}")
            [.step ⟨[0, 1, 1], "cache-get", some [1, 1]⟩ (.cacheGet "$cache-object" "nick" "nick" "${first}")]],
      .scope ⟨[2], "cache-locate", some []⟩ (.locate "2" "$cache" "$cache-object")
        [.step ⟨[0, 2], "cache-get", some [2]⟩ (.cacheGet "$cache-object" "name" "second" "${nick}")]]

theorem wellScoped_twoUsers : twoUsers.WellScoped where
  stores := by decide
  objects := by decide
  distinct := by decide
  apart := by decide

/-- Also where the names of the scopes are bound to something else before. -/
theorem twoUsers_lacksNothing : twoUsers.WellScoped ∧
    (twoUsers.execute none .null
      (⟨⟨⟨[Store.empty "users" .createIfAbsent fun _ key => .found ⟨key, []⟩]⟩,
        [("$cache", .str "users"), ("$cache-object", .none)]⟩, [], [], [], ()⟩ : State Unit)).1 ≠
      .failed (.missingBinding "$cache-object") :=
  ⟨wellScoped_twoUsers, (execute_lacksNothing none .null wellScoped_twoUsers _ _).2⟩

end Node

end CacheScript
