/-
Runs over one session are independent of their order. A run sees of the session
what its loads find, and loads from a steady session find the same whatever was
loaded before. So each run of a batch comes to what it comes to alone, and it
makes the same loads wherever it stands in the batch.
-/
import CacheScript.Proofs.Run.Likeness
import CacheScript.Proofs.Store.Sessions

namespace CacheScript

variable {ω ω' : Type}

/-! ## Runs over two sessions -/

/-- Two states of runs that began over these sessions, and are the same but for
what else was loaded from the sessions before. -/
structure State.Beside (S T : Session) (s : State ω) (t : State ω') : Prop where
  sessions : ∃ loads, s.context.session = S.loadAll loads ∧ t.context.session = T.loadAll loads
  bindings : s.context.bindings = t.context.bindings
  document : s.document = t.document

namespace State.Beside

variable {S T : Session} {s : State ω} {t : State ω'}

theorem find? (hS : S.IsSteady) (hT : T.IsSteady) (h : S.AnswersAs T) (hst : State.Beside S T s t) (id : String) :
    s.context.session.find? id = t.context.session.find? id := by
  obtain ⟨loads, hs, ht⟩ := hst.sessions
  rw [hs, ht, ← (Session.answersAs_loadAll hS loads).find?, h.find?, (Session.answersAs_loadAll hT loads).find?]

theorem load (hS : S.IsSteady) (hT : T.IsSteady) (h : S.AnswersAs T) (hst : State.Beside S T s t) (store : StoreRef)
    (key : String) : (s.load store key).1 = (t.load store key).1 ∧
      State.Beside S T (s.load store key).2 (t.load store key).2 := by
  obtain ⟨loads, hs, ht⟩ := hst.sessions
  refine ⟨?_, ⟨loads ++ [(store, key)], ?_, ?_⟩, hst.bindings, hst.document⟩
  · show s.context.session.answer? store key = t.context.session.answer? store key
    rw [hs, ht, ← (Session.answersAs_loadAll hS loads).answer?, h.answer?,
      (Session.answersAs_loadAll hT loads).answer?]
  · rw [Session.loadAll_append, ← hs]
    rfl
  · rw [Session.loadAll_append, ← ht]
    rfl

theorem tell (hst : State.Beside S T s t) (watcher : Option (Watcher ω)) (watcher' : Option (Watcher ω'))
    (event : Watcher ω → ω → ω × List Log.Remark) (event' : Watcher ω' → ω' → ω' × List Log.Remark) :
    State.Beside S T (s.tell watcher event) (t.tell watcher' event') := by
  refine ⟨?_, ?_, ?_⟩
  · rw [State.context_tell, State.context_tell]
    exact hst.sessions
  · rw [State.context_tell, State.context_tell]
    exact hst.bindings
  · rw [State.document_tell, State.document_tell]
    exact hst.document

end State.Beside

theorem State.Beside.likeness {S T : Session} (hS : S.IsSteady) (hT : T.IsSteady) (h : S.AnswersAs T)
    (watcher : Option (Watcher ω)) (watcher' : Option (Watcher ω')) :
    Likeness (fun _ => True) watcher watcher' (State.Beside S T) where
  find? id hst := hst.find? hS hT h id
  binding hst name _ := congrArg (Dict.value? · name) hst.bindings
  document hst := hst.document
  bind name value hst := ⟨hst.sessions, congrArg (Dict.put · name value) hst.bindings, hst.document⟩
  unbind name hst := ⟨hst.sessions, congrArg (Dict.remove · name) hst.bindings, hst.document⟩
  move _ hst := ⟨hst.sessions, hst.bindings, rfl⟩
  load store key hst := hst.load hS hT h store key
  logAll _ hst := ⟨hst.sessions, hst.bindings, hst.document⟩
  tell event hst := hst.tell watcher watcher' (Watcher.told event) (Watcher.told event)

/-- A state changes its session by loads alone. -/
theorem State.kept_loads (S : Session) (watcher : Option (Watcher ω)) :
    Kept watcher fun s => ∃ loads, s.context.session = S.loadAll loads where
  bind _ _ h := h
  unbind _ h := h
  move _ h := h
  load store key h := by
    obtain ⟨loads, h⟩ := h
    refine ⟨loads ++ [(store, key)], ?_⟩
    rw [Session.loadAll_append, ← h]
    rfl
  log _ _ h := h
  tell _ h := by rwa [State.context_tell]

/-- The members of an input are bound, whatever the session. -/
theorem Context.ofInput_eq (session : Session) (input : Json) : (Context.ofInput session input).session = session ∧
    (Context.ofInput session input).bindings = (Context.ofInput ⟨[]⟩ input).bindings := by
  have params (entries : Dict Json) (c d : Context) (h : c.bindings = d.bindings) :
      (entries.foldl (fun c entry => c.bind entry.1 entry.2.toValue) c).session = c.session ∧
        (entries.foldl (fun c entry => c.bind entry.1 entry.2.toValue) c).bindings =
          (entries.foldl (fun c entry => c.bind entry.1 entry.2.toValue) d).bindings := by
    induction entries generalizing c d with
    | nil => exact ⟨rfl, h⟩
    | cons entry entries ih => exact ih _ _ (congrArg (Dict.put · entry.1 entry.2.toValue) h)
  cases input with
  | obj entries => exact params entries _ _ rfl
  | _ => exact ⟨rfl, rfl⟩

namespace Script

/-- Contexts with the same bindings give the same over sessions with the same
answers, and make the same loads from both. -/
theorem execute_alongside (script : Script Empty) (watcher : Option (Watcher ω)) (watcher' : Option (Watcher ω'))
    {c d : Context} (hc : c.session.IsSteady) (hd : d.session.IsSteady) (h : c.session.AnswersAs d.session)
    (hb : c.bindings = d.bindings) (input : Json) (memory : ω) (memory' : ω') :
    let run := script.execute watcher input c memory
    let run' := script.execute watcher' input d memory'
    run.result = run'.result ∧
      ∃ loads, run.context.session = c.session.loadAll loads ∧ run'.context.session = d.session.loadAll loads := by
  have hstart : State.Beside c.session d.session (start c memory) (start d memory') := ⟨⟨[], rfl, rfl⟩, hb, rfl⟩
  obtain ⟨hresult, s, t, hend, hs, ht⟩ :=
    (State.Beside.likeness hc hd h watcher watcher').script script input hstart fun _ _ => trivial
  refine ⟨hresult, ?_⟩
  rw [hs.context, ht.context]
  exact hend.sessions

/-- So does an input over two such sessions. -/
theorem execute_beside (script : Script Empty) (watcher : Option (Watcher ω)) (watcher' : Option (Watcher ω'))
    {S T : Session} (hS : S.IsSteady) (hT : T.IsSteady) (h : S.AnswersAs T) (input : Json) (memory : ω)
    (memory' : ω') :
    let run := script.execute watcher input (.ofInput S input) memory
    let run' := script.execute watcher' input (.ofInput T input) memory'
    run.result = run'.result ∧
      ∃ loads, run.context.session = S.loadAll loads ∧ run'.context.session = T.loadAll loads := by
  obtain ⟨hs, hbind⟩ := Context.ofInput_eq S input
  obtain ⟨ht, hbind'⟩ := Context.ofInput_eq T input
  have halong := script.execute_alongside watcher watcher' (c := .ofInput S input) (d := .ofInput T input)
    (by rwa [hs]) (by rwa [ht]) (by rwa [hs, ht]) (hbind.trans hbind'.symm) input memory memory'
  rwa [hs, ht] at halong

/-- A run loads from its session, and does nothing else to it. -/
theorem session_execute (script : Script Empty) (watcher : Option (Watcher ω)) (input : Json) (context : Context)
    (memory : ω) : ∃ loads,
      (script.execute watcher input context memory).context.session = context.session.loadAll loads := by
  obtain ⟨s, hloads, hs⟩ := (State.kept_loads context.session watcher).script script input context memory ⟨[], rfl⟩
  rw [hs.context]
  exact hloads

theorem steady_execute (script : Script Empty) (watcher : Option (Watcher ω)) {S : Session} (hS : S.IsSteady)
    (input : Json) (memory : ω) :
    (script.execute watcher input (.ofInput S input) memory).context.session.IsSteady := by
  obtain ⟨loads, hloads⟩ := script.session_execute watcher input (.ofInput S input) memory
  rw [hloads, (Context.ofInput_eq S input).1]
  exact Session.steady_loadAll hS loads

theorem answersAs_execute (script : Script Empty) (watcher : Option (Watcher ω)) {S : Session} (hS : S.IsSteady)
    (input : Json) (memory : ω) :
    S.AnswersAs (script.execute watcher input (.ofInput S input) memory).context.session := by
  obtain ⟨loads, hloads⟩ := script.session_execute watcher input (.ofInput S input) memory
  rw [hloads, (Context.ofInput_eq S input).1]
  exact Session.answersAs_loadAll hS loads

/-! ## Batches -/

/-- The stores that a batch leaves. -/
def sessionAfter (script : Script Empty) (watcher : Option (Watcher ω)) (S : Session) (memory : ω)
    (inputs : List Json) : Session :=
  (script.executeBatch watcher S memory inputs).2.1

theorem results_executeBatch (script : Script Empty) (watcher : Option (Watcher ω)) {S T : Session} (hS : S.IsSteady)
    (hT : T.IsSteady) (h : S.AnswersAs T) (inputs : List Json) (memory memory' : ω) :
    (script.executeBatch watcher T memory inputs).1 =
      inputs.map fun input => (script.execute watcher input (.ofInput S input) memory').result := by
  induction inputs generalizing T memory with
  | nil => rfl
  | cons input inputs ih =>
    obtain ⟨hresult, -⟩ := script.execute_beside watcher watcher hS hT h input memory' memory
    have hT' := script.steady_execute watcher hT input memory
    have hnext := h.trans (script.answersAs_execute watcher hT input memory)
    exact congr (congrArg List.cons hresult.symm) (ih hT' hnext _)

/-- Over stores that are alike a run leaves stores that are alike. -/
theorem alike_execute (script : Script Empty) (watcher : Option (Watcher ω)) {S T : Session} (hS : S.IsSteady)
    (h : S.Alike T) (input : Json) (memory memory' : ω) :
    (script.execute watcher input (.ofInput S input) memory).context.session.Alike
      (script.execute watcher input (.ofInput T input) memory').context.session := by
  obtain ⟨-, loads, hs, ht⟩ :=
    script.execute_beside watcher watcher hS (h.steady hS) (h.answersAs hS) input memory memory'
  rw [hs, ht]
  exact h.loadAll hS loads

theorem alike_executeBatch (script : Script Empty) (watcher : Option (Watcher ω)) {S T : Session} (hS : S.IsSteady)
    (h : S.Alike T) (inputs : List Json) (memory memory' : ω) :
    (script.sessionAfter watcher S memory inputs).Alike (script.sessionAfter watcher T memory' inputs) := by
  induction inputs generalizing S T memory memory' with
  | nil => exact h
  | cons input inputs ih =>
    exact ih (script.steady_execute watcher hS input memory) (script.alike_execute watcher hS h input memory memory') _ _

/-- Two runs can change places: each makes the same loads, first or second. -/
theorem alike_execute_swap (script : Script Empty) (watcher : Option (Watcher ω)) {S T : Session} (hS : S.IsSteady)
    (h : S.Alike T) (x y : Json) (memory₁ memory₂ memory₃ memory₄ : ω) :
    let afterX := (script.execute watcher x (.ofInput S x) memory₁).context.session
    let afterY := (script.execute watcher y (.ofInput T y) memory₂).context.session
    (script.execute watcher y (.ofInput afterX y) memory₃).context.session.Alike
      (script.execute watcher x (.ofInput afterY x) memory₄).context.session := by
  intro afterX afterY
  have hT := h.steady hS
  have hST := h.answersAs hS
  have hX : afterX.IsSteady := script.steady_execute watcher hS x memory₁
  have hY : afterY.IsSteady := script.steady_execute watcher hT y memory₂
  have hXT : afterX.AnswersAs T := (script.answersAs_execute watcher hS x memory₁).symm.trans hST
  have hSY : S.AnswersAs afterY := hST.trans (script.answersAs_execute watcher hT y memory₂)
  obtain ⟨-, xLoads, hx, hyx⟩ := script.execute_beside watcher watcher hS hY hSY x memory₁ memory₄
  obtain ⟨-, yLoads, hxy, hy⟩ := script.execute_beside watcher watcher hX hT hXT y memory₃ memory₂
  rw [hxy, hyx, show afterX = S.loadAll xLoads from hx, show afterY = T.loadAll yLoads from hy,
    ← Session.loadAll_append, ← Session.loadAll_append]
  exact (Session.loadAll_perm hS List.perm_append_comm).trans (h.loadAll hS _)

/-- What comes of a batch does not depend on the order of its inputs. -/
structure OrderFree (script : Script Empty) (watcher : Option (Watcher ω)) (session : Session)
    (inputs : List Json) : Prop where
  /-- Each run gives what it gives alone. -/
  results : ∀ memory memory', (script.executeBatch watcher session memory inputs).1 =
    inputs.map fun input => (script.execute watcher input (.ofInput session input) memory').result
  /-- In any order the same stores are left: the same objects under the same
  keys, and as many of them made, with as many calls of the loader for each key. -/
  stores : ∀ memory memory' others, inputs.Perm others →
    (script.sessionAfter watcher session memory inputs).Alike (script.sessionAfter watcher session memory' others)

theorem sessionAfter_perm (script : Script Empty) (watcher : Option (Watcher ω)) {inputs others : List Json}
    (hperm : inputs.Perm others) {S T : Session} (hS : S.IsSteady) (h : S.Alike T) (memory memory' : ω) :
    (script.sessionAfter watcher S memory inputs).Alike (script.sessionAfter watcher T memory' others) := by
  induction hperm generalizing S T memory memory' with
  | nil => exact h
  | cons input _ ih =>
    exact ih (script.steady_execute watcher hS input memory) (script.alike_execute watcher hS h input memory memory') _ _
  | swap x y inputs =>
    have hfirst := script.steady_execute watcher hS y memory
    exact script.alike_executeBatch watcher (script.steady_execute watcher hfirst x _)
      (script.alike_execute_swap watcher hS h y x memory memory' _ _) inputs _ _
  | trans _ _ ih ih' => exact (ih hS h memory memory).trans (ih' (h.steady hS) (.refl T) memory memory')

/-- **Runs over one session are independent of their order**, for every script,
and every session whose loaders answer by the key alone. -/
theorem executeBatch_orderFree (script : Script Empty) (watcher : Option (Watcher ω)) {session : Session}
    (h : session.IsSteady) (inputs : List Json) : script.OrderFree watcher session inputs :=
  ⟨script.results_executeBatch watcher h h (.refl session) inputs,
    fun memory memory' _ hperm => script.sessionAfter_perm watcher hperm h (.refl session) memory memory'⟩

/-- Looks up the name of a user. -/
def lookingUp : Script Empty :=
  ⟨.scope ⟨[], "cache", none⟩ (.cache "users" "u")
    [.scope ⟨[0], "cache-locate", some []⟩ (.locate "${id}" "u" "user")
      [.step ⟨[0, 0], "cache-get", some [0]⟩ (.cacheGet "user" "name" "name" ""),
        .step ⟨[1, 0], "output", some [0]⟩ (.output "name" "${name}" "")]]⟩

/-- One user from the start, and all others but one on demand. -/
def users : Session :=
  ⟨[((Store.empty "users" .createIfAbsent fun _ key =>
    if key = "9" then .absent else .found ⟨key, [("name", key ++ "!")]⟩).insert "0" ⟨"0", [("name", "seeded")]⟩).2]⟩

def user (id : String) : Json := .obj [("id", .str id)]

theorem lookingUp_orderFree : users.IsSteady ∧
    lookingUp.OrderFree (none : Option (Watcher Unit)) users [user "1", user "0", user "9", user "1"] ∧
    (lookingUp.executeBatch (none : Option (Watcher Unit)) users () [user "1", user "0", user "9", user "1"]).1 =
      [.ok [("name", .str "1!")], .ok [("name", .str "seeded")], .error (.objectNotFound "9"),
        .ok [("name", .str "1!")]] ∧
    (lookingUp.sessionAfter (none : Option (Watcher Unit)) users () [user "9", user "1", user "0", user "1"]).stores.map
      (·.calls) = [["9", "1"]] := by
  have h : users.IsSteady := by
    intro s hs
    rw [List.mem_singleton.1 hs]
    intro past past' key
    rfl
  exact ⟨h, executeBatch_orderFree lookingUp none h _, by with_unfolding_all rfl, by decide +kernel⟩

end Script

end CacheScript
