/-
Bound values are data. A run looks up the names that its tree reads and no
others, whatever the values bound to them hold: a reference inside a value is
never followed. So two contexts with the same stores that agree on those names
cannot be told apart by any run, its log, or its watcher.
-/
import CacheScript.Proofs.Run.Likeness
import CacheScript.Script

namespace CacheScript

variable {ω : Type}

/-- Two contexts have the same stores and bind the same to each of some names. -/
structure Context.AgreeOn (names : List String) (c d : Context) : Prop where
  session : c.session = d.session
  bindings : ∀ name ∈ names, c.binding? name = d.binding? name

/-- Two states that differ at most in bindings of other names. -/
structure State.AgreeOn (names : List String) (s t : State ω) : Prop where
  context : s.context.AgreeOn names t.context
  document : s.document = t.document
  log : s.log = t.log
  memory : s.memory = t.memory

namespace Context.AgreeOn

variable {names : List String} {c d : Context}

theorem bind (name : String) (value : Value) (h : c.AgreeOn names d) :
    (c.bind name value).AgreeOn names (d.bind name value) :=
  ⟨h.session, fun other ho => by rw [binding?_bind, binding?_bind, h.bindings other ho]⟩

theorem unbind (name : String) (h : c.AgreeOn names d) : (c.unbind name).AgreeOn names (d.unbind name) :=
  ⟨h.session, fun other ho => by rw [binding?_unbind, binding?_unbind, h.bindings other ho]⟩

end Context.AgreeOn

theorem State.AgreeOn.logAll {names : List String} {s t : State ω} (lines : List Log.Line) (h : s.AgreeOn names t) :
    (s.logAll lines).AgreeOn names (t.logAll lines) :=
  ⟨h.context, h.document, by simp only [State.logAll, h.log], h.memory⟩

theorem State.AgreeOn.tell {names : List String} {s t : State ω} (watcher : Option (Watcher ω))
    (event : Watcher ω → ω → ω × List Log.Remark) (h : s.AgreeOn names t) :
    (s.tell watcher event).AgreeOn names (t.tell watcher event) := by
  cases watcher with
  | none => exact h
  | some w =>
    simp only [State.tell, h.memory]
    exact logAll _ ⟨h.context, h.document, h.log, rfl⟩

theorem State.AgreeOn.load {names : List String} {s t : State ω} (store : StoreRef) (key : String)
    (h : s.AgreeOn names t) : (s.load store key).1 = (t.load store key).1 ∧
      (s.load store key).2.AgreeOn names (t.load store key).2 := by
  simp only [State.load, Context.load, h.context.session]
  exact ⟨trivial, logAll _ ⟨⟨rfl, h.context.bindings⟩, h.document, h.log, h.memory⟩⟩

/-- Nodes that read only these names cannot tell such states apart. -/
theorem State.AgreeOn.likeness (names : List String) (watcher : Option (Watcher ω)) :
    Likeness (· ∈ names) watcher watcher (State.AgreeOn names) where
  find? _ h := by rw [h.context.session]
  binding h := h.context.bindings
  document h := h.document
  bind name value h := ⟨h.context.bind name value, h.document, h.log, h.memory⟩
  unbind name h := ⟨h.context.unbind name, h.document, h.log, h.memory⟩
  move _ h := ⟨h.context, rfl, h.log, h.memory⟩
  load store key h := h.load store key
  logAll lines h := h.logAll lines
  tell event h := h.tell watcher (Watcher.told event)

/-- **Contexts that agree on what a script reads cannot be told apart** by a
run: it gives the same result, logs the same and tells a watcher the same, and
leaves contexts that again have the same stores and agree on these names. -/
theorem Script.execute_agreeOn (script : Script Empty) (watcher : Option (Watcher ω)) (input : Json) (memory : ω)
    {c d : Context} (h : c.AgreeOn script.root.reads d) :
    (script.execute watcher input c memory).result = (script.execute watcher input d memory).result ∧
      (script.execute watcher input c memory).log = (script.execute watcher input d memory).log ∧
      (script.execute watcher input c memory).memory = (script.execute watcher input d memory).memory ∧
      (script.execute watcher input c memory).context.AgreeOn script.root.reads
        (script.execute watcher input d memory).context := by
  have hs : (start c memory).AgreeOn script.root.reads (start d memory) := ⟨h, rfl, rfl, rfl⟩
  have he := (State.AgreeOn.likeness _ watcher).execute input script.root hs fun _ hn => hn
  unfold execute
  rcases hx : script.root.execute watcher input (start c memory) with ⟨o, s⟩
  rcases hy : script.root.execute watcher input (start d memory) with ⟨o', t⟩
  rw [hx, hy] at he
  obtain rfl : o = o' := he.outcome
  have ht := he.state.tell watcher (·.onComplete o)
  refine ⟨?_, congrArg List.reverse ht.log, ht.memory, ht.context⟩
  cases o with
  | done => exact congrArg Except.ok ht.document
  | failed f => rfl

namespace Script

/-- A script that greets by name, once as text and once as a value. -/
def greeting : Script Empty :=
  ⟨.scope ⟨[], "segment", none⟩ .segment
    [.step ⟨[0], "set", some []⟩ (.set "text" "Hello, ${ name }"),
      .step ⟨[1], "output", some []⟩ (.output "plain" "${text}" ""),
      .step ⟨[2], "output", some []⟩ (.output "whole" "" "name")]⟩

/-- Contexts in which the name is itself a reference, with and without what
it refers to. -/
def secretive (bindings : Dict Value) : Context := ⟨⟨[]⟩, ("name", .str "${secret}") :: bindings⟩

theorem greeting_agreeOn :
    (secretive [("secret", .str "hidden")]).AgreeOn greeting.root.reads (secretive []) ∧
      (greeting.execute none .null (secretive [("secret", .str "hidden")]) ()).result =
        (greeting.execute none .null (secretive []) ()).result := by
  have hr : greeting.root.reads = ["name", "text", "name"] := by decide +kernel
  have h : (secretive [("secret", .str "hidden")]).AgreeOn greeting.root.reads (secretive []) := by
    refine ⟨rfl, fun name hn => ?_⟩
    have hs : name ≠ "secret" := by
      rintro rfl
      rw [hr] at hn
      exact absurd hn (by decide)
    simp [secretive, Context.binding?, Dict.value?, hs]
  exact ⟨h, (execute_agreeOn greeting none .null () h).1⟩

end Script

end CacheScript
