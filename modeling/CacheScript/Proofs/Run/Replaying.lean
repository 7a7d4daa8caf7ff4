/-
Runs and the stores that they leave. All that a run does to a store is to load
from it, so stores only grow; and a run that is made again over the stores that
it left loads the same once more, finds the same, and makes nothing.
-/
import CacheScript.Proofs.Run.Ordering
import CacheScript.Proofs.Store.Growing

namespace CacheScript.Script

variable {ω ω' : Type}

/-- **A run only adds to the stores, and repeating it is free.** Whether it
completes or fails, what is in a store stays there, and what is new the loader
answered during the run; a store that may only look up stays as it is. When
loaders answer by the key alone, the same script gives the same again in an
equal context over the stores that are left, and does no more to these than to
ask again in vain. -/
theorem execute_replays (script : Script Empty) (watcher : Option (Watcher ω)) (input : Json) (context : Context)
    (memory : ω) :
    let run := script.execute watcher input context memory
    context.session.Placewise Store.Grows run.context.session ∧
      (context.session.IsSteady → ∀ (watcher' : Option (Watcher ω')) (memory' : ω'),
        let again := script.execute watcher' input ⟨run.context.session, context.bindings⟩ memory'
        again.result = run.result ∧ run.context.session.Placewise Store.AsksInVain again.context.session) := by
  intro run
  obtain ⟨left, hleft⟩ : ∃ left, run.context.session = context.session.loadAll left :=
    script.session_execute watcher input context memory
  refine ⟨?_, fun hsteady watcher' memory' => ?_⟩
  · rw [hleft]
    exact Session.grows_loadAll left
  · intro again
    have hsteady' : run.context.session.IsSteady := by
      rw [hleft]
      exact Session.steady_loadAll hsteady left
    have hanswers : context.session.AnswersAs run.context.session := by
      rw [hleft]
      exact Session.answersAs_loadAll hsteady left
    -- Both runs make the same loads, and the second makes them over what the first left.
    obtain ⟨hresult, loads, hrun, hagain⟩ := script.execute_alongside watcher watcher' (c := context)
      (d := ⟨run.context.session, context.bindings⟩) hsteady hsteady' hanswers rfl input memory memory'
    have hagain : again.context.session = run.context.session.loadAll loads := hagain
    have hrun : run.context.session = context.session.loadAll loads := hrun
    refine ⟨hresult.symm, ?_⟩
    rw [hagain, hrun]
    exact Session.asksInVain_loadAll hsteady loads

/-- Looks up a user, and then one that is not found. -/
def askingAround : Script Empty :=
  ⟨.scope ⟨[], "cache", none⟩ (.cache "users" "u")
    [.scope ⟨[0], "cache-locate", some []⟩ (.locate "${id}" "u" "user")
      [.scope ⟨[0, 0], "cache-locate", some [0]⟩ (.locate "9" "u" "friend") []]]⟩

/-- Both runs fail part way, and all that the second does is to ask for the
missing user once more. -/
theorem askingAround_replays :
    let context := Context.ofInput users (user "5")
    let run := askingAround.execute (none : Option (Watcher Unit)) (user "5") context ()
    let again := askingAround.execute (none : Option (Watcher Unit)) (user "5")
      ⟨run.context.session, context.bindings⟩ ()
    context.session.IsSteady ∧
      (again.result = run.result ∧ run.context.session.Placewise Store.AsksInVain again.context.session) ∧
      run.result = .error (.objectNotFound "9") ∧
      run.context.session.stores.map (fun s => (s.entries.map (·.1), s.calls)) = [(["0", "5"], ["5", "9"])] ∧
      again.context.session.stores.map (fun s => (s.entries.map (·.1), s.calls)) = [(["0", "5"], ["5", "9", "9"])] := by
  intro context run again
  have h : context.session.IsSteady := by
    intro s hs
    rw [List.mem_singleton.1 hs]
    intro past past' key
    rfl
  have hfails : (askingAround.execute (none : Option (Watcher Unit)) (user "5") (.ofInput users (user "5")) ()).result =
      .error (.objectNotFound "9") := by with_unfolding_all rfl
  exact ⟨h, (askingAround.execute_replays none (user "5") context ()).2 h none (), hfails, by decide +kernel,
    by decide +kernel⟩

end CacheScript.Script
