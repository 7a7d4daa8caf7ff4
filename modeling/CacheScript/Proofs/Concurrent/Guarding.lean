/-
The lock of the map in full. A thread may have to wait for it while it holds the
lock of a slot, but no section of the map waits for a slot: whoever has the lock
of the map can step (`Guarded.Sound.step_of_holder`). So the two kinds of locks
cannot block each other, and the machine without the lock of the map reaches what
the machine with it reaches (`Guarded.reaches_iff`).
-/
import CacheScript.Proofs.Concurrent.Ending

namespace CacheScript.Concurrent

variable {α : Type}

/-! ## Sections of the map -/

/-- A section of the map waits for nothing. -/
theorem Thread.exists_step_of_usesMap {t : Thread α} (h : t.usesMap = true) (me : Nat) (order : Arrangement)
    (s : Shared α) : ∃ s' t', t.step me order s = some (s', t') := by
  cases hr : t.running with
  | none =>
    cases htodo : t.todo with
    | nil => simp [usesMap, hr, htodo] at h
    | cons call todo => exact ⟨_, _, by simp only [step, hr, htodo]; rfl⟩
  | some r =>
    simp only [usesMap, hr] at h
    simp only [step, hr]
    cases hp : r.point with
    | again => exact ⟨_, _, by simp only [stepAt, hp]; rfl⟩
    | checking n | unmapping n reply => exact stepAt_of_held (n := n) (by rw [hp]; rfl)
    | _ => simp [Point.usesMap, hp] at h

namespace Machine

theorem exists_step_of_usesMap {m : Machine α} {me : Nat} (h : m.usesMap me = true) (order : Arrangement) :
    ∃ m', m.step me order = some m' := by
  cases ht : m.threads[me]? with
  | none => simp [usesMap, ht] at h
  | some t =>
    simp only [usesMap, ht, Option.any_some] at h
    obtain ⟨s', t', hs⟩ := t.exists_step_of_usesMap h me order m.shared
    exact ⟨_, by simp only [step, ht, hs, Option.map_some]; rfl⟩

/-- The step of another thread leaves a thread where it is. -/
theorem usesMap_step {m m' : Machine α} {me i : Nat} {order : Arrangement} (hi : i ≠ me)
    (h : m.step me order = some m') : m'.usesMap i = m.usesMap i := by
  simp only [step] at h
  split at h
  · cases h
  · obtain ⟨⟨s', t'⟩, -, rfl⟩ := Option.map_eq_some_iff.1 h
    simp [usesMap, List.getElem?_set_ne hi.symm]

end Machine

/-! ## One step -/

namespace Guarded

/-- What a step of a thread does to the lock of the map and to the rest. -/
inductive Moves (me : Nat) (order : Arrangement) (g : Guarded α) : Guarded α → Prop
  | take (hh : g.holder = none) (hu : g.machine.usesMap me = true) :
      Moves me order g { g with holder := some (me, .before) }
  | use {m : Machine α} (hh : g.holder = some (me, .before)) (hm : g.machine.step me order = some m) :
      Moves me order g ⟨m, some (me, .after)⟩
  | giveBack (hh : g.holder = some (me, .after)) : Moves me order g { g with holder := none }
  | apart {m : Machine α} (hh : ∀ stage, g.holder ≠ some (me, stage)) (hu : g.machine.usesMap me = false)
      (hm : g.machine.step me order = some m) : Moves me order g { g with machine := m }

theorem step_eq_some_iff {me : Nat} {order : Arrangement} {g g' : Guarded α} :
    g.step me order = some g' ↔ Moves me order g g' := by
  constructor
  · intro h
    unfold step at h
    split at h
    · rename_i hh
      obtain ⟨m, hs, rfl⟩ := Option.map_eq_some_iff.1 h
      exact .use hh hs
    rename_i hbefore
    split at h
    · rename_i hh
      cases h
      exact .giveBack hh
    rename_i hafter
    split at h
    · rename_i hu
      split at h
      · cases h
      · rename_i hh
        cases h
        exact .take (by simpa using hh) hu
    · rename_i hu
      obtain ⟨m, hs, rfl⟩ := Option.map_eq_some_iff.1 h
      exact .apart (fun | .before => hbefore | .after => hafter) (by simpa using hu) hs
  · intro h
    cases h with
    | take hh hu => simp [step, hh, hu]
    | use hh hm => simp [step, hh, hm]
    | giveBack hh => simp [step, hh]
    | apart hh hu hm => simp [step, hh, hu, hm]

/-! ## With the lock and without -/

/-- Taking the lock of the map and giving it back change nothing else. -/
theorem Reaches.machine {g g' : Guarded α} (h : Reaches g g') : Machine.Reaches g.machine g'.machine := by
  induction h with
  | refl => exact .refl _
  | step _ hs ih =>
    cases step_eq_some_iff.1 hs with
    | take | giveBack => exact ih
    | use _ hm | apart _ _ hm => exact .step ih hm

/-- A step of the machine without the lock is one with it, or three. -/
theorem reaches_of_step {m m' : Machine α} {me : Nat} {order : Arrangement} {g : Guarded α}
    (hr : Reaches g ⟨m, none⟩) (hs : m.step me order = some m') : Reaches g ⟨m', none⟩ := by
  cases hu : m.usesMap me with
  | true =>
    have htake : step ⟨m, none⟩ me order = some ⟨m, some (me, .before)⟩ := step_eq_some_iff.2 (.take rfl hu)
    have huse : step ⟨m, some (me, .before)⟩ me order = some ⟨m', some (me, .after)⟩ :=
      step_eq_some_iff.2 (.use rfl hs)
    have hgive : step ⟨m', some (me, .after)⟩ me order = some ⟨m', none⟩ := step_eq_some_iff.2 (.giveBack rfl)
    exact .step (.step (.step hr htake) huse) hgive
  | false => exact .step hr (step_eq_some_iff.2 (.apart (by simp) hu hs))

/-- **The lock of the map can be left out**: while nobody holds it, the machine
with it is where the machine without it can be. -/
theorem reaches_iff {m m' : Machine α} : Reaches ⟨m, none⟩ ⟨m', none⟩ ↔ Machine.Reaches m m' := by
  constructor
  · exact fun h => h.machine
  · intro h
    induction h with
    | refl => exact .refl _
    | step _ hs ih => exact reaches_of_step ih hs

/-! ## No deadlock -/

/-- A thread that took the lock of the map goes on to its section of the map. -/
def Sound (g : Guarded α) : Prop :=
  ∀ me, g.holder = some (me, .before) → g.machine.usesMap me = true

theorem Sound.step {g g' : Guarded α} {me : Nat} {order : Arrangement} (h : g.Sound)
    (hs : g.step me order = some g') : g'.Sound := by
  intro i hi
  cases step_eq_some_iff.1 hs with
  | take hh hu => cases hi; exact hu
  | use hh hm => cases hi
  | giveBack hh => cases hi
  | apart hh hu hm =>
    have hne : i ≠ me := by rintro rfl; exact hh .before hi
    exact (Machine.usesMap_step hne hm).trans (h i hi)

theorem Sound.reaches {g g' : Guarded α} (h : g.Sound) (hr : Reaches g g') : g'.Sound := by
  induction hr with
  | refl => exact h
  | step _ hs ih => exact ih.step hs

/-- Whoever holds the lock of the map waits for no other lock. -/
theorem Sound.step_of_holder {g : Guarded α} (h : g.Sound) {me : Nat} {stage : Stage}
    (hh : g.holder = some (me, stage)) (order : Arrangement) : ∃ g', g.step me order = some g' := by
  cases stage with
  | before =>
    obtain ⟨m, hs⟩ := Machine.exists_step_of_usesMap (h me hh) order
    exact ⟨_, step_eq_some_iff.2 (.use hh hs)⟩
  | after => exact ⟨_, step_eq_some_iff.2 (.giveBack hh)⟩

/-- **No deadlock**: where no thread can step, every call has been answered and
the lock of the map is free. -/
theorem Sound.isDone_of_stuck {keys : List String} {g : Guarded α} (h : g.Sound) (hf : Formed keys g.machine)
    (hs : ∀ me order, g.step me order = none) : g.isDone = true := by
  have hstuck (me : Nat) (order : Arrangement) (g' : Guarded α) : ¬ Moves me order g g' := by
    intro hm
    have := step_eq_some_iff.2 hm
    rw [hs me order] at this
    cases this
  have hfree : g.holder = none := by
    cases hh : g.holder with
    | none => rfl
    | some holder =>
      obtain ⟨me, stage⟩ := holder
      obtain ⟨g', hs⟩ := h.step_of_holder hh .byKey
      exact (hstuck me .byKey g' (step_eq_some_iff.1 hs)).elim
  -- Nobody waits for the lock of the map, so those that wait do so for a slot.
  have hm (me : Nat) (order : Arrangement) : g.machine.step me order = none := by
    cases hs : g.machine.step me order with
    | none => rfl
    | some m =>
      cases hu : g.machine.usesMap me with
      | true => exact (hstuck me order _ (.take hfree hu)).elim
      | false => exact (hstuck me order _ (.apart (by simp [hfree]) hu hs)).elim
  simp [isDone, hf.isDone_of_stuck hm, hfree]

theorem Sound.exists_step {keys : List String} {g : Guarded α} (h : g.Sound) (hf : Formed keys g.machine)
    (hopen : g.isDone = false) : ∃ me order g', g.step me order = some g' := by
  by_contra hnone
  have hstuck (me : Nat) (order : Arrangement) : g.step me order = none :=
    Option.eq_none_iff_forall_ne_some.2 fun g' hs => hnone ⟨me, order, g', hs⟩
  rw [h.isDone_of_stuck hf hstuck] at hopen
  cases hopen

/-! ## Runs end -/

/-- What the lock of the map adds to the way a run has to go: it is given back
after a section, and taken before one. -/
def lag (g : Guarded α) : Nat :=
  match g.holder with
  | some (_, .after) => 2
  | none => 1
  | some (_, .before) => 0

/-- How far a run is from its end. -/
def distance (g : Guarded α) : (Nat ×ₗ Nat ×ₗ Nat) ×ₗ Nat :=
  toLex (g.machine.distance, g.lag)

/-- Every step brings the run nearer to its end. -/
theorem distance_lt {keys : List String} {g g' : Guarded α} {me : Nat} {order : Arrangement}
    (hf : Formed keys g.machine) (hs : g.step me order = some g') : g'.distance < g.distance := by
  simp only [distance, Prod.Lex.toLex_lt_toLex]
  cases step_eq_some_iff.1 hs with
  | take hh hu => exact .inr ⟨rfl, by simp [lag, hh]⟩
  | giveBack hh => exact .inr ⟨rfl, by simp [lag, hh]⟩
  | use hh hm => exact .inl (hf.distance_lt hm)
  | apart hh hu hm => exact .inl (hf.distance_lt hm)

/-- No run goes on for ever. -/
theorem not_endless {keys : List String} {run : Nat → Guarded α} (hf : Formed keys (run 0).machine) :
    ¬ ∀ n, ∃ me order, (run n).step me order = some (run (n + 1)) := by
  intro hs
  have hreach (n : Nat) : Reaches (run 0) (run n) := by
    induction n with
    | zero => exact .refl _
    | succ n ih => obtain ⟨me, order, hme⟩ := hs n; exact .step ih hme
  obtain ⟨n, hn⟩ := WellFounded.not_rel_apply_succ (r := (· < ·)) fun n => (run n).distance
  obtain ⟨keys, hf⟩ := hf.reaches (hreach n).machine
  obtain ⟨me, order, hme⟩ := hs n
  exact hn (distance_lt hf hme)

end Guarded

/-! ## All calls are answered -/

/-- Calls of one store, spread over threads, do not block each other, neither at
the locks of the slots nor at the lock of the map. -/
structure CannotBlock (s : Store α) (calls : List (List (Call α))) : Prop where
  /-- While a call is not answered some thread can step. -/
  free : ∀ g, Guarded.Reaches (Guarded.ofStore s calls) g → g.isDone = false →
    ∃ me order g', g.step me order = some g'
  /-- Whoever holds the lock of the map can step: locks of slots are taken before it, never after. -/
  ordered : ∀ g, Guarded.Reaches (Guarded.ofStore s calls) g → ∀ me stage, g.holder = some (me, stage) →
    ∀ order, ∃ g', g.step me order = some g'
  /-- A call starts again at most once for each other call. -/
  restarts : ∀ g, Guarded.Reaches (Guarded.ofStore s calls) g →
    (∀ i r, g.machine.Runs i r → r.effort.restarts < calls.flatten.length) ∧
      ∀ f ∈ g.machine.finished, f.effort.restarts < calls.flatten.length
  /-- No run goes on for ever. -/
  ends : ∀ run : Nat → Guarded α, run 0 = Guarded.ofStore s calls →
    ¬ ∀ n, ∃ me order, (run n).step me order = some (run (n + 1))
  /-- A run stops only when all calls were answered. -/
  done : ∀ g, Guarded.Reaches (Guarded.ofStore s calls) g → (∀ me order, g.step me order = none) →
    g.isDone = true ∧ g.machine.finished.map (·.call) = calls.flatten

/-- **Calls of a store do not block each other**: there is no deadlock, few new
starts, and every run comes to an end with all calls answered. -/
theorem cannotBlock_ofStore (s : Store α) (calls : List (List (Call α))) : CannotBlock s calls := by
  have hstart := formed_ofStore s calls
  have hsound {g : Guarded α} (hr : Guarded.Reaches (Guarded.ofStore s calls) g) : g.Sound :=
    Guarded.Sound.reaches (fun _ h => by cases h) hr
  have hcalls {g : Guarded α} (hr : Guarded.Reaches (Guarded.ofStore s calls) g) : g.machine.calls = calls :=
    (Machine.calls_of_reaches hr.machine).trans (Machine.calls_ofStore s calls)
  refine ⟨fun g hr hopen => ?_, fun g hr me stage hh => (hsound hr).step_of_holder hh, fun g hr => ?_,
    fun run hrun => Guarded.not_endless (by rw [hrun]; exact hstart), fun g hr hstuck => ?_⟩
  · obtain ⟨keys, hf⟩ := hstart.reaches hr.machine
    exact (hsound hr).exists_step hf hopen
  · have hcharged := charged_of_reaches hr.machine
    rw [← hcalls hr]
    exact ⟨fun i r hi => hcharged.running_lt hi, fun f hf => hcharged.finished_lt hf⟩
  · obtain ⟨keys, hf⟩ := hstart.reaches hr.machine
    have hdone := (hsound hr).isDone_of_stuck hf hstuck
    have hanswered : g.machine.isDone = true := (Bool.and_eq_true_iff.1 hdone).1
    exact ⟨hdone, (Machine.calls_of_isDone hanswered).trans (congrArg List.flatten (hcalls hr))⟩

/- The bound is reached: here one load is set back by the one other call. -/
example : (((Guarded.ofStore (Store.empty "users" .createIfAbsent fun _ key => .found key)
    [[.load "1" true], [.clear]]).follow ([0, 0, 0, 1, 1, 1] ++ List.replicate 20 0)).machine.finished.map
      (·.effort.restarts)) = [1, 0] := by decide

/- A load that holds the lock of its slot waits for the map, whose lock the other thread holds. -/
example :
    let g := (Guarded.ofStore (Store.empty "users" .createIfAbsent fun _ key => .found key)
      [[.load "1" true], [.clear]]).follow [0, 0, 0, 0, 1]
    (g.machine.shared.slot 0).owner = some 0 ∧ (g.step 0 .byKey).isNone = true ∧
      g.holder = some (1, .before) := by decide

end CacheScript.Concurrent
