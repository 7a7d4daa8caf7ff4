/-
Runs do not get stuck. A thread that waits for a lock waits for one that can step
(`Formed.isDone_of_stuck`). And a call comes nearer to its answer with every step,
as long as its slot stays in the map (`acts_left`, `Thread.left_mono`).
-/
import CacheScript.Proofs.Concurrent.Calls
import CacheScript.Proofs.Concurrent.Invariant
import Mathlib.Algebra.Order.BigOperators.Group.List
import Mathlib.Algebra.Order.Group.Nat

namespace CacheScript.Concurrent

variable {α : Type}

/-! ## Someone can step -/

/-- The holder of a lock does not wait for another one. -/
theorem stepAt_of_held {me : Nat} {order : Arrangement} {s : Shared α} {t : Thread α} {r : Running α} {n : Nat}
    (h : r.point.held? = some n) : ∃ s' t', t.stepAt me order s r = some (s', t') := by
  unfold Thread.stepAt
  cases hp : r.point with
  | again | waiting _ | counting _ _ _ => rw [hp] at h; cases h
  | checking k =>
    simp only
    split
    · exact ⟨_, _, rfl⟩
    · exact ⟨_, _, rfl⟩
  | starting k => exact ⟨_, _, rfl⟩
  | calling k answer => cases answer <;> exact ⟨_, _, rfl⟩
  | unmapping k reply => exact ⟨_, _, rfl⟩
  | unlocking k reply => cases reply <;> exact ⟨_, _, rfl⟩
  | counted k rest count => cases rest <;> exact ⟨_, _, rfl⟩

/-- A call waits for nothing but a lock. -/
theorem stepAt_or_waits (me : Nat) (order : Arrangement) (s : Shared α) (t : Thread α) (r : Running α) :
    (∃ s' t', t.stepAt me order s r = some (s', t')) ∨ ∃ n j, (s.slot n).owner = some j := by
  by_cases hh : ∃ n, r.point.held? = some n
  · obtain ⟨n, hn⟩ := hh
    exact .inl (stepAt_of_held hn)
  have wait {n : Nat} {x : Shared α × Thread α}
      (hx : t.stepAt me order s r = if (s.slot n).owner.isSome then none else some x) :
      (∃ s' t', t.stepAt me order s r = some (s', t')) ∨ ∃ n j, (s.slot n).owner = some j := by
    cases ho : (s.slot n).owner with
    | none => exact .inl ⟨x.1, x.2, by simp [hx, ho]⟩
    | some j => exact .inr ⟨n, j, ho⟩
  cases hp : r.point with
  | again => exact .inl ⟨_, _, by simp only [Thread.stepAt, hp]; rfl⟩
  | waiting n => exact wait (by simp only [Thread.stepAt, hp]; rfl)
  | counting n rest count => exact wait (by simp only [Thread.stepAt, hp]; rfl)
  | _ => exact absurd ⟨_, by rw [hp]; rfl⟩ hh

/-- **No deadlock**: where no thread can step, every call has been answered. -/
theorem Formed.isDone_of_stuck {keys : List String} {m : Machine α} (h : Formed keys m)
    (hs : ∀ me order, m.step me order = none) : m.isDone = true := by
  have hstuck {i : Nat} {t : Thread α} {r : Running α} (ht : m.threads[i]? = some t) (hr : t.running = some r) :
      ¬ ∃ s' t', t.stepAt i .byKey m.shared r = some (s', t') := by
    rintro ⟨s', t', hst⟩
    have := Machine.step_of_stepAt ht hr hst
    rw [hs i .byKey] at this
    cases this
  have hfree (n : Nat) : (m.shared.slot n).owner = none := by
    cases ho : (m.shared.slot n).owner with
    | none => rfl
    | some j =>
      obtain ⟨r, ⟨t, ht, hr⟩, hp⟩ := (h.locks n j).1 ho
      exact (hstuck ht hr (stepAt_of_held hp)).elim
  rw [Machine.isDone_iff]
  intro t ht
  obtain ⟨i, hi⟩ := List.mem_iff_getElem?.1 ht
  cases hr : t.running with
  | some r =>
    rcases stepAt_or_waits i .byKey m.shared t r with hst | ⟨n, j, ho⟩
    · exact (hstuck hi hr hst).elim
    · rw [hfree n] at ho
      cases ho
  | none =>
    cases htodo : t.todo with
    | nil => exact ⟨rfl, rfl⟩
    | cons call todo =>
      have := hs i .byKey
      simp [Machine.step, hi, Thread.step, hr, htodo] at this

/-! ## How far a call is from its answer -/

/-- How far a call that does not count is from its answer. Loads that wait for a
slot which has left the map have to start again. -/
def Running.left (s : Shared α) (r : Running α) : Nat :=
  match r.point with
  | .unlocking _ (some _) => 1
  | .unmapping _ _ => 2
  | .calling _ _ => 3
  | .starting _ => 4
  | .checking n => if s.isCurrent r.call.key n then 5 else 9
  | .waiting n => if s.isCurrent r.call.key n then 6 else 10
  | .again => 7
  | .unlocking _ none => 8
  | .counting _ _ _ | .counted _ _ _ => 0

/-- How far a thread is from its last answer. -/
def Thread.left (s : Shared α) (t : Thread α) : Nat :=
  (t.running.map (·.left s)).getD 0 + 8 * t.todo.length

theorem sum_map_set_le {β : Type} {f f' : β → Nat} (hle : ∀ x, f' x ≤ f x) {b : β} (b' : β) :
    ∀ {l : List β} {i : Nat}, l[i]? = some b → ((l.set i b').map f').sum + f b ≤ (l.map f).sum + f' b'
  | [], _, h => by simp at h
  | x :: l, 0, h => by
    simp only [List.getElem?_cons_zero, Option.some.injEq] at h
    subst h
    have := List.sum_le_sum fun y (_ : y ∈ l) => hle y
    simp only [List.set_cons_zero, List.map_cons, List.sum_cons]
    omega
  | x :: l, i + 1, h => by
    have := hle x
    have := sum_map_set_le hle b' (l := l) (i := i) (by simpa using h)
    simp only [List.set_cons_succ, List.map_cons, List.sum_cons]
    omega

/-- While nothing leaves the map no thread is set back. -/
theorem Thread.left_mono {s s' : Shared α} (hm : ∀ key n, s.map.value? key = some n → s'.map.value? key = some n)
    (t : Thread α) : t.left s' ≤ t.left s := by
  have hcur {key : String} {n : Nat} (h : s.isCurrent key n = true) : s'.isCurrent key n = true :=
    Shared.isCurrent_iff.2 (hm key n (Shared.isCurrent_iff.1 h))
  cases hr : t.running with
  | none => simp [left, hr]
  | some r =>
    have hle : r.left s' ≤ r.left s := by
      cases hp : r.point with
      | checking n | waiting n =>
        simp only [Running.left, hp]
        by_cases h : s.isCurrent r.call.key n = true
        · simp only [if_pos h, if_pos (hcur h), Nat.le_refl]
        · rw [if_neg h]
          split <;> omega
      | unlocking n reply => cases reply <;> simp only [Running.left, hp] <;> exact Nat.le_refl _
      | _ => simp only [Running.left, hp]; exact Nat.le_refl _
    simp only [left, hr, Option.map_some, Option.getD_some]
    omega

theorem Thread.left_running {s : Shared α} {t : Thread α} {r : Running α} (hr : t.running = some r) :
    t.left s = r.left s + 8 * t.todo.length := by
  simp [left, hr]

theorem Thread.left_goto (s : Shared α) (t : Thread α) (r : Running α) (point : Point α) :
    (t.goto r point).left s = Running.left s { r with point } + 8 * t.todo.length :=
  left_running rfl

theorem Thread.left_reply (s : Shared α) (t : Thread α) (r : Running α) (reply : Reply α) :
    (t.reply r reply).left s = 8 * t.todo.length := by
  simp [left, Thread.reply]

theorem isCurrent_eq_false {s : Shared α} {key : String} {n : Nat} (h : s.map.value? key ≠ some n) :
    s.isCurrent key n = false := by
  simpa [Shared.isCurrent] using h

/-- With the lock of its slot, a call is at most where it looks whether the slot is
still mapped. -/
theorem left_afterLock (s s' : Shared α) (n : Nat) (content : Option (Entry α)) (r : Running α) :
    Running.left s' { r with point := Thread.afterLock s n content r.call } ≤
      if s'.isCurrent r.call.key n then 5 else 9 := by
  cases hcall : r.call with
  | load key create =>
    cases content with
    | some e => simp only [Thread.afterLock, Running.left]; split <;> omega
    | none =>
      simp only [Thread.afterLock]
      by_cases hcr : s.creates create = true
      · rw [if_pos hcr, ← hcall]
        exact Nat.le_refl _
      · rw [if_neg hcr]
        simp only [Running.left]
        split <;> omega
  | _ => simp only [Thread.afterLock, Running.left]; split <;> omega

/-- A call that does not count comes nearer to its answer with every step. -/
theorem acts_left {keys : List String} {me : Nat} {s s' : Shared α} {t t' : Thread α} {r : Running α}
    (hsize : r.call ≠ .size) (hf : Fits keys s r) (hr : t.running = some r) (h : Acts me s t r s' t') :
    t'.left s' < t.left s := by
  rw [Thread.left_running hr]
  cases h with
  | insert hp hc => rw [Thread.left_reply]; simp [Running.left, hp]
  | clear hp hc => rw [Thread.left_reply]; simp [Running.left, hp]
  | countNone hp hc _ => exact absurd hc hsize
  | count hp hc _ => exact absurd hc hsize
  | lockNext hp _ => simp only [Fits, hp] at hf; exact absurd hf.1 hsize
  | unlockLast hp => simp only [Fits, hp] at hf; exact absurd hf.1 hsize
  | unlockNext hp => simp only [Fits, hp] at hf; exact absurd hf.1 hsize
  | find hp hk hv => rw [Thread.left_goto]; simp [Running.left, hp, Shared.isCurrent_iff.2 hv]
  | create hp hc hv => rw [Thread.left_goto]; simp [Running.left, hp, Shared.isCurrent, Shared.mapNew]
  | absent hp hk hc hv => rw [Thread.left_reply]; simp [Running.left, hp]
  | @lock n hp ho =>
    have hle := left_afterLock s (s.setSlot n { s.slot n with owner := some me }) n (s.slot n).content r
    rw [show (s.setSlot n { s.slot n with owner := some me }).isCurrent = s.isCurrent from rfl] at hle
    have hleft : r.left s = if s.isCurrent r.call.key n then 6 else 10 := by
      simp only [Running.left, hp]
    have hlt : Running.left (s.setSlot n { s.slot n with owner := some me })
        { r with point := Thread.afterLock s n (s.slot n).content r.call } < r.left s := by
      rw [hleft]
      by_cases hv : s.isCurrent r.call.key n = true
      · rw [if_pos hv] at hle ⊢
        omega
      · rw [if_neg hv] at hle ⊢
        omega
    rw [Thread.left_goto]
    omega
  | current hp hv => rw [Thread.left_goto]; simp [Running.left, hp, Shared.isCurrent_iff.2 hv]
  | stale hp hv => rw [Thread.left_goto]; simp [Running.left, hp, isCurrent_eq_false hv]
  | call hp => rw [Thread.left_goto]; simp [Running.left, hp]
  | found hp => rw [Thread.left_goto]; simp [Running.left, hp]
  | missed hp _ => rw [Thread.left_goto]; simp [Running.left, hp]
  | unmap hp => rw [Thread.left_goto]; simp [Running.left, hp]
  | unlock hp => rw [Thread.left_reply]; simp [Running.left, hp]
  | retry hp => rw [Thread.left_goto]; simp [Running.left, hp]

end CacheScript.Concurrent
