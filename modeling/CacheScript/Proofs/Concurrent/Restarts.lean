/-
How often a load starts again. It does so when the slot that it waited for has
left the map meanwhile; and whoever takes a slot out of the map goes on to its
answer (`acts_overtakes`). So every new start of a load is paid for by the
answer of another call (`Charged`).
-/
import CacheScript.Proofs.Concurrent.Progress

namespace CacheScript.Concurrent

variable {α : Type}

/-! ## Answers are counted -/

theorem Machine.length_answers (m : Machine α) : m.answers.length = (m.threads.map (·.answers.length)).sum := by
  rw [answers, List.length_flatMap]

theorem Machine.length_calls (m : Machine α) :
    m.calls.flatten.length = (m.threads.map (·.allCalls.length)).sum := by
  rw [calls, List.length_flatten, List.map_map]
  rfl

theorem Thread.length_answers_goto {t : Thread α} {r r' : Running α} (hr : t.running = some r)
    (hp : r.answer? = none) {point : Point α} (hp' : ∀ n reply, point ≠ .unlocking n (some reply)) :
    (t.goto r' point).answers.length = t.answers.length := by
  have hno : Running.answer? { r' with point } = none := Running.answer?_eq_none hp'
  rw [answers_goto hr hp, hno]
  simp

theorem Thread.length_answers_decide {t : Thread α} {r r' : Running α} (hr : t.running = some r)
    (hp : r.answer? = none) (n : Nat) (reply : Reply α) :
    (t.goto r' (.unlocking n (some reply))).answers.length = t.answers.length + 1 := by
  rw [answers_goto hr hp]
  simp [Running.answer?]

theorem Thread.length_answers_reply {t : Thread α} {r : Running α} (hr : t.running = some r) (hp : r.answer? = none)
    (reply : Reply α) : (t.reply r reply).answers.length = t.answers.length + 1 := by
  rw [answers_reply hr hp]
  simp

/-- A thread answers each of its calls once at most. -/
theorem Thread.length_answers_le (t : Thread α) : t.answers.length ≤ t.allCalls.length := by
  cases hr : t.running with
  | none => simp [answers, allCalls, hr]
  | some r =>
    have hone := r.length_answer?_le
    simp only [answers, allCalls, hr, Option.bind_some, Option.map_some, Option.toList_some, List.length_append,
      List.length_map, List.length_singleton]
    omega

theorem Thread.length_answers_lt {t : Thread α} {r : Running α} (hr : t.running = some r) (hp : r.answer? = none) :
    t.answers.length < t.allCalls.length := by
  simp only [answers, allCalls, hr, hp, Option.bind_some, Option.map_some, Option.toList_some, Option.toList_none,
    List.length_append, List.length_map, List.length_singleton, List.length_nil]
  omega

theorem Machine.length_answers_le (m : Machine α) : m.answers.length ≤ m.calls.flatten.length := by
  rw [length_answers, length_calls]
  exact List.sum_le_sum fun t _ => t.length_answers_le

/-- A call that is under way and undecided is not among the answers. -/
theorem Machine.length_answers_lt {m : Machine α} {i : Nat} {r : Running α} (hr : m.Runs i r)
    (hp : r.answer? = none) : m.answers.length < m.calls.flatten.length := by
  obtain ⟨t, ht, hr⟩ := hr
  have hlt := Thread.length_answers_lt hr hp
  have hle := sum_map_set_le (fun t : Thread α => t.length_answers_le) t ht
  have hsame : m.threads.set i t = m.threads := by
    obtain ⟨hi, rfl⟩ := List.getElem?_eq_some_iff.1 ht
    exact List.set_getElem_self hi
  rw [hsame] at hle
  rw [length_answers, length_calls]
  omega

theorem Machine.length_answers_takeUp (s : Shared α) {threads : List (Thread α)} {me : Nat} {t : Thread α}
    (call : Call α) (todo : List (Call α)) (ht : threads[me]? = some t) (hr : t.running = none) :
    (⟨s, threads.set me (t.takeUp call todo)⟩ : Machine α).answers.length =
      (⟨s, threads⟩ : Machine α).answers.length := by
  have hsum := sum_map_set (fun t : Thread α => t.answers.length) (t.takeUp call todo) ht
  rw [Thread.answers_takeUp hr] at hsum
  rw [length_answers, length_answers]
  exact Nat.add_right_cancel hsum

theorem Machine.length_answers_act (s s' : Shared α) {threads : List (Thread α)} {me : Nat} {t : Thread α}
    (t' : Thread α) (ht : threads[me]? = some t) :
    (⟨s', threads.set me t'⟩ : Machine α).answers.length + t.answers.length =
      (⟨s, threads⟩ : Machine α).answers.length + t'.answers.length := by
  rw [length_answers, length_answers]
  exact sum_map_set (fun t : Thread α => t.answers.length) t' ht

/-- A step decides on one answer at most. -/
theorem acts_length_answers {me : Nat} {s s' : Shared α} {t t' : Thread α} {r : Running α} (hr : t.running = some r)
    (h : Acts me s t r s' t') :
    t'.answers.length = t.answers.length ∨ t'.answers.length = t.answers.length + 1 := by
  have hmore : t.answers.length ≤ t'.answers.length := (acts_answers hr h).length_le
  have hle : t'.answers.length ≤ t.answers.length + 1 := by
    rcases acts_next h with ⟨r', point, -, rfl⟩ | ⟨reply, rfl⟩
    · have := Running.length_answer?_le { r' with point }
      simp only [Thread.answers, Thread.goto, Option.bind_some, List.length_append, List.length_map] at this ⊢
      omega
    · simp only [Thread.answers, Thread.reply, Option.bind_none, Option.toList_none, List.length_append,
        List.length_map, List.length_singleton, List.length_nil]
      omega
  omega

/-! ## Slots that leave the map -/

/-- An act that takes a slot out of the map, or puts another one in its place,
decides on the answer of its call. -/
theorem acts_overtakes {me : Nat} {s s' : Shared α} {t t' : Thread α} {r : Running α} (hr : t.running = some r)
    (h : Acts me s t r s' t') :
    (∀ key n, s.map.value? key = some n → s'.map.value? key = some n) ∨
      t'.answers.length = t.answers.length + 1 := by
  cases h with
  | insert hp hc => exact .inr (Thread.length_answers_reply hr (by simp [Running.answer?, hp]) _)
  | clear hp hc => exact .inr (Thread.length_answers_reply hr (by simp [Running.answer?, hp]) _)
  | unmap hp => exact .inr (Thread.length_answers_decide hr (by simp [Running.answer?, hp]) _ _)
  | create hp hc hm =>
    refine .inl fun key n hv => ?_
    have hne : key ≠ r.call.key := by
      rintro rfl
      rw [hm] at hv
      cases hv
    exact (Dict.value?_put_other _ _ hne).trans hv
  | _ => exact .inl fun key n hv => hv

/-- What a call owes besides the times it started again: its slot has left the
map, or it has decided on its answer. -/
def Running.owes (s : Shared α) (r : Running α) : Nat :=
  match r.point with
  | .waiting n | .checking n => if s.isCurrent r.call.key n then 0 else 1
  | .unlocking _ (some _) => 1
  | _ => 0

theorem Running.owes_le_one (s : Shared α) (r : Running α) : r.owes s ≤ 1 := by
  unfold owes
  repeat' split
  all_goals omega

/-- A call that was not set back by an act of another one owes no more. -/
theorem Running.owes_mono {s s' : Shared α}
    (hm : ∀ key n, s.map.value? key = some n → s'.map.value? key = some n) (r : Running α) :
    r.owes s' ≤ r.owes s := by
  have hcur (n : Nat) : (if s'.isCurrent r.call.key n then 0 else 1) ≤
      if s.isCurrent r.call.key n then 0 else 1 := by
    by_cases h : s.isCurrent r.call.key n = true
    · have h' : s'.isCurrent r.call.key n = true := Shared.isCurrent_iff.2 (hm _ _ (Shared.isCurrent_iff.1 h))
      simp [h, h']
    · rw [if_neg h]
      split <;> omega
  cases hp : r.point with
  | waiting n | checking n =>
    simp only [owes, hp]
    exact hcur n
  | unlocking n reply => cases reply <;> simp [owes, hp]
  | _ => simp [owes, hp]

theorem owes_afterLock (s s' : Shared α) (n : Nat) (content : Option (Entry α)) (r : Running α) :
    Running.owes s' { r with point := Thread.afterLock s n content r.call } ≤
      (if s'.isCurrent r.call.key n then 0 else 1) +
        (Running.answer? { r with point := Thread.afterLock s n content r.call }).toList.length := by
  cases hcall : r.call with
  | load key create =>
    cases content with
    | some e => simp [Thread.afterLock, Running.owes, Running.answer?]
    | none =>
      by_cases hcr : s.creates create = true
      · simp [Thread.afterLock, Running.owes, hcr]
      · simp [Thread.afterLock, Running.owes, Running.answer?, hcr]
  | expire key => simp [Thread.afterLock, Running.owes]
  | _ => simp [Thread.afterLock, Running.owes, Running.answer?]

/-! ## One step -/

/-- What the acting call owes more than before is an answer that it has decided on. -/
theorem acts_owes {me : Nat} {s s' : Shared α} {t t' : Thread α} {r r' : Running α} (hr : t.running = some r)
    (h : Acts me s t r s' t') (hr' : t'.running = some r') :
    r'.effort.restarts + r'.owes s' + t.answers.length ≤ r.effort.restarts + r.owes s + t'.answers.length := by
  -- An act that goes on without an answer must not make the call owe more.
  have goOn {r₁ : Running α} {point : Point α} (ht : t' = t.goto r₁ point) (hp : r.answer? = none)
      (hp' : ∀ n reply, point ≠ .unlocking n (some reply))
      (hle : r₁.effort.restarts + Running.owes s' { r₁ with point } ≤ r.effort.restarts + r.owes s) :
      r'.effort.restarts + r'.owes s' + t.answers.length ≤ r.effort.restarts + r.owes s + t'.answers.length := by
    subst ht
    cases hr'
    rw [Thread.length_answers_goto hr hp hp']
    exact Nat.add_le_add_right hle _
  have decide {n : Nat} {reply : Reply α} (ht : t' = t.goto r (.unlocking n (some reply))) (hp : r.answer? = none) :
      r'.effort.restarts + r'.owes s' + t.answers.length ≤ r.effort.restarts + r.owes s + t'.answers.length := by
    subst ht
    cases hr'
    rw [Thread.length_answers_decide hr hp]
    have := Running.owes_le_one s' { r with point := .unlocking n (some reply) }
    simp only at this ⊢
    omega
  cases h with
  | absent | insert | clear | countNone | unlock | unlockLast => cases hr'
  | find hp hk hv =>
    refine goOn rfl (by simp [Running.answer?, hp]) (by simp) ?_
    simp [Running.owes, Shared.isCurrent_iff.2 hv]
  | create hp hc hv =>
    refine goOn rfl (by simp [Running.answer?, hp]) (by simp) ?_
    simp [Running.owes, Shared.isCurrent, Shared.mapNew]
  | @lock n hp ho =>
    cases hr'
    have hle := owes_afterLock s (s.setSlot n { s.slot n with owner := some me }) n (s.slot n).content r
    have howes : r.owes s = if s.isCurrent r.call.key n then 0 else 1 := by simp only [Running.owes, hp]
    rw [show (s.setSlot n { s.slot n with owner := some me }).isCurrent = s.isCurrent from rfl] at hle
    rw [Thread.answers_goto hr (by simp [Running.answer?, hp]), List.length_append, howes]
    simp only at hle ⊢
    omega
  | stale hp hv =>
    refine goOn rfl (by simp [Running.answer?, hp]) (by simp) ?_
    simp [Running.owes, hp, isCurrent_eq_false hv]
  | current hp | call hp | missed hp | retry hp | count hp | lockNext hp | unlockNext hp =>
    exact goOn rfl (by simp [Running.answer?, hp]) (by simp) (by simp [Running.owes])
  | found hp | unmap hp => exact decide rfl (by simp [Running.answer?, hp])

/-- A call that is answered has paid for its own answer too. -/
theorem acts_finished_owes {me : Nat} {s s' : Shared α} {t t' : Thread α} {r : Running α} (hr : t.running = some r)
    (h : Acts me s t r s' t') {f : Finished α} (hf : f ∈ t'.finished) : f ∈ t.finished ∨
      f.effort.restarts + 1 + t.answers.length ≤ r.effort.restarts + r.owes s + t'.answers.length := by
  have one {reply : Reply α} (hm : f ∈ (t.reply r reply).finished)
      (hle : 1 + t.answers.length ≤ r.owes s + (t.reply r reply).answers.length) : f ∈ t.finished ∨
        f.effort.restarts + 1 + t.answers.length ≤
          r.effort.restarts + r.owes s + (t.reply r reply).answers.length := by
    rcases List.mem_append.1 hm with hm | hm
    · exact .inl hm
    · rw [List.mem_singleton] at hm
      subst hm
      simp only
      omega
  have told {reply : Reply α} (hp : r.answer? = none) :
      1 + t.answers.length ≤ r.owes s + (t.reply r reply).answers.length := by
    rw [Thread.length_answers_reply hr hp]
    omega
  cases h with
  | absent hp | insert hp | clear hp | countNone hp | unlockLast hp =>
    exact one hf (told (by simp [Running.answer?, hp]))
  | @unlock n reply hp =>
    have howes : r.owes s = 1 := by simp only [Running.owes, hp]
    have hsame : 1 + t.answers.length = r.owes s + (t.reply r reply).answers.length := by
      rw [Thread.answers_unlock hr hp, howes]
    exact one hf (Nat.le_of_eq hsame)
  | _ => exact .inl hf

/-! ## All steps -/

/-- Every new start of a load is charged to an answer of another call. -/
structure Charged (m : Machine α) : Prop where
  running : ∀ i r, m.Runs i r → r.effort.restarts + r.owes m.shared ≤ m.answers.length
  finished : ∀ f ∈ m.finished, f.effort.restarts + 1 ≤ m.answers.length

theorem charged_ofStore (s : Store α) (calls : List (List (Call α))) : Charged (Machine.ofStore s calls) := by
  refine ⟨fun i r hr => (not_runs_ofStore hr).elim, fun f hf => ?_⟩
  obtain ⟨t, ht, hf⟩ := List.mem_flatMap.1 hf
  obtain ⟨todo, -, rfl⟩ := List.mem_map.1 ht
  cases hf

theorem Charged.takeUp {s : Shared α} {threads : List (Thread α)} {me : Nat} {t : Thread α} {call : Call α}
    {todo : List (Call α)} (h : Charged ⟨s, threads⟩) (ht : threads[me]? = some t) (hr : t.running = none) :
    Charged ⟨s, threads.set me (t.takeUp call todo)⟩ := by
  have hlen := Machine.length_answers_takeUp s call todo ht hr
  refine ⟨fun i r hm => ?_, fun f hf => ?_⟩
  · rw [Machine.runs_set (s := s) ht] at hm
    rw [hlen]
    split at hm
    · cases hm
      exact Nat.zero_le _
    · exact h.running i r hm
  · rw [hlen]
    rcases Machine.mem_finished_set (s := s) hf with hf | hf
    · exact h.finished f (Machine.mem_finished (t := t) ht hf)
    · exact h.finished f hf

theorem Charged.act {s s' : Shared α} {threads : List (Thread α)} {me : Nat} {t t' : Thread α} {r : Running α}
    (h : Charged ⟨s, threads⟩) (ht : threads[me]? = some t) (hr : t.running = some r) (ha : Acts me s t r s' t') :
    Charged ⟨s', threads.set me t'⟩ := by
  have hlen := Machine.length_answers_act s s' t' ht
  have hmore : t.answers.length ≤ t'.answers.length := (acts_answers hr ha).length_le
  have hmine : r.effort.restarts + r.owes s ≤ (⟨s, threads⟩ : Machine α).answers.length :=
    h.running me r ⟨t, ht, hr⟩
  refine ⟨fun i u hm => ?_, fun f hf => ?_⟩
  · rw [Machine.runs_set (s := s) ht] at hm
    split at hm
    · have hown := acts_owes hr ha hm
      simp only at hown ⊢
      omega
    · have hother : u.effort.restarts + u.owes s ≤ (⟨s, threads⟩ : Machine α).answers.length := h.running i u hm
      have hone := u.owes_le_one s'
      -- The slot of another call leaves the map only with an answer of the acting one.
      rcases acts_overtakes hr ha with hkeep | hanswer
      · have hle := u.owes_mono hkeep
        simp only
        omega
      · simp only
        omega
  · have old (hf : f ∈ (⟨s, threads⟩ : Machine α).finished) :
        f.effort.restarts + 1 ≤ (⟨s', threads.set me t'⟩ : Machine α).answers.length := by
      have := h.finished f hf
      omega
    rcases Machine.mem_finished_set (s := s) hf with hf | hf
    · rcases acts_finished_owes hr ha hf with hf | hle
      · exact old (Machine.mem_finished ht hf)
      · omega
    · exact old hf

theorem charged_of_reaches {s : Store α} {calls : List (List (Call α))} {m : Machine α}
    (h : Machine.Reaches (Machine.ofStore s calls) m) : Charged m :=
  Machine.induction (P := Charged) h (charged_ofStore s calls) (fun hm ht hr _ => hm.takeUp ht hr)
    fun hm ht hr ha => hm.act ht hr ha

/-- A call under way started again less often than there are calls. -/
theorem Charged.running_lt {m : Machine α} (h : Charged m) {i : Nat} {r : Running α} (hr : m.Runs i r) :
    r.effort.restarts < m.calls.flatten.length := by
  have hle := h.running i r hr
  cases hp : r.answer? with
  | none =>
    have := Machine.length_answers_lt hr hp
    omega
  | some answer =>
    have howes : r.owes m.shared = 1 := by
      unfold Running.answer? at hp
      split at hp
      · rename_i n reply hpoint
        simp only [Running.owes, hpoint]
      · cases hp
    have := m.length_answers_le
    omega

theorem Charged.finished_lt {m : Machine α} (h : Charged m) {f : Finished α} (hf : f ∈ m.finished) :
    f.effort.restarts < m.calls.flatten.length :=
  Nat.lt_of_lt_of_le (h.finished f hf) m.length_answers_le

end CacheScript.Concurrent
