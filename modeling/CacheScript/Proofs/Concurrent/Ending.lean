/-
Runs end, whatever calls the threads make. A step answers a call; or it takes up
the next one or reads off the map what there is to count; or else it brings its
call nearer to the answer while no slot leaves the map, so that no other call is
set back (`Formed.distance_lt`). Together with the absence of deadlock every run
comes to an end at which all calls were answered.
-/
import CacheScript.Proofs.Concurrent.Restarts
import Mathlib.Data.Prod.Lex
import Mathlib.Order.WellFounded

namespace CacheScript.Concurrent

variable {α : Type}

/-! ## How far a run is from its end -/

/-- How many steps a count still has to take. -/
def Point.looks : Point α → Nat
  | .counting _ rest _ => 2 * rest.length + 2
  | .counted _ rest _ => 2 * rest.length + 1
  | _ => 0

/-- One, for a count that has yet to read the slots off the map. -/
def Running.isAhead (r : Running α) : Nat :=
  match r.call, r.point with
  | .size, .again => 1
  | _, _ => 0

namespace Thread

/-- How many calls have yet to be taken up or to read the slots off the map. -/
def ahead (t : Thread α) : Nat :=
  t.todo.length + (t.running.map (·.isAhead)).getD 0

/-- How many steps the call under way is from its answer, if no slot leaves the map. -/
def toGo (s : Shared α) (t : Thread α) : Nat :=
  t.left s + (t.running.map (·.point.looks)).getD 0

end Thread

/-- How far a run is from its end: the calls that are not answered; those that
have not looked at the map; and the steps of the others. -/
def Machine.distance (m : Machine α) : Nat ×ₗ Nat ×ₗ Nat :=
  toLex (m.calls.flatten.length - m.answers.length,
    toLex ((m.threads.map Thread.ahead).sum, (m.threads.map (Thread.toGo m.shared)).sum))

theorem Machine.distance_lt {m m' : Machine α} : m'.distance < m.distance ↔
    m'.calls.flatten.length - m'.answers.length < m.calls.flatten.length - m.answers.length ∨
      m'.calls.flatten.length - m'.answers.length = m.calls.flatten.length - m.answers.length ∧
        ((m'.threads.map Thread.ahead).sum < (m.threads.map Thread.ahead).sum ∨
          (m'.threads.map Thread.ahead).sum = (m.threads.map Thread.ahead).sum ∧
            (m'.threads.map (Thread.toGo m'.shared)).sum < (m.threads.map (Thread.toGo m.shared)).sum) := by
  simp only [distance, Prod.Lex.toLex_lt_toLex]

/-! ## One step -/

/-- A count takes the steps of a count. -/
theorem acts_size {keys : List String} {me : Nat} {s s' : Shared α} {t t' : Thread α} {r : Running α}
    (hsize : r.call = .size) (hf : Fits keys s r) (hr : t.running = some r) (h : Acts me s t r s' t') :
    t'.answers.length = t.answers.length + 1 ∨
      t'.answers.length = t.answers.length ∧ (t'.ahead < t.ahead ∨
        t'.ahead = t.ahead ∧ t'.toGo s' < t.toGo s) := by
  have counts {r' : Running α} {point : Point α} (ht : t' = t.goto r' point) (hp : r.answer? = none)
      (hp' : ∀ n reply, point ≠ .unlocking n (some reply)) : t'.answers.length = t.answers.length := by
    rw [ht]
    exact Thread.length_answers_goto hr hp hp'
  cases h with
  | countNone hp _ _ => exact .inl (Thread.length_answers_reply hr (by simp [Running.answer?, hp]) _)
  | unlockLast hp => exact .inl (Thread.length_answers_reply hr (by simp [Running.answer?, hp]) _)
  | count hp _ _ =>
    refine .inr ⟨counts rfl (by simp [Running.answer?, hp]) (by simp), .inl ?_⟩
    simp [Thread.ahead, Thread.goto, hr, Running.isAhead, hsize, hp]
  | lockNext hp _ =>
    refine .inr ⟨counts rfl (by simp [Running.answer?, hp]) (by simp), .inr ⟨?_, ?_⟩⟩
    · simp [Thread.ahead, Thread.goto, hr, Running.isAhead, hsize, hp]
    · simp [Thread.toGo, Thread.left, Thread.goto, hr, Running.left, Point.looks, hp]
  | unlockNext hp =>
    refine .inr ⟨counts rfl (by simp [Running.answer?, hp]) (by simp), .inr ⟨?_, ?_⟩⟩
    · simp [Thread.ahead, Thread.goto, hr, Running.isAhead, hsize, hp]
    · simp [Thread.toGo, Thread.left, Thread.goto, hr, Running.left, Point.looks, hp]
      omega
  | find hp hk _ => rw [hsize] at hk; exact hk.elim
  | absent hp hk _ _ => rw [hsize] at hk; exact hk.elim
  | create hp hc _ => rw [hsize] at hc; cases hc
  | insert hp hc => rw [hsize] at hc; cases hc
  | clear hp hc => rw [hsize] at hc; cases hc
  | lock hp _ | unmap hp | unlock hp =>
    simp only [Fits, hp, hsize] at hf
    exact hf.1.elim
  | current hp _ | stale hp _ | call hp | found hp | missed hp _ | retry hp =>
    simp only [Fits, hp, hsize] at hf
    cases hf.1

/-- A step answers its call, or looks at the map, or brings the call nearer to its answer. -/
theorem acts_nearer {keys : List String} {me : Nat} {s s' : Shared α} {t t' : Thread α} {r : Running α}
    (hl : keys.length = s.slots.length) (hm : ∀ entry ∈ s.map, keys[entry.2]? = some entry.1) (hf : Fits keys s r)
    (hr : t.running = some r) (h : Acts me s t r s' t') :
    t'.answers.length = t.answers.length + 1 ∨
      t'.answers.length = t.answers.length ∧ (t'.ahead < t.ahead ∨
        t'.ahead = t.ahead ∧ t'.toGo s' < t.toGo s) := by
  by_cases hsize : r.call = .size
  · exact acts_size hsize hf hr h
  have hleft : t'.left s' < t.left s := (acts_left hsize hf hr h)
  have hahead : t'.ahead = t.ahead := by
    have hno (r' : Running α) (hc : r'.call = r.call) : r'.isAhead = 0 := by
      unfold Running.isAhead
      split
      · rename_i hc' _
        exact absurd (hc.symm.trans hc') hsize
      · rfl
    rcases acts_next h with ⟨r', point, hc, rfl⟩ | ⟨reply, rfl⟩
    · simp [Thread.ahead, Thread.goto, hr, hno r rfl, hno { r' with point } hc]
    · simp [Thread.ahead, Thread.reply, hr, hno r rfl]
  have hlooks : (t'.running.map (·.point.looks)).getD 0 = 0 := by
    cases hr' : t'.running with
    | none => rfl
    | some r' =>
      have hf' : Fits (grown keys r s s') s' r' := acts_fits hl hm hf h hr'
      have hc : r'.call = r.call := by
        rcases acts_next h with ⟨u, point, hc, rfl⟩ | ⟨reply, rfl⟩
        · cases hr'
          exact hc
        · cases hr'
      cases hp : r'.point with
      | counting n rest count | counted n rest count =>
        simp only [Fits, hp] at hf'
        exact absurd (hc.symm.trans hf'.1) hsize
      | _ => simp only [Option.map_some, Option.getD_some, hp, Point.looks]
  have htogo : t'.toGo s' < t.toGo s := by
    simp only [Thread.toGo, hlooks]
    omega
  rcases acts_length_answers hr h with hsame | hanswer
  · exact .inr ⟨hsame, .inr ⟨hahead, htogo⟩⟩
  · exact .inl hanswer

/-! ## All steps -/

theorem Machine.distance_takeUp {s : Shared α} {threads : List (Thread α)} {me : Nat} {t : Thread α} {call : Call α}
    {todo : List (Call α)} (ht : threads[me]? = some t) (hr : t.running = none) (htodo : t.todo = call :: todo) :
    (⟨s, threads.set me (t.takeUp call todo)⟩ : Machine α).distance < (⟨s, threads⟩ : Machine α).distance := by
  have hcalls := calls_takeUp (s := s) ht hr htodo
  have hanswers := length_answers_takeUp s call todo ht hr
  have hahead : (t.takeUp call todo).ahead ≤ t.ahead := by
    have hone : Running.isAhead (⟨call, .again, ⟨0, 0⟩⟩ : Running α) ≤ 1 := by
      unfold Running.isAhead
      split <;> omega
    simp only [Thread.ahead, Thread.takeUp, hr, htodo, Option.map_some, Option.map_none, Option.getD_some,
      Option.getD_none, List.length_cons]
    omega
  have htogo : (t.takeUp call todo).toGo s < t.toGo s := by
    simp only [Thread.toGo, Thread.left, Thread.takeUp, hr, htodo, Running.left, Point.looks, Option.map_some,
      Option.map_none, Option.getD_some, Option.getD_none, List.length_cons]
    omega
  have haheads := sum_map_set Thread.ahead (t.takeUp call todo) ht
  have htogos := sum_map_set (Thread.toGo s) (t.takeUp call todo) ht
  rw [distance_lt, hcalls, hanswers]
  refine .inr ⟨rfl, ?_⟩
  show ((threads.set me (t.takeUp call todo)).map Thread.ahead).sum < (threads.map Thread.ahead).sum ∨
    ((threads.set me (t.takeUp call todo)).map Thread.ahead).sum = (threads.map Thread.ahead).sum ∧
      ((threads.set me (t.takeUp call todo)).map (Thread.toGo s)).sum < (threads.map (Thread.toGo s)).sum
  omega

theorem Formed.distance_act {keys : List String} {s s' : Shared α} {threads : List (Thread α)} {me : Nat}
    {t t' : Thread α} {r : Running α} (h : Formed keys ⟨s, threads⟩) (ht : threads[me]? = some t)
    (hr : t.running = some r) (ha : Acts me s t r s' t') :
    (⟨s', threads.set me t'⟩ : Machine α).distance < (⟨s, threads⟩ : Machine α).distance := by
  have hcalls := Machine.calls_act (s := s) ht hr ha
  have hanswers := Machine.length_answers_act s s' t' ht
  have hbound := (⟨s', threads.set me t'⟩ : Machine α).length_answers_le
  have haheads := sum_map_set Thread.ahead t' ht
  rw [Machine.distance_lt, hcalls]
  rw [hcalls] at hbound
  rcases acts_nearer (s := s) h.length h.mapped (h.fits me r ⟨t, ht, hr⟩) hr ha with hanswer | ⟨hsame, hnear⟩
  · left
    omega
  · right
    refine ⟨by omega, ?_⟩
    show ((threads.set me t').map Thread.ahead).sum < (threads.map Thread.ahead).sum ∨
      ((threads.set me t').map Thread.ahead).sum = (threads.map Thread.ahead).sum ∧
        ((threads.set me t').map (Thread.toGo s')).sum < (threads.map (Thread.toGo s)).sum
    rcases hnear with hlt | ⟨heq, hlt⟩
    · left
      omega
    · right
      -- Without an answer no slot leaves the map, so the other calls are as near as before.
      have hkeep : ∀ key n, s.map.value? key = some n → s'.map.value? key = some n := by
        rcases acts_overtakes hr ha with hkeep | hanswer
        · exact hkeep
        · omega
      have hmono (u : Thread α) : u.toGo s' ≤ u.toGo s :=
        Nat.add_le_add_right (u.left_mono hkeep) _
      have htogos := sum_map_set_le hmono t' ht
      refine ⟨by omega, by omega⟩

/-- Every step brings the run nearer to its end. -/
theorem Formed.distance_lt {keys : List String} {m m' : Machine α} {me : Nat} {order : Arrangement} (h : Formed keys m)
    (hs : m.step me order = some m') : m'.distance < m.distance := by
  obtain ⟨s, threads⟩ := m
  simp only [Machine.step] at hs
  split at hs
  · cases hs
  rename_i t ht
  obtain ⟨⟨s', t'⟩, hst, rfl⟩ := Option.map_eq_some_iff.1 hs
  rcases step_acts hst with ⟨r, hr, ha⟩ | ⟨call, todo, hr, htodo, ha⟩
  · exact h.distance_act ht hr ha
  · have hlt : me < threads.length := (List.getElem?_eq_some_iff.1 ht).1
    have hup : Formed keys ⟨s, threads.set me (t.takeUp call todo)⟩ := h.takeUp ht hr
    have hact := hup.distance_act (by simp [hlt]) rfl ha
    rw [List.set_set] at hact
    exact hact.trans (Machine.distance_takeUp ht hr htodo)

/-- No run goes on for ever. -/
theorem Formed.not_endless {keys : List String} {m : Machine α} (h : Formed keys m) {run : Nat → Machine α}
    (hr : run 0 = m) : ¬ ∀ n, ∃ me order, (run n).step me order = some (run (n + 1)) := by
  intro hs
  have hreach (n : Nat) : Machine.Reaches m (run n) := by
    induction n with
    | zero => rw [hr]; exact .refl m
    | succ n ih => obtain ⟨me, order, hme⟩ := hs n; exact .step ih hme
  obtain ⟨n, hn⟩ := WellFounded.not_rel_apply_succ (r := (· < ·)) fun n => (run n).distance
  obtain ⟨keys, hf⟩ := h.reaches (hreach n)
  obtain ⟨me, order, hme⟩ := hs n
  exact hn (hf.distance_lt hme)

theorem Machine.Reaches.head {m n k : Machine α} {me : Nat} {order : Arrangement} (hs : m.step me order = some n)
    (h : Reaches n k) : Reaches m k := by
  induction h with
  | refl => exact .step (.refl m) hs
  | step _ hs' ih => exact .step ih hs'

/-- From everywhere the threads can get to where all calls were answered. -/
theorem Formed.exists_isDone {keys : List String} {m : Machine α} (h : Formed keys m) :
    ∃ m', Machine.Reaches m m' ∧ m'.isDone = true := by
  induction hd : m.distance using WellFoundedLT.induction generalizing m keys with
  | ind d ih =>
    by_cases hstuck : ∀ me order, m.step me order = none
    · exact ⟨m, .refl m, h.isDone_of_stuck hstuck⟩
    · obtain ⟨me, hme⟩ := not_forall.1 hstuck
      obtain ⟨order, hme⟩ := not_forall.1 hme
      obtain ⟨k, hk⟩ := Option.ne_none_iff_exists'.1 hme
      obtain ⟨keys', hf⟩ := h.reaches (.step (.refl m) hk)
      obtain ⟨m', hreach, hdone⟩ := ih k.distance (hd ▸ h.distance_lt hk) hf rfl
      exact ⟨m', .head hk hreach, hdone⟩

end CacheScript.Concurrent
