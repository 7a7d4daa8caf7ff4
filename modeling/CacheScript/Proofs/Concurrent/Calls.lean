/-
The calls of the threads: none is lost, added or put off behind another. What
a thread answers it never takes back, and the effort that is kept with each
call says how often that call asked the loader, which is once at most.
-/
import CacheScript.Proofs.Concurrent.Acts
import Mathlib.Algebra.GroupWithZero.Nat

namespace CacheScript.Concurrent

variable {α : Type}

/-- A sum over threads changes by what changes in one of them. -/
theorem sum_map_set {β : Type} (f : β → Nat) {b : β} (b' : β) : ∀ {l : List β} {i : Nat}, l[i]? = some b →
    ((l.set i b').map f).sum + f b = (l.map f).sum + f b'
  | [], _, h => by simp at h
  | c :: l, 0, h => by
    simp only [List.getElem?_cons_zero, Option.some.injEq] at h
    subst h
    simp only [List.set_cons_zero, List.map_cons, List.sum_cons]
    omega
  | c :: l, i + 1, h => by
    have := sum_map_set f b' (l := l) (i := i) (by simpa using h)
    simp only [List.set_cons_succ, List.map_cons, List.sum_cons]
    omega

/-- What is the same of a thread before and after is the same of all. -/
theorem map_set_same {β γ : Type} (f : β → γ) {b b' : β} {l : List β} {i : Nat} (hb : l[i]? = some b)
    (h : f b' = f b) : (l.set i b').map f = l.map f := by
  obtain ⟨hi, rfl⟩ := List.getElem?_eq_some_iff.1 hb
  rw [List.map_set, h, ← List.map_set, List.set_getElem_self]

/-! ## All calls -/

namespace Thread

/-- All calls of a thread, answered, under way or still to be made. -/
def allCalls (t : Thread α) : List (Call α) :=
  t.finished.map (·.call) ++ (t.running.map (·.call)).toList ++ t.todo

theorem allCalls_takeUp {t : Thread α} {call : Call α} {todo : List (Call α)} (hr : t.running = none)
    (ht : t.todo = call :: todo) : (t.takeUp call todo).allCalls = t.allCalls := by
  simp [allCalls, takeUp, hr, ht]

theorem allCalls_goto {t : Thread α} {r r' : Running α} (hr : t.running = some r) (hc : r'.call = r.call)
    (point : Point α) : (t.goto r' point).allCalls = t.allCalls := by
  simp [allCalls, goto, hr, hc]

theorem allCalls_reply {t : Thread α} {r : Running α} (hr : t.running = some r) (reply : Reply α) :
    (t.reply r reply).allCalls = t.allCalls := by
  simp [allCalls, Thread.reply, hr]

end Thread

/-- An act goes on with the same call, or answers it. -/
theorem acts_next {me : Nat} {s s' : Shared α} {t t' : Thread α} {r : Running α} (h : Acts me s t r s' t') :
    (∃ r' point, r'.call = r.call ∧ t' = t.goto r' point) ∨ ∃ reply, t' = t.reply r reply := by
  cases h with
  | absent _ _ _ _ => exact .inr ⟨_, rfl⟩
  | insert _ _ => exact .inr ⟨_, rfl⟩
  | clear _ _ => exact .inr ⟨_, rfl⟩
  | countNone _ _ _ => exact .inr ⟨_, rfl⟩
  | unlock _ => exact .inr ⟨_, rfl⟩
  | unlockLast _ => exact .inr ⟨_, rfl⟩
  | stale hp _ => exact .inl ⟨{ r with effort.restarts := r.effort.restarts + 1 }, _, rfl, rfl⟩
  | call hp => exact .inl ⟨{ r with effort.loaderCalls := r.effort.loaderCalls + 1 }, _, rfl, rfl⟩
  | _ => exact .inl ⟨r, _, rfl, rfl⟩

namespace Machine

/-- All calls of all threads. -/
def calls (m : Machine α) : List (List (Call α)) :=
  m.threads.map Thread.allCalls

theorem calls_ofStore (s : Store α) (calls : List (List (Call α))) : (ofStore s calls).calls = calls := by
  simp [Machine.calls, ofStore, Thread.allCalls, Function.comp_def]

theorem calls_takeUp {s : Shared α} {threads : List (Thread α)} {me : Nat} {t : Thread α} {call : Call α}
    {todo : List (Call α)} (ht : threads[me]? = some t) (hr : t.running = none) (htodo : t.todo = call :: todo) :
    (⟨s, threads.set me (t.takeUp call todo)⟩ : Machine α).calls = (⟨s, threads⟩ : Machine α).calls :=
  map_set_same _ ht (Thread.allCalls_takeUp hr htodo)

theorem calls_act {s s' : Shared α} {threads : List (Thread α)} {me : Nat} {t t' : Thread α} {r : Running α}
    (ht : threads[me]? = some t) (hr : t.running = some r) (ha : Acts me s t r s' t') :
    (⟨s', threads.set me t'⟩ : Machine α).calls = (⟨s, threads⟩ : Machine α).calls := by
  refine map_set_same _ ht ?_
  rcases acts_next ha with ⟨r', point, hc, rfl⟩ | ⟨reply, rfl⟩
  · exact Thread.allCalls_goto hr hc point
  · exact Thread.allCalls_reply hr reply

/-- Threads make the calls that they were given, in order. -/
theorem calls_of_reaches {m₀ m : Machine α} (h : Reaches m₀ m) : m.calls = m₀.calls :=
  Machine.induction (P := fun m => m.calls = m₀.calls) h rfl
    (fun hm ht hr htodo => (calls_takeUp ht hr htodo).trans hm) fun hm ht hr ha => (calls_act ht hr ha).trans hm

end Machine

/-! ## Answers -/

/-- The answer that a call is about to give. -/
def Running.answer? (r : Running α) : Option (Call α × Reply α) :=
  match r.point with
  | .unlocking _ (some reply) => some (r.call, reply)
  | _ => none

theorem Running.answer?_eq_none {r : Running α} (h : ∀ n reply, r.point ≠ .unlocking n (some reply)) :
    r.answer? = none := by
  unfold answer?
  split
  · rename_i hp
    exact absurd hp (h _ _)
  · rfl

theorem Running.length_answer?_le (r : Running α) : r.answer?.toList.length ≤ 1 := by
  cases r.answer? <;> simp

/-- The answers of a thread, with the one that it is about to give. -/
def Thread.answers (t : Thread α) : List (Call α × Reply α) :=
  t.finished.map (fun f => (f.call, f.reply)) ++ (t.running.bind Running.answer?).toList

/-- The answers of all threads. -/
def Machine.answers (m : Machine α) : List (Call α × Reply α) :=
  m.threads.flatMap (·.answers)

theorem Thread.answers_takeUp {t : Thread α} {call : Call α} {todo : List (Call α)} (hr : t.running = none) :
    (t.takeUp call todo).answers = t.answers := by
  simp [answers, takeUp, hr, Running.answer?]

theorem Thread.answers_goto {t : Thread α} {r r' : Running α} (hr : t.running = some r) (hp : r.answer? = none)
    (point : Point α) : (t.goto r' point).answers = t.answers ++ (Running.answer? { r' with point }).toList := by
  simp [answers, goto, hr, hp]

theorem Thread.answers_reply {t : Thread α} {r : Running α} (hr : t.running = some r) (hp : r.answer? = none)
    (reply : Reply α) : (t.reply r reply).answers = t.answers ++ [(r.call, reply)] := by
  simp [answers, Thread.reply, hr, hp]

theorem Thread.answers_unlock {t : Thread α} {r : Running α} (hr : t.running = some r) {n : Nat} {reply : Reply α}
    (hp : r.point = .unlocking n (some reply)) : (t.reply r reply).answers = t.answers := by
  simp [answers, Thread.reply, hr, Running.answer?, hp]

/-- An answer is not taken back. -/
theorem acts_answers {me : Nat} {s s' : Shared α} {t t' : Thread α} {r : Running α} (hr : t.running = some r)
    (h : Acts me s t r s' t') : t.answers <+: t'.answers := by
  cases h with
  | unlock hp => simp [Thread.answers_unlock hr hp]
  | _ => simp [Thread.answers, Thread.reply, Thread.goto, Running.answer?, *]

theorem Thread.mem_allCalls_of_answers {t : Thread α} {call : Call α} {reply : Reply α}
    (h : (call, reply) ∈ t.answers) : call ∈ t.allCalls := by
  simp only [answers, List.mem_append, List.mem_map, Option.mem_toList, Option.bind_eq_some_iff] at h
  simp only [allCalls, List.mem_append, List.mem_map, Option.mem_toList, Option.map_eq_some_iff]
  rcases h with ⟨f, hf, he⟩ | ⟨r, hr, he⟩
  · cases he
    exact .inl (.inl ⟨f, hf, rfl⟩)
  · unfold Running.answer? at he
    split at he
    · cases he
      exact .inl (.inr ⟨r, hr, rfl⟩)
    · cases he

theorem Machine.isQuiet_iff {m : Machine α} : m.isQuiet = true ↔ ∀ t ∈ m.threads, t.running = none := by
  simp [isQuiet]

theorem Machine.isDone_iff {m : Machine α} :
    m.isDone = true ↔ ∀ t ∈ m.threads, t.running = none ∧ t.todo = [] := by
  simp [isDone]

theorem Machine.isQuiet_of_isDone {m : Machine α} (h : m.isDone = true) : m.isQuiet = true :=
  isQuiet_iff.2 fun t ht => (isDone_iff.1 h t ht).1

theorem Machine.answers_of_isQuiet {m : Machine α} (h : m.isQuiet = true) :
    m.answers = m.finished.map fun f => (f.call, f.reply) := by
  have hnone := isQuiet_iff.1 h
  rw [answers, finished, List.map_flatMap, List.flatMap_def, List.flatMap_def]
  congr 1
  refine List.map_congr_left fun t ht => ?_
  simp [Thread.answers, hnone t ht]

/-- Where all threads are done, every call was answered once. -/
theorem Machine.calls_of_isDone {m : Machine α} (h : m.isDone = true) :
    m.finished.map (·.call) = m.calls.flatten := by
  have hdone := isDone_iff.1 h
  rw [calls, finished, List.map_flatMap, List.flatMap_def]
  congr 1
  refine List.map_congr_left fun t ht => ?_
  simp [Thread.allCalls, hdone t ht]

/-- More answers of one thread are more answers of all. -/
theorem answers_set {threads : List (Thread α)} {me : Nat} {t t' : Thread α} {more : List (Call α × Reply α)}
    (ht : threads[me]? = some t) (h : t'.answers = t.answers ++ more) :
    ((threads.set me t').flatMap (·.answers)).Perm (threads.flatMap (·.answers) ++ more) := by
  induction threads generalizing me with
  | nil => simp at ht
  | cons u threads ih =>
    cases me with
    | zero =>
      simp only [List.getElem?_cons_zero, Option.some.injEq] at ht
      subst ht
      simp only [List.set_cons_zero, List.flatMap_cons, h, List.append_assoc]
      exact List.Perm.append_left _ List.perm_append_comm
    | succ me =>
      simp only [List.set_cons_succ, List.flatMap_cons, List.append_assoc]
      exact List.Perm.append_left _ (ih (by simpa using ht))

/-! ## Calls of the loader -/

/-- A call asks the loader once at most, and not before it is at the point of
doing so. -/
def AsksOnce (r : Running α) : Prop :=
  match r.point with
  | .calling _ _ | .unmapping _ _ | .unlocking _ (some _) => r.effort.loaderCalls ≤ 1
  | _ => r.effort.loaderCalls = 0

theorem AsksOnce.le {r : Running α} (h : AsksOnce r) : r.effort.loaderCalls ≤ 1 := by
  unfold AsksOnce at h
  split at h <;> omega

theorem acts_asksOnce {me : Nat} {s s' : Shared α} {t t' : Thread α} {r : Running α} (hr : AsksOnce r)
    (h : Acts me s t r s' t') : ∀ r', t'.running = some r' → AsksOnce r' := by
  intro r' hr'
  cases h with
  | lock hp _ =>
    cases hr'
    simp only [AsksOnce, hp] at hr
    unfold AsksOnce
    split <;> simp only [hr] <;> omega
  | _ =>
    first
    | cases hr'
      done
    | cases hr'
      simp_all [AsksOnce]

/-- How often a thread asked the loader. -/
def Thread.asked (t : Thread α) : Nat :=
  (t.finished.map (·.effort.loaderCalls)).sum + (t.running.map (·.effort.loaderCalls)).getD 0

theorem acts_asked {me : Nat} {s s' : Shared α} {t t' : Thread α} {r : Running α} (hr : t.running = some r)
    (h : Acts me s t r s' t') : s'.calls.length + t.asked = s.calls.length + t'.asked := by
  cases h with
  | call =>
    simp only [Thread.asked, Thread.goto, hr, List.length_append, List.length_singleton, Option.map_some,
      Option.getD_some]
    omega
  | absent | insert | clear | countNone | unlock | unlockLast =>
    simp [Thread.asked, Thread.reply, hr, Shared.mapNew, Shared.setSlot]
  | _ => simp [Thread.asked, Thread.goto, hr, Shared.mapNew, Shared.setSlot, Shared.logAnswer, Shared.fill]

/-- Each call of the store asks the loader once at most, and nothing else asks
it. -/
structure Asked (m₀ m : Machine α) : Prop where
  running : ∀ t ∈ m.threads, ∀ r, t.running = some r → AsksOnce r
  finished : ∀ t ∈ m.threads, ∀ f ∈ t.finished, f.effort.loaderCalls ≤ 1
  count : m.shared.calls.length + (m₀.threads.map Thread.asked).sum =
    m₀.shared.calls.length + (m.threads.map Thread.asked).sum

theorem asked_ofStore (s : Store α) (calls : List (List (Call α))) :
    Asked (Machine.ofStore s calls) (Machine.ofStore s calls) := by
  refine ⟨fun t ht r hr => ?_, fun t ht f hf => ?_, rfl⟩
  all_goals
    obtain ⟨todo, -, rfl⟩ := List.mem_map.1 ht
    first | cases hr | cases hf

theorem acts_finished_asked {me : Nat} {s s' : Shared α} {t t' : Thread α} {r : Running α} (hr : AsksOnce r)
    (h : Acts me s t r s' t') (ht : ∀ f ∈ t.finished, f.effort.loaderCalls ≤ 1) :
    ∀ f ∈ t'.finished, f.effort.loaderCalls ≤ 1 := by
  rcases acts_next h with ⟨r', point, -, rfl⟩ | ⟨reply, rfl⟩
  · exact ht
  · intro f hf
    rcases List.mem_append.1 hf with hf | hf
    · exact ht f hf
    · rw [List.mem_singleton] at hf
      rw [hf]
      exact hr.le

theorem asked_of_reaches {m₀ m : Machine α} (h₀ : Asked m₀ m₀) (h : Machine.Reaches m₀ m) : Asked m₀ m := by
  refine Machine.induction (P := Asked m₀) h h₀ (fun {s threads me t call todo} hm ht hr htodo => ?_)
    fun {s threads me t r s' t'} hm ht hr ha => ?_
  · have hmem := List.mem_of_getElem? ht
    refine ⟨fun u hu r hur => ?_, fun u hu f hf => ?_, ?_⟩
    · rcases List.mem_or_eq_of_mem_set hu with hu | rfl
      · exact hm.running u hu r hur
      · cases hur; rfl
    · rcases List.mem_or_eq_of_mem_set hu with hu | rfl
      · exact hm.finished u hu f hf
      · exact hm.finished t hmem f hf
    · have hsum := sum_map_set Thread.asked (t.takeUp call todo) ht
      have hsame : (t.takeUp call todo).asked = t.asked := by simp [Thread.asked, Thread.takeUp, hr]
      have := hm.count
      simp only at this ⊢
      omega
  · have hmem := List.mem_of_getElem? ht
    have hasks : AsksOnce r := hm.running t hmem r hr
    refine ⟨fun u hu r' hur => ?_, fun u hu f hf => ?_, ?_⟩
    · rcases List.mem_or_eq_of_mem_set hu with hu | rfl
      · exact hm.running u hu r' hur
      · exact acts_asksOnce hasks ha r' hur
    · rcases List.mem_or_eq_of_mem_set hu with hu | rfl
      · exact hm.finished u hu f hf
      · exact acts_finished_asked hasks ha (hm.finished t hmem) f hf
    · have hsum := sum_map_set Thread.asked t' ht
      have hact := acts_asked hr ha
      have := hm.count
      simp only at this ⊢
      omega

end CacheScript.Concurrent
