/-
What one step of a thread can do to a shared store, case by case. `Acts` has a
case for each section of the map, each lock that is taken or given back, and
each end of a call of the loader; `Machine.induction` reduces a law of all
runs to these cases.
-/
import CacheScript.Store.Concurrent

namespace CacheScript.Concurrent

variable {α : Type}

/-! ## Slots of changed stores -/

namespace Shared

theorem slot_of_length_le {s : Shared α} {n : Nat} (h : s.slots.length ≤ n) : s.slot n = ⟨none, none⟩ := by
  rw [slot, List.getElem?_eq_none h]; rfl

theorem slot_setSlot (s : Shared α) {n : Nat} (hn : n < s.slots.length) (x : Slot α) (k : Nat) :
    (s.setSlot n x).slot k = if k = n then x else s.slot k := by
  simp only [slot, setSlot, List.getElem?_set]
  by_cases h : n = k
  · subst h; simp [hn]
  · rw [if_neg h, if_neg fun he => h he.symm]

@[simp] theorem length_setSlot (s : Shared α) (n : Nat) (x : Slot α) :
    (s.setSlot n x).slots.length = s.slots.length := by
  simp [setSlot]

@[simp] theorem content_setOwner (s : Shared α) (n : Nat) (owner : Option Nat) (k : Nat) :
    ((s.setSlot n { s.slot n with owner }).slot k).content = (s.slot k).content := by
  by_cases hn : n < s.slots.length
  · rw [slot_setSlot s hn]
    split
    · rename_i h; subst h; rfl
    · rfl
  · simp [slot, setSlot, List.set_eq_of_length_le (Nat.le_of_not_lt hn)]

theorem owner_setOwner (s : Shared α) {n : Nat} (hn : n < s.slots.length) (owner : Option Nat) (k : Nat) :
    ((s.setSlot n { s.slot n with owner }).slot k).owner = if k = n then owner else (s.slot k).owner := by
  rw [slot_setSlot s hn]
  split <;> rfl

theorem slot_mapNew (s : Shared α) (key : String) (content : Option (Entry α)) (k : Nat) :
    (s.mapNew key content).slot k = if k = s.slots.length then ⟨content, none⟩ else s.slot k := by
  simp only [slot, mapNew]
  by_cases h : k = s.slots.length
  · subst h; simp
  rw [if_neg h]
  by_cases hl : k < s.slots.length
  · rw [List.getElem?_append_left hl]
  · rw [List.getElem?_eq_none (by simp; omega), List.getElem?_eq_none (by omega)]

@[simp] theorem length_mapNew (s : Shared α) (key : String) (content : Option (Entry α)) :
    (s.mapNew key content).slots.length = s.slots.length + 1 := by
  simp [mapNew]

@[simp] theorem slots_unmap (s : Shared α) (key : String) (n : Nat) : (s.unmap key n).slots = s.slots := by
  unfold unmap; split <;> rfl

@[simp] theorem policy_unmap (s : Shared α) (key : String) (n : Nat) : (s.unmap key n).policy = s.policy := by
  unfold unmap; split <;> rfl

@[simp] theorem made_unmap (s : Shared α) (key : String) (n : Nat) : (s.unmap key n).made = s.made := by
  unfold unmap; split <;> rfl

@[simp] theorem calls_unmap (s : Shared α) (key : String) (n : Nat) : (s.unmap key n).calls = s.calls := by
  unfold unmap; split <;> rfl

theorem slot_fill (s : Shared α) {n : Nat} (hn : n < s.slots.length) (object : α) (k : Nat) :
    (s.fill n object).slot k = if k = n then { s.slot n with content := some ⟨s.made, object⟩ } else s.slot k :=
  slot_setSlot s hn _ k

theorem content_fill (s : Shared α) {n : Nat} (hn : n < s.slots.length) (object : α) (k : Nat) :
    ((s.fill n object).slot k).content = if k = n then some ⟨s.made, object⟩ else (s.slot k).content := by
  rw [s.slot_fill hn]
  split <;> rfl

theorem isCurrent_iff {s : Shared α} {key : String} {n : Nat} :
    s.isCurrent key n = true ↔ s.map.value? key = some n := by
  simp [isCurrent]

end Shared

/-! ## One step -/

/-- The call goes through the slot of its key. -/
def IsKeyed : Call α → Prop
  | .load _ _ | .expire _ | .contains _ => True
  | _ => False

/-- Whether the call is a load that makes what is absent. -/
def isCreating (s : Shared α) : Call α → Bool
  | .load _ create => s.creates create
  | _ => false

/-- The reply of a call that finds this in the slot of its key. -/
def replyOn (content : Option (Entry α)) : Call α → Reply α
  | .load _ _ => .loaded content
  | .expire _ => .expired content.isSome
  | _ => .held content.isSome

/-- The act of a thread numbered `me` that is in the call `r`: the store and the
thread before and after. -/
inductive Acts (me : Nat) (s : Shared α) (t : Thread α) (r : Running α) : Shared α → Thread α → Prop
  | find {n : Nat} (hp : r.point = .again) (hk : IsKeyed r.call) (hm : s.map.value? r.call.key = some n) :
      Acts me s t r s (t.goto r (.waiting n))
  | create (hp : r.point = .again) (hc : isCreating s r.call = true) (hm : s.map.value? r.call.key = none) :
      Acts me s t r (s.mapNew r.call.key none) (t.goto r (.waiting s.slots.length))
  | absent (hp : r.point = .again) (hk : IsKeyed r.call) (hc : isCreating s r.call = false)
      (hm : s.map.value? r.call.key = none) : Acts me s t r s (t.reply r (replyOn none r.call))
  | insert {key : String} {object : α} (hp : r.point = .again) (hc : r.call = .insert key object) :
      Acts me s t r { s.mapNew key (some ⟨s.made, object⟩) with made := s.made + 1 }
        (t.reply r (.inserted ⟨s.made, object⟩))
  | clear (hp : r.point = .again) (hc : r.call = .clear) :
      Acts me s t r { s with map := [] } (t.reply r .cleared)
  | countNone (hp : r.point = .again) (hc : r.call = .size) (hm : s.map.map (·.2) = []) :
      Acts me s t r s (t.reply r (.counted 0))
  | count {n : Nat} {rest : List Nat} (hp : r.point = .again) (hc : r.call = .size)
      (hm : (n :: rest).Perm (s.map.map (·.2))) : Acts me s t r s (t.goto r (.counting n rest 0))
  | lock {n : Nat} (hp : r.point = .waiting n) (ho : (s.slot n).owner = none) :
      Acts me s t r (s.setSlot n { s.slot n with owner := some me })
        (t.goto r (Thread.afterLock s n (s.slot n).content r.call))
  | current {n : Nat} (hp : r.point = .checking n) (hm : s.map.value? r.call.key = some n) :
      Acts me s t r s (t.goto r (.starting n))
  | stale {n : Nat} (hp : r.point = .checking n) (hm : s.map.value? r.call.key ≠ some n) :
      Acts me s t r s (t.goto { r with effort.restarts := r.effort.restarts + 1 } (.unlocking n none))
  | call {n : Nat} (hp : r.point = .starting n) :
      Acts me s t r { s with calls := s.calls ++ [r.call.key] }
        (t.goto { r with effort.loaderCalls := r.effort.loaderCalls + 1 }
          (.calling n (s.loader s.calls r.call.key)))
  | found {n : Nat} {object : α} (hp : r.point = .calling n (.found object)) :
      Acts me s t r ((s.fill n object).logAnswer r.call.key (.found object))
        (t.goto r (.unlocking n (some (.loaded (some ⟨s.made, object⟩)))))
  | missed {n : Nat} {answer : Answer α} (hp : r.point = .calling n answer) (ha : ∀ object, answer ≠ .found object) :
      Acts me s t r (s.logAnswer r.call.key answer) (t.goto r (.unmapping n (.loaded none)))
  | unmap {n : Nat} {reply : Reply α} (hp : r.point = .unmapping n reply) :
      Acts me s t r (s.unmap r.call.key n) (t.goto r (.unlocking n (some reply)))
  | unlock {n : Nat} {reply : Reply α} (hp : r.point = .unlocking n (some reply)) :
      Acts me s t r (s.setSlot n { s.slot n with owner := none }) (t.reply r reply)
  | retry {n : Nat} (hp : r.point = .unlocking n none) :
      Acts me s t r (s.setSlot n { s.slot n with owner := none }) (t.goto r .again)
  | lockNext {n count : Nat} {rest : List Nat} (hp : r.point = .counting n rest count)
      (ho : (s.slot n).owner = none) :
      Acts me s t r (s.setSlot n { s.slot n with owner := some me })
        (t.goto r (.counted n rest (if (s.slot n).content.isSome then count + 1 else count)))
  | unlockLast {n count : Nat} (hp : r.point = .counted n [] count) :
      Acts me s t r (s.setSlot n { s.slot n with owner := none }) (t.reply r (.counted count))
  | unlockNext {n k count : Nat} {rest : List Nat} (hp : r.point = .counted n (k :: rest) count) :
      Acts me s t r (s.setSlot n { s.slot n with owner := none }) (t.goto r (.counting k rest count))

theorem enter_keyed (order : Arrangement) (s : Shared α) (t : Thread α) {r : Running α} (hk : IsKeyed r.call) :
    t.enter order s r = match s.map.value? r.call.key with
      | some n => (s, t.goto r (.waiting n))
      | none =>
        if isCreating s r.call then (s.mapNew r.call.key none, t.goto r (.waiting s.slots.length))
        else (s, t.reply r (replyOn none r.call)) := by
  obtain ⟨call, point, effort⟩ := r
  cases call with
  | load key create => rfl
  | expire key => rfl
  | contains key => rfl
  | insert key object => exact hk.elim
  | clear => exact hk.elim
  | size => exact hk.elim

theorem enter_acts {me : Nat} {order : Arrangement} {s s' : Shared α} {t t' : Thread α} {r : Running α}
    (hp : r.point = .again) (h : t.enter order s r = (s', t')) : Acts me s t r s' t' := by
  by_cases hk : IsKeyed r.call
  · rw [enter_keyed order s t hk] at h
    split at h
    · rename_i n hm
      cases h
      exact .find hp hk hm
    · rename_i hm
      split at h
      · rename_i hc
        cases h
        exact .create hp hc hm
      · rename_i hc
        cases h
        exact .absent hp hk (by simpa using hc) hm
  · unfold Thread.enter at h
    cases hc : r.call with
    | insert key object => rw [hc] at h; cases h; exact .insert hp hc
    | clear => rw [hc] at h; cases h; exact .clear hp hc
    | size =>
      have hperm := order.perm (s.map.map (·.2))
      simp only [hc] at h
      split at h
      · rename_i hnone
        cases h
        rw [hnone] at hperm
        exact .countNone hp hc hperm.nil_eq.symm
      · rename_i n rest hsome
        cases h
        rw [hsome] at hperm
        exact .count hp hc hperm
    | _ => exact absurd (by rw [hc]; trivial) hk

theorem stepAt_acts {me : Nat} {order : Arrangement} {s s' : Shared α} {t t' : Thread α} {r : Running α}
    (h : t.stepAt me order s r = some (s', t')) : Acts me s t r s' t' := by
  unfold Thread.stepAt at h
  cases hp : r.point with
  | again =>
    simp only [hp, Option.some.injEq] at h
    exact enter_acts hp h
  | waiting n =>
    simp only [hp] at h
    split at h
    · cases h
    · rename_i ho
      cases h
      exact .lock hp (by simpa using ho)
  | checking n =>
    simp only [hp] at h
    split at h
    · rename_i hm
      cases h
      exact .current hp (Shared.isCurrent_iff.1 hm)
    · rename_i hm
      cases h
      exact .stale hp fun he => hm (Shared.isCurrent_iff.2 he)
  | starting n =>
    simp only [hp] at h
    cases h
    exact .call hp
  | calling n answer =>
    simp only [hp] at h
    cases answer with
    | found object => cases h; exact .found hp
    | absent => cases h; exact .missed hp (by simp)
    | failed causes => cases h; exact .missed hp (by simp)
  | unmapping n reply =>
    simp only [hp] at h
    cases h
    exact .unmap hp
  | unlocking n reply =>
    simp only [hp] at h
    cases reply with
    | some reply => cases h; exact .unlock hp
    | none => cases h; exact .retry hp
  | counting n rest count =>
    simp only [hp] at h
    split at h
    · cases h
    · rename_i ho
      cases h
      exact .lockNext hp (by simpa using ho)
  | counted n rest count =>
    simp only [hp] at h
    cases rest with
    | nil => cases h; exact .unlockLast hp
    | cons k rest => cases h; exact .unlockNext hp

/-! ## Mappings and objects -/

/-- Whether the call leaves it to others to put objects into the store or to
drop all of them. -/
def isUse : Call α → Bool
  | .insert _ _ | .clear => false
  | _ => true

/-- Whether the call replaces or drops the slot of a key without its lock. -/
def displaces (key : String) : Call α → Bool
  | .insert k _ => k = key
  | .clear => true
  | _ => false

/-- A slot leaves the map in two ways only: its holder takes it out, or a call
that is answered at once displaces it. -/
theorem acts_values {me : Nat} {s s' : Shared α} {t t' : Thread α} {r : Running α} (h : Acts me s t r s' t') :
    (∀ key n, s.map.value? key = some n → s'.map.value? key = some n) ∨
      (∃ n reply, r.point = .unmapping n reply ∧ s.map.value? r.call.key = some n ∧
        s' = { s with map := s.map.remove r.call.key } ∧ t' = t.goto r (.unlocking n (some reply))) ∨
      isUse r.call = false ∧ (∃ reply, t' = t.reply r reply) ∧
        ∀ key n, displaces key r.call = false → s.map.value? key = some n → s'.map.value? key = some n := by
  cases h with
  | create hp hc hm =>
    refine .inl fun key n hv => ?_
    have hne : key ≠ r.call.key := by rintro rfl; rw [hm] at hv; cases hv
    exact (Dict.value?_put_other _ _ hne).trans hv
  | insert hp hc =>
    refine .inr (.inr ⟨by rw [hc]; rfl, ⟨_, rfl⟩, fun key n hd hv => ?_⟩)
    rw [hc] at hd
    exact (Dict.value?_put_other _ _ (Ne.symm (of_decide_eq_false hd))).trans hv
  | clear hp hc => exact .inr (.inr ⟨by rw [hc]; rfl, ⟨_, rfl⟩, fun key n hd => by rw [hc] at hd; cases hd⟩)
  | unmap hp =>
    simp only [Shared.unmap]
    split
    · rename_i hm
      exact .inr (.inl ⟨_, _, hp, Shared.isCurrent_iff.1 hm, rfl, rfl⟩)
    · exact .inl fun key n hv => hv
  | _ => exact .inl fun key n hv => hv

/-- Loads, expiries and looks change the map in two ways only. -/
theorem acts_value? {me : Nat} {s s' : Shared α} {t t' : Thread α} {r : Running α} (h : Acts me s t r s' t')
    (hu : isUse r.call = true) :
    (∀ key n, s.map.value? key = some n → s'.map.value? key = some n) ∨
      ∃ n reply, r.point = .unmapping n reply ∧ s.map.value? r.call.key = some n ∧
        s' = { s with map := s.map.remove r.call.key } ∧ t' = t.goto r (.unlocking n (some reply)) := by
  rcases acts_values h with hs | hs | ⟨hu', -⟩
  · exact .inl hs
  · exact .inr hs
  · rw [hu] at hu'
    cases hu'

/-- An object gets into a slot in two ways only. -/
theorem acts_contents {me : Nat} {s s' : Shared α} {t t' : Thread α} {r : Running α} (h : Acts me s t r s' t') :
    (s'.made = s.made ∧ ∀ n e, (s'.slot n).content = some e → (s.slot n).content = some e) ∨
      (∃ n object, r.point = .calling n (.found object) ∧
        s' = (s.fill n object).logAnswer r.call.key (.found object)) ∨
      ∃ key object, r.call = .insert key object ∧
        s' = { s.mapNew key (some ⟨s.made, object⟩) with made := s.made + 1 } := by
  cases h with
  | create =>
    refine .inl ⟨rfl, fun n e he => ?_⟩
    rw [Shared.slot_mapNew] at he
    split at he
    · cases he
    · exact he
  | insert hp hc => exact .inr (.inr ⟨_, _, hc, rfl⟩)
  | lock | lockNext | unlock | retry | unlockLast | unlockNext => exact .inl ⟨rfl, fun n e he => by simpa using he⟩
  | unmap => exact .inl ⟨by simp, fun n e he => by simpa [Shared.slot] using he⟩
  | found hp => exact .inr (.inl ⟨_, _, hp, rfl⟩)
  | _ => exact .inl ⟨rfl, fun n e he => he⟩

/-- Loads, expiries and looks put an object into a slot in one way only. -/
theorem acts_content {me : Nat} {s s' : Shared α} {t t' : Thread α} {r : Running α} (h : Acts me s t r s' t')
    (hu : isUse r.call = true) :
    (s'.made = s.made ∧ ∀ n e, (s'.slot n).content = some e → (s.slot n).content = some e) ∨
      ∃ n object, r.point = .calling n (.found object) ∧
        s' = (s.fill n object).logAnswer r.call.key (.found object) := by
  rcases acts_contents h with hs | hs | ⟨key, object, hc, -⟩
  · exact .inl hs
  · exact .inr hs
  · rw [hc] at hu
    cases hu

/-! ## Runs -/

/-- Take up the next call. -/
def Thread.takeUp (t : Thread α) (call : Call α) (todo : List (Call α)) : Thread α :=
  { t with running := some ⟨call, .again, ⟨0, 0⟩⟩, todo }

/-- A step is an act of a thread in its call, or takes up the next call first. -/
theorem step_acts {me : Nat} {order : Arrangement} {s s' : Shared α} {t t' : Thread α}
    (h : t.step me order s = some (s', t')) :
    (∃ r, t.running = some r ∧ Acts me s t r s' t') ∨
      ∃ call todo, t.running = none ∧ t.todo = call :: todo ∧
        Acts me s (t.takeUp call todo) ⟨call, .again, ⟨0, 0⟩⟩ s' t' := by
  unfold Thread.step at h
  split at h
  · rename_i r hr
    exact .inl ⟨r, hr, stepAt_acts h⟩
  · rename_i hr
    split at h
    · cases h
    · rename_i call todo ht
      simp only [Option.some.injEq] at h
      -- `enter` sets the running call itself, so it does not matter that it is already taken up.
      have hup : (t.takeUp call todo).enter order s ⟨call, .again, ⟨0, 0⟩⟩ = (s', t') := by
        rw [← h]
        rfl
      exact .inr ⟨call, todo, hr, ht, enter_acts rfl hup⟩

namespace Machine

theorem reaches_follow (m : Machine α) (schedule : List Nat) : Reaches m (m.follow schedule) := by
  have go (n : Machine α) (hn : Reaches m n) : Reaches m (n.follow schedule) := by
    induction schedule generalizing n with
    | nil => exact hn
    | cons me schedule ih =>
      refine ih ((n.step me .byKey).getD n) ?_
      cases hs : n.step me .byKey with
      | none => exact hn
      | some k => exact .step hn hs
  exact go m (.refl m)

theorem step_of_stepAt {m : Machine α} {i : Nat} {order : Arrangement} {t t' : Thread α} {r : Running α}
    {s' : Shared α} (ht : m.threads[i]? = some t) (hr : t.running = some r)
    (h : t.stepAt i order m.shared r = some (s', t')) : m.step i order = some ⟨s', m.threads.set i t'⟩ := by
  simp [step, ht, Thread.step, hr, h]

/-- A law of all that is reached holds at the start, and is kept when a thread
takes up its next call and when it acts. -/
theorem induction {P : Machine α → Prop} {m₀ m : Machine α} (hr : Reaches m₀ m) (start : P m₀)
    (takeUp : ∀ {s threads} {me : Nat} {t : Thread α} {call todo}, P ⟨s, threads⟩ → threads[me]? = some t →
      t.running = none → t.todo = call :: todo → P ⟨s, threads.set me (t.takeUp call todo)⟩)
    (act : ∀ {s threads} {me : Nat} {t : Thread α} {r s' t'}, P ⟨s, threads⟩ → threads[me]? = some t →
      t.running = some r → Acts me s t r s' t' → P ⟨s', threads.set me t'⟩) : P m := by
  induction hr with
  | refl => exact start
  | @step n k me order _ hs ih =>
    obtain ⟨s, threads⟩ := n
    simp only [step] at hs
    split at hs
    · cases hs
    rename_i t ht
    obtain ⟨⟨s', t'⟩, hst, rfl⟩ := Option.map_eq_some_iff.1 hs
    rcases step_acts hst with ⟨r, hr, ha⟩ | ⟨call, todo, hr, htodo, ha⟩
    · exact act ih ht hr ha
    · have hlt : me < threads.length := (List.getElem?_eq_some_iff.1 ht).1
      have h := act (takeUp ih ht hr htodo) (by simp [hlt]) rfl ha
      rwa [List.set_set] at h

end Machine

end CacheScript.Concurrent
