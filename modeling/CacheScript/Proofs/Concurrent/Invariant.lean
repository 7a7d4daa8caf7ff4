/-
The invariant of a shared store under all its calls, given the keys of the
slots (`Formed keys m`). It links the map, the locks, the contents of the slots
and the points that the threads are at, and says of each empty slot in the map
which thread looks after it.
-/
import CacheScript.Proofs.Concurrent.Points

namespace CacheScript.Concurrent

variable {α : Type}

/-- The thread numbered `i` is in the call `r`. -/
def Machine.Runs (m : Machine α) (i : Nat) (r : Running α) : Prop :=
  ∃ t, m.threads[i]? = some t ∧ t.running = some r

/-- A call that fills the slot or takes it out of the map, if it is empty. -/
def Tends (s : Shared α) (n : Nat) (r : Running α) : Prop :=
  isCreating s r.call = true ∧
    match r.point with
    | .waiting k | .checking k | .starting k | .calling k _ | .unmapping k _ => k = n
    | _ => False

/-- The invariant, given the keys that the slots were made for. -/
structure Formed (keys : List String) (m : Machine α) : Prop where
  length : keys.length = m.shared.slots.length
  mapped : ∀ entry ∈ m.shared.map, keys[entry.2]? = some entry.1
  fits : ∀ i r, m.Runs i r → Fits keys m.shared r
  /-- A lock is held by the thread that is at a point where it holds it. -/
  locks : ∀ n i, (m.shared.slot n).owner = some i ↔ ∃ r, m.Runs i r ∧ r.point.held? = some n
  /-- Every empty slot of the map is looked after. -/
  tended : ∀ key n, m.shared.map.value? key = some n → (m.shared.slot n).content = none →
    ∃ i r, m.Runs i r ∧ Tends m.shared n r
  /-- What was answered about a key came from a slot of that key. -/
  answered : ∀ f ∈ m.finished, IsKeyed f.call → ∃ content, f.reply = replyOn content f.call ∧
    ∀ e, content = some e → ∃ n, keys[n]? = some f.call.key ∧ (m.shared.slot n).content = some e

/-! ## Locks -/

theorem owner_mapNew (s : Shared α) (key : String) (content : Option (Entry α)) (k : Nat) :
    ((s.mapNew key content).slot k).owner = (s.slot k).owner := by
  rw [Shared.slot_mapNew]
  split
  · rename_i h; subst h; rw [Shared.slot_of_length_le (Nat.le_refl _)]
  · rfl

theorem held?_afterLock (s : Shared α) (n : Nat) (content : Option (Entry α)) (call : Call α) :
    (Thread.afterLock s n content call).held? = some n := by
  unfold Thread.afterLock
  repeat' split
  all_goals rfl

/-- The thread holds the lock of a slot. -/
def Holds (t : Thread α) (n : Nat) : Prop :=
  ∃ r, t.running = some r ∧ r.point.held? = some n

theorem holds_goto (t : Thread α) (r : Running α) (point : Point α) (n : Nat) :
    Holds (t.goto r point) n ↔ point.held? = some n := by
  simp [Holds, Thread.goto]

theorem not_holds_reply (t : Thread α) (r : Running α) (reply : Reply α) (n : Nat) :
    ¬ Holds (t.reply r reply) n := by
  simp [Holds, Thread.reply]

/-- After an act, the acting thread owns the locks that its new point holds,
and nothing changes for the others. -/
theorem acts_owner {keys : List String} {me : Nat} {s s' : Shared α} {t t' : Thread α} {r : Running α}
    (hl : keys.length = s.slots.length) (hf : Fits keys s r)
    (ho : ∀ n, (s.slot n).owner = some me ↔ r.point.held? = some n) (h : Acts me s t r s' t') (n i : Nat) :
    (s'.slot n).owner = some i ↔ if i = me then Holds t' n else (s.slot n).owner = some i := by
  -- Three things can happen to the locks; the cases below only say which one does.
  have same (hs : (s'.slot n).owner = (s.slot n).owner) (ht : Holds t' n ↔ r.point.held? = some n) :
      (s'.slot n).owner = some i ↔ if i = me then Holds t' n else (s.slot n).owner = some i := by
    rw [hs]
    split
    · rename_i hi; rw [hi, ho, ht]
    · rfl
  have taken {k : Nat} (hk : (s.slot k).owner = none)
      (hs : (s'.slot n).owner = if n = k then some me else (s.slot n).owner) (hp : r.point.held? = none)
      (ht : Holds t' n ↔ some k = some n) :
      (s'.slot n).owner = some i ↔ if i = me then Holds t' n else (s.slot n).owner = some i := by
    rw [hs, ht]
    by_cases hn : n = k
    · subst hn
      by_cases hi : i = me
      · simp [hi]
      · simp [hi, hk, Ne.symm hi]
    · have := ho n
      rw [hp] at this
      by_cases hi : i = me
      · subst hi; simp [hn, Ne.symm hn, this]
      · simp [hn, hi]
  have freed {k : Nat} (hp : r.point.held? = some k) (hs : (s'.slot n).owner = if n = k then none else (s.slot n).owner)
      (ht : ¬ Holds t' n) :
      (s'.slot n).owner = some i ↔ if i = me then Holds t' n else (s.slot n).owner = some i := by
    have hn := ho n
    rw [hp] at hn
    rw [hs]
    by_cases hk : n = k
    · subst hk
      have hme : (s.slot n).owner = some me := hn.2 rfl
      by_cases hi : i = me
      · simp [hi, ht]
      · simp [hi, hme, Ne.symm hi]
    · by_cases hi : i = me
      · subst hi; simp [hk, Ne.symm hk, ht, hn]
      · simp [hi, hk]
  cases h with
  | find hp hk hv => exact same rfl (by rw [holds_goto, hp]; rfl)
  | create hp hc hv => exact same (owner_mapNew s _ _ n) (by rw [holds_goto, hp]; rfl)
  | absent hp hk hc hv => exact same rfl (by rw [hp]; simp [not_holds_reply, Point.held?])
  | @insert key object hp hc =>
    exact same (owner_mapNew s key (some ⟨s.made, object⟩) n) (by rw [hp]; simp [not_holds_reply, Point.held?])
  | clear hp hc => exact same rfl (by rw [hp]; simp [not_holds_reply, Point.held?])
  | countNone hp hc hv => exact same rfl (by rw [hp]; simp [not_holds_reply, Point.held?])
  | count hp hc hv => exact same rfl (by rw [holds_goto, hp]; rfl)
  | current hp hv => exact same rfl (by rw [holds_goto, hp]; rfl)
  | stale hp hv => exact same rfl (by rw [holds_goto, hp]; rfl)
  | call hp => exact same rfl (by rw [holds_goto, hp]; rfl)
  | missed hp ha => exact same rfl (by rw [holds_goto, hp]; rfl)
  | unmap hp => exact same (by simp [Shared.slot]) (by rw [holds_goto, hp]; rfl)
  | @found k object hp =>
    have hk : keys[k]? = some r.call.key := by simp only [Fits, hp] at hf; exact hf.2.1
    refine same ?_ (by rw [holds_goto, hp]; rfl)
    refine (congrArg Slot.owner (s.slot_fill (lt_of_key hl hk) object n)).trans ?_
    split
    · rename_i h; rw [h]
    · rfl
  | @lock k hp hk =>
    have hn : keys[k]? = some r.call.key := by simp only [Fits, hp] at hf; exact hf.2
    exact taken hk (s.owner_setOwner (lt_of_key hl hn) _ n) (by rw [hp]; rfl)
      (by rw [holds_goto, held?_afterLock])
  | @lockNext k count rest hp hk =>
    have hn : k < s.slots.length := by simp only [Fits, hp] at hf; exact hf.2 k (by simp)
    exact taken hk (s.owner_setOwner hn _ n) (by rw [hp]; rfl) (by rw [holds_goto]; rfl)
  | @unlock k reply hp =>
    have hn : keys[k]? = some r.call.key := by simp only [Fits, hp] at hf; exact hf.2.1
    exact freed (by rw [hp]; rfl) (s.owner_setOwner (lt_of_key hl hn) _ n) (not_holds_reply _ _ _ _)
  | @retry k hp =>
    have hn : keys[k]? = some r.call.key := by simp only [Fits, hp] at hf; exact hf.2
    exact freed (by rw [hp]; rfl) (s.owner_setOwner (lt_of_key hl hn) _ n) (by simp [holds_goto, Point.held?])
  | @unlockLast k count hp =>
    have hn : k < s.slots.length := by simp only [Fits, hp] at hf; exact hf.2 k (by simp)
    exact freed (by rw [hp]; rfl) (s.owner_setOwner hn _ n) (not_holds_reply _ _ _ _)
  | @unlockNext k next count rest hp =>
    have hn : k < s.slots.length := by simp only [Fits, hp] at hf; exact hf.2 k (by simp)
    exact freed (by rw [hp]; rfl) (s.owner_setOwner hn _ n) (by simp [holds_goto, Point.held?])

/-! ## Empty slots -/

/-- The map after an act has only what it had, or the new slot of the call. -/
theorem acts_map {me : Nat} {s s' : Shared α} {t t' : Thread α} {r : Running α} (h : Acts me s t r s' t') :
    (∀ entry ∈ s'.map, entry ∈ s.map ∨ entry = (r.call.key, s.slots.length) ∧ s'.slots.length = s.slots.length + 1) ∧
      ∀ key n, s'.map.value? key = some n → s.map.value? key = some n ∨ n = s.slots.length := by
  cases h with
  | create hp hc hv =>
    refine ⟨fun entry he => ?_, fun key n he => ?_⟩
    · rcases Dict.mem_put he with h | h
      · exact .inr ⟨h, by simp⟩
      · exact .inl h
    · simp only [Shared.mapNew, Dict.value?_put] at he
      split at he
      · cases he; exact .inr rfl
      · exact .inl he
  | insert hp hc =>
    refine ⟨fun entry he => ?_, fun key n he => ?_⟩
    · rcases Dict.mem_put he with h | h
      · exact .inr ⟨by rw [hc]; exact h, by simp⟩
      · exact .inl h
    · simp only [Shared.mapNew, Dict.value?_put] at he
      split at he
      · cases he; exact .inr rfl
      · exact .inl he
  | clear hp hc =>
    refine ⟨fun entry he => ?_, fun key n he => ?_⟩
    · cases he
    · cases he
  | unmap hp =>
    simp only [Shared.unmap]
    split
    · refine ⟨fun entry he => .inl (List.mem_filter.1 he).1, fun key n he => .inl ?_⟩
      rw [Dict.value?_remove] at he
      split at he
      · cases he
      · exact he
    · exact ⟨fun entry he => .inl he, fun key n he => .inl he⟩
  | _ => exact ⟨fun entry he => .inl he, fun key n he => .inl he⟩

/-- A thread goes on to look after its slot as long as that is empty and in the
map. -/
theorem acts_tends {keys : List String} {me : Nat} {s s' : Shared α} {t t' : Thread α} {r : Running α}
    (hl : keys.length = s.slots.length) (hf : Fits keys s r) (h : Acts me s t r s' t') {n : Nat} {key : String}
    (ht : Tends s n r) (hk : keys[n]? = some key) (hv : s'.map.value? key = some n)
    (he : (s'.slot n).content = none) : ∃ r', t'.running = some r' ∧ Tends s' n r' := by
  obtain ⟨hc, ht⟩ := ht
  -- At most points the call is not one that tends.
  cases h with
  | lock hp ho =>
    simp only [hp] at ht
    subst ht
    have he : (s.slot _).content = none := (s.content_setOwner _ _ _).symm.trans he
    refine ⟨_, rfl, hc, ?_⟩
    obtain ⟨call, point, effort⟩ := r
    cases call <;> simp only [isCreating, Bool.false_eq_true] at hc
    simp [Thread.afterLock, he, hc]
  | current hp _ => simp only [hp] at ht; exact ⟨_, rfl, hc, ht⟩
  | call hp => simp only [hp] at ht; exact ⟨_, rfl, hc, ht⟩
  | missed hp ha => simp only [hp] at ht; exact ⟨_, rfl, hc, ht⟩
  | stale hp hne =>
    simp only [hp] at ht
    simp only [Fits, hp] at hf
    subst ht
    rw [hf.2.1] at hk
    cases hk
    exact absurd hv hne
  | @found k object hp =>
    simp only [hp] at ht
    simp only [Fits, hp] at hf
    subst ht
    have hs := s.content_fill (lt_of_key hl hf.2.1) object k
    rw [if_pos rfl] at hs
    exact absurd (hs.symm.trans he) (by simp)
  | unmap hp =>
    simp only [hp] at ht
    simp only [Fits, hp] at hf
    subst ht
    rw [hf.2.1] at hk
    cases hk
    simp only [Shared.unmap] at hv
    split at hv
    · rw [Dict.value?_remove_self] at hv
      cases hv
    · rename_i hne
      exact absurd (Shared.isCurrent_iff.2 hv) hne
  | _ => simp_all

/-- A new slot that is empty is looked after by the thread that made it. -/
theorem acts_tends_new {me : Nat} {s s' : Shared α} {t t' : Thread α} {r : Running α} (h : Acts me s t r s' t')
    (hl : s'.slots.length ≠ s.slots.length) (he : (s'.slot s.slots.length).content = none) :
    ∃ r', t'.running = some r' ∧ Tends s' s.slots.length r' := by
  cases h with
  | create hp hc hv => exact ⟨_, rfl, hc, rfl⟩
  | @insert key object hp hc =>
    have hs := congrArg Slot.content (s.slot_mapNew key (some ⟨s.made, object⟩) s.slots.length)
    rw [if_pos rfl] at hs
    exact absurd (hs.symm.trans he) (by simp)
  | _ => exact absurd (by simp [Shared.fill, Shared.logAnswer]) hl

/-! ## Answers -/

/-- An act adds an answer at most, and an answer about a key tells what the
slot of that key holds. -/
theorem acts_finished {keys : List String} {me : Nat} {s s' : Shared α} {t t' : Thread α} {r : Running α}
    (hf : Fits keys s r) (h : Acts me s t r s' t') {f : Finished α} (hm : f ∈ t'.finished) :
    f ∈ t.finished ∨ f.call = r.call ∧ (IsKeyed r.call → ∃ content, f.reply = replyOn content r.call ∧
      ∀ e, content = some e → ∃ n, keys[n]? = some r.call.key ∧ (s.slot n).content = some e) := by
  have one {reply : Reply α} (hm : f ∈ (t.reply r reply).finished)
      (hx : IsKeyed r.call → ∃ content, reply = replyOn content r.call ∧
        ∀ e, content = some e → ∃ n, keys[n]? = some r.call.key ∧ (s.slot n).content = some e) :
      f ∈ t.finished ∨ f.call = r.call ∧ (IsKeyed r.call → ∃ content, f.reply = replyOn content r.call ∧
        ∀ e, content = some e → ∃ n, keys[n]? = some r.call.key ∧ (s.slot n).content = some e) := by
    rcases List.mem_append.1 hm with hm | hm
    · exact .inl hm
    · rw [List.mem_singleton] at hm
      subst hm
      exact .inr ⟨rfl, hx⟩
  cases h with
  | absent hp hk hc hv => exact one hm fun _ => ⟨none, rfl, fun _ h => (nomatch h)⟩
  | insert hp hc => exact one hm fun h => by rw [hc] at h; exact h.elim
  | clear hp hc => exact one hm fun h => by rw [hc] at h; exact h.elim
  | countNone hp hc hv => exact one hm fun h => by rw [hc] at h; exact h.elim
  | @unlock n reply hp =>
    simp only [Fits, hp] at hf
    exact one hm fun _ => ⟨_, hf.2.2, fun e he => ⟨n, hf.2.1, he⟩⟩
  | unlockLast hp =>
    simp only [Fits, hp] at hf
    exact one hm fun h => by rw [hf.1] at h; exact h.elim
  | _ => exact .inl hm

/-! ## The invariant of all runs -/

namespace Machine

theorem runs_set {s s' : Shared α} {threads : List (Thread α)} {me : Nat} {t t' : Thread α}
    (ht : threads[me]? = some t) {i : Nat} {r : Running α} :
    (⟨s', threads.set me t'⟩ : Machine α).Runs i r ↔
      if i = me then t'.running = some r else (⟨s, threads⟩ : Machine α).Runs i r := by
  have hlt : me < threads.length := (List.getElem?_eq_some_iff.1 ht).1
  by_cases hi : i = me
  · subst hi; simp [Runs, hlt]
  · simp [Runs, hi, List.getElem?_set_ne (Ne.symm hi)]

theorem Runs.eq {m : Machine α} {i : Nat} {t : Thread α} {r : Running α} (h : m.Runs i r)
    (ht : m.threads[i]? = some t) : t.running = some r := by
  obtain ⟨t', ht', hr⟩ := h
  rw [ht] at ht'
  cases ht'
  exact hr

theorem mem_finished_set {s s' : Shared α} {threads : List (Thread α)} {me : Nat} {t' : Thread α} {f : Finished α}
    (h : f ∈ (⟨s', threads.set me t'⟩ : Machine α).finished) :
    f ∈ t'.finished ∨ f ∈ (⟨s, threads⟩ : Machine α).finished := by
  simp only [finished, List.mem_flatMap] at h ⊢
  obtain ⟨t, ht, hf⟩ := h
  rcases List.mem_or_eq_of_mem_set ht with ht | rfl
  · exact .inr ⟨t, ht, hf⟩
  · exact .inl hf

theorem mem_finished {m : Machine α} {i : Nat} {t : Thread α} (ht : m.threads[i]? = some t) {f : Finished α}
    (hf : f ∈ t.finished) : f ∈ m.finished :=
  List.mem_flatMap.2 ⟨t, List.mem_of_getElem? ht, hf⟩

end Machine

theorem Formed.owns {keys : List String} {m : Machine α} (h : Formed keys m) {i : Nat} {t : Thread α} {r : Running α}
    (ht : m.threads[i]? = some t) (hr : t.running = some r) (n : Nat) :
    (m.shared.slot n).owner = some i ↔ r.point.held? = some n := by
  rw [h.locks]
  constructor
  · rintro ⟨r', hr', hp⟩
    have := hr'.eq ht
    rw [hr] at this
    cases this
    exact hp
  · exact fun hp => ⟨r, ⟨t, ht, hr⟩, hp⟩

/-- A lock has one holder. -/
theorem Formed.eq_of_held {keys : List String} {m : Machine α} (h : Formed keys m) {i j : Nat} {r r' : Running α}
    {n : Nat} (hr : m.Runs i r) (hp : r.point.held? = some n) (hr' : m.Runs j r') (hp' : r'.point.held? = some n) :
    i = j := by
  have hi := (h.locks n i).2 ⟨r, hr, hp⟩
  rw [(h.locks n j).2 ⟨r', hr', hp'⟩] at hi
  exact (Option.some.inj hi).symm

theorem Formed.acts_keeps {keys : List String} {s s' : Shared α} {threads : List (Thread α)} {me : Nat}
    {t t' : Thread α} {r : Running α} (h : Formed keys ⟨s, threads⟩) (ht : threads[me]? = some t)
    (hr : t.running = some r) (ha : Acts me s t r s' t') : Keeps me s s' :=
  Concurrent.acts_keeps h.length (h.fits me r ⟨t, ht, hr⟩) (fun n => (h.owns ht hr n).2) ha

theorem Formed.takeUp {keys : List String} {s : Shared α} {threads : List (Thread α)} {me : Nat} {t : Thread α}
    {call : Call α} {todo : List (Call α)} (h : Formed keys ⟨s, threads⟩) (ht : threads[me]? = some t)
    (hr : t.running = none) : Formed keys ⟨s, threads.set me (t.takeUp call todo)⟩ := by
  have hruns (i : Nat) (r : Running α) : (⟨s, threads.set me (t.takeUp call todo)⟩ : Machine α).Runs i r ↔
      if i = me then (t.takeUp call todo).running = some r else (⟨s, threads⟩ : Machine α).Runs i r :=
    Machine.runs_set ht
  -- The thread was in no call before, so it is in the new one only.
  have hold {r : Running α} (hm : (⟨s, threads⟩ : Machine α).Runs me r) : False := by
    have := hm.eq ht
    rw [hr] at this
    cases this
  refine ⟨h.length, h.mapped, fun i r hm => ?_, fun n i => ?_, fun key n hv he => ?_, fun f hf => ?_⟩
  · rw [hruns] at hm
    split at hm
    · cases hm; exact True.intro
    · exact h.fits i r hm
  · rw [h.locks]
    simp only [hruns]
    by_cases hi : i = me
    · subst hi
      constructor
      · rintro ⟨r, hm, -⟩
        exact (hold hm).elim
      · rintro ⟨r, hm, hp⟩
        simp only [if_true, Thread.takeUp, Option.some.injEq] at hm
        subst hm
        cases hp
    · simp [hi]
  · obtain ⟨i, r, hm, htend⟩ := h.tended key n hv he
    have hi : i ≠ me := by rintro rfl; exact hold hm
    exact ⟨i, r, (hruns i r).2 (by rwa [if_neg hi]), htend⟩
  · rcases Machine.mem_finished_set (s := s) hf with hf | hf
    · exact h.answered f (Machine.mem_finished (t := t) ht hf)
    · exact h.answered f hf

theorem Formed.act {keys : List String} {s s' : Shared α} {threads : List (Thread α)} {me : Nat} {t t' : Thread α}
    {r : Running α} (h : Formed keys ⟨s, threads⟩) (ht : threads[me]? = some t) (hr : t.running = some r)
    (ha : Acts me s t r s' t') : Formed (grown keys r s s') ⟨s', threads.set me t'⟩ := by
  have hruns (i : Nat) (r : Running α) : (⟨s', threads.set me t'⟩ : Machine α).Runs i r ↔
      if i = me then t'.running = some r else (⟨s, threads⟩ : Machine α).Runs i r :=
    Machine.runs_set ht
  have hf : Fits keys s r := h.fits me r ⟨t, ht, hr⟩
  have howns := h.owns ht hr
  have hk : Keeps me s s' := h.acts_keeps ht hr ha
  obtain ⟨hmap, hvalue⟩ := acts_map ha
  refine ⟨?_, fun entry he => ?_, fun i r' hm => ?_, fun n i => ?_, fun key n hv he => ?_, fun f hm hx => ?_⟩
  · have hl : keys.length = s.slots.length := h.length
    have := hk.length
    simp only [grown, List.length_append, List.length_replicate]
    omega
  · rcases hmap entry he with hm | ⟨rfl, hl⟩
    · exact getElem?_grown (h.mapped entry hm)
    · exact getElem?_grown_new h.length hl
  · rw [hruns] at hm
    split at hm
    · exact acts_fits h.length h.mapped hf ha hm
    · rename_i hi
      refine (h.fits i r' hm).keep h.length hk fun n hn ho => hi ?_
      have := (h.locks n i).2 ⟨r', hm, hn⟩
      rw [show (⟨s, threads⟩ : Machine α).shared = s from rfl, ho] at this
      cases this
      rfl
  · rw [acts_owner h.length hf howns ha n i]
    simp only [hruns]
    by_cases hi : i = me
    · simp [hi, Holds]
    · simp only [hi, if_false]
      exact h.locks n i
  · by_cases hnew : n = s.slots.length ∧ s'.slots.length ≠ s.slots.length
    · obtain ⟨rfl, hl⟩ := hnew
      obtain ⟨r', hr', htend⟩ := acts_tends_new ha hl he
      exact ⟨me, r', (hruns me r').2 (by rwa [if_pos rfl]), htend⟩
    · have hv' : s.map.value? key = some n := by
        rcases hvalue key n hv with hv' | rfl
        · exact hv'
        · rcases hmap _ (Dict.mem_of_value? hv) with hm | ⟨-, hl⟩
          · exact absurd (lt_of_key h.length (h.mapped _ hm)) (Nat.lt_irrefl _)
          · exact absurd ⟨rfl, by omega⟩ hnew
      have he' : (s.slot n).content = none := by
        cases hc : (s.slot n).content with
        | none => rfl
        | some e => rw [hk.filled n e hc] at he; cases he
      obtain ⟨i, r', hm, htend⟩ := h.tended key n hv' he'
      by_cases hi : i = me
      · subst hi
        have := hm.eq ht
        rw [hr] at this
        cases this
        obtain ⟨r', hr', htend⟩ :=
          acts_tends h.length hf ha htend (h.mapped _ (Dict.mem_of_value? hv')) hv he
        exact ⟨i, r', (hruns i r').2 (by rwa [if_pos rfl]), htend⟩
      · exact ⟨i, r', (hruns i r').2 (by rwa [if_neg hi]), (isCreating_congr hk.policy _).trans htend.1, htend.2⟩
  · have old (hm : f ∈ (⟨s, threads⟩ : Machine α).finished) : ∃ content, f.reply = replyOn content f.call ∧
        ∀ e, content = some e → ∃ n, (grown keys r s s')[n]? = some f.call.key ∧ (s'.slot n).content = some e := by
      obtain ⟨content, hc, he⟩ := h.answered f hm hx
      refine ⟨content, hc, fun e hce => ?_⟩
      obtain ⟨n, hn, hce⟩ := he e hce
      exact ⟨n, getElem?_grown hn, hk.filled n e hce⟩
    rcases Machine.mem_finished_set (s := s) hm with hm | hm
    · rcases acts_finished hf ha hm with hm | ⟨hcall, hm⟩
      · exact old (Machine.mem_finished ht hm)
      · rw [hcall] at hx ⊢
        obtain ⟨content, hc, he⟩ := hm hx
        refine ⟨content, hc, fun e hce => ?_⟩
        obtain ⟨n, hn, hce⟩ := he e hce
        exact ⟨n, getElem?_grown hn, hk.filled n e hce⟩
    · exact old hm

theorem ofStore_mapped (s : Store α) (calls : List (List (Call α))) :
    ∀ entry ∈ (Machine.ofStore s calls).shared.map, (s.entries.map (·.1))[entry.2]? = some entry.1 := by
  intro entry he
  simp only [Machine.ofStore, List.mem_map] at he
  obtain ⟨⟨pair, n⟩, hm, rfl⟩ := he
  rw [List.getElem?_map, List.mem_zipIdx_iff_getElem?.1 hm]
  rfl

/-- Every key of a store that nobody uses yet is mapped. -/
theorem ofStore_value? (s : Store α) (calls : List (List (Call α))) {n : Nat} {key : String}
    (h : (s.entries.map (·.1))[n]? = some key) : ∃ k, (Machine.ofStore s calls).shared.map.value? key = some k := by
  rw [List.getElem?_map, Option.map_eq_some_iff] at h
  obtain ⟨entry, he, rfl⟩ := h
  exact Dict.exists_value?_of_mem (List.mem_map.2 ⟨(entry, n), List.mem_zipIdx_iff_getElem?.2 he, rfl⟩)

/-- Every mapped slot of a store that nobody uses yet is filled. -/
theorem ofStore_content (s : Store α) (calls : List (List (Call α))) {n : Nat}
    (hn : n < (Machine.ofStore s calls).shared.slots.length) :
    ∃ e, ((Machine.ofStore s calls).shared.slot n).content = some e := by
  simp only [Machine.ofStore, List.length_map] at hn
  exact ⟨s.entries[n].2, by simp [Machine.ofStore, Shared.slot, hn]⟩

theorem ofStore_owner (s : Store α) (calls : List (List (Call α))) (n : Nat) :
    ((Machine.ofStore s calls).shared.slot n).owner = none := by
  simp only [Machine.ofStore, Shared.slot, List.getElem?_map]
  cases s.entries[n]? <;> rfl

theorem not_runs_ofStore {s : Store α} {calls : List (List (Call α))} {i : Nat} {r : Running α} :
    ¬ (Machine.ofStore s calls).Runs i r := by
  rintro ⟨t, ht, hr⟩
  simp only [Machine.ofStore, List.getElem?_map, Option.map_eq_some_iff] at ht
  obtain ⟨todo, -, rfl⟩ := ht
  cases hr

theorem formed_ofStore (s : Store α) (calls : List (List (Call α))) :
    Formed (s.entries.map (·.1)) (Machine.ofStore s calls) := by
  have hmap := ofStore_mapped s calls
  refine ⟨by simp [Machine.ofStore], hmap, fun i r h => (not_runs_ofStore h).elim, fun n i => ?_,
    fun key n hv he => ?_, fun f hf => ?_⟩
  · rw [ofStore_owner]
    exact ⟨fun h => (nomatch h), fun ⟨r, hr, _⟩ => (not_runs_ofStore hr).elim⟩
  · have hn := lt_of_key (s := (Machine.ofStore s calls).shared) (by simp [Machine.ofStore])
      (hmap _ (Dict.mem_of_value? hv))
    obtain ⟨e, hc⟩ := ofStore_content s calls hn
    rw [hc] at he
    cases he
  · simp only [Machine.finished, Machine.ofStore, List.mem_flatMap, List.mem_map] at hf
    obtain ⟨t, ⟨todo, -, rfl⟩, hf⟩ := hf
    cases hf

theorem Formed.reaches {keys : List String} {m₀ m : Machine α} (h : Formed keys m₀) (hr : Machine.Reaches m₀ m) :
    ∃ keys, Formed keys m :=
  Machine.induction (P := fun m => ∃ keys, Formed keys m) hr ⟨keys, h⟩
    (fun ⟨keys, hf⟩ ht hr _ => ⟨keys, hf.takeUp ht hr⟩) fun ⟨_, hf⟩ ht hr ha => ⟨_, hf.act ht hr ha⟩

end CacheScript.Concurrent
