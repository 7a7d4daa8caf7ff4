/-
A thread that has a store to itself. Slots are mapped before they are filled,
and taken out of the map again when they stay empty; but nobody sees this, and
what the thread gets from its calls, and leaves behind, is what the calls come
to when each of them is made at once (`Formed.serving_isDone`).
-/
import CacheScript.Proofs.Concurrent.Together

namespace CacheScript.Concurrent

variable {α : Type}

/-! ## The store under the calls -/

/-- How many of these slots hold an object. -/
def Shared.filledAmong (s : Shared α) (slots : List Nat) : Nat :=
  slots.countP fun n => (s.slot n).content.isSome

theorem filledAmong_setOwner (s : Shared α) (n : Nat) (owner : Option Nat) (slots : List Nat) :
    (s.setSlot n { s.slot n with owner }).filledAmong slots = s.filledAmong slots := by
  simp only [Shared.filledAmong, Shared.content_setOwner]

/-- The size of a store is the number of its filled slots in the map. -/
theorem Shows.size_eq {s : Shared α} {σ : Store α} (h : Shows s σ) (hs : s.map.Sorted) :
    σ.size = s.filledAmong (s.map.map (·.2)) := by
  have hentries : σ.entries = s.map.filterMap fun entry => ((s.slot entry.2).content).map (entry.1, ·) :=
    h.sorted.ext (hs.filterMap fun n => (s.slot n).content) fun key =>
      (h.entries key).trans (hs.value?_filterMap (fun n => (s.slot n).content) key).symm
  rw [Store.size, hentries, List.length_filterMap_eq_countP, Shared.filledAmong, List.countP_map]
  simp only [Option.isSome_map, Function.comp_def]

/-- One key and what was under it are gone. -/
theorem Shows.expire {s : Shared α} {σ : Store α} (h : Shows s σ) (key : String) {map : Dict Nat}
    (hmap : ∀ name, Shared.entry? { s with map } name = if name = key then none else s.entry? name) :
    Shows { s with map } (σ.expire key).2 := by
  refine ⟨h.id, h.policy, h.loader, h.made, h.materialized, h.sorted.remove key, fun name => ?_⟩
  show (σ.entries.remove key).value? name = _
  rw [Dict.value?_remove, hmap, h.entries]

theorem Shows.insert {keys : List String} {s : Shared α} {σ : Store α} (h : Shows s σ)
    (hl : keys.length = s.slots.length) (hm : ∀ entry ∈ s.map, keys[entry.2]? = some entry.1) (key : String)
    (object : α) :
    Shows { s.mapNew key (some ⟨s.made, object⟩) with made := s.made + 1 } (σ.insert key object).2 := by
  refine ⟨h.id, h.policy, h.loader, congrArg (· + 1) h.made, h.materialized, h.sorted.put _ _, fun name => ?_⟩
  show (σ.entries.put key ⟨σ.made, object⟩).value? name =
    Shared.entry? (s.mapNew key (some ⟨s.made, object⟩)) name
  rw [Dict.value?_put, entry?_mapNew hl hm, h.entries, h.made]

theorem Shows.clear {s : Shared α} {σ : Store α} (h : Shows s σ) : Shows { s with map := [] } σ.clear :=
  ⟨h.id, h.policy, h.loader, h.made, h.materialized, .nil, fun _ => rfl⟩

/-! ## One call -/

/-- A load or a look tells what is there, unless the load makes what is not. -/
theorem perform_stay {s : Shared α} {σ : Store α} (h : Shows s σ) {call : Call α} (hk : IsKeyed call)
    (hexpire : call ≠ .expire call.key) (hno : isCreating s call = false ∨ ∃ e, s.entry? call.key = some e) :
    σ.perform call = ⟨replyOn (s.entry? call.key) call, σ, []⟩ := by
  have hentry : σ.entries.value? call.key = s.entry? call.key := h.entries call.key
  rw [← hentry] at hno ⊢
  cases call with
  | load key create =>
    simp only [Call.key] at hno ⊢
    cases he : σ.entries.value? key with
    | some e => exact Store.perform_held he
    | none =>
      have hcreate : ¬ (create = true ∧ σ.policy = .createIfAbsent) := by
        rw [h.policy]
        simpa [isCreating, Shared.creates, he] using hno
      exact Store.perform_absent he hcreate
  | expire key => exact absurd rfl hexpire
  | contains key => rfl
  | insert key object => exact hk.elim
  | clear => exact hk.elim
  | size => exact hk.elim

theorem perform_expire {s : Shared α} {σ : Store α} (h : Shows s σ) {call : Call α} (hc : call = .expire call.key) :
    σ.perform call = ⟨replyOn (s.entry? call.key) call, (σ.expire call.key).2, []⟩ := by
  rw [hc, ← h.entries]
  rfl

/-- What a call that has the store to itself knows of it at each of its points. -/
def InStep (s : Shared α) (σ : Store α) (r : Running α) : Prop :=
  match r.point with
  | .again | .unlocking _ (some _) => s.calls = σ.calls
  | .waiting n | .checking n | .starting n => s.map.value? r.call.key = some n ∧ s.calls = σ.calls
  | .calling n _ | .unmapping n _ => s.map.value? r.call.key = some n ∧
      if isCreating s r.call then Asking r.call.key s σ r.point else s.calls = σ.calls
  | .unlocking _ none => False
  | .counting n rest count => s.calls = σ.calls ∧ count + s.filledAmong (n :: rest) = σ.size
  | .counted _ rest count => s.calls = σ.calls ∧ count + s.filledAmong rest = σ.size

/-- The thread has made this store out of the one at the start. -/
structure Abreast (s : Shared α) (σ : Store α) (t : Thread α) : Prop where
  shows : Shows s σ
  inStep : ∀ r, t.running = some r → InStep s σ r
  idle : t.running = none → s.calls = σ.calls

theorem Abreast.goto {s : Shared α} {σ : Store α} (h : Shows s σ) {t : Thread α} {r : Running α} {point : Point α}
    (hr : InStep s σ { r with point }) : Abreast s σ (t.goto r point) := by
  refine ⟨h, fun r' hr' => ?_, fun hr' => nomatch hr'⟩
  cases hr'
  exact hr

theorem Abreast.reply {s : Shared α} {σ : Store α} (h : Shows s σ) (hc : s.calls = σ.calls) (t : Thread α)
    (r : Running α) (reply : Reply α) : Abreast s σ (t.reply r reply) :=
  ⟨h, fun _ hr' => (nomatch hr'), fun _ => hc⟩

/-- The call goes on, and nobody sees it. -/
theorem Abreast.goOn {s : Shared α} {σ : Store α} {t : Thread α} {r r' : Running α} {point : Point α}
    (hr : t.running = some r) (hp : r.answer? = none) (hp' : Running.answer? { r' with point } = none) (h : Shows s σ)
    (hin : InStep s σ { r' with point }) :
    (t.goto r' point).answers = t.answers ∧ Abreast s σ (t.goto r' point) := by
  refine ⟨?_, .goto h hin⟩
  rw [Thread.answers_goto hr hp, hp', Option.toList_none, List.append_nil]

/-- The call decides on its answer. -/
theorem Abreast.decide {s : Shared α} {σ : Store α} {t : Thread α} {r : Running α} {n : Nat} {reply : Reply α}
    (hr : t.running = some r) (hp : r.answer? = none) (h : Shows s σ) (hc : s.calls = σ.calls) :
    (t.goto r (.unlocking n (some reply))).answers = t.answers ++ [(r.call, reply)] ∧
      Abreast s σ (t.goto r (.unlocking n (some reply))) :=
  ⟨Thread.answers_goto hr hp _, .goto h hc⟩

theorem eq_load_of_isCreating {s : Shared α} {call : Call α} (h : isCreating s call = true) :
    call = .load call.key true ∧ s.policy = .createIfAbsent := by
  cases call with
  | load key create =>
    simp only [isCreating, Shared.creates, Bool.and_eq_true, beq_iff_eq] at h
    rw [h.1]
    exact ⟨rfl, h.2⟩
  | _ => cases h

theorem afterLock_stay {s : Shared α} {n : Nat} {content : Option (Entry α)} {call : Call α} (hk : IsKeyed call)
    (hexpire : call ≠ .expire call.key) (hno : isCreating s call = false ∨ ∃ e, content = some e) :
    Thread.afterLock s n content call = .unlocking n (some (replyOn content call)) := by
  cases call with
  | load key create =>
    cases content with
    | some e => rfl
    | none =>
      have hcreate : ¬ s.creates create = true := by simpa [isCreating] using hno
      exact if_neg hcreate
  | expire key => exact absurd rfl hexpire
  | contains key => rfl
  | insert key object => exact hk.elim
  | clear => exact hk.elim
  | size => exact hk.elim

/-- With the lock of its slot a load or a look takes effect, unless the load is to
make what is not there. -/
theorem Abreast.lock {keys : List String} {me n : Nat} {s : Shared α} {σ : Store α} {t : Thread α} {r : Running α}
    (h : Abreast s σ t) (hf : Fits keys s r) (hr : t.running = some r) (hp : r.point = .waiting n) :
    let s' := s.setSlot n { s.slot n with owner := some me }
    let t' := t.goto r (Thread.afterLock s n (s.slot n).content r.call)
    t'.answers = t.answers ∧ Abreast s' σ t' ∨
      t'.answers = t.answers ++ [(r.call, (σ.perform r.call).reply)] ∧ Abreast s' (σ.perform r.call).store t' := by
  intro s' t'
  have hin : InStep s σ r := h.inStep r hr
  simp only [InStep, hp] at hin
  simp only [Fits, hp] at hf
  obtain ⟨hv, hcalls⟩ := hin
  have hopen : r.answer? = none := by rw [Running.answer?, hp]
  have hshows : Shows s' σ := h.shows.setOwner n (some me)
  have hentry : s.entry? r.call.key = (s.slot n).content := by rw [Shared.entry?, hv, Option.bind_some]
  by_cases hexpire : r.call = .expire r.call.key
  · have hafter : Thread.afterLock s n (s.slot n).content r.call =
        .unmapping n (.expired (s.slot n).content.isSome) := by rw [hexpire]; rfl
    have hno : isCreating s' r.call = false := by rw [hexpire]; rfl
    simp only [t', hafter]
    refine .inl (Abreast.goOn hr hopen rfl hshows ?_)
    refine ⟨hv, ?_⟩
    rw [if_neg (by simp [hno])]
    exact hcalls
  by_cases hno : isCreating s r.call = false ∨ ∃ e, s.entry? r.call.key = some e
  · have hafter : Thread.afterLock s n (s.slot n).content r.call =
        .unlocking n (some (replyOn (s.slot n).content r.call)) := by
      rw [hentry] at hno
      exact afterLock_stay hf.1 hexpire hno
    rw [perform_stay h.shows hf.1 hexpire hno, hentry]
    simp only [t', hafter]
    exact .inr (Abreast.decide hr hopen hshows hcalls)
  · obtain ⟨hc, he⟩ := not_or.1 hno
    have hc : isCreating s r.call = true := by simpa using hc
    have he : (s.slot n).content = none := by
      rw [hentry] at he
      exact Option.eq_none_iff_forall_ne_some.2 fun e hse => he ⟨e, hse⟩
    have hafter : Thread.afterLock s n (s.slot n).content r.call = .checking n := by
      have hcr : isCreating s (.load r.call.key true : Call α) = true := by
        rw [← (eq_load_of_isCreating hc).1]
        exact hc
      rw [(eq_load_of_isCreating hc).1, he]
      exact if_pos hcr
    simp only [t', hafter]
    exact .inl (Abreast.goOn hr hopen rfl hshows ⟨hv, hcalls⟩)

/-- **A thread that has the store to itself is in step with it**: it goes on
within a call, or answers as the store does. -/
theorem Abreast.act {keys : List String} {me : Nat} {s s' : Shared α} {σ : Store α} {t t' : Thread α}
    {r : Running α} (h : Abreast s σ t) (hl : keys.length = s.slots.length)
    (hm : ∀ entry ∈ s.map, keys[entry.2]? = some entry.1) (hs : s.map.Sorted) (hf : Fits keys s r)
    (hr : t.running = some r) (ha : Acts me s t r s' t') :
    t'.answers = t.answers ∧ Abreast s' σ t' ∨
      t'.answers = t.answers ++ [(r.call, (σ.perform r.call).reply)] ∧ Abreast s' (σ.perform r.call).store t' := by
  have hshows := h.shows
  have hin : InStep s σ r := h.inStep r hr
  have hopen : (∀ n reply, r.point ≠ .unlocking n (some reply)) → r.answer? = none := Running.answer?_eq_none
  cases ha with
  | find hp hk hv =>
    simp only [InStep, hp] at hin
    exact .inl (Abreast.goOn hr (hopen (by simp [hp])) rfl hshows ⟨hv, hin⟩)
  | create hp hc hv =>
    simp only [InStep, hp] at hin
    refine .inl (Abreast.goOn hr (hopen (by simp [hp])) rfl (hshows.mapNew hl hm hv) ⟨?_, hin⟩)
    exact Dict.value?_put_self _ _ _
  | absent hp hk hc hv =>
    simp only [InStep, hp] at hin
    have hentry : s.entry? r.call.key = none := by rw [Shared.entry?, hv, Option.bind_none]
    rw [Thread.answers_reply hr (hopen (by simp [hp]))]
    by_cases hexpire : r.call = .expire r.call.key
    · rw [perform_expire hshows hexpire, hentry]
      refine .inr ⟨rfl, .reply (hshows.expire r.call.key fun name => ?_) hin t r _⟩
      split
      · rename_i hname
        rw [hname]
        exact hentry
      · rfl
    · rw [perform_stay hshows hk hexpire (.inl hc), hentry]
      exact .inr ⟨rfl, .reply hshows hin t r _⟩
  | @insert key object hp hc =>
    simp only [InStep, hp] at hin
    rw [Thread.answers_reply hr (hopen (by simp [hp])), hc]
    refine .inr ⟨?_, .reply (hshows.insert hl hm key object) hin t r _⟩
    rw [← hshows.made]
    rfl
  | clear hp hc =>
    simp only [InStep, hp] at hin
    rw [Thread.answers_reply hr (hopen (by simp [hp])), hc]
    exact .inr ⟨rfl, .reply hshows.clear hin t r _⟩
  | countNone hp hc hv =>
    simp only [InStep, hp] at hin
    have hsize : σ.size = 0 := by rw [hshows.size_eq hs, hv]; rfl
    rw [Thread.answers_reply hr (hopen (by simp [hp])), hc, ← hsize]
    exact .inr ⟨rfl, .reply hshows hin t r _⟩
  | @count n rest hp hc hv =>
    simp only [InStep, hp] at hin
    have hsize : σ.size = s.filledAmong (n :: rest) := by
      rw [hshows.size_eq hs, Shared.filledAmong, Shared.filledAmong, hv.countP_eq]
    refine .inl (Abreast.goOn hr (hopen (by simp [hp])) rfl hshows ⟨hin, ?_⟩)
    rw [hsize, Nat.zero_add]
  | lock hp ho => exact h.lock hf hr hp
  | current hp hv =>
    simp only [InStep, hp] at hin
    exact .inl (Abreast.goOn hr (hopen (by simp [hp])) rfl hshows hin)
  | stale hp hv =>
    simp only [InStep, hp] at hin
    exact absurd hin.1 hv
  | @call n hp =>
    simp only [InStep, hp] at hin
    simp only [Fits, hp] at hf
    obtain ⟨hv, hcalls⟩ := hin
    obtain ⟨hid, hpolicy, hloader, hmade, hmaterialized, hsorted, hentries⟩ := hshows
    refine .inl (Abreast.goOn hr (hopen (by simp [hp])) rfl
      ⟨hid, hpolicy, hloader, hmade, hmaterialized, hsorted, hentries⟩ ⟨hv, ?_⟩)
    rw [if_pos (by exact hf.1)]
    refine ⟨congrArg (· ++ [r.call.key]) hcalls, ?_⟩
    rw [hcalls, hloader]
  | @found n object hp =>
    simp only [InStep, hp] at hin
    simp only [Fits, hp] at hf
    obtain ⟨hc, hk, he⟩ := hf
    obtain ⟨hv, hasking⟩ := hin
    rw [if_pos hc] at hasking
    obtain ⟨hcall, hpolicy⟩ := eq_load_of_isCreating hc
    have hentry : σ.entries.value? r.call.key = none := by
      rw [hshows.entries, Shared.entry?, hv, Option.bind_some, he]
    obtain ⟨lines, hperform⟩ := Store.perform_made hentry (hshows.policy.trans hpolicy) hasking.2.symm
    rw [← hcall] at hperform
    rw [hperform, ← hshows.made]
    exact .inr (Abreast.decide hr (hopen (by simp [hp])) (hshows.fill hl hm hv object _ _) hasking.1)
  | @missed n answer hp hno =>
    simp only [InStep, hp] at hin
    simp only [Fits, hp] at hf
    obtain ⟨hv, hasking⟩ := hin
    rw [if_pos hf.1] at hasking
    obtain ⟨hid, hpolicy, hloader, hmade, hmaterialized, hsorted, hentries⟩ := hshows
    refine .inl (Abreast.goOn hr (hopen (by simp [hp])) rfl
      ⟨hid, hpolicy, hloader, hmade, hmaterialized, hsorted, hentries⟩ ⟨hv, ?_⟩)
    rw [if_pos (by exact hf.1)]
    exact ⟨hasking.1, fun object ho => hno object (hasking.2.trans ho)⟩
  | @unmap n reply hp =>
    simp only [InStep, hp] at hin
    simp only [Fits, hp] at hf
    obtain ⟨hk, hkey, hreply, hcase⟩ := hf
    obtain ⟨hv, hasking⟩ := hin
    have hentry : s.entry? r.call.key = (s.slot n).content := by rw [Shared.entry?, hv, Option.bind_some]
    rw [hreply]
    rcases hcase with hexpire | ⟨hc, he⟩
    · have hno : ¬ isCreating s r.call = true := by rw [hexpire]; simp [isCreating]
      rw [if_neg hno] at hasking
      rw [perform_expire hshows hexpire, hentry, Shared.unmap, if_pos (Shared.isCurrent_iff.2 hv)]
      refine .inr (Abreast.decide hr (hopen (by simp [hp])) (hshows.expire r.call.key fun name => ?_) hasking)
      show ((s.map.remove r.call.key).value? name).bind _ = _
      rw [Dict.value?_remove]
      split <;> rfl
    · rw [if_pos hc] at hasking
      obtain ⟨hcall, hpolicy⟩ := eq_load_of_isCreating hc
      have hnone : σ.entries.value? r.call.key = none := by rw [hshows.entries, hentry, he]
      obtain ⟨lines, hperform⟩ := Store.perform_missed hnone (hshows.policy.trans hpolicy) hasking.2
      rw [← hcall] at hperform
      have hreply : replyOn none r.call = .loaded none := by rw [hcall]; rfl
      rw [hperform, he, hreply]
      refine .inr (Abreast.decide hr (hopen (by simp [hp])) (hshows.unmap hv he _) ?_)
      exact (s.calls_unmap r.call.key n).trans hasking.1
  | unlock hp =>
    simp only [InStep, hp] at hin
    exact .inl ⟨Thread.answers_unlock hr hp, .reply (hshows.setOwner _ _) hin t r _⟩
  | retry hp =>
    simp only [InStep, hp] at hin
  | @lockNext n count rest hp ho =>
    simp only [InStep, hp] at hin
    obtain ⟨hcalls, hsize⟩ := hin
    refine .inl (Abreast.goOn hr (hopen (by simp [hp])) rfl (hshows.setOwner _ _) ⟨hcalls, ?_⟩)
    rw [filledAmong_setOwner, ← hsize, Shared.filledAmong, Shared.filledAmong, List.countP_cons]
    split <;> omega
  | @unlockLast n count hp =>
    simp only [InStep, hp] at hin
    simp only [Fits, hp] at hf
    obtain ⟨hcalls, hsize⟩ := hin
    rw [Thread.answers_reply hr (hopen (by simp [hp])), hf.1]
    refine .inr ⟨?_, .reply (hshows.setOwner _ _) hcalls t r _⟩
    have hcount : count = σ.size := hsize
    rw [hcount]
    rfl
  | @unlockNext n k count rest hp =>
    simp only [InStep, hp] at hin
    obtain ⟨hcalls, hsize⟩ := hin
    refine .inl (Abreast.goOn hr (hopen (by simp [hp])) rfl (hshows.setOwner _ _) ⟨hcalls, ?_⟩)
    rw [filledAmong_setOwner]
    exact hsize

/-! ## Whole runs -/

/-- The only thread is abreast of the store that its answers so far come to. -/
def Alone (σ₀ : Store α) (m : Machine α) : Prop :=
  ∃ t σ, m.threads = [t] ∧ σ₀.performAll (t.answers.map (·.1)) = (t.answers.map (·.2), σ) ∧ Abreast m.shared σ t

theorem eq_of_getElem?_singleton {β : Type} {b b' : β} {i : Nat} (h : [b][i]? = some b') : i = 0 ∧ b' = b := by
  cases i with
  | zero => exact ⟨rfl, (Option.some.inj h).symm⟩
  | succ i => cases h

theorem Alone.takeUp {σ₀ : Store α} {s : Shared α} {threads : List (Thread α)} {me : Nat} {t : Thread α}
    {call : Call α} {todo : List (Call α)} (h : Alone σ₀ ⟨s, threads⟩) (ht : threads[me]? = some t)
    (hr : t.running = none) : Alone σ₀ ⟨s, threads.set me (t.takeUp call todo)⟩ := by
  obtain ⟨u, σ, rfl, hall, hu⟩ := h
  obtain ⟨rfl, rfl⟩ := eq_of_getElem?_singleton ht
  refine ⟨t.takeUp call todo, σ, rfl, ?_, hu.shows, fun r hr' => ?_, fun hno => nomatch hno⟩
  · rw [Thread.answers_takeUp hr]
    exact hall
  · cases hr'
    exact hu.idle hr

theorem Alone.act {keys : List String} {σ₀ : Store α} {s s' : Shared α} {threads : List (Thread α)} {me : Nat}
    {t t' : Thread α} {r : Running α} (h : Alone σ₀ ⟨s, threads⟩) (hf : Formed keys ⟨s, threads⟩)
    (hs : s.map.Sorted) (ht : threads[me]? = some t) (hr : t.running = some r) (ha : Acts me s t r s' t') :
    Alone σ₀ ⟨s', threads.set me t'⟩ := by
  obtain ⟨u, σ, rfl, hall, hu⟩ := h
  have hact := hf.fits me r ⟨t, ht, hr⟩
  obtain ⟨rfl, rfl⟩ := eq_of_getElem?_singleton ht
  rcases hu.act hf.length hf.mapped hs hact hr ha with ⟨hans, hnext⟩ | ⟨hans, hnext⟩
  · exact ⟨t', σ, rfl, by rw [hans]; exact hall, hnext⟩
  · refine ⟨t', (σ.perform r.call).store, rfl, ?_, hnext⟩
    rw [hans, List.map_append, List.map_append, List.map_singleton, List.map_singleton, Store.performAll_snoc, hall]

/-- One thread with calls to make, about to start on a store that is not in use. -/
def Machine.serving (m : Machine α) (calls : List (Call α)) : Machine α :=
  ⟨m.shared, [⟨none, calls, []⟩]⟩

theorem alone_serving {m : Machine α} (hs : m.shared.map.Sorted) (calls : List (Call α)) :
    Alone m.toStore (m.serving calls) :=
  ⟨_, m.toStore, rfl, rfl, shows_toStore hs, fun _ hr => (nomatch hr), fun _ => rfl⟩

theorem Formed.serving {keys : List String} {m : Machine α} (h : Formed keys m) (hq : m.isQuiet = true)
    (calls : List (Call α)) : Formed keys (m.serving calls) := by
  refine h.reuse hq fun t ht => ?_
  rw [List.mem_singleton.1 ht]
  exact ⟨rfl, rfl⟩

theorem alone_of_reaches {keys : List String} {m₀ m : Machine α} (h : Formed keys m₀) (hq : m₀.isQuiet = true)
    (hs : m₀.shared.map.Sorted) {calls : List (Call α)} (hr : Machine.Reaches (m₀.serving calls) m) :
    Alone m₀.toStore m := by
  suffices (∃ keys, Formed keys m) ∧ m.shared.map.Sorted ∧ Alone m₀.toStore m from this.2.2
  exact Machine.induction (P := fun m => (∃ keys, Formed keys m) ∧ m.shared.map.Sorted ∧ Alone m₀.toStore m) hr
    ⟨⟨keys, h.serving hq calls⟩, hs, alone_serving hs calls⟩
    (fun ⟨⟨keys, hf⟩, hs, hm⟩ ht hr _ => ⟨⟨keys, hf.takeUp ht hr⟩, hs, hm.takeUp ht hr⟩)
    fun ⟨⟨_, hf⟩, hs, hm⟩ ht hr ha => ⟨⟨_, hf.act ht hr ha⟩, acts_sorted hs ha, hm.act hf hs ht hr ha⟩

/-- **A thread that has the store to itself** gets the answers of its calls made
at once, one after another, and leaves the store that they leave. -/
theorem Formed.serving_isDone {keys : List String} {m₀ m : Machine α} (h : Formed keys m₀) (hq : m₀.isQuiet = true)
    (hs : m₀.shared.map.Sorted) {calls : List (Call α)} (hr : Machine.Reaches (m₀.serving calls) m)
    (hd : m.isDone = true) :
    m.finished.map (·.reply) = (m₀.toStore.performAll calls).1 ∧ m.toStore = (m₀.toStore.performAll calls).2 := by
  obtain ⟨t, σ, ht, hall, hm⟩ := alone_of_reaches h hq hs hr
  have hs' : (m₀.serving calls).shared.map.Sorted := hs
  have hnone : t.running = none ∧ t.todo = [] := Machine.isDone_iff.1 hd t (by simp [ht])
  have hanswers : t.answers = t.finished.map fun f => (f.call, f.reply) := by simp [Thread.answers, hnone.1]
  have hcalls : t.answers.map (·.1) = calls := by
    have hsame := Machine.calls_of_isDone hd
    rw [Machine.calls_of_reaches hr, Machine.finished, ht] at hsame
    simpa [hanswers, Function.comp_def, Machine.serving, Machine.calls, Thread.allCalls] using hsame
  have hreplies : t.answers.map (·.2) = m.finished.map (·.reply) := by
    rw [hanswers, Machine.finished, ht]
    simp [Function.comp_def]
  rw [hcalls, hreplies] at hall
  rw [hall]
  exact ⟨rfl, (shows_toStore (sorted_of_reaches hs' hr)).eq hm.shows (hm.idle hnone.1)⟩

end CacheScript.Concurrent
