/-
Loads of one key, step by step, with the store that their answers so far leave
behind (`Follows`). A load takes effect on that store in one step: when it
finds the object in its slot, when it fills its slot, or when it takes the
empty slot out of the map. The other steps leave the store as it is
(`Follows.act`).
-/
import CacheScript.Proofs.Concurrent.Calls
import CacheScript.Proofs.Concurrent.Making
import CacheScript.Proofs.Store.History

namespace CacheScript.Concurrent

variable {α : Type}

/-- What is found under a key. -/
def Shared.entry? (s : Shared α) (key : String) : Option (Entry α) :=
  (s.map.value? key).bind fun n => (s.slot n).content

/-- The store as the threads find it, but for the calls of its loader. -/
structure Shows (s : Shared α) (σ : Store α) : Prop where
  id : σ.id = s.id
  policy : σ.policy = s.policy
  loader : σ.loader = s.loader
  made : σ.made = s.made
  materialized : σ.materialized = s.materialized
  sorted : σ.entries.Sorted
  entries : ∀ key, σ.entries.value? key = s.entry? key

/-- Whether the loader was called by a load that has yet to take effect. -/
def Point.asks : Point α → Bool
  | .calling _ _ | .unmapping _ _ => true
  | _ => false

/-- Whether a load has neither called the loader nor decided on its answer. -/
def Point.isSilent : Point α → Bool
  | .calling _ _ | .unmapping _ _ | .unlocking _ (some _) => false
  | _ => true

/-- What a load that called the loader knows of its answer. -/
def Asking (key : String) (s : Shared α) (σ : Store α) : Point α → Prop
  | .calling _ answer => s.calls = σ.calls ++ [key] ∧ answer = σ.loader σ.calls key
  | .unmapping _ _ => s.calls = σ.calls ++ [key] ∧ ∀ object, σ.loader σ.calls key ≠ .found object
  | _ => True

/-- The loads of a key that were answered, or are about to be, have made this
store out of the one at the start. -/
structure Follows (key : String) (m : Machine α) (σ : Store α) : Prop where
  shows : Shows m.shared σ
  asking : ∀ i r, m.Runs i r → Asking key m.shared σ r.point
  idle : (∀ i r, m.Runs i r → r.point.asks = false) → m.shared.calls = σ.calls

/-- The invariant of loads of a key, given the keys of the slots. -/
structure Together (keys : List String) (key : String) (m : Machine α) : Prop where
  formed : Formed keys m
  loads : ∀ calls ∈ m.calls, ∀ call ∈ calls, call = .load key true
  makes : MakesMapped m
  /-- A slot that is filled, or that nobody will fill, stays mapped while a load
  waits for it. -/
  waits : ∀ i r n, m.Runs i r → r.point = .waiting n →
    (m.shared.creates true = false ∨ (m.shared.slot n).content ≠ none) → m.shared.map.value? key = some n

/-! ## The store under the steps -/

theorem Shows.setOwner {s : Shared α} {σ : Store α} (h : Shows s σ) (n : Nat) (owner : Option Nat) :
    Shows (s.setSlot n { s.slot n with owner }) σ := by
  refine ⟨h.id, h.policy, h.loader, h.made, h.materialized, h.sorted, fun key => (h.entries key).trans ?_⟩
  simp only [Shared.entry?, Shared.content_setOwner]
  rfl

/-- What is found once a key is mapped to a new slot. -/
theorem entry?_mapNew {keys : List String} {s : Shared α} (hl : keys.length = s.slots.length)
    (hm : ∀ entry ∈ s.map, keys[entry.2]? = some entry.1) (key : String) (content : Option (Entry α)) (name : String) :
    Shared.entry? (s.mapNew key content) name = if name = key then content else s.entry? name := by
  have hmap : (s.mapNew key content).map = s.map.put key s.slots.length := rfl
  simp only [Shared.entry?, hmap, Dict.value?_put]
  by_cases hname : name = key
  · rw [if_pos hname, if_pos hname, Option.bind_some, Shared.slot_mapNew, if_pos rfl]
  · rw [if_neg hname, if_neg hname]
    cases hv : s.map.value? name with
    | none => rfl
    | some n => exact content_mapNew s key content (lt_of_key hl (hm _ (Dict.mem_of_value? hv)))

theorem Shows.mapNew {keys : List String} {s : Shared α} {σ : Store α} (h : Shows s σ)
    (hl : keys.length = s.slots.length) (hm : ∀ entry ∈ s.map, keys[entry.2]? = some entry.1) {key : String}
    (hk : s.map.value? key = none) : Shows (s.mapNew key none) σ := by
  refine ⟨h.id, h.policy, h.loader, h.made, h.materialized, h.sorted, fun name => (h.entries name).trans ?_⟩
  rw [entry?_mapNew hl hm]
  split
  · rename_i hname
    rw [hname, Shared.entry?, hk, Option.bind_none]
  · rfl

/-- The loader found an object for the key of a mapped slot. -/
theorem Shows.fill {keys : List String} {s : Shared α} {σ : Store α} (h : Shows s σ)
    (hl : keys.length = s.slots.length) (hm : ∀ entry ∈ s.map, keys[entry.2]? = some entry.1) {key : String} {n : Nat}
    (hk : s.map.value? key = some n) (object : α) (answer : Answer α) (calls : List String) :
    Shows ((s.fill n object).logAnswer key answer) { σ with
      entries := σ.entries.put key ⟨σ.made, object⟩, made := σ.made + 1, materialized := σ.materialized + 1
      calls } := by
  have hn := hm _ (Dict.mem_of_value? hk)
  have hcontent (k : Nat) := s.content_fill (lt_of_key hl hn) object k
  refine ⟨h.id, h.policy, h.loader, congrArg (· + 1) h.made, congrArg (· + 1) h.materialized, h.sorted.put _ _,
    fun name => ?_⟩
  show (σ.entries.put key _).value? name = (s.map.value? name).bind fun k => ((s.fill n object).slot k).content
  rw [Dict.value?_put]
  by_cases hname : name = key
  · subst hname
    rw [if_pos rfl, hk, Option.bind_some, hcontent, if_pos rfl, h.made]
  · rw [if_neg hname, h.entries, Shared.entry?]
    cases hv : s.map.value? name with
    | none => rfl
    | some k =>
      rw [Option.bind_some, Option.bind_some, hcontent, if_neg]
      rintro rfl
      have hk := hm _ (Dict.mem_of_value? hv)
      rw [hn] at hk
      exact hname (Option.some.inj hk).symm

/-- An empty slot left the map. -/
theorem Shows.unmap {s : Shared α} {σ : Store α} (h : Shows s σ) {key : String} {n : Nat}
    (hk : s.map.value? key = some n) (hn : (s.slot n).content = none) (calls : List String) :
    Shows (s.unmap key n) { σ with calls } := by
  rw [Shared.unmap, if_pos (Shared.isCurrent_iff.2 hk)]
  refine ⟨h.id, h.policy, h.loader, h.made, h.materialized, h.sorted, fun name => (h.entries name).trans ?_⟩
  show (s.map.value? name).bind _ = ((s.map.remove key).value? name).bind _
  rw [Dict.value?_remove]
  by_cases hname : name = key
  · subst hname
    rw [if_pos rfl, hk]
    exact hn
  · rw [if_neg hname]
    rfl

/-! ## The invariant of the loads -/

theorem Together.call {keys : List String} {key : String} {m : Machine α} (h : Together keys key m) {i : Nat}
    {t : Thread α} {r : Running α} (ht : m.threads[i]? = some t) (hr : t.running = some r) :
    r.call = .load key true :=
  h.loads t.allCalls (List.mem_map_of_mem (List.mem_of_getElem? ht)) r.call (by simp [Thread.allCalls, hr])

theorem Together.takeUp {keys : List String} {key : String} {s : Shared α} {threads : List (Thread α)} {me : Nat}
    {t : Thread α} {call : Call α} {todo : List (Call α)} (h : Together keys key ⟨s, threads⟩)
    (ht : threads[me]? = some t) (hr : t.running = none) (htodo : t.todo = call :: todo) :
    Together keys key ⟨s, threads.set me (t.takeUp call todo)⟩ := by
  refine ⟨h.formed.takeUp ht hr, ?_, h.makes.takeUp ht, fun i r n hm hp => ?_⟩
  · rw [Machine.calls_takeUp ht hr htodo]
    exact h.loads
  · rw [Machine.runs_set (s := s) ht] at hm
    split at hm
    · cases hm; cases hp
    · exact h.waits i r n hm hp

/-- Only a load that may create takes a slot out of the map, and only an empty one. -/
theorem Together.unmapping {keys : List String} {key : String} {m : Machine α} (h : Together keys key m) {i : Nat}
    {r : Running α} {n : Nat} {reply : Reply α} (hr : m.Runs i r) (hp : r.point = .unmapping n reply) :
    m.shared.creates true = true ∧ (m.shared.slot n).content = none ∧ reply = .loaded none ∧
      m.shared.map.value? key = some n := by
  obtain ⟨t, ht, htr⟩ := hr
  have hcall := h.call ht htr
  have hf := h.formed.fits i r ⟨t, ht, htr⟩
  simp only [Fits, hp, hcall] at hf
  obtain ⟨-, -, hreply, hmade⟩ := hf
  obtain ⟨hc, he⟩ := hmade.resolve_left (by simp)
  have hmap := h.makes i r n ⟨t, ht, htr⟩ (by rw [hcall]; exact hc) (by rw [hp]; rfl)
  rw [he] at hreply
  rw [hcall] at hmap
  exact ⟨hc, he, hreply, hmap⟩

/-- A call starts to wait for the slot mapped for its key. -/
theorem acts_waiting {me : Nat} {s s' : Shared α} {t t' : Thread α} {r r' : Running α} (h : Acts me s t r s' t')
    (hr' : t'.running = some r') {n : Nat} (hp : r'.point = .waiting n) : s'.map.value? r.call.key = some n := by
  cases h with
  | find _ _ hv => cases hr'; cases hp; exact hv
  | create _ _ _ => cases hr'; cases hp; exact Dict.value?_put_self _ _ _
  | lock _ _ =>
    cases hr'
    have hheld := congrArg Point.held? hp
    rw [held?_afterLock] at hheld
    cases hheld
  | _ => first | (cases hr'; done) | (cases hr'; cases hp)

theorem Together.act {keys : List String} {key : String} {s s' : Shared α} {threads : List (Thread α)} {me : Nat}
    {t t' : Thread α} {r : Running α} (h : Together keys key ⟨s, threads⟩) (ht : threads[me]? = some t)
    (hr : t.running = some r) (ha : Acts me s t r s' t') :
    Together (grown keys r s s') key ⟨s', threads.set me t'⟩ := by
  have hcall : r.call = .load key true := h.call ht hr
  have hu : isUse r.call = true := by rw [hcall]; rfl
  have hk := h.formed.acts_keeps ht hr ha
  refine ⟨h.formed.act ht hr ha, ?_, h.makes.act h.formed ht hr hu ha, fun i r' n hm hp hfull => ?_⟩
  · rw [Machine.calls_act ht hr ha]
    exact h.loads
  rw [Machine.runs_set (s := s) ht] at hm
  by_cases hi : i = me
  · rw [if_pos hi] at hm
    have hv := acts_waiting ha hm hp
    rwa [hcall] at hv
  · rw [if_neg hi] at hm
    have hcr : s'.creates true = s.creates true := isCreating_congr hk.policy (.load key true)
    -- A slot that is filled now was filled before, or its object was made just now for the slot mapped for its key.
    have hv : s.map.value? key = some n := by
      rcases hfull with hno | hfull
      · exact h.waits i r' n hm hp (.inl (hcr ▸ hno))
      obtain ⟨e, he⟩ := Option.ne_none_iff_exists'.1 hfull
      rcases acts_content ha hu with ⟨-, hs⟩ | ⟨k, object, hpk, rfl⟩
      · exact h.waits i r' n hm hp (.inr (by rw [hs n e he]; simp))
      · have hf := h.formed.fits me r ⟨t, ht, hr⟩
        simp only [Fits, hpk] at hf
        have hfill := s.content_fill (lt_of_key h.formed.length hf.2.1) object n
        by_cases hnk : n = k
        · have hvk := h.makes me r k ⟨t, ht, hr⟩ hf.1 (by rw [hpk]; rfl)
          rw [hcall, ← hnk] at hvk
          exact hvk
        · rw [if_neg hnk] at hfill
          exact h.waits i r' n hm hp (.inr (by rw [← hfill]; exact hfull))
    rcases acts_value? ha hu with hs | ⟨k, reply, hpk, -, hs, -⟩
    · exact hs key n hv
    · obtain ⟨hc, he, -, hvk⟩ := h.unmapping ⟨t, ht, hr⟩ hpk
      obtain rfl : n = k := Option.some.inj (hv.symm.trans hvk)
      rcases hfull with hno | hfull
      · rw [hcr, hc] at hno
        cases hno
      · rw [hs] at hfull
        exact absurd he hfull

/-! ## The store behind a run -/

theorem asks_of_isSilent {point : Point α} (h : point.isSilent = true) : point.asks = false := by
  cases point <;> first | rfl | cases h

theorem answer?_of_isSilent {r : Running α} (h : r.point.isSilent = true) : r.answer? = none := by
  unfold Running.answer?
  split
  · rename_i hp
    rw [hp] at h
    cases h
  · rfl

namespace Follows

variable {key : String} {s s' : Shared α} {threads : List (Thread α)} {σ σ' : Store α} {me : Nat} {t t' : Thread α}
  {r : Running α}

theorem takeUp {call : Call α} {todo : List (Call α)} (h : Follows key ⟨s, threads⟩ σ) (ht : threads[me]? = some t)
    (hr : t.running = none) : Follows key ⟨s, threads.set me (t.takeUp call todo)⟩ σ := by
  refine ⟨h.shows, fun i r hm => ?_, fun hidle => h.idle fun i r hm => hidle i r ?_⟩
  · rw [Machine.runs_set (s := s) ht] at hm
    split at hm
    · cases hm; exact True.intro
    · exact h.asking i r hm
  · rw [Machine.runs_set (s := s) ht, if_neg]
    · exact hm
    · rintro rfl
      have := hm.eq ht
      rw [hr] at this
      cases this

/-- The acting thread has not called the loader, and does not do so now. -/
theorem silent (h : Follows key ⟨s, threads⟩ σ) (ht : threads[me]? = some t) (hr : t.running = some r)
    (hp : r.point.asks = false) (hp' : ∀ r', t'.running = some r' → r'.point.asks = false) (hshows : Shows s' σ)
    (hcalls : s'.calls = s.calls) : Follows key ⟨s', threads.set me t'⟩ σ := by
  refine ⟨hshows, fun i r' hm => ?_, fun hidle => hcalls.trans (h.idle fun i r' hm => ?_)⟩
  · rw [Machine.runs_set (s := s) ht] at hm
    split at hm
    · have hno := hp' r' hm
      cases hpoint : r'.point with
      | calling _ _ | unmapping _ _ => rw [hpoint] at hno; cases hno
      | _ => exact True.intro
    · have hasking := h.asking i r' hm
      cases hpoint : r'.point with
      | calling _ _ | unmapping _ _ =>
        rw [hpoint] at hasking
        exact ⟨hcalls.trans hasking.1, hasking.2⟩
      | _ => exact True.intro
  · by_cases hi : i = me
    · have hrun := (hi ▸ hm).eq ht
      rw [hr] at hrun
      cases hrun
      exact hp
    · exact hidle i r' ((Machine.runs_set ht).2 (by rwa [if_neg hi]))

theorem goOn (h : Follows key ⟨s, threads⟩ σ) (ht : threads[me]? = some t) (hr : t.running = some r)
    (hp : r.point.isSilent = true) {r' : Running α} {point : Point α} (hp' : point.isSilent = true)
    (hshows : Shows s' σ) (hcalls : s'.calls = s.calls) :
    (t.goto r' point).answers = t.answers ∧ Follows key ⟨s', threads.set me (t.goto r' point)⟩ σ := by
  refine ⟨?_, h.silent ht hr (asks_of_isSilent hp) (fun u hu => ?_) hshows hcalls⟩
  · rw [Thread.answers_goto hr (answer?_of_isSilent hp), answer?_of_isSilent hp', Option.toList_none, List.append_nil]
  · cases hu
    exact asks_of_isSilent hp'

/-- The acting thread decides on its answer without the loader. -/
theorem answer (h : Follows key ⟨s, threads⟩ σ) (ht : threads[me]? = some t) (hr : t.running = some r)
    (hp : r.point.isSilent = true) {n : Nat} {reply : Reply α} (hshows : Shows s' σ) (hcalls : s'.calls = s.calls) :
    (t.goto r (.unlocking n (some reply))).answers = t.answers ++ [(r.call, reply)] ∧
      Follows key ⟨s', threads.set me (t.goto r (.unlocking n (some reply)))⟩ σ := by
  refine ⟨Thread.answers_goto hr (answer?_of_isSilent hp) _, h.silent ht hr (asks_of_isSilent hp) (fun u hu => ?_)
    hshows hcalls⟩
  cases hu
  rfl

/-- The acting thread takes effect on the store, alone. -/
theorem settle (ht : threads[me]? = some t)
    (halone : ∀ i r', (⟨s, threads⟩ : Machine α).Runs i r' → r'.point.asks = true → i = me)
    (hp' : ∀ r', t'.running = some r' → r'.point.asks = false) (hshows : Shows s' σ') (hcalls : s'.calls = σ'.calls) :
    Follows key ⟨s', threads.set me t'⟩ σ' := by
  refine ⟨hshows, fun i r' hm => ?_, fun _ => hcalls⟩
  have hno : r'.point.asks = false := by
    rw [Machine.runs_set (s := s) ht] at hm
    split at hm
    · exact hp' r' hm
    · rename_i hi
      cases hasks : r'.point.asks with
      | false => rfl
      | true => exact absurd (halone i r' hm hasks) hi
  cases hpoint : r'.point with
  | calling _ _ | unmapping _ _ => rw [hpoint] at hno; cases hno
  | _ => exact True.intro

end Follows

/-- A load that makes an object may do so, for the slot mapped for the key, which is
empty until then. -/
theorem Together.making {keys : List String} {key : String} {m : Machine α} (h : Together keys key m) {i : Nat}
    {r : Running α} {n : Nat} (hr : m.Runs i r) (hn : r.point.making? = some n) :
    m.shared.creates true = true ∧ m.shared.map.value? key = some n ∧ (m.shared.slot n).content = none := by
  have hf := h.formed.fits i r hr
  have hcall : r.call = .load key true := by
    obtain ⟨t, ht, hr⟩ := hr
    exact h.call ht hr
  have hmap := h.makes i r n hr
  cases hp : r.point with
  | starting k | calling k answer =>
    rw [hp] at hn
    cases hn
    simp only [Fits, hp, hcall] at hf
    rw [hcall] at hmap
    exact ⟨hf.1, hmap hf.1 (by rw [hp]; rfl), hf.2.2⟩
  | unmapping k reply =>
    rw [hp] at hn
    cases hn
    obtain ⟨hc, he, -, hv⟩ := h.unmapping hr hp
    exact ⟨hc, hv, he⟩
  | _ => rw [hp] at hn; cases hn

theorem creates_true {s : Shared α} : s.creates true = true ↔ s.policy = .createIfAbsent := by
  simp [Shared.creates]

theorem making?_of_asks {point : Point α} (h : point.asks = true) : ∃ n, point.making? = some n := by
  cases point <;> first | exact ⟨_, rfl⟩ | cases h

/-- One load at a time makes an object. -/
theorem Together.alone {keys : List String} {key : String} {m : Machine α} (h : Together keys key m) {i j : Nat}
    {r r' : Running α} {n : Nat} (hr : m.Runs i r) (hn : r.point.making? = some n) (hr' : m.Runs j r')
    (hasks : r'.point.asks = true) : j = i := by
  obtain ⟨k, hk⟩ := making?_of_asks hasks
  have hc := (h.making hr hn).1
  have call {i : Nat} {r : Running α} (hr : m.Runs i r) : r.call = .load key true := by
    obtain ⟨t, ht, hr⟩ := hr
    exact h.call ht hr
  refine h.makes.alone h.formed hr' ?_ hk hr ?_ hn ?_
  · rw [call hr']; exact hc
  · rw [call hr]; exact hc
  · rw [call hr, call hr']

/-- The loader is called. -/
theorem Follows.call {keys : List String} {key : String} {s : Shared α} {threads : List (Thread α)} {σ : Store α}
    {me : Nat} {t : Thread α} {r r' : Running α} {n : Nat} (h : Follows key ⟨s, threads⟩ σ)
    (hm : Together keys key ⟨s, threads⟩) (ht : threads[me]? = some t) (hr : t.running = some r)
    (hp : r.point = .starting n) :
    Follows key ⟨{ s with calls := s.calls ++ [key] },
      threads.set me (t.goto r' (.calling n (s.loader s.calls key)))⟩ σ := by
  have hrun : (⟨s, threads⟩ : Machine α).Runs me r := ⟨t, ht, hr⟩
  have hquiet (i : Nat) (u : Running α) (hu : (⟨s, threads⟩ : Machine α).Runs i u) : u.point.asks = false := by
    cases hasks : u.point.asks with
    | false => rfl
    | true =>
      obtain rfl := hm.alone hrun (by rw [hp]; rfl) hu hasks
      have := hu.eq ht
      rw [hr] at this
      cases this
      rw [hp] at hasks
      cases hasks
  have hcalls : s.calls = σ.calls := h.idle hquiet
  obtain ⟨hid, hpolicy, hloader, hmade, hmaterialized, hsorted, hentries⟩ := h.shows
  refine ⟨⟨hid, hpolicy, hloader, hmade, hmaterialized, hsorted, hentries⟩, fun i u hu => ?_, fun hidle => ?_⟩
  · rw [Machine.runs_set (s := s) ht] at hu
    split at hu
    · cases hu
      refine ⟨congrArg (· ++ [key]) hcalls, ?_⟩
      show s.loader s.calls key = σ.loader σ.calls key
      rw [hcalls, hloader]
    · have hno := hquiet i u hu
      cases hpoint : u.point with
      | calling _ _ | unmapping _ _ => rw [hpoint] at hno; cases hno
      | _ => exact True.intro
  · have hno := hidle me _ ((Machine.runs_set (s := s) ht).2 (by rw [if_pos rfl]; rfl))
    cases hno

/-- The loader had nothing. -/
theorem Follows.missed {key : String} {s : Shared α} {threads : List (Thread α)} {σ : Store α} {me : Nat}
    {t : Thread α} {r : Running α} {n : Nat} {answer : Answer α} (h : Follows key ⟨s, threads⟩ σ)
    (ht : threads[me]? = some t) (hr : t.running = some r) (hp : r.point = .calling n answer)
    (ha : ∀ object, answer ≠ .found object) :
    Follows key ⟨s.logAnswer key answer, threads.set me (t.goto r (.unmapping n (.loaded none)))⟩ σ := by
  have hmine := h.asking me r ⟨t, ht, hr⟩
  rw [hp] at hmine
  obtain ⟨hcalls, hanswer⟩ := hmine
  obtain ⟨hid, hpolicy, hloader, hmade, hmaterialized, hsorted, hentries⟩ := h.shows
  refine ⟨⟨hid, hpolicy, hloader, hmade, hmaterialized, hsorted, hentries⟩, fun i u hu => ?_, fun hidle => ?_⟩
  · rw [Machine.runs_set (s := s) ht] at hu
    split at hu
    · cases hu
      exact ⟨hcalls, fun object ho => ha object (hanswer.trans ho)⟩
    · exact h.asking i u hu
  · have hno := hidle me _ ((Machine.runs_set (s := s) ht).2 (by rw [if_pos rfl]; rfl))
    cases hno

/-- **A step of a load is silent, or it gives the answer of the next load** on the
store behind the run. -/
theorem Follows.act {keys : List String} {key : String} {s s' : Shared α} {threads : List (Thread α)} {σ : Store α}
    {me : Nat} {t t' : Thread α} {r : Running α} (h : Follows key ⟨s, threads⟩ σ)
    (hm : Together keys key ⟨s, threads⟩) (ht : threads[me]? = some t) (hr : t.running = some r)
    (ha : Acts me s t r s' t') :
    t'.answers = t.answers ∧ Follows key ⟨s', threads.set me t'⟩ σ ∨
      t'.answers = t.answers ++ [(.load key true, (σ.perform (.load key true)).reply)] ∧
        Follows key ⟨s', threads.set me t'⟩ (σ.perform (.load key true)).store := by
  have hcall : r.call = .load key true := hm.call ht hr
  have hkey : r.call.key = key := by rw [hcall]; rfl
  have hrun : (⟨s, threads⟩ : Machine α).Runs me r := ⟨t, ht, hr⟩
  have hf := hm.formed.fits me r hrun
  have hl : keys.length = s.slots.length := hm.formed.length
  have hmapped : ∀ entry ∈ s.map, keys[entry.2]? = some entry.1 := hm.formed.mapped
  have hmaking (n : Nat) (hn : r.point.making? = some n) := hm.making hrun hn
  have halone {n : Nat} (hn : r.point.making? = some n) (i : Nat) (u : Running α)
      (hu : (⟨s, threads⟩ : Machine α).Runs i u) (hasks : u.point.asks = true) : i = me :=
    hm.alone hrun hn hu hasks
  have hentry : σ.entries.value? key = s.entry? key := h.shows.entries key
  cases ha with
  | insert hp hc => rw [hcall] at hc; cases hc
  | clear hp hc => rw [hcall] at hc; cases hc
  | countNone hp hc _ => rw [hcall] at hc; cases hc
  | count hp hc _ => rw [hcall] at hc; cases hc
  | lockNext hp _ => simp only [Fits, hp, hcall] at hf; cases hf.1
  | unlockLast hp => simp only [Fits, hp, hcall] at hf; cases hf.1
  | unlockNext hp => simp only [Fits, hp, hcall] at hf; cases hf.1
  | find hp hk hv => exact .inl (h.goOn ht hr (by rw [hp]; rfl) rfl h.shows rfl)
  | create hp hc hv => exact .inl (h.goOn ht hr (by rw [hp]; rfl) rfl (h.shows.mapNew hl hmapped hv) rfl)
  | current hp hv => exact .inl (h.goOn ht hr (by rw [hp]; rfl) rfl h.shows rfl)
  | stale hp hv => exact .inl (h.goOn ht hr (by rw [hp]; rfl) rfl h.shows rfl)
  | retry hp => exact .inl (h.goOn ht hr (by rw [hp]; rfl) rfl (h.shows.setOwner _ _) rfl)
  | unlock hp =>
    refine .inl ⟨Thread.answers_unlock hr hp, ?_⟩
    exact h.silent ht hr (by rw [hp]; rfl) (fun r' hr' => by cases hr') (h.shows.setOwner _ _) rfl
  | call hp =>
    rw [hkey]
    refine .inl ⟨?_, h.call hm ht hr hp⟩
    rw [Thread.answers_goto hr (answer?_of_isSilent (by rw [hp]; rfl))]
    exact List.append_nil _
  | missed hp hno =>
    rw [hkey]
    refine .inl ⟨?_, h.missed ht hr hp hno⟩
    rw [Thread.answers_goto hr (by rw [Running.answer?, hp])]
    exact List.append_nil _
  | absent hp hk hc hv =>
    rw [hkey] at hv
    rw [Shared.entry?, hv, Option.bind_none] at hentry
    have hpolicy : σ.policy ≠ .createIfAbsent := fun he => by
      rw [hcall] at hc
      rw [h.shows.policy] at he
      exact Bool.false_ne_true (hc.symm.trans (creates_true.2 he))
    rw [Store.perform_absent hentry fun hc => hpolicy hc.2]
    refine .inr ⟨?_, h.silent ht hr (by rw [hp]; rfl) (fun r' hr' => by cases hr') h.shows rfl⟩
    rw [Thread.answers_reply hr (answer?_of_isSilent (by rw [hp]; rfl)), hcall]
    rfl
  | @lock n hp ho =>
    have hsilent : r.point.isSilent = true := by rw [hp]; rfl
    have hwaits := hm.waits me r n hrun hp
    rw [hcall]
    cases hc : (s.slot n).content with
    | some e =>
      rw [Shared.entry?, hwaits (.inr (by rw [hc]; simp)), Option.bind_some, hc] at hentry
      rw [Store.perform_held hentry, Thread.afterLock, ← hcall]
      exact .inr (h.answer ht hr hsilent (h.shows.setOwner n (some me)) rfl)
    | none =>
      rw [Thread.afterLock]
      by_cases hcr : s.creates true = true
      · rw [if_pos hcr]
        exact .inl (h.goOn ht hr hsilent rfl (h.shows.setOwner n (some me)) rfl)
      · have hpolicy : σ.policy ≠ .createIfAbsent := fun he => hcr (creates_true.2 (h.shows.policy ▸ he))
        rw [Shared.entry?, hwaits (.inl (by simpa using hcr)), Option.bind_some, hc] at hentry
        rw [if_neg hcr, Store.perform_absent hentry fun hc => hpolicy hc.2, ← hcall]
        exact .inr (h.answer ht hr hsilent (h.shows.setOwner n (some me)) rfl)
  | @found n object hp =>
    rw [hkey]
    obtain ⟨hc, hv, he⟩ := hmaking n (by rw [hp]; rfl)
    rw [Shared.entry?, hv, Option.bind_some, he] at hentry
    have hasking := h.asking me r hrun
    rw [hp] at hasking
    obtain ⟨lines, hperform⟩ := Store.perform_made hentry (h.shows.policy.trans (creates_true.1 hc)) hasking.2.symm
    rw [hperform, ← h.shows.made, ← hcall]
    refine .inr ⟨Thread.answers_goto hr (by rw [Running.answer?, hp]) _, ?_⟩
    exact Follows.settle ht (halone (by rw [hp]; rfl)) (fun r' hr' => by cases hr'; rfl)
      (h.shows.fill hl hmapped hv object _ _) hasking.1
  | @unmap n reply hp =>
    rw [hkey]
    obtain ⟨hc, hv, he⟩ := hmaking n (by rw [hp]; rfl)
    rw [Shared.entry?, hv, Option.bind_some, he] at hentry
    have hasking := h.asking me r hrun
    rw [hp] at hasking
    obtain ⟨-, -, hreply, -⟩ := hm.unmapping hrun hp
    obtain ⟨lines, hperform⟩ := Store.perform_missed hentry (h.shows.policy.trans (creates_true.1 hc)) hasking.2
    rw [hperform, hreply, ← hcall]
    refine .inr ⟨Thread.answers_goto hr (by rw [Running.answer?, hp]) _, ?_⟩
    refine Follows.settle ht (halone (by rw [hp]; rfl)) (fun r' hr' => by cases hr'; rfl) (h.shows.unmap hv he _) ?_
    exact (s.calls_unmap key n).trans hasking.1

end CacheScript.Concurrent
