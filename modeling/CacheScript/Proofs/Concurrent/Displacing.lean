/-
Clearing and inserting take a slot out of the map without its lock, so they can
displace the slot of a load that is still at work. The next load of the key
then finds nothing and asks the loader as well. Here is how far that goes: a
loader call in progress beyond the first, and an object made beyond the first,
is paid for by a call that displaced the slot of another (`Accounted`).
-/
import CacheScript.Proofs.Concurrent.Materialization

namespace CacheScript.Concurrent

variable {α : Type}

/-- How many calls displaced what was mapped for a key. -/
def Machine.displacements (m : Machine α) (key : String) : Nat :=
  m.finished.countP fun f => displaces key f.call

/-- Whether a call is in a call of the loader for a key. -/
def Running.asks (key : String) (r : Running α) : Bool :=
  match r.point with
  | .calling _ _ => r.call.key = key
  | _ => false

/-- The threads that are in a call of the loader for a key. -/
def Machine.asking (m : Machine α) (key : String) : Finset Nat :=
  {i ∈ Finset.range m.threads.length | (m.threads[i]?.bind (·.running)).any (·.asks key)}

/-- What became of the slots of a key that hold an object or are having one
made, given the slots that were displaced and the ones that expired. -/
structure Accounted (keys : List String) (m : Machine α) (key : String) (displaced expired : Finset Nat) : Prop where
  makes : ∀ i r n, m.Runs i r → isCreating m.shared r.call = true → r.call.key = key → r.point.making? = some n →
    m.shared.map.value? key = some n ∨ n ∈ displaced
  holds : ∀ n e, keys[n]? = some key → (m.shared.slot n).content = some e →
    m.shared.map.value? key = some n ∨ n ∈ displaced ∨ n ∈ expired

/-! ## Counting -/

theorem acts_finished_grows {me : Nat} {s s' : Shared α} {t t' : Thread α} {r : Running α} (h : Acts me s t r s' t') :
    t.finished <+: t'.finished := by
  rcases acts_next h with ⟨r', point, -, rfl⟩ | ⟨reply, rfl⟩
  · exact List.prefix_refl _
  · exact List.prefix_append _ _

theorem Machine.displacements_set (s s' : Shared α) {threads : List (Thread α)} {me : Nat} {t : Thread α}
    (ht : threads[me]? = some t) (t' : Thread α) (key : String) :
    (⟨s', threads.set me t'⟩ : Machine α).displacements key + t.finished.countP (displaces key ·.call) =
      (⟨s, threads⟩ : Machine α).displacements key + t'.finished.countP (displaces key ·.call) := by
  have hsum := sum_map_set (fun t => t.finished.countP (displaces key ·.call)) t' ht
  simpa [displacements, finished, List.countP_flatMap, Function.comp_def] using hsum

theorem Machine.expiries_set (s s' : Shared α) {threads : List (Thread α)} {me : Nat} {t : Thread α}
    (ht : threads[me]? = some t) (t' : Thread α) (key : String) :
    (⟨s', threads.set me t'⟩ : Machine α).expiries key + t.answers.countP (expires key) =
      (⟨s, threads⟩ : Machine α).expiries key + t'.answers.countP (expires key) := by
  simp only [expiries_eq_sum]
  exact sum_map_set (fun t => t.answers.countP (expires key)) t' ht

theorem Machine.displacements_eq_zero {m : Machine α} {key : String}
    (h : ∀ calls ∈ m.calls, ∀ call ∈ calls, displaces key call = false) : m.displacements key = 0 := by
  rw [displacements, List.countP_eq_zero]
  intro f hf hd
  obtain ⟨t, ht, hf⟩ := List.mem_flatMap.1 hf
  have hmem : f.call ∈ t.allCalls := by
    simp only [Thread.allCalls, List.mem_append, List.mem_map]
    exact .inl (.inl ⟨f, hf, rfl⟩)
  rw [h t.allCalls (List.mem_map_of_mem ht) f.call hmem] at hd
  cases hd

theorem Machine.mem_asking {m : Machine α} {key : String} {i : Nat} :
    i ∈ m.asking key ↔ ∃ r n answer, m.Runs i r ∧ r.point = .calling n answer ∧ r.call.key = key := by
  simp only [asking, Finset.mem_filter, Finset.mem_range, Option.any_eq_true, Option.bind_eq_some_iff]
  constructor
  · rintro ⟨-, r, hr, hasks⟩
    unfold Running.asks at hasks
    split at hasks
    · rename_i hp
      exact ⟨r, _, _, hr, hp, of_decide_eq_true hasks⟩
    · cases hasks
  · rintro ⟨r, n, answer, ⟨t, ht, hr⟩, hp, hkey⟩
    exact ⟨(List.getElem?_eq_some_iff.1 ht).1, r, ⟨t, ht, hr⟩, by simp [Running.asks, hp, hkey]⟩

/-! ## One step -/

/-- What is mapped for a key stays mapped, unless the act displaces it, or takes
it out of the map as the holder of its lock. -/
theorem acts_mapped {me : Nat} {s s' : Shared α} {t t' : Thread α} {r : Running α} (h : Acts me s t r s' t')
    {key : String} {n : Nat} (hv : s.map.value? key = some n) :
    s'.map.value? key = some n ∨ (displaces key r.call = true ∧ ∃ reply, t' = t.reply r reply) ∨
      ∃ reply, r.call.key = key ∧ r.point = .unmapping n reply ∧ s'.slots = s.slots ∧
        t' = t.goto r (.unlocking n (some reply)) := by
  rcases acts_values h with hs | ⟨k, reply, hp, hk, rfl, rfl⟩ | ⟨-, ht, hs⟩
  · exact .inl (hs key n hv)
  · by_cases hkey : key = r.call.key
    · subst hkey
      rw [hk] at hv
      cases hv
      exact .inr (.inr ⟨reply, rfl, hp, rfl, rfl⟩)
    · exact .inl ((Dict.value?_remove_other _ hkey).trans hv)
  · cases hd : displaces key r.call with
    | true => exact .inr (.inl ⟨rfl, ht⟩)
    | false => exact .inl (hs key n hd hv)

theorem displacements_snoc (s s' : Shared α) {threads : List (Thread α)} {me : Nat} {t t' : Thread α} {f : Finished α}
    {key : String} (ht : threads[me]? = some t) (hf : t'.finished = t.finished ++ [f])
    (hd : displaces key f.call = true) : (⟨s', threads.set me t'⟩ : Machine α).displacements key =
      (⟨s, threads⟩ : Machine α).displacements key + 1 := by
  have hset := Machine.displacements_set s s' ht t' key
  rw [hf, List.countP_append, List.countP_singleton, if_pos hd] at hset
  omega

theorem displacements_le {s s' : Shared α} {threads : List (Thread α)} {me : Nat} {t t' : Thread α} {r : Running α}
    (ht : threads[me]? = some t) (ha : Acts me s t r s' t') (key : String) :
    (⟨s, threads⟩ : Machine α).displacements key ≤ (⟨s', threads.set me t'⟩ : Machine α).displacements key := by
  have hset := Machine.displacements_set s s' ht t' key
  have hle := (acts_finished_grows ha).sublist.countP_le (p := (displaces key ·.call))
  omega

theorem expiries_le {s s' : Shared α} {threads : List (Thread α)} {me : Nat} {t t' : Thread α} {r : Running α}
    (ht : threads[me]? = some t) (hr : t.running = some r) (ha : Acts me s t r s' t') (key : String) :
    (⟨s, threads⟩ : Machine α).expiries key ≤ (⟨s', threads.set me t'⟩ : Machine α).expiries key := by
  have hset := Machine.expiries_set s s' ht t' key
  have hle := (acts_answers hr ha).sublist.countP_le (p := expires key)
  omega

/-- The accounts are right after an act when they have the slot that left the
map, if there is still anything to account for in it. -/
theorem Accounted.after {keys : List String} {key : String} {s s' : Shared α} {threads : List (Thread α)} {me : Nat}
    {t t' : Thread α} {r : Running α} {displaced expired displaced' expired' : Finset Nat}
    (h : Accounted keys ⟨s, threads⟩ key displaced expired) (hf : Formed keys ⟨s, threads⟩)
    (ht : threads[me]? = some t) (hr : t.running = some r) (ha : Acts me s t r s' t')
    (hd : displaced ⊆ displaced') (hx : expired ⊆ expired')
    (makes : ∀ i r' n, (⟨s', threads.set me t'⟩ : Machine α).Runs i r' → isCreating s' r'.call = true →
      r'.point.making? = some n → s.map.value? key = some n → s'.map.value? key = some n ∨ n ∈ displaced')
    (holds : ∀ n e, (s'.slot n).content = some e → s.map.value? key = some n →
      s'.map.value? key = some n ∨ n ∈ displaced' ∨ n ∈ expired') :
    Accounted (grown keys r s s') ⟨s', threads.set me t'⟩ key displaced' expired' := by
  have hrun : (⟨s, threads⟩ : Machine α).Runs me r := ⟨t, ht, hr⟩
  refine ⟨fun i r' n hm hcr hkey hn => ?_, fun n e hkey he => ?_⟩
  · suffices s.map.value? key = some n ∨ n ∈ displaced from
      this.elim (makes i r' n hm hcr hn) fun hn => .inr (hd hn)
    rw [Machine.runs_set (s := s) ht] at hm
    split at hm
    · obtain ⟨hcall, hpolicy, -, hv⟩ := acts_making ha hm hcr hn
      rw [hcall] at hkey
      subst hkey
      rw [isCreating_congr hpolicy, hcall] at hcr
      exact hv.elim .inl (h.makes me r n hrun hcr rfl)
    · rw [isCreating_congr (hf.acts_keeps ht hr ha).policy] at hcr
      exact h.makes i r' n hm hcr hkey hn
  · have hformed := hf.act ht hr ha
    have old (he' : (s.slot n).content = some e) :
        s'.map.value? key = some n ∨ n ∈ displaced' ∨ n ∈ expired' := by
      rw [getElem?_grown_old hf.length (Shared.lt_of_content he')] at hkey
      rcases h.holds n e hkey he' with hv | hn | hn
      · exact holds n e he hv
      · exact .inr (.inl (hd hn))
      · exact .inr (.inr (hx hn))
    rcases acts_fills hf.length (hf.fits me r hrun) ha with ⟨-, hs⟩ | ⟨k, -, hs, hk⟩
    · exact old (hs n e he)
    · rcases hs n e he with ⟨rfl, -⟩ | he'
      swap
      · exact old he'
      -- A slot that a load fills was accounted for all the while it was made.
      rcases hk with ⟨object, hp⟩ | hv
      · have hfits := hf.fits me r hrun
        simp only [Fits, hp] at hfits
        rw [getElem?_grown hfits.2.1] at hkey
        cases hkey
        rcases h.makes me r n hrun hfits.1 rfl (by rw [hp]; rfl) with hv | hn
        · exact holds n e he hv
        · exact .inr (.inl (hd hn))
      · have hkey' := hformed.mapped _ (Dict.mem_of_value? hv)
        rw [hkey] at hkey'
        cases hkey'
        exact .inl hv

theorem Accounted.stay {keys : List String} {key : String} {s s' : Shared α} {threads : List (Thread α)} {me : Nat}
    {t t' : Thread α} {r : Running α} {displaced expired : Finset Nat}
    (h : Accounted keys ⟨s, threads⟩ key displaced expired) (hf : Formed keys ⟨s, threads⟩)
    (ht : threads[me]? = some t) (hr : t.running = some r) (ha : Acts me s t r s' t')
    (hstay : ∀ n, s.map.value? key = some n → s'.map.value? key = some n) :
    Accounted (grown keys r s s') ⟨s', threads.set me t'⟩ key displaced expired :=
  h.after hf ht hr ha (fun _ => id) (fun _ => id) (fun _ _ n _ _ _ hn => .inl (hstay n hn))
    fun n _ _ hn => .inl (hstay n hn)

/-- Nobody makes an object for a slot that was just taken out of the map by its
holder. -/
theorem Formed.not_making {keys : List String} {s : Shared α} {threads : List (Thread α)} {me : Nat} {t : Thread α}
    {r : Running α} (h : Formed keys ⟨s, threads⟩) (s' : Shared α) (ht : threads[me]? = some t)
    (hr : t.running = some r) {n : Nat} {reply : Reply α} (hp : r.point = .unmapping n reply) (i : Nat) (r' : Running α)
    (hm : (⟨s', threads.set me (t.goto r (.unlocking n (some reply)))⟩ : Machine α).Runs i r') :
    r'.point.making? ≠ some n := by
  intro hn
  rw [Machine.runs_set (s := s) ht] at hm
  split at hm
  · cases hm
    cases hn
  · rename_i hi
    exact hi (h.eq_of_held hm (held?_of_making? hn) ⟨t, ht, hr⟩ (by rw [hp]; rfl))

theorem Accounted.act {keys : List String} {key : String} {s s' : Shared α} {threads : List (Thread α)} {me : Nat}
    {t t' : Thread α} {r : Running α} {displaced expired : Finset Nat}
    (h : Accounted keys ⟨s, threads⟩ key displaced expired) (hf : Formed keys ⟨s, threads⟩)
    (ht : threads[me]? = some t) (hr : t.running = some r) (ha : Acts me s t r s' t') :
    ∃ displaced' expired', Accounted (grown keys r s s') ⟨s', threads.set me t'⟩ key displaced' expired' ∧
      displaced'.card + (⟨s, threads⟩ : Machine α).displacements key ≤
        displaced.card + (⟨s', threads.set me t'⟩ : Machine α).displacements key ∧
      expired'.card + (⟨s, threads⟩ : Machine α).expiries key ≤
        expired.card + (⟨s', threads.set me t'⟩ : Machine α).expiries key := by
  have hdisplaced := displacements_le ht ha key
  have hexpired := expiries_le ht hr ha key
  cases hv : s.map.value? key with
  | none =>
    refine ⟨displaced, expired, h.stay hf ht hr ha fun n hn => ?_, by omega, by omega⟩
    rw [hv] at hn
    cases hn
  | some n =>
    have hsame {k : Nat} (hk : s.map.value? key = some k) : k = n := Option.some.inj (hk.symm.trans hv)
    rcases acts_mapped ha hv with hv' | ⟨hd, reply, rfl⟩ | ⟨reply, rfl, hp, hslots, rfl⟩
    · exact ⟨displaced, expired, h.stay hf ht hr ha fun k hk => hsame hk ▸ hv', by omega, by omega⟩
    · have hone := displacements_snoc s s' ht (show (t.reply r reply).finished = _ from rfl) hd
      have hcard := Finset.card_insert_le n displaced
      refine ⟨insert n displaced, expired,
        h.after hf ht hr ha (Finset.subset_insert _ _) (fun _ => id) ?_ ?_, by omega, by omega⟩
      · intro i r' k _ _ _ hk
        exact .inr (hsame hk ▸ Finset.mem_insert_self _ _)
      · intro k e _ hk
        exact .inr (.inl (hsame hk ▸ Finset.mem_insert_self _ _))
    · -- The holder of the lock takes its slot out: nobody makes an object for it, so
      -- it is to be accounted for only if it holds one, and then an expiry dropped it.
      have hfree := hf.not_making s' ht hr hp
      cases he : (s.slot n).content with
      | none =>
        refine ⟨displaced, expired, h.after hf ht hr ha (fun _ => id) (fun _ => id) ?_ ?_, by omega, by omega⟩
        · intro i r' k hm _ hk hv
          exact (hfree i r' hm (hsame hv ▸ hk)).elim
        · intro k e hk hv
          rw [hsame hv, Shared.slot, hslots] at hk
          cases he.symm.trans hk
      | some e =>
        have hpaid := expires_unmapping (hf.fits me r ⟨t, ht, hr⟩) hr hp he
        have hset := Machine.expiries_set s s' ht (t.goto r (.unlocking n (some reply))) r.call.key
        have hcard := Finset.card_insert_le n expired
        refine ⟨displaced, insert n expired,
          h.after hf ht hr ha (fun _ => id) (Finset.subset_insert _ _) ?_ ?_, by omega, by omega⟩
        · intro i r' k hm _ hk hv
          exact (hfree i r' hm (hsame hv ▸ hk)).elim
        · intro k e _ hv
          exact .inr (.inr (hsame hv ▸ Finset.mem_insert_self _ _))

/-! ## All steps -/

theorem Accounted.takeUp {keys : List String} {key : String} {s : Shared α} {threads : List (Thread α)} {me : Nat}
    {t : Thread α} {call : Call α} {todo : List (Call α)} {displaced expired : Finset Nat}
    (h : Accounted keys ⟨s, threads⟩ key displaced expired) (ht : threads[me]? = some t) :
    Accounted keys ⟨s, threads.set me (t.takeUp call todo)⟩ key displaced expired := by
  refine ⟨fun i r n hm hcr hkey hn => ?_, h.holds⟩
  rw [Machine.runs_set (s := s) ht] at hm
  split at hm
  · cases hm
    cases hn
  · exact h.makes i r n hm hcr hkey hn

/-- Over a run, the accounts grow by as much as there are calls that displaced
a slot, and expiries that dropped an object. -/
theorem Accounted.reaches {keys : List String} {key : String} {m₀ m : Machine α} {displaced₀ expired₀ : Finset Nat}
    (h₀ : Accounted keys m₀ key displaced₀ expired₀) (hf₀ : Formed keys m₀) (h : Machine.Reaches m₀ m) :
    ∃ keys displaced expired, Formed keys m ∧ Accounted keys m key displaced expired ∧
      displaced.card + m₀.displacements key ≤ displaced₀.card + m.displacements key ∧
      expired.card + m₀.expiries key ≤ expired₀.card + m.expiries key := by
  refine Machine.induction (P := fun m => ∃ keys displaced expired, Formed keys m ∧
      Accounted keys m key displaced expired ∧
      displaced.card + m₀.displacements key ≤ displaced₀.card + m.displacements key ∧
      expired.card + m₀.expiries key ≤ expired₀.card + m.expiries key) h
    ⟨keys, displaced₀, expired₀, hf₀, h₀, Nat.le_refl _, Nat.le_refl _⟩
    (fun {s threads me t call todo} hm ht hr _ => ?_) fun {s threads me t r s' t'} hm ht hr ha => ?_
  · obtain ⟨keys, displaced, expired, hf, hacc, hd, hx⟩ := hm
    have hdset := Machine.displacements_set s s ht (t.takeUp call todo) key
    have hxset := Machine.expiries_set s s ht (t.takeUp call todo) key
    have hsame : (t.takeUp call todo).finished = t.finished := rfl
    rw [hsame] at hdset
    rw [Thread.answers_takeUp hr] at hxset
    exact ⟨keys, displaced, expired, hf.takeUp ht hr, hacc.takeUp ht, by omega, by omega⟩
  · obtain ⟨keys, displaced, expired, hf, hacc, hd, hx⟩ := hm
    obtain ⟨displaced', expired', hacc', hd', hx'⟩ := hacc.act hf ht hr ha
    exact ⟨_, displaced', expired', hf.act ht hr ha, hacc', by omega, by omega⟩

/-- Every loader call in progress for a key but one is at a slot that was
displaced. -/
theorem Accounted.card_asking_le {keys : List String} {key : String} {m : Machine α} {displaced expired : Finset Nat}
    (h : Accounted keys m key displaced expired) (hf : Formed keys m) : (m.asking key).card ≤ 1 + displaced.card := by
  let slotAt (i : Nat) : Nat := ((m.threads[i]?.bind (·.running)).bind (·.point.making?)).getD 0
  have hslot (i : Nat) (hi : i ∈ m.asking key) : ∃ r, m.Runs i r ∧ isCreating m.shared r.call = true ∧
      r.call.key = key ∧ r.point.making? = some (slotAt i) := by
    obtain ⟨r, n, answer, hr, hp, hkey⟩ := Machine.mem_asking.1 hi
    have hfits := hf.fits i r hr
    simp only [Fits, hp] at hfits
    obtain ⟨t, ht, htr⟩ := hr
    exact ⟨r, ⟨t, ht, htr⟩, hfits.1, hkey, by simp [slotAt, ht, htr, hp, Point.making?]⟩
  have hmaps (i : Nat) (hi : i ∈ m.asking key) : slotAt i ∈ insert ((m.shared.map.value? key).getD 0) displaced := by
    obtain ⟨r, hr, hcr, hkey, hn⟩ := hslot i hi
    rcases h.makes i r _ hr hcr hkey hn with hv | hd
    · exact Finset.mem_insert.2 (.inl (by rw [hv]; rfl))
    · exact Finset.mem_insert_of_mem hd
  have hinj : Set.InjOn slotAt (m.asking key) := by
    intro i hi j hj heq
    obtain ⟨r, hr, -, -, hn⟩ := hslot i hi
    obtain ⟨r', hr', -, -, hn'⟩ := hslot j hj
    exact hf.eq_of_held hr (held?_of_making? hn) hr' (held?_of_making? (heq ▸ hn'))
  have hcard := Finset.card_le_card_of_injOn slotAt hmaps hinj
  have hone := Finset.card_insert_le ((m.shared.map.value? key).getD 0) displaced
  omega

theorem Accounted.card_filled_le {keys : List String} {key : String} {m : Machine α} {displaced expired : Finset Nat}
    (h : Accounted keys m key displaced expired) (hf : Formed keys m) :
    (filled keys m.shared key).card ≤ 1 + expired.card + displaced.card := by
  have hsub : filled keys m.shared key ⊆ insert ((m.shared.map.value? key).getD 0) (displaced ∪ expired) := by
    intro n hn
    obtain ⟨hkey, e, he⟩ := (mem_filled hf.length).1 hn
    rcases h.holds n e hkey he with hv | hn | hn
    · exact Finset.mem_insert.2 (.inl (by rw [hv]; rfl))
    · exact Finset.mem_insert_of_mem (Finset.mem_union_left _ hn)
    · exact Finset.mem_insert_of_mem (Finset.mem_union_right _ hn)
  have hcard := (Finset.card_le_card hsub).trans (Finset.card_insert_le _ _)
  have hunion := Finset.card_union_le displaced expired
  omega

/-! ## Misses -/

/-- A load that is about to answer that there is nothing has asked the loader. -/
def MissAsks (s : Shared α) (r : Running α) : Prop :=
  isCreating s r.call = true →
    match r.point with
    | .calling _ _ | .unmapping _ _ | .unlocking _ (some (.loaded none)) => 1 ≤ r.effort.loaderCalls
    | _ => True

theorem acts_missAsks {me : Nat} {s s' : Shared α} {t t' : Thread α} {r r' : Running α} (hr : MissAsks s r)
    (hpolicy : s'.policy = s.policy) (h : Acts me s t r s' t') (hr' : t'.running = some r') : MissAsks s' r' := by
  intro hcr
  rw [isCreating_congr hpolicy] at hcr
  cases h with
  | lock hp ho =>
    cases hr'
    obtain ⟨call, point, effort⟩ := r
    cases call with
    | load key create =>
      have hcr : s.creates create = true := hcr
      cases hc : (s.slot _).content <;> simp [Thread.afterLock, hcr]
    | _ => cases hcr
  | call => cases hr'; exact Nat.le_add_left _ _
  | missed hp _ =>
    cases hr'
    have hasked := hr hcr
    rwa [hp] at hasked
  | unmap hp =>
    cases hr'
    have hasked := hr hcr
    rw [hp] at hasked
    split <;> first | exact hasked | trivial
  | found hp => cases hr'; trivial
  | _ => first | (cases hr'; done) | (cases hr'; trivial)

theorem acts_finished_miss {me : Nat} {s s' : Shared α} {t t' : Thread α} {r : Running α} (hr : MissAsks s r)
    (h : Acts me s t r s' t') {f : Finished α} (hm : f ∈ t'.finished) :
    f ∈ t.finished ∨ (isCreating s f.call = true → f.reply = .loaded none → 1 ≤ f.effort.loaderCalls) := by
  have one {reply : Reply α} (hm : f ∈ (t.reply r reply).finished)
      (hx : isCreating s r.call = true → reply = .loaded none → 1 ≤ r.effort.loaderCalls) :
      f ∈ t.finished ∨ (isCreating s f.call = true → f.reply = .loaded none → 1 ≤ f.effort.loaderCalls) := by
    rcases List.mem_append.1 hm with hm | hm
    · exact .inl hm
    · rw [List.mem_singleton] at hm
      subst hm
      exact .inr hx
  cases h with
  | unlock hp =>
    refine one hm fun hcr hreply => ?_
    have hasked := hr hcr
    rwa [hp, hreply] at hasked
  | absent hp hk hc hv => exact one hm fun hcr => by rw [hc] at hcr; cases hcr
  | insert | clear | countNone | unlockLast => exact one hm fun _ hreply => nomatch hreply
  | _ => exact .inl hm

/-- Misses are not shared: each load that was to make what is absent and came to
nothing has asked the loader itself. -/
structure MissesAsk (m : Machine α) : Prop where
  running : ∀ i r, m.Runs i r → MissAsks m.shared r
  finished : ∀ f ∈ m.finished, isCreating m.shared f.call = true → f.reply = .loaded none → 1 ≤ f.effort.loaderCalls

theorem missesAsk_ofStore (s : Store α) (calls : List (List (Call α))) : MissesAsk (Machine.ofStore s calls) := by
  refine ⟨fun i r hr => absurd hr not_runs_ofStore, fun f hf => ?_⟩
  simp [Machine.finished, Machine.ofStore] at hf

theorem MissesAsk.takeUp {s : Shared α} {threads : List (Thread α)} {me : Nat} {t : Thread α} {call : Call α}
    {todo : List (Call α)} (h : MissesAsk ⟨s, threads⟩) (ht : threads[me]? = some t) :
    MissesAsk ⟨s, threads.set me (t.takeUp call todo)⟩ := by
  refine ⟨fun i r hr => ?_, fun f hf => ?_⟩
  · rw [Machine.runs_set (s := s) ht] at hr
    split at hr
    · cases hr
      exact fun _ => trivial
    · exact h.running i r hr
  · rcases Machine.mem_finished_set (s := s) hf with hf | hf
    · exact h.finished f (Machine.mem_finished (t := t) ht hf)
    · exact h.finished f hf

theorem MissesAsk.act {keys : List String} {s s' : Shared α} {threads : List (Thread α)} {me : Nat} {t t' : Thread α}
    {r : Running α} (h : MissesAsk ⟨s, threads⟩) (hf : Formed keys ⟨s, threads⟩) (ht : threads[me]? = some t)
    (hr : t.running = some r) (ha : Acts me s t r s' t') : MissesAsk ⟨s', threads.set me t'⟩ := by
  have hpolicy := (hf.acts_keeps ht hr ha).policy
  have hrun := h.running me r ⟨t, ht, hr⟩
  refine ⟨fun i r' hm => ?_, fun f hm hcr hreply => ?_⟩
  · rw [Machine.runs_set (s := s) ht] at hm
    split at hm
    · exact acts_missAsks hrun hpolicy ha hm
    · exact fun hcr => h.running i r' hm (by rwa [isCreating_congr hpolicy] at hcr)
  · rw [isCreating_congr hpolicy] at hcr
    rcases Machine.mem_finished_set (s := s) hm with hm | hm
    · rcases acts_finished_miss hrun ha hm with hm | hasked
      · exact h.finished f (Machine.mem_finished ht hm) hcr hreply
      · exact hasked hcr hreply
    · exact h.finished f hm hcr hreply

/-! ## What the threads see -/

/-- The invariant of all calls, given the keys of the slots. -/
structure InUse (keys : List String) (m : Machine α) : Prop where
  formed : Formed keys m
  below : ∀ n e, (m.shared.slot n).content = some e → e.serial < m.shared.made
  /-- No two slots hold one object. -/
  apart : ∀ n k e e', (m.shared.slot n).content = some e → (m.shared.slot k).content = some e' →
    e.serial = e'.serial → n = k
  misses : MissesAsk m

theorem inUse_of_reaches {s : Store α} {calls : List (List (Call α))} (hs : Seeded s) {m : Machine α}
    (h : Machine.Reaches (Machine.ofStore s calls) m) : ∃ keys, InUse keys m := by
  refine Machine.induction (P := fun m => ∃ keys, InUse keys m) h ?_ (fun {s threads me t call todo} hm ht hr _ => ?_)
    fun {s threads me t r s' t'} hm ht hr ha => ?_
  · obtain ⟨hbelow, hapart⟩ := hs.numbers_ofStore calls
    exact ⟨_, formed_ofStore s calls, hbelow, hapart, missesAsk_ofStore s calls⟩
  · obtain ⟨keys, hm⟩ := hm
    exact ⟨keys, hm.formed.takeUp ht hr, hm.below, hm.apart, hm.misses.takeUp ht⟩
  · obtain ⟨keys, hm⟩ := hm
    obtain ⟨hbelow, hapart⟩ :=
      acts_numbers hm.formed.length (hm.formed.fits me r ⟨t, ht, hr⟩) hm.below hm.apart ha
    exact ⟨_, hm.formed.act ht hr ha, hbelow, hapart, hm.misses.act hm.formed ht hr ha⟩

/-- The slot of a running loader call stays mapped until a call displaces it. -/
theorem Formed.kept {keys : List String} {m m' : Machine α} (h : Formed keys m) {i j : Nat} {order : Arrangement}
    {r : Running α} {n : Nat} {answer : Answer α} (hr : m.Runs i r) (hp : r.point = .calling n answer)
    (hv : m.shared.map.value? r.call.key = some n) (hs : m.step j order = some m') :
    m'.shared.map.value? r.call.key = some n ∨ m'.displacements r.call.key = m.displacements r.call.key + 1 := by
  obtain ⟨s, threads⟩ := m
  simp only [Machine.step] at hs
  split at hs
  · cases hs
  rename_i t ht
  obtain ⟨⟨s', t'⟩, hst, rfl⟩ := Option.map_eq_some_iff.1 hs
  rcases step_acts hst with ⟨r', hr', ha⟩ | ⟨call, todo, -, -, ha⟩
  · rcases acts_mapped ha hv with hv' | ⟨hd, reply, rfl⟩ | ⟨reply, -, hp', -⟩
    · exact .inl hv'
    · exact .inr (displacements_snoc _ _ ht rfl hd)
    · obtain rfl := h.eq_of_held hr (by rw [hp]; rfl) ⟨t, ht, hr'⟩ (by rw [hp']; rfl)
      cases hr'.symm.trans (hr.eq ht)
      cases hp.symm.trans hp'
  · rcases acts_mapped ha hv with hv' | ⟨hd, reply, rfl⟩ | ⟨reply, -, hp', -⟩
    · exact .inl hv'
    · exact .inr (displacements_snoc _ _ ht rfl hd)
    · cases hp'

/-- No load of a key is at work for a slot that was displaced. -/
def Machine.NoneDisplaced (m : Machine α) (key : String) : Prop :=
  ∀ i r n, m.Runs i r → isCreating m.shared r.call = true → r.call.key = key → r.point.making? = some n →
    m.shared.map.value? key = some n

theorem Machine.noneDisplaced_of_isQuiet {m : Machine α} (h : m.isQuiet = true) (key : String) :
    m.NoneDisplaced key := by
  rintro _ _ _ ⟨t, ht, hr⟩
  rw [isQuiet_iff.1 h t (List.mem_of_getElem? ht)] at hr
  cases hr

theorem Machine.NoneDisplaced.accounted {keys : List String} {m : Machine α} {key : String} (h : m.NoneDisplaced key)
    (hf : Formed keys m) : Accounted keys m key ∅ (filled keys m.shared key) :=
  ⟨fun _ _ _ hr hcr hkey hn => .inl (h _ _ _ hr hcr hkey hn),
    fun _ e hkey he => .inr (.inr ((mem_filled hf.length).2 ⟨hkey, e, he⟩))⟩

/-- From a moment at which no load of a key is at work for a displaced slot, the
loader calls in progress beyond the first are paid for by displacements. -/
theorem Formed.card_asking_le {keys : List String} {m₀ m : Machine α} (h₀ : Formed keys m₀) {key : String}
    (hclear : m₀.NoneDisplaced key) (h : Machine.Reaches m₀ m) :
    (m.asking key).card + m₀.displacements key ≤ 1 + m.displacements key := by
  obtain ⟨_, displaced, _, hf, hacc, hd, -⟩ := (hclear.accounted h₀).reaches h₀ h
  have hasking := hacc.card_asking_le hf
  simp only [Finset.card_empty] at hd
  omega

theorem Machine.isQuiet_ofStore (s : Store α) (calls : List (List (Call α))) : (ofStore s calls).isQuiet = true := by
  simp [isQuiet, ofStore]

theorem accounted_ofStore {s : Store α} (hs : s.entries.Sorted) (calls : List (List (Call α))) (key : String) :
    Accounted (s.entries.map (·.1)) (Machine.ofStore s calls) key ∅ ∅ :=
  ⟨fun _ _ _ hr => absurd hr not_runs_ofStore, fun _ _ hkey _ => .inl (value?_ofStore hs calls hkey)⟩

/-- What threads see of a store they share, whatever they call. -/
structure RepeatsDisplaced (s : Store α) (calls : List (List (Call α))) (m : Machine α) : Prop where
  /-- Calls of the loader in progress are for different slots. -/
  separate : ∀ i j r r' n answer answer', m.Runs i r → r.point = .calling n answer → m.Runs j r' →
    r'.point = .calling n answer' → i = j
  /-- The slot of one leaves the map only when a call displaces it. -/
  kept : ∀ i r n answer, m.Runs i r → r.point = .calling n answer → m.shared.map.value? r.call.key = some n →
    ∀ j order m', m.step j order = some m' → m'.shared.map.value? r.call.key = some n ∨
      m'.displacements r.call.key = m.displacements r.call.key + 1
  /-- From any moment at which no load is at work for a displaced slot, each call
  of the loader in progress beyond the first was let in by a displacement. -/
  bounded : ∀ m₀ key, Machine.Reaches (Machine.ofStore s calls) m₀ → m₀.NoneDisplaced key → Machine.Reaches m₀ m →
    (m.asking key).card + m₀.displacements key ≤ 1 + m.displacements key
  /-- Where no call displaces the slot of a key, one thread at a time is in a
  call of the loader for it. -/
  alone : ∀ key, (∀ todo ∈ calls, ∀ call ∈ todo, displaces key call = false) → (m.asking key).card ≤ 1
  /-- Returned objects with the same number are the same object. -/
  numbered : ∀ key e e', e ∈ m.returned key → e' ∈ m.returned key → e.serial = e'.serial → e = e'
  objects : ∀ key, ((m.returned key).map (·.serial)).toFinset.card ≤ 1 + m.expiries key + m.displacements key
  /-- Where no call expires or displaces a key, there is one object for all. -/
  shared : ∀ key, (∀ todo ∈ calls, ∀ call ∈ todo, call ≠ .expire key ∧ displaces key call = false) →
    ∀ e e', e ∈ m.returned key → e' ∈ m.returned key → e = e'
  /-- That there is nothing is not shared: each load asks for itself. -/
  misses : ∀ f ∈ m.finished, isCreating m.shared f.call = true → f.reply = .loaded none → f.effort.loaderCalls = 1

/-- **A running materialization is repeated only when its slot was displaced**,
whatever the threads call and in whatever order they step. -/
theorem repeatsDisplaced_of_reaches {id : String} {policy : Policy} {loader : Loader α} {seeds : List (String × α)}
    {calls : List (List (Call α))} {m : Machine α}
    (h : Machine.Reaches (Machine.ofStore (seededWith id policy loader seeds) calls) m) :
    RepeatsDisplaced (seededWith id policy loader seeds) calls m := by
  have hs := seeded_seededWith id policy loader seeds
  obtain ⟨_, hm⟩ := inUse_of_reaches hs h
  have hcalls : m.calls = calls := (Machine.calls_of_reaches h).trans (Machine.calls_ofStore _ _)
  have hnone (key : String) (hd : ∀ todo ∈ calls, ∀ call ∈ todo, displaces key call = false) :
      m.displacements key = 0 :=
    Machine.displacements_eq_zero (hcalls ▸ hd)
  have hfilled (key : String) : ∃ keys, Formed keys m ∧
      (filled keys m.shared key).card ≤ 1 + m.expiries key + m.displacements key := by
    obtain ⟨keys, displaced, expired, hf, hacc, hd, hx⟩ :=
      (accounted_ofStore hs.sorted calls key).reaches (formed_ofStore _ _) h
    have hcard := hacc.card_filled_le hf
    simp only [Finset.card_empty] at hd hx
    exact ⟨keys, hf, by omega⟩
  refine ⟨fun i j r r' n answer answer' hr hp hr' hp' => ?_,
    fun i r n answer hr hp hv j order m' => hm.formed.kept hr hp hv, fun m₀ key h₀ hclear hr => ?_,
    fun key hd => ?_, fun key e e' => hm.formed.returned_eq_of_serial hm.apart,
    fun key => ?_, fun key hx e e' => ?_, fun f hf hcr hreply => ?_⟩
  · exact hm.formed.eq_of_held hr (by rw [hp]; rfl) hr' (by rw [hp']; rfl)
  · obtain ⟨_, hf₀⟩ := (formed_ofStore _ _).reaches h₀
    exact hf₀.card_asking_le hclear hr
  · have hasking :=
      (formed_ofStore _ _).card_asking_le (Machine.noneDisplaced_of_isQuiet (Machine.isQuiet_ofStore _ _) key) h
    rw [hnone key hd] at hasking
    omega
  · obtain ⟨_, hf, hcard⟩ := hfilled key
    exact (hf.card_returned_le key).trans hcard
  · obtain ⟨_, hf, hcard⟩ := hfilled key
    rw [hnone key fun todo ht call hc => (hx todo ht call hc).2,
      Machine.expiries_eq_zero (hcalls ▸ fun todo ht call hc => (hx todo ht call hc).1)] at hcard
    exact hf.returned_eq_of_card hcard
  · obtain ⟨t, ht, hft⟩ := List.mem_flatMap.1 hf
    have honce := (asked_of_reaches (asked_ofStore _ calls) h).finished t ht f hft
    have hasked := hm.misses.finished f hf hcr hreply
    omega

/-- A store with one object. Its loader finds one for every other key. -/
def twoStore : Store String :=
  seededWith "users" .createIfAbsent (fun _ key => .found key) [("2", "two")]

/-- Three threads that load one key. The second one clears the store first, the
third inserts an object, loads it and expires it. -/
def threeThreads : List (List (Call String)) :=
  [[.load "1" true], [.clear, .load "1" true],
    [.insert "1" "inserted", .load "1" true, .expire "1", .load "1" true]]

/-- A run of the three in which each of them comes to its last load while the
loader calls of the ones before are in progress, and then these end. -/
def threeThreadsAsking (ends : List Nat) : Machine String :=
  (Machine.ofStore twoStore threeThreads).follow
    (List.replicate 4 0 ++ List.replicate 5 1 ++ List.replicate 12 2 ++ ends)

theorem repeatsDisplaced_threeThreads :
    RepeatsDisplaced twoStore threeThreads (threeThreadsAsking []) ∧
      ((threeThreadsAsking []).asking "1").card = 1 + (threeThreadsAsking []).displacements "1" ∧
      RepeatsDisplaced twoStore threeThreads (threeThreadsAsking [0, 1, 2]) ∧
      (((threeThreadsAsking [0, 1, 2]).returned "1").map (·.serial)).toFinset.card =
        1 + (threeThreadsAsking [0, 1, 2]).expiries "1" + (threeThreadsAsking [0, 1, 2]).displacements "1" :=
  ⟨repeatsDisplaced_of_reaches (Machine.reaches_follow _ _), by decide,
    repeatsDisplaced_of_reaches (Machine.reaches_follow _ _), by decide⟩

/-- A store without objects whose loader finds one for every key. -/
def emptyStore : Store String :=
  Store.empty "users" .createIfAbsent fun _ key => .found key

/-- A load that is in its call of the loader when another thread clears the
store and loads the same key. -/
def clearedAtWork (ends : List Nat) : Machine String :=
  (Machine.ofStore emptyStore [[.load "1" true], [.clear, .load "1" true]]).follow
    (List.replicate 4 0 ++ List.replicate 5 1 ++ ends)

/-- A load that is in its call of the loader when another thread inserts an
object for the same key, expires that and loads the key. -/
def reseededAtWork : Machine String :=
  (Machine.ofStore emptyStore [[.load "1" true], [.insert "1" "inserted", .expire "1", .load "1" true]]).follow
    (List.replicate 4 0 ++ List.replicate 9 1)

/-- Clearing and reseeding do repeat a running materialization: both threads are
in a call of the loader for the key, and come to different objects of which
none was expired. Loads that overlap on a key without an object ask for it one
after another. -/
theorem asking_displaced :
    (¬ ∀ (calls : List (List (Call String))) (m : Machine String),
        Machine.Reaches (Machine.ofStore emptyStore calls) m → ∀ key, (m.asking key).card ≤ 1) ∧
      (clearedAtWork []).asking "1" = {0, 1} ∧ reseededAtWork.asking "1" = {0, 1} ∧
      (clearedAtWork [0, 1, 0, 1]).isDone = true ∧ (clearedAtWork [0, 1, 0, 1]).shared.calls = ["1", "1"] ∧
      ((clearedAtWork [0, 1, 0, 1]).returned "1").map (·.serial) = [0, 1] ∧
      (clearedAtWork [0, 1, 0, 1]).expiries "1" = 0 ∧
      (loadTogether (Store.empty "p" .createIfAbsent fun _ _ => (.absent : Answer String)) "zz" 4).shared.calls =
        ["zz", "zz", "zz", "zz"] := by
  refine ⟨fun h => ?_, by decide, by decide, by decide, by decide, by decide, by decide, by decide +kernel⟩
  have hone : ((clearedAtWork []).asking "1").card ≤ 1 := h _ _ (Machine.reaches_follow _ _) "1"
  exact absurd hone (by decide)

end CacheScript.Concurrent
