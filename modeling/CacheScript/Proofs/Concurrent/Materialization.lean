/-
Loads that share a store share what they make. While threads only load,
expire and look, a second slot of a key is filled only after an expiry has
taken a filled one out of the map (`balance`).
-/
import CacheScript.Proofs.Concurrent.Calls
import CacheScript.Proofs.Concurrent.Making
import Mathlib.Data.Finset.Card

namespace CacheScript.Concurrent

variable {α : Type}

/-- The slots of a key that hold an object. -/
def filled (keys : List String) (s : Shared α) (key : String) : Finset Nat :=
  {n ∈ Finset.range s.slots.length | keys[n]? = some key ∧ (s.slot n).content.isSome}

/-- One, if the slot mapped for a key holds an object. -/
def hit (s : Shared α) (key : String) : Nat :=
  if ∃ n ∈ s.map.value? key, (s.slot n).content.isSome then 1 else 0

/-- An expiry of a key that dropped an object. -/
def expires (key : String) : Call α × Reply α → Bool
  | (.expire k, .expired true) => k = key
  | _ => false

/-- The object that a load of a key returned. -/
def returns (key : String) : Call α × Reply α → Option (Entry α)
  | (.load k _, .loaded found) => if k = key then found else none
  | _ => none

/-- How many expiries of a key dropped an object, with those that are about to
say so. -/
def Machine.expiries (m : Machine α) (key : String) : Nat :=
  m.answers.countP (expires key)

/-- The objects that the loads of a key returned or are about to return. -/
def Machine.returned (m : Machine α) (key : String) : List (Entry α) :=
  m.answers.filterMap (returns key)

/-- The invariant of loads, expiries and looks, given the keys of the slots. -/
structure Sharing (keys : List String) (m : Machine α) : Prop where
  formed : Formed keys m
  uses : ∀ todo ∈ m.calls, ∀ call ∈ todo, isUse call = true
  makes : MakesMapped m
  /-- Of the filled slots of a key all but the mapped one were expired. -/
  balance : ∀ key, (filled keys m.shared key).card ≤ m.expiries key + hit m.shared key
  below : ∀ n e, (m.shared.slot n).content = some e → e.serial < m.shared.made
  /-- No two slots hold one object. -/
  apart : ∀ n k e e', (m.shared.slot n).content = some e → (m.shared.slot k).content = some e' →
    e.serial = e'.serial → n = k

/-! ## Slots of a key -/

theorem mem_filled {keys : List String} {s : Shared α} (hl : keys.length = s.slots.length) {key : String} {n : Nat} :
    n ∈ filled keys s key ↔ keys[n]? = some key ∧ ∃ e, (s.slot n).content = some e := by
  simp only [filled, Finset.mem_filter, Finset.mem_range, Option.isSome_iff_exists, and_iff_right_iff_imp]
  exact fun h => lt_of_key hl h.1

theorem hit_le_one (s : Shared α) (key : String) : hit s key ≤ 1 := by
  unfold hit; split <;> omega

theorem hit_eq_one {s : Shared α} {key : String} {n : Nat} {e : Entry α} (hm : s.map.value? key = some n)
    (he : (s.slot n).content = some e) : hit s key = 1 :=
  if_pos ⟨n, hm, by rw [he]; rfl⟩

theorem hit_eq_zero {s : Shared α} {key : String} {n : Nat} (hm : s.map.value? key = some n)
    (he : (s.slot n).content = none) : hit s key = 0 := by
  refine if_neg ?_
  rintro ⟨k, hk, hc⟩
  rw [Option.mem_def, hm] at hk
  cases hk
  rw [he] at hc
  cases hc

theorem hit_le_hit {me : Nat} {s s' : Shared α} (hk : Keeps me s s') {key : String}
    (hm : ∀ n, s.map.value? key = some n → s'.map.value? key = some n) : hit s key ≤ hit s' key := by
  unfold hit
  split
  · rename_i h
    obtain ⟨n, hn, hc⟩ := h
    obtain ⟨e, he⟩ := Option.isSome_iff_exists.1 hc
    rw [if_pos ⟨n, hm n hn, by rw [hk.filled n e he]; rfl⟩]
  · exact Nat.zero_le _

/-- Where all slots of a key are mapped for it, one slot at most is filled. -/
theorem card_filled_le_hit {keys : List String} {s : Shared α} (hl : keys.length = s.slots.length) {key : String}
    (hmapped : ∀ n, keys[n]? = some key → s.map.value? key = some n) : (filled keys s key).card ≤ hit s key := by
  have hvalue {n : Nat} (hn : n ∈ filled keys s key) : s.map.value? key = some n :=
    hmapped n ((mem_filled hl).1 hn).1
  rcases Finset.eq_empty_or_nonempty (filled keys s key) with he | ⟨n, hn⟩
  · simp [he]
  · obtain ⟨e, he⟩ := ((mem_filled hl).1 hn).2
    rw [hit_eq_one (hvalue hn) he]
    exact Finset.card_le_one.2 fun i hi j hj => Option.some.inj ((hvalue hi).symm.trans (hvalue hj))

theorem getElem?_grown_old {keys : List String} {r : Running α} {s s' : Shared α} (hl : keys.length = s.slots.length)
    {n : Nat} (hn : n < s.slots.length) : (grown keys r s s')[n]? = keys[n]? := by
  rw [grown, List.getElem?_append_left (by omega)]

theorem card_filled_grown {keys : List String} {r : Running α} {s s' : Shared α} (hl : keys.length = s.slots.length)
    (hl' : (grown keys r s s').length = s'.slots.length) (key : String)
    (hc : ∀ n e, (s'.slot n).content = some e → (s.slot n).content = some e) :
    (filled (grown keys r s s') s' key).card ≤ (filled keys s key).card := by
  refine Finset.card_le_card fun n hn => ?_
  rw [mem_filled hl'] at hn
  obtain ⟨hkey, e, he⟩ := hn
  have he := hc n e he
  rw [getElem?_grown_old hl (Shared.lt_of_content he)] at hkey
  exact (mem_filled hl).2 ⟨hkey, e, he⟩

/-! ## One step -/

/-- Dropping an object is paid for by the answer of the expiry that dropped it. -/
theorem expires_unmapping {keys : List String} {s : Shared α} {t : Thread α} {r : Running α} {n : Nat}
    {reply : Reply α} {e : Entry α} (hf : Fits keys s r) (hr : t.running = some r) (hp : r.point = .unmapping n reply)
    (he : (s.slot n).content = some e) :
    (t.goto r (.unlocking n (some reply))).answers.countP (expires r.call.key) =
      t.answers.countP (expires r.call.key) + 1 := by
  simp only [Fits, hp] at hf
  obtain ⟨-, -, hreply, hcall⟩ := hf
  have hcall : r.call = .expire r.call.key := hcall.resolve_right fun h => by rw [he] at h; cases h.2
  have hreply : reply = .expired true := by rw [hreply, hcall, he]; rfl
  have hexpires : expires r.call.key (r.call, reply) = true := by rw [hreply, hcall]; simp [expires, Call.key]
  simp [Thread.answers, Thread.goto, hr, Running.answer?, hp, List.countP_append, hexpires]

/-- What the loader found fills one more slot, and that slot is the one mapped for
its key. -/
theorem filled_fill {keys : List String} {me : Nat} {s s' : Shared α} {r : Running α} {n : Nat} {object : α}
    (hl : keys.length = s.slots.length) (hl' : (grown keys r s s').length = s'.slots.length)
    (hk : Keeps me s s') (hkey : keys[n]? = some r.call.key) (he : (s.slot n).content = none)
    (hv : s.map.value? r.call.key = some n) (hs : s' = (s.fill n object).logAnswer r.call.key (.found object))
    (key : String) :
    (filled (grown keys r s s') s' key).card + hit s key ≤ (filled keys s key).card + hit s' key := by
  have hmap : s'.map = s.map := by rw [hs]; rfl
  have hcontent (k : Nat) : (s'.slot k).content = if k = n then some ⟨s.made, object⟩ else (s.slot k).content := by
    rw [hs]
    exact s.content_fill (lt_of_key hl hkey) object k
  have hold {k : Nat} (hkn : k ≠ n) (hm : k ∈ filled (grown keys r s s') s' key) : k ∈ filled keys s key := by
    obtain ⟨hkk, e, hke⟩ := (mem_filled hl').1 hm
    rw [hcontent, if_neg hkn] at hke
    rw [getElem?_grown_old hl (Shared.lt_of_content hke)] at hkk
    exact (mem_filled hl).2 ⟨hkk, e, hke⟩
  by_cases hkk : key = r.call.key
  · subst hkk
    have hzero := hit_eq_zero hv he
    have hone : hit s' r.call.key = 1 := hit_eq_one (hmap ▸ hv) ((hcontent n).trans (if_pos rfl))
    have hsub : filled (grown keys r s s') s' r.call.key ⊆ insert n (filled keys s r.call.key) := fun k hm => by
      by_cases hkn : k = n
      · exact Finset.mem_insert.2 (.inl hkn)
      · exact Finset.mem_insert_of_mem (hold hkn hm)
    have hcard := (Finset.card_le_card hsub).trans (Finset.card_insert_le _ _)
    omega
  · have hhit : hit s key ≤ hit s' key := hit_le_hit hk fun k h => hmap ▸ h
    have hsub : filled (grown keys r s s') s' key ⊆ filled keys s key := fun k hm => by
      refine hold ?_ hm
      rintro rfl
      have hkey' := ((mem_filled hl').1 hm).1
      rw [getElem?_grown hkey] at hkey'
      cases hkey'
      exact hkk rfl
    have hcard := Finset.card_le_card hsub
    omega

/-- A step fills a second slot of a key only after an expiry of it. -/
theorem acts_balance {keys : List String} {me : Nat} {s s' : Shared α} {t t' : Thread α} {r : Running α}
    (hl : keys.length = s.slots.length) (hl' : (grown keys r s s').length = s'.slots.length) (hf : Fits keys s r)
    (hk : Keeps me s s') (hr : t.running = some r) (hu : isUse r.call = true)
    (hc : ∀ n, isCreating s r.call = true → r.point.making? = some n → s.map.value? r.call.key = some n)
    (h : Acts me s t r s' t') (key : String) :
    (filled (grown keys r s s') s' key).card + hit s key + t.answers.countP (expires key) ≤
      (filled keys s key).card + hit s' key + t'.answers.countP (expires key) := by
  have hans : t.answers.countP (expires key) ≤ t'.answers.countP (expires key) :=
    (acts_answers hr h).sublist.countP_le
  rcases acts_content h hu with ⟨-, hs⟩ | ⟨n, object, hp, hs⟩
  · have hfilled : (filled (grown keys r s s') s' key).card ≤ (filled keys s key).card :=
      card_filled_grown hl hl' key hs
    rcases acts_value? h hu with hm | ⟨n, reply, hp, hv, hs', ht'⟩
    · have hhit : hit s key ≤ hit s' key := hit_le_hit hk (hm key)
      omega
    by_cases hkk : key = r.call.key
    · subst hkk
      have hone := hit_le_one s r.call.key
      cases hn : (s.slot n).content with
      | none =>
        have hzero := hit_eq_zero hv hn
        omega
      | some e =>
        have hpaid := expires_unmapping hf hr hp hn
        rw [← ht'] at hpaid
        omega
    · have hhit : hit s key ≤ hit s' key := hit_le_hit hk fun n hn => by
        rw [hs']
        exact (Dict.value?_remove_other _ hkk).trans hn
      omega
  · simp only [Fits, hp] at hf
    have hfill := filled_fill hl hl' hk hf.2.1 hf.2.2 (hc n hf.1 (by rw [hp]; rfl)) hs key
    omega

/-! ## All steps -/

theorem Machine.expiries_eq_sum (m : Machine α) (key : String) :
    m.expiries key = (m.threads.map fun t => t.answers.countP (expires key)).sum := by
  simp [expiries, answers, List.countP_flatMap, Function.comp_def]

theorem Sharing.takeUp {keys : List String} {s : Shared α} {threads : List (Thread α)} {me : Nat} {t : Thread α}
    {call : Call α} {todo : List (Call α)} (h : Sharing keys ⟨s, threads⟩) (ht : threads[me]? = some t)
    (hr : t.running = none) (htodo : t.todo = call :: todo) :
    Sharing keys ⟨s, threads.set me (t.takeUp call todo)⟩ := by
  refine ⟨h.formed.takeUp ht hr, ?_, h.makes.takeUp ht, fun key => ?_, h.below, h.apart⟩
  · rw [Machine.calls_takeUp ht hr htodo]
    exact h.uses
  · have hsum := sum_map_set (fun t => t.answers.countP (expires key)) (t.takeUp call todo) ht
    have := h.balance key
    simp only [Machine.expiries_eq_sum, Thread.answers_takeUp hr] at this hsum ⊢
    omega

/-- An act puts one object into one slot at most, under a new number: into the
slot that its load makes it for, or into the new slot of an insertion. -/
theorem acts_fills {keys : List String} {me : Nat} {s s' : Shared α} {t t' : Thread α} {r : Running α}
    (hl : keys.length = s.slots.length) (hf : Fits keys s r) (h : Acts me s t r s' t') :
    (s'.made = s.made ∧ ∀ n e, (s'.slot n).content = some e → (s.slot n).content = some e) ∨
      ∃ n, s'.made = s.made + 1 ∧
        (∀ k e, (s'.slot k).content = some e → k = n ∧ e.serial = s.made ∨ (s.slot k).content = some e) ∧
        ((∃ object, r.point = .calling n (.found object)) ∨ s'.map.value? r.call.key = some n) := by
  rcases acts_contents h with hs | ⟨n, object, hp, rfl⟩ | ⟨key, object, hc, rfl⟩
  · exact .inl hs
  · simp only [Fits, hp] at hf
    refine .inr ⟨n, rfl, fun k e he => ?_, .inl ⟨object, hp⟩⟩
    have he := (s.content_fill (lt_of_key hl hf.2.1) object k).symm.trans he
    split at he
    · cases he; exact .inl ⟨‹_›, rfl⟩
    · exact .inr he
  · refine .inr ⟨s.slots.length, rfl, fun k e he => ?_, .inr ?_⟩
    · have he := (congrArg Slot.content (s.slot_mapNew key (some ⟨s.made, object⟩) k)).symm.trans he
      split at he
      · cases he; exact .inl ⟨‹_›, rfl⟩
      · exact .inr he
    · rw [hc]
      exact Dict.value?_put_self _ _ _

/-- A new object gets a new number. -/
theorem acts_numbers {keys : List String} {me : Nat} {s s' : Shared α} {t t' : Thread α} {r : Running α}
    (hl : keys.length = s.slots.length) (hf : Fits keys s r)
    (below : ∀ n e, (s.slot n).content = some e → e.serial < s.made)
    (apart : ∀ n k e e', (s.slot n).content = some e → (s.slot k).content = some e' → e.serial = e'.serial → n = k)
    (h : Acts me s t r s' t') :
    (∀ n e, (s'.slot n).content = some e → e.serial < s'.made) ∧
      ∀ n k e e', (s'.slot n).content = some e → (s'.slot k).content = some e' → e.serial = e'.serial → n = k := by
  rcases acts_fills hl hf h with ⟨hmade, hs⟩ | ⟨n, hmade, hs, -⟩
  · refine ⟨fun n e he => ?_, fun n k e e' he he' => apart n k e e' (hs n e he) (hs k e' he')⟩
    rw [hmade]
    exact below n e (hs n e he)
  · have hcontent (k : Nat) (e : Entry α) (he : (s'.slot k).content = some e) :
        k = n ∧ e.serial = s.made ∨ (s.slot k).content = some e ∧ e.serial < s.made :=
      (hs k e he).imp_right fun he => ⟨he, below k e he⟩
    refine ⟨fun k e he => ?_, fun k k' e e' he he' heq => ?_⟩
    · rcases hcontent k e he with ⟨-, hserial⟩ | ⟨-, hserial⟩ <;> omega
    · rcases hcontent k e he with ⟨hk, hserial⟩ | ⟨hk, hserial⟩ <;>
        rcases hcontent k' e' he' with ⟨hk', hserial'⟩ | ⟨hk', hserial'⟩
      · exact hk.trans hk'.symm
      · omega
      · omega
      · exact apart k k' e e' hk hk' heq

theorem Sharing.act {keys : List String} {s s' : Shared α} {threads : List (Thread α)} {me : Nat} {t t' : Thread α}
    {r : Running α} (h : Sharing keys ⟨s, threads⟩) (ht : threads[me]? = some t) (hr : t.running = some r)
    (ha : Acts me s t r s' t') : Sharing (grown keys r s s') ⟨s', threads.set me t'⟩ := by
  have hf : Fits keys s r := h.formed.fits me r ⟨t, ht, hr⟩
  have hk : Keeps me s s' := h.formed.acts_keeps ht hr ha
  have hu : isUse r.call = true :=
    h.uses t.allCalls (List.mem_map.2 ⟨t, List.mem_of_getElem? ht, rfl⟩) r.call (by simp [Thread.allCalls, hr])
  have hc (n : Nat) := h.makes me r n ⟨t, ht, hr⟩
  have hformed := h.formed.act ht hr ha
  have hl : keys.length = s.slots.length := h.formed.length
  have hl' : (grown keys r s s').length = s'.slots.length := hformed.length
  obtain ⟨hbelow, hapart⟩ := acts_numbers hl hf h.below h.apart ha
  refine ⟨hformed, ?_, h.makes.act h.formed ht hr hu ha, fun key => ?_, hbelow, hapart⟩
  · rw [Machine.calls_act ht hr ha]
    exact h.uses
  · have hsum := sum_map_set (fun t => t.answers.countP (expires key)) t' ht
    have hact := acts_balance hl hl' hf hk hr hu hc ha key
    have := h.balance key
    simp only [Machine.expiries_eq_sum] at this hsum ⊢
    omega

/-! ## Seeded stores -/

/-- What is true of a store that objects were only ever inserted into. -/
structure Seeded (s : Store α) : Prop where
  sorted : s.entries.Sorted
  below : ∀ entry ∈ s.entries, entry.2.serial < s.made
  apart : ∀ entry ∈ s.entries, ∀ other ∈ s.entries, entry.2.serial = other.2.serial → entry.1 = other.1

theorem seeded_empty (id : String) (policy : Policy) (loader : Loader α) : Seeded (Store.empty id policy loader) :=
  ⟨.nil, fun _ h => (nomatch h), fun _ h => (nomatch h)⟩

theorem Seeded.insert {s : Store α} (h : Seeded s) (key : String) (object : α) : Seeded (s.insert key object).2 := by
  have mem {entry : String × Entry α} (he : entry ∈ s.entries.put key ⟨s.made, object⟩) :
      entry.1 = key ∧ entry.2.serial = s.made ∨ entry ∈ s.entries ∧ entry.2.serial < s.made := by
    rcases Dict.mem_put he with rfl | he
    · exact .inl ⟨rfl, rfl⟩
    · exact .inr ⟨he, h.below entry he⟩
  refine ⟨h.sorted.put _ _, fun entry he => ?_, fun entry he other ho heq => ?_⟩
  · show entry.2.serial < s.made + 1
    rcases mem he with ⟨-, hserial⟩ | ⟨-, hserial⟩ <;> omega
  · rcases mem he with ⟨hk, hserial⟩ | ⟨hk, hserial⟩ <;> rcases mem ho with ⟨hk', hserial'⟩ | ⟨hk', hserial'⟩
    · exact hk.trans hk'.symm
    · omega
    · omega
    · exact h.apart entry hk other hk' heq

/-- A store with objects inserted one after another. -/
def seededWith (id : String) (policy : Policy) (loader : Loader α) (seeds : List (String × α)) : Store α :=
  ((Store.empty id policy loader).performAll (seeds.map fun seed => .insert seed.1 seed.2)).2

theorem seeded_seededWith (id : String) (policy : Policy) (loader : Loader α) (seeds : List (String × α)) :
    Seeded (seededWith id policy loader seeds) := by
  have all (s : Store α) (hs : Seeded s) :
      Seeded (s.performAll (seeds.map fun seed => .insert seed.1 seed.2)).2 := by
    induction seeds generalizing s with
    | nil => exact hs
    | cons seed seeds ih => exact ih _ (hs.insert seed.1 seed.2)
  exact all _ (seeded_empty id policy loader)

theorem ofStore_entry {s : Store α} {calls : List (List (Call α))} {n : Nat} {e : Entry α}
    (h : ((Machine.ofStore s calls).shared.slot n).content = some e) :
    ∃ key, s.entries[n]? = some (key, e) := by
  simp only [Machine.ofStore, Shared.slot, List.getElem?_map] at h
  cases hn : s.entries[n]? with
  | none => rw [hn] at h; cases h
  | some entry =>
    rw [hn] at h
    cases h
    exact ⟨entry.1, rfl⟩

/-- Each slot of a store that nobody uses yet is mapped for its key. -/
theorem value?_ofStore {s : Store α} (hs : s.entries.Sorted) (calls : List (List (Call α))) {n : Nat} {key : String}
    (h : (s.entries.map (·.1))[n]? = some key) : (Machine.ofStore s calls).shared.map.value? key = some n := by
  obtain ⟨k, hk⟩ := ofStore_value? s calls h
  have hkey := (formed_ofStore s calls).mapped _ (Dict.mem_of_value? hk)
  rwa [(List.getElem?_inj (List.getElem?_eq_some_iff.1 h).1 hs.nodup).1 (h.trans hkey.symm)]

theorem Seeded.numbers_ofStore {s : Store α} (hs : Seeded s) (calls : List (List (Call α))) :
    (∀ n e, ((Machine.ofStore s calls).shared.slot n).content = some e → e.serial < s.made) ∧
      ∀ n k e e', ((Machine.ofStore s calls).shared.slot n).content = some e →
        ((Machine.ofStore s calls).shared.slot k).content = some e' → e.serial = e'.serial → n = k := by
  refine ⟨fun n e he => ?_, fun n k e e' he he' heq => ?_⟩
  · obtain ⟨key, hn⟩ := ofStore_entry he
    exact hs.below _ (List.mem_of_getElem? hn)
  · obtain ⟨key, hn⟩ := ofStore_entry he
    obtain ⟨key', hk⟩ := ofStore_entry he'
    have hkey : key = key' := hs.apart _ (List.mem_of_getElem? hn) _ (List.mem_of_getElem? hk) heq
    have hi : (s.entries.map (·.1))[n]? = some key := by rw [List.getElem?_map, hn]; rfl
    have hj : (s.entries.map (·.1))[k]? = some key := by rw [List.getElem?_map, hk, hkey]; rfl
    exact (List.getElem?_inj (List.getElem?_eq_some_iff.1 hi).1 hs.sorted.nodup).1 (hi.trans hj.symm)

theorem sharing_ofStore {s : Store α} {calls : List (List (Call α))} (hs : Seeded s)
    (hu : ∀ todo ∈ calls, ∀ call ∈ todo, isUse call = true) :
    Sharing (s.entries.map (·.1)) (Machine.ofStore s calls) := by
  have hf := formed_ofStore s calls
  obtain ⟨hbelow, hapart⟩ := hs.numbers_ofStore calls
  refine ⟨hf, ?_, fun i r n hm => (not_runs_ofStore hm).elim, fun key => ?_, hbelow, hapart⟩
  · rw [Machine.calls_ofStore]
    exact hu
  · exact Nat.le_add_left_of_le (card_filled_le_hit hf.length fun n => value?_ofStore hs.sorted calls)

theorem sharing_of_reaches {s : Store α} {calls : List (List (Call α))} (hs : Seeded s)
    (hu : ∀ todo ∈ calls, ∀ call ∈ todo, isUse call = true) {m : Machine α}
    (h : Machine.Reaches (Machine.ofStore s calls) m) : ∃ keys, Sharing keys m :=
  Machine.induction (P := fun m => ∃ keys, Sharing keys m) h ⟨_, sharing_ofStore hs hu⟩
    (fun ⟨keys, hm⟩ ht hr htodo => ⟨keys, hm.takeUp ht hr htodo⟩) fun ⟨_, hm⟩ ht hr ha => ⟨_, hm.act ht hr ha⟩

/-! ## What the threads see -/

/-- What threads that load, expire and look see of a store they share. -/
structure MaterializesOnce (s : Store α) (calls : List (List (Call α))) (m : Machine α) : Prop where
  /-- No two calls of the loader for one key are in progress at once. -/
  exclusive : ∀ i j r r' n k answer answer', m.Runs i r → r.point = .calling n answer → m.Runs j r' →
    r'.point = .calling k answer' → r.call.key = r'.call.key → i = j
  /-- A call of the loader ends, and all along and then its slot is the one
  mapped for its key; what it found is in that slot. -/
  mapped : ∀ i r n answer, m.Runs i r → r.point = .calling n answer →
    m.shared.map.value? r.call.key = some n ∧ ∀ order, ∃ m', m.step i order = some m' ∧
      m'.shared.map.value? r.call.key = some n ∧
      ∀ object, answer = .found object → (m'.shared.slot n).content = some ⟨m.shared.made, object⟩
  /-- A call asks the loader once at most. -/
  once : (∀ i r, m.Runs i r → r.effort.loaderCalls ≤ 1) ∧ ∀ f ∈ m.finished, f.effort.loaderCalls ≤ 1
  /-- Nothing else asks the loader. -/
  asked : m.shared.calls.length = s.calls.length + (m.threads.map Thread.asked).sum
  /-- Returned objects with the same number are the same object. -/
  numbered : ∀ key e e', e ∈ m.returned key → e' ∈ m.returned key → e.serial = e'.serial → e = e'
  objects : ∀ key, ((m.returned key).map (·.serial)).toFinset.card ≤ 1 + m.expiries key
  /-- Without expiries of a key there is one object for all. -/
  shared : ∀ key, (∀ todo ∈ calls, ∀ call ∈ todo, call ≠ .expire key) →
    ∀ e e', e ∈ m.returned key → e' ∈ m.returned key → e = e'
  /-- When no call is under way, all answers have been given. -/
  given : m.isQuiet = true → m.answers = m.finished.map fun f => (f.call, f.reply)

theorem Sharing.exclusive {keys : List String} {m : Machine α} (h : Sharing keys m) {i j : Nat} {r r' : Running α}
    {n k : Nat} {answer answer' : Answer α} (hr : m.Runs i r) (hp : r.point = .calling n answer) (hr' : m.Runs j r')
    (hp' : r'.point = .calling k answer') (hkey : r.call.key = r'.call.key) : i = j := by
  have hf := h.formed.fits i r hr
  have hf' := h.formed.fits j r' hr'
  simp only [Fits, hp] at hf
  simp only [Fits, hp'] at hf'
  exact h.makes.alone h.formed hr hf.1 (by rw [hp]; rfl) hr' hf'.1 (by rw [hp']; rfl) hkey

theorem Sharing.mapped {keys : List String} {m : Machine α} (h : Sharing keys m) {i : Nat} {r : Running α}
    {n : Nat} {answer : Answer α} (hr : m.Runs i r) (hp : r.point = .calling n answer) :
    m.shared.map.value? r.call.key = some n ∧ ∀ order, ∃ m', m.step i order = some m' ∧
      m'.shared.map.value? r.call.key = some n ∧
      ∀ object, answer = .found object → (m'.shared.slot n).content = some ⟨m.shared.made, object⟩ := by
  have hf := h.formed.fits i r hr
  simp only [Fits, hp] at hf
  have hn := h.makes i r n hr hf.1 (by rw [hp]; rfl)
  obtain ⟨t, ht, htr⟩ := hr
  refine ⟨hn, fun order => ?_⟩
  have missed (ha : ∀ object, answer ≠ .found object)
      (hs : t.stepAt i order m.shared r =
        some (m.shared.logAnswer r.call.key answer, t.goto r (.unmapping n (.loaded none)))) :
      ∃ m', m.step i order = some m' ∧ m'.shared.map.value? r.call.key = some n ∧
        ∀ object, answer = .found object → (m'.shared.slot n).content = some ⟨m.shared.made, object⟩ :=
    ⟨_, Machine.step_of_stepAt ht htr hs, hn, fun object he => absurd he (ha object)⟩
  cases answer with
  | found object =>
    have hs : t.stepAt i order m.shared r = some ((m.shared.fill n object).logAnswer r.call.key (.found object),
        t.goto r (.unlocking n (some (.loaded (some ⟨m.shared.made, object⟩))))) := by
      rw [Thread.stepAt, hp]
    refine ⟨_, Machine.step_of_stepAt ht htr hs, hn, fun object' he => ?_⟩
    cases he
    exact (m.shared.content_fill (lt_of_key h.formed.length hf.2.1) object n).trans (if_pos rfl)
  | absent => exact missed (by simp) (by rw [Thread.stepAt, hp])
  | failed causes => exact missed (by simp) (by rw [Thread.stepAt, hp])

theorem returns_eq_some {key : String} {answer : Call α × Reply α} {e : Entry α} (h : returns key answer = some e) :
    ∃ create, answer = (.load key create, .loaded (some e)) := by
  obtain ⟨call, reply⟩ := answer
  unfold returns at h
  split at h
  · rename_i k create found he
    split at h
    · rename_i hk
      cases he
      exact ⟨create, by rw [hk, h]⟩
    · cases h
  · cases h

/-- Returned objects are still in slots of their key. -/
theorem Formed.returned {keys : List String} {m : Machine α} (h : Formed keys m) {key : String} {e : Entry α}
    (he : e ∈ m.returned key) : ∃ n ∈ filled keys m.shared key, (m.shared.slot n).content = some e := by
  obtain ⟨answer, ha, hret⟩ := List.mem_filterMap.1 he
  obtain ⟨create, rfl⟩ := returns_eq_some hret
  obtain ⟨t, ht, ha⟩ := List.mem_flatMap.1 ha
  suffices ∃ n, keys[n]? = some key ∧ (m.shared.slot n).content = some e by
    obtain ⟨n, hn, hc⟩ := this
    exact ⟨n, (mem_filled h.length).2 ⟨hn, e, hc⟩, hc⟩
  rcases List.mem_append.1 ha with ha | ha
  · obtain ⟨f, hf, hfe⟩ := List.mem_map.1 ha
    simp only [Prod.mk.injEq] at hfe
    obtain ⟨hcall, hreply⟩ := hfe
    obtain ⟨content, hc, hn⟩ := h.answered f (List.mem_flatMap.2 ⟨t, ht, hf⟩) (by rw [hcall]; trivial)
    rw [hcall, hreply] at hc
    cases hc
    obtain ⟨n, hkey, hn⟩ := hn e rfl
    rw [hcall] at hkey
    exact ⟨n, hkey, hn⟩
  · rw [Option.mem_toList, Option.bind_eq_some_iff] at ha
    obtain ⟨r, hr, ha⟩ := ha
    obtain ⟨i, hi⟩ := List.mem_iff_getElem?.1 ht
    have hf := h.fits i r ⟨t, hi, hr⟩
    unfold Running.answer? at ha
    split at ha
    · rename_i n reply hp
      simp only [Option.some.injEq, Prod.mk.injEq] at ha
      simp only [Fits, hp] at hf
      obtain ⟨hcall, hreply⟩ := ha
      obtain ⟨-, hkey, hc⟩ := hf
      rw [hcall] at hkey hc
      rw [hreply] at hc
      exact ⟨n, hkey, (Reply.loaded.inj hc).symm⟩
    · cases ha

/-- Different objects come from different slots. -/
theorem Formed.card_returned_le {keys : List String} {m : Machine α} (h : Formed keys m) (key : String) :
    ((m.returned key).map (·.serial)).toFinset.card ≤ (filled keys m.shared key).card := by
  let serialAt (n : Nat) : Nat := ((m.shared.slot n).content.map (·.serial)).getD 0
  have hsub : ((m.returned key).map (·.serial)).toFinset ⊆ (filled keys m.shared key).image serialAt := by
    intro serial hm
    obtain ⟨e, he, rfl⟩ := List.mem_map.1 (List.mem_toFinset.1 hm)
    obtain ⟨n, hn, hc⟩ := h.returned he
    exact Finset.mem_image.2 ⟨n, hn, by simp [serialAt, hc]⟩
  exact (Finset.card_le_card hsub).trans Finset.card_image_le

theorem Formed.returned_eq_of_serial {keys : List String} {m : Machine α} (h : Formed keys m)
    (apart : ∀ n k e e', (m.shared.slot n).content = some e → (m.shared.slot k).content = some e' →
      e.serial = e'.serial → n = k) {key : String} {e e' : Entry α} (he : e ∈ m.returned key)
    (he' : e' ∈ m.returned key) (heq : e.serial = e'.serial) : e = e' := by
  obtain ⟨n, -, hn⟩ := h.returned he
  obtain ⟨k, -, hk⟩ := h.returned he'
  obtain rfl := apart n k e e' hn hk heq
  exact Option.some.inj (hn.symm.trans hk)

theorem Formed.returned_eq_of_card {keys : List String} {m : Machine α} (h : Formed keys m) {key : String}
    (hone : (filled keys m.shared key).card ≤ 1) {e e' : Entry α} (he : e ∈ m.returned key)
    (he' : e' ∈ m.returned key) : e = e' := by
  obtain ⟨n, hn, hc⟩ := h.returned he
  obtain ⟨k, hk, hc'⟩ := h.returned he'
  obtain rfl := Finset.card_le_one.1 hone n hn k hk
  exact Option.some.inj (hc.symm.trans hc')

/-- An answer of a thread is to one of its calls. -/
theorem Machine.exists_of_mem_answers {m : Machine α} {call : Call α} {reply : Reply α}
    (h : (call, reply) ∈ m.answers) : ∃ calls ∈ m.calls, call ∈ calls := by
  obtain ⟨t, ht, h⟩ := List.mem_flatMap.1 h
  exact ⟨t.allCalls, List.mem_map_of_mem ht, Thread.mem_allCalls_of_answers h⟩

theorem Machine.expiries_eq_zero {m : Machine α} {key : String}
    (h : ∀ calls ∈ m.calls, ∀ call ∈ calls, call ≠ .expire key) : m.expiries key = 0 := by
  rw [expiries, List.countP_eq_zero]
  rintro ⟨call, reply⟩ ha he
  obtain ⟨calls, hcalls, hcall⟩ := exists_of_mem_answers ha
  unfold expires at he
  split at he
  · rename_i k hk
    cases hk
    exact h calls hcalls _ hcall (by rw [of_decide_eq_true he])
  · cases he

theorem Sharing.card_filled_le {keys : List String} {m : Machine α} (h : Sharing keys m) (key : String) :
    (filled keys m.shared key).card ≤ 1 + m.expiries key := by
  have := h.balance key
  have := hit_le_one m.shared key
  omega

/-- **Threads that load, expire and look share what the loader makes**, whatever
the store, its loader and the order of their steps. -/
theorem materializesOnce_of_reaches {id : String} {policy : Policy} {loader : Loader α} {seeds : List (String × α)}
    {calls : List (List (Call α))} (hu : ∀ todo ∈ calls, ∀ call ∈ todo, isUse call = true) {m : Machine α}
    (h : Machine.Reaches (Machine.ofStore (seededWith id policy loader seeds) calls) m) :
    MaterializesOnce (seededWith id policy loader seeds) calls m := by
  obtain ⟨keys, hm⟩ := sharing_of_reaches (seeded_seededWith id policy loader seeds) hu h
  have hasked := asked_of_reaches (asked_ofStore _ calls) h
  have hcalls : m.calls = calls := (Machine.calls_of_reaches h).trans (Machine.calls_ofStore _ _)
  refine ⟨fun i j r r' n k answer answer' => hm.exclusive, fun i r n answer => hm.mapped,
    ⟨fun i r hr => ?_, fun f hf => ?_⟩, ?_, fun key e e' => hm.formed.returned_eq_of_serial hm.apart, fun key => ?_,
    fun key hx e e' => hm.formed.returned_eq_of_card ?_, Machine.answers_of_isQuiet⟩
  · obtain ⟨t, ht, hr⟩ := hr
    exact (hasked.running t (List.mem_of_getElem? ht) r hr).le
  · obtain ⟨t, ht, hf⟩ := List.mem_flatMap.1 hf
    exact hasked.finished t ht f hf
  · have hnone : ((Machine.ofStore (seededWith id policy loader seeds) calls).threads.map Thread.asked).sum = 0 := by
      simp [Machine.ofStore, Thread.asked, Function.comp_def]
    have hcount := hasked.count
    rw [hnone] at hcount
    exact hcount
  · exact (hm.formed.card_returned_le key).trans (hm.card_filled_le key)
  · have hone := hm.card_filled_le key
    rwa [Machine.expiries_eq_zero (by rw [hcalls]; exact hx)] at hone

/-- Two threads that load one key. The first one loads it again after an expiry. -/
def twoThreads : List (List (Call String)) :=
  [[.load "1" true, .expire "1", .load "1" true], [.expire "1", .load "1" true]]

/-- A run of both to the end, in which the second thread takes the first slot
out of the map while that is still empty, and so makes the first thread start
again. -/
def twoThreadsDone : Machine String :=
  (Machine.ofStore (seededWith "users" .createIfAbsent (fun _ key => .found key) [("2", "two")]) twoThreads).follow
    [0, 1, 1, 1, 1, 0, 0, 0, 0, 1, 0, 0, 0, 0, 0, 1, 1, 0, 0, 0, 0, 0, 0, 0, 0, 0, 0]

theorem materializesOnce_twoThreads :
    (∀ todo ∈ twoThreads, ∀ call ∈ todo, isUse call = true) ∧ twoThreadsDone.isDone = true ∧
      MaterializesOnce (seededWith "users" .createIfAbsent (fun _ key => .found key) [("2", "two")]) twoThreads
        twoThreadsDone ∧
      ((twoThreadsDone.returned "1").map (·.serial)).toFinset.card = 1 + twoThreadsDone.expiries "1" :=
  ⟨by decide, by decide, materializesOnce_of_reaches (by decide) (Machine.reaches_follow _ _), by decide⟩

end CacheScript.Concurrent
