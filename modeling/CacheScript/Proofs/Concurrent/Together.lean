/-
Loads that run together come to what the same loads come to one after another:
the store behind the run makes them in the order in which they take effect
(`Sequential`). And all of them come to something, since no run goes on for
ever or stops before every load is answered.
-/
import CacheScript.Proofs.Concurrent.Ending
import CacheScript.Proofs.Concurrent.Following
import Mathlib.Data.Finset.Card

namespace CacheScript.Concurrent

variable {α : Type}

/-! ## Whole runs -/

/-- The answers so far are those of as many loads made one after another. -/
def Sequential (key : String) (σ₀ : Store α) (m : Machine α) : Prop :=
  ∃ replies σ, replies.Perm (m.answers.map (·.2)) ∧
    σ₀.performAll (List.replicate replies.length (.load key true)) = (replies, σ) ∧ Follows key m σ

theorem Sequential.act {keys : List String} {key : String} {σ₀ : Store α} {s s' : Shared α} {threads : List (Thread α)}
    {me : Nat} {t t' : Thread α} {r : Running α} (h : Sequential key σ₀ ⟨s, threads⟩)
    (hm : Together keys key ⟨s, threads⟩) (ht : threads[me]? = some t) (hr : t.running = some r)
    (ha : Acts me s t r s' t') : Sequential key σ₀ ⟨s', threads.set me t'⟩ := by
  obtain ⟨replies, σ, hperm, hall, hfollows⟩ := h
  rcases hfollows.act hm ht hr ha with ⟨hans, hnext⟩ | ⟨hans, hnext⟩
  · have hset : ((threads.set me t').flatMap (·.answers)).Perm (threads.flatMap (·.answers) ++ []) :=
      answers_set ht (by rw [hans, List.append_nil])
    rw [List.append_nil] at hset
    exact ⟨replies, σ, hperm.trans (hset.symm.map _), hall, hnext⟩
  · refine ⟨replies ++ [(σ.perform (.load key true)).reply], (σ.perform (.load key true)).store, ?_, ?_, hnext⟩
    · have hset := (answers_set ht hans).map (·.2)
      rw [List.map_append] at hset
      exact (hperm.append_right _).trans hset.symm
    · rw [List.length_append, List.length_singleton, List.replicate_succ', Store.performAll_snoc, hall]

theorem Sequential.takeUp {key : String} {σ₀ : Store α} {s : Shared α} {threads : List (Thread α)} {me : Nat}
    {t : Thread α} {call : Call α} {todo : List (Call α)} (h : Sequential key σ₀ ⟨s, threads⟩)
    (ht : threads[me]? = some t) (hr : t.running = none) :
    Sequential key σ₀ ⟨s, threads.set me (t.takeUp call todo)⟩ := by
  obtain ⟨replies, σ, hperm, hall, hfollows⟩ := h
  have hset : ((threads.set me (t.takeUp call todo)).flatMap (·.answers)).Perm (threads.flatMap (·.answers) ++ []) :=
    answers_set ht (by rw [Thread.answers_takeUp hr, List.append_nil])
  rw [List.append_nil] at hset
  exact ⟨replies, σ, hperm.trans (hset.symm.map _), hall, hfollows.takeUp ht hr⟩

/-- What is left of a store when no call is under way, as the threads find it. -/
theorem shows_toStore {m : Machine α} (hs : m.shared.map.Sorted) : Shows m.shared m.toStore :=
  ⟨rfl, rfl, rfl, rfl, rfl, hs.filterMap fun n => (m.shared.slot n).content,
    hs.value?_filterMap fun n => (m.shared.slot n).content⟩

theorem Shows.eq {s : Shared α} {σ σ' : Store α} (h : Shows s σ) (h' : Shows s σ') (hc : σ.calls = σ'.calls) :
    σ = σ' := by
  have hentries : σ.entries = σ'.entries :=
    h.sorted.ext h'.sorted fun key => (h.entries key).trans (h'.entries key).symm
  obtain ⟨id, policy, loader, entries, made, materialized, calls⟩ := σ
  obtain ⟨id', policy', loader', entries', made', materialized', calls'⟩ := σ'
  obtain ⟨hid, hpolicy, hloader, hmade, hmaterialized, -, -⟩ := h
  obtain ⟨hid', hpolicy', hloader', hmade', hmaterialized', -, -⟩ := h'
  simp only at *
  rw [hid, hid', hpolicy, hpolicy', hloader, hloader', hmade, hmade', hmaterialized, hmaterialized', hentries, hc]

theorem acts_sorted {me : Nat} {s s' : Shared α} {t t' : Thread α} {r : Running α} (hs : s.map.Sorted)
    (h : Acts me s t r s' t') : s'.map.Sorted := by
  cases h with
  | create => exact hs.put _ _
  | insert => exact hs.put _ _
  | clear => exact .nil
  | unmap =>
    rw [Shared.unmap]
    split
    · exact hs.remove _
    · exact hs
  | _ => exact hs

theorem sorted_of_reaches {m₀ m : Machine α} (hs : m₀.shared.map.Sorted) (h : Machine.Reaches m₀ m) :
    m.shared.map.Sorted :=
  Machine.induction (P := fun m => m.shared.map.Sorted) h hs (fun hm _ _ _ => hm) fun hm _ _ ha => acts_sorted hm ha

theorem Machine.not_runs_of_isQuiet {m : Machine α} (hq : m.isQuiet = true) {i : Nat} {r : Running α} :
    ¬ m.Runs i r := by
  rintro ⟨t, ht, hr⟩
  rw [isQuiet_iff.1 hq t (List.mem_of_getElem? ht)] at hr
  cases hr

/-- A store that is not in use can be used by other threads. -/
theorem Formed.reuse {keys : List String} {m : Machine α} (h : Formed keys m) (hq : m.isQuiet = true)
    {threads : List (Thread α)} (hfresh : ∀ t ∈ threads, t.running = none ∧ t.finished = []) :
    Formed keys ⟨m.shared, threads⟩ := by
  have hnew (i : Nat) (r : Running α) : ¬ (⟨m.shared, threads⟩ : Machine α).Runs i r := by
    rintro ⟨t, ht, hr⟩
    rw [(hfresh t (List.mem_of_getElem? ht)).1] at hr
    cases hr
  refine ⟨h.length, h.mapped, fun i r hr => absurd hr (hnew i r), fun n i => ?_, fun key n hv he => ?_, fun f hf => ?_⟩
  · refine (h.locks n i).trans ⟨?_, ?_⟩
    · rintro ⟨r, hr, -⟩
      exact absurd hr (Machine.not_runs_of_isQuiet hq)
    · rintro ⟨r, hr, -⟩
      exact absurd hr (hnew i r)
  · obtain ⟨i, r, hr, -⟩ := h.tended key n hv he
    exact absurd hr (Machine.not_runs_of_isQuiet hq)
  · obtain ⟨t, ht, hf⟩ := List.mem_flatMap.1 hf
    rw [(hfresh t ht).2] at hf
    cases hf

/-- Threads that each load a key once, about to start on a store that is not in
use. -/
def Machine.loading (m : Machine α) (key : String) (threads : Nat) : Machine α :=
  ⟨m.shared, List.replicate threads ⟨none, [.load key true], []⟩⟩

theorem Machine.not_runs_loading {m : Machine α} {key : String} {threads i : Nat} {r : Running α} :
    ¬ (m.loading key threads).Runs i r := by
  rintro ⟨t, ht, hr⟩
  rw [List.eq_of_mem_replicate (List.mem_of_getElem? ht)] at hr
  cases hr

theorem Machine.calls_loading (m : Machine α) (key : String) (threads : Nat) :
    (m.loading key threads).calls = List.replicate threads [.load key true] := by
  simp [Machine.calls, loading, Thread.allCalls]

theorem together_loading {keys : List String} {m : Machine α} (h : Formed keys m) (hq : m.isQuiet = true)
    (key : String) (threads : Nat) : Together keys key (m.loading key threads) := by
  refine ⟨h.reuse hq fun t ht => ?_, fun calls hm call hc => ?_, fun i r n hr => absurd hr Machine.not_runs_loading,
    fun i r n hr => absurd hr Machine.not_runs_loading⟩
  · rw [List.eq_of_mem_replicate ht]
    exact ⟨rfl, rfl⟩
  · rw [Machine.calls_loading] at hm
    rw [List.eq_of_mem_replicate hm] at hc
    exact List.mem_singleton.1 hc

theorem sequential_loading {m : Machine α} (hs : m.shared.map.Sorted) (key : String) (threads : Nat) :
    Sequential key m.toStore (m.loading key threads) := by
  refine ⟨[], m.toStore, ?_, rfl, shows_toStore hs, fun i r hr => absurd hr Machine.not_runs_loading, fun _ => rfl⟩
  simp [Machine.answers, Machine.loading, Thread.answers]

theorem sequential_of_reaches {keys : List String} {m₀ m : Machine α} (h : Formed keys m₀) (hq : m₀.isQuiet = true)
    (hs : m₀.shared.map.Sorted) {key : String} {threads : Nat} (hr : Machine.Reaches (m₀.loading key threads) m) :
    Sequential key m₀.toStore m := by
  suffices ∃ keys, Together keys key m ∧ Sequential key m₀.toStore m by
    obtain ⟨_, -, hm⟩ := this
    exact hm
  exact Machine.induction (P := fun m => ∃ keys, Together keys key m ∧ Sequential key m₀.toStore m) hr
    ⟨keys, together_loading h hq key threads, sequential_loading hs key threads⟩
    (fun ⟨keys, hm, hseq⟩ ht hr htodo => ⟨keys, hm.takeUp ht hr htodo, hseq.takeUp ht hr⟩)
    fun ⟨_, hm, hseq⟩ ht hr ha => ⟨_, hm.act ht hr ha, hseq.act hm ht hr ha⟩

/-! ## Together and alone -/

/-- The object that a load returned. -/
def loaded? : Reply α → Option (Entry α)
  | .loaded found => found
  | _ => none

/-- Threads that are done have come to what calls made one after another come to. -/
structure AsAlone (m : Machine α) (alone : List (Reply α) × Store α) : Prop where
  replies : (m.finished.map (·.reply)).Perm alone.1
  /-- As many threads got an object. -/
  found : m.loads.length = (alone.1.filterMap loaded?).length
  /-- They got as many different objects. -/
  objects : (m.loads.map (·.serial)).toFinset.card = ((alone.1.filterMap loaded?).map (·.serial)).toFinset.card
  calls : m.shared.calls.length = alone.2.calls.length
  materialized : m.shared.materialized = alone.2.materialized
  entries : m.toStore.entries = alone.2.entries
  store : m.toStore = alone.2

theorem asAlone_of_perm {m : Machine α} {alone : List (Reply α) × Store α}
    (hr : (m.finished.map (·.reply)).Perm alone.1) (hs : m.toStore = alone.2) : AsAlone m alone := by
  have hloads : m.loads = (m.finished.map (·.reply)).filterMap loaded? := by
    rw [Machine.loads, List.filterMap_map]
    rfl
  have hperm : m.loads.Perm (alone.1.filterMap loaded?) := hloads ▸ hr.filterMap loaded?
  refine ⟨hr, hperm.length_eq, ?_, ?_, ?_, congrArg Store.entries hs, hs⟩
  · rw [List.toFinset_eq_of_perm _ _ (hperm.map _)]
  · exact congrArg (fun σ : Store α => σ.calls.length) hs
  · exact congrArg Store.materialized hs

/-- What comes of loads of a key that start together. -/
structure LoadsAsAlone (m₀ : Machine α) (key : String) (threads : Nat) : Prop where
  /-- No run goes on for ever. -/
  ends : ∀ run : Nat → Machine α, run 0 = m₀.loading key threads →
    ¬ ∀ n, ∃ me order, (run n).step me order = some (run (n + 1))
  /-- A run stops only when every load was answered. -/
  stops : ∀ m, Machine.Reaches (m₀.loading key threads) m → (∀ me order, m.step me order = none) → m.isDone = true
  same : ∀ m, Machine.Reaches (m₀.loading key threads) m → m.isDone = true →
    AsAlone m (m₀.toStore.performAll (List.replicate threads (.load key true)))

theorem length_finished_of_isDone {m m₀ : Machine α} {key : String} {threads : Nat}
    (h : Machine.Reaches (m₀.loading key threads) m) (hd : m.isDone = true) : m.finished.length = threads := by
  have hcalls := Machine.calls_of_isDone hd
  rw [Machine.calls_of_reaches h, Machine.calls_loading] at hcalls
  have hlength := congrArg List.length hcalls
  simpa using hlength

theorem Sequential.asAlone {m m₀ : Machine α} {key : String} {threads : Nat} (h : Sequential key m₀.toStore m)
    (hr : Machine.Reaches (m₀.loading key threads) m) (hs : m.shared.map.Sorted) (hd : m.isDone = true) :
    AsAlone m (m₀.toStore.performAll (List.replicate threads (.load key true))) := by
  obtain ⟨replies, σ, hperm, hall, hfollows⟩ := h
  have hq := Machine.isQuiet_of_isDone hd
  rw [Machine.answers_of_isQuiet hq, List.map_map] at hperm
  have hlength : replies.length = threads := by
    rw [hperm.length_eq, List.length_map, length_finished_of_isDone hr hd]
  have hcalls : m.shared.calls = σ.calls := hfollows.idle fun i r hrun => absurd hrun (Machine.not_runs_of_isQuiet hq)
  rw [hlength] at hall
  refine asAlone_of_perm ?_ ?_
  · rw [hall]
    exact hperm.symm
  · rw [hall]
    exact (shows_toStore hs).eq hfollows.shows hcalls

/-- **Loads that run together come to what they come to one after another**,
whatever was done with the store before. -/
theorem loadsAsAlone_of_reaches {id : String} {policy : Policy} {loader : Loader α} {history : List (List (Call α))}
    {m₀ : Machine α} (h : Machine.Reaches (Machine.ofStore (Store.empty id policy loader) history) m₀)
    (hq : m₀.isQuiet = true) (key : String) (threads : Nat) : LoadsAsAlone m₀ key threads := by
  obtain ⟨keys, hf⟩ := (formed_ofStore (Store.empty id policy loader) history).reaches h
  have hs : m₀.shared.map.Sorted := sorted_of_reaches .nil h
  have hs' : (m₀.loading key threads).shared.map.Sorted := hs
  have htogether := together_loading hf hq key threads
  refine ⟨fun run hrun => htogether.formed.not_endless hrun, fun m hr hstuck => ?_, fun m hr hd => ?_⟩
  · obtain ⟨_, hm⟩ := htogether.formed.reaches hr
    exact hm.isDone_of_stuck hstuck
  · exact (sequential_of_reaches hf hq hs hr).asAlone hr (sorted_of_reaches hs' hr) hd

/-- A store after some use. Its loader has no object for a key at first, then
fails, and has one from then on. -/
def usedStore : Machine String :=
  (Machine.ofStore (Store.empty "users" .createIfAbsent fun past key => match past.count key with
    | 0 => .absent
    | 1 => .failed ["down"]
    | _ => .found key) [[.insert "2" "two", .load "3" true], [.expire "2", .insert "2" "new"]]).follow
    [0, 1, 0, 1, 1, 0, 1, 0, 0, 1, 0, 0, 0]

/-- Four loads of one key that all wait for the first slot of it. The first one
finds nothing, the second fails, the third makes the object that the fourth
finds. -/
def fourThreads : Machine String :=
  (usedStore.loading "1" 4).follow ([0, 1, 2, 3] ++ List.replicate 6 0 ++ List.replicate 4 1 ++ List.replicate 4 2 ++
    List.replicate 6 1 ++ List.replicate 9 2 ++ List.replicate 6 3)

theorem loadsAsAlone_fourThreads :
    usedStore.isQuiet = true ∧ LoadsAsAlone usedStore "1" 4 ∧ fourThreads.isDone = true ∧
      AsAlone fourThreads (usedStore.toStore.performAll (List.replicate 4 (.load "1" true))) ∧
      fourThreads.loads.length = 2 ∧ fourThreads.shared.calls.count "1" = 3 := by
  have hall := loadsAsAlone_of_reaches (Machine.reaches_follow _ _) (by decide : usedStore.isQuiet = true) "1" 4
  have hdone : fourThreads.isDone = true := by decide +kernel
  have hsame := hall.same fourThreads (Machine.reaches_follow _ _) hdone
  exact ⟨by decide, hall, hdone, hsame, by decide +kernel, by decide +kernel⟩

end CacheScript.Concurrent
