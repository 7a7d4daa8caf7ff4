/-
The law of a store that is empty at first and called again and again. All of
it follows from what is under each key after each call
(`Store.value?_iff_lastPut`). And it is the law of slots too, which are mapped
before anybody knows whether there will be an object for them.
-/
import CacheScript.Proofs.Concurrent.Tending

namespace CacheScript

open Concurrent

variable {α : Type}

/-- What calls come to when they are made one after another. -/
structure Store.ObeysLaw (s₀ : Store α) (calls : List (Call α)) : Prop where
  /-- The loader is called by the loads that may create and find no object under
  their key, once each, and by nothing else. -/
  asked : (s₀.performAll calls).2.calls = (s₀.history calls).filterMap Turn.asks?
  kept : ∀ u ∈ s₀.history calls, u.before.policy = s₀.policy ∧ u.before.loader = s₀.loader
  /-- A load returns the object that was put under its key last, if there is one
  that was not dropped since; it may have been put there by this load. -/
  returned : ∀ past u later key create e, s₀.history calls = past ++ u :: later → u.call = .load key create →
    (u.reply = .loaded (some e) ↔ LastPut key e (past ++ [u]))
  /-- What is put in is the object that was given, or that the loader answered. -/
  given : ∀ u ∈ s₀.history calls, ∀ key object,
    (u.call = .insert key object ∨ u.asks? = some key ∧ u.before.loader u.before.calls key = .found object) →
      ∃ e, u.put? key = some e ∧ e.object = object
  /-- Whatever is put in is another object than those before. -/
  fresh : ∀ past u later key e, s₀.history calls = past ++ u :: later → u.put? key = some e →
    ∀ w ∈ past, ∀ name e', w.put? name = some e' → e'.serial < e.serial
  /-- Between two objects of the loader for one key the first of them is dropped. -/
  apart : ∀ past u between w later key, s₀.history calls = past ++ u :: (between ++ w :: later) →
    u.asks? = some key → u.makes = true → w.asks? = some key → w.makes = true → ∃ d ∈ between, d.drops key = true
  /-- Without an object the loader leaves no trace. -/
  missed : ∀ u ∈ s₀.history calls, ∀ key, u.asks? = some key → u.makes = false → u.reply = .loaded none ∧
    (∀ name, u.after.contains name = u.before.contains name) ∧ u.after.size = u.before.size ∧
      u.after.materialized = u.before.materialized
  expired : ∀ u ∈ s₀.history calls, ∀ key, u.call = .expire key → u.reply = .expired (u.before.contains key)
  looked : ∀ u ∈ s₀.history calls, (∀ key, u.call = .contains key → u.reply = .held (u.before.contains key)) ∧
    (u.call = .size → u.reply = .counted u.before.size)
  /-- A key is filled by what was put under it last. -/
  filled : ∀ key, (s₀.performAll calls).2.contains key = true ↔ ∃ e, LastPut key e (s₀.history calls)
  materialized : (s₀.performAll calls).2.materialized = (s₀.history calls).countP Turn.makes
  size : ∃ keys : Finset String, (∀ key, key ∈ keys ↔ (s₀.performAll calls).2.contains key = true) ∧
    (s₀.performAll calls).2.size = keys.card
  /-- A thread that makes the calls ends, with the same answers and the same
  objects, and with no slot in the map but theirs. -/
  slots : (∃ m, Machine.Reaches (Machine.ofStore s₀ [calls]) m ∧ m.isDone = true) ∧
    ∀ m, Machine.Reaches (Machine.ofStore s₀ [calls]) m → m.isDone = true →
      m.finished.map (·.call) = calls ∧ m.finished.map (·.reply) = (s₀.history calls).map (·.reply) ∧
        m.toStore = (s₀.performAll calls).2 ∧ m.shared.map.length = (s₀.performAll calls).2.size

namespace Store

variable (id : String) (policy : Policy) (loader : Loader α) (calls : List (Call α))

theorem asked_history : ((empty id policy loader).performAll calls).2.calls =
    ((empty id policy loader).history calls).filterMap Turn.asks? := by
  refine history_induction (P := fun turns σ => σ.calls = turns.filterMap Turn.asks?) rfl
    (fun {turns σ} call ih => ?_) calls
  have hasked := (Turn.taken_turn σ call).asked
  rw [List.filterMap_append, ← ih]
  refine hasked.trans (congrArg (σ.calls ++ ·) ?_)
  rw [List.filterMap_cons, List.filterMap_nil]
  show (σ.turn call).asks?.toList = _
  cases (σ.turn call).asks? <;> rfl

theorem kept_history (u : Turn α) (hu : u ∈ (empty id policy loader).history calls) :
    u.before.policy = policy ∧ u.before.loader = loader := by
  have hall := history_induction (s := empty id policy loader) (P := fun turns σ =>
    (σ.policy = policy ∧ σ.loader = loader) ∧ ∀ u ∈ turns, u.before.policy = policy ∧ u.before.loader = loader)
    ⟨⟨rfl, rfl⟩, fun _ h => (nomatch h)⟩ (fun {turns σ} call ih => ?_) calls
  · exact hall.2 u hu
  obtain ⟨hpolicy, hloader⟩ := (Turn.taken_turn σ call).kept
  refine ⟨⟨hpolicy.trans ih.1.1, hloader.trans ih.1.2⟩, fun w hw => ?_⟩
  rcases List.mem_append.1 hw with hw | hw
  · exact ih.2 w hw
  · rw [List.mem_singleton.1 hw]
    exact ih.1

theorem materialized_history : ((empty id policy loader).performAll calls).2.materialized =
    ((empty id policy loader).history calls).countP Turn.makes := by
  refine history_induction (P := fun turns σ => σ.materialized = turns.countP Turn.makes) rfl
    (fun {turns σ} call ih => ?_) calls
  rw [List.countP_append, List.countP_singleton, ← ih]
  exact (Turn.taken_turn σ call).materialized

theorem sorted_history : ((empty id policy loader).performAll calls).2.entries.Sorted :=
  history_induction (P := fun _ σ => σ.entries.Sorted) .nil (fun call ih => (Turn.taken_turn _ call).sorted ih) calls

/-- Numbers are given out in order. -/
theorem fresh_history {past later : List (Turn α)} {u : Turn α}
    (hsplit : (empty id policy loader).history calls = past ++ u :: later) {key : String} {e : Entry α}
    (hu : u.put? key = some e) {w : Turn α} (hw : w ∈ past) {name : String} {e' : Entry α} (hw' : w.put? name = some e') :
    e'.serial < e.serial := by
  obtain ⟨before, call, after, -, rfl, rfl⟩ := history_eq_append hsplit
  have hbelow := history_induction (s := empty id policy loader) (P := fun turns σ =>
    ∀ w ∈ turns, ∀ name e', w.put? name = some e' → e'.serial < σ.made) (fun _ h => (nomatch h))
    (fun {turns σ} call ih w hw name e' he' => ?_) before
  · rw [((Turn.taken_turn _ call).put hu).1]
    exact hbelow w hw name e' hw'
  have htaken := Turn.taken_turn σ call
  rcases List.mem_append.1 hw with hw | hw
  · exact Nat.lt_of_lt_of_le (ih w hw name e' he') htaken.made_le
  · rw [List.mem_singleton.1 hw] at he'
    obtain ⟨hserial, hmade, -⟩ := htaken.put he'
    rw [hserial]
    exact Nat.lt_of_lt_of_eq (Nat.lt_succ_self _) hmade.symm

theorem returned_history {past later : List (Turn α)} {u : Turn α}
    (hsplit : (empty id policy loader).history calls = past ++ u :: later) {key : String} {create : Bool} {e : Entry α}
    (hc : u.call = .load key create) : u.reply = .loaded (some e) ↔ LastPut key e (past ++ [u]) := by
  obtain ⟨before, call, after, -, rfl, rfl⟩ := history_eq_append hsplit
  rw [← history_snoc, ← value?_iff_lastPut, performAll_snoc, (Turn.taken_turn _ call).returned hc, Reply.loaded.injEq]
  rfl

theorem apart_history {past between later : List (Turn α)} {u w : Turn α}
    (hsplit : (empty id policy loader).history calls = past ++ u :: (between ++ w :: later)) {key : String}
    (hu : u.asks? = some key) (hmu : u.makes = true) (hw : w.asks? = some key) :
    ∃ d ∈ between, d.drops key = true := by
  by_contra hnone
  have hno : ∀ d ∈ between, d.drops key = false := fun d hd => by
    cases hdrops : d.drops key with
    | false => rfl
    | true => exact absurd ⟨d, hd, hdrops⟩ hnone
  have hmem : u ∈ (empty id policy loader).history calls := by rw [hsplit]; simp
  obtain ⟨e, hput⟩ := (Turn.taken_of_mem hmem).put_of_makes hu hmu
  obtain ⟨e', hlast⟩ := exists_lastPut past hput hno
  -- So the key is filled when the loader is asked for it again.
  have hsplit' : (empty id policy loader).history calls = (past ++ u :: between) ++ w :: later := by
    rw [hsplit]
    simp
  obtain ⟨before, call, after, -, hpast, rfl⟩ := history_eq_append hsplit'
  rw [hpast, ← value?_iff_lastPut] at hlast
  have hempty := ((Turn.taken_turn _ call).asking hw).1
  cases hlast.symm.trans hempty

theorem filled_history (key : String) : ((empty id policy loader).performAll calls).2.contains key = true ↔
    ∃ e, LastPut key e ((empty id policy loader).history calls) := by
  rw [contains, Dict.has, Option.isSome_iff_exists]
  exact exists_congr fun e => value?_iff_lastPut id policy loader calls key e

/-- The size of a sorted store is the number of the keys that it contains. -/
theorem size_eq_card {s : Store α} (hs : s.entries.Sorted) :
    ∃ keys : Finset String, (∀ key, key ∈ keys ↔ s.contains key = true) ∧ s.size = keys.card := by
  refine ⟨(s.entries.map (·.1)).toFinset, fun key => ?_, ?_⟩
  · rw [List.mem_toFinset, contains, Dict.has, Option.isSome_iff_exists]
    constructor
    · intro hmem
      obtain ⟨entry, he, rfl⟩ := List.mem_map.1 hmem
      exact ⟨entry.2, hs.value?_of_mem he⟩
    · rintro ⟨e, he⟩
      exact List.mem_map.2 ⟨(key, e), Dict.mem_of_value? he, rfl⟩
  · rw [List.toFinset_card_of_nodup hs.nodup, List.length_map]
    rfl

/-- A thread that makes the calls ends, as the calls do and with no other slots. -/
theorem slots_history : (∃ m, Machine.Reaches (Machine.ofStore (empty id policy loader) [calls]) m ∧ m.isDone = true) ∧
    ∀ m, Machine.Reaches (Machine.ofStore (empty id policy loader) [calls]) m → m.isDone = true →
      m.finished.map (·.call) = calls ∧
        m.finished.map (·.reply) = ((empty id policy loader).history calls).map (·.reply) ∧
          m.toStore = ((empty id policy loader).performAll calls).2 ∧
            m.shared.map.length = ((empty id policy loader).performAll calls).2.size := by
  have hform := formed_ofStore (empty id policy loader) []
  have hserving : Machine.ofStore (empty id policy loader) [calls] =
      (Machine.ofStore (empty id policy loader) []).serving calls := rfl
  rw [hserving]
  refine ⟨(hform.serving rfl calls).exists_isDone, fun m hr hd => ?_⟩
  obtain ⟨hreplies, hstore⟩ := hform.serving_isDone rfl .nil hr hd
  obtain ⟨keys, hm⟩ := (hform.serving rfl calls).reaches hr
  have hsorted : m.shared.map.Sorted := sorted_of_reaches .nil hr
  have hcalls := Machine.calls_of_isDone hd
  rw [Machine.calls_of_reaches hr] at hcalls
  refine ⟨?_, hreplies.trans (history_replies _ _).symm, hstore, ?_⟩
  · rw [hcalls]
    simp [Machine.serving, Machine.calls, Thread.allCalls]
  · rw [← hm.size_of_isQuiet hsorted (Machine.isQuiet_of_isDone hd), hstore]
    rfl

/-- **The law of stores**, for every policy, every loader and all calls. -/
theorem obeysLaw_empty : (empty id policy loader).ObeysLaw calls := by
  refine ⟨asked_history id policy loader calls, kept_history id policy loader calls,
    fun past u later key create e hsplit hc => returned_history id policy loader calls hsplit hc,
    fun u hu key object hg => (Turn.taken_of_mem hu).given hg,
    fun past u later key e hsplit hu w hw name e' hw' => fresh_history id policy loader calls hsplit hu hw hw',
    fun past u between w later key hsplit hu hmu hw _ => apart_history id policy loader calls hsplit hu hmu hw,
    fun u hu key hk hm => ?_, fun u hu => (Turn.taken_of_mem hu).told.1, fun u hu => (Turn.taken_of_mem hu).told.2,
    filled_history id policy loader calls, materialized_history id policy loader calls,
    size_eq_card (sorted_history id policy loader calls), slots_history id policy loader calls⟩
  obtain ⟨hreply, hafter⟩ := (Turn.taken_of_mem hu).missed hk hm
  rw [hafter]
  exact ⟨hreply, fun name => rfl, rfl, rfl⟩

end Store

end CacheScript
