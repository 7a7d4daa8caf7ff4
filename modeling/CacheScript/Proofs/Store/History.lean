/-
Calls of a store in a row, each with the store before and after it and what it
was answered (`Turn`). What a call can come to is said case by case
(`Turn.Taken`), and what is under a key after all of them is what was put there
last, unless it was dropped since (`Store.value?_iff_lastPut`).
-/
import CacheScript.Dict.Sorted
import CacheScript.Store.Call
import Mathlib.Data.List.Induction

namespace CacheScript

variable {α : Type}

/-- The answer is an object. -/
def Answer.isFound : Answer α → Bool
  | .found _ => true
  | _ => false

/-- How many of these calls, made in this order after those, the loader answers
with an object. -/
def Loader.finds (loader : Loader α) (past : List String) : List String → Nat
  | [] => 0
  | key :: keys => (if (loader past key).isFound then 1 else 0) + loader.finds (past ++ [key]) keys

theorem Loader.finds_snoc (loader : Loader α) (past keys : List String) (key : String) :
    loader.finds past (keys ++ [key]) = loader.finds past keys + if (loader (past ++ keys) key).isFound then 1 else 0 := by
  induction keys generalizing past with
  | nil => simp [finds]
  | cons first keys ih =>
    simp only [List.cons_append, finds, ih, List.append_assoc, List.nil_append]
    omega

theorem Answer.isFound_eq_false {answer : Answer α} :
    answer.isFound = false ↔ ∀ object, answer ≠ .found object := by
  cases answer <;> simp [isFound]

/-- A call in a row of calls, with the store before and after it. -/
structure Turn (α : Type) where
  before : Store α
  call : Call α
  reply : Reply α
  after : Store α

namespace Turn

/-- The key that a load asks the loader for: one that it may create, and that
is not filled. -/
def asks? (u : Turn α) : Option String :=
  match u.call with
  | .load key create =>
    if create = true ∧ u.before.policy = .createIfAbsent ∧ u.before.contains key = false then some key else none
  | _ => none

/-- The loader has an object for the key that it is asked for. -/
def makes (u : Turn α) : Bool :=
  u.asks?.any fun key => (u.before.loader u.before.calls key).isFound

/-- The object that an insertion or the loader puts under a key. -/
def put? (u : Turn α) (key : String) : Option (Entry α) :=
  match u.call, u.reply with
  | .insert name _, .inserted e => if name = key then some e else none
  | .load _ _, .loaded found => if u.asks? = some key then found else none
  | _, _ => none

/-- An expiry of the key that answers true, or a clear. -/
def drops (u : Turn α) (key : String) : Bool :=
  match u.call, u.reply with
  | .expire name, .expired true => name = key
  | .clear, _ => true
  | _, _ => false

end Turn

namespace Store

/-- The turn in which a store is called. -/
def turn (s : Store α) (call : Call α) : Turn α :=
  ⟨s, call, (s.perform call).reply, (s.perform call).store⟩

/-- The turns in which calls are made one after another. -/
def history (s : Store α) : List (Call α) → List (Turn α)
  | [] => []
  | call :: calls => s.turn call :: (s.perform call).store.history calls

theorem performAll_snoc (s : Store α) (calls : List (Call α)) (call : Call α) :
    s.performAll (calls ++ [call]) = ((s.performAll calls).1 ++ [((s.performAll calls).2.perform call).reply],
      ((s.performAll calls).2.perform call).store) := by
  induction calls generalizing s with
  | nil => rfl
  | cons first calls ih =>
    simp only [List.cons_append, Store.performAll, ih]

theorem history_snoc (s : Store α) (calls : List (Call α)) (call : Call α) :
    s.history (calls ++ [call]) = s.history calls ++ [(s.performAll calls).2.turn call] := by
  induction calls generalizing s with
  | nil => rfl
  | cons first calls ih => simp only [List.cons_append, history, performAll, ih]

theorem history_replies (s : Store α) (calls : List (Call α)) :
    (s.history calls).map (·.reply) = (s.performAll calls).1 := by
  induction calls generalizing s with
  | nil => rfl
  | cons call calls ih => simp only [history, performAll, List.map_cons, ih, turn]

/-- A turn comes after those of the calls before its own. -/
theorem history_eq_append {s : Store α} {calls : List (Call α)} {past later : List (Turn α)} {u : Turn α}
    (h : s.history calls = past ++ u :: later) : ∃ before call after, calls = before ++ call :: after ∧
      past = s.history before ∧ u = (s.performAll before).2.turn call := by
  induction calls generalizing s past with
  | nil => simp [history] at h
  | cons call calls ih =>
    rw [history] at h
    cases past with
    | nil =>
      obtain ⟨hu, -⟩ := List.cons.inj h
      exact ⟨[], call, calls, rfl, rfl, hu.symm⟩
    | cons first past =>
      obtain ⟨hfirst, hrest⟩ := List.cons.inj h
      obtain ⟨before, next, after, hcalls, hpast, hu⟩ := ih hrest
      refine ⟨call :: before, next, after, by rw [hcalls]; rfl, ?_, hu⟩
      rw [history, ← hfirst, hpast]

/-- What holds at first and is kept by each call holds after all of them. -/
theorem history_induction {s : Store α} {P : List (Turn α) → Store α → Prop} (start : P [] s)
    (step : ∀ {turns σ} call, P turns σ → P (turns ++ [σ.turn call]) (σ.perform call).store) (calls : List (Call α)) :
    P (s.history calls) (s.performAll calls).2 := by
  induction calls using List.reverseRecOn with
  | nil => exact start
  | append_singleton calls call ih =>
    rw [history_snoc, performAll_snoc]
    exact step call ih

/-! ## One call -/

section

variable {σ : Store α} {key : String}

theorem perform_held {create : Bool} {e : Entry α} (h : σ.entries.value? key = some e) :
    σ.perform (.load key create) = ⟨.loaded (some e), σ, []⟩ := by
  simp only [Store.perform, Store.load, h]

theorem perform_absent {create : Bool} (h : σ.entries.value? key = none)
    (hno : ¬ (create = true ∧ σ.policy = .createIfAbsent)) :
    σ.perform (.load key create) = ⟨.loaded none, σ, []⟩ := by
  simp only [Store.perform, Store.load, h, if_neg hno]

theorem perform_made (h : σ.entries.value? key = none) (hp : σ.policy = .createIfAbsent) {object : α}
    (ha : σ.loader σ.calls key = .found object) : ∃ lines, σ.perform (.load key true) =
      ⟨.loaded (some ⟨σ.made, object⟩), { σ with
        entries := σ.entries.put key ⟨σ.made, object⟩, made := σ.made + 1, materialized := σ.materialized + 1
        calls := σ.calls ++ [key] }, lines⟩ := by
  refine ⟨[(σ.loader σ.calls key).line σ.id key], ?_⟩
  simp only [Store.perform, Store.load, h, hp, and_self, if_true, Store.materialize, ha, Store.insert]

theorem perform_missed (h : σ.entries.value? key = none) (hp : σ.policy = .createIfAbsent)
    (ha : ∀ object, σ.loader σ.calls key ≠ .found object) : ∃ lines, σ.perform (.load key true) =
      ⟨.loaded none, { σ with calls := σ.calls ++ [key] }, lines⟩ := by
  refine ⟨[(σ.loader σ.calls key).line σ.id key], ?_⟩
  simp only [Store.perform, Store.load, h, hp, and_self, if_true, Store.materialize]

end

end Store

namespace Turn

/-- What a call of a store can come to. -/
inductive Taken : Turn α → Prop
  | hit {s : Store α} {key : String} {create : Bool} {e : Entry α} (he : s.entries.value? key = some e) :
      Taken ⟨s, .load key create, .loaded (some e), s⟩
  | miss {s : Store α} {key : String} {create : Bool} (he : s.entries.value? key = none)
      (hno : ¬ (create = true ∧ s.policy = .createIfAbsent)) : Taken ⟨s, .load key create, .loaded none, s⟩
  | make {s : Store α} {key : String} {object : α} (he : s.entries.value? key = none)
      (hp : s.policy = .createIfAbsent) (ha : s.loader s.calls key = .found object) :
      Taken ⟨s, .load key true, .loaded (some ⟨s.made, object⟩), { s with
        entries := s.entries.put key ⟨s.made, object⟩, made := s.made + 1, materialized := s.materialized + 1
        calls := s.calls ++ [key] }⟩
  | lack {s : Store α} {key : String} (he : s.entries.value? key = none) (hp : s.policy = .createIfAbsent)
      (ha : ∀ object, s.loader s.calls key ≠ .found object) :
      Taken ⟨s, .load key true, .loaded none, { s with calls := s.calls ++ [key] }⟩
  | insert {s : Store α} {key : String} {object : α} :
      Taken ⟨s, .insert key object, .inserted ⟨s.made, object⟩, (s.insert key object).2⟩
  | expire {s : Store α} {key : String} : Taken ⟨s, .expire key, .expired (s.contains key), (s.expire key).2⟩
  | clear {s : Store α} : Taken ⟨s, .clear, .cleared, s.clear⟩
  | contains {s : Store α} {key : String} : Taken ⟨s, .contains key, .held (s.contains key), s⟩
  | size {s : Store α} : Taken ⟨s, .size, .counted s.size, s⟩

theorem taken_load (s : Store α) (key : String) (create : Bool) : (s.turn (.load key create)).Taken := by
  rw [Store.turn]
  cases he : s.entries.value? key with
  | some e =>
    rw [Store.perform_held he]
    exact .hit he
  | none =>
    by_cases hc : create = true ∧ s.policy = .createIfAbsent
    · obtain ⟨rfl, hp⟩ := hc
      by_cases ha : ∃ object, s.loader s.calls key = .found object
      · obtain ⟨object, ha⟩ := ha
        obtain ⟨lines, hperform⟩ := Store.perform_made he hp ha
        rw [hperform]
        exact .make he hp ha
      · have ha : ∀ object, s.loader s.calls key ≠ .found object := not_exists.1 ha
        obtain ⟨lines, hperform⟩ := Store.perform_missed he hp ha
        rw [hperform]
        exact .lack he hp ha
    · rw [Store.perform_absent he hc]
      exact .miss he hc

theorem taken_turn (s : Store α) (call : Call α) : (s.turn call).Taken := by
  cases call with
  | load key create => exact taken_load s key create
  | insert key object => exact .insert
  | expire key => exact .expire
  | clear => exact .clear
  | contains key => exact .contains
  | size => exact .size

theorem taken_of_mem {s : Store α} {calls : List (Call α)} {u : Turn α} (h : u ∈ s.history calls) : u.Taken := by
  obtain ⟨past, later, h⟩ := List.append_of_mem h
  obtain ⟨before, call, after, -, -, rfl⟩ := Store.history_eq_append h
  exact taken_turn _ call

variable {u : Turn α} {s s' : Store α} {key : String} {create : Bool} {reply : Reply α}

theorem asks?_hit {e : Entry α} (he : s.entries.value? key = some e) :
    asks? ⟨s, .load key create, reply, s'⟩ = none := by
  simp [asks?, Store.contains, Dict.has, he]

theorem asks?_miss (hno : ¬ (create = true ∧ s.policy = .createIfAbsent)) :
    asks? ⟨s, .load key create, reply, s'⟩ = none :=
  if_neg fun h => hno ⟨h.1, h.2.1⟩

theorem asks?_empty (he : s.entries.value? key = none) (hp : s.policy = .createIfAbsent) :
    asks? ⟨s, .load key true, reply, s'⟩ = some key := by
  simp [asks?, Store.contains, Dict.has, he, hp]

theorem Taken.asked (h : u.Taken) : u.after.calls = u.before.calls ++ u.asks?.toList := by
  have same (hno : u.asks? = none) : u.before.calls = u.before.calls ++ u.asks?.toList := by
    rw [hno, Option.toList_none, List.append_nil]
  cases h with
  | hit he => exact same (asks?_hit he)
  | miss he hno => exact same (asks?_miss hno)
  | make he hp ha => rw [asks?_empty he hp]; rfl
  | lack he hp ha => rw [asks?_empty he hp]; rfl
  | _ => exact same rfl

theorem Taken.kept (h : u.Taken) : u.after.policy = u.before.policy ∧ u.after.loader = u.before.loader := by
  cases h <;> exact ⟨rfl, rfl⟩

theorem Taken.sorted (h : u.Taken) (hs : u.before.entries.Sorted) : u.after.entries.Sorted := by
  cases h with
  | make => exact hs.put _ _
  | insert => exact hs.put _ _
  | expire => exact hs.remove _
  | clear => exact .nil
  | _ => exact hs

theorem Taken.materialized (h : u.Taken) :
    u.after.materialized = u.before.materialized + if u.makes then 1 else 0 := by
  have same (hno : u.asks? = none) : u.before.materialized = u.before.materialized + if u.makes then 1 else 0 := by
    rw [makes, hno]
    rfl
  cases h with
  | hit he => exact same (asks?_hit he)
  | miss he hno => exact same (asks?_miss hno)
  | make he hp ha =>
    rw [makes, asks?_empty he hp, Option.any_some, ha]
    rfl
  | @lack s key he hp ha =>
    have hno : (s.loader s.calls key).isFound = false := Answer.isFound_eq_false.2 ha
    rw [makes, asks?_empty he hp, Option.any_some, hno]
    rfl
  | _ => exact same rfl

/-- What is under a key after a call. -/
theorem Taken.value? (h : u.Taken) (key : String) : u.after.entries.value? key =
    if u.drops key then none else (u.put? key).or (u.before.entries.value? key) := by
  cases h with
  | hit he => simp [drops, put?, asks?_hit he]
  | miss he hno => simp [drops, put?, asks?_miss hno]
  | @make s name object he hp ha =>
    simp only [drops, put?, asks?_empty he hp, Dict.value?_put, Option.some.injEq, eq_comm (a := key)]
    split <;> rfl
  | lack he hp ha => simp [drops, put?]
  | @insert s name object =>
    simp only [drops, put?, Store.insert, Dict.value?_put, eq_comm (a := key)]
    split <;> rfl
  | @expire s name =>
    have hdrops : drops ⟨s, .expire name, .expired (s.contains name), (s.expire name).2⟩ key = true ↔
        name = key ∧ s.contains name = true := by
      cases hc : s.contains name <;> simp [drops]
    show (s.entries.remove name).value? key = _
    rw [Dict.value?_remove]
    by_cases hk : key = name
    · rw [if_pos hk]
      split
      · rfl
      · rename_i hno
        -- Where nothing is dropped there was nothing.
        have hnone : s.entries.value? key = none := by
          rw [hdrops, not_and] at hno
          simpa [Store.contains, Dict.has, hk] using hno hk.symm
        exact hnone.symm
    · rw [if_neg hk, if_neg fun h => hk (hdrops.1 h).1.symm]
      rfl
  | clear => rfl
  | contains => rfl
  | size => rfl

theorem Taken.made_le (h : u.Taken) : u.before.made ≤ u.after.made := by
  cases h with
  | make => exact Nat.le_succ _
  | insert => exact Nat.le_succ _
  | _ => exact Nat.le_refl _

/-- What is put in gets the next number, and is not dropped by the same call. -/
theorem Taken.put (h : u.Taken) {key : String} {e : Entry α} (hp : u.put? key = some e) :
    e.serial = u.before.made ∧ u.after.made = u.before.made + 1 ∧ u.drops key = false := by
  cases h with
  | hit he => simp [put?, asks?_hit he] at hp
  | miss he hno => simp [put?] at hp
  | make he hpol ha =>
    simp only [put?] at hp
    split at hp
    · cases hp
      exact ⟨rfl, rfl, rfl⟩
    · cases hp
  | lack he hpol ha => simp [put?] at hp
  | insert =>
    simp only [put?] at hp
    split at hp
    · cases hp
      exact ⟨rfl, rfl, rfl⟩
    · cases hp
  | _ => cases hp

/-- A load asks the loader when there is nothing under its key; and the object
that it is answered is put in, or else the loader adds to its calls and to
nothing else. -/
theorem Taken.asking (h : u.Taken) {key : String} (hk : u.asks? = some key) :
    u.before.entries.value? key = none ∧
      ((∃ object, u.before.loader u.before.calls key = .found object ∧
          u.put? key = some ⟨u.before.made, object⟩) ∨
        (∀ object, u.before.loader u.before.calls key ≠ .found object) ∧ u.reply = .loaded none ∧
          u.after = { u.before with calls := u.before.calls ++ [key] }) := by
  cases h with
  | hit he => rw [asks?_hit he] at hk; cases hk
  | miss he hno => rw [asks?_miss hno] at hk; cases hk
  | make he hp ha =>
    rw [asks?_empty he hp] at hk
    cases hk
    exact ⟨he, .inl ⟨_, ha, if_pos (asks?_empty he hp)⟩⟩
  | lack he hp ha =>
    rw [asks?_empty he hp] at hk
    cases hk
    exact ⟨he, .inr ⟨ha, rfl, rfl⟩⟩
  | _ => cases hk

/-- What is given to the store, or answered by the loader, is put in. -/
theorem Taken.given (h : u.Taken) {key : String} {object : α} (hg : u.call = .insert key object ∨
    u.asks? = some key ∧ u.before.loader u.before.calls key = .found object) :
    ∃ e, u.put? key = some e ∧ e.object = object := by
  rcases hg with hc | ⟨hk, ha⟩
  · cases h <;> cases hc
    exact ⟨_, if_pos rfl, rfl⟩
  · obtain ⟨-, ⟨object', ha', hput⟩ | ⟨hno, -⟩⟩ := h.asking hk
    · cases ha'.symm.trans ha
      exact ⟨_, hput, rfl⟩
    · exact absurd ha (hno object)

/-- An object that the loader makes is put in. -/
theorem Taken.put_of_makes (h : u.Taken) {key : String} (hk : u.asks? = some key) (hm : u.makes = true) :
    ∃ e, u.put? key = some e := by
  rw [makes, hk, Option.any_some] at hm
  obtain ⟨-, ⟨object, -, hput⟩ | ⟨hno, -⟩⟩ := h.asking hk
  · exact ⟨_, hput⟩
  · rw [Answer.isFound_eq_false.2 hno] at hm
    cases hm

/-- A loader without an object adds to its calls, and to nothing else. -/
theorem Taken.missed (h : u.Taken) {key : String} (hk : u.asks? = some key) (hm : u.makes = false) :
    u.reply = .loaded none ∧ u.after = { u.before with calls := u.before.calls ++ [key] } := by
  rw [makes, hk, Option.any_some] at hm
  obtain ⟨-, ⟨object, ha, -⟩ | ⟨-, hmissed⟩⟩ := h.asking hk
  · rw [ha] at hm
    cases hm
  · exact hmissed

/-- What the calls that only look, or take out, are answered. -/
theorem Taken.told (h : u.Taken) : (∀ key, u.call = .expire key → u.reply = .expired (u.before.contains key)) ∧
    (∀ key, u.call = .contains key → u.reply = .held (u.before.contains key)) ∧
      (u.call = .size → u.reply = .counted u.before.size) := by
  refine ⟨fun key hc => ?_, fun key hc => ?_, fun hc => ?_⟩
  · cases h <;> cases hc
    rfl
  · cases h <;> cases hc
    rfl
  · cases h <;> cases hc
    rfl

/-- A load returns what is under its key after it. -/
theorem Taken.returned (h : u.Taken) {key : String} {create : Bool} (hc : u.call = .load key create) :
    u.reply = .loaded (u.after.entries.value? key) := by
  cases h with
  | hit he => cases hc; rw [he]
  | miss he hno => cases hc; rw [he]
  | make he hp ha => cases hc; rw [Dict.value?_put_self]
  | lack he hp ha => cases hc; exact congrArg Reply.loaded he.symm
  | _ => cases hc

end Turn

/-! ## Rows of turns -/

/-- The object was put under the key last, and was not dropped since. -/
def LastPut (key : String) (e : Entry α) (turns : List (Turn α)) : Prop :=
  ∃ older u newer, turns = older ++ u :: newer ∧ u.put? key = some e ∧
    ∀ w ∈ newer, w.put? key = none ∧ w.drops key = false

theorem not_lastPut_nil {key : String} {e : Entry α} : ¬ LastPut key e [] := by
  rintro ⟨older, u, newer, h, -⟩
  simp at h

theorem lastPut_snoc {key : String} {e : Entry α} {turns : List (Turn α)} {u : Turn α} :
    LastPut key e (turns ++ [u]) ↔
      u.put? key = some e ∨ u.put? key = none ∧ u.drops key = false ∧ LastPut key e turns := by
  constructor
  · rintro ⟨older, w, newer, h, hw, hnewer⟩
    rcases List.eq_nil_or_concat newer with rfl | ⟨newer, v, rfl⟩
    · obtain ⟨-, hlast⟩ := List.append_inj' h rfl
      cases hlast
      exact .inl hw
    · rw [List.concat_eq_append] at h hnewer
      have happ : older ++ w :: (newer ++ [v]) = (older ++ w :: newer) ++ [v] := by simp
      obtain ⟨hturns, hlast⟩ := List.append_inj' (h.trans happ) rfl
      cases hlast
      obtain ⟨hput, hdrops⟩ := hnewer u (by simp)
      exact .inr ⟨hput, hdrops, older, w, newer, hturns, hw, fun v hv => hnewer v (by simp [hv])⟩
  · rintro (hput | ⟨hput, hdrops, older, w, newer, rfl, hw, hnewer⟩)
    · exact ⟨turns, u, [], rfl, hput, fun w hw => (nomatch hw)⟩
    · refine ⟨older, w, newer ++ [u], by simp, hw, fun v hv => ?_⟩
      rcases List.mem_append.1 hv with hv | hv
      · exact hnewer v hv
      · rw [List.mem_singleton.1 hv]
        exact ⟨hput, hdrops⟩

/-- Once put in, something is under the key for as long as it is not dropped. -/
theorem exists_lastPut {key : String} {e : Entry α} (past : List (Turn α)) {u : Turn α} (hu : u.put? key = some e)
    {since : List (Turn α)} (hno : ∀ w ∈ since, w.drops key = false) : ∃ e, LastPut key e (past ++ u :: since) := by
  induction since using List.reverseRecOn with
  | nil => exact ⟨e, lastPut_snoc.2 (.inl hu)⟩
  | append_singleton since w ih =>
    obtain ⟨e', he'⟩ := ih fun v hv => hno v (List.mem_append_left _ hv)
    have happ : past ++ u :: (since ++ [w]) = (past ++ u :: since) ++ [w] := by simp
    rw [happ]
    cases hw : w.put? key with
    | some e'' => exact ⟨e'', lastPut_snoc.2 (.inl hw)⟩
    | none => exact ⟨e', lastPut_snoc.2 (.inr ⟨hw, hno w (by simp), he'⟩)⟩

namespace Store

/-- **What is under a key** is what was put there last, unless it was dropped since. -/
theorem value?_iff_lastPut (id : String) (policy : Policy) (loader : Loader α) (calls : List (Call α)) (key : String)
    (e : Entry α) : ((empty id policy loader).performAll calls).2.entries.value? key = some e ↔
      LastPut key e ((empty id policy loader).history calls) := by
  have hstart : (empty id policy loader).entries.value? key = some e ↔ LastPut key e [] := by
    constructor
    · intro h
      cases h
    · intro h
      exact (not_lastPut_nil h).elim
  refine history_induction (P := fun turns σ => σ.entries.value? key = some e ↔ LastPut key e turns) hstart
    (fun {turns σ} call ih => ?_) calls
  have htaken := Turn.taken_turn σ call
  have hvalue : (σ.perform call).store.entries.value? key =
      if (σ.turn call).drops key then none else ((σ.turn call).put? key).or (σ.entries.value? key) := htaken.value? key
  rw [lastPut_snoc, hvalue]
  cases hput : (σ.turn call).put? key with
  | some e' =>
    rw [(htaken.put hput).2.2]
    simp
  | none =>
    cases hdrops : (σ.turn call).drops key with
    | true => simp
    | false => simpa using ih

end Store

end CacheScript
