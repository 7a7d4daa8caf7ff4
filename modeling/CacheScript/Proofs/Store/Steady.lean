/-
Stores whose loaders answer by the key alone. What a load finds does not depend
on the loads before it, so loads can be made in any order. They find the same
objects, and leave stores that differ in the numbers of their objects and in
the order of the calls of the loader, but in nothing else (`Store.loadAll_perm`).
-/
import CacheScript.Proofs.Store.History

namespace CacheScript

variable {α : Type}

/-- The answers depend on the key alone. -/
def Loader.IsSteady (loader : Loader α) : Prop :=
  ∀ past past' key, loader past key = loader past' key

/-- The object of an answer that is one. -/
def Answer.object? : Answer α → Option α
  | .found object => some object
  | _ => none

namespace Store

/-- The object under a key, whatever its number. -/
def object? (s : Store α) (key : String) : Option α :=
  (s.entries.value? key).map (·.object)

/-- The object that a load finds, or makes if it may. -/
def answer? (s : Store α) (key : String) : Option α :=
  (s.load key true).found.map (·.object)

/-- The store after such a load. -/
def loaded (s : Store α) (key : String) : Store α :=
  (s.load key true).store

/-- The store after loads of some keys. -/
def loadAll (s : Store α) (keys : List String) : Store α :=
  keys.foldl loaded s

/-- Two stores are the same, but for the numbers of their objects and the order
in which their loader was called. -/
structure Alike (s t : Store α) : Prop where
  id : s.id = t.id
  policy : s.policy = t.policy
  loader : s.loader = t.loader
  objects : ∀ key, s.object? key = t.object? key
  materialized : s.materialized = t.materialized
  calls : s.calls.Perm t.calls

namespace Alike

variable {s t u : Store α}

theorem refl (s : Store α) : s.Alike s :=
  ⟨rfl, rfl, rfl, fun _ => rfl, rfl, .refl _⟩

theorem trans (h : s.Alike t) (h' : t.Alike u) : s.Alike u :=
  ⟨h.id.trans h'.id, h.policy.trans h'.policy, h.loader.trans h'.loader,
    fun key => (h.objects key).trans (h'.objects key), h.materialized.trans h'.materialized, h.calls.trans h'.calls⟩

end Alike

/-! ## One load -/

theorem answer?_eq (s : Store α) (key : String) : s.answer? key =
    (s.object? key).or (if s.policy = .createIfAbsent then (s.loader s.calls key).object? else none) := by
  rw [answer?, load, object?]
  cases s.entries.value? key with
  | some e => rfl
  | none =>
    by_cases hp : s.policy = .createIfAbsent
    · rw [if_pos hp]
      simp only [hp, and_self, if_true, materialize]
      cases s.loader s.calls key <;> rfl
    · rw [if_neg hp]
      simp only [hp, and_false, if_false]
      rfl

theorem asked_loaded (s : Store α) (key : String) :
    (s.loaded key).calls = s.calls ++ (s.turn (.load key true)).asks?.toList :=
  (Turn.taken_load s key true).asked

theorem materialized_loaded (s : Store α) (key : String) :
    (s.loaded key).materialized = s.materialized + if (s.turn (.load key true)).makes then 1 else 0 :=
  (Turn.taken_load s key true).materialized

theorem policy_loaded (s : Store α) (key : String) : (s.loaded key).policy = s.policy :=
  (Turn.taken_load s key true).kept.1

theorem loader_loaded (s : Store α) (key : String) : (s.loaded key).loader = s.loader :=
  (Turn.taken_load s key true).kept.2

theorem id_loaded (s : Store α) (key : String) : (s.loaded key).id = s.id := by
  rw [loaded, load]
  split
  · rfl
  · split
    · rw [materialize]
      split <;> rfl
    · rfl

theorem object?_loaded (s : Store α) (key other : String) :
    (s.loaded key).object? other = if other = key then s.answer? key else s.object? other := by
  have keep {x : Option α} (hx : s.object? key = x) :
      s.object? other = if other = key then x else s.object? other := by
    split
    · rename_i ho
      rw [ho, hx]
    · rfl
  rw [answer?, loaded, load]
  cases he : s.entries.value? key with
  | some e => exact keep (by rw [object?, he])
  | none =>
    have hnone : s.object? key = none := by rw [object?, he]; rfl
    by_cases hp : s.policy = .createIfAbsent
    · simp only [hp, and_self, if_true, materialize]
      cases s.loader s.calls key with
      | found object =>
        simp only [object?, insert, Dict.value?_put]
        split <;> rfl
      | absent => exact keep hnone
      | failed causes => exact keep hnone
    · simp only [hp, and_false, if_false]
      exact keep hnone

theorem asks?_load {s : Store α} {key name : String} : (s.turn (.load key true)).asks? = some name ↔
    name = key ∧ s.policy = .createIfAbsent ∧ s.object? key = none := by
  have hobject : s.object? key = none ↔ s.contains key = false := by simp [object?, contains, Dict.has]
  simp only [Turn.asks?, turn, hobject, true_and]
  split
  · rename_i h
    simp [h, eq_comm (a := name)]
  · rename_i h
    simp [h]

/-- What a load asks for depends on the policy and on what is under its key. -/
theorem asks?_congr {s t : Store α} (hp : s.policy = t.policy) {key : String} (ho : s.object? key = t.object? key) :
    (s.turn (.load key true)).asks? = (t.turn (.load key true)).asks? := by
  refine Option.ext fun name => ?_
  rw [asks?_load, asks?_load, hp, ho]

/-- And so does what it makes, if the loader is steady. -/
theorem makes_congr {s t : Store α} (hs : s.loader.IsSteady) (hl : s.loader = t.loader) (hp : s.policy = t.policy)
    {key : String} (ho : s.object? key = t.object? key) :
    (s.turn (.load key true)).makes = (t.turn (.load key true)).makes := by
  rw [Turn.makes, Turn.makes, asks?_congr hp ho]
  congr 1
  funext name
  show (s.loader s.calls name).isFound = (t.loader t.calls name).isFound
  rw [← hl, hs s.calls t.calls]

theorem answer?_congr {s t : Store α} (hs : s.loader.IsSteady) (hl : s.loader = t.loader) (hp : s.policy = t.policy)
    {key : String} (ho : s.object? key = t.object? key) : s.answer? key = t.answer? key := by
  rw [answer?_eq, answer?_eq, hp, ho, ← hl, hs s.calls t.calls]

theorem steady_loaded {s : Store α} (hs : s.loader.IsSteady) (key : String) : (s.loaded key).loader.IsSteady := by
  rw [loader_loaded]
  exact hs

/-- What a load finds does not depend on the load before it. -/
theorem answer?_loaded {s : Store α} (hs : s.loader.IsSteady) (key other : String) :
    (s.loaded key).answer? other = s.answer? other := by
  by_cases ho : other = key
  · subst ho
    rw [answer?_eq (s.loaded other), object?_loaded, if_pos rfl, policy_loaded, loader_loaded, hs _ s.calls,
      answer?_eq, Option.or_assoc, Option.or_self]
  · have hobject : (s.loaded key).object? other = s.object? other := by rw [object?_loaded, if_neg ho]
    exact answer?_congr (steady_loaded hs key) (s.loader_loaded key) (s.policy_loaded key) hobject

theorem Alike.loaded {s t : Store α} (h : s.Alike t) (hs : s.loader.IsSteady) (key : String) :
    (s.loaded key).Alike (t.loaded key) := by
  refine ⟨?_, ?_, ?_, fun other => ?_, ?_, ?_⟩
  · rw [id_loaded, id_loaded, h.id]
  · rw [policy_loaded, policy_loaded, h.policy]
  · rw [loader_loaded, loader_loaded, h.loader]
  · rw [object?_loaded, object?_loaded, h.objects, answer?_congr hs h.loader h.policy (h.objects key)]
  · rw [materialized_loaded, materialized_loaded, h.materialized,
      makes_congr hs h.loader h.policy (h.objects key)]
  · rw [asked_loaded, asked_loaded, asks?_congr h.policy (h.objects key)]
    exact h.calls.append_right _

/-- Two loads can change places. -/
theorem loaded_loaded {s : Store α} (hs : s.loader.IsSteady) (key other : String) :
    ((s.loaded key).loaded other).Alike ((s.loaded other).loaded key) := by
  by_cases ho : other = key
  · rw [ho]
    exact .refl _
  have hne : key ≠ other := fun h => ho h.symm
  have hobject : (s.loaded key).object? other = s.object? other := by rw [object?_loaded, if_neg ho]
  have hobject' : (s.loaded other).object? key = s.object? key := by rw [object?_loaded, if_neg hne]
  have hasks := asks?_congr (s.policy_loaded key) hobject
  have hasks' := asks?_congr (s.policy_loaded other) hobject'
  have hmakes := makes_congr (steady_loaded hs key) (s.loader_loaded key) (s.policy_loaded key) hobject
  have hmakes' := makes_congr (steady_loaded hs other) (s.loader_loaded other) (s.policy_loaded other) hobject'
  refine ⟨?_, ?_, ?_, fun name => ?_, ?_, ?_⟩
  · rw [id_loaded, id_loaded, id_loaded, id_loaded]
  · rw [policy_loaded, policy_loaded, policy_loaded, policy_loaded]
  · rw [loader_loaded, loader_loaded, loader_loaded, loader_loaded]
  · rw [object?_loaded, object?_loaded, object?_loaded, object?_loaded, answer?_loaded hs, answer?_loaded hs]
    by_cases hn : name = other
    · subst hn
      rw [if_pos rfl, if_neg ho, if_pos rfl]
    · rw [if_neg hn, if_neg hn]
  · rw [materialized_loaded, materialized_loaded, materialized_loaded, materialized_loaded, hmakes, hmakes']
    omega
  · rw [asked_loaded, asked_loaded, asked_loaded, asked_loaded, hasks, hasks', List.append_assoc, List.append_assoc]
    exact List.perm_append_comm.append_left _

/-! ## Loads in a row -/

theorem loadAll_append (s : Store α) (keys more : List String) :
    s.loadAll (keys ++ more) = (s.loadAll keys).loadAll more :=
  List.foldl_append

theorem loader_loadAll (s : Store α) (keys : List String) : (s.loadAll keys).loader = s.loader := by
  induction keys generalizing s with
  | nil => rfl
  | cons key keys ih => exact (ih (s.loaded key)).trans (s.loader_loaded key)

theorem id_loadAll (s : Store α) (keys : List String) : (s.loadAll keys).id = s.id := by
  induction keys generalizing s with
  | nil => rfl
  | cons key keys ih => exact (ih (s.loaded key)).trans (s.id_loaded key)

theorem answer?_loadAll {s : Store α} (hs : s.loader.IsSteady) (keys : List String) (key : String) :
    (s.loadAll keys).answer? key = s.answer? key := by
  induction keys generalizing s with
  | nil => rfl
  | cons first keys ih => exact (ih (steady_loaded hs first)).trans (answer?_loaded hs first key)

theorem Alike.loadAll {s t : Store α} (h : s.Alike t) (hs : s.loader.IsSteady) (keys : List String) :
    (s.loadAll keys).Alike (t.loadAll keys) := by
  induction keys generalizing s t with
  | nil => exact h
  | cons key keys ih => exact ih (h.loaded hs key) (steady_loaded hs key)

/-- **Loads can be made in any order.** -/
theorem loadAll_perm {s : Store α} (hs : s.loader.IsSteady) {keys keys' : List String} (h : keys.Perm keys') :
    (s.loadAll keys).Alike (s.loadAll keys') := by
  induction h generalizing s with
  | nil => exact .refl s
  | cons key _ ih => exact ih (steady_loaded hs key)
  | swap key other keys =>
    exact (loaded_loaded hs other key).loadAll (steady_loaded (steady_loaded hs other) key) keys
  | trans _ _ ih ih' => exact (ih hs).trans (ih' hs)

end Store

end CacheScript
