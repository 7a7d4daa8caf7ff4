/-
Sessions whose stores have steady loaders. At each place a row of loads comes
to the loads of the store at that place (`Session.stores_loadAll`), so what
holds of loads from one store, in whatever order, holds of loads from a session.
-/
import CacheScript.Proofs.Store.Steady
import CacheScript.Session

namespace CacheScript.Session

/-- No loader answers by more than the key. -/
def IsSteady (S : Session) : Prop :=
  ∀ s ∈ S.stores, s.loader.IsSteady

/-- The record that a load finds, or makes if it may. -/
def answer? (S : Session) (ref : StoreRef) (key : String) : Option Record :=
  (S.load ref key true).1

/-- The session after such a load. -/
def loaded (S : Session) (load : StoreRef × String) : Session :=
  (S.load load.1 load.2 true).2.1

/-- The session after a row of loads. -/
def loadAll (S : Session) (loads : List (StoreRef × String)) : Session :=
  loads.foldl loaded S

/-- At each place there is no store in either session, or one in both, and these
are related. -/
def Placewise (r : Store Record → Store Record → Prop) (S T : Session) : Prop :=
  ∀ place : Nat, S.stores[place]? = none ∧ T.stores[place]? = none ∨
    ∃ s t, S.stores[place]? = some s ∧ T.stores[place]? = some t ∧ r s t

/-- Two sessions have the same stores, but for the numbers of their objects and
the order in which their loaders were called. -/
def Alike : Session → Session → Prop :=
  Placewise Store.Alike

/-- A run cannot tell these sessions apart. -/
structure AnswersAs (S T : Session) : Prop where
  find? : ∀ id, S.find? id = T.find? id
  answer? : ∀ ref key, S.answer? ref key = T.answer? ref key

variable {S T U : Session}

theorem AnswersAs.refl (S : Session) : S.AnswersAs S :=
  ⟨fun _ => rfl, fun _ _ => rfl⟩

theorem AnswersAs.symm (h : S.AnswersAs T) : T.AnswersAs S :=
  ⟨fun id => (h.find? id).symm, fun ref key => (h.answer? ref key).symm⟩

theorem AnswersAs.trans (h : S.AnswersAs T) (h' : T.AnswersAs U) : S.AnswersAs U :=
  ⟨fun id => (h.find? id).trans (h'.find? id), fun ref key => (h.answer? ref key).trans (h'.answer? ref key)⟩

/-! ## Places -/

/-- The keys that are loaded from the store at a place. -/
def keysAt (place : Nat) (loads : List (StoreRef × String)) : List String :=
  loads.filterMap fun load => if load.1.place = place then some load.2 else none

theorem answer?_eq (S : Session) (ref : StoreRef) (key : String) :
    S.answer? ref key = (S.stores[ref.place]?).bind fun s => s.answer? key := by
  rw [answer?, load, store?]
  cases S.stores[ref.place]? <;> rfl

theorem stores_loaded (S : Session) (load : StoreRef × String) (place : Nat) : (S.loaded load).stores[place]? =
    (S.stores[place]?).map fun s => if load.1.place = place then s.loaded load.2 else s := by
  rw [loaded, Session.load, store?]
  by_cases hp : load.1.place = place
  · subst hp
    simp only [if_true]
    cases hs : S.stores[load.1.place]? with
    | none => exact hs
    | some s =>
      have hlt : load.1.place < S.stores.length := (List.getElem?_eq_some_iff.1 hs).1
      exact List.getElem?_set_self hlt
  · simp only [if_neg hp, Option.map_id']
    cases S.stores[load.1.place]? with
    | none => rfl
    | some s => exact List.getElem?_set_ne hp

theorem keysAt_cons (place : Nat) (load : StoreRef × String) (loads : List (StoreRef × String)) :
    keysAt place (load :: loads) =
      if load.1.place = place then load.2 :: keysAt place loads else keysAt place loads := by
  rw [keysAt, List.filterMap_cons]
  by_cases hp : load.1.place = place
  · rw [if_pos hp, if_pos hp]
    rfl
  · rw [if_neg hp, if_neg hp]
    rfl

theorem keysAt_append (place : Nat) (loads more : List (StoreRef × String)) :
    keysAt place (loads ++ more) = keysAt place loads ++ keysAt place more :=
  List.filterMap_append

theorem stores_loadAll (S : Session) (loads : List (StoreRef × String)) (place : Nat) :
    (S.loadAll loads).stores[place]? = (S.stores[place]?).map fun s => s.loadAll (keysAt place loads) := by
  induction loads generalizing S with
  | nil =>
    have hsame : (fun s : Store Record => s.loadAll (keysAt place [])) = id := rfl
    rw [hsame, Option.map_id]
    rfl
  | cons load loads ih =>
    refine (ih (S.loaded load)).trans ?_
    rw [stores_loaded, Option.map_map, keysAt_cons]
    congr 1
    funext s
    by_cases hp : load.1.place = place
    · simp only [Function.comp_apply, if_pos hp]
      rfl
    · simp only [Function.comp_apply, if_neg hp]

theorem loadAll_append (S : Session) (loads more : List (StoreRef × String)) :
    S.loadAll (loads ++ more) = (S.loadAll loads).loadAll more :=
  List.foldl_append

/-! ## What a run sees -/

/-- Which store is registered under an id is up to the ids. -/
theorem findFrom_congr (id : String) : ∀ {stores stores' : List (Store Record)} (place : Nat),
    stores.map (·.id) = stores'.map (·.id) → findFrom id place stores = findFrom id place stores'
  | [], [], _, _ => rfl
  | s :: stores, s' :: stores', place, h => by
    obtain ⟨hid, hids⟩ := List.cons.inj h
    have hid : s.id = s'.id := hid
    rw [findFrom, findFrom, findFrom_congr id (place + 1) hids, hid]

theorem answersAs_of_placewise
    (h : Placewise (fun s t => s.id = t.id ∧ ∀ key, s.answer? key = t.answer? key) S T) : S.AnswersAs T := by
  refine ⟨fun id => findFrom_congr id 0 ?_, fun ref key => ?_⟩
  · refine List.ext_getElem? fun place => ?_
    rw [List.getElem?_map, List.getElem?_map]
    rcases h place with ⟨hs, ht⟩ | ⟨s, t, hs, ht, hst⟩
    · rw [hs, ht]
    · rw [hs, ht, Option.map_some, Option.map_some, hst.1]
  · rw [answer?_eq, answer?_eq]
    rcases h ref.place with ⟨hs, ht⟩ | ⟨s, t, hs, ht, hst⟩
    · rw [hs, ht]
    · rw [hs, ht, Option.bind_some, Option.bind_some, hst.2 key]

theorem steady_at (hS : S.IsSteady) {place : Nat} {s : Store Record} (hs : S.stores[place]? = some s) :
    s.loader.IsSteady :=
  hS s (List.mem_of_getElem? hs)

theorem steady_loadAll (hS : S.IsSteady) (loads : List (StoreRef × String)) : (S.loadAll loads).IsSteady := by
  intro t ht
  obtain ⟨place, hplace⟩ := List.mem_iff_getElem?.1 ht
  rw [stores_loadAll] at hplace
  obtain ⟨s, hs, rfl⟩ := Option.map_eq_some_iff.1 hplace
  rw [Store.loader_loadAll]
  exact steady_at hS hs

/-- Sessions made of one session by loads. -/
theorem placewise_loadAll {r : Store Record → Store Record → Prop} (loads loads' : List (StoreRef × String))
    (hr : ∀ s ∈ S.stores, ∀ place, r (s.loadAll (keysAt place loads)) (s.loadAll (keysAt place loads'))) :
    Placewise r (S.loadAll loads) (S.loadAll loads') := by
  intro place
  rw [stores_loadAll, stores_loadAll]
  cases hs : S.stores[place]? with
  | none => exact .inl ⟨rfl, rfl⟩
  | some s => exact .inr ⟨_, _, rfl, rfl, hr s (List.mem_of_getElem? hs) place⟩

/-- What a run sees of a steady session does not depend on the loads before it. -/
theorem answersAs_loadAll (hS : S.IsSteady) (loads : List (StoreRef × String)) : S.AnswersAs (S.loadAll loads) :=
  answersAs_of_placewise <| placewise_loadAll [] loads fun s hs _ =>
    ⟨(s.id_loadAll _).symm, fun key => (Store.answer?_loadAll (hS s hs) _ key).symm⟩

theorem Alike.answersAs (h : S.Alike T) (hS : S.IsSteady) : S.AnswersAs T := by
  refine answersAs_of_placewise fun place => (h place).imp id ?_
  rintro ⟨s, t, hs, ht, hst⟩
  have hsteady := steady_at hS hs
  exact ⟨s, t, hs, ht, hst.id, fun key => Store.answer?_congr hsteady hst.loader hst.policy (hst.objects key)⟩

/-! ## Order -/

theorem Alike.refl (S : Session) : S.Alike S := by
  intro place
  cases hs : S.stores[place]? with
  | none => exact .inl ⟨rfl, rfl⟩
  | some s => exact .inr ⟨s, s, rfl, rfl, .refl s⟩

theorem Alike.trans (h : S.Alike T) (h' : T.Alike U) : S.Alike U := by
  intro place
  rcases h place with ⟨hs, ht⟩ | ⟨s, t, hs, ht, hst⟩ <;> rcases h' place with ⟨ht', hu⟩ | ⟨t', u, ht', hu, htu⟩
  · exact .inl ⟨hs, hu⟩
  · rw [ht] at ht'
    cases ht'
  · rw [ht] at ht'
    cases ht'
  · rw [ht] at ht'
    cases ht'
    exact .inr ⟨s, u, hs, hu, hst.trans htu⟩

theorem Alike.steady (h : S.Alike T) (hS : S.IsSteady) : T.IsSteady := by
  intro t ht
  obtain ⟨place, hplace⟩ := List.mem_iff_getElem?.1 ht
  rcases h place with ⟨-, ht'⟩ | ⟨s, t', hs, ht', hst⟩
  · rw [hplace] at ht'
    cases ht'
  · rw [hplace] at ht'
    cases ht'
    rw [← hst.loader]
    exact steady_at hS hs

theorem Alike.loadAll (h : S.Alike T) (hS : S.IsSteady) (loads : List (StoreRef × String)) :
    (S.loadAll loads).Alike (T.loadAll loads) := by
  intro place
  rw [stores_loadAll, stores_loadAll]
  rcases h place with ⟨hs, ht⟩ | ⟨s, t, hs, ht, hst⟩
  · rw [hs, ht]
    exact .inl ⟨rfl, rfl⟩
  · rw [hs, ht]
    exact .inr ⟨_, _, rfl, rfl, hst.loadAll (steady_at hS hs) _⟩

/-- **Loads from a steady session can be made in any order.** -/
theorem loadAll_perm (hS : S.IsSteady) {loads loads' : List (StoreRef × String)} (h : loads.Perm loads') :
    (S.loadAll loads).Alike (S.loadAll loads') :=
  placewise_loadAll loads loads' fun s hs _ => Store.loadAll_perm (hS s hs) (h.filterMap _)

end CacheScript.Session
