/-
What loads leave behind. They only ever add to a store: an object that is there
stays, and each new one is what the loader answered for its key (`Store.Grows`).
And when the loader answers by the key alone, loads that were all made before
find what they found then, and make nothing (`Store.asksInVain_loadAll`).
-/
import CacheScript.Proofs.Store.Sessions

namespace CacheScript

variable {α : Type}

namespace Store

/-- One store comes of the other by loads alone. -/
structure Grows (s t : Store α) : Prop where
  id : t.id = s.id
  policy : t.policy = s.policy
  loader : t.loader = s.loader
  /-- What is there stays, the same object. -/
  kept : ∀ key e, s.entries.value? key = some e → t.entries.value? key = some e
  /-- What is new the loader answered for its key, in a call that was made since. -/
  added : ∃ asked, t.calls = s.calls ++ asked ∧ ∀ key e, s.entries.value? key = none →
    t.entries.value? key = some e → ∃ earlier later, asked = earlier ++ key :: later ∧
      s.loader (s.calls ++ earlier) key = .found e.object
  lookupOnly : s.policy = .lookupOnly → t = s

/-- The loader was asked for more keys, had an object for none of them, and
nothing else changed. -/
def AsksInVain (s t : Store α) : Prop :=
  ∃ asked, t = { s with calls := s.calls ++ asked } ∧
    ∀ key ∈ asked, ∀ past object, s.loader past key ≠ .found object

/-! ## Growth -/

namespace Grows

variable {s t u : Store α}

theorem refl (s : Store α) : s.Grows s where
  id := rfl
  policy := rfl
  loader := rfl
  kept _ _ h := h
  added := ⟨[], (List.append_nil _).symm, fun key e hs ht => by rw [hs] at ht; cases ht⟩
  lookupOnly _ := rfl

theorem trans (h : s.Grows t) (h' : t.Grows u) : s.Grows u where
  id := h'.id.trans h.id
  policy := h'.policy.trans h.policy
  loader := h'.loader.trans h.loader
  kept key e he := h'.kept key e (h.kept key e he)
  added := by
    obtain ⟨asked, hcalls, hnew⟩ := h.added
    obtain ⟨asked', hcalls', hnew'⟩ := h'.added
    refine ⟨asked ++ asked', by rw [hcalls', hcalls, List.append_assoc], fun key e hs hu => ?_⟩
    cases ht : t.entries.value? key with
    | some e' =>
      -- The first row of loads made it, and the second kept it.
      cases (h'.kept key e' ht).symm.trans hu
      obtain ⟨earlier, later, rfl, ha⟩ := hnew key e hs ht
      exact ⟨earlier, later ++ asked', by simp, ha⟩
    | none =>
      obtain ⟨earlier, later, rfl, ha⟩ := hnew' key e ht hu
      refine ⟨asked ++ earlier, later, by simp, ?_⟩
      rwa [h.loader, hcalls, List.append_assoc] at ha
  lookupOnly hp := (h'.lookupOnly (h.policy.trans hp)).trans (h.lookupOnly hp)

end Grows

end Store

/-- A load adds the object that it makes, if it makes one, and nothing else. -/
theorem Turn.Taken.grows {u : Turn α} (h : u.Taken) {key : String} {create : Bool} (hc : u.call = .load key create) :
    u.before.Grows u.after := by
  cases h with
  | hit he => exact .refl _
  | miss he hno => exact .refl _
  | @make s name object he hp ha =>
    refine ⟨rfl, rfl, rfl, fun other e hs => ?_, ⟨[name], rfl, fun other e hs ht => ?_⟩, fun hl => ?_⟩
    · have hne : other ≠ name := by
        rintro rfl
        rw [he] at hs
        cases hs
      rwa [Dict.value?_put_other _ _ hne]
    · rw [Dict.value?_put] at ht
      split at ht
      · rename_i hn
        cases ht
        exact ⟨[], [], by rw [hn]; rfl, by rwa [hn, List.append_nil]⟩
      · rw [hs] at ht
        cases ht
    · rw [hp] at hl
      cases hl
  | @lack s name he hp ha =>
    refine ⟨rfl, rfl, rfl, fun _ _ hs => hs, ⟨[name], rfl, fun other e hs ht => ?_⟩, fun hl => ?_⟩
    · rw [hs] at ht
      cases ht
    · rw [hp] at hl
      cases hl
  | _ => cases hc

/-- A load makes nothing where what can be found is there already. -/
theorem Turn.Taken.asksInVain {u : Turn α} (h : u.Taken) {key : String} (hc : u.call = .load key true)
    (hs : u.before.loader.IsSteady) (hfound : u.before.object? key = u.before.answer? key) :
    u.before.AsksInVain u.after := by
  have same (s : Store α) : s.AsksInVain s := ⟨[], by rw [List.append_nil], fun _ hk => nomatch hk⟩
  cases h with
  | hit he => exact same _
  | miss he hno => exact same _
  | make he hp ha =>
    cases hc
    rw [Store.answer?_eq, Store.object?, he, if_pos hp, ha] at hfound
    cases hfound
  | @lack s name he hp ha =>
    refine ⟨[name], rfl, fun other ho past object => ?_⟩
    rw [List.mem_singleton.1 ho, hs past s.calls name]
    exact ha object
  | _ => cases hc

namespace Store

theorem grows_loaded (s : Store α) (key : String) : s.Grows (s.loaded key) :=
  (Turn.taken_load s key true).grows rfl

theorem grows_loadAll (s : Store α) (keys : List String) : s.Grows (s.loadAll keys) := by
  induction keys generalizing s with
  | nil => exact .refl s
  | cons key keys ih => exact (s.grows_loaded key).trans (ih (s.loaded key))

/-! ## Loads that were made before -/

theorem AsksInVain.trans {s t u : Store α} (h : s.AsksInVain t) (h' : t.AsksInVain u) : s.AsksInVain u := by
  obtain ⟨asked, rfl, hno⟩ := h
  obtain ⟨asked', rfl, hno'⟩ := h'
  refine ⟨asked ++ asked', by simp only [List.append_assoc], fun key hk => ?_⟩
  exact (List.mem_append.1 hk).elim (hno key) (hno' key)

/-- What was loaded is there, if there is anything to be found for it. -/
theorem object?_loadAll {s : Store α} (hs : s.loader.IsSteady) (keys : List String) (key : String) :
    (s.loadAll keys).object? key = if key ∈ keys then s.answer? key else s.object? key := by
  induction keys generalizing s with
  | nil => rfl
  | cons first keys ih =>
    refine (ih (steady_loaded hs first)).trans ?_
    rw [answer?_loaded hs, object?_loaded]
    by_cases hf : key = first
    · subst hf
      simp
    · simp [hf]

/-- Where what can be found is there already, a load makes nothing. -/
theorem asksInVain_loaded {s : Store α} (hs : s.loader.IsSteady) {key : String} (h : s.object? key = s.answer? key) :
    s.AsksInVain (s.loaded key) :=
  (Turn.taken_load s key true).asksInVain rfl hs h

theorem asksInVain_loadAll_of_found {s : Store α} (hs : s.loader.IsSteady) {keys : List String}
    (h : ∀ key ∈ keys, s.object? key = s.answer? key) : s.AsksInVain (s.loadAll keys) := by
  induction keys generalizing s with
  | nil => exact ⟨[], by simp [loadAll], fun _ hk => nomatch hk⟩
  | cons key keys ih =>
    have hfirst := asksInVain_loaded hs (h key List.mem_cons_self)
    refine hfirst.trans (ih (steady_loaded hs key) fun other ho => ?_)
    -- The load before it took nothing away and found what it finds.
    rw [answer?_loaded hs, object?_loaded]
    split
    · rename_i he
      rw [he]
    · exact h other (List.mem_cons_of_mem _ ho)

/-- **Loads that are made again make nothing.** -/
theorem asksInVain_loadAll {s : Store α} (hs : s.loader.IsSteady) (keys : List String) :
    (s.loadAll keys).AsksInVain ((s.loadAll keys).loadAll keys) := by
  have hs' : (s.loadAll keys).loader.IsSteady := by rwa [loader_loadAll]
  refine asksInVain_loadAll_of_found hs' fun key hk => ?_
  rw [object?_loadAll hs, if_pos hk, answer?_loadAll hs]

end Store

namespace Session

variable {S : Session}

theorem grows_loadAll (loads : List (StoreRef × String)) : Placewise Store.Grows S (S.loadAll loads) :=
  placewise_loadAll [] loads fun s _ _ => s.grows_loadAll _

theorem asksInVain_loadAll (hS : S.IsSteady) (loads : List (StoreRef × String)) :
    Placewise Store.AsksInVain (S.loadAll loads) ((S.loadAll loads).loadAll loads) := by
  rw [← loadAll_append]
  refine placewise_loadAll loads (loads ++ loads) fun s hs place => ?_
  rw [keysAt_append, Store.loadAll_append]
  exact Store.asksInVain_loadAll (hS s hs) _

end Session

end CacheScript
