/-
Loads that make objects, in stores that are only loaded from, expired and
looked at. A load is at the slot mapped for its key when it starts to make an
object, and from then on nobody else can take that slot out of the map. So two
loads never make an object for one key at once.
-/
import CacheScript.Proofs.Concurrent.Invariant

namespace CacheScript.Concurrent

variable {α : Type}

/-- The slot that a load is about to fill, or to take out of the map. -/
def Point.making? : Point α → Option Nat
  | .starting n | .calling n _ | .unmapping n _ => some n
  | _ => none

/-- The slot that a load makes an object for is the one mapped for its key. -/
def MakesMapped (m : Machine α) : Prop :=
  ∀ i r n, m.Runs i r → isCreating m.shared r.call = true → r.point.making? = some n →
    m.shared.map.value? r.call.key = some n

theorem held?_of_making? {point : Point α} {n : Nat} (h : point.making? = some n) : point.held? = some n := by
  cases point <;> cases h <;> rfl

/-- Loads that make objects for one key are one load. -/
theorem MakesMapped.alone {keys : List String} {m : Machine α} (h : MakesMapped m) (hf : Formed keys m) {i j : Nat}
    {r r' : Running α} {n k : Nat} (hr : m.Runs i r) (hc : isCreating m.shared r.call = true)
    (hn : r.point.making? = some n) (hr' : m.Runs j r') (hc' : isCreating m.shared r'.call = true)
    (hk : r'.point.making? = some k) (hkey : r.call.key = r'.call.key) : i = j := by
  have hv := h i r n hr hc hn
  rw [hkey, h j r' k hr' hc' hk] at hv
  obtain rfl : k = n := Option.some.inj hv
  exact hf.eq_of_held hr (held?_of_making? hn) hr' (held?_of_making? hk)

/-- A load comes to make an object for the slot mapped for its key only, and
changes no mapping while it is at it. -/
theorem acts_making {me : Nat} {s s' : Shared α} {t t' : Thread α} {r r' : Running α} (h : Acts me s t r s' t')
    (hr' : t'.running = some r') {n : Nat} (hcr : isCreating s' r'.call = true) (hm : r'.point.making? = some n) :
    r'.call = r.call ∧ s'.policy = s.policy ∧ s'.map = s.map ∧
      (s.map.value? r.call.key = some n ∨ r.point.making? = some n) := by
  cases h with
  | lock hp ho =>
    cases hr'
    obtain ⟨call, point, effort⟩ := r
    cases call with
    | load key create =>
      simp only [Thread.afterLock] at hm
      split at hm
      · cases hm
      · split at hm <;> cases hm
    | _ => cases hcr
  | current hp hv => cases hr'; cases hm; exact ⟨rfl, rfl, rfl, .inl hv⟩
  | call hp => cases hr'; exact ⟨rfl, rfl, rfl, .inr (by rw [hp]; exact hm)⟩
  | missed hp _ => cases hr'; exact ⟨rfl, rfl, rfl, .inr (by rw [hp]; exact hm)⟩
  | _ => first | (cases hr'; done) | (cases hr'; cases hm)

/-- The acting load is at the slot mapped for its key. -/
theorem acts_makes {me : Nat} {s s' : Shared α} {t t' : Thread α} {r r' : Running α}
    (hc : ∀ n, isCreating s r.call = true → r.point.making? = some n → s.map.value? r.call.key = some n)
    (h : Acts me s t r s' t') (hr' : t'.running = some r') {n : Nat} (hcr : isCreating s' r'.call = true)
    (hm : r'.point.making? = some n) : s'.map.value? r'.call.key = some n := by
  obtain ⟨hcall, hpolicy, hmap, hv⟩ := acts_making h hr' hcr hm
  rw [isCreating_congr hpolicy, hcall] at hcr
  rw [hmap, hcall]
  exact hv.elim id (hc n hcr)

theorem MakesMapped.takeUp {s : Shared α} {threads : List (Thread α)} {me : Nat} {t : Thread α} {call : Call α}
    {todo : List (Call α)} (h : MakesMapped ⟨s, threads⟩) (ht : threads[me]? = some t) :
    MakesMapped ⟨s, threads.set me (t.takeUp call todo)⟩ := by
  intro i r n hm hcr hp
  rw [Machine.runs_set (s := s) ht] at hm
  split at hm
  · cases hm; cases hp
  · exact h i r n hm hcr hp

theorem MakesMapped.act {keys : List String} {s s' : Shared α} {threads : List (Thread α)} {me : Nat} {t t' : Thread α}
    {r : Running α} (h : MakesMapped ⟨s, threads⟩) (hf : Formed keys ⟨s, threads⟩) (ht : threads[me]? = some t)
    (hr : t.running = some r) (hu : isUse r.call = true) (ha : Acts me s t r s' t') :
    MakesMapped ⟨s', threads.set me t'⟩ := by
  intro i r' n hm hcr hn
  have hrun : (⟨s, threads⟩ : Machine α).Runs me r := ⟨t, ht, hr⟩
  rw [Machine.runs_set (s := s) ht] at hm
  by_cases hi : i = me
  · rw [if_pos hi] at hm
    exact acts_makes (fun n => h me r n hrun) ha hm hcr hn
  · rw [if_neg hi] at hm
    rw [isCreating_congr (hf.acts_keeps ht hr ha).policy] at hcr
    have hv := h i r' n hm hcr hn
    rcases acts_value? ha hu with hs | ⟨k, reply, hp, hk, rfl, -⟩
    · exact hs _ _ hv
    · refine (Dict.value?_remove_other _ fun he => hi ?_).trans hv
      -- The slot that is taken out of the map is locked by the thread that takes it out.
      rw [he, hk] at hv
      obtain rfl : k = n := Option.some.inj hv
      exact hf.eq_of_held hm (held?_of_making? hn) hrun (by rw [hp]; rfl)

end CacheScript.Concurrent
