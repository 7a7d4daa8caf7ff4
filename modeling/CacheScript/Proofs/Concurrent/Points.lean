/-
What is known of a call at each of its points (`Fits`). Every slot belongs to
one key for good, although the map forgets which once the slot has left it; so
all is said with a list of the slots' keys. A step takes the acting thread to
a point where its call fits again (`acts_fits`) and leaves the others where
they fit (`Fits.keep`).
-/
import CacheScript.Dict.Sorted
import CacheScript.Proofs.Concurrent.Acts

namespace CacheScript.Concurrent

variable {α : Type}

/-- The slot whose lock a thread holds at a point. -/
def Point.held? : Point α → Option Nat
  | checking n | starting n | calling n _ | unmapping n _ | unlocking n _ | counted n _ _ => some n
  | _ => none

/-- What is known of a call at a point, given the keys of the slots. -/
def Fits (keys : List String) (s : Shared α) (r : Running α) : Prop :=
  match r.point with
  | .again => True
  | .waiting n => IsKeyed r.call ∧ keys[n]? = some r.call.key
  | .checking n | .starting n | .calling n _ =>
    isCreating s r.call = true ∧ keys[n]? = some r.call.key ∧ (s.slot n).content = none
  | .unmapping n reply =>
    IsKeyed r.call ∧ keys[n]? = some r.call.key ∧ reply = replyOn (s.slot n).content r.call ∧
      (r.call = .expire r.call.key ∨ isCreating s r.call = true ∧ (s.slot n).content = none)
  | .unlocking n (some reply) =>
    IsKeyed r.call ∧ keys[n]? = some r.call.key ∧ reply = replyOn (s.slot n).content r.call
  | .unlocking n none => isCreating s r.call = true ∧ keys[n]? = some r.call.key
  | .counting n rest _ | .counted n rest _ => r.call = .size ∧ ∀ k ∈ n :: rest, k < s.slots.length

/-! ## Stores before and after -/

namespace Shared

theorem lt_of_content {s : Shared α} {n : Nat} {e : Entry α} (h : (s.slot n).content = some e) :
    n < s.slots.length := by
  rcases Nat.lt_or_ge n s.slots.length with hn | hn
  · exact hn
  · rw [slot_of_length_le hn] at h
    cases h

end Shared

/-- What the other threads can rely on when thread `me` acts. -/
structure Keeps (me : Nat) (s s' : Shared α) : Prop where
  policy : s'.policy = s.policy
  length : s.slots.length ≤ s'.slots.length
  /-- An object stays in its slot. -/
  filled : ∀ n e, (s.slot n).content = some e → (s'.slot n).content = some e
  /-- Only the holder of its lock fills a slot. -/
  empty : ∀ n, n < s.slots.length → (s.slot n).owner ≠ some me → (s.slot n).content = none →
    (s'.slot n).content = none

theorem isCreating_congr {s s' : Shared α} (h : s'.policy = s.policy) (call : Call α) :
    isCreating s' call = isCreating s call := by
  cases call <;> simp [isCreating, Shared.creates, h]

theorem Keeps.content {me : Nat} {s s' : Shared α} (h : Keeps me s s') {n : Nat} (hn : n < s.slots.length)
    (ho : (s.slot n).owner ≠ some me) : (s'.slot n).content = (s.slot n).content := by
  cases hc : (s.slot n).content with
  | none => exact h.empty n hn ho hc
  | some e => exact h.filled n e hc

theorem keeps_of_contents {me : Nat} {s s' : Shared α} (hp : s'.policy = s.policy)
    (hl : s.slots.length ≤ s'.slots.length)
    (hc : ∀ n, n < s.slots.length → (s'.slot n).content = (s.slot n).content) : Keeps me s s' where
  policy := hp
  length := hl
  filled n _ h := (hc n (Shared.lt_of_content h)).trans h
  empty n hn _ h := (hc n hn).trans h

theorem content_mapNew (s : Shared α) (key : String) (content : Option (Entry α)) {n : Nat}
    (hn : n < s.slots.length) : ((s.mapNew key content).slot n).content = (s.slot n).content := by
  rw [Shared.slot_mapNew, if_neg (by omega)]

theorem lt_of_key {keys : List String} {s : Shared α} (hl : keys.length = s.slots.length) {n : Nat} {key : String}
    (h : keys[n]? = some key) : n < s.slots.length := by
  rw [← hl]
  exact (List.getElem?_eq_some_iff.1 h).1

theorem acts_keeps {keys : List String} {me : Nat} {s s' : Shared α} {t t' : Thread α} {r : Running α}
    (hl : keys.length = s.slots.length) (hf : Fits keys s r)
    (ho : ∀ n, r.point.held? = some n → (s.slot n).owner = some me) (h : Acts me s t r s' t') :
    Keeps me s s' := by
  cases h with
  | create _ _ _ => exact keeps_of_contents rfl (by simp) fun n hn => content_mapNew s _ _ hn
  | @insert key object _ _ =>
    exact keeps_of_contents rfl (by simp) fun n hn => content_mapNew s key (some ⟨s.made, object⟩) hn
  | lock _ _ => exact keeps_of_contents rfl (by simp) fun n _ => s.content_setOwner _ _ n
  | unlock _ => exact keeps_of_contents rfl (by simp) fun n _ => s.content_setOwner _ _ n
  | retry _ => exact keeps_of_contents rfl (by simp) fun n _ => s.content_setOwner _ _ n
  | lockNext _ _ => exact keeps_of_contents rfl (by simp) fun n _ => s.content_setOwner _ _ n
  | unlockLast _ => exact keeps_of_contents rfl (by simp) fun n _ => s.content_setOwner _ _ n
  | unlockNext _ => exact keeps_of_contents rfl (by simp) fun n _ => s.content_setOwner _ _ n
  | unmap _ => exact keeps_of_contents (by simp) (by simp) fun n _ => by simp [Shared.slot]
  | @found n object hp =>
    simp only [Fits, hp] at hf
    obtain ⟨-, hk, he⟩ := hf
    have hn := lt_of_key hl hk
    refine ⟨rfl, by simp [Shared.fill, Shared.logAnswer], fun k e hc => ?_, fun k _ hme hc => ?_⟩
    · have hne : k ≠ n := by rintro rfl; rw [he] at hc; cases hc
      exact (s.content_fill hn object k).trans (by rw [if_neg hne]; exact hc)
    · have hne : k ≠ n := by rintro rfl; exact hme (ho k (by rw [hp]; rfl))
      exact (s.content_fill hn object k).trans (by rw [if_neg hne]; exact hc)
  | _ => exact keeps_of_contents rfl (Nat.le_refl _) fun n _ => rfl

/-! ## The acting thread -/

/-- The keys of the slots after an act: a new slot is for the key of the call. -/
def grown (keys : List String) (r : Running α) (s s' : Shared α) : List String :=
  keys ++ List.replicate (s'.slots.length - s.slots.length) r.call.key

theorem getElem?_grown {keys : List String} {r : Running α} {s s' : Shared α} {n : Nat} {key : String}
    (h : keys[n]? = some key) : (grown keys r s s')[n]? = some key := by
  rw [grown, List.getElem?_append_left (List.getElem?_eq_some_iff.1 h).1, h]

theorem getElem?_grown_new {keys : List String} {r : Running α} {s s' : Shared α}
    (hl : keys.length = s.slots.length) (h : s'.slots.length = s.slots.length + 1) :
    (grown keys r s s')[s.slots.length]? = some r.call.key := by
  rw [grown, h, ← hl, List.getElem?_append_right (Nat.le_refl _)]
  simp

theorem isKeyed_of_isCreating {s : Shared α} {call : Call α} (h : isCreating s call = true) : IsKeyed call := by
  cases call with
  | load _ _ => trivial
  | _ => cases h

/-- With the lock of its slot, a call is where the content of the slot sends it. -/
theorem fits_afterLock {keys : List String} {s s' : Shared α} {r : Running α} {n : Nat} (hk : IsKeyed r.call)
    (hn : keys[n]? = some r.call.key) (hp : s'.policy = s.policy)
    (hc : (s'.slot n).content = (s.slot n).content) :
    Fits keys s' { r with point := Thread.afterLock s n (s.slot n).content r.call } := by
  obtain ⟨call, point, effort⟩ := r
  cases call with
  | load key create =>
    cases h : (s.slot n).content with
    | some e => exact ⟨hk, hn, by rw [hc, h]; rfl⟩
    | none =>
      simp only [Thread.afterLock]
      split
      · rename_i hcr
        exact ⟨(isCreating_congr hp _).trans hcr, hn, hc.trans h⟩
      · exact ⟨hk, hn, by rw [hc, h]; rfl⟩
  | expire key => exact ⟨hk, hn, by rw [hc]; rfl, .inl rfl⟩
  | contains key => exact ⟨hk, hn, by rw [hc]; rfl⟩
  | insert key object => exact hk.elim
  | clear => exact hk.elim
  | size => exact hk.elim

theorem acts_fits {keys : List String} {me : Nat} {s s' : Shared α} {t t' : Thread α} {r r' : Running α}
    (hl : keys.length = s.slots.length) (hm : ∀ entry ∈ s.map, keys[entry.2]? = some entry.1)
    (hf : Fits keys s r) (h : Acts me s t r s' t') (hr : t'.running = some r') :
    Fits (grown keys r s s') s' r' := by
  cases h with
  | absent _ _ _ _ => cases hr
  | insert _ _ => cases hr
  | clear _ _ => cases hr
  | countNone _ _ _ => cases hr
  | unlock _ => cases hr
  | unlockLast _ => cases hr
  | find hp hk hv => cases hr; exact ⟨hk, getElem?_grown (hm _ (Dict.mem_of_value? hv))⟩
  | create hp hc hv => cases hr; exact ⟨isKeyed_of_isCreating hc, getElem?_grown_new hl (by simp)⟩
  | retry hp => cases hr; exact True.intro
  | @count n rest hp hc hv =>
    cases hr
    refine ⟨hc, fun k hk => ?_⟩
    rw [hv.mem_iff, List.mem_map] at hk
    obtain ⟨entry, he, rfl⟩ := hk
    exact lt_of_key hl (hm entry he)
  | lock hp ho =>
    simp only [Fits, hp] at hf
    cases hr
    exact fits_afterLock hf.1 (getElem?_grown hf.2) rfl (s.content_setOwner _ _ _)
  | current hp hv =>
    simp only [Fits, hp] at hf
    cases hr
    exact ⟨hf.1, getElem?_grown hf.2.1, hf.2.2⟩
  | stale hp hv =>
    simp only [Fits, hp] at hf
    cases hr
    exact ⟨hf.1, getElem?_grown hf.2.1⟩
  | call hp =>
    simp only [Fits, hp] at hf
    cases hr
    exact ⟨hf.1, getElem?_grown hf.2.1, hf.2.2⟩
  | @found n object hp =>
    simp only [Fits, hp] at hf
    obtain ⟨hc, hk, -⟩ := hf
    cases hr
    refine ⟨isKeyed_of_isCreating hc, getElem?_grown hk, ?_⟩
    have hs : ((s.fill n object).slot n).content = some ⟨s.made, object⟩ := by
      rw [s.content_fill (lt_of_key hl hk), if_pos rfl]
    change _ = replyOn ((s.fill n object).slot n).content r.call
    rw [hs]
    cases hcall : r.call <;> rw [hcall] at hc <;> first | rfl | cases hc
  | missed hp ha =>
    simp only [Fits, hp] at hf
    obtain ⟨hc, hk, he⟩ := hf
    cases hr
    refine ⟨isKeyed_of_isCreating hc, getElem?_grown hk, ?_, .inr ⟨hc, he⟩⟩
    change _ = replyOn (s.slot _).content r.call
    rw [he]
    cases hcall : r.call <;> rw [hcall] at hc <;> first | rfl | cases hc
  | unmap hp =>
    simp only [Fits, hp] at hf
    cases hr
    refine ⟨hf.1, getElem?_grown hf.2.1, ?_⟩
    simpa only [Shared.slot, Shared.slots_unmap] using hf.2.2.1
  | lockNext hp ho =>
    simp only [Fits, hp] at hf
    cases hr
    exact ⟨hf.1, fun k hk => by simpa using hf.2 k hk⟩
  | unlockNext hp =>
    simp only [Fits, hp] at hf
    cases hr
    exact ⟨hf.1, fun k hk => by simpa using hf.2 k (List.mem_cons_of_mem _ hk)⟩

/-- Calls of other threads stay where they fit. -/
theorem Fits.keep {keys : List String} {me : Nat} {s s' : Shared α} {r r' : Running α}
    (hl : keys.length = s.slots.length) (hf : Fits keys s r') (hk : Keeps me s s')
    (ho : ∀ n, r'.point.held? = some n → (s.slot n).owner ≠ some me) : Fits (grown keys r s s') s' r' := by
  have hcr := isCreating_congr hk.policy r'.call
  have hc (n : Nat) (hh : r'.point.held? = some n) (hn : keys[n]? = some r'.call.key) :
      (s'.slot n).content = (s.slot n).content :=
    hk.content (lt_of_key hl hn) (ho n hh)
  cases hp : r'.point with
  | again => simp only [Fits, hp]
  | waiting n =>
    simp only [Fits, hp] at hf ⊢
    exact ⟨hf.1, getElem?_grown hf.2⟩
  | checking n | starting n | calling n answer =>
    simp only [Fits, hp] at hf ⊢
    exact ⟨hcr.trans hf.1, getElem?_grown hf.2.1, (hc n (by rw [hp]; rfl) hf.2.1).trans hf.2.2⟩
  | unmapping n reply =>
    have hn := hc n (by rw [hp]; rfl)
    simp only [Fits, hp] at hf ⊢
    rw [hn hf.2.1, hcr]
    exact ⟨hf.1, getElem?_grown hf.2.1, hf.2.2⟩
  | unlocking n reply =>
    have hn := hc n (by rw [hp]; rfl)
    cases reply with
    | none =>
      simp only [Fits, hp] at hf ⊢
      exact ⟨hcr.trans hf.1, getElem?_grown hf.2⟩
    | some reply =>
      simp only [Fits, hp] at hf ⊢
      rw [hn hf.2.1]
      exact ⟨hf.1, getElem?_grown hf.2.1, hf.2.2⟩
  | counting n rest count | counted n rest count =>
    simp only [Fits, hp] at hf ⊢
    exact ⟨hf.1, fun k hm => Nat.lt_of_lt_of_le (hf.2 k hm) hk.length⟩

end CacheScript.Concurrent
