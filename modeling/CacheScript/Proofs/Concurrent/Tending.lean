/-
No empty slot is left behind. An empty slot in the map was obtained by a load
that goes on to fill it or to take it out of the map. So when no call is under
way, what is in the map is what the store holds, and each object that the
loader came back with was counted.
-/
import CacheScript.Proofs.Concurrent.Alone
import CacheScript.Proofs.Concurrent.Ending
import CacheScript.Proofs.Concurrent.Materialization

namespace CacheScript.Concurrent

variable {α : Type}

/-! ## Empty slots -/

/-- The slot that a load has obtained, and has neither filled nor taken out of
the map again. -/
def Point.obtained? : Point α → Option Nat
  | .waiting n | .checking n | .starting n | .calling n _ | .unmapping n _ => some n
  | _ => none

/-- A load that obtained an empty slot obtained it for the key that it is mapped for. -/
theorem Formed.obtained {keys : List String} {m : Machine α} (h : Formed keys m) {key : String} {n : Nat}
    (hv : m.shared.map.value? key = some n) (he : (m.shared.slot n).content = none) :
    m.shared.policy = .createIfAbsent ∧
      ∃ i r, m.Runs i r ∧ r.call = .load key true ∧ r.point.obtained? = some n := by
  obtain ⟨i, r, hr, hc, htends⟩ := h.tended key n hv he
  obtain ⟨hcall, hpolicy⟩ := eq_load_of_isCreating hc
  have hkey : keys[n]? = some key := h.mapped _ (Dict.mem_of_value? hv)
  have hf := h.fits i r hr
  have same (hk : keys[n]? = some r.call.key) : r.call = .load key true := by
    rw [hk] at hkey
    rw [← Option.some.inj hkey]
    exact hcall
  refine ⟨hpolicy, i, r, hr, ?_⟩
  cases hp : r.point with
  | waiting k =>
    simp only [hp] at htends
    simp only [Fits, hp] at hf
    rw [htends] at hf
    exact ⟨same hf.2, by rw [htends]; rfl⟩
  | checking k | starting k | calling k answer | unmapping k reply =>
    simp only [hp] at htends
    simp only [Fits, hp] at hf
    rw [htends] at hf
    exact ⟨same hf.2.1, by rw [htends]; rfl⟩
  | _ => simp only [hp] at htends

/-- When no call is under way, every slot in the map is filled. -/
theorem Formed.filled_of_isQuiet {keys : List String} {m : Machine α} (h : Formed keys m) (hs : m.shared.map.Sorted)
    (hq : m.isQuiet = true) {entry : String × Nat} (he : entry ∈ m.shared.map) :
    ∃ e, (m.shared.slot entry.2).content = some e := by
  by_contra hno
  have hempty : (m.shared.slot entry.2).content = none :=
    Option.eq_none_iff_forall_ne_some.2 fun e hc => hno ⟨e, hc⟩
  obtain ⟨-, i, r, hr, -⟩ := h.obtained (hs.value?_of_mem he) hempty
  exact Machine.not_runs_of_isQuiet hq hr

/-- When no call is under way, the store holds as much as there are slots in the map. -/
theorem Formed.size_of_isQuiet {keys : List String} {m : Machine α} (h : Formed keys m) (hs : m.shared.map.Sorted)
    (hq : m.isQuiet = true) : m.toStore.size = m.shared.map.length := by
  rw [(shows_toStore hs).size_eq hs, Shared.filledAmong, List.countP_map, List.countP_eq_length]
  intro entry he
  obtain ⟨e, hc⟩ := h.filled_of_isQuiet hs hq he
  exact Option.isSome_iff_exists.2 ⟨e, hc⟩

/-! ## Objects of the loader -/

/-- One, in a call of the loader that will end with an object. -/
def Point.finding : Point α → Nat
  | .calling _ answer => if answer.isFound then 1 else 0
  | _ => 0

def Thread.finding (t : Thread α) : Nat :=
  (t.running.map (·.point.finding)).getD 0

theorem Thread.finding_running {t : Thread α} {r : Running α} (hr : t.running = some r) :
    t.finding = r.point.finding := by
  simp [finding, hr]

theorem finding_afterLock (s : Shared α) (n : Nat) (content : Option (Entry α)) (call : Call α) :
    (Thread.afterLock s n content call).finding = 0 := by
  unfold Thread.afterLock
  repeat' split
  all_goals rfl

/-- The objects that the loader has are put in, or are on their way. -/
theorem acts_finding {me : Nat} {s s' : Shared α} {t t' : Thread α} {r : Running α} (hr : t.running = some r)
    (h : Acts me s t r s' t') : s'.loader = s.loader ∧ s'.materialized + t'.finding + s.loader.finds [] s.calls =
      s.materialized + t.finding + s.loader.finds [] s'.calls := by
  rw [Thread.finding_running hr]
  cases h with
  | lock hp _ =>
    refine ⟨rfl, ?_⟩
    rw [Thread.finding_running rfl, finding_afterLock, hp]
    rfl
  | @call n hp =>
    refine ⟨rfl, ?_⟩
    rw [Thread.finding_running rfl, hp, Loader.finds_snoc, List.nil_append]
    simp only [Point.finding]
    omega
  | found hp =>
    refine ⟨rfl, ?_⟩
    rw [Thread.finding_running rfl, hp]
    rfl
  | missed hp hno =>
    refine ⟨rfl, ?_⟩
    rw [Thread.finding_running rfl, hp]
    simp only [Point.finding, Answer.isFound_eq_false.2 hno]
    rfl
  | unmap hp =>
    rw [Thread.finding_running rfl, hp, Shared.unmap]
    split
    · exact ⟨rfl, rfl⟩
    · exact ⟨rfl, rfl⟩
  | absent hp | insert hp | clear hp | countNone hp | unlock hp | unlockLast hp =>
    exact ⟨rfl, by rw [hp]; rfl⟩
  | _ hp => exact ⟨rfl, by rw [Thread.finding_running rfl, hp]; rfl⟩

theorem finding_of_reaches {m₀ m : Machine α} (h : Machine.Reaches m₀ m) : m.shared.loader = m₀.shared.loader ∧
    m.shared.materialized + (m.threads.map Thread.finding).sum + m₀.shared.loader.finds [] m₀.shared.calls =
      m₀.shared.materialized + (m₀.threads.map Thread.finding).sum + m₀.shared.loader.finds [] m.shared.calls := by
  refine Machine.induction (P := fun m => m.shared.loader = m₀.shared.loader ∧
    m.shared.materialized + (m.threads.map Thread.finding).sum + m₀.shared.loader.finds [] m₀.shared.calls =
      m₀.shared.materialized + (m₀.threads.map Thread.finding).sum + m₀.shared.loader.finds [] m.shared.calls)
    h ⟨rfl, by omega⟩ (fun {s threads me t call todo} hm ht hr _ => ?_) fun {s threads me t r s' t'} hm ht hr ha => ?_
  · have hsum := sum_map_set Thread.finding (t.takeUp call todo) ht
    have hnone : t.finding = 0 := by simp [Thread.finding, hr]
    have hnew : (t.takeUp call todo).finding = 0 := rfl
    refine ⟨hm.1, ?_⟩
    have hcount := hm.2
    simp only at hcount ⊢
    omega
  · have hsum := sum_map_set Thread.finding t' ht
    obtain ⟨hloader, hact⟩ := acts_finding hr ha
    have hsame : s.loader = m₀.shared.loader := hm.1
    refine ⟨hloader.trans hsame, ?_⟩
    have hcount := hm.2
    rw [hsame] at hact
    simp only at hcount ⊢
    omega

theorem sum_finding_of_isQuiet {m : Machine α} (hq : m.isQuiet = true) : (m.threads.map Thread.finding).sum = 0 := by
  have hnone := Machine.isQuiet_iff.1 hq
  have hzero : m.threads.map Thread.finding = m.threads.map fun _ => 0 :=
    List.map_congr_left fun t ht => by simp [Thread.finding, hnone t ht]
  rw [hzero, List.map_const', List.sum_replicate_nat, Nat.mul_zero]

/-! ## Whole runs -/

theorem sorted_ofStore {s : Store α} (hs : s.entries.Sorted) (calls : List (List (Call α))) :
    (Machine.ofStore s calls).shared.map.Sorted := by
  have hnumbered : (s.entries.zipIdx.map (·.1)).Pairwise fun a b => a.1 < b.1 := by
    rw [List.zipIdx_map_fst]
    exact hs
  rw [List.pairwise_map] at hnumbered
  exact List.pairwise_map.2 hnumbered

/-- Inserting does not ask the loader. -/
theorem asked_seededWith (id : String) (policy : Policy) (loader : Loader α) (seeds : List (String × α)) :
    (seededWith id policy loader seeds).loader = loader ∧ (seededWith id policy loader seeds).calls = [] ∧
      (seededWith id policy loader seeds).materialized = 0 := by
  have all (s : Store α) (hs : s.loader = loader ∧ s.calls = [] ∧ s.materialized = 0) :
      let s' := (s.performAll (seeds.map fun seed => .insert seed.1 seed.2)).2
      s'.loader = loader ∧ s'.calls = [] ∧ s'.materialized = 0 := by
    induction seeds generalizing s with
    | nil => exact hs
    | cons seed seeds ih => exact ih (s.insert seed.1 seed.2).2 hs
  exact all _ ⟨rfl, rfl, rfl⟩

/-- What is left of calls of one store, spread over threads. -/
structure LeavesNoEmptySlot (s : Store α) (calls : List (List (Call α))) : Prop where
  /-- An empty slot in the map was obtained by a load that is to fill it, or to
  take it out of the map. -/
  tended : ∀ m, Machine.Reaches (Machine.ofStore s calls) m → ∀ key n, (key, n) ∈ m.shared.map →
    (m.shared.slot n).content = none → m.shared.policy = .createIfAbsent ∧
      ∃ i r, m.Runs i r ∧ r.call = .load key true ∧ r.point.obtained? = some n
  /-- When no call is under way, every slot in the map is filled. -/
  filled : ∀ m, Machine.Reaches (Machine.ofStore s calls) m → m.isQuiet = true → ∀ key n, (key, n) ∈ m.shared.map →
    ∃ e, (m.shared.slot n).content = some e
  /-- When no call is under way, a count comes to the number of slots in the map. -/
  counted : ∀ m, Machine.Reaches (Machine.ofStore s calls) m → m.isQuiet = true →
    m.toStore.size = m.shared.map.length ∧ (∃ m', Machine.Reaches (m.serving [.size]) m' ∧ m'.isDone = true) ∧
      ∀ m', Machine.Reaches (m.serving [.size]) m' → m'.isDone = true →
        m'.finished.map (·.reply) = [.counted m.shared.map.length]
  /-- When no call is under way, every object that the loader came back with was counted. -/
  materialized : ∀ m, Machine.Reaches (Machine.ofStore s calls) m → m.isQuiet = true →
    m.shared.materialized = s.loader.finds [] m.shared.calls

/-- **No empty slot is left behind**, whatever calls the threads make of a store
that was seeded before, and however their steps fall. -/
theorem leavesNoEmptySlot_seededWith (id : String) (policy : Policy) (loader : Loader α) (seeds : List (String × α))
    (calls : List (List (Call α))) : LeavesNoEmptySlot (seededWith id policy loader seeds) calls := by
  have hseeded := seeded_seededWith id policy loader seeds
  obtain ⟨hloader, hcalls, hmaterialized⟩ := asked_seededWith id policy loader seeds
  generalize seededWith id policy loader seeds = s at hseeded hloader hcalls hmaterialized ⊢
  have hform := formed_ofStore s calls
  have hsorted {m : Machine α} (hr : Machine.Reaches (Machine.ofStore s calls) m) : m.shared.map.Sorted :=
    sorted_of_reaches (sorted_ofStore hseeded.sorted calls) hr
  refine ⟨fun m hr key n hmem he => ?_, fun m hr hq key n hmem => ?_, fun m hr hq => ?_, fun m hr hq => ?_⟩
  · obtain ⟨keys, hm⟩ := hform.reaches hr
    exact hm.obtained ((hsorted hr).value?_of_mem hmem) he
  · obtain ⟨keys, hm⟩ := hform.reaches hr
    exact hm.filled_of_isQuiet (hsorted hr) hq hmem
  · obtain ⟨keys, hm⟩ := hform.reaches hr
    have hsize := hm.size_of_isQuiet (hsorted hr) hq
    refine ⟨hsize, (hm.serving hq [.size]).exists_isDone, fun m' hr' hd => ?_⟩
    rw [(hm.serving_isDone hq (hsorted hr) hr' hd).1, ← hsize]
    rfl
  · have hcount := (finding_of_reaches hr).2
    have hnew : ((Machine.ofStore s calls).threads.map Thread.finding).sum = 0 :=
      sum_finding_of_isQuiet (Machine.isQuiet_iff.2 (by simp [Machine.ofStore]))
    have hstart : (Machine.ofStore s calls).shared.loader.finds [] (Machine.ofStore s calls).shared.calls = 0 := by
      show s.loader.finds [] s.calls = 0
      rw [hcalls]
      rfl
    have hzero : (Machine.ofStore s calls).shared.materialized = 0 := hmaterialized
    have hsame : (Machine.ofStore s calls).shared.loader = s.loader := rfl
    rw [sum_finding_of_isQuiet hq, hnew, hstart, hzero, hsame] at hcount
    omega

/- On the way there are empty slots in the map: here one waits for the loader. -/
example : ((Machine.ofStore (Store.empty "users" .createIfAbsent fun _ _ => (.absent : Answer String))
    [[.load "1" true], [.size]]).follow [0, 0, 0]).shared.map = [("1", 0)] := by decide

end CacheScript.Concurrent
