/-
A store in use by several threads, step by step.

The store maps keys to slots. A slot holds an object or nothing yet, and has a
lock of its own, which the thread that makes its object holds for as long as
that takes. Taking and giving back the lock of a slot are steps, and so are
starting a call of the loader and ending it. A thread that wants a lock which
another one holds cannot step. The loader is taken to return, and not to use the
store.

The map has a lock too, which is held only while the map is looked at or changed.
A `Machine` leaves it out, and each such section is one step. A `Guarded` machine
has it: taking the lock of the map, the section and giving the lock back are
steps of their own, and a thread may have to wait for the map while it holds the
lock of a slot.

A slot can leave the map while threads wait for its lock. A load that gets the
lock of an empty slot therefore looks whether the slot is still mapped, and
starts again when it is not.
-/
import CacheScript.Store.Call

namespace CacheScript.Concurrent

variable {α : Type}

/-- A slot: its object, and the thread that holds its lock. -/
structure Slot (α : Type) where
  content : Option (Entry α)
  owner : Option Nat

/-- What the threads share. Slots are numbered in the order in which they were
made, and a number is never used again. -/
structure Shared (α : Type) where
  id : String
  policy : Policy
  loader : Loader α
  map : Dict Nat
  slots : List (Slot α)
  made : Nat
  materialized : Nat
  calls : List String
  log : List Log.Line

/-- Where a thread is in its call. -/
inductive Point (α : Type) where
  /-- A load is about to look its key up once more. -/
  | again
  /-- Wants the lock of the slot of its key. -/
  | waiting (slot : Nat)
  /-- Holds the lock of an empty slot; about to see whether it is still mapped. -/
  | checking (slot : Nat)
  /-- Holds the lock of an empty, mapped slot; about to call the loader. -/
  | starting (slot : Nat)
  /-- In a call of the loader that will give this answer. -/
  | calling (slot : Nat) (answer : Answer α)
  /-- About to take the slot out of the map, and then to reply. -/
  | unmapping (slot : Nat) (reply : Reply α)
  /-- About to give the lock back, and then to reply, or to start again. -/
  | unlocking (slot : Nat) (reply : Option (Reply α))
  /-- Counting: wants the lock of the next slot. -/
  | counting (slot : Nat) (rest : List Nat) (count : Nat)
  /-- Counting: about to give the lock of a slot back. -/
  | counted (slot : Nat) (rest : List Nat) (count : Nat)

/-- The order in which the map gives its slots to a count. The map has none of
its own, so it can be any, and another one each time. -/
structure Arrangement where
  arrange : List Nat → List Nat
  perm : ∀ slots, (arrange slots).Perm slots

/-- The order of the keys. -/
def Arrangement.byKey : Arrangement :=
  ⟨id, .refl⟩

/-- What a call went through: how often it started again, and how often it
called the loader. -/
structure Effort where
  restarts : Nat
  loaderCalls : Nat
deriving DecidableEq

/-- A call that is under way. -/
structure Running (α : Type) where
  call : Call α
  point : Point α
  effort : Effort

/-- A call that was answered. -/
structure Finished (α : Type) where
  call : Call α
  reply : Reply α
  effort : Effort

/-- A thread: the call it is in, the calls it still has to make, and those it
has made, oldest first. -/
structure Thread (α : Type) where
  running : Option (Running α)
  todo : List (Call α)
  finished : List (Finished α)

namespace Shared

/-- A load makes what is absent when it was told to and the policy allows it. -/
def creates (s : Shared α) (create : Bool) : Bool :=
  create && s.policy == .createIfAbsent

/-- The slot with a number. -/
def slot (s : Shared α) (n : Nat) : Slot α :=
  s.slots[n]?.getD ⟨none, none⟩

/-- Change the slot with a number. -/
def setSlot (s : Shared α) (n : Nat) (slot : Slot α) : Shared α :=
  { s with slots := s.slots.set n slot }

/-- Map a key to a new slot. -/
def mapNew (s : Shared α) (key : String) (content : Option (Entry α)) : Shared α :=
  { s with map := s.map.put key s.slots.length, slots := s.slots ++ [⟨content, none⟩] }

/-- Whether a slot is the one mapped for a key. -/
def isCurrent (s : Shared α) (key : String) (slot : Nat) : Bool :=
  s.map.value? key == some slot

/-- Take a slot out of the map, if it is the one mapped for the key. -/
def unmap (s : Shared α) (key : String) (slot : Nat) : Shared α :=
  if s.isCurrent key slot then { s with map := s.map.remove key } else s

/-- Put an object that the loader made into a slot. -/
def fill (s : Shared α) (n : Nat) (object : α) : Shared α :=
  { s.setSlot n { s.slot n with content := some ⟨s.made, object⟩ } with
    made := s.made + 1, materialized := s.materialized + 1 }

/-- Write to the log how a call of the loader ended. -/
def logAnswer (s : Shared α) (key : String) (answer : Answer α) : Shared α :=
  { s with log := s.log ++ [answer.line s.id key] }

end Shared

namespace Thread

/-- End the call that is under way. -/
def reply (t : Thread α) (r : Running α) (reply : Reply α) : Thread α :=
  { t with running := none, finished := t.finished ++ [⟨r.call, reply, r.effort⟩] }

/-- Go on to a point. -/
def goto (t : Thread α) (r : Running α) (point : Point α) : Thread α :=
  { t with running := some { r with point } }

/-- The first step of a call, and of a load that starts again: one section of
the map. A count gets the slots in this order. -/
def enter (order : Arrangement) (s : Shared α) (t : Thread α) (r : Running α) : Shared α × Thread α :=
  match r.call with
  | .load key create =>
    match s.map.value? key with
    | some slot => (s, t.goto r (.waiting slot))
    | none =>
      if s.creates create then (s.mapNew key none, t.goto r (.waiting s.slots.length))
      else (s, t.reply r (.loaded none))
  | .insert key object =>
    ({ s.mapNew key (some ⟨s.made, object⟩) with made := s.made + 1 },
      t.reply r (.inserted ⟨s.made, object⟩))
  | .expire key =>
    match s.map.value? key with
    | some slot => (s, t.goto r (.waiting slot))
    | none => (s, t.reply r (.expired false))
  | .clear => ({ s with map := [] }, t.reply r .cleared)
  | .contains key =>
    match s.map.value? key with
    | some slot => (s, t.goto r (.waiting slot))
    | none => (s, t.reply r (.held false))
  | .size =>
    match order.arrange (s.map.map (·.2)) with
    | [] => (s, t.reply r (.counted 0))
    | slot :: rest => (s, t.goto r (.counting slot rest 0))

/-- Where a call goes on once it has the lock of a slot with this content. -/
def afterLock (s : Shared α) (slot : Nat) (content : Option (Entry α)) : Call α → Point α
  | .load _ create =>
    match content with
    | some entry => .unlocking slot (some (.loaded (some entry)))
    | none => if s.creates create then .checking slot else .unlocking slot (some (.loaded none))
  | .expire _ => .unmapping slot (.expired content.isSome)
  | _ => .unlocking slot (some (.held content.isSome))

/-- A step of the thread numbered `me`, at a point of its call; none if it has
to wait for a lock. -/
def stepAt (me : Nat) (order : Arrangement) (s : Shared α) (t : Thread α) (r : Running α) :
    Option (Shared α × Thread α) :=
  match r.point with
  | .again => some (t.enter order s r)
  | .waiting n =>
    if (s.slot n).owner.isSome then none
    else some (s.setSlot n { s.slot n with owner := some me },
      t.goto r (afterLock s n (s.slot n).content r.call))
  | .checking n =>
    if s.isCurrent r.call.key n then some (s, t.goto r (.starting n))
    else some (s, t.goto { r with effort.restarts := r.effort.restarts + 1 } (.unlocking n none))
  | .starting n =>
    some ({ s with calls := s.calls ++ [r.call.key] },
      t.goto { r with effort.loaderCalls := r.effort.loaderCalls + 1 }
        (.calling n (s.loader s.calls r.call.key)))
  | .calling n answer =>
    match answer with
    | .found object =>
      some ((s.fill n object).logAnswer r.call.key answer,
        t.goto r (.unlocking n (some (.loaded (some ⟨s.made, object⟩)))))
    | _ => some (s.logAnswer r.call.key answer, t.goto r (.unmapping n (.loaded none)))
  | .unmapping n reply =>
    some (s.unmap r.call.key n, t.goto r (.unlocking n (some reply)))
  | .unlocking n reply =>
    let s := s.setSlot n { s.slot n with owner := none }
    match reply with
    | some reply => some (s, t.reply r reply)
    | none => some (s, t.goto r .again)
  | .counting n rest count =>
    if (s.slot n).owner.isSome then none
    else
      let count := if (s.slot n).content.isSome then count + 1 else count
      some (s.setSlot n { s.slot n with owner := some me }, t.goto r (.counted n rest count))
  | .counted n rest count =>
    let s := s.setSlot n { s.slot n with owner := none }
    match rest with
    | [] => some (s, t.reply r (.counted count))
    | slot :: rest => some (s, t.goto r (.counting slot rest count))

/-- A step of the thread numbered `me`; none if it has nothing to do or has to
wait. -/
def step (me : Nat) (order : Arrangement) (s : Shared α) (t : Thread α) : Option (Shared α × Thread α) :=
  match t.running with
  | some r => t.stepAt me order s r
  | none =>
    match t.todo with
    | [] => none
    | call :: todo => some ({ t with todo }.enter order s ⟨call, .again, ⟨0, 0⟩⟩)

end Thread

/-- A store and the threads that use it. -/
structure Machine (α : Type) where
  shared : Shared α
  threads : List (Thread α)

namespace Machine

/-- A step of the thread with a number. If it is one in which a count reads the
slots off the map, it gets them in this order. -/
def step (m : Machine α) (me : Nat) (order : Arrangement) : Option (Machine α) :=
  match m.threads[me]? with
  | none => none
  | some t => (t.step me order m.shared).map fun (shared, t) => ⟨shared, m.threads.set me t⟩

/-- What can be reached by steps of any threads in any order. -/
inductive Reaches : Machine α → Machine α → Prop
  | refl (m : Machine α) : Reaches m m
  | step {m n k : Machine α} {me : Nat} {order : Arrangement} : Reaches m n → n.step me order = some k → Reaches m k

/-- The machine after the steps of the threads in a schedule; a thread that
cannot step is passed over, and counts go by the order of the keys. -/
def follow (m : Machine α) (schedule : List Nat) : Machine α :=
  schedule.foldl (fun m me => (m.step me .byKey).getD m) m

/-- No call is under way. -/
def isQuiet (m : Machine α) : Bool :=
  m.threads.all fun t => t.running.isNone

/-- Every call was answered. -/
def isDone (m : Machine α) : Bool :=
  m.threads.all fun t => t.running.isNone && t.todo.isEmpty

/-- All answered calls. -/
def finished (m : Machine α) : List (Finished α) :=
  m.threads.flatMap (·.finished)

/-- A store that nobody uses yet, and threads with calls to make. -/
def ofStore (s : Store α) (calls : List (List (Call α))) : Machine α where
  shared :=
    { id := s.id
      policy := s.policy
      loader := s.loader
      map := s.entries.zipIdx.map fun (entry, n) => (entry.1, n)
      slots := s.entries.map fun entry => ⟨some entry.2, none⟩
      made := s.made
      materialized := s.materialized
      calls := s.calls
      log := [] }
  threads := calls.map fun todo => ⟨none, todo, []⟩

/-- The store that is left when no call is under way. -/
def toStore (m : Machine α) : Store α where
  id := m.shared.id
  policy := m.shared.policy
  loader := m.shared.loader
  entries := m.shared.map.filterMap fun (key, n) => (m.shared.slot n).content.map (key, ·)
  made := m.shared.made
  materialized := m.shared.materialized
  calls := m.shared.calls

/-- The objects that the loads of a machine came to. -/
def loads (m : Machine α) : List (Entry α) :=
  m.finished.filterMap fun f => match f.reply with
    | .loaded found => found
    | _ => none

end Machine

/-! ## The lock of the map -/

/-- Whether the step from here is a section of the map. -/
def Point.usesMap : Point α → Bool
  | .again | .checking _ | .unmapping _ _ => true
  | _ => false

/-- Whether the next step of a thread is a section of the map. Every call begins
with one. -/
def Thread.usesMap (t : Thread α) : Bool :=
  match t.running with
  | some r => r.point.usesMap
  | none => !t.todo.isEmpty

/-- Whether the next step of the thread with a number is a section of the map. -/
def Machine.usesMap (m : Machine α) (me : Nat) : Bool :=
  m.threads[me]?.any Thread.usesMap

/-- How far the holder of the lock of the map is. -/
inductive Stage where
  /-- About to look at the map or to change it. -/
  | before
  /-- About to give the lock back. -/
  | after
deriving DecidableEq

/-- A machine with the lock of its map: the thread that holds it, if any, and how
far that one is. -/
structure Guarded (α : Type) where
  machine : Machine α
  holder : Option (Nat × Stage)

namespace Guarded

/-- A step of the thread with a number; none if it has nothing to do or has to
wait, for the lock of the map or for that of a slot. A section of the map is three
steps of its thread: it takes the lock, does the section, and gives the lock back.
The others can step meanwhile, if they do not want the map. -/
def step (g : Guarded α) (me : Nat) (order : Arrangement) : Option (Guarded α) :=
  if g.holder = some (me, .before) then
    (g.machine.step me order).map fun machine => ⟨machine, some (me, .after)⟩
  else if g.holder = some (me, .after) then some { g with holder := none }
  else if g.machine.usesMap me then
    if g.holder.isSome then none else some { g with holder := some (me, .before) }
  else (g.machine.step me order).map fun machine => { g with machine }

/-- What can be reached by steps of any threads in any order. -/
inductive Reaches : Guarded α → Guarded α → Prop
  | refl (g : Guarded α) : Reaches g g
  | step {g h k : Guarded α} {me : Nat} {order : Arrangement} : Reaches g h → h.step me order = some k → Reaches g k

/-- The machine after the steps of the threads in a schedule; a thread that
cannot step is passed over, and counts go by the order of the keys. -/
def follow (g : Guarded α) (schedule : List Nat) : Guarded α :=
  schedule.foldl (fun g me => (g.step me .byKey).getD g) g

/-- Every call was answered, and the lock of the map was given back. -/
def isDone (g : Guarded α) : Bool :=
  g.machine.isDone && g.holder.isNone

/-- A store that nobody uses yet, and threads with calls to make. -/
def ofStore (s : Store α) (calls : List (List (Call α))) : Guarded α :=
  ⟨.ofStore s calls, none⟩

/-- Let the threads step in turn until every call was answered, for a number
of rounds at most. -/
def takeTurns (g : Guarded α) : Nat → Guarded α
  | 0 => g
  | rounds + 1 =>
    if g.isDone then g else (g.follow (List.range g.machine.threads.length)).takeTurns rounds

end Guarded

/-- A load by each of several threads that start together and take turns. A
load makes at most thirteen steps before it is answered or starts again, it
starts again only after another one was answered, and in each round some thread
can step. -/
def loadTogether (s : Store α) (key : String) (threads : Nat) : Machine α :=
  ((Guarded.ofStore s (List.replicate threads [.load key true])).takeTurns (13 * threads * threads)).machine

end CacheScript.Concurrent
