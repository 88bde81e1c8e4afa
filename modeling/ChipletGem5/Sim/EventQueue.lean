import ChipletGem5.Lib.Result
import ChipletGem5.Base.Flags

/-!
# Event queues

The event queue of `sim/eventq.hh`, `sim/eventq.cc` and `sim/eventq_impl.hh`.  Events are
objects in memory, named by their address; the queue links them into a list of bins, one for
each time and priority, through the fields `nextBin` and `nextInBin`, and each bin is a stack.

Loops over pointers take the number of iterations they may make as `fuel`; running out of it is a
fault of its own.  A handler of an event is the list of the calls that it makes.  Ticks are natural
numbers: the clock does not wrap around within a run.  Tracing is left out.
-/

namespace ChipletGem5.EventQueue

open Function

/-- The time of a simulation. -/
abbrev Tick := ℕ

/-- The address of an event. -/
abbrev EventId := ℕ

/-! ### Events -/

abbrev FlagsType := BitVec 16

namespace EventBase

def squashed : FlagsType := 0x0001

def scheduled : FlagsType := 0x0002

/-- The event uses the life cycle manager. -/
def managed : FlagsType := 0x0004

/-- A special exit event. -/
def isExitEvent : FlagsType := 0x0010

/-- The event is on the main event queue. -/
def isMainQueue : FlagsType := 0x0020

/-- The bits of an event that has been constructed. -/
def initialized : FlagsType := 0x7a40

/-- The mask of these bits. -/
def initMask : FlagsType := 0xffc0

end EventBase

/-- An event and its links in the queue. -/
structure Event where
  /-- The first event of the next bin; it counts only in the first event of a bin. -/
  nextBin : Option EventId
  /-- The next event of the same bin. -/
  nextInBin : Option EventId
  /-- The field `_when`. -/
  when : Tick
  /-- The field `_priority`. -/
  priority : ℤ
  /-- The flags. -/
  flags : FlagsType
  /-- The queue to which the event belongs, if it was ever scheduled. -/
  queue : Option ℕ
deriving DecidableEq, Repr

namespace Event

/-- An event after its constructor, with the public flags `f`. -/
def new (p : ℤ) (f : FlagsType) : Event := ⟨none, none, 0, p, EventBase.initialized ||| f, none⟩

def scheduled (e : Event) : Bool := Flags.isSet e.flags EventBase.scheduled

def squashed (e : Event) : Bool := Flags.isSet e.flags EventBase.squashed

def isExitEvent (e : Event) : Bool := Flags.isSet e.flags EventBase.isExitEvent

def initialized (e : Event) : Bool := e.flags &&& EventBase.initMask == EventBase.initialized

/-- `operator<` on events. -/
def lt (l r : Event) : Bool :=
  decide (l.when < r.when) || (l.when == r.when && decide (l.priority < r.priority))

/-- `operator<=` on events. -/
def le (l r : Event) : Bool :=
  decide (l.when < r.when) || (l.when == r.when && decide (l.priority ≤ r.priority))

/-- `operator==` on events: the same bin. -/
def eq (l r : Event) : Bool := l.when == r.when && l.priority == r.priority

/-- `operator!=` on events. -/
def ne (l r : Event) : Bool := l.when != r.when || l.priority != r.priority

variable (e : Event)

def setWhen (when : Tick) (q : ℕ) : Event := { e with when := when, queue := some q }

def setFlags (mask : FlagsType) : Event := { e with flags := Flags.set e.flags mask }

def clearFlags (mask : FlagsType) : Event :=
  { e with flags := Flags.clear e.flags mask }

/-- `Event::release` with the default manager: a managed event that is not scheduled is
deleted, and its destructor clears all flags. -/
def release : Event :=
  if Flags.isSet e.flags EventBase.managed && !e.scheduled then { e with flags := 0 } else e

end Event

/-- The memory of events. -/
abbrev Heap := EventId → Event

namespace Heap

/-- The assignment `e->nextBin = p`. -/
def setNextBin (h : Heap) (e : EventId) (p : Option EventId) : Heap :=
  update h e { h e with nextBin := p }

/-- The assignment `e->nextInBin = p`. -/
def setNextInBin (h : Heap) (e : EventId) (p : Option EventId) : Heap :=
  update h e { h e with nextInBin := p }

end Heap

/-! ### Inserting and removing -/

/-- `Event::insertBefore`; the returned pointer is `event`. -/
def insertBefore (h : Heap) (event : EventId) (curr : Option EventId) : Heap :=
  match curr with
  | none => (h.setNextBin event none).setNextInBin event none
  | some c =>
      if (h event).lt (h c) then (h.setNextBin event (some c)).setNextInBin event none
      else (h.setNextBin event (h c).nextBin).setNextInBin event (some c)

/-- The loop of `EventQueue::insert` and `EventQueue::remove` that looks for the bin of
`event`: `while (curr && *curr < *event)`. -/
def findBin (h : Heap) (event : EventId) :
    ℕ → EventId → Option EventId → Result (EventId × Option EventId)
  | 0, _, _ => .error .outOfFuel
  | fuel + 1, prev, curr =>
      match curr with
      | none => .ok (prev, none)
      | some c =>
          if (h c).lt (h event) then findBin h event fuel c (h c).nextBin
          else .ok (prev, some c)

variable (fuel : ℕ)

/-- `EventQueue::insert` on the queue that starts at `head`. -/
def insert (h : Heap) (head : Option EventId) (event : EventId) : Result (Heap × Option EventId) :=
  match head with
  | none => .ok (insertBefore h event none, some event)
  | some hd =>
      if (h event).le (h hd) then .ok (insertBefore h event (some hd), some event)
      else do
        let (prev, curr) ← findBin h event fuel hd (h hd).nextBin
        return ((insertBefore h event curr).setNextBin prev (some event), some hd)

/-- The loop of `Event::removeItem`: `while (event != next)`.  It returns `curr`. -/
def removeItemLoop (h : Heap) (event : EventId) :
    ℕ → EventId → Option EventId → Result EventId
  | 0, _, _ => .error .outOfFuel
  | fuel + 1, curr, next =>
      if next = some event then .ok curr
      else
        match next with
        | none => .error (.panic "event not found!")
        | some nx => removeItemLoop h event fuel nx (h nx).nextInBin

/-- `Event::removeItem`: the new memory and the new first event of the bin. -/
def removeItem (h : Heap) (event top : EventId) : Result (Heap × Option EventId) :=
  if event = top then
    match (h top).nextInBin with
    | none => .ok (h, (h top).nextBin)
    | some next => .ok (h.setNextBin next (h top).nextBin, some next)
  else do
    let curr ← removeItemLoop h event fuel top (h top).nextInBin
    return (h.setNextInBin curr (h event).nextInBin, some top)

/-- `EventQueue::remove` on the queue `this` that starts at `head`. -/
def remove (this : ℕ) (h : Heap) (head : Option EventId) (event : EventId) :
    Result (Heap × Option EventId) :=
  match head with
  | none => .error (.panic "event not found!")
  | some hd => do
      require ((h event).queue == some this) (.assertion "event->queue == this")
      if (h hd).eq (h event) then removeItem fuel h event hd
      else
        let (prev, curr) ← findBin h event fuel hd (h hd).nextBin
        match curr with
        | none => .error (.panic "event not found!")
        | some c =>
            if (h c).ne (h event) then .error (.panic "event not found!")
            else
              let (h', top) ← removeItem fuel h event c
              return (h'.setNextBin prev top, some hd)

/-! ### Queues -/

structure Queue where
  /-- The first event of the first bin. -/
  head : Option EventId
  /-- The field `_curTick`. -/
  curTick : Tick
  /-- Events added by other threads. -/
  asyncQueue : List EventId
deriving DecidableEq, Repr

/-- The state of a simulation with `n` main event queues. -/
structure Sim (n : ℕ) where
  /-- The memory of events. -/
  events : Heap
  /-- `mainEventQueue`. -/
  queues : Fin n → Queue
  /-- The mode of execution. -/
  inParallelMode : Bool

namespace Sim

variable {n : ℕ}

variable (s : Sim n)

def setEvent (e : EventId) (ev : Event) : Sim n :=
  { s with events := update s.events e ev }

def setQueue (q : Fin n) (eq : Queue) : Sim n :=
  { s with queues := update s.queues q eq }

/-- Write new links and a new `head` of one queue. -/
def relink (this : Fin n) (h : Heap) (head : Option EventId) : Sim n :=
  { s with events := h }.setQueue this { s.queues this with head := head }

/-- `insert` as a step of the simulation. -/
def insert (fuel : ℕ) (s : Sim n) (this : Fin n) (event : EventId) : Result (Sim n) := do
  let (h, head) ← EventQueue.insert fuel s.events (s.queues this).head event
  return s.relink this h head

/-- `remove` as a step of the simulation. -/
def remove (fuel : ℕ) (s : Sim n) (this : Fin n) (event : EventId) : Result (Sim n) := do
  let (h, head) ← EventQueue.remove fuel this s.events (s.queues this).head event
  return s.relink this h head

def asyncInsert (this : Fin n) (event : EventId) : Sim n :=
  s.setQueue this { s.queues this with asyncQueue := (s.queues this).asyncQueue ++ [event] }

variable (fuel : ℕ)

/-- `EventQueue::schedule`, called by the thread whose current queue is `cur`. -/
def schedule (s : Sim n) (cur this : Fin n) (event : EventId) (when : Tick)
    (global : Bool) : Result (Sim n) := do
  require (decide ((s.queues this).curTick ≤ when)) (.assertion "when >= getCurTick()")
  require (!(s.events event).scheduled) (.assertion "!event->scheduled()")
  require (s.events event).initialized (.assertion "event->initialized()")
  let s := s.setEvent event ((s.events event).setWhen when this)
  let s ← if s.inParallelMode && (this != cur || global) then .ok (s.asyncInsert this event)
    else s.insert fuel this event
  return s.setEvent event ((s.events event).setFlags EventBase.scheduled)

def deschedule (s : Sim n) (cur this : Fin n) (event : EventId) : Result (Sim n) := do
  require (s.events event).scheduled (.assertion "event->scheduled()")
  require (s.events event).initialized (.assertion "event->initialized()")
  require (!s.inParallelMode || this == cur)
    (.assertion "!inParallelMode || this == curEventQueue()")
  let s ← s.remove fuel this event
  let ev := ((s.events event).clearFlags EventBase.squashed).clearFlags EventBase.scheduled
  return s.setEvent event ev.release

def reschedule (s : Sim n) (cur this : Fin n) (event : EventId) (when : Tick)
    (always : Bool) : Result (Sim n) := do
  require (decide ((s.queues this).curTick ≤ when)) (.assertion "when >= getCurTick()")
  require (always || (s.events event).scheduled) (.assertion "always || event->scheduled()")
  require (s.events event).initialized (.assertion "event->initialized()")
  require (!s.inParallelMode || this == cur)
    (.assertion "!inParallelMode || this == curEventQueue()")
  let s ← if (s.events event).scheduled then s.remove fuel this event else .ok s
  let s := s.setEvent event ((s.events event).setWhen when this)
  let s ← s.insert fuel this event
  let ev := (s.events event).clearFlags EventBase.squashed
  return s.setEvent event (ev.setFlags EventBase.scheduled)

def squash (event : EventId) : Sim n :=
  s.setEvent event ((s.events event).setFlags EventBase.squashed)

/-- A call that a thread makes while it services an event or between services. -/
inductive Call (n : ℕ) where
  /-- `EventQueue::schedule`. -/
  | schedule (this : Fin n) (event : EventId) (when : Tick) (global : Bool)
  /-- `EventQueue::deschedule`. -/
  | deschedule (this : Fin n) (event : EventId)
  /-- `EventQueue::reschedule`. -/
  | reschedule (this : Fin n) (event : EventId) (when : Tick) (always : Bool)
  /-- `Event::squash`. -/
  | squash (event : EventId)
deriving DecidableEq, Repr

/-- The event that a call is about. -/
def Call.event : Call n → EventId
  | .schedule _ event _ _ => event
  | .deschedule _ event => event
  | .reschedule _ event _ _ => event
  | .squash event => event

/-- One call of the thread whose current queue is `cur`. -/
def call (s : Sim n) (cur : Fin n) : Call n → Result (Sim n)
  | .schedule this event when global => s.schedule fuel cur this event when global
  | .deschedule this event => s.deschedule fuel cur this event
  | .reschedule this event when always => s.reschedule fuel cur this event when always
  | .squash event => .ok (s.squash event)

/-- The calls of a handler, one after the other. -/
def calls (fuel : ℕ) (s : Sim n) (cur : Fin n) : List (Call n) → Result (Sim n)
  | [] => .ok s
  | c :: cs => do
      let s ← s.call fuel cur c
      s.calls fuel cur cs

/-- The step of `EventQueue::serviceOne` that unlinks the first event: pop the stack of its bin,
or go to the next bin. -/
def unlinkHead (this : Fin n) (event : EventId) : Sim n :=
  match (s.events event).nextInBin with
  | some next =>
      -- update the next bin pointer since it could be stale
      s.relink this (s.events.setNextBin next (s.events event).nextBin) (some next)
  | none => s.relink this s.events (s.events event).nextBin

/-- The first part of `EventQueue::serviceOne`: take the first event off the queue. -/
def popHead (this : Fin n) : Result (Sim n × EventId) :=
  match (s.queues this).head with
  | none => .error (.undefined "head->nextInBin")
  | some event =>
      let s := s.setEvent event ((s.events event).clearFlags EventBase.scheduled)
      .ok (s.unlinkHead this event, event)

/-- The part of `EventQueue::serviceOne` before the handler: a squashed event is dropped, any
other one moves the time of the queue. -/
def startService (this : Fin n) (event : EventId) : Sim n :=
  if (s.events event).squashed then
    s.setEvent event ((s.events event).clearFlags EventBase.squashed)
  else s.setQueue this { s.queues this with curTick := (s.events event).when }

/-- `event->release()` at the end of `EventQueue::serviceOne`. -/
def release (s : Sim n) (event : EventId) : Sim n :=
  s.setEvent event (s.events event).release

/-- `EventQueue::serviceOne`, with the calls that the handler of the event makes.  The second
component is the event it returns. -/
def serviceOne (s : Sim n) (this : Fin n) (handler : List (Call n)) :
    Result (Sim n × Option EventId) := do
  let (s, event) ← s.popHead this
  if (s.events event).squashed then
    return ((s.startService this event).release event, none)
  else
    let s ← (s.startService this event).calls fuel this handler
    if (s.events event).isExitEvent then
      require (!Flags.isSet (s.events event).flags EventBase.managed ||
          !Flags.isSet (s.events event).flags EventBase.isMainQueue)
        (.assertion
          "!event->flags.isSet(Event::Managed) || !event->flags.isSet(Event::IsMainQueue)")
      return (s, some event)
    else return (s.release event, none)

/-- One iteration of the loop of `doSimLoop`, without the handling of host signals. -/
def simLoopBody (s : Sim n) (this : Fin n) (handler : List (Call n)) :
    Result (Sim n × Option EventId) := do
  match (s.queues this).head with
  | none => .error (.assertion "!eventq->empty()")
  | some hd =>
      require (decide ((s.queues this).curTick ≤ (s.events hd).when))
        (.assertion "event scheduled in the past")
      s.serviceOne fuel this handler

/-- The loop of `EventQueue::handleAsyncInsertions` over the pending events: insert the first
one, then drop it from the list. -/
def handleAsyncLoop (fuel : ℕ) (this : Fin n) : List EventId → Sim n → Result (Sim n)
  | [], s => .ok s
  | e :: es, s => do
      let s ← s.insert fuel this e
      handleAsyncLoop fuel this es (s.setQueue this { s.queues this with asyncQueue := es })

def handleAsyncInsertions (s : Sim n) (this : Fin n) : Result (Sim n) :=
  handleAsyncLoop fuel this (s.queues this).asyncQueue s

end Sim

end ChipletGem5.EventQueue
