import MetalOrm.Native.Entity

/-!
# Dispatch of domain events

`metal/domain_events.hpp`, `UnitOfWork::dispatch_domain_events` and the closure that
`Session::track` installs for it. A handler is code of the application; it may use the
session, and a `commit` or the end of an outermost `transaction` dispatches again.
-/

namespace MetalOrm.Native

/-- A `domain_event_queue` member of an entity. -/
structure EventQueue where
  entity : Key
  member : Nat
deriving DecidableEq

/-- An event in a queue. Its number is not in the source: it tells two equal events apart. -/
structure QueuedEvent (Event : Type) where
  number : Nat
  event : Event
deriving DecidableEq

/-- What is done during a dispatch: a handler is called with an event; or a handler raises
    an event on the queue `target` while an event of the queue `own` is handed to it, it
    persists an entity, or it dispatches again. -/
inductive DispatchStep where
  | hands (number handler : Nat)
  | raises (own target : EventQueue)
  | persists (entity : Key)
  | dispatches
deriving DecidableEq

/-- The session as far as the dispatch goes: `keys()` of the unit of work and the queues.
    `raised` counts the events, and `steps` is what has been done, the last step first. -/
structure EventSession (Event : Type) where
  tracked : List Key
  queues : EventQueue → List (QueuedEvent Event)
  raised : Nat
  steps : List DispatchStep

/-- The code of a handler. It may look at the session before each step that it takes. -/
inductive HandlerCode (Event : Type) where
  | done
  | look (next : EventSession Event → HandlerCode Event)
  | raise (queue : EventQueue) (event : Event) (next : HandlerCode Event)
  | persist (entity : Key) (next : HandlerCode Event)
  | dispatch (next : HandlerCode Event)

/-- `DomainEventBus`, and how many queue members an entity has. The handlers of an event are
    those of its type, in the order of their registration. -/
structure EventBus (Event : Type) where
  members : Key → Nat
  handlers : Event → List Nat
  code : Nat → Event → HandlerCode Event

/-- Why a dispatch does not return: it is nested too deep, or it uses an event of a queue
    that has been emptied or that has grown meanwhile. -/
inductive DispatchStop where
  | depth
  | undefinedBehaviour
deriving DecidableEq

/-- How a part of a dispatch ends. -/
inductive Dispatched (Event : Type) where
  | returns (s : EventSession Event)
  | stops (reason : DispatchStop) (s : EventSession Event)

variable {Event : Type}

namespace Dispatched

def session : Dispatched Event → EventSession Event
  | returns s => s
  | stops _ s => s

def andThen (result : Dispatched Event) (f : EventSession Event → Dispatched Event) :
    Dispatched Event :=
  match result with
  | returns s => f s
  | stops reason s => stops reason s

end Dispatched

namespace EventSession

def step (s : EventSession Event) (done : DispatchStep) : EventSession Event :=
  { s with steps := done :: s.steps }

/-- `domain_event_queue::raise`. -/
def push (s : EventSession Event) (queue : EventQueue) (event : Event) : EventSession Event :=
  { s with
    queues := fun q => if q = queue then s.queues q ++ [⟨s.raised, event⟩] else s.queues q
    raised := s.raised + 1 }

/-- `domain_event_queue::clear`. -/
def clear (s : EventSession Event) (queue : EventQueue) : EventSession Event :=
  { s with queues := fun q => if q = queue then [] else s.queues q }

/-- `Session::persist`. -/
def persist (s : EventSession Event) (entity : Key) : EventSession Event :=
  if entity ∈ s.tracked then s else { s with tracked := s.tracked ++ [entity] }

end EventSession

namespace HandlerCode

/-- `Session::commit`. The hooks that its flush calls are code of the application too. -/
def commit (flush : HandlerCode Event → HandlerCode Event) (next : HandlerCode Event) :
    HandlerCode Event :=
  flush (.dispatch next)

/-- `Session::transaction`. Without transactions it is its callback and a `commit`. -/
def transaction (transactions outermost : Bool) (body flush : HandlerCode Event → HandlerCode Event)
    (next : HandlerCode Event) : HandlerCode Event :=
  body (flush (if transactions && !outermost then next else .dispatch next))

/-- A handler that has been called with an event of `own`, while the queues of `outer` are
    being handed out too; `nested` is a dispatch in between. -/
def run (nested : List EventQueue → EventSession Event → Dispatched Event) (own : EventQueue)
    (outer : List EventQueue) : HandlerCode Event → EventSession Event → Dispatched Event
  | .done, s => .returns s
  | .look next, s => (next s).run nested own outer s
  | .raise queue event next, s =>
    -- the loops over the open queues hold references into their vectors
    if queue ∈ own :: outer then .stops .undefinedBehaviour (s.step (.raises own queue))
    else next.run nested own outer ((s.step (.raises own queue)).push queue event)
  | .persist entity next, s =>
    next.run nested own outer ((s.step (.persists entity)).persist entity)
  | .dispatch next, s =>
    (nested (own :: outer) (s.step .dispatches)).andThen (next.run nested own outer)

end HandlerCode

namespace EventBus

variable (bus : EventBus Event)
  (nested : List EventQueue → EventSession Event → Dispatched Event)

/-- `DomainEventBus::dispatch`, for the handlers that are left. -/
def dispatch (own : EventQueue) (outer : List EventQueue) (queued : QueuedEvent Event) :
    List Nat → EventSession Event → Dispatched Event
  | [], s => .returns s
  | handler :: handlers, s =>
    if queued.number ∈ (s.queues own).map QueuedEvent.number then
      ((bus.code handler queued.event).run nested own outer
        (s.step (.hands queued.number handler))).andThen
        (dispatch own outer queued handlers)
    else .stops .undefinedBehaviour s

/-- `domain_event_queue::for_each` in `dispatch_queue`, for the events that are left. -/
def forEach (own : EventQueue) (outer : List EventQueue) :
    List (QueuedEvent Event) → EventSession Event → Dispatched Event
  | [], s => .returns s
  | queued :: rest, s =>
    if queued.number ∈ (s.queues own).map QueuedEvent.number then
      (bus.dispatch nested own outer queued (bus.handlers queued.event) s).andThen
        (forEach own outer rest)
    else .stops .undefinedBehaviour s

/-- `DomainEventBus::dispatch_queue`. -/
def dispatchQueue (own : EventQueue) (outer : List EventQueue) (s : EventSession Event) :
    Dispatched Event :=
  (bus.forEach nested own outer (s.queues own) s).andThen fun s => .returns (s.clear own)

/-- The queues of an entity, in the order of its members. -/
def queuesOf (entity : Key) : List EventQueue :=
  (List.range (bus.members entity)).map (EventQueue.mk entity)

/-- `TrackedEntity::dispatch_domain_events`, for the queues that are left. -/
def dispatchQueues (outer : List EventQueue) :
    List EventQueue → EventSession Event → Dispatched Event
  | [], s => .returns s
  | own :: queues, s => (bus.dispatchQueue nested own outer s).andThen (dispatchQueues outer queues)

/-- The loop of `UnitOfWork::dispatch_domain_events`, for the keys that are left. -/
def dispatchEntities (outer : List EventQueue) : List Key → EventSession Event → Dispatched Event
  | [], s => .returns s
  | key :: keys, s =>
    (bus.dispatchQueues nested outer (bus.queuesOf key) s).andThen (dispatchEntities outer keys)

/-- `UnitOfWork::dispatch_domain_events`; `depth` bounds how deep it is nested. -/
def dispatchDomainEvents : Nat → List EventQueue → EventSession Event → Dispatched Event
  | 0, _, s => .stops .depth s
  | depth + 1, outer, s =>
    bus.dispatchEntities (dispatchDomainEvents depth) outer s.tracked s

end EventBus

end MetalOrm.Native
