import BoostActor.Lib.Run
import BoostActor.Lib.LinkedList

/-!
# The mailbox queue

`single_reader_queue`: any number of writers push elements on a stack, and the reader
takes the whole stack at once and reverses it into a list of its own. Two addresses that
no element has mark a stack that is empty and a reader that is blocked; the null pointer
marks a closed queue.

Every access to the stack is one step, so that the accesses of writers and reader
interleave in any order, and so is every round of the loops of the reader. Elements are
known by the call of `enqueue` they were passed to; their addresses are those of memory
and are used again once an element has left the queue.

`pushed`, `departed` and `replaced` do not exist in the code: they record in which
order compare-and-swap succeeded, which elements left the queue and how, and whether
`close` has replaced the stack.
-/

namespace BoostActor

open Lib

/-- The address of an element. -/
abbrev Addr := Nat

/-- A call of `enqueue`; it stands for the element that it was called with, too. -/
abbrev CallId := Nat

/-- A value of type `pointer`. The dummies are `stack_empty_dummy()` and
`reader_blocked_dummy()`, addresses inside of the queue. -/
inductive Pointer where
  | null
  | stackEmptyDummy
  | readerBlockedDummy
  | node (a : Addr)
deriving DecidableEq, Repr

/-- `is_dummy(ptr)`. -/
def Pointer.isDummy (ptr : Pointer) : Bool :=
  ptr = .stackEmptyDummy || ptr = .readerBlockedDummy

/-- The next pointer of an element that is put on top of `e`: a dummy is never part of a
non-empty list. -/
def Pointer.below (e : Pointer) : Pointer := if e.isDummy then .null else e

/-- `enqueue_result`. -/
inductive EnqueueResult where
  | success
  | unblockedReader
  | queueClosed
deriving DecidableEq, Repr

/-- The progress of a call of `enqueue(new_element)`. Once `e` has been loaded, `late`
tells whether this was after `close` replaced the stack. -/
inductive Call where
  | notStarted
  /-- about to load the stack -/
  | start (newElement : Addr)
  /-- at the beginning of the loop -/
  | loaded (newElement : Addr) (e : Pointer) (late : Bool)
  /-- the next pointer is set, about to compare and swap -/
  | linked (newElement : Addr) (e : Pointer) (late : Bool)
  | returned (result : EnqueueResult) (late : Bool)
deriving DecidableEq, Repr

/-- The caller of `fetch_new_data`. -/
inductive Fetcher where
  | tryPop
  | close
deriving DecidableEq, Repr

/-- The argument `end_ptr` of `fetch_new_data`. -/
def Fetcher.endPtr : Fetcher → Pointer
  | .tryPop => .stackEmptyDummy
  | .close => .null

/-- The progress of the reader. -/
inductive QueueReader where
  | idle
  /-- `fetch_new_data`, about to load the stack -/
  | fetch (k : Fetcher)
  /-- at the beginning of the outer loop -/
  | swap (k : Fetcher) (e : Pointer)
  /-- at the beginning of the inner loop -/
  | reverse (k : Fetcher) (e : Pointer)
  /-- `close`, in the first call of `clear_cached_elements` -/
  | clear
  /-- in the second one -/
  | clearFetched
  | closed
deriving DecidableEq, Repr

/-- How an element leaves the queue. -/
inductive Departure where
  /-- returned by `try_pop` -/
  | popped
  /-- passed to the function given to `close` -/
  | passed
deriving DecidableEq, Repr

/-- The queue, with the memory of its elements and all that work on it. -/
structure Queue where
  stack : Pointer
  head : Pointer
  next : Addr → Pointer
  value : Addr → CallId
  inUse : Addr → Bool
  calls : CallId → Call
  reader : QueueReader
  pushed : List CallId
  departed : List (CallId × Departure)
  replaced : Bool

namespace Queue

/-- A new queue. What its memory holds is arbitrary. -/
def initial (next : Addr → Pointer) (value : Addr → CallId) : Queue where
  stack := .stackEmptyDummy
  head := .null
  next := next
  value := value
  inUse := fun _ => false
  calls := fun _ => .notStarted
  reader := .idle
  pushed := []
  departed := []
  replaced := false

def isInitial (q : Queue) : Prop := ∃ next value, q = initial next value

-- -------------------------
-- Writers
-- -------------------------

/-- A call of `enqueue` with a new element at an address that is free. -/
def beginEnqueue (q : Queue) (c : CallId) (a : Addr) : Option Queue :=
  if q.calls c = .notStarted ∧ q.inUse a = false then
    some { q with
      value := Function.update q.value a c
      inUse := Function.update q.inUse a true
      calls := Function.update q.calls c (.start a) }
  else none

/-- The next step of a call of `enqueue`. -/
def stepEnqueue (q : Queue) (c : CallId) : Option Queue :=
  match q.calls c with
  | .start a =>
    some { q with calls := Function.update q.calls c (.loaded a q.stack q.replaced) }
  | .loaded a e late =>
    if e = .null then
      -- the queue has been closed
      some { q with
        inUse := Function.update q.inUse a false
        calls := Function.update q.calls c (.returned .queueClosed late) }
    else
      some { q with
        next := Function.update q.next a e.below
        calls := Function.update q.calls c (.linked a e late) }
  | .linked a e late =>
    if q.stack = e then
      let result := if e = .readerBlockedDummy then .unblockedReader else .success
      some { q with
        stack := .node a
        calls := Function.update q.calls c (.returned result late)
        pushed := q.pushed ++ [c] }
    else
      some { q with calls := Function.update q.calls c (.loaded a q.stack q.replaced) }
  | _ => none

-- -------------------------
-- QueueReader
-- -------------------------

/-- Takes the first element of the list of the reader, which then goes on as `next`. The
element leaves the queue, and its address may be used again. -/
def depart (q : Queue) (a : Addr) (how : Departure) (next : QueueReader) : Queue :=
  { q with
    head := q.next a
    inUse := Function.update q.inUse a false
    departed := q.departed ++ [(q.value a, how)]
    reader := next }

/-- `fetch_new_data` has returned `false`. -/
def fetchedNothing (q : Queue) : Fetcher → Queue
  | .tryPop => { q with reader := .idle }
  | .close => { q with reader := .closed }

/-- `fetch_new_data` has returned `true`: `take_head` takes the first element, `close`
clears the list. -/
def fetchedData (q : Queue) : Fetcher → Option Queue
  | .tryPop => match q.head with
    | .node a => some (q.depart a .popped .idle)
    | _ => none
  | .close => some { q with reader := .clearFetched }

/-- A call of `try_pop`. -/
def tryPop (q : Queue) : Option Queue :=
  if q.reader = .idle then
    match q.head with
    | .null => some { q with reader := .fetch .tryPop }
    | .node a => some (q.depart a .popped .idle)
    | _ => none
  else none

/-- `try_block()`. -/
def tryBlock (q : Queue) : Bool × Queue :=
  if q.stack = .stackEmptyDummy then (true, { q with stack := .readerBlockedDummy })
  else (q.stack = .readerBlockedDummy, q)

/-- `try_unblock()`. -/
def tryUnblock (q : Queue) : Bool × Queue :=
  if q.stack = .readerBlockedDummy then (true, { q with stack := .stackEmptyDummy })
  else (false, q)

/-- One round of `clear_cached_elements(f)`; afterwards the reader goes on as `next`. -/
def clearCachedElements (q : Queue) (next : QueueReader) : Option Queue :=
  match q.head with
  | .node a => some (q.depart a .passed q.reader)
  | .null => some { q with reader := next }
  | _ => none

/-- The next step of the reader inside of `try_pop` or `close`. The weak
compare-and-swap may fail although the stack has not changed. -/
def stepReader (q : Queue) (spurious : Bool) : Option Queue :=
  match q.reader with
  | .fetch k => some { q with reader := .swap k q.stack }
  | .swap k e =>
    if e = k.endPtr then some (q.fetchedNothing k)
    else if q.stack = e ∧ spurious = false then
      let q := { q with stack := k.endPtr, replaced := q.replaced || k = Fetcher.close }
      if e.isDummy then some (q.fetchedNothing k) else some { q with reader := .reverse k e }
    else some { q with reader := .swap k q.stack }
  | .reverse k e =>
    match e with
    | .null => q.fetchedData k
    | .node a =>
      some { q with
        next := Function.update q.next a q.head
        head := .node a
        reader := .reverse k (q.next a) }
    | _ => none
  | .clear => q.clearCachedElements (.fetch .close)
  | .clearFetched => q.clearCachedElements .closed
  | _ => none

/-- What writers and reader do next. -/
inductive Input where
  | beginEnqueue (c : CallId) (a : Addr)
  | stepEnqueue (c : CallId)
  | tryPop
  | tryBlock
  | tryUnblock
  | close
  | stepReader (spurious : Bool)
deriving DecidableEq, Repr

/-- One step. The reader starts a call only when it is not inside of another one, and
none after `close`. -/
def step (q : Queue) : Input → Option Queue
  | .beginEnqueue c a => q.beginEnqueue c a
  | .stepEnqueue c => q.stepEnqueue c
  | .tryPop => q.tryPop
  | .tryBlock => if q.reader = .idle then some q.tryBlock.2 else none
  | .tryUnblock => if q.reader = .idle then some q.tryUnblock.2 else none
  | .close => if q.reader = .idle then some { q with reader := .clear } else none
  | .stepReader spurious => q.stepReader spurious

/-- The states that some interleaving reaches. -/
def Reachable : Queue → Prop := Reach isInitial step anyStep

end Queue

end BoostActor
