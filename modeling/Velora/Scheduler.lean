/-
# The scheduler's data and its critical sections

The state behind `SCHEDULER` (scheduler/mod.rs) and the code that runs on it under
the lock with interrupts disabled, one function of the source at a time:

* `spawn`, `spawn_isolated_inner`, `spawn_isolated`, `spawn_user`;
* the locked half of `reap_zombie` (`reapTake`);
* `schedule` and `exit_current_thread` from `interrupts::disable()` on
  (`scheduleRest`, `exitRest`), up to the `switch_to` they end in;
* `switch_to` and `set_rsp0` as far as they concern the scheduler's data;
* `pack_pid`, `unpack_pid` and `thread_alive`.

What may happen between these sections is the subject of `Preemption.lean`.

A thread id is an index of the thread table: the only ids the source ever makes
are `0` and results of `position` over the table, so `ThreadId` is the finite type
of those indices.
-/
import Velora.RingBuffer
import Velora.VirtAddr

/-- A physical frame, by number (its start address divided by 4096). -/
abbrev Frame := ℕ

/-- `MAX_THREADS` -/
abbrev maxThreads : ℕ := 16

instance neZero_maxThreads : NeZero maxThreads := ⟨by decide⟩

/-- `STACK_SIZE` of a kernel thread. -/
abbrev threadStackSize : ℕ := 64 * 1024

/-- `MAX_OPEN_FILES` -/
abbrev maxOpenFiles : ℕ := 4

/-- `ThreadId`, a slot of the thread table. -/
abbrev ThreadId := Fin maxThreads

/-- A thread's entry function: `spawn_user` installs `ring3_trampoline`, every other
creator a function of its own. -/
inductive Entry
  | function (address : ℕ)
  | ring3Trampoline
  deriving DecidableEq, Repr

/-- The `(entry, stack_top, args_ptr, args_len)` block of `spawn_user`. -/
structure UserEntry where
  entry : VirtAddr
  stackTop : VirtAddr
  argsPtr : VirtAddr
  argsLen : ℕ
  deriving DecidableEq

/-- `OpenFile` -/
structure OpenFile where
  data : List UInt8
  offset : ℕ
  deriving DecidableEq

/-- `Thread` -/
structure Thread where
  stackPointer : ℕ
  stackBase : ℕ
  stackSize : ℕ
  entry : Option Entry
  pageTable : Option Frame
  kernelStackTop : ℕ
  openFiles : Fin maxOpenFiles → Option OpenFile
  userEntry : Option UserEntry

/-- `ReadyQueue` -/
abbrev ReadyQueue := RingBuffer ThreadId maxThreads

namespace ReadyQueue

/-- `ReadyQueue::new` -/
def new : ReadyQueue where
  buf := fun _ => 0
  head := 0
  len := 0
  head_lt := by decide
  len_le := by decide

/-- `ReadyQueue::push_back` -/
def pushBack (q : ReadyQueue) (id : ThreadId) : Except Panic ReadyQueue :=
  if h : q.len < maxThreads then .ok (q.push id h) else .error .readyQueueFull

/-- `ReadyQueue::pop_front` -/
def popFront (q : ReadyQueue) : Option (ThreadId × ReadyQueue) :=
  if q.len = 0 then none else some (q.front, q.pop)

end ReadyQueue

/-- `SchedulerState` -/
structure SchedulerState where
  threads : ThreadId → Option Thread
  readyQueue : ReadyQueue
  current : ThreadId
  kernelPageTable : Frame
  zombie : Option ThreadId
  slotGenerations : ThreadId → UInt64

/-- A pid handed out by `spawn_isolated` and `spawn_user`. -/
abbrev Pid := UInt64

/-- `pack_pid` -/
def packPid (slot : ThreadId) (generation : UInt64) : Pid :=
  (generation <<< 8) ||| UInt64.ofNat slot.val

/-- `unpack_pid` -/
def unpackPid (pid : Pid) : ℕ × UInt64 :=
  ((pid &&& 0xFF).toNat, pid >>> 8)

/-- `init`: the boot thread in slot 0, every other slot free. -/
def SchedulerState.init (kernelPageTable : Frame) : SchedulerState where
  threads := fun i =>
    if i = 0 then
      some { stackPointer := 0, stackBase := 0, stackSize := 0, entry := none,
             pageTable := none, kernelStackTop := 0, openFiles := fun _ => none,
             userEntry := none }
    else none
  readyQueue := ReadyQueue.new
  current := 0
  kernelPageTable := kernelPageTable
  zombie := none
  slotGenerations := fun i => if i = 0 then 1 else 0

/-! ## Creating threads -/

/-- `build_initial_stack`: the address of the `r15` slot of the frame it lays down, seven
words below the padding word at the top of the stack. -/
def buildInitialStack (stackBase : ℕ) : ℕ :=
  stackBase + threadStackSize - 16 - 6 * 8

namespace SchedulerState

/-- `threads.iter().position(Option::is_none)` -/
def freeSlot (s : SchedulerState) : Option ThreadId :=
  (List.finRange maxThreads).find? (fun i => (s.threads i).isNone)

/-- `slot_generations[id] += 1`, with the overflow check of `+=`. -/
def nextGeneration (g : UInt64) : Except Panic UInt64 :=
  if g.toNat + 1 < 0x10000000000000000 then .ok (g + 1) else .error .arithmeticOverflow

/-- The locked part `spawn` and `spawn_isolated_inner` share: take the first free slot,
bump its generation, install the thread and queue it. -/
def install (s : SchedulerState) (t : Thread) : Except Panic (ThreadId × SchedulerState) := do
  let id ← s.freeSlot.expect .threadTableFull
  let generation ← nextGeneration (s.slotGenerations id)
  let queue ← ReadyQueue.pushBack s.readyQueue id
  return (id, { s with
    slotGenerations := Function.update s.slotGenerations id generation
    threads := Function.update s.threads id (some t)
    readyQueue := queue })

/-- The `Thread` record of a new thread on a stack at `stackBase`. -/
def newThread (stackBase : ℕ) (entry : Entry) (pageTable : Option Frame)
    (userEntry : Option UserEntry) : Thread where
  stackPointer := buildInitialStack stackBase
  stackBase := stackBase
  stackSize := threadStackSize
  entry := some entry
  pageTable := pageTable
  kernelStackTop := stackBase + threadStackSize
  openFiles := fun _ => none
  userEntry := userEntry

/-- `spawn`, from the stack allocation on: a null `stackBase` is a failed allocation. -/
def spawn (s : SchedulerState) (stackBase : ℕ) (entry : Entry) : Except Panic SchedulerState := do
  if stackBase = 0 then .error .stackAllocationFailed
  let (_, s) ← s.install (newThread stackBase entry none none)
  return s

/-- `spawn_isolated_inner`, without the sharing of the stack pages: the pid is packed from
the slot and its new generation. -/
def spawnIsolatedInner (s : SchedulerState) (stackBase : ℕ) (entry : Entry)
    (userEntry : Option UserEntry) (pageTable : Frame) : Except Panic (Pid × SchedulerState) := do
  if stackBase = 0 then .error .stackAllocationFailed
  let (id, s) ← s.install (newThread stackBase entry (some pageTable) userEntry)
  return (packPid id (s.slotGenerations id), s)

/-- `spawn_isolated` -/
def spawnIsolated (s : SchedulerState) (stackBase : ℕ) (entry : Entry) (pageTable : Frame) :
    Except Panic (Pid × SchedulerState) :=
  s.spawnIsolatedInner stackBase entry none pageTable

/-- `spawn_user` -/
def spawnUser (s : SchedulerState) (stackBase : ℕ) (userEntry : UserEntry) (pageTable : Frame) :
    Except Panic (Pid × SchedulerState) :=
  s.spawnIsolatedInner stackBase .ring3Trampoline (some userEntry) pageTable

/-! ## First instructions of a thread -/

/-- The locked part of `thread_trampoline`: take the current thread's entry point. -/
def takeEntry (s : SchedulerState) : Except Panic (Entry × SchedulerState) :=
  match s.threads s.current with
  | none => .error .noEntryPoint
  | some t =>
    match t.entry with
    | none => .error .noEntryPoint
    | some e => .ok (e, { s with
        threads := Function.update s.threads s.current (some { t with entry := none }) })

/-- The locked part of `ring3_trampoline`: take the current thread's user entry. -/
def takeUserEntry (s : SchedulerState) : Except Panic (UserEntry × SchedulerState) :=
  match s.threads s.current with
  | none => .error .noUserEntryPoint
  | some t =>
    match t.userEntry with
    | none => .error .noUserEntryPoint
    | some e => .ok (e, { s with
        threads := Function.update s.threads s.current (some { t with userEntry := none }) })

/-! ## Scheduling decisions -/

/-- The locked half of `reap_zombie`: `zombie.take()?`, then `threads[zombie_id].take()?`. -/
def reapTake (s : SchedulerState) : Option Thread × SchedulerState :=
  match s.zombie with
  | none => (none, s)
  | some z =>
    match s.threads z with
    | none => (none, { s with zombie := none })
    | some dead =>
      (some dead, { s with zombie := none, threads := Function.update s.threads z none })

/-- What a scheduling decision hands to `switch_to` and `set_rsp0`. -/
structure Switch where
  previous : ThreadId
  next : ThreadId
  newStack : ℕ
  newPageTable : Frame
  newRsp0 : ℕ
  deriving DecidableEq

/-- The end both decisions share: look the outgoing and the incoming thread up and read
the incoming one's stack, page table and privilege stack. -/
def prepareSwitch (s : SchedulerState) (previous next : ThreadId) : Except Panic Switch := do
  let _ ← (s.threads previous).expect .currentThreadMissing
  let nextThread ← (s.threads next).expect .nextThreadMissing
  return { previous := previous, next := next, newStack := nextThread.stackPointer,
           newPageTable := nextThread.pageTable.getD s.kernelPageTable,
           newRsp0 := nextThread.kernelStackTop }

/-- `schedule` after `interrupts::disable()`: rotate, or return early on an empty queue. -/
def scheduleRest (s : SchedulerState) : Except Panic (Option Switch × SchedulerState) :=
  match ReadyQueue.popFront s.readyQueue with
  | none => .ok (none, s)
  | some (next, queue) => do
    let previous := s.current
    let queue ← ReadyQueue.pushBack queue previous
    let s := { s with readyQueue := queue, current := next }
    let sw ← s.prepareSwitch previous next
    return (some sw, s)

/-- `exit_current_thread` after `interrupts::disable()`: the caller becomes the zombie and is
not queued again. -/
def exitRest (s : SchedulerState) : Except Panic (Switch × SchedulerState) := do
  let id := s.current
  if id = 0 then .error .bootThreadExit
  let (next, queue) ← (ReadyQueue.popFront s.readyQueue).expect .noOtherThread
  let s := { s with readyQueue := queue, current := next, zombie := some id }
  let sw ← s.prepareSwitch id next
  return (sw, s)

/-- Changes the record of a slot in place. -/
def mapThread (s : SchedulerState) (id : ThreadId) (f : Thread → Thread) : SchedulerState :=
  { s with threads := Function.update s.threads id ((s.threads id).map f) }

/-- `*old_stack_slot = rsp`: the store `switch_to` makes into the outgoing thread's record. -/
def saveStackPointer (s : SchedulerState) (id : ThreadId) (rsp : ℕ) : SchedulerState :=
  s.mapThread id (fun t => { t with stackPointer := rsp })

/-! ## Pids -/

/-- `a[i]` for a Rust array. -/
def indexArray {α : Type} {n : ℕ} (a : Fin n → α) (i : ℕ) : Except Panic α :=
  if h : i < n then .ok (a ⟨i, h⟩) else .error .indexOutOfBounds

/-- `thread_alive`: the three tests are joined by `&&`, so the table is indexed only below
`MAX_THREADS`. -/
def threadAlive (s : SchedulerState) (pid : Pid) : Except Panic Bool :=
  let (slot, generation) := unpackPid pid
  if slot < maxThreads then do
    let thread ← indexArray s.threads slot
    if thread.isSome then do
      let g ← indexArray s.slotGenerations slot
      return g == generation
    else return false
  else return false

end SchedulerState
