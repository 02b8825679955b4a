/-
# Spin locks, interrupts and one CPU

Four spin locks are taken both by thread code and by code that runs with interrupts
disabled: `FRAME_ALLOCATOR`, `PHYSICAL_MEMORY_OFFSET`, the heap's `LockedHeap` and
`SCHEDULER`.  On one CPU a spin lock that is found taken with interrupts disabled is
never given back: its holder can only run again after an interrupt.

Here every function of the source that takes one of the locks is a list of
instructions (`Call.code`), with the interrupt flag the source has at each of them:
`without_interrupts` disables and restores it, `GlobalFrameAllocator`,
`physical_memory_offset` and the heap leave it as it is.  A thread's body is any
sequence of such calls with interrupts enabled, an `int 0x80` handler any sequence
of them with interrupts disabled, and the timer interrupt may come between any two
instructions executed with interrupts enabled.

`Disciplined` is the static check of an instruction list: every lock it acquires is
free at that point, `SCHEDULER` is held with interrupts disabled only, and nothing
is held across a return from an interrupt or a switch.  All code of the kernel
passes it, and in a run whose ticks come only while the interrupted code holds none of the other
three locks it carries over to every state (`no_self_deadlock`).  The condition is needed:
`reapDeadlockRun` is the reclaim loop of `kernel_main`, interrupted inside
`allocate_frame` while a zombie is pending.
-/
import Velora.Preemption

/-- The spin locks. -/
inductive Lock
  | frameAllocator
  | physicalMemoryOffset
  | heap
  | scheduler
  deriving DecidableEq, Repr

/-- How `Vec::push` finds the free list: with room, without a buffer (one allocation), or full
(an allocation and a deallocation). -/
inductive Growth
  | fits
  | first
  | full
  deriving DecidableEq, Repr

/-- What a CPU executes, as far as locks and interrupts are concerned. -/
inductive Instr
  | acquire (l : Lock)
  | release (l : Lock)
  /-- `interrupts::disable()` -/
  | cli
  /-- `interrupts::enable()` -/
  | sti
  /-- Return from an interrupt or a system call. -/
  | iret
  /-- The critical section of a spawn. -/
  | install (t : Thread)
  /-- The critical section of `thread_trampoline`. -/
  | takeEntry
  /-- The critical section of `ring3_trampoline`. -/
  | takeUserEntry
  /-- The critical section of `reap_zombie` and everything after it; `ifOn` is the flag
  `without_interrupts` restores. -/
  | reapTake (ifOn : Bool)
  /-- `schedule` from the decision to `switch_to`; the guard is dropped before the switch. -/
  | schedule
  /-- `exit_current_thread` from the decision to `switch_to`. -/
  | exit

/-- The functions that take a lock. -/
inductive Call
  /-- `GlobalFrameAllocator::allocate_frame` -/
  | allocateFrame
  /-- `GlobalFrameAllocator::deallocate_frame` -/
  | deallocateFrame (g : Growth)
  /-- An allocation or deallocation through the global allocator. -/
  | heap
  /-- `physical_memory_offset` -/
  | physicalMemoryOffset
  /-- `kernel_page_table`, `thread_alive` -/
  | readScheduler
  /-- `with_current_thread`, whose closure may drop buffers. -/
  | withCurrentThread (drops : ℕ)
  /-- `spawn` -/
  | spawn (stackBase : ℕ) (entry : Entry)
  /-- `spawn_isolated_inner`; mapping the stack pages allocates `tables` page tables. -/
  | spawnIsolatedInner (stackBase : ℕ) (entry : Entry) (userEntry : Option UserEntry)
      (pageTable : Frame) (tables : ℕ)
  /-- `schedule` -/
  | schedule
  /-- `exit_current_thread` -/
  | exitCurrentThread

/-! ## The code of each call -/

namespace Instr

/-- One critical section of a lock that is held for a single operation. -/
def locked (l : Lock) : List Instr := [.acquire l, .release l]

/-- `n` such sections in a row. -/
def repeated (l : Lock) (n : ℕ) : List Instr := (List.replicate n (locked l)).flatten

/-- `without_interrupts`, called with the flag `ifOn`. -/
def withoutInterrupts (ifOn : Bool) (body : List Instr) : List Instr :=
  if ifOn then .cli :: (body ++ [.sti]) else body

/-- `GlobalFrameAllocator::deallocate_frame`: the push happens under the lock. -/
def deallocateFrame (g : Growth) : List Instr :=
  let heapCalls := match g with | .fits => 0 | .first => 1 | .full => 2
  .acquire .frameAllocator :: (repeated .heap heapCalls ++ [.release .frameAllocator])

/-- `reap_zombie`, up to its critical section. -/
def reapZombie (ifOn : Bool) : List Instr :=
  (if ifOn then [.cli] else []) ++ [.acquire .scheduler, .reapTake ifOn]

/-- The unlocked half of `reap_zombie`: the stack goes back to the heap, the address space to
the frame allocator, and the open files are dropped. -/
def freeDead (dead : Thread) (frames : List Growth) (files : ℕ) : List Instr :=
  locked .heap ++
    (if dead.pageTable.isSome then
      locked .physicalMemoryOffset ++ frames.flatMap deallocateFrame
    else []) ++ repeated .heap files

/-- `thread_trampoline`: entered with interrupts disabled, it enables them. -/
def threadTrampoline : List Instr :=
  [.acquire .scheduler, .takeEntry, .release .scheduler, .sti]

/-- `ring3_trampoline` -/
def ring3Trampoline : List Instr :=
  withoutInterrupts true [.acquire .scheduler, .takeUserEntry, .release .scheduler]

end Instr

open Instr in
/-- What a call executes when it is made with the interrupt flag `ifOn`. -/
def Call.code (ifOn : Bool) : Call → List Instr
  | .allocateFrame => locked .frameAllocator
  | .deallocateFrame g => Instr.deallocateFrame g
  | .heap => locked .heap
  | .physicalMemoryOffset => locked .physicalMemoryOffset
  | .readScheduler => withoutInterrupts ifOn (locked .scheduler)
  | .withCurrentThread drops =>
    withoutInterrupts ifOn (.acquire .scheduler :: (repeated .heap drops ++ [.release .scheduler]))
  | .spawn stackBase entry =>
    withoutInterrupts ifOn (locked .heap ++
      [.acquire .scheduler, .install (SchedulerState.newThread stackBase entry none none),
       .release .scheduler])
  | .spawnIsolatedInner stackBase entry userEntry pageTable tables =>
    withoutInterrupts ifOn (locked .heap ++ (repeated .frameAllocator tables ++
      [.acquire .scheduler,
       .install (SchedulerState.newThread stackBase entry (some pageTable) userEntry),
       .release .scheduler]))
  | .schedule =>
    reapZombie ifOn ++ ([.cli, .acquire .scheduler, .schedule] ++ if ifOn then [.sti] else [])
  | .exitCurrentThread => reapZombie ifOn ++ [.cli, .acquire .scheduler, .exit]

/-- `timer_interrupt_handler`, entered with interrupts disabled. -/
def timerInterruptHandler : List Instr := Call.code false .schedule ++ [.iret]

/-- An `int 0x80` handler that makes the given calls. -/
def systemCall (calls : List Call) : List Instr := calls.flatMap (Call.code false) ++ [.iret]

/-! ## The machine -/

/-- An execution context: a thread and the number of handlers it is inside of. -/
structure Ctx where
  thread : ThreadId
  depth : ℕ
  deriving DecidableEq, Repr

/-- The state: the scheduler's, the interrupt flag, who holds each lock, and for each thread
what it still has to execute of the calls it is in, how many handlers it is inside of, and
whether it is in ring 3 outside of them. -/
structure LockMachine where
  sched : SchedulerState
  ifOn : Bool
  held : Lock → Option Ctx
  code : ThreadId → List Instr
  depth : ThreadId → ℕ
  inRing3 : ThreadId → Bool

/-- What can happen next. -/
inductive LockMachine.Action
  /-- A kernel-mode body makes a call. -/
  | call (c : Call)
  /-- A kernel-mode body drops to ring 3. -/
  | enterRing3
  /-- A ring-3 program executes `int 0x80`. -/
  | int80 (calls : List Call)
  /-- The next instruction; the arguments say what a reap that starts now will free. -/
  | exec (frames : List Growth) (files : ℕ)
  /-- The timer interrupt. -/
  | tick

namespace LockMachine

/-- The state in which `kernel_main` enables interrupts. -/
def boot (kernelPageTable : Frame) : LockMachine where
  sched := .init kernelPageTable
  ifOn := true
  held := fun _ => none
  code := fun _ => []
  depth := fun _ => 0
  inRing3 := fun _ => false

/-- The running context. -/
def ctx (k : LockMachine) : Ctx :=
  { thread := k.sched.current, depth := k.depth k.sched.current }

/-- Replaces what the running thread still has to execute. -/
def continueWith (k : LockMachine) (cs : List Instr) : LockMachine :=
  { k with code := Function.update k.code k.sched.current cs }

/-- Changes the number of handlers the running thread is inside of. -/
def setDepth (k : LockMachine) (d : ℕ) : LockMachine :=
  { k with depth := Function.update k.depth k.sched.current d }

/-- Executes one instruction; `rest` is what follows it. -/
def execInstr (k : LockMachine) (rest : List Instr) (frames : List Growth) (files : ℕ) :
    Instr → Except Halt LockMachine
  | .acquire l =>
    match k.held l with
    | none => .ok { k.continueWith rest with held := Function.update k.held l (some k.ctx) }
    -- the lock is taken: spin
    | some _ => .ok k
  | .release l => .ok { k.continueWith rest with held := Function.update k.held l none }
  | .cli => .ok { k.continueWith rest with ifOn := false }
  | .sti => .ok { k.continueWith rest with ifOn := true }
  | .iret =>
    .ok { (k.continueWith rest).setDepth (k.depth k.sched.current - 1) with ifOn := true }
  | .install t => do
    let (id, s) ← orPanic (k.sched.install t)
    return { k with
      sched := s
      code := Function.update (k.continueWith rest).code id Instr.threadTrampoline
      depth := Function.update k.depth id 0
      inRing3 := Function.update k.inRing3 id false }
  | .takeEntry => do
    let (e, s) ← orPanic k.sched.takeEntry
    let next := if e = .ring3Trampoline then rest ++ Instr.ring3Trampoline else rest
    return { k.continueWith next with sched := s }
  | .takeUserEntry => do
    let (_, s) ← orPanic k.sched.takeUserEntry
    return { k.continueWith rest with
      sched := s
      inRing3 := Function.update k.inRing3 k.sched.current true }
  | .reapTake ifOn =>
    let work := match k.sched.reapTake.1 with
      | some dead => Instr.freeDead dead frames files
      | none => []
    let next := .release .scheduler :: ((if ifOn then [.sti] else []) ++ (work ++ rest))
    .ok { k.continueWith next with sched := k.sched.reapTake.2 }
  | .schedule => do
    let (_, s) ← orPanic k.sched.scheduleRest
    return { k.continueWith rest with
      sched := s
      held := Function.update k.held .scheduler none }
  | .exit => do
    let (_, s) ← orPanic k.sched.exitRest
    return { k.continueWith [] with
      sched := s
      held := Function.update k.held .scheduler none }

/-- One step of the machine. -/
def step (k : LockMachine) : Action → Except Halt LockMachine
  | .call c =>
    match k.code k.sched.current, k.inRing3 k.sched.current with
    | [], false => .ok (k.continueWith (c.code k.ifOn))
    | _, _ => .error .refused
  | .enterRing3 =>
    match k.code k.sched.current with
    | [] => .ok { k with inRing3 := Function.update k.inRing3 k.sched.current true }
    | _ => .error .refused
  | .int80 calls =>
    match k.code k.sched.current, k.inRing3 k.sched.current with
    | [], true =>
      .ok { (k.continueWith (systemCall calls)).setDepth (k.depth k.sched.current + 1) with
        ifOn := false }
    | _, _ => .error .refused
  | .exec frames files =>
    match k.code k.sched.current with
    | [] => .error .refused
    | i :: rest => k.execInstr rest frames files i
  | .tick =>
    if k.ifOn then
      .ok { (k.continueWith (timerInterruptHandler ++ k.code k.sched.current)).setDepth
          (k.depth k.sched.current + 1) with
        ifOn := false }
    else .error .refused

/-- Code with interrupts disabled is about to acquire a lock that is held. -/
def Deadlocked (k : LockMachine) : Prop :=
  k.ifOn = false ∧ ∃ l c rest, k.code k.sched.current = .acquire l :: rest ∧ k.held l = some c

/-- **A deadlock is for ever**: the only step left is to spin. -/
theorem deadlocked_forever {k k' : LockMachine} {a : Action} (h : k.Deadlocked)
    (hs : k.step a = .ok k') : k' = k := by
  obtain ⟨hif, l, c, rest, hcode, hheld⟩ := h
  cases a with
  | exec frames files =>
    simp only [step, hcode, execInstr, hheld] at hs
    cases hs
    rfl
  | _ => simp [step, hcode, hif] at hs

end LockMachine

/-! ## The discipline -/

/-- No lock is taken. -/
def allFree : Lock → Bool := fun _ => false

/-- Only `SCHEDULER` is taken. -/
def schedulerOnly : Lock → Bool := Function.update allFree .scheduler true

/-- The static check of an instruction list that is entered with the interrupt flag and the
locks given. -/
def Disciplined : Bool → (Lock → Bool) → List Instr → Prop
  | b, taken, [] => b = true ∧ taken = allFree
  | b, taken, .acquire l :: cs =>
    taken l = false ∧ (l = .scheduler → b = false) ∧
      Disciplined b (Function.update taken l true) cs
  | b, taken, .release l :: cs => taken l = true ∧ Disciplined b (Function.update taken l false) cs
  | _, taken, .cli :: cs => Disciplined false taken cs
  | _, taken, .sti :: cs => taken .scheduler = false ∧ Disciplined true taken cs
  | _, taken, .iret :: cs => taken = allFree ∧ Disciplined true allFree cs
  | b, taken, .install _ :: cs => Disciplined b taken cs
  | b, taken, .takeEntry :: cs => Disciplined b taken cs
  | b, taken, .takeUserEntry :: cs => Disciplined b taken cs
  | b, taken, .reapTake ifOn :: cs =>
    b = false ∧ taken = schedulerOnly ∧ Disciplined ifOn allFree cs
  | b, taken, .schedule :: cs => b = false ∧ taken = schedulerOnly ∧ Disciplined false allFree cs
  | b, taken, .exit :: _ => b = false ∧ taken = schedulerOnly

/-- A block that can stand in front of any disciplined code. -/
def Neutral (b : Bool) (taken : Lock → Bool) (block : List Instr) : Prop :=
  ∀ cs, Disciplined b taken cs → Disciplined b taken (block ++ cs)

section Blocks

variable {b : Bool} {taken : Lock → Bool} {l : Lock}

theorem neutral_nil : Neutral b taken [] := fun _ h => h

theorem Neutral.append {c d : List Instr} (hc : Neutral b taken c) (hd : Neutral b taken d) :
    Neutral b taken (c ++ d) := by
  intro cs h
  rw [List.append_assoc]
  exact hc _ (hd _ h)

theorem Neutral.flatMap {α : Type} {f : α → List Instr} (h : ∀ x, Neutral b taken (f x))
    (xs : List α) : Neutral b taken (xs.flatMap f) := by
  induction xs with
  | nil => exact neutral_nil
  | cons x xs ih =>
    rw [List.flatMap_cons]
    exact (h x).append ih

theorem update_update_self (hfree : taken l = false) :
    Function.update (Function.update taken l true) l false = taken := by
  rw [Function.update_idem, ← hfree, Function.update_eq_self]

/-- A critical section around neutral code is neutral. -/
theorem neutral_critical (body : List Instr) (hfree : taken l = false)
    (hif : l = .scheduler → b = false) (hbody : Neutral b (Function.update taken l true) body) :
    Neutral b taken (.acquire l :: (body ++ [.release l])) := by
  intro cs h
  rw [List.cons_append, List.append_assoc]
  refine ⟨hfree, hif, hbody _ ⟨Function.update_self _ _ _, ?_⟩⟩
  rw [update_update_self hfree]
  exact h

theorem neutral_locked (hfree : taken l = false) (hif : l = .scheduler → b = false) :
    Neutral b taken (Instr.locked l) :=
  neutral_critical [] hfree hif neutral_nil

theorem neutral_repeated (hfree : taken l = false) (hif : l = .scheduler → b = false) (n : ℕ) :
    Neutral b taken (Instr.repeated l n) := by
  unfold Instr.repeated
  induction n with
  | zero => exact neutral_nil
  | succ n ih =>
    rw [List.replicate_succ, List.flatten_cons]
    exact (neutral_locked hfree hif).append ih

/-- `without_interrupts` around code that is neutral with interrupts disabled. -/
theorem neutral_withoutInterrupts {body : List Instr} (hsched : taken .scheduler = false)
    (hbody : Neutral false taken body) : Neutral b taken (Instr.withoutInterrupts b body) := by
  cases b with
  | false => exact hbody
  | true =>
    intro cs h
    show Disciplined false taken ((body ++ [.sti]) ++ cs)
    rw [List.append_assoc]
    exact hbody _ ⟨hsched, h⟩

theorem neutral_deallocateFrame (g : Growth) : Neutral b allFree (Instr.deallocateFrame g) := by
  refine neutral_critical _ rfl (fun h => by cases h) (neutral_repeated ?_ (fun h => by cases h) _)
  rfl

theorem neutral_freeDead (dead : Thread) (frames : List Growth) (files : ℕ) :
    Neutral b allFree (Instr.freeDead dead frames files) := by
  have hheap : ∀ n, Neutral b allFree (Instr.repeated .heap n) :=
    neutral_repeated rfl (fun h => by cases h)
  refine ((neutral_locked rfl (fun h => by cases h)).append ?_).append (hheap files)
  split_ifs
  · exact (neutral_locked rfl (fun h => by cases h)).append
      (Neutral.flatMap neutral_deallocateFrame frames)
  · exact neutral_nil

/-- **Every call of the kernel keeps the discipline**, with interrupts on or off. -/
theorem neutral_call (b : Bool) (c : Call) : Neutral b allFree (c.code b) := by
  have hheap : ∀ n, Neutral false allFree (Instr.repeated .heap n) :=
    neutral_repeated rfl (fun h => by cases h)
  have hinstall : ∀ t, Neutral false allFree [.acquire .scheduler, .install t, .release .scheduler] :=
    fun t => neutral_critical [.install t] rfl (fun _ => rfl) (fun _ h => h)
  cases c with
  | allocateFrame => exact neutral_locked rfl (fun h => by cases h)
  | deallocateFrame g => exact neutral_deallocateFrame g
  | heap => exact neutral_locked rfl (fun h => by cases h)
  | physicalMemoryOffset => exact neutral_locked rfl (fun h => by cases h)
  | readScheduler => exact neutral_withoutInterrupts rfl (neutral_locked rfl (fun _ => rfl))
  | withCurrentThread drops =>
    refine neutral_withoutInterrupts rfl (neutral_critical _ rfl (fun _ => rfl) ?_)
    exact neutral_repeated rfl (fun h => by cases h) drops
  | spawn base e =>
    exact neutral_withoutInterrupts rfl
      ((neutral_locked rfl (fun h => by cases h)).append (hinstall _))
  | spawnIsolatedInner base e u pt tables =>
    exact neutral_withoutInterrupts rfl ((neutral_locked rfl (fun h => by cases h)).append
      ((neutral_repeated rfl (fun h => by cases h) tables).append (hinstall _)))
  | schedule =>
    intro cs h
    cases b with
    | false => exact ⟨rfl, fun _ => rfl, rfl, rfl, rfl, fun _ => rfl, rfl, rfl, h⟩
    | true => exact ⟨rfl, fun _ => rfl, rfl, rfl, rfl, fun _ => rfl, rfl, rfl, rfl, h⟩
  | exitCurrentThread =>
    intro cs _
    cases b with
    | false => exact ⟨rfl, fun _ => rfl, rfl, rfl, rfl, fun _ => rfl, rfl, rfl⟩
    | true => exact ⟨rfl, fun _ => rfl, rfl, rfl, rfl, fun _ => rfl, rfl, rfl⟩

/-- Disciplined code may be followed by code for a thread's body. -/
theorem Disciplined.append {cs ds : List Instr} (h : Disciplined b taken cs)
    (hd : Disciplined true allFree ds) : Disciplined b taken (cs ++ ds) := by
  induction cs generalizing b taken with
  | nil =>
    obtain ⟨rfl, rfl⟩ := h
    exact hd
  | cons i cs ih =>
    cases i with
    | acquire l => exact ⟨h.1, h.2.1, ih h.2.2⟩
    | release l => exact ⟨h.1, ih h.2⟩
    | cli => exact ih h
    | sti => exact ⟨h.1, ih h.2⟩
    | iret => exact ⟨h.1, ih h.2⟩
    | install t => exact ih h
    | takeEntry => exact ih h
    | takeUserEntry => exact ih h
    | reapTake i => exact ⟨h.1, h.2.1, ih h.2.2⟩
    | schedule => exact ⟨h.1, h.2.1, ih h.2.2⟩
    | exit => exact h

theorem disciplined_threadTrampoline : Disciplined false allFree Instr.threadTrampoline := by
  refine ⟨rfl, fun _ => rfl, rfl, ?_⟩
  rw [update_update_self rfl]
  exact ⟨rfl, rfl, rfl⟩

theorem disciplined_ring3Trampoline : Disciplined true allFree Instr.ring3Trampoline := by
  have hbody : Neutral false allFree [.acquire .scheduler, .takeUserEntry, .release .scheduler] :=
    neutral_critical [.takeUserEntry] rfl (fun _ => rfl) (fun _ h => h)
  have h := neutral_withoutInterrupts (b := true) rfl hbody [] ⟨rfl, rfl⟩
  rwa [List.append_nil] at h

/-- The timer interrupt may come in front of code that holds no lock. -/
theorem disciplined_timer {cs : List Instr} (h : Disciplined true allFree cs) :
    Disciplined false allFree (timerInterruptHandler ++ cs) := by
  unfold timerInterruptHandler
  rw [List.append_assoc]
  exact neutral_call false .schedule _ ⟨rfl, h⟩

theorem disciplined_systemCall (calls : List Call) :
    Disciplined false allFree (systemCall calls) :=
  Neutral.flatMap (neutral_call false) calls _ ⟨rfl, rfl, rfl⟩

end Blocks

/-! ## The invariant -/

namespace LockMachine

open SchedulerState

/-- Which locks are taken. -/
def taken (k : LockMachine) : Lock → Bool := fun l => (k.held l).isSome

theorem taken_eq_allFree_iff {k : LockMachine} : k.taken = allFree ↔ ∀ l, k.held l = none := by
  constructor
  · intro h l
    have hl : (k.held l).isSome = false := congrFun h l
    exact Option.not_isSome_iff_eq_none.mp (by rw [hl]; exact Bool.false_ne_true)
  · intro h
    funext l
    show (k.held l).isSome = false
    rw [h l]
    rfl

theorem isSome_update (held : Lock → Option Ctx) (l : Lock) (o : Option Ctx) :
    (fun l' => (Function.update held l o l').isSome) =
      Function.update (fun l' => (held l').isSome) l o.isSome := by
  funext l'
  by_cases h : l' = l
  · subst h
    simp
  · simp [Function.update_of_ne h]

/-- Giving `SCHEDULER` back when nothing else is taken frees everything. -/
theorem taken_release_scheduler {held : Lock → Option Ctx}
    (h : (fun l => (held l).isSome) = schedulerOnly) :
    (fun l => (Function.update held .scheduler none l).isSome) = allFree := by
  rw [isSome_update, h]
  exact update_update_self rfl

/-- **The invariant**: the running code is disciplined from here on, the code of every other
thread of the rotation is so with interrupts disabled and no lock taken, and every lock that is
taken is held by the running context. -/
structure Inv (k : LockMachine) : Prop where
  safe : k.sched.Safe
  current : Disciplined k.ifOn k.taken (k.code k.sched.current)
  others : ∀ i ∈ k.sched.rotation, i ≠ k.sched.current → Disciplined false allFree (k.code i)
  holder : ∀ l c, k.held l = some c → c = k.ctx
  scheduler : k.ifOn = true → k.held .scheduler = none

/-- A tick comes only while the interrupted context holds none of the frame allocator's, the
physical-memory offset's and the heap's locks. -/
def TicksOutsideLocks (k : LockMachine) : Action → Prop
  | .tick => k.held .frameAllocator ≠ some k.ctx ∧ k.held .physicalMemoryOffset ≠ some k.ctx ∧
      k.held .heap ≠ some k.ctx
  | _ => True

instance (k : LockMachine) (a : Action) : Decidable (TicksOutsideLocks k a) := by
  unfold TicksOutsideLocks
  split <;> infer_instance

theorem boot_inv (pt : Frame) : (boot pt).Inv where
  safe := init_safe pt
  current := ⟨rfl, rfl⟩
  others := by
    intro i hi hne
    have : i = 0 := by
      simpa [SchedulerState.rotation, boot, init, ReadyQueue.new, RingBuffer.toList] using hi
    exact absurd this hne
  holder := by
    intro l c h
    cases h
  scheduler := fun _ => rfl

/-- The invariant only looks at the running thread's own code, unless the thread changes. -/
theorem Inv.running {k k' : LockMachine} (h : k.Inv) (hsafe : k'.sched.Safe)
    (hcur : k'.sched.current = k.sched.current) (hrot : k'.sched.rotation = k.sched.rotation)
    (hcode : ∀ i, i ≠ k.sched.current → k'.code i = k.code i)
    (hdisc : Disciplined k'.ifOn k'.taken (k'.code k.sched.current))
    (hholder : ∀ l c, k'.held l = some c → c = k'.ctx)
    (hsched : k'.ifOn = true → k'.held .scheduler = none) : k'.Inv where
  safe := hsafe
  current := by
    rw [hcur]
    exact hdisc
  others := by
    intro i hi hne
    rw [hcur] at hne
    rw [hrot] at hi
    rw [hcode i hne]
    exact h.others i hi hne
  holder := hholder
  scheduler := hsched

/-- Executing an instruction that leaves the scheduler's state alone. -/
theorem Inv.plain {k k' : LockMachine} {cs : List Instr} (h : k.Inv)
    (hsched : k'.sched = k.sched) (hcode : k'.code = (k.continueWith cs).code)
    (hdepth : k'.depth = k.depth ∨ ∀ l, k'.held l = none)
    (hdisc : Disciplined k'.ifOn k'.taken cs)
    (hheld : ∀ l c, k'.held l = some c → c = k.ctx)
    (hfree : k'.ifOn = true → k'.held .scheduler = none) : k'.Inv := by
  refine h.running (hsched ▸ h.safe) (by rw [hsched]) (by rw [hsched]) ?_ ?_ ?_ hfree
  · intro i hi
    rw [hcode]
    exact Function.update_of_ne hi _ _
  · rw [hcode]
    show Disciplined _ _ (Function.update k.code k.sched.current cs k.sched.current)
    rw [Function.update_self]
    exact hdisc
  · intro l c hc
    rcases hdepth with hd | hnone
    · rw [hheld l c hc, ctx, ctx, hsched, hd]
    · rw [hnone l] at hc
      cases hc

/-- A section of the scheduler's state that keeps the rotation. -/
theorem Inv.section {k : LockMachine} {s : SchedulerState} {cs : List Instr}
    (inRing3 : ThreadId → Bool) (h : k.Inv) (hsafe : s.Safe)
    (hcur : s.current = k.sched.current) (hrot : s.rotation = k.sched.rotation)
    (hdisc : Disciplined k.ifOn k.taken cs) :
    { k.continueWith cs with sched := s, inRing3 := inRing3 }.Inv := by
  refine h.running hsafe hcur hrot ?_ ?_ ?_ h.scheduler
  · intro i hi
    exact Function.update_of_ne hi _ _
  · show Disciplined _ _ (Function.update k.code k.sched.current cs k.sched.current)
    rw [Function.update_self]
    exact hdisc
  · intro l c hc
    rw [h.holder l c hc]
    show _ = Ctx.mk s.current (k.depth s.current)
    rw [hcur]
    rfl

/-- A change of one record in place. -/
theorem Inv.touch {k : LockMachine} {f : Thread → Thread} {cs : List Instr}
    (inRing3 : ThreadId → Bool) (h : k.Inv) (hdisc : Disciplined k.ifOn k.taken cs) :
    { k.continueWith cs with
      sched := k.sched.mapThread k.sched.current f, inRing3 := inRing3 }.Inv := by
  refine h.section inRing3 (h.safe.update _ _ (fun ho => ?_)) rfl rfl hdisc
  rw [Option.isSome_map]
  exact ho

/-- A spawn adds a thread that is about to run its trampoline. -/
theorem Inv.install {k : LockMachine} {t : Thread} {id : ThreadId} {s : SchedulerState}
    {rest : List Instr} (h : k.Inv) (hi : k.sched.install t = .ok (id, s))
    (hdisc : Disciplined k.ifOn k.taken rest) :
    { k with
      sched := s
      code := Function.update (k.continueWith rest).code id Instr.threadTrampoline
      depth := Function.update k.depth id 0
      inRing3 := Function.update k.inRing3 id false }.Inv := by
  obtain ⟨hfree, -, hrot, -, hcur, -⟩ := install_spec hi
  have hne : k.sched.current ≠ id := by
    intro hc
    have := h.safe.occupied _ k.sched.current_mem_rotation
    rw [Occupied, hc, hfree] at this
    cases this
  refine ⟨h.safe.install hi, ?_, ?_, ?_, h.scheduler⟩
  · show Disciplined _ _
      (Function.update (k.continueWith rest).code id Instr.threadTrampoline s.current)
    rw [hcur, Function.update_of_ne hne]
    show Disciplined _ _ (Function.update k.code k.sched.current rest k.sched.current)
    rw [Function.update_self]
    exact hdisc
  · intro i hmem hicur
    have hmem' : i ∈ s.rotation := hmem
    have hicur' : i ≠ s.current := hicur
    rw [hcur] at hicur'
    rw [hrot, List.mem_append, List.mem_singleton] at hmem'
    show Disciplined _ _ (Function.update (k.continueWith rest).code id Instr.threadTrampoline i)
    by_cases hid : i = id
    · rw [hid, Function.update_self]
      exact disciplined_threadTrampoline
    · rw [Function.update_of_ne hid]
      show Disciplined _ _ (Function.update k.code k.sched.current rest i)
      rw [Function.update_of_ne hicur']
      exact h.others i (hmem'.resolve_right hid) hicur'
  · intro l c hc
    rw [h.holder l c hc]
    show _ = Ctx.mk s.current (Function.update k.depth id 0 s.current)
    rw [hcur, Function.update_of_ne hne]
    rfl

/-- A decision hands the CPU, with interrupts disabled and no lock taken, to a thread of the
rotation. -/
theorem Inv.decision {k : LockMachine} {s : SchedulerState} {cs : List Instr} (h : k.Inv)
    (hif : k.ifOn = false) (htaken : k.taken = schedulerOnly) (hsafe : s.Safe)
    (hcs : k.sched.current ∈ s.rotation → Disciplined false allFree cs)
    (hsub : ∀ i ∈ s.rotation, i ∈ k.sched.rotation) :
    { k.continueWith cs with
      sched := s
      held := Function.update k.held .scheduler none }.Inv := by
  have hfree : (fun l => (Function.update k.held .scheduler none l).isSome) = allFree :=
    taken_release_scheduler htaken
  have hall : ∀ i ∈ s.rotation,
      Disciplined false allFree (Function.update k.code k.sched.current cs i) := by
    intro i hi
    by_cases hne : i = k.sched.current
    · subst hne
      rw [Function.update_self]
      exact hcs hi
    · rw [Function.update_of_ne hne]
      exact h.others i (hsub i hi) hne
  refine ⟨hsafe, ?_, fun i hi _ => hall i hi, ?_,
    fun _ => Function.update_self Lock.scheduler none k.held⟩
  · show Disciplined k.ifOn (fun l => (Function.update k.held .scheduler none l).isSome) _
    rw [hif, hfree]
    exact hall _ s.current_mem_rotation
  · intro l c hc
    have hnone := congrFun hfree l
    have hc' : Function.update k.held .scheduler none l = some c := hc
    simp [hc', allFree] at hnone

/-- **Every instruction keeps the invariant.** -/
theorem Inv.execInstr {k k' : LockMachine} {i : Instr} {rest : List Instr}
    {frames : List Growth} {files : ℕ} (h : k.Inv) (hcode : k.code k.sched.current = i :: rest)
    (hs : k.execInstr rest frames files i = .ok k') : k'.Inv := by
  have hdisc := h.current
  rw [hcode] at hdisc
  cases i with
  | acquire l =>
    obtain ⟨hfree, hif, hrest⟩ := hdisc
    have hnone : k.held l = none := Option.not_isSome_iff_eq_none.mp
      (fun hsome => Bool.false_ne_true (hfree.symm.trans hsome))
    simp only [LockMachine.execInstr, hnone] at hs
    cases hs
    refine h.plain rfl rfl (Or.inl rfl) ?_ ?_ ?_
    · show Disciplined _ (fun l' => (Function.update k.held l (some k.ctx) l').isSome) _
      rw [isSome_update]
      exact hrest
    · intro l' c hc
      have hc' : Function.update k.held l (some k.ctx) l' = some c := hc
      by_cases hl : l' = l
      · rw [hl, Function.update_self] at hc'
        exact (Option.some.inj hc').symm
      · rw [Function.update_of_ne hl] at hc'
        exact h.holder l' c hc'
    · intro hon
      have hon' : k.ifOn = true := hon
      show Function.update k.held l (some k.ctx) .scheduler = none
      rw [Function.update_of_ne]
      · exact h.scheduler hon'
      · intro hl
        rw [hif hl.symm] at hon'
        cases hon'
  | release l =>
    cases hs
    refine h.plain rfl rfl (Or.inl rfl) ?_ ?_ ?_
    · show Disciplined _ (fun l' => (Function.update k.held l none l').isSome) _
      rw [isSome_update]
      exact hdisc.2
    · intro l' c hc
      have hc' : Function.update k.held l none l' = some c := hc
      by_cases hl : l' = l
      · rw [hl, Function.update_self] at hc'
        cases hc'
      · rw [Function.update_of_ne hl] at hc'
        exact h.holder l' c hc'
    · intro hon
      show Function.update k.held l none .scheduler = none
      by_cases hl : Lock.scheduler = l
      · rw [hl, Function.update_self]
      · rw [Function.update_of_ne hl]
        exact h.scheduler hon
  | cli =>
    cases hs
    exact h.plain rfl rfl (Or.inl rfl) hdisc h.holder (fun hon => by cases hon)
  | sti =>
    cases hs
    refine h.plain rfl rfl (Or.inl rfl) hdisc.2 h.holder (fun _ => ?_)
    exact Option.not_isSome_iff_eq_none.mp
      (fun hsome => Bool.false_ne_true (hdisc.1.symm.trans hsome))
  | iret =>
    cases hs
    have hnone := taken_eq_allFree_iff.mp hdisc.1
    refine h.plain rfl rfl (Or.inr hnone) ?_ h.holder (fun _ => hnone _)
    show Disciplined true k.taken rest
    rw [hdisc.1]
    exact hdisc.2
  | install t =>
    obtain ⟨⟨id, s⟩, hi, hs⟩ := bind_eq_ok hs
    cases hs
    exact h.install (Kernel.orPanic_eq_ok hi) hdisc
  | takeEntry =>
    obtain ⟨⟨e, s⟩, hi, hs⟩ := bind_eq_ok hs
    cases hs
    have hmap := Kernel.takeEntry_eq_ok (Kernel.orPanic_eq_ok hi)
    subst hmap
    refine h.touch k.inRing3 ?_
    split_ifs
    · exact Disciplined.append hdisc disciplined_ring3Trampoline
    · exact hdisc
  | takeUserEntry =>
    obtain ⟨⟨e, s⟩, hi, hs⟩ := bind_eq_ok hs
    cases hs
    have hmap := Kernel.takeUserEntry_eq_ok (Kernel.orPanic_eq_ok hi)
    subst hmap
    exact h.touch _ hdisc
  | reapTake ifOn =>
    cases hs
    obtain ⟨hif, htaken, hrest⟩ := hdisc
    obtain ⟨-, hrot, hcur, -⟩ := k.sched.reapTake_spec
    refine h.section k.inRing3 h.safe.reapTake hcur hrot ?_
    rw [hif, htaken]
    refine ⟨rfl, ?_⟩
    rw [schedulerOnly, update_update_self rfl]
    have hwork : Disciplined ifOn allFree ((match k.sched.reapTake.1 with
        | some dead => Instr.freeDead dead frames files
        | none => []) ++ rest) := by
      split
      · exact neutral_freeDead _ _ _ _ hrest
      · exact hrest
    cases ifOn with
    | false => exact hwork
    | true => exact ⟨rfl, hwork⟩
  | schedule =>
    obtain ⟨⟨o, s⟩, hi, hs⟩ := bind_eq_ok hs
    cases hs
    obtain ⟨hif, htaken, hrest⟩ := hdisc
    have hsched := Kernel.orPanic_eq_ok hi
    refine h.decision hif htaken (h.safe.scheduleRest hsched) (fun _ => hrest) ?_
    intro i hi
    rcases scheduleRest_spec hsched with ⟨-, rfl, -⟩ | ⟨sw, t, rest', -, h1, h2, -⟩
    · exact hi
    · rw [h2, ← List.cons_append, List.mem_append, List.mem_singleton] at hi
      rw [h1, List.mem_cons]
      exact hi.symm
  | exit =>
    obtain ⟨⟨sw, s⟩, hi, hs⟩ := bind_eq_ok hs
    cases hs
    obtain ⟨hif, htaken⟩ := hdisc
    have hexit := Kernel.orPanic_eq_ok hi
    obtain ⟨t, rest', -, h1, h2, -⟩ := exitRest_spec hexit
    have hnd := h.safe.nodup
    rw [h1, List.nodup_cons, ← h2] at hnd
    refine h.decision hif htaken (h.safe.exitRest hexit) (fun hmem => absurd hmem hnd.1) ?_
    intro i hi
    rw [h1, List.mem_cons, ← h2]
    exact Or.inr hi

/-- **Every admitted step keeps the invariant.** -/
theorem Inv.step {k k' : LockMachine} {a : Action} (h : k.Inv) (ha : TicksOutsideLocks k a)
    (hs : k.step a = .ok k') : k'.Inv := by
  -- a thread between two calls holds no lock and has interrupts enabled
  have hidle : k.code k.sched.current = [] → k.ifOn = true ∧ k.taken = allFree := by
    intro hcode
    have hdisc := h.current
    rwa [hcode] at hdisc
  cases a with
  | call c =>
    simp only [LockMachine.step] at hs
    split at hs
    · rename_i hcode _
      cases hs
      obtain ⟨hif, htaken⟩ := hidle hcode
      refine h.plain rfl rfl (Or.inl rfl) ?_ h.holder h.scheduler
      show Disciplined k.ifOn k.taken (c.code k.ifOn)
      rw [hif, htaken, ← List.append_nil (c.code true)]
      exact neutral_call true c [] ⟨rfl, rfl⟩
    · cases hs
  | enterRing3 =>
    simp only [LockMachine.step] at hs
    split at hs
    · cases hs
      exact ⟨h.safe, h.current, h.others, h.holder, h.scheduler⟩
    · cases hs
  | int80 calls =>
    simp only [LockMachine.step] at hs
    split at hs
    · rename_i hcode _
      cases hs
      obtain ⟨-, htaken⟩ := hidle hcode
      refine h.plain rfl rfl (Or.inr (taken_eq_allFree_iff.mp htaken)) ?_ h.holder
        (fun hon => by cases hon)
      show Disciplined false k.taken (systemCall calls)
      rw [htaken]
      exact disciplined_systemCall calls
    · cases hs
  | exec frames files =>
    simp only [LockMachine.step] at hs
    split at hs
    · cases hs
    · rename_i i rest hcode
      exact h.execInstr hcode hs
  | tick =>
    simp only [LockMachine.step] at hs
    split_ifs at hs with hif
    cases hs
    -- what is held is held by the interrupted context, so nothing is
    have hnone : ∀ l, k.held l = none := by
      intro l
      cases hl : k.held l with
      | none => rfl
      | some c =>
        have hc := h.holder l c hl
        subst hc
        obtain ⟨h1, h2, h3⟩ := ha
        cases l with
        | frameAllocator => exact absurd hl h1
        | physicalMemoryOffset => exact absurd hl h2
        | heap => exact absurd hl h3
        | scheduler =>
          rw [h.scheduler hif] at hl
          cases hl
    have htaken := taken_eq_allFree_iff.mpr hnone
    refine h.plain rfl rfl (Or.inr hnone) ?_ h.holder (fun hon => by cases hon)
    show Disciplined false k.taken (timerInterruptHandler ++ k.code k.sched.current)
    have hdisc := h.current
    rw [hif, htaken] at hdisc
    rw [htaken]
    exact disciplined_timer hdisc

/-- **No self-deadlock**, in a run whose ticks come only while the interrupted context holds none
of the frame allocator's, the physical-memory offset's and the heap's locks: code with
interrupts disabled never finds a lock taken. -/
theorem no_self_deadlock {pt : Frame} {k : LockMachine}
    (h : Runs.Reach step TicksOutsideLocks (boot pt) k) : ¬ k.Deadlocked := by
  have hinv : k.Inv := h.invariant (I := Inv) (boot_inv pt) (fun _ _ _ hk ha hs => hk.step ha hs)
  rintro ⟨-, l, c, rest, hcode, hheld⟩
  have hdisc := hinv.current
  rw [hcode] at hdisc
  have hfree : (k.held l).isSome = false := hdisc.1
  rw [hheld] at hfree
  cases hfree

/-! ## The reclaim loop of `kernel_main` -/

/-- `n` instructions. -/
def execute (n : ℕ) : List Action := List.replicate n (.exec [.fits] 0)

/-- One round of the loop: an isolated thread is spawned, runs and exits, and the boot thread is
back with the zombie pending. -/
def reclaimRound : List Action :=
  [.call (.spawnIsolatedInner 0x10000 (.function 1) none 7 0)] ++ execute 7 ++
    [.call .schedule] ++ execute 8 ++ execute 4 ++ [.call .exitCurrentThread] ++ execute 8 ++
    execute 1

/-- The next round begins with `allocate_frame`, and the timer interrupts it under the lock; the
handler reaps the zombie. -/
def reapDeadlockRun : List Action :=
  reclaimRound ++ [.call .allocateFrame] ++ execute 1 ++ [.tick] ++ execute 7

/-- Whether the running code is about to acquire the frame allocator's lock. -/
def acquiresFrameAllocator (k : LockMachine) : Bool :=
  match k.code k.sched.current with
  | .acquire .frameAllocator :: _ => true
  | _ => false

/-- The timer interrupts the boot thread between two rounds: the handler runs with interrupts
disabled, and is about to acquire the frame allocator's lock to reap the zombie. -/
theorem no_self_deadlock_reclaimRound :
    ∃ k, Runs.Reach step TicksOutsideLocks (boot 1) k ∧ k.ctx = ⟨0, 1⟩ ∧ k.ifOn = false ∧
      acquiresFrameAllocator k = true ∧ ¬ k.Deadlocked := by
  obtain ⟨k, hk, htest⟩ := Runs.exists_reach_of_any step TicksOutsideLocks (boot 1)
    (reclaimRound ++ [.tick] ++ execute 7)
    (fun k => decide (k.ctx = ⟨0, 1⟩ ∧ k.ifOn = false ∧ acquiresFrameAllocator k = true))
    (by decide)
  obtain ⟨hctx, hif, hacquires⟩ := of_decide_eq_true htest
  exact ⟨k, hk, hctx, hif, hacquires, no_self_deadlock hk⟩

/-- **The timer handler can spin for ever on a lock of the code it interrupted**: after
`reapDeadlockRun` it runs on the boot thread with interrupts disabled and is about to acquire
`FRAME_ALLOCATOR`, which the boot thread holds. -/
theorem reapDeadlockRun_deadlocks :
    ∃ k, Runs.Reachable step (boot 1) k ∧ k.Deadlocked ∧ k.ctx = ⟨0, 1⟩ ∧
      k.held .frameAllocator = some ⟨0, 0⟩ := by
  obtain ⟨k, hk, ht⟩ := Runs.exists_reach_of_any step (fun _ _ => True) (boot 1) reapDeadlockRun
    (fun k => !k.ifOn && acquiresFrameAllocator k && k.ctx == ⟨0, 1⟩ &&
      k.held .frameAllocator == some ⟨0, 0⟩) (by decide)
  simp only [Bool.and_eq_true, Bool.not_eq_true', beq_iff_eq] at ht
  obtain ⟨⟨⟨hif, hacq⟩, hctx⟩, hheld⟩ := ht
  refine ⟨k, hk, ⟨hif, .frameAllocator, ⟨0, 0⟩, ?_⟩, hctx, hheld⟩
  unfold acquiresFrameAllocator at hacq
  split at hacq
  · rename_i rest hcode
    exact ⟨rest, hcode, hheld⟩
  · cases hacq

end LockMachine
