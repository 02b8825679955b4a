/-
# Threads, timer ticks and the points between them

`Scheduler.lean` gives the critical sections; this file says when they run.  A
`Kernel` is the scheduler's state together with the CPU registers a switch writes,
and for each thread the **point** of its own code at which it continues: in its
body, in ring 3, or somewhere inside `schedule` or `exit_current_thread`.

The source runs `reap_zombie` before `interrupts::disable()`.  A caller that has
interrupts enabled can therefore be interrupted anywhere between the locked half
of `reap_zombie` and `disable`, and each of these places is a point of its own:

* `reaping c dead stage`: inside the unlocked half of `reap_zombie`, about to do
  `stage`, with the dead thread's record in a local variable;
* `yielding`, `exiting`: `reap_zombie` has returned, `disable` has not run yet.

A timer tick is a whole `schedule()` with interrupts off.  It can happen at every
point with interrupts enabled and leaves the interrupted thread at its point.  The
callers of `schedule` and `exit_current_thread` inside `int 0x80` handlers run with
interrupts off, so for them both functions are single steps.

Three fields are bookkeeping for the statements and are never read by a step:
`running` (the thread whose frame `switch_to` loaded last), `saved` (the stack
pointer of each thread at its last switch-away, or that of its initial frame) and
`issued` (the pids handed out so far).  The lists `liveStacks` and `liveTables` are the kernel
stacks and level-4 frames currently allocated: a spawn takes ones that are not in
use, which is what the heap and the frame allocator promise.
-/
import Velora.Runs
import Velora.SchedulerSafety

/-- The registers a scheduling decision writes.  `rsp` is the stack pointer `switch_to` last
loaded; a thread's own pushes and pops reach the scheduler only as the value the next
`switch_to` stores. -/
structure Cpu where
  cr3 : Frame
  rsp : ℕ
  rsp0 : ℕ
  deriving DecidableEq

/-- Who called `reap_zombie`. -/
inductive Caller
  | schedule
  | exit
  deriving DecidableEq, Repr

/-- The steps of `reap_zombie` after its locked half, in order. -/
inductive ReapStage
  /-- `Cr3::write(kernel_page_table)` -/
  | setCr3
  /-- `alloc::alloc::dealloc(thread.stack_base, layout)` -/
  | deallocStack
  /-- `memory::free_address_space` -/
  | freeSpace
  /-- the drop of the `Thread`, which frees its open files -/
  | dropFiles
  deriving DecidableEq, Repr

/-- Where a thread's own code continues when it next runs. -/
inductive Point
  /-- Never run: `switch_to` will return into `thread_trampoline`, interrupts disabled. -/
  | fresh
  /-- `thread_trampoline` has called `ring3_trampoline`. -/
  | ring3Start
  /-- In kernel-mode code of its own, interrupts enabled. -/
  | body
  /-- In ring 3. -/
  | ring3
  /-- In the unlocked half of `reap_zombie`, about to do `stage`. -/
  | reaping (caller : Caller) (dead : Thread) (stage : ReapStage)
  /-- In `schedule`, after `reap_zombie` and before `interrupts::disable()`. -/
  | yielding
  /-- In `exit_current_thread`, after `reap_zombie` and before `interrupts::disable()`. -/
  | exiting
  /-- Switched away from by `exit_current_thread`. -/
  | gone

/-- Interrupts are enabled at a point. -/
def Point.interruptible : Point → Bool
  | .fresh => false
  | .gone => false
  | _ => true

/-- The machine state. -/
structure Kernel where
  sched : SchedulerState
  cpu : Cpu
  point : ThreadId → Point
  liveStacks : List ℕ
  liveTables : List Frame
  running : ThreadId
  saved : ThreadId → ℕ
  issued : List Pid

/-- What can happen next.  The `rsp` of a scheduling decision is the stack pointer the running
thread has when `switch_to` stores it. -/
inductive Kernel.Action
  | spawn (stackBase : ℕ) (entry : Entry)
  | spawnIsolated (stackBase : ℕ) (entry : Entry) (pageTable : Frame)
  | spawnUser (stackBase : ℕ) (userEntry : UserEntry) (pageTable : Frame)
  /-- `thread_trampoline` -/
  | trampoline
  /-- `ring3_trampoline` -/
  | ring3Trampoline
  /-- A kernel-mode body drops to ring 3 itself. -/
  | enterRing3
  /-- `schedule()` is called with interrupts enabled; its `reap_zombie` takes the lock. -/
  | yieldCall
  /-- `exit_current_thread()` is called with interrupts enabled. -/
  | exitCall
  /-- The next step of the unlocked half of `reap_zombie`. -/
  | reapStep
  /-- `schedule` from `interrupts::disable()` on. -/
  | yieldRest (rsp : ℕ)
  /-- `exit_current_thread` from `interrupts::disable()` on. -/
  | exitRest (rsp : ℕ)
  /-- A timer interrupt. -/
  | tick (rsp : ℕ)
  /-- `schedule()` from a system call, interrupts off throughout. -/
  | sysYield (rsp : ℕ)
  /-- `exit_current_thread()` from a system call, interrupts off throughout. -/
  | sysExit (rsp : ℕ)

/-- Why an action does not complete: the code panics, or the action is not possible here. -/
inductive Halt
  | panic (p : Panic)
  | refused
  deriving DecidableEq

/-- A panic stops the machine. -/
def orPanic {α : Type} : Except Panic α → Except Halt α
  | .ok x => .ok x
  | .error p => .error (.panic p)

/-- The points at which an action is possible. -/
def Kernel.Action.possibleAt : Kernel.Action → Point → Bool
  | .spawn .., .body => true
  | .spawnIsolated .., .body => true
  | .spawnUser .., .body => true
  | .spawnUser .., .ring3 => true
  | .trampoline, .fresh => true
  | .ring3Trampoline, .ring3Start => true
  | .enterRing3, .body => true
  | .yieldCall, .body => true
  | .exitCall, .body => true
  | .reapStep, .reaping .. => true
  | .yieldRest _, .yielding => true
  | .exitRest _, .exiting => true
  | .tick _, p => p.interruptible
  | .sysYield _, .ring3 => true
  | .sysExit _, .ring3 => true
  | _, _ => false

namespace Kernel

/-- The state in which `init()` leaves the boot thread. -/
def boot (kernelPageTable : Frame) (rsp rsp0 : ℕ) : Kernel where
  sched := .init kernelPageTable
  cpu := { cr3 := kernelPageTable, rsp := rsp, rsp0 := rsp0 }
  point := fun i => if i = 0 then .body else .gone
  liveStacks := []
  liveTables := []
  running := 0
  saved := fun _ => rsp
  issued := []

/-- `[base, base + STACK_SIZE)` overlaps no allocated stack. -/
def stackFree (k : Kernel) (base : ℕ) : Bool :=
  k.liveStacks.all (fun b => base + threadStackSize ≤ b || b + threadStackSize ≤ base)

/-- The frame is no live level-4 table and not the kernel's. -/
def tableFree (k : Kernel) (pageTable : Frame) : Bool :=
  !k.liveTables.contains pageTable && pageTable != k.sched.kernelPageTable

/-- Takes over the scheduler state after a spawn: the slot that became occupied holds a
thread that has not run yet. -/
def adopt (k : Kernel) (s : SchedulerState) (stackBase : ℕ) : Kernel :=
  let new := fun i => (k.sched.threads i).isNone && (s.threads i).isSome
  { k with
    sched := s
    point := fun i => if new i then .fresh else k.point i
    saved := fun i => if new i then buildInitialStack stackBase else k.saved i
    liveStacks := stackBase :: k.liveStacks }

/-- One stage of the unlocked half of `reap_zombie`. -/
def reapEffect (k : Kernel) (dead : Thread) : ReapStage → Kernel
  | .setCr3 => { k with cpu := { k.cpu with cr3 := k.sched.kernelPageTable } }
  | .deallocStack => { k with liveStacks := k.liveStacks.erase dead.stackBase }
  | .freeSpace =>
    match dead.pageTable with
    | some pt => { k with liveTables := k.liveTables.erase pt }
    | none => k
  | .dropFiles => k

/-- The point after a stage of `reap_zombie`: the next stage, or back in the caller. -/
def afterStage (c : Caller) (dead : Thread) : ReapStage → Point
  | .setCr3 => .reaping c dead .deallocStack
  | .deallocStack => .reaping c dead .freeSpace
  | .freeSpace => .reaping c dead .dropFiles
  | .dropFiles =>
    match c with
    | .schedule => .yielding
    | .exit => .exiting

/-- Moves the running thread to a point of its code. -/
def goto (k : Kernel) (p : Point) : Kernel :=
  { k with point := Function.update k.point k.running p }

/-- The locked half of `reap_zombie`, called with interrupts enabled. -/
def reapCall (k : Kernel) (c : Caller) : Kernel :=
  match k.sched.reapTake with
  | (some dead, s) => { k with sched := s }.goto (.reaping c dead .setCr3)
  | (none, s) =>
    { k with sched := s }.goto (match c with | .schedule => .yielding | .exit => .exiting)

/-- All of `reap_zombie`, called with interrupts off. -/
def reapZombie (k : Kernel) : Kernel :=
  match k.sched.reapTake with
  | (some dead, s) =>
    [ReapStage.setCr3, .deallocStack, .freeSpace, .dropFiles].foldl
      (fun k stage => k.reapEffect dead stage) { k with sched := s }
  | (none, s) => { k with sched := s }

/-- `set_rsp0` and `switch_to`. -/
def switchTo (k : Kernel) (sw : SchedulerState.Switch) (rsp : ℕ) : Kernel :=
  { k with
    sched := k.sched.saveStackPointer sw.previous rsp
    cpu := { cr3 := sw.newPageTable, rsp := sw.newStack, rsp0 := sw.newRsp0 }
    running := sw.next
    saved := Function.update k.saved sw.previous rsp }

/-- `schedule` from `interrupts::disable()` on. -/
def scheduleRest (k : Kernel) (rsp : ℕ) : Except Panic Kernel := do
  let (o, s) ← k.sched.scheduleRest
  match o with
  | none => return { k with sched := s }
  | some sw => return { k with sched := s }.switchTo sw rsp

/-- `exit_current_thread` from `interrupts::disable()` on. -/
def exitRest (k : Kernel) (rsp : ℕ) : Except Panic Kernel := do
  let (sw, s) ← k.sched.exitRest
  return ({ k with sched := s }.goto .gone).switchTo sw rsp

/-- What an action does at a point where it is possible. -/
def perform (k : Kernel) : Action → Except Halt Kernel
  | .spawn stackBase entry =>
    if k.stackFree stackBase then do
      let s ← orPanic (k.sched.spawn stackBase entry)
      return k.adopt s stackBase
    else .error .refused
  | .spawnIsolated stackBase entry pageTable =>
    if k.stackFree stackBase && k.tableFree pageTable then do
      let (pid, s) ← orPanic (k.sched.spawnIsolated stackBase entry pageTable)
      return { k.adopt s stackBase with
        liveTables := pageTable :: k.liveTables, issued := pid :: k.issued }
    else .error .refused
  | .spawnUser stackBase userEntry pageTable =>
    if k.stackFree stackBase && k.tableFree pageTable then do
      let (pid, s) ← orPanic (k.sched.spawnUser stackBase userEntry pageTable)
      return { k.adopt s stackBase with
        liveTables := pageTable :: k.liveTables, issued := pid :: k.issued }
    else .error .refused
  | .trampoline => do
    let (entry, s) ← orPanic k.sched.takeEntry
    return { k with sched := s }.goto (if entry = Entry.ring3Trampoline then .ring3Start else .body)
  | .ring3Trampoline => do
    let (_, s) ← orPanic k.sched.takeUserEntry
    return { k with sched := s }.goto .ring3
  | .enterRing3 => .ok (k.goto .ring3)
  | .yieldCall => .ok (k.reapCall .schedule)
  | .exitCall => .ok (k.reapCall .exit)
  | .reapStep =>
    match k.point k.running with
    | .reaping c dead stage => .ok ((k.reapEffect dead stage).goto (afterStage c dead stage))
    | _ => .error .refused
  | .yieldRest rsp => orPanic ((k.goto .body).scheduleRest rsp)
  | .exitRest rsp => orPanic (k.exitRest rsp)
  | .tick rsp => orPanic (k.reapZombie.scheduleRest rsp)
  | .sysYield rsp => orPanic (k.reapZombie.scheduleRest rsp)
  | .sysExit rsp => orPanic (k.reapZombie.exitRest rsp)

/-- One step of the machine. -/
def step (k : Kernel) (a : Action) : Except Halt Kernel :=
  if a.possibleAt (k.point k.running) then k.perform a else .error .refused

end Kernel

/-! ## What a step can do

Every step is at most two **moves**, and every move is at most two **critical sections** on
the scheduler's state.  Invariants are proved move by move or section by section. -/

/-- The thread has called `exit_current_thread` and has only the rest of it left to run. -/
def Point.exitBound : Point → Bool
  | .reaping .exit _ _ => true
  | .exiting => true
  | _ => false

/-- The dead thread a point's local variable holds, and what is about to be done with it. -/
def Point.reaper : Point → Option (Thread × ReapStage)
  | .reaping _ dead stage => some (dead, stage)
  | _ => none

/-- Two records name the same stack and page table. -/
def Thread.SameResources (t t' : Thread) : Prop :=
  t'.stackBase = t.stackBase ∧ t'.stackSize = t.stackSize ∧ t'.pageTable = t.pageTable ∧
    t'.kernelStackTop = t.kernelStackTop

namespace Kernel

/-- One move of the machine.  An exit is admitted only from scheduler states with `P`. -/
inductive Move (P : SchedulerState → Prop) (k : Kernel) : Kernel → Prop
  | spawn {base : ℕ} {e : Entry} {id : ThreadId} {s : SchedulerState}
      (hpt : (k.point k.running).exitBound = false) (hfree : k.stackFree base = true)
      (hb : base ≠ 0)
      (hi : k.sched.install (SchedulerState.newThread base e none none) = .ok (id, s)) :
      Move P k (k.adopt s base)
  | spawnIsolated {base : ℕ} {e : Entry} {u : Option UserEntry} {pt : Frame} {id : ThreadId}
      {s : SchedulerState} (hpt : (k.point k.running).exitBound = false)
      (hfree : k.stackFree base = true) (htable : k.tableFree pt = true) (hb : base ≠ 0)
      (hi : k.sched.install (SchedulerState.newThread base e (some pt) u) = .ok (id, s)) :
      Move P k { k.adopt s base with
        liveTables := pt :: k.liveTables,
        issued := packPid id (s.slotGenerations id) :: k.issued }
  /-- A trampoline takes an entry point out of the running thread's record. -/
  | start (f : Thread → Thread) (p : Point)
      (hpt : (k.point k.running).exitBound = false) (hp : p.reaper = none)
      (hf : ∀ t : Thread, t.SameResources (f t) ∧ (f t).stackPointer = t.stackPointer) :
      Move P k ({ k with sched := k.sched.mapThread k.sched.current f }.goto p)
  | goto (p : Point) (hpt : (k.point k.running).exitBound = false) (hp : p.reaper = none) :
      Move P k (k.goto p)
  | reapCall (c : Caller) (hpt : (k.point k.running).exitBound = false) : Move P k (k.reapCall c)
  | reapStep {c : Caller} {dead : Thread} {stage : ReapStage}
      (hp : k.point k.running = .reaping c dead stage) :
      Move P k ((k.reapEffect dead stage).goto (afterStage c dead stage))
  | reapZombie : Move P k k.reapZombie
  | stay {s : SchedulerState} (hs : k.sched.scheduleRest = .ok (none, s)) :
      Move P k { k with sched := s }
  | switch {sw : SchedulerState.Switch} {s : SchedulerState} (rsp : ℕ)
      (hs : k.sched.scheduleRest = .ok (some sw, s)) : Move P k ({ k with sched := s }.switchTo sw rsp)
  | exit {sw : SchedulerState.Switch} {s : SchedulerState} (rsp : ℕ) (hP : P k.sched)
      (hs : k.sched.exitRest = .ok (sw, s)) :
      Move P k (({ k with sched := s }.goto .gone).switchTo sw rsp)

/-- One critical section, as a relation on the scheduler's state. -/
inductive CritSection (P : SchedulerState → Prop) : SchedulerState → SchedulerState → Prop
  | install {s s' : SchedulerState} {t : Thread} {id : ThreadId} :
      s.install t = .ok (id, s') → CritSection P s s'
  /-- A record is replaced by one with the same stack and page table. -/
  | touch {s : SchedulerState} (i : ThreadId) (f : Thread → Thread)
      (hf : ∀ t : Thread, t.SameResources (f t)) : CritSection P s (s.mapThread i f)
  | take (s : SchedulerState) : CritSection P s s.reapTake.2
  | schedule {s s' : SchedulerState} {o : Option SchedulerState.Switch} :
      s.scheduleRest = .ok (o, s') → CritSection P s s'
  | exit {s s' : SchedulerState} {sw : SchedulerState.Switch} :
      P s → s.exitRest = .ok (sw, s') → CritSection P s s'

/-! ### Inversion of the step function -/

theorem orPanic_eq_ok {α : Type} {x : Except Panic α} {y : α} (h : orPanic x = .ok y) :
    x = .ok y := by
  cases x with
  | error p => cases h
  | ok z => cases h; rfl

theorem orPanic_eq_panic {α : Type} {x : Except Panic α} {p : Panic}
    (h : orPanic x = .error (.panic p)) : x = .error p := by
  cases x with
  | error q => cases h; rfl
  | ok z => cases h

theorem step_eq_ok {k k' : Kernel} {a : Action} (h : k.step a = .ok k') :
    a.possibleAt (k.point k.running) = true ∧ k.perform a = .ok k' := by
  unfold step at h
  split_ifs at h with hp
  exact ⟨hp, h⟩

/-- An exit-bound thread can only go on exiting, or be interrupted. -/
theorem Action.of_possibleAt_exitBound {a : Action} {p : Point} (h : a.possibleAt p = true)
    (hb : p.exitBound = true) :
    a = .reapStep ∨ (∃ rsp, a = .exitRest rsp) ∨ ∃ rsp, a = .tick rsp := by
  cases p with
  | reaping c dead stage => cases a <;> simp_all [Action.possibleAt]
  | exiting => cases a <;> simp_all [Action.possibleAt]
  | _ => cases hb

/-- A completed spawn installs one thread. -/
theorem spawn_eq_ok {s s' : SchedulerState} {base : ℕ} {e : Entry}
    (h : s.spawn base e = .ok s') :
    base ≠ 0 ∧ ∃ id, s.install (SchedulerState.newThread base e none none) = .ok (id, s') := by
  unfold SchedulerState.spawn at h
  by_cases hb : base = 0
  · rw [if_pos hb] at h; cases h
  · rw [if_neg hb] at h
    obtain ⟨⟨id, s''⟩, hi, h⟩ := bind_eq_ok h
    cases h
    exact ⟨hb, id, hi⟩

theorem spawnIsolatedInner_eq_ok {s s' : SchedulerState} {base : ℕ} {e : Entry}
    {u : Option UserEntry} {pt : Frame} {pid : Pid}
    (h : s.spawnIsolatedInner base e u pt = .ok (pid, s')) :
    base ≠ 0 ∧ ∃ id, s.install (SchedulerState.newThread base e (some pt) u) = .ok (id, s') ∧
      pid = packPid id (s'.slotGenerations id) := by
  unfold SchedulerState.spawnIsolatedInner at h
  by_cases hb : base = 0
  · rw [if_pos hb] at h; cases h
  · rw [if_neg hb] at h
    obtain ⟨⟨id, s''⟩, hi, h⟩ := bind_eq_ok h
    cases h
    exact ⟨hb, id, hi, rfl⟩

theorem takeEntry_eq_ok {s s' : SchedulerState} {e : Entry} (h : s.takeEntry = .ok (e, s')) :
    s' = s.mapThread s.current (fun t => { t with entry := none }) := by
  unfold SchedulerState.takeEntry at h
  split at h
  · cases h
  · rename_i t ht
    split at h
    · cases h
    · cases h
      rw [SchedulerState.mapThread, ht]
      rfl

theorem takeUserEntry_eq_ok {s s' : SchedulerState} {e : UserEntry}
    (h : s.takeUserEntry = .ok (e, s')) :
    s' = s.mapThread s.current (fun t => { t with userEntry := none }) := by
  unfold SchedulerState.takeUserEntry at h
  split at h
  · cases h
  · rename_i t ht
    split at h
    · cases h
    · cases h
      rw [SchedulerState.mapThread, ht]
      rfl

/-- A decision of `schedule` is one move. -/
theorem move_of_scheduleRest {P : SchedulerState → Prop} {k k' : Kernel} {rsp : ℕ}
    (h : k.scheduleRest rsp = .ok k') : Move P k k' := by
  unfold scheduleRest at h
  obtain ⟨⟨o, s⟩, hs, h⟩ := bind_eq_ok h
  cases o with
  | none => cases h; exact .stay hs
  | some sw => cases h; exact .switch rsp hs

/-- A decision of `exit_current_thread` is one move. -/
theorem move_of_exitRest {P : SchedulerState → Prop} {k k' : Kernel} {rsp : ℕ}
    (hP : P k.sched) (h : k.exitRest rsp = .ok k') : Move P k k' := by
  unfold exitRest at h
  obtain ⟨⟨sw, s⟩, hs, h⟩ := bind_eq_ok h
  cases h
  exact .exit rsp hP hs

@[simp] theorem goto_sched (k : Kernel) (p : Point) : (k.goto p).sched = k.sched := rfl

@[simp] theorem reapEffect_sched (k : Kernel) (dead : Thread) (st : ReapStage) :
    (k.reapEffect dead st).sched = k.sched := by
  cases st with
  | freeSpace => unfold reapEffect; cases dead.pageTable <;> rfl
  | _ => rfl

@[simp] theorem reapCall_sched (k : Kernel) (c : Caller) :
    (k.reapCall c).sched = k.sched.reapTake.2 := by
  unfold reapCall
  split <;> simp_all

@[simp] theorem reapZombie_sched (k : Kernel) : k.reapZombie.sched = k.sched.reapTake.2 := by
  unfold reapZombie
  split <;> simp_all

/-! One inversion lemma for each way to start a thread, and one for `reap_zombie`. -/

theorem perform_spawn_eq_ok {k k' : Kernel} {base : ℕ} {e : Entry}
    (h : k.perform (.spawn base e) = .ok k') :
    k.stackFree base = true ∧ base ≠ 0 ∧ ∃ id s,
      k.sched.install (SchedulerState.newThread base e none none) = .ok (id, s) ∧
        k' = k.adopt s base := by
  simp only [perform] at h
  split_ifs at h with hfree
  obtain ⟨s, hs, h⟩ := bind_eq_ok h
  cases h
  obtain ⟨hb, id, hi⟩ := spawn_eq_ok (orPanic_eq_ok hs)
  exact ⟨hfree, hb, id, s, hi, rfl⟩

/-- `spawn_isolated_inner`, with the memory it is given. -/
theorem spawnIsolatedInner_adopt_eq_ok {k k' : Kernel} {base : ℕ} {e : Entry}
    {u : Option UserEntry} {pt : Frame}
    (h : (if k.stackFree base && k.tableFree pt then do
        let (pid, s) ← orPanic (k.sched.spawnIsolatedInner base e u pt)
        return { k.adopt s base with
          liveTables := pt :: k.liveTables, issued := pid :: k.issued }
      else .error .refused : Except Halt Kernel) = .ok k') :
    k.stackFree base = true ∧ k.tableFree pt = true ∧ base ≠ 0 ∧ ∃ id s,
      k.sched.install (SchedulerState.newThread base e (some pt) u) = .ok (id, s) ∧
        k' = { k.adopt s base with
          liveTables := pt :: k.liveTables,
          issued := packPid id (s.slotGenerations id) :: k.issued } := by
  split_ifs at h with hfree
  obtain ⟨⟨pid, s⟩, hs, h⟩ := bind_eq_ok h
  cases h
  obtain ⟨hb, id, hi, rfl⟩ := spawnIsolatedInner_eq_ok (orPanic_eq_ok hs)
  rw [Bool.and_eq_true] at hfree
  exact ⟨hfree.1, hfree.2, hb, id, s, hi, rfl⟩

theorem perform_spawnIsolated_eq_ok {k k' : Kernel} {base : ℕ} {e : Entry} {pt : Frame}
    (h : k.perform (.spawnIsolated base e pt) = .ok k') :
    k.stackFree base = true ∧ k.tableFree pt = true ∧ base ≠ 0 ∧ ∃ id s,
      k.sched.install (SchedulerState.newThread base e (some pt) none) = .ok (id, s) ∧
        k' = { k.adopt s base with
          liveTables := pt :: k.liveTables,
          issued := packPid id (s.slotGenerations id) :: k.issued } :=
  spawnIsolatedInner_adopt_eq_ok h

theorem perform_spawnUser_eq_ok {k k' : Kernel} {base : ℕ} {u : UserEntry} {pt : Frame}
    (h : k.perform (.spawnUser base u pt) = .ok k') :
    k.stackFree base = true ∧ k.tableFree pt = true ∧ base ≠ 0 ∧ ∃ id s,
      k.sched.install (SchedulerState.newThread base .ring3Trampoline (some pt) (some u)) =
          .ok (id, s) ∧
        k' = { k.adopt s base with
          liveTables := pt :: k.liveTables,
          issued := packPid id (s.slotGenerations id) :: k.issued } :=
  spawnIsolatedInner_adopt_eq_ok h

theorem perform_reapStep_eq_ok {k k' : Kernel} (h : k.perform .reapStep = .ok k') :
    ∃ c dead stage, k.point k.running = .reaping c dead stage ∧
      k' = (k.reapEffect dead stage).goto (afterStage c dead stage) := by
  simp only [perform] at h
  split at h
  · rename_i c dead stage hp
    cases h
    exact ⟨c, dead, stage, hp, rfl⟩
  · cases h

/-- The actions that complete a scheduling decision. -/
def Action.decides : Action → Bool
  | .yieldRest _ | .exitRest _ | .tick _ | .sysYield _ | .sysExit _ => true
  | _ => false

/-- **A step that is no scheduling decision** is one move, and the rotation grows at its end
if it changes at all. -/
theorem move_of_step {P : SchedulerState → Prop} {k k' : Kernel} {a : Action}
    (ha : a.decides = false) (h : k.step a = .ok k') :
    Move P k k' ∧ k.sched.rotation <+: k'.sched.rotation := by
  obtain ⟨hp, h⟩ := step_eq_ok h
  have hpt : (k.point k.running).exitBound = true →
      a = .reapStep ∨ (∃ rsp, a = .exitRest rsp) ∨ ∃ rsp, a = .tick rsp :=
    Action.of_possibleAt_exitBound hp
  have hgrow : ∀ {t id s}, k.sched.install t = .ok (id, s) →
      k.sched.rotation <+: s.rotation := by
    intro t id s hi
    rw [(SchedulerState.install_spec hi).2.2.1]
    exact List.prefix_append _ _
  cases a with
  | spawn base e =>
    obtain ⟨hfree, hb, id, s, hi, rfl⟩ := perform_spawn_eq_ok h
    exact ⟨.spawn (by simpa using hpt) hfree hb hi, hgrow hi⟩
  | spawnIsolated base e pt =>
    obtain ⟨hfree, htable, hb, id, s, hi, rfl⟩ := perform_spawnIsolated_eq_ok h
    exact ⟨.spawnIsolated (by simpa using hpt) hfree htable hb hi, hgrow hi⟩
  | spawnUser base u pt =>
    obtain ⟨hfree, htable, hb, id, s, hi, rfl⟩ := perform_spawnUser_eq_ok h
    exact ⟨.spawnIsolated (by simpa using hpt) hfree htable hb hi, hgrow hi⟩
  | trampoline =>
    obtain ⟨⟨e, s⟩, hs, h⟩ := bind_eq_ok h
    cases h
    rw [takeEntry_eq_ok (orPanic_eq_ok hs)]
    refine ⟨.start _ _ (by simpa using hpt) ?_ (fun _ => ⟨⟨rfl, rfl, rfl, rfl⟩, rfl⟩),
      List.prefix_rfl⟩
    split_ifs <;> rfl
  | ring3Trampoline =>
    obtain ⟨⟨e, s⟩, hs, h⟩ := bind_eq_ok h
    cases h
    rw [takeUserEntry_eq_ok (orPanic_eq_ok hs)]
    exact ⟨.start _ _ (by simpa using hpt) rfl (fun _ => ⟨⟨rfl, rfl, rfl, rfl⟩, rfl⟩),
      List.prefix_rfl⟩
  | enterRing3 =>
    cases h
    exact ⟨.goto _ (by simpa using hpt) rfl, List.prefix_rfl⟩
  | yieldCall =>
    cases h
    refine ⟨.reapCall _ (by simpa using hpt), ?_⟩
    rw [reapCall_sched, k.sched.reapTake_spec.2.1]
  | exitCall =>
    cases h
    refine ⟨.reapCall _ (by simpa using hpt), ?_⟩
    rw [reapCall_sched, k.sched.reapTake_spec.2.1]
  | reapStep =>
    obtain ⟨c, dead, stage, hpoint, rfl⟩ := perform_reapStep_eq_ok h
    refine ⟨.reapStep hpoint, ?_⟩
    rw [goto_sched, reapEffect_sched]
  | _ => cases ha

/-- **A step that is a scheduling decision**: `schedule` or `exit_current_thread` from
`interrupts::disable()` on, where the caller had interrupts enabled until then, or all of it
with `reap_zombie` in front. -/
theorem decision_of_step {k k' : Kernel} {a : Action} (ha : a.decides = true)
    (h : k.step a = .ok k') : ∃ rsp,
    (k.point k.running = .yielding ∧ (k.goto .body).scheduleRest rsp = .ok k') ∨
    (k.point k.running = .exiting ∧ a = .exitRest rsp ∧ k.exitRest rsp = .ok k') ∨
    ((k.point k.running = .ring3 ∨ a = .tick rsp) ∧
      k.reapZombie.scheduleRest rsp = .ok k') ∨
    (k.point k.running = .ring3 ∧ k.reapZombie.exitRest rsp = .ok k') := by
  obtain ⟨hp, hperf⟩ := step_eq_ok h
  have hpoint : ∀ p, (∀ q, a.possibleAt q = true → q = p) → k.point k.running = p :=
    fun p hq => hq _ hp
  cases a with
  | yieldRest rsp =>
    refine ⟨rsp, .inl ⟨hpoint _ ?_, orPanic_eq_ok hperf⟩⟩
    intro q hq
    cases q <;> first | rfl | cases hq
  | exitRest rsp =>
    refine ⟨rsp, .inr (.inl ⟨hpoint _ ?_, rfl, orPanic_eq_ok hperf⟩)⟩
    intro q hq
    cases q <;> first | rfl | cases hq
  | tick rsp => exact ⟨rsp, .inr (.inr (.inl ⟨.inr rfl, orPanic_eq_ok hperf⟩))⟩
  | sysYield rsp =>
    refine ⟨rsp, .inr (.inr (.inl ⟨.inl (hpoint _ ?_), orPanic_eq_ok hperf⟩))⟩
    intro q hq
    cases q <;> first | rfl | cases hq
  | sysExit rsp =>
    refine ⟨rsp, .inr (.inr (.inr ⟨hpoint _ ?_, orPanic_eq_ok hperf⟩))⟩
    intro q hq
    cases q <;> first | rfl | cases hq
  | _ => cases ha

/-- **Every step is one or two moves.**  Only `exitRest` exits from a state it does not
control; the system call reaps right before it. -/
theorem step_moves {P : SchedulerState → Prop} {k k' : Kernel} {a : Action}
    (hnone : ∀ s : SchedulerState, s.zombie = none → P s)
    (hexit : ∀ rsp, a = .exitRest rsp → P k.sched)
    (h : k.step a = .ok k') : Relation.ReflTransGen (Move P) k k' := by
  cases ha : a.decides with
  | false => exact .single (move_of_step ha h).1
  | true =>
    obtain ⟨rsp, ⟨hpt, hd⟩ | ⟨-, rfl, hd⟩ | ⟨-, hd⟩ | ⟨-, hd⟩⟩ := decision_of_step ha h
    · have hpt' : (k.point k.running).exitBound = false := by rw [hpt]; rfl
      exact .tail (.single (.goto .body hpt' rfl)) (move_of_scheduleRest hd)
    · exact .single (move_of_exitRest (hexit rsp rfl) hd)
    · exact .tail (.single .reapZombie) (move_of_scheduleRest hd)
    · have hz : P k.reapZombie.sched := by
        apply hnone
        rw [reapZombie_sched]
        exact k.sched.reapTake_spec.1
      exact .tail (.single .reapZombie) (move_of_exitRest hz hd)

/-- The store of `switch_to` only changes a stack pointer. -/
theorem critSection_saveStackPointer (P : SchedulerState → Prop) (s : SchedulerState)
    (i : ThreadId) (rsp : ℕ) : CritSection P s (s.saveStackPointer i rsp) :=
  .touch i (fun t => { t with stackPointer := rsp }) (fun _ => ⟨rfl, rfl, rfl, rfl⟩)

/-- Every move is a sequence of critical sections. -/
theorem Move.critSections {P : SchedulerState → Prop} {k k' : Kernel} (h : Move P k k') :
    Relation.ReflTransGen (CritSection P) k.sched k'.sched := by
  cases h with
  | spawn _ _ _ hi => exact .single (.install hi)
  | spawnIsolated _ _ _ _ hi => exact .single (.install hi)
  | start f _ _ _ hf => exact .single (.touch _ f (fun t => (hf t).1))
  | goto => exact .refl
  | reapCall c =>
    rw [reapCall_sched]
    exact .single (.take _)
  | reapStep =>
    rw [goto_sched, reapEffect_sched]
  | reapZombie =>
    rw [reapZombie_sched]
    exact .single (.take _)
  | stay hs => exact .single (.schedule hs)
  | switch rsp hs =>
    exact .tail (.single (.schedule hs)) (critSection_saveStackPointer P _ _ rsp)
  | exit rsp hP hs =>
    exact .tail (.single (.exit hP hs)) (critSection_saveStackPointer P _ _ rsp)

/-! ### The two invariant rules -/

/-- A property that every move keeps is kept by every step. -/
theorem step_preserves_of_moves {I : Kernel → Prop} {k k' : Kernel} {a : Action}
    (hI : ∀ k k', Move (fun _ => True) k k' → I k → I k') (h : k.step a = .ok k') (hk : I k) :
    I k' :=
  Runs.invariant_of_reflTransGen
    (step_moves (P := fun _ => True) (fun _ _ => trivial) (fun _ _ => trivial) h) hk hI

/-- A property of the scheduler's state that every critical section keeps is kept by every
move. -/
theorem Move.preserves {P I : SchedulerState → Prop} {k k' : Kernel}
    (hI : ∀ s s', CritSection P s s' → I s → I s') (h : Move P k k') (hk : I k.sched) :
    I k'.sched :=
  Runs.invariant_of_reflTransGen h.critSections hk hI

/-- ... and therefore by every step. -/
theorem step_preserves {P I : SchedulerState → Prop} {k k' : Kernel} {a : Action}
    (hI : ∀ s s', CritSection P s s' → I s → I s')
    (hnone : ∀ s : SchedulerState, s.zombie = none → P s)
    (hexit : ∀ rsp, a = .exitRest rsp → P k.sched)
    (h : k.step a = .ok k') (hk : I k.sched) : I k'.sched :=
  Runs.invariant_of_reflTransGen (I := fun k => I k.sched) (step_moves hnone hexit h) hk
    (fun _ _ hmove => hmove.preserves hI)

/-- Every critical section keeps the safety invariant. -/
theorem CritSection.safe {P : SchedulerState → Prop} {s s' : SchedulerState}
    (h : CritSection P s s') (hs : s.Safe) : s'.Safe := by
  cases h with
  | install hi => exact hs.install hi
  | touch i f _ =>
    refine hs.update i _ (fun ho => ?_)
    rw [Option.isSome_map]
    exact ho
  | take => exact hs.reapTake
  | schedule hr => exact hs.scheduleRest hr
  | exit _ hr => exact hs.exitRest hr

/-- **Safety over every run.** -/
theorem safe_of_reachable {pt : Frame} {rsp rsp0 : ℕ} {k : Kernel}
    (h : Runs.Reachable step (boot pt rsp rsp0) k) : k.sched.Safe := by
  refine h.invariant (I := fun k => k.sched.Safe) (SchedulerState.init_safe pt) ?_
  intro k a k' hk _ hs
  exact step_preserves (P := fun _ => True) (fun _ _ hc => hc.safe) (fun _ _ => trivial)
    (fun _ _ => trivial) hs hk

end Kernel
