/-
# The executor and the keyboard interrupt

`kernel_main` ends in `Executor::run` with the single task `print_keypresses`.  Three
cells connect it to the keyboard interrupt: the queue of scancodes, the queue of task
ids that are ready to be polled, and the waker that `poll_next` leaves behind.  The
interrupt pushes a scancode and wakes, which takes the waker and pushes its task id.

The executor's thread is taken one step at a time, the interrupt as a whole, and it can
come between any two steps while interrupts are enabled.  `AtomicWaker` and `ArrayQueue`
are linearizable, so every call of theirs is one step.

`Wakeful` is the invariant, one clause for each program point: once the waker is
registered, a scancode can only be waiting if the task is queued.
-/
import Velora.Runs

/-- `TaskId` -/
abbrev TaskId := ℕ

/-- The capacity `init_queue` gives `SCANCODE_QUEUE`. -/
def scancodeCapacity : ℕ := 100

/-- `MAX_QUEUED_TASKS` -/
def maxQueuedTasks : ℕ := 128

/-- `ArrayQueue::push`: `none` stands for the error of a full queue. -/
def ArrayQueue.push {α : Type} (capacity : ℕ) (q : List α) (x : α) : Option (List α) :=
  if q.length < capacity then some (q ++ [x]) else none

/-- The program points of `Executor::run`, inlined down to `poll_next`. -/
inductive ExecutorPoint
  /-- `while let Some(task_id) = task_queue.pop()` -/
  | popTask
  /-- `tasks.get_mut(&task_id)`, the waker cache, and the call of `poll` -/
  | lookup (id : TaskId)
  /-- the first `queue.pop()` of `poll_next` -/
  | popFirst
  /-- `WAKER.register(cx.waker())` -/
  | register
  /-- the second `queue.pop()` -/
  | popSecond
  /-- `WAKER.take()` -/
  | takeWaker (scancode : UInt8)
  /-- the body of the loop of `print_keypresses`, up to the next `poll_next` -/
  | handle (scancode : UInt8)
  /-- `poll_next` has returned `Poll::Pending`. -/
  | pending
  /-- `interrupts::disable()` in `sleep_if_idle` -/
  | disable
  /-- `task_queue.is_empty()`, interrupts disabled -/
  | check
  /-- `enable_and_hlt()`, interrupts disabled until the CPU halts -/
  | halt
  /-- halted, interrupts enabled -/
  | halted
  /-- `interrupts::enable()` -/
  | enable
  deriving DecidableEq

namespace ExecutorPoint

/-- Interrupts are enabled before this step. -/
def interruptible : ExecutorPoint → Bool
  | .check | .halt | .enable => false
  | _ => true

/-- The task has been taken off the ready queue and its `poll` has not come to `Pending`. -/
def polling : ExecutorPoint → Bool
  | .lookup _ | .popFirst | .register | .popSecond | .takeWaker _ | .handle _ => true
  | _ => false

end ExecutorPoint

/-- The executor with its only task `task`, and the cells it shares with the interrupt. -/
structure Executor where
  task : TaskId
  scancodes : List UInt8
  waker : Option TaskId
  taskQueue : List TaskId
  point : ExecutorPoint
  deriving DecidableEq

namespace Executor

/-- `Executor::new` and `spawn`.  Interrupts have been enabled for a while, so some scancodes
may be waiting already. -/
def start (task : TaskId) (waiting : List UInt8) : Executor where
  task := task
  scancodes := waiting
  waker := none
  taskQueue := [task]
  point := .popTask

/-- `TaskWaker::wake_task`: a wakeup that does not fit is dropped. -/
def wakeTask (e : Executor) (id : TaskId) : Executor :=
  match ArrayQueue.push maxQueuedTasks e.taskQueue id with
  | some q => { e with taskQueue := q }
  | none => e

/-- `AtomicWaker::wake`: take the waker, if there is one, and wake its task. -/
def wake (e : Executor) : Executor :=
  match e.waker with
  | some id => { e with waker := none }.wakeTask id
  | none => e

/-- `add_scancode` -/
def addScancode (e : Executor) (scancode : UInt8) : Executor :=
  match ArrayQueue.push scancodeCapacity e.scancodes scancode with
  | some q => { e with scancodes := q }.wake
  | none => e

/-- After an interrupt a halted CPU goes on behind the `hlt`. -/
def resume (e : Executor) : Executor :=
  if e.point = .halted then { e with point := .popTask } else e

/-- The next step of the executor's thread; a halted CPU has none. -/
def advance (e : Executor) : Option Executor :=
  match e.point with
  | .popTask =>
    match e.taskQueue with
    | [] => some { e with point := .disable }
    | id :: rest => some { e with taskQueue := rest, point := .lookup id }
  | .lookup id =>
    if id = e.task then some { e with point := .popFirst } else some { e with point := .popTask }
  | .popFirst =>
    match e.scancodes with
    | [] => some { e with point := .register }
    | scancode :: rest => some { e with scancodes := rest, point := .handle scancode }
  | .register => some { e with waker := some e.task, point := .popSecond }
  | .popSecond =>
    match e.scancodes with
    | [] => some { e with point := .pending }
    | scancode :: rest => some { e with scancodes := rest, point := .takeWaker scancode }
  | .takeWaker scancode => some { e with waker := none, point := .handle scancode }
  | .handle _ => some { e with point := .popFirst }
  | .pending => some { e with point := .popTask }
  | .disable => some { e with point := .check }
  | .check =>
    if e.taskQueue.isEmpty then some { e with point := .halt } else some { e with point := .enable }
  | .halt => some { e with point := .halted }
  | .halted => none
  | .enable => some { e with point := .popTask }

/-- What can happen next. -/
inductive Action
  | advance
  /-- The keyboard interrupt. -/
  | keyboard (scancode : UInt8)
  /-- Any other interrupt. -/
  | interrupt

/-- One step of the machine. -/
def step (e : Executor) : Action → Except Unit Executor
  | .advance => e.advance.elim (.error ()) .ok
  | .keyboard scancode =>
    if e.point.interruptible then .ok (e.addScancode scancode).resume else .error ()
  | .interrupt => if e.point.interruptible then .ok e.resume else .error ()

/-! ## The invariant -/

/-- The task is going to be polled, or nothing is waiting and the waker is in place. -/
def Covered (e : Executor) : Prop :=
  e.task ∈ e.taskQueue ∨ (e.scancodes = [] ∧ e.waker = some e.task)

/-- What holds at each program point. -/
def AtPoint (e : Executor) : Prop :=
  match e.point with
  | .lookup id => id = e.task
  | .popFirst | .register | .takeWaker _ | .handle _ => True
  | .popSecond => e.task ∈ e.taskQueue ∨ e.waker = some e.task
  | .halt | .halted => e.taskQueue = [] ∧ e.Covered
  | _ => e.Covered

/-- The only task is the only one ever queued or registered. -/
structure Single (e : Executor) : Prop where
  queue : ∀ id ∈ e.taskQueue, id = e.task
  waker : ∀ id, e.waker = some id → id = e.task

/-- **The invariant.** -/
structure Wakeful (e : Executor) : Prop extends Single e where
  point : e.AtPoint

theorem start_wakeful (task : TaskId) (waiting : List UInt8) : (start task waiting).Wakeful where
  queue := by simp [start]
  waker := by simp [start]
  point := Or.inl List.mem_cons_self

/-- A queue of the one task that is full holds it. -/
theorem Single.mem_of_full {e : Executor} (h : e.Single)
    (hfull : ¬ e.taskQueue.length < maxQueuedTasks) : e.task ∈ e.taskQueue := by
  cases hq : e.taskQueue with
  | nil =>
    rw [hq] at hfull
    exact absurd (by decide) hfull
  | cons id rest =>
    rw [← h.queue id (by rw [hq]; exact List.mem_cons_self)]
    exact List.mem_cons_self

/-- **`wake`**: without a registered waker nothing happens; otherwise the waker is taken and
the task is queued, if only because the queue is full of it. -/
theorem wake_spec {e : Executor} (h : e.Single) :
    (e.waker = none ∧ e.wake = e) ∨
    (e.waker = some e.task ∧ ∃ q, e.wake = { e with waker := none, taskQueue := q } ∧
      (∀ id ∈ q, id = e.task) ∧ e.task ∈ q) := by
  unfold wake
  cases hw : e.waker with
  | none => exact Or.inl ⟨rfl, rfl⟩
  | some id =>
    obtain rfl := h.waker id hw
    refine Or.inr ⟨rfl, ?_⟩
    simp only [wakeTask, ArrayQueue.push]
    by_cases hlen : e.taskQueue.length < maxQueuedTasks
    · refine ⟨e.taskQueue ++ [e.task], by rw [if_pos hlen], ?_, ?_⟩
      · intro id hid
        rcases List.mem_append.mp hid with hid | hid
        · exact h.queue id hid
        · exact List.mem_singleton.mp hid
      · exact List.mem_append_right _ List.mem_cons_self
    · exact ⟨e.taskQueue, by rw [if_neg hlen], h.queue, h.mem_of_full hlen⟩

/-- **`add_scancode`**: the scancode is dropped because others are waiting, or it is queued and
the task woken. -/
theorem addScancode_spec {e : Executor} (h : e.Single) (scancode : UInt8) :
    (e.addScancode scancode = e ∧ e.scancodes ≠ []) ∨
    (e.waker = none ∧
      e.addScancode scancode = { e with scancodes := e.scancodes ++ [scancode] }) ∨
    (e.waker = some e.task ∧ ∃ q, e.addScancode scancode =
        { e with scancodes := e.scancodes ++ [scancode], waker := none, taskQueue := q } ∧
      (∀ id ∈ q, id = e.task) ∧ e.task ∈ q) := by
  unfold addScancode ArrayQueue.push
  by_cases hlen : e.scancodes.length < scancodeCapacity
  · rw [if_pos hlen]
    have hsingle : Single { e with scancodes := e.scancodes ++ [scancode] } := ⟨h.queue, h.waker⟩
    exact Or.inr (wake_spec hsingle)
  · rw [if_neg hlen]
    refine Or.inl ⟨rfl, fun hnil => hlen ?_⟩
    rw [hnil]
    decide

/-- **The keyboard interrupt** keeps the task covered: where that was so because nothing was
waiting, the wakeup queues it. -/
theorem addScancode_covered {e : Executor} (h : e.Single) (hc : e.Covered) (scancode : UInt8) :
    (e.addScancode scancode).Covered := by
  rcases addScancode_spec h scancode with ⟨heq, -⟩ | ⟨hw, heq⟩ | ⟨-, q, heq, -, hmem⟩
  · rwa [heq]
  · rw [heq]
    rcases hc with hmem | ⟨-, hw'⟩
    · exact Or.inl hmem
    · rw [hw] at hw'
      cases hw'
  · rw [heq]
    exact Or.inl hmem

theorem addScancode_single {e : Executor} (h : e.Single) (scancode : UInt8) :
    (e.addScancode scancode).Single ∧ (e.addScancode scancode).point = e.point ∧
      (e.addScancode scancode).task = e.task := by
  rcases addScancode_spec h scancode with ⟨heq, -⟩ | ⟨-, heq⟩ | ⟨-, q, heq, hall, -⟩
  · rw [heq]
    exact ⟨h, rfl, rfl⟩
  · rw [heq]
    exact ⟨⟨h.queue, h.waker⟩, rfl, rfl⟩
  · rw [heq]
    exact ⟨⟨hall, fun _ hc => by cases hc⟩, rfl, rfl⟩

/-- ... and between the registration of the waker and the second `pop` one of the two is in
place. -/
theorem addScancode_registered {e : Executor} (h : e.Single) (scancode : UInt8)
    (hr : e.task ∈ e.taskQueue ∨ e.waker = some e.task) :
    e.task ∈ (e.addScancode scancode).taskQueue ∨
      (e.addScancode scancode).waker = some e.task := by
  rcases addScancode_spec h scancode with ⟨heq, -⟩ | ⟨hw, heq⟩ | ⟨-, q, heq, -, hmem⟩
  · rwa [heq]
  · rw [heq]
    exact hr
  · rw [heq]
    exact Or.inl hmem

/-! ## Steps and runs -/

theorem advance_wakeful {e e' : Executor} (h : e.Wakeful) (hstep : e.advance = some e') :
    e'.Wakeful := by
  have hp := h.point
  unfold AtPoint at hp
  unfold advance at hstep
  cases hpoint : e.point with
  | popTask =>
    rw [hpoint] at hp hstep
    cases hq : e.taskQueue with
    | nil =>
      simp only [hq, Option.some.injEq] at hstep
      subst hstep
      refine ⟨⟨fun id hid => (by cases hid), h.waker⟩, ?_⟩
      rw [Covered, hq] at hp
      exact hp
    | cons id rest =>
      simp only [hq, Option.some.injEq] at hstep
      subst hstep
      refine ⟨⟨fun i hi => h.queue i (by rw [hq]; exact List.mem_cons_of_mem _ hi), h.waker⟩, ?_⟩
      exact h.queue id (by rw [hq]; exact List.mem_cons_self)
  | lookup id =>
    simp only [hpoint] at hp hstep
    rw [if_pos hp, Option.some.injEq] at hstep
    subst hstep
    exact ⟨⟨h.queue, h.waker⟩, trivial⟩
  | popFirst =>
    rw [hpoint] at hstep
    cases hs : e.scancodes with
    | nil =>
      simp only [hs, Option.some.injEq] at hstep
      subst hstep
      exact ⟨⟨h.queue, h.waker⟩, trivial⟩
    | cons scancode rest =>
      simp only [hs, Option.some.injEq] at hstep
      subst hstep
      exact ⟨⟨h.queue, h.waker⟩, trivial⟩
  | register =>
    simp only [hpoint, Option.some.injEq] at hstep
    subst hstep
    exact ⟨⟨h.queue, fun _ hid => (Option.some.inj hid).symm⟩, Or.inr rfl⟩
  | popSecond =>
    rw [hpoint] at hp hstep
    cases hs : e.scancodes with
    | nil =>
      -- nothing came in since the waker was registered, or the task is queued again
      simp only [hs, Option.some.injEq] at hstep
      subst hstep
      exact ⟨⟨h.queue, h.waker⟩, hp.imp_right (fun hw => ⟨rfl, hw⟩)⟩
    | cons scancode rest =>
      simp only [hs, Option.some.injEq] at hstep
      subst hstep
      exact ⟨⟨h.queue, h.waker⟩, trivial⟩
  | takeWaker scancode =>
    simp only [hpoint, Option.some.injEq] at hstep
    subst hstep
    exact ⟨⟨h.queue, fun _ hc => by cases hc⟩, trivial⟩
  | handle scancode =>
    simp only [hpoint, Option.some.injEq] at hstep
    subst hstep
    exact ⟨⟨h.queue, h.waker⟩, trivial⟩
  | pending =>
    simp only [hpoint, Option.some.injEq] at hp hstep
    subst hstep
    exact ⟨⟨h.queue, h.waker⟩, hp⟩
  | disable =>
    simp only [hpoint, Option.some.injEq] at hp hstep
    subst hstep
    exact ⟨⟨h.queue, h.waker⟩, hp⟩
  | check =>
    simp only [hpoint] at hp hstep
    split_ifs at hstep with hempty
    · cases hstep
      exact ⟨⟨h.queue, h.waker⟩, List.isEmpty_iff.mp hempty, hp⟩
    · cases hstep
      exact ⟨⟨h.queue, h.waker⟩, hp⟩
  | halt =>
    simp only [hpoint, Option.some.injEq] at hp hstep
    subst hstep
    exact ⟨⟨h.queue, h.waker⟩, hp⟩
  | halted =>
    rw [hpoint] at hstep
    cases hstep
  | enable =>
    simp only [hpoint, Option.some.injEq] at hp hstep
    subst hstep
    exact ⟨⟨h.queue, h.waker⟩, hp⟩

theorem resume_wakeful {e : Executor} (h : e.Single)
    (hp : e.point = .halted → e.Covered) (hp' : e.point ≠ .halted → e.AtPoint) :
    e.resume.Wakeful := by
  unfold resume
  split_ifs with hpoint
  · exact ⟨⟨h.queue, h.waker⟩, hp hpoint⟩
  · exact ⟨h, hp' hpoint⟩

/-- **One step.** -/
theorem step_wakeful {e e' : Executor} {a : Action} (h : e.Wakeful) (hstep : e.step a = .ok e') :
    e'.Wakeful := by
  have hp := h.point
  unfold AtPoint at hp
  cases a with
  | advance =>
    cases hadv : e.advance with
    | none => rw [step, hadv] at hstep; cases hstep
    | some e₁ =>
      rw [step, hadv] at hstep
      cases hstep
      exact advance_wakeful h hadv
  | keyboard scancode =>
    rw [step] at hstep
    split_ifs at hstep with hint
    cases hstep
    obtain ⟨hsingle, hpoint, htask⟩ := addScancode_single h.toSingle scancode
    refine resume_wakeful hsingle ?_ ?_
    · intro hhalted
      rw [hpoint] at hhalted
      rw [hhalted] at hp
      exact addScancode_covered h.toSingle hp.2 scancode
    · intro hawake
      rw [hpoint] at hawake
      unfold AtPoint
      rw [hpoint]
      cases hpt : e.point with
      | lookup id =>
        rw [hpt] at hp
        exact hp.trans htask.symm
      | popSecond =>
        rw [hpt] at hp
        rw [htask]
        exact addScancode_registered h.toSingle scancode hp
      | popFirst => trivial
      | register => trivial
      | takeWaker sc => trivial
      | handle sc => trivial
      | halted => exact absurd hpt hawake
      | popTask => rw [hpt] at hp; exact addScancode_covered h.toSingle hp scancode
      | pending => rw [hpt] at hp; exact addScancode_covered h.toSingle hp scancode
      | disable => rw [hpt] at hp; exact addScancode_covered h.toSingle hp scancode
      | check => rw [hpt] at hint; cases hint
      | halt => rw [hpt] at hint; cases hint
      | enable => rw [hpt] at hint; cases hint
  | interrupt =>
    rw [step] at hstep
    split_ifs at hstep with hint
    cases hstep
    refine resume_wakeful h.toSingle (fun hhalted => ?_) (fun _ => h.point)
    rw [hhalted] at hp
    exact hp.2

/-- **No lost wakeup.**  Whenever the task is neither queued nor being polled, no scancode is
waiting and its waker is registered; so the executor never executes `hlt` while an accepted
scancode is waiting. -/
theorem no_lost_wakeup {task : TaskId} {waiting : List UInt8} {e : Executor}
    (h : Runs.Reachable step (start task waiting) e) :
    (e.point.polling = false → e.task ∉ e.taskQueue →
      e.scancodes = [] ∧ e.waker = some e.task) ∧
    (e.point = .halt → e.scancodes = []) := by
  have hw : e.Wakeful := h.invariant (I := Wakeful) (start_wakeful task waiting)
    (fun _ _ _ hk _ hstep => step_wakeful hk hstep)
  have hp := hw.point
  unfold AtPoint at hp
  constructor
  · intro hpoll hout
    have hcov : e.Covered := by
      cases hpt : e.point with
      | halt => rw [hpt] at hp; exact hp.2
      | halted => rw [hpt] at hp; exact hp.2
      | popTask => rw [hpt] at hp; exact hp
      | pending => rw [hpt] at hp; exact hp
      | disable => rw [hpt] at hp; exact hp
      | check => rw [hpt] at hp; exact hp
      | enable => rw [hpt] at hp; exact hp
      | _ => rw [hpt] at hpoll; cases hpoll
    exact hcov.resolve_left hout
  · intro hpt
    rw [hpt] at hp
    obtain ⟨hempty, hcov⟩ := hp
    refine (hcov.resolve_left ?_).1
    rw [hempty]
    exact List.not_mem_nil

/-- A scancode arrives right after the waker is registered, another one right after `poll_next`
found nothing more; the executor handles both before it halts. -/
def lateScancodesRun : List Action :=
  List.replicate 4 .advance ++ [.keyboard 30] ++ List.replicate 6 .advance ++ [.keyboard 48] ++
    List.replicate 18 .advance

/-- Asleep, with the waker registered. -/
def asleep : Executor where
  task := 0
  scancodes := []
  waker := some 0
  taskQueue := []
  point := .halt

theorem no_lost_wakeup_lateScancodesRun :
    Runs.run step (start 0 []) lateScancodesRun = .ok asleep ∧
      asleep.waker = some 0 ∧ asleep.scancodes = [] := by
  have hrun : Runs.run step (start 0 []) lateScancodesRun = .ok asleep := by decide
  obtain ⟨hidle, hhalt⟩ := no_lost_wakeup (Runs.reachable_of_run hrun)
  exact ⟨hrun, (hidle rfl (by decide)).2, hhalt rfl⟩

end Executor
