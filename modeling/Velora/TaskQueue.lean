/-
# Wakeups through the ready queue

`Executor` (task/executor.rs) with any number of tasks.  What a task does when it is
polled is not the executor's business: it comes to `Ready` or to `Pending`.  A waker can
be cloned and kept, so from the first `poll` of a task on, its id can be woken at any
time and any number of times, by the task itself, by another one or by an interrupt.

The ready queue has room for 128 ids and takes an id more than once.  A wakeup that
finds the queue full is dropped, and the comment in `wake_task` says why that is no loss:
"the task will still run once whatever's already queued for it is processed".
`wakeup_kept_iff` says when this is so.  It is not when the queue is full of other
tasks' ids: then nothing is queued for the task, and `wakeup_lost` is a run in which it
is never polled again.
-/
import Velora.Executor

/-- The reasons why the executor does not go on. -/
inductive ExecutorStop
  /-- "task with same ID already in tasks" -/
  | sameId
  /-- "task_queue full" -/
  | taskQueueFull
  /-- The action is not possible at this point. -/
  | notPossible
  deriving DecidableEq

/-- `Executor`, with the task that is being polled, the counter of `TaskId::new`, and the tasks
whose waker has been handed out. -/
structure TaskExecutor where
  tasks : Finset TaskId
  taskQueue : List TaskId
  wakerCache : Finset TaskId
  polled : Option TaskId
  nextId : ℕ
  wakers : Finset TaskId

namespace TaskExecutor

/-- `Executor::new` -/
def new : TaskExecutor where
  tasks := ∅
  taskQueue := []
  wakerCache := ∅
  polled := none
  nextId := 0
  wakers := ∅

/-- `Task::new` and `Executor::spawn` -/
def spawn (e : TaskExecutor) : Except ExecutorStop TaskExecutor :=
  if e.nextId ∈ e.tasks then .error .sameId
  else
    match ArrayQueue.push maxQueuedTasks e.taskQueue e.nextId with
    | none => .error .taskQueueFull
    | some q => .ok { e with
        tasks := insert e.nextId e.tasks, taskQueue := q
        nextId := (e.nextId + 1) % 0x10000000000000000 }

/-- `task_queue.pop()` in `run_ready_tasks`, up to the call of `poll`. -/
def pop (e : TaskExecutor) : Except ExecutorStop TaskExecutor :=
  match e.taskQueue with
  | [] => .error .notPossible
  | id :: rest =>
    if id ∈ e.tasks then
      .ok { e with
        taskQueue := rest, polled := some id
        wakerCache := insert id e.wakerCache, wakers := insert id e.wakers }
    else .ok { e with taskQueue := rest }

/-- `poll` returns `Poll::Ready(())` or `Poll::Pending`. -/
def finish (e : TaskExecutor) (ready : Bool) : Except ExecutorStop TaskExecutor :=
  match e.polled with
  | none => .error .notPossible
  | some id =>
    if ready then
      .ok { e with
        tasks := e.tasks.erase id, wakerCache := e.wakerCache.erase id, polled := none }
    else .ok { e with polled := none }

/-- `TaskWaker::wake_task` -/
def wakeTask (e : TaskExecutor) (id : TaskId) : TaskExecutor :=
  match ArrayQueue.push maxQueuedTasks e.taskQueue id with
  | some q => { e with taskQueue := q }
  | none => e

/-- What can happen next. -/
inductive Action
  | spawn
  | pop
  | finish (ready : Bool)
  | wake (id : TaskId)

/-- One step.  Tasks are spawned, and ids taken off the queue, while no task is being polled. -/
def step (e : TaskExecutor) : Action → Except ExecutorStop TaskExecutor
  | .spawn => if e.polled = none then e.spawn else .error .notPossible
  | .pop => if e.polled = none then e.pop else .error .notPossible
  | .finish ready => e.finish ready
  | .wake id => if id ∈ e.wakers then .ok (e.wakeTask id) else .error .notPossible

/-! ## What a step does to one task -/

/-- The task is taken off the queue to be polled. -/
def BeginsPoll (id : TaskId) (e e' : TaskExecutor) : Prop :=
  e.polled = none ∧ e'.polled = some id

/-- The task is queued, or there is none with its id. -/
def Queued (e : TaskExecutor) (id : TaskId) : Prop := id ∈ e.taskQueue ∨ id ∉ e.tasks

variable {e e' : TaskExecutor} {id : TaskId}

theorem push_eq_some {q q' : List TaskId} {x : TaskId}
    (h : ArrayQueue.push maxQueuedTasks q x = some q') : q' = q ++ [x] := by
  rw [ArrayQueue.push] at h
  split_ifs at h
  exact (Option.some.inj h).symm

theorem Queued.wakeTask (h : e.Queued id) (x : TaskId) : (e.wakeTask x).Queued id := by
  rw [TaskExecutor.wakeTask]
  cases hq : ArrayQueue.push maxQueuedTasks e.taskQueue x with
  | none => exact h
  | some q =>
    rw [push_eq_some hq]
    exact h.imp_left (List.mem_append_left [x])

theorem Queued.spawn (h : e.Queued id) (hs : e.spawn = .ok e') : e'.Queued id := by
  rw [TaskExecutor.spawn] at hs
  split_ifs at hs
  cases hq : ArrayQueue.push maxQueuedTasks e.taskQueue e.nextId with
  | none =>
    rw [hq] at hs
    cases hs
  | some q =>
    rw [hq] at hs
    cases hs
    rw [Queued, push_eq_some hq, List.mem_append, List.mem_singleton, Finset.mem_insert]
    rcases h with hmem | hnot
    · exact Or.inl (Or.inl hmem)
    · by_cases hid : id = e.nextId
      · exact Or.inl (Or.inr hid)
      · exact Or.inr (not_or.2 ⟨hid, hnot⟩)

/-- A task that is queued stays so, until it is polled. -/
theorem Queued.pop (h : e.Queued id) (hs : e.pop = .ok e') :
    e'.polled = some id ∨ e'.Queued id := by
  rw [TaskExecutor.pop] at hs
  cases hq : e.taskQueue with
  | nil =>
    rw [hq] at hs
    cases hs
  | cons x rest =>
    rw [Queued, hq, List.mem_cons] at h
    rw [hq] at hs
    simp only at hs
    split_ifs at hs with hx
    · cases hs
      by_cases hid : id = x
      · exact Or.inl (congrArg some hid.symm)
      · exact Or.inr (h.imp_left fun hmem => hmem.resolve_left hid)
    · cases hs
      by_cases hid : id = x
      · rw [← hid] at hx
        exact Or.inr (Or.inr hx)
      · exact Or.inr (h.imp_left fun hmem => hmem.resolve_left hid)

theorem Queued.finish (h : e.Queued id) {ready : Bool} (hs : e.finish ready = .ok e') :
    e'.Queued id := by
  rw [TaskExecutor.finish] at hs
  cases hp : e.polled with
  | none =>
    rw [hp] at hs
    cases hs
  | some x =>
    rw [hp] at hs
    simp only at hs
    split_ifs at hs
    · cases hs
      exact h.imp_right fun hnot hmem => hnot (Finset.mem_of_mem_erase hmem)
    · cases hs
      exact h

/-- **One step** keeps a queued task queued, or begins to poll it. -/
theorem Queued.step (h : e.Queued id) {a : Action} (hs : e.step a = .ok e') :
    BeginsPoll id e e' ∨ e'.Queued id := by
  cases a with
  | spawn =>
    rw [TaskExecutor.step] at hs
    split_ifs at hs
    exact Or.inr (h.spawn hs)
  | pop =>
    rw [TaskExecutor.step] at hs
    split_ifs at hs with hidle
    exact (h.pop hs).imp_left fun hp => ⟨hidle, hp⟩
  | finish ready => exact Or.inr (h.finish hs)
  | wake x =>
    rw [TaskExecutor.step] at hs
    split_ifs at hs
    cases hs
    exact Or.inr (h.wakeTask x)

/-- The executor polls the task before it finds the queue empty, unless the task has completed by
then. -/
def WillBePolled (e : TaskExecutor) (id : TaskId) : Prop :=
  ∀ as e', Runs.run step e as = .ok e' → e'.taskQueue = [] → id ∈ e'.tasks →
    Runs.Seen step (BeginsPoll id) e as

/-- **A whole run**: a queued task is polled before the queue is empty. -/
theorem Queued.willBePolled (h : e.Queued id) : e.WillBePolled id := by
  intro as
  induction as generalizing e with
  | nil =>
    intro e' hrun hempty hlive
    cases hrun
    rw [Queued, hempty] at h
    exact absurd hlive (h.resolve_left List.not_mem_nil)
  | cons a as ih =>
    intro e' hrun hempty hlive
    obtain ⟨e₁, hs, hrest⟩ := Runs.run_cons_eq_ok hrun
    rw [Runs.seen_cons hs]
    rcases h.step hs with hpoll | hqueued
    · exact Or.inl hpoll
    · exact Or.inr (ih hqueued e' hrest hempty hlive)

/-- There is a run in which the queue is worked off and the task, still there, is left out. -/
def LeavesOut (e : TaskExecutor) (id : TaskId) : Prop :=
  ∃ as e', Runs.run step e as = .ok e' ∧ e'.taskQueue = [] ∧ id ∈ e'.tasks ∧
    ¬ Runs.Seen step (BeginsPoll id) e as

/-- One more step in front of such a run. -/
theorem LeavesOut.cons (h : e'.LeavesOut id) {a : Action} (hs : e.step a = .ok e')
    (hpoll : e'.polled ≠ some id) : e.LeavesOut id := by
  obtain ⟨as, e'', hrun, hempty, hlive, hseen⟩ := h
  refine ⟨a :: as, e'', ?_, hempty, hlive, ?_⟩
  · rw [Runs.run, hs]
    exact hrun
  · rw [Runs.seen_cons hs, not_or]
    exact ⟨fun hbegins => hpoll hbegins.2, hseen⟩

/-- The tasks in the queue are polled one after the other, and none of them wakes anyone. -/
theorem leavesOut_of_idle (q : List TaskId) (hq : e.taskQueue = q) (hp : e.polled = none)
    (hlive : id ∈ e.tasks) (hnot : id ∉ q) : e.LeavesOut id := by
  induction q generalizing e with
  | nil => exact ⟨[], e, rfl, hq, hlive, fun hseen => hseen⟩
  | cons x q ih =>
    obtain ⟨hx, hnot⟩ := not_or.1 (List.mem_cons.not.1 hnot)
    have hpop : e.step .pop = e.pop := if_pos hp
    rw [pop, hq] at hpop
    by_cases hmem : x ∈ e.tasks
    · simp only [if_pos hmem] at hpop
      refine LeavesOut.cons (LeavesOut.cons (ih ?_ ?_ ?_ hnot) (a := .finish false) rfl ?_) hpop ?_
      · rfl
      · rfl
      · exact hlive
      · exact fun h => by cases h
      · exact fun h => hx (Option.some.inj h).symm
    · simp only [if_neg hmem] at hpop
      refine LeavesOut.cons ?_ hpop fun h => by cases hp.symm.trans h
      exact ih rfl hp hlive hnot

/-- A task that is not queued may be left out. -/
theorem leavesOut (hlive : id ∈ e.tasks) (hnot : id ∉ e.taskQueue) : e.LeavesOut id := by
  cases hp : e.polled with
  | none => exact leavesOut_of_idle e.taskQueue rfl hp hlive hnot
  | some x =>
    -- the poll under way ends first
    have hfinish : e.step (.finish false) = .ok { e with polled := none } := by
      rw [step, finish, hp]
      rfl
    refine LeavesOut.cons ?_ hfinish fun h => by cases h
    exact leavesOut_of_idle e.taskQueue rfl rfl hlive hnot

theorem LeavesOut.not_willBePolled (h : e.LeavesOut id) : ¬ e.WillBePolled id := by
  intro hpoll
  obtain ⟨as, e', hrun, hempty, hlive, hseen⟩ := h
  exact hseen (hpoll as e' hrun hempty hlive)

/-! ## Wakeups -/

/-- The wakeup is dropped: `wake_task` leaves the queue as it was. -/
def Dropped (e : TaskExecutor) (id : TaskId) : Prop := (e.wakeTask id).taskQueue = e.taskQueue

/-- That is so if and only if the queue is full. -/
theorem dropped_iff : e.Dropped id ↔ ¬ e.taskQueue.length < maxQueuedTasks := by
  rw [Dropped, wakeTask, ArrayQueue.push]
  split_ifs with hlen
  · refine iff_of_false (fun hsame => ?_) (not_not_intro hlen)
    have hlonger := congrArg List.length hsame
    rw [List.length_append, List.length_singleton] at hlonger
    omega
  · exact iff_of_true rfl hlen

theorem wakeTask_tasks : (e.wakeTask id).tasks = e.tasks := by
  rw [wakeTask]
  cases ArrayQueue.push maxQueuedTasks e.taskQueue id with
  | none => rfl
  | some q => rfl

/-- After a wakeup the id is queued, unless the queue was full of others. -/
theorem mem_wakeTask_iff : id ∈ (e.wakeTask id).taskQueue ↔
    e.taskQueue.length < maxQueuedTasks ∨ id ∈ e.taskQueue := by
  by_cases hlen : e.taskQueue.length < maxQueuedTasks
  · rw [wakeTask, ArrayQueue.push, if_pos hlen]
    exact iff_of_true (List.mem_append_right _ List.mem_cons_self) (Or.inl hlen)
  · rw [dropped_iff.2 hlen]
    exact (or_iff_right hlen).symm

/-- **When a wakeup is kept.**  In every state of the executor, and for every task that is still
there: after `wake_task` its id is queued, it is sure to be polled, and a call of `wake_task` that
leaves the queue as it was is a duplicate, each if and only if the queue had room or held the id
already. -/
theorem wakeup_kept_iff {e : TaskExecutor} {id : TaskId} (hlive : id ∈ e.tasks) :
    (id ∈ (e.wakeTask id).taskQueue ↔
      e.taskQueue.length < maxQueuedTasks ∨ id ∈ e.taskQueue) ∧
    ((e.wakeTask id).WillBePolled id ↔
      e.taskQueue.length < maxQueuedTasks ∨ id ∈ e.taskQueue) ∧
    ((e.Dropped id → id ∈ e.taskQueue) ↔
      e.taskQueue.length < maxQueuedTasks ∨ id ∈ e.taskQueue) := by
  refine ⟨mem_wakeTask_iff, ?_, ?_⟩
  · rw [← mem_wakeTask_iff]
    constructor
    · intro hpoll
      by_contra hnot
      have hlive' : id ∈ (e.wakeTask id).tasks := by rwa [wakeTask_tasks]
      exact (leavesOut hlive' hnot).not_willBePolled hpoll
    · intro hmem
      exact Queued.willBePolled (Or.inl hmem)
  · rw [dropped_iff, or_iff_not_imp_left]

/-- Two tasks that have been polled once. -/
def twoTasksRun : List Action :=
  [.spawn, .spawn, .pop, .finish false, .pop, .finish false]

/-- The other task has been woken 127 times: the queue still has room. -/
theorem wakeup_kept_iff_twoTasks : ∃ e, Runs.Reachable step new e ∧ 1 ∈ e.tasks ∧
    1 ∉ e.taskQueue ∧ (e.wakeTask 1).WillBePolled 1 := by
  obtain ⟨e, he, htest⟩ := Runs.exists_reach_of_any step (fun _ _ => True) new
    (twoTasksRun ++ List.replicate 127 (.wake 0))
    (fun e => 1 ∈ e.tasks ∧ 1 ∉ e.taskQueue ∧ e.taskQueue.length < maxQueuedTasks)
    (by decide +kernel)
  obtain ⟨hlive, hnot, hlen⟩ := of_decide_eq_true htest
  exact ⟨e, he, hlive, hnot, (wakeup_kept_iff hlive).2.1.2 (Or.inl hlen)⟩

/-- **A lost wakeup**: one task has been woken 128 times; the wakeup of the other one is dropped
though nothing is queued for it, and the executor may find the queue empty without having
polled it. -/
theorem wakeup_lost : ∃ e, Runs.Reachable step new e ∧ 1 ∈ e.tasks ∧ e.Dropped 1 ∧
    1 ∉ (e.wakeTask 1).taskQueue ∧ ¬ (e.wakeTask 1).WillBePolled 1 := by
  obtain ⟨e, he, htest⟩ := Runs.exists_reach_of_any step (fun _ _ => True) new
    (twoTasksRun ++ List.replicate 128 (.wake 0))
    (fun e => 1 ∈ (e.wakeTask 1).tasks ∧ 1 ∉ (e.wakeTask 1).taskQueue ∧
      ¬ e.taskQueue.length < maxQueuedTasks)
    (by decide +kernel)
  obtain ⟨hlive, hnot, hlen⟩ := of_decide_eq_true htest
  refine ⟨e, he, ?_, dropped_iff.2 hlen, hnot, (leavesOut hlive hnot).not_willBePolled⟩
  rwa [wakeTask_tasks] at hlive

end TaskExecutor
