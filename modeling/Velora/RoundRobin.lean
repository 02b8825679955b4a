/-
# Round robin

Every decision that switches takes the front of the ready queue and makes it current,
and a `schedule` puts the caller back at the end.  A thread therefore waits for
exactly the threads in front of it, however many are spawned or exit meanwhile.

The law behind it is the one of a FIFO queue (`queue_fifo`): over a whole run, what was
dequeued followed by what is still queued is what was queued at first followed by
what was appended.  Bounded waiting is its first part read at one position, and the
fairness between two turns of a thread (`turns_between`) is the same law read between
the moment the thread is appended and the moment it is dequeued again.
-/
import Velora.KernelSafety

namespace Kernel

open SchedulerState

/-! ## Turns -/

/-- The thread a step takes from the ready queue. -/
def dequeued (k : Kernel) (a : Action) : Option ThreadId :=
  if a.decides then (ReadyQueue.popFront k.sched.readyQueue).map Prod.fst else none

/-- The threads a run takes from the ready queue, in order. -/
def turns (k : Kernel) (as : List Action) : List ThreadId :=
  Runs.events step (fun k a _ => (k.dequeued a).toList) k as

theorem popFront_fst (q : ReadyQueue) : (ReadyQueue.popFront q).map Prod.fst = q.toList.head? := by
  cases h : ReadyQueue.popFront q with
  | none => rw [ReadyQueue.popFront_eq_none h]; rfl
  | some pair =>
    rw [ReadyQueue.popFront_eq_some h]
    rfl

/-- What a step does to the ready queue and to the current thread. -/
inductive Turn (k : Kernel) (a : Action) (k' : Kernel) : Prop
  /-- Nothing is dequeued. -/
  | stays (new : List ThreadId) (hdeq : k.dequeued a = none)
      (hcur : k'.sched.current = k.sched.current)
      (hqueue : k'.sched.readyQueue.toList = k.sched.readyQueue.toList ++ new)
  /-- The front becomes current and the caller goes to the end. -/
  | rotates (next : ThreadId) (rest : List ThreadId) (hdeq : k.dequeued a = some next)
      (hcur : k'.sched.current = next) (hfront : k.sched.readyQueue.toList = next :: rest)
      (hqueue : k'.sched.readyQueue.toList = rest ++ [k.sched.current])
  /-- The front becomes current and the caller is gone. -/
  | exits (next : ThreadId) (rest : List ThreadId) (hdeq : k.dequeued a = some next)
      (hcur : k'.sched.current = next) (hfront : k.sched.readyQueue.toList = next :: rest)
      (hqueue : k'.sched.readyQueue.toList = rest)
      (hretired : Retired k.sched.current (k.sched.slotGenerations k.sched.current) k'.sched)

theorem dequeued_of_decides {k : Kernel} {a : Action} (ha : a.decides = true) :
    k.dequeued a = k.sched.readyQueue.toList.head? := by
  rw [dequeued, if_pos ha, popFront_fst]

/-- A decision of `schedule`, taken in a state with the same rotation. -/
theorem turn_of_scheduleRest {k k₁ k' : Kernel} {a : Action} {rsp : ℕ} (ha : a.decides = true)
    (hrot : k₁.sched.rotation = k.sched.rotation) (h : k₁.scheduleRest rsp = .ok k') :
    Turn k a k' := by
  obtain ⟨hcur₁, hqueue₁⟩ := List.cons.inj hrot
  unfold scheduleRest at h
  obtain ⟨⟨o, s⟩, hs, h⟩ := bind_eq_ok h
  rcases scheduleRest_spec hs with ⟨rfl, rfl, hempty⟩ | ⟨sw, t, rest, rfl, h1, h2, -⟩
  · cases h
    rw [hqueue₁] at hempty
    refine .stays [] ?_ hcur₁ (by rw [List.append_nil]; exact hqueue₁)
    rw [dequeued_of_decides ha, hempty]
    rfl
  · cases h
    rw [hrot] at h1
    obtain ⟨-, hfront⟩ := List.cons.inj h1
    obtain ⟨hcur, hqueue⟩ := List.cons.inj h2
    refine .rotates sw.next rest ?_ hcur hfront (hcur₁ ▸ hqueue)
    rw [dequeued_of_decides ha, hfront]
    rfl

/-- A decision of `exit_current_thread`. -/
theorem turn_of_exitRest {k k₁ k' : Kernel} {a : Action} {rsp : ℕ} (ha : a.decides = true)
    (hsafe : k.sched.Safe) (hrot : k₁.sched.rotation = k.sched.rotation)
    (hgen : k₁.sched.slotGenerations = k.sched.slotGenerations)
    (h : k₁.exitRest rsp = .ok k') : Turn k a k' := by
  unfold exitRest at h
  obtain ⟨⟨sw, s⟩, hs, h⟩ := bind_eq_ok h
  cases h
  obtain ⟨t, rest, -, h1, h2, -, -, -, -, hgen', -⟩ := exitRest_spec hs
  rw [hrot] at h1
  obtain ⟨-, hfront⟩ := List.cons.inj h1
  obtain ⟨hcur, hqueue⟩ := List.cons.inj h2
  refine .exits sw.next rest ?_ hcur hfront hqueue (.inl ⟨?_, ?_⟩)
  · rw [dequeued_of_decides ha, hfront]
    rfl
  · show s.slotGenerations _ = _
    rw [hgen', hgen]
  · show k.sched.current ∉ s.rotation
    have hnd := hsafe.nodup
    rw [SchedulerState.rotation, hfront, List.nodup_cons] at hnd
    rw [h2]
    exact hnd.1

/-- **One step.** -/
theorem turn_of_step {k k' : Kernel} {a : Action} (hs : k.sched.Safe) (h : k.step a = .ok k') :
    Turn k a k' := by
  cases ha : a.decides with
  | false =>
    obtain ⟨new, hnew⟩ := (move_of_step (P := fun _ => True) ha h).2
    obtain ⟨hcur, hqueue⟩ := List.cons.inj hnew
    refine .stays new ?_ hcur.symm hqueue.symm
    rw [dequeued, ha]
    rfl
  | true =>
    have hrot : k.reapZombie.sched.rotation = k.sched.rotation := by
      rw [reapZombie_sched]
      exact k.sched.reapTake_spec.2.1
    have hgen : k.reapZombie.sched.slotGenerations = k.sched.slotGenerations := by
      rw [reapZombie_sched]
      exact k.sched.reapTake_spec.2.2.2.2.1
    obtain ⟨rsp, ⟨-, hd⟩ | ⟨-, -, hd⟩ | ⟨-, hd⟩ | ⟨-, hd⟩⟩ := decision_of_step ha h
    · have hgoto : (k.goto .body).sched.rotation = k.sched.rotation := rfl
      exact turn_of_scheduleRest ha hgoto hd
    · exact turn_of_exitRest ha hs rfl rfl hd
    · exact turn_of_scheduleRest ha hrot hd
    · exact turn_of_exitRest ha hs hrot hgen hd

theorem turns_cons {k k' : Kernel} {a : Action} {as : List Action} (h : k.step a = .ok k') :
    k.turns (a :: as) = (k.dequeued a).toList ++ k'.turns as :=
  Runs.events_cons h

theorem step_safe {k k' : Kernel} {a : Action} (hs : k.sched.Safe) (h : k.step a = .ok k') :
    k'.sched.Safe :=
  step_preserves (P := fun _ => True) (fun _ _ hsec => hsec.safe) (fun _ _ => trivial)
    (fun _ _ => trivial) h hs

/-! ## The FIFO law -/

/-- **The ready queue is first in, first out over a whole run**, and the current thread is
the one dequeued last. -/
theorem queue_fifo {k k' : Kernel} {as : List Action} (hs : k.sched.Safe)
    (h : Runs.run step k as = .ok k') :
    (∃ pushed, k.sched.readyQueue.toList ++ pushed =
      k.turns as ++ k'.sched.readyQueue.toList) ∧
    k'.sched.current = (k.turns as).getLastD k.sched.current := by
  have key : k'.sched.Safe ∧ (∃ pushed, k.sched.readyQueue.toList ++ pushed =
      k.turns as ++ k'.sched.readyQueue.toList) ∧
      k'.sched.current = (k.turns as).getLastD k.sched.current := by
    refine Runs.events_invariant (J := fun k' log => k'.sched.Safe ∧
      (∃ pushed, k.sched.readyQueue.toList ++ pushed = log ++ k'.sched.readyQueue.toList) ∧
      k'.sched.current = log.getLastD k.sched.current) h ⟨hs, ⟨[], by simp⟩, rfl⟩ ?_
    rintro u a v log ⟨hsu, ⟨pushed, hpushed⟩, hcur⟩ - hstep
    refine ⟨step_safe hsu hstep, ?_⟩
    cases turn_of_step hsu hstep with
    | stays new hdeq hcur' hqueue =>
      refine ⟨⟨pushed ++ new, ?_⟩, ?_⟩
      · rw [hdeq, hqueue, ← List.append_assoc, hpushed]
        simp
      · rw [hdeq, hcur', hcur]
        simp
    | rotates next rest hdeq hcur' hfront hqueue =>
      refine ⟨⟨pushed ++ [u.sched.current], ?_⟩, ?_⟩
      · rw [hdeq, hqueue, ← List.append_assoc, hpushed, hfront]
        simp
      · rw [hdeq, hcur']
        simp
    | exits next rest hdeq hcur' hfront hqueue _ =>
      refine ⟨⟨pushed, ?_⟩, ?_⟩
      · rw [hdeq, hqueue, hpushed, hfront]
        simp
      · rw [hdeq, hcur']
        simp
  exact key.2

/-- **Bounded waiting.**  The thread at position `n` is dequeued by the `n + 1`-st dequeue and
by none before it. -/
theorem turn_of_position {k k' : Kernel} {as : List Action} (hs : k.sched.Safe)
    (h : Runs.run step k as = .ok k') {n : ℕ} {i : ThreadId}
    (hi : k.sched.readyQueue.toList[n]? = some i) :
    (n < (k.turns as).length → (k.turns as)[n]? = some i) ∧
      ∀ m, m < n → (k.turns as)[m]? ≠ some i := by
  obtain ⟨⟨pushed, hfifo⟩, -⟩ := queue_fifo hs h
  have hlt : n < k.sched.readyQueue.toList.length := (List.getElem?_eq_some_iff.mp hi).1
  -- below both lengths the turns and the queue agree
  have hagree : ∀ m, m < k.sched.readyQueue.toList.length → m < (k.turns as).length →
      (k.turns as)[m]? = k.sched.readyQueue.toList[m]? := by
    intro m hq ht
    have hl : (k.turns as ++ k'.sched.readyQueue.toList)[m]? = (k.turns as)[m]? :=
      List.getElem?_append_left ht
    rw [← hl, ← hfifo, List.getElem?_append_left hq]
  refine ⟨fun hn => (hagree n hlt hn).trans hi, fun m hm hc => ?_⟩
  have ht : m < (k.turns as).length := (List.getElem?_eq_some_iff.mp hc).1
  rw [hagree m (hm.trans hlt) ht, ← hi] at hc
  have hnd : k.sched.readyQueue.toList.Nodup := (List.nodup_cons.mp hs.nodup).2
  have := (List.getElem?_inj (hm.trans hlt) hnd).mp hc
  omega

/-- A retired thread stays so. -/
theorem retired_of_run {k k' : Kernel} {as : List Action} {i : ThreadId} {g : UInt64}
    (h : Runs.run step k as = .ok k') (hr : Retired i g k.sched) : Retired i g k'.sched := by
  refine (Runs.reachable_of_run h).invariant (I := fun k => Retired i g k.sched) hr ?_
  intro k₁ a k₂ hk _ hstep
  exact step_preserves (P := fun _ => True) (fun _ _ hsec => hsec.retired) (fun _ _ => trivial)
    (fun _ _ => trivial) hstep hk

theorem generation_le_of_step {k k' : Kernel} {a : Action} (i : ThreadId)
    (h : k.step a = .ok k') : k.sched.slotGenerations i ≤ k'.sched.slotGenerations i := by
  refine step_preserves (P := fun _ => True)
    (I := fun s => k.sched.slotGenerations i ≤ s.slotGenerations i) ?_ (fun _ _ => trivial)
    (fun _ _ => trivial) h (UInt64.le_refl _)
  intro s s' hsec hle
  cases hsec with
  | install hi => exact UInt64.le_trans hle (install_generation hi i).1
  | touch => exact hle
  | take =>
    rw [s.reapTake_spec.2.2.2.2.1]
    exact hle
  | schedule hs =>
    rcases scheduleRest_spec hs with ⟨-, rfl, -⟩ | ⟨sw, t, rest, -, -, -, -, -, -, -, hgen, -⟩
    · exact hle
    · rwa [hgen]
  | exit _ hs =>
    obtain ⟨t, rest, -, -, -, -, -, -, -, hgen, -⟩ := exitRest_spec hs
    rwa [hgen]

/-- What stands before the first occurrence of an element. -/
theorem takeWhile_before {i : ThreadId} {l r : List ThreadId} (h : i ∉ l) :
    (l ++ i :: r).takeWhile (fun j => decide (j ≠ i)) = l := by
  have hpos : ∀ j ∈ l, decide (j ≠ i) = true :=
    fun j hj => decide_eq_true (fun hc => h (hc ▸ hj))
  rw [List.takeWhile_append_of_pos hpos, List.takeWhile_cons_of_neg (by simp), List.append_nil]

/-- **Between two turns of the current thread** the threads that were ready are dequeued once
each: what is dequeued in between has no repetition and contains them all. -/
theorem turns_between {k k' : Kernel} {as : List Action} {mid : List ThreadId} {i : ThreadId}
    (hs : k.sched.Safe) (h : Runs.run step k as = .ok k') (hi : k.sched.current = i)
    (hturns : k.turns as = mid ++ [i]) (hmid : i ∉ mid)
    (hsame : k'.sched.slotGenerations i ≤ k.sched.slotGenerations i) :
    mid.Nodup ∧ ∀ j ∈ k.sched.readyQueue.toList, j ∈ mid := by
  have hend : k'.sched.current = i := by
    rw [(queue_fifo hs h).2, hturns]
    simp
  -- until the thread is switched away from, steps only append to the queue
  induction as generalizing k with
  | nil => cases mid <;> cases hturns
  | cons a as ih =>
    obtain ⟨k₁, hstep, hrun⟩ := Runs.run_cons_eq_ok h
    have hs₁ := step_safe hs hstep
    rw [turns_cons hstep] at hturns
    cases turn_of_step hs hstep with
    | stays new hdeq hcur hqueue =>
      rw [hdeq] at hturns
      have hle := UInt64.le_trans hsame (generation_le_of_step i hstep)
      obtain ⟨hnd, hall⟩ := ih hs₁ hrun (hcur.trans hi) hturns hle
      refine ⟨hnd, fun j hj => hall j ?_⟩
      rw [hqueue]
      exact List.mem_append_left _ hj
    | rotates next rest hdeq hcur hfront hqueue =>
      have hnd : (i :: next :: rest).Nodup := by
        have := hs.nodup
        rwa [SchedulerState.rotation, hfront, hi] at this
      have hni : i ∉ rest := fun hc => (List.nodup_cons.mp hnd).1 (List.mem_cons_of_mem _ hc)
      -- the queue now ends in `i`, and is dequeued up to there
      rw [hdeq, Option.toList_some, List.singleton_append] at hturns
      cases mid with
      | nil =>
        obtain ⟨rfl, -⟩ := List.cons.inj hturns
        exact absurd List.mem_cons_self (List.nodup_cons.mp hnd).1
      | cons x mid =>
        rw [List.cons_append, List.cons.injEq] at hturns
        obtain ⟨rfl, hturns₁⟩ := hturns
        rw [List.mem_cons, not_or] at hmid
        obtain ⟨⟨pushed, hfifo⟩, -⟩ := queue_fifo hs₁ hrun
        rw [hqueue, hturns₁, hi, List.append_assoc, List.append_assoc] at hfifo
        have heq : rest = mid := by
          rw [← takeWhile_before (r := pushed) hni, ← takeWhile_before hmid.2]
          exact congrArg _ hfifo
        rw [hfront, ← heq]
        exact ⟨(List.nodup_cons.mp hnd).2, fun j hj => hj⟩
    | exits next rest hdeq hcur hfront hqueue hretired =>
      rw [hi] at hretired
      rcases retired_of_run hrun hretired with ⟨-, hout⟩ | hlt
      · rw [← hend] at hout
        exact absurd k'.sched.current_mem_rotation hout
      · exact absurd hsame (UInt64.not_le.mpr hlt)

/-! ## Round robin -/

/-- **Round robin with bounded waiting.**  From every reachable state and along every run:

* the current thread is the one dequeued last;
* the thread at position `n` of the ready queue is dequeued by the `n + 1`-st dequeue, and by
  none before it;
* from one turn of a thread to its next (the slot's generation says that it is the same
  thread), every other thread of the rotation is dequeued exactly once. -/
theorem round_robin {pt : Frame} {rsp rsp0 : ℕ} {k k' : Kernel} {as : List Action}
    (hreach : Runs.Reachable step (boot pt rsp rsp0) k) (h : Runs.run step k as = .ok k') :
    k'.sched.current = (k.turns as).getLastD k.sched.current ∧
    (∀ n i, k.sched.readyQueue.toList[n]? = some i →
      (n < (k.turns as).length → (k.turns as)[n]? = some i) ∧
        ∀ m, m < n → (k.turns as)[m]? ≠ some i) ∧
    (∀ mid, k.turns as = mid ++ [k.sched.current] → k.sched.current ∉ mid →
      k'.sched.slotGenerations k.sched.current = k.sched.slotGenerations k.sched.current →
      ∀ j ∈ k.sched.rotation, j ≠ k.sched.current → mid.count j = 1) := by
  have hs := safe_of_reachable hreach
  refine ⟨(queue_fifo hs h).2, fun n i hi => turn_of_position hs h hi, ?_⟩
  intro mid hturns hmid hgen j hj hne
  obtain ⟨hnd, hall⟩ := turns_between hs h rfl hturns hmid (by rw [hgen]; exact UInt64.le_refl _)
  refine List.count_eq_one_of_mem hnd (hall j ?_)
  rw [SchedulerState.rotation, List.mem_cons] at hj
  exact hj.resolve_left hne

/-- Two threads take turns with the boot thread; one of them is preempted, the other exits. -/
def threeTurnsRun : List Action :=
  [.tick 100, .trampoline, .tick 200, .trampoline, .exitCall, .exitRest 300]

theorem round_robin_threeTurnsRun :
    ∃ k k', Runs.Reachable step (boot 1 0 0) k ∧ Runs.run step k threeTurnsRun = .ok k' ∧
      k.turns threeTurnsRun = [1, 2] ++ [k.sched.current] ∧
      ∀ j ∈ k.sched.rotation, j ≠ k.sched.current → [1, 2].count j = 1 := by
  obtain ⟨k, hk, htest⟩ := Runs.exists_reach_of_any step (fun _ _ => True) (boot 1 0 0)
    [.spawn 0x10000 (.function 1), .spawn 0x20000 (.function 2)]
    (fun k => (Runs.run step k threeTurnsRun).toOption.any (fun k' => decide
      (k.turns threeTurnsRun = [1, 2] ++ [k.sched.current] ∧ k.sched.current ∉ [1, 2] ∧
        k'.sched.slotGenerations k.sched.current = k.sched.slotGenerations k.sched.current)))
    (by decide)
  obtain ⟨k', hk', htest⟩ := Runs.exists_ok_of_any _ htest
  obtain ⟨hturns, hmid, hgen⟩ := of_decide_eq_true htest
  exact ⟨k, k', hk, hk', hturns, (round_robin hk hk').2.2 [1, 2] hturns hmid hgen⟩

end Kernel
