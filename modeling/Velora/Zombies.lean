/-
# Exited threads are reaped, or lost

`SchedulerState::zombie` records one exited thread.  The comment on the field says
that one is enough: "`reap_zombie()` runs at the top of both `schedule()` and
`exit_current_thread()`, so nothing new can be switched away from until the
previous one is cleared".

That holds as long as no other thread exits between a thread's own `reap_zombie()`
and its `interrupts::disable()` and hands the CPU straight back to it
(`no_exited_thread_lost`).  When one does, the second exit overwrites `zombie` and
the first thread's slot is neither in the rotation nor recorded anywhere
(`pending_zombie_lost`, and the run `lostRun`); it then stays so for ever
(`lost_forever`).
-/
import Velora.Preemption

namespace Kernel

open SchedulerState

/-- Slot `i` is occupied by a thread that neither runs, nor is queued, nor is going to be
reaped. -/
def Lost (s : SchedulerState) (i : ThreadId) : Prop :=
  s.Occupied i ∧ i ∉ s.rotation ∧ s.zombie ≠ some i

/-- A thread passes `interrupts::disable()` in `exit_current_thread` only while no zombie is
pending. -/
def ExitsAfterReap (k : Kernel) : Action → Prop
  | .exitRest _ => k.sched.zombie = none
  | _ => True

instance (k : Kernel) (a : Action) : Decidable (ExitsAfterReap k a) := by
  unfold ExitsAfterReap
  split <;> infer_instance

/-- Every critical section keeps all threads accounted for, if exits find no zombie. -/
theorem CritSection.none_lost {s s' : SchedulerState}
    (h : CritSection (fun s => s.zombie = none) s s') (hs : ∀ i, ¬ Lost s i) (i : ThreadId) :
    ¬ Lost s' i := by
  have key : s.Occupied i → i ∈ s.rotation ∨ s.zombie = some i := by
    intro ho
    by_contra hc
    push Not at hc
    exact hs i ⟨ho, hc.1, hc.2⟩
  rintro ⟨ho, hrot, hzom⟩
  cases h with
  | install hi =>
    obtain ⟨-, hthr, hrot', hzom', -⟩ := install_spec hi
    rw [hrot', List.mem_append, List.mem_singleton, not_or] at hrot
    rw [Occupied, hthr, Function.update_of_ne hrot.2] at ho
    rw [hzom'] at hzom
    exact (key ho).elim hrot.1 hzom
  | touch j f _ =>
    rw [Occupied, isSome_mapThread] at ho
    exact (key ho).elim hrot hzom
  | take =>
    obtain ⟨-, hrot', -, -, -, -, hthr⟩ := s.reapTake_spec
    rw [Occupied, hthr] at ho
    rw [hrot'] at hrot
    split_ifs at ho with hz
    · cases ho
    · exact (key ho).elim hrot hz
  | schedule hr =>
    rcases scheduleRest_spec hr with ⟨-, rfl, -⟩ | ⟨sw, t, rest, -, h1, h2, -, hthr, hzom', -⟩
    · exact (key ho).elim hrot hzom
    · rw [Occupied, hthr] at ho
      rw [hzom'] at hzom
      rw [h2, ← List.cons_append, List.mem_append, List.mem_singleton, not_or] at hrot
      refine (key ho).elim (fun hmem => ?_) hzom
      rw [h1, List.mem_cons] at hmem
      exact hmem.elim hrot.2 hrot.1
  | exit hnone hr =>
    obtain ⟨t, rest, -, h1, h2, -, hthr, hzom', -⟩ := exitRest_spec hr
    rw [Occupied, hthr] at ho
    rw [hzom'] at hzom
    rw [h2] at hrot
    rcases key ho with hmem | hz
    · rw [h1, List.mem_cons] at hmem
      rcases hmem with rfl | hmem
      · exact hzom rfl
      · exact hrot hmem
    · rw [hnone] at hz
      cases hz

/-- **No exited thread is lost** in a run in which every `exit_current_thread` passes
`interrupts::disable()` with no zombie pending: every occupied slot is the current
thread's, or queued, or the recorded zombie. -/
theorem no_exited_thread_lost {pt : Frame} {rsp rsp0 : ℕ} {k : Kernel}
    (h : Runs.Reach step ExitsAfterReap (boot pt rsp rsp0) k) (i : ThreadId)
    (hi : k.sched.Occupied i) :
    i = k.sched.current ∨ i ∈ k.sched.readyQueue.toList ∨ k.sched.zombie = some i := by
  have hall : ∀ i, ¬ Lost k.sched i := by
    refine h.invariant (I := fun k => ∀ i, ¬ Lost k.sched i) ?_ ?_
    · rintro i ⟨ho, hrot, -⟩
      refine hrot ?_
      have h0 : i = 0 := by
        by_contra hne
        simp [boot, init, Occupied, hne] at ho
      subst h0
      exact (init pt).current_mem_rotation
    · intro k a k' hk hc hs
      refine step_preserves (P := fun s => s.zombie = none)
        (I := fun s => ∀ i, ¬ Lost s i) (fun _ _ hsec hl => hsec.none_lost hl)
        (fun _ hz => hz) (fun r hr => ?_) hs hk
      subst hr
      exact hc
  by_contra hc
  push Not at hc
  refine hall i ⟨hi, ?_, hc.2.2⟩
  rw [SchedulerState.rotation, List.mem_cons, not_or]
  exact ⟨hc.1, hc.2.1⟩

/-- A thread spawned, run and left to exit. -/
def reapedRun : List Action :=
  [.spawn 0x10000 (.function 1), .yieldCall, .yieldRest 100, .trampoline, .exitCall,
   .exitRest 200]

/-- After its exit the thread is the zombie, and the next tick frees its slot. -/
theorem no_exited_thread_lost_reapedRun :
    ∃ k k', Runs.Reach step ExitsAfterReap (boot 1 0 0) k ∧ k.step (.tick 300) = .ok k' ∧
      k.sched.zombie = some 1 ∧ (k.sched.threads 1).isSome = true ∧
      (k'.sched.threads 1).isNone = true ∧
      (∀ i, k.sched.Occupied i →
        i = k.sched.current ∨ i ∈ k.sched.readyQueue.toList ∨ k.sched.zombie = some i) ∧
      ∀ i, k'.sched.Occupied i →
        i = k'.sched.current ∨ i ∈ k'.sched.readyQueue.toList ∨ k'.sched.zombie = some i := by
  obtain ⟨k, k', hk, hs, htest⟩ := Runs.exists_step_of_any step ExitsAfterReap (boot 1 0 0)
    reapedRun (.tick 300) (fun k k' => decide (k.sched.zombie = some 1 ∧
      (k.sched.threads 1).isSome = true ∧ (k'.sched.threads 1).isNone = true)) (by decide)
  obtain ⟨hzombie, htaken, hfree⟩ := of_decide_eq_true htest
  exact ⟨k, k', hk, hs, hzombie, htaken, hfree, no_exited_thread_lost hk,
    no_exited_thread_lost (hk.tail (a := .tick 300) trivial hs)⟩

/-! ## The way to lose one -/

/-- An exit that finds a zombie pending overwrites it: that thread's slot is lost. -/
theorem pending_zombie_lost {s s' : SchedulerState} {sw : Switch} {z : ThreadId}
    (hs : s.Safe) (hz : s.zombie = some z) (h : s.exitRest = .ok (sw, s')) : Lost s' z := by
  obtain ⟨t, rest, -, h1, h2, -, hthr, hzom, -⟩ := exitRest_spec h
  have hout := hs.zombie_out z hz
  rw [h1, List.mem_cons, not_or] at hout
  refine ⟨?_, h2 ▸ hout.2, ?_⟩
  · rw [Occupied, hthr]
    exact hs.zombie_occupied z hz
  · rw [hzom]
    intro hc
    exact hout.1 (Option.some.inj hc).symm

/-- No critical section brings a lost thread back or frees its slot. -/
theorem CritSection.lost {P : SchedulerState → Prop} {s s' : SchedulerState} {i : ThreadId}
    (h : CritSection P s s') (hs : Lost s i) : Lost s' i := by
  obtain ⟨ho, hrot, hzom⟩ := hs
  cases h with
  | install hi =>
    obtain ⟨hfree, hthr, hrot', hzom', -⟩ := install_spec hi
    have hne : i ≠ _ := fun hc : i = _ => by
      rw [Occupied, hc, hfree] at ho
      cases ho
    refine ⟨?_, ?_, hzom' ▸ hzom⟩
    · rw [Occupied, hthr, Function.update_of_ne hne]
      exact ho
    · rw [hrot', List.mem_append, List.mem_singleton, not_or]
      exact ⟨hrot, hne⟩
  | touch j f _ =>
    refine ⟨?_, hrot, hzom⟩
    rw [Occupied, isSome_mapThread]
    exact ho
  | take =>
    obtain ⟨hnone, hrot', -, -, -, -, hthr⟩ := s.reapTake_spec
    refine ⟨?_, hrot' ▸ hrot, ?_⟩
    · rw [Occupied, hthr, if_neg hzom]
      exact ho
    · rw [hnone]
      exact Option.some_ne_none i ∘ Eq.symm
  | schedule hr =>
    rcases scheduleRest_spec hr with ⟨-, rfl, -⟩ | ⟨sw, t, rest, -, h1, h2, -, hthr, hzom', -⟩
    · exact ⟨ho, hrot, hzom⟩
    · refine ⟨?_, ?_, hzom' ▸ hzom⟩
      · rw [Occupied, hthr]
        exact ho
      · rw [h1, List.mem_cons, not_or] at hrot
        rw [h2, ← List.cons_append, List.mem_append, List.mem_singleton, not_or]
        exact ⟨hrot.2, hrot.1⟩
  | exit _ hr =>
    obtain ⟨t, rest, -, h1, h2, -, hthr, hzom', -⟩ := exitRest_spec hr
    rw [h1, List.mem_cons, not_or] at hrot
    refine ⟨?_, h2 ▸ hrot.2, ?_⟩
    · rw [Occupied, hthr]
      exact ho
    · rw [hzom']
      intro hc
      exact hrot.1 (Option.some.inj hc).symm

/-- **A lost thread stays lost**: whatever happens afterwards, its slot is never freed. -/
theorem lost_forever {k k' : Kernel} {i : ThreadId} (h : Runs.Reachable step k k')
    (hi : Lost k.sched i) : Lost k'.sched i := by
  refine h.invariant (I := fun k => Lost k.sched i) hi ?_
  intro k a k' hk _ hs
  exact step_preserves (P := fun _ => True) (fun _ _ hsec hl => hsec.lost hl)
    (fun _ _ => trivial) (fun _ _ => trivial) hs hk

/-- Thread 2 is preempted in `exit_current_thread` right after its `reap_zombie()`; thread 1
then exits and hands the CPU to thread 2, which goes on to record itself. -/
def lostRun : List Action :=
  [.spawn 0x10000 (.function 1), .spawn 0x20000 (.function 2),
   .yieldCall, .yieldRest 100, .trampoline, .tick 200, .trampoline,
   .exitCall, .tick 300, .tick 400, .exitCall, .exitRest 500, .exitRest 600]

/-- **The comment on `zombie` is wrong**: after `lostRun` slot 1 is occupied, its thread is
not current, not queued and not the recorded zombie. -/
theorem lostRun_loses_thread_one :
    ∃ k, Runs.Reachable step (boot 1 0 0) k ∧ k.sched.Occupied 1 ∧ k.sched.current ≠ 1 ∧
      1 ∉ k.sched.readyQueue.toList ∧ k.sched.zombie ≠ some 1 := by
  obtain ⟨k, hk, ht⟩ := Runs.exists_reach_of_any step (fun _ _ => True) (boot 1 0 0) lostRun
    (fun k => (k.sched.threads 1).isSome && k.sched.current != 1 &&
      !k.sched.readyQueue.toList.contains 1 && k.sched.zombie != some 1) (by decide)
  simp only [Bool.and_eq_true, bne_iff_ne, Bool.not_eq_true', List.contains_eq_mem,
    decide_eq_false_iff_not] at ht
  exact ⟨k, hk, ht.1.1.1, ht.1.1.2, ht.1.2, ht.2⟩

end Kernel
