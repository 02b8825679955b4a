/-
# Reclamation under the kernel's address space

`reap_zombie` frees the dead thread's stack, its address space and its open files.
All three use the kernel heap, which an isolated address space does not map, so the
function writes the kernel's table into `CR3` first.  It writes it once.  A caller with
interrupts enabled can be preempted after the write, and when it is resumed
`switch_to` loads its own table again.

For a caller without a table of its own that makes no difference.  For an isolated
one it does: `reclaims_under_own_table` is a run in which the stack is deallocated
under the reaper's table.  `reclaims_under_kernel_table` says that this is the only
way: as long as no tick arrives while an isolated thread is between the write and the
end of `reap_zombie`, all of the reclamation happens under the kernel's table.
-/
import Velora.Context

/-- In the unlocked half of `reap_zombie`, with the write to `CR3` already done. -/
def Point.reclaiming : Point → Bool
  | .reaping _ _ stage => stage != .setCr3
  | _ => false

namespace Kernel

open SchedulerState

/-! ## What a step reclaims -/

/-- The given stages of `reap_zombie` without interruption, each with the value of `CR3` it is
done under. -/
def reapTrace (k : Kernel) (dead : Thread) : List ReapStage → List (ReapStage × Frame)
  | [] => []
  | stage :: rest => (stage, k.cpu.cr3) :: (k.reapEffect dead stage).reapTrace dead rest

/-- All of `reap_zombie`, called with interrupts off. -/
def reapZombieTrace (k : Kernel) : List (ReapStage × Frame) :=
  match k.sched.reapTake with
  | (some dead, s) =>
    { k with sched := s }.reapTrace dead [.setCr3, .deallocStack, .freeSpace, .dropFiles]
  | (none, _) => []

/-- The stages of `reap_zombie` an action does: one of them when the caller has interrupts
enabled, all four when it has not. -/
def reclaims (k : Kernel) : Action → List (ReapStage × Frame)
  | .reapStep =>
    match k.point k.running with
    | .reaping _ dead stage => k.reapTrace dead [stage]
    | _ => []
  | .tick _ => k.reapZombieTrace
  | .sysYield _ => k.reapZombieTrace
  | .sysExit _ => k.reapZombieTrace
  | _ => []

/-- The stages after the write to `CR3` keep what is in it. -/
theorem reapEffect_cr3 (k : Kernel) (dead : Thread) {stage : ReapStage}
    (h : stage ≠ .setCr3) : (k.reapEffect dead stage).cpu = k.cpu := by
  cases stage with
  | setCr3 => exact absurd rfl h
  | freeSpace =>
    unfold reapEffect
    cases dead.pageTable <;> rfl
  | _ => rfl

theorem reapTrace_cr3 {k : Kernel} {dead : Thread} {stages : List ReapStage}
    (h : ReapStage.setCr3 ∉ stages) : ∀ x ∈ k.reapTrace dead stages, x.2 = k.cpu.cr3 := by
  induction stages generalizing k with
  | nil =>
    intro x hx
    cases hx
  | cons stage rest ih =>
    rw [List.mem_cons, not_or] at h
    intro x hx
    rw [reapTrace, List.mem_cons] at hx
    rcases hx with rfl | hx
    · rfl
    · rw [ih h.2 x hx, reapEffect_cr3 k dead (Ne.symm h.1)]

/-- Without interruption everything after the first stage is done under the kernel's table. -/
theorem reapZombieTrace_cr3 {k : Kernel} {x : ReapStage × Frame} (hx : x ∈ k.reapZombieTrace)
    (h : x.1 ≠ .setCr3) : x.2 = k.sched.kernelPageTable := by
  have hkpt := k.sched.reapTake_spec.2.2.2.1
  unfold reapZombieTrace at hx
  rcases htake : k.sched.reapTake with ⟨o, s⟩
  rw [htake] at hx hkpt
  cases o with
  | none => cases hx
  | some dead =>
    simp only at hx
    rw [reapTrace, List.mem_cons] at hx
    rcases hx with rfl | hx
    · exact absurd rfl h
    · exact (reapTrace_cr3 (by decide) x hx).trans hkpt

/-! ## The invariant -/

/-- Slot `i` holds a thread with a page table of its own. -/
def Isolated (s : SchedulerState) (i : ThreadId) : Prop :=
  ((s.threads i).bind Thread.pageTable).isSome = true

instance (s : SchedulerState) (i : ThreadId) : Decidable (Isolated s i) := by
  unfold Isolated
  infer_instance

/-- No tick while an isolated thread is reclaiming. -/
def ReclaimsUndisturbed (k : Kernel) : Action → Prop
  | .tick _ => (k.point k.running).reclaiming = true → ¬ Isolated k.sched k.running
  | _ => True

instance (k : Kernel) (a : Action) : Decidable (ReclaimsUndisturbed k a) := by
  unfold ReclaimsUndisturbed
  split <;> infer_instance

/-- A thread that is reclaiming has the kernel's table in `CR3` while it runs, and gets it back
when it is resumed. -/
structure ReclaimsSafely (k : Kernel) : Prop where
  running : (k.point k.running).reclaiming = true → k.cpu.cr3 = k.sched.kernelPageTable
  waiting : ∀ i, i ≠ k.running → (k.point i).reclaiming = true → ¬ Isolated k.sched i

theorem not_isolated {s : SchedulerState} {i : ThreadId} (h : ¬ Isolated s i) {t : Thread}
    (ht : s.threads i = some t) : t.pageTable = none := by
  simpa [Isolated, ht] using h

theorem boot_reclaimsSafely (pt : Frame) (rsp rsp0 : ℕ) :
    (Kernel.boot pt rsp rsp0).ReclaimsSafely where
  running := fun _ => rfl
  waiting := by
    intro i hi h
    have h0 : i ≠ 0 := hi
    simp [Kernel.boot, h0, Point.reclaiming] at h

/-- A step that leaves `CR3` alone, isolates no thread and brings none but the running one to
another point keeps the invariant, if the running one does not start to reclaim by it. -/
theorem ReclaimsSafely.congr {k k' : Kernel} (h : k.ReclaimsSafely)
    (hrun : k'.running = k.running)
    (hcr3 : (k'.point k.running).reclaiming = true →
      k'.cpu.cr3 = k'.sched.kernelPageTable)
    (hpoint : ∀ i, i ≠ k.running → (k'.point i).reclaiming = true →
      (k.point i).reclaiming = true)
    (hthr : ∀ i, i ≠ k.running → (k'.point i).reclaiming = true → Isolated k'.sched i →
      Isolated k.sched i) : k'.ReclaimsSafely where
  running := by
    rw [hrun]
    exact hcr3
  waiting := by
    intro i hi hp hiso
    rw [hrun] at hi
    exact h.waiting i hi (hpoint i hi hp) (hthr i hi hp hiso)

theorem goto_point_of_ne (k : Kernel) (p : Point) {i : ThreadId} (hi : i ≠ k.running) :
    (k.goto p).point i = k.point i :=
  Function.update_of_ne hi _ _

theorem goto_point_running (k : Kernel) (p : Point) : (k.goto p).point k.running = p :=
  Function.update_self _ _ _

theorem isolated_reapTake {s : SchedulerState} {i : ThreadId} (h : Isolated s.reapTake.2 i) :
    Isolated s i := by
  unfold Isolated at h ⊢
  rw [s.reapTake_spec.2.2.2.2.2.2 i] at h
  split_ifs at h with hz
  · cases h
  · exact h

theorem isolated_mapThread {s : SchedulerState} {i j : ThreadId} {f : Thread → Thread}
    (hf : ∀ t : Thread, (f t).pageTable = t.pageTable) (h : Isolated (s.mapThread j f) i) :
    Isolated s i := by
  unfold Isolated at h ⊢
  rw [threads_mapThread_apply] at h
  split_ifs at h
  · cases ht : s.threads i with
    | none => rw [ht] at h; cases h
    | some t =>
      rw [ht] at h
      simpa [hf] using h
  · exact h

/-- Isolation does not depend on the stack pointer. -/
theorem isolated_of_frozen {s s' : SchedulerState} {i : ThreadId}
    (h : (s'.threads i).map Thread.frozen = (s.threads i).map Thread.frozen)
    (hiso : Isolated s' i) : Isolated s i := by
  have hbind : ∀ o : Option Thread,
      (o.map Thread.frozen).bind Thread.pageTable = o.bind Thread.pageTable := by
    intro o
    cases o <;> rfl
  unfold Isolated at hiso ⊢
  rwa [← hbind, h, hbind] at hiso

/-- A spawn fills a slot with a thread that is not reclaiming. -/
theorem ReclaimsSafely.adopt {k : Kernel} {s : SchedulerState} {t : Thread} {id : ThreadId}
    (h : k.ReclaimsSafely) (hrun : k.running ≠ id)
    (hi : k.sched.install t = .ok (id, s)) (base : ℕ) : (k.adopt s base).ReclaimsSafely := by
  obtain ⟨-, hthr, -, -, -, hkpt, -⟩ := install_spec hi
  obtain ⟨hpoint, -⟩ := adopt_spec hi base
  have hne : ∀ i, ((k.adopt s base).point i).reclaiming = true → i ≠ id := by
    rintro i hp rfl
    rw [hpoint, Function.update_self] at hp
    cases hp
  have hold : ∀ i, i ≠ id → (k.adopt s base).point i = k.point i := by
    intro i hid
    rw [hpoint, Function.update_of_ne hid]
  refine h.congr rfl ?_ ?_ ?_
  · intro hp
    rw [hold _ hrun] at hp
    exact (h.running hp).trans hkpt.symm
  · intro i _ hp
    rwa [hold i (hne i hp)] at hp
  · intro i _ hp hiso
    have hiso' : Isolated s i := hiso
    rwa [Isolated, hthr, Function.update_of_ne (hne i hp)] at hiso'

/-- **Every move that is no decision keeps the invariant.** -/
theorem Move.reclaimsSafely {P : SchedulerState → Prop} {k k' : Kernel} (hm : Move P k k')
    (hs : k.sched.Safe) (hc : k.InContext) (h : k.ReclaimsSafely)
    (hmove : k'.sched.current = k.sched.current) : k'.ReclaimsSafely := by
  have hfree : ∀ {t id s}, k.sched.install t = .ok (id, s) → k.running ≠ id := by
    intro t id s hi heq
    have hocc := hs.occupied _ k.sched.current_mem_rotation
    rw [← hc.running, heq, Occupied, (install_spec hi).1] at hocc
    cases hocc
  cases hm with
  | spawn _ _ _ hi => exact h.adopt (hfree hi) hi _
  | spawnIsolated _ _ _ _ hi =>
    rename_i base _ _ _ _ _ _ _ _ _
    have hadopt := h.adopt (hfree hi) hi base
    exact ⟨hadopt.running, hadopt.waiting⟩
  | start f p _ hp hf =>
    refine h.congr rfl ?_ ?_ ?_
    · intro hr
      rw [goto_point_running] at hr
      cases p <;> first | cases hr | cases hp
    · intro i hi hr
      exact (congrArg Point.reclaiming (goto_point_of_ne _ p hi)).symm.trans hr
    · intro i _ _ hiso
      exact isolated_mapThread (fun t => (hf t).1.2.2.1) hiso
  | goto p _ hp =>
    refine h.congr rfl ?_ ?_ (fun _ _ _ => id)
    · intro hr
      rw [goto_point_running] at hr
      cases p <;> first | cases hr | cases hp
    · intro i hi hr
      exact (congrArg Point.reclaiming (goto_point_of_ne _ p hi)).symm.trans hr
  | reapCall c =>
    obtain ⟨p, hp, hreaper, -⟩ := k.reapCall_spec c
    rw [hp]
    refine h.congr rfl ?_ ?_ ?_
    · intro hr
      rw [goto_point_running] at hr
      cases p with
      | reaping c dead stage =>
        -- a thread was taken, and the write to `CR3` is still to come
        cases hz : k.sched.reapTake.1 with
        | none => rw [hz] at hreaper; cases hreaper
        | some t => rw [hz] at hreaper; cases hreaper; cases hr
      | _ => cases hr
    · intro i hi hr
      exact (congrArg Point.reclaiming (goto_point_of_ne _ p hi)).symm.trans hr
    · intro i _ _ hiso
      exact isolated_reapTake hiso
  | reapStep hp =>
    rename_i c dead stage
    obtain ⟨hpoint, hrun', -⟩ := k.reapEffect_spec dead stage
    refine h.congr hrun' ?_ ?_ ?_
    · intro hr
      rw [goto_sched, reapEffect_sched]
      by_cases hst : stage = .setCr3
      · rw [hst]
        rfl
      · show (k.reapEffect dead stage).cpu.cr3 = _
        rw [reapEffect_cr3 k dead hst]
        apply h.running
        rw [hp]
        simpa [Point.reclaiming] using hst
    · intro i hi hr
      rwa [goto_point_of_ne _ _ (by rwa [hrun']), hpoint] at hr
    · intro i _ _ hiso
      rwa [goto_sched, reapEffect_sched] at hiso
  | reapZombie =>
    obtain ⟨hpoint, hrun', -, -, -, -, hcr3, -⟩ := k.reapZombie_spec
    have hkpt : k.reapZombie.sched.kernelPageTable = k.sched.kernelPageTable := by
      rw [reapZombie_sched]
      exact k.sched.reapTake_spec.2.2.2.1
    refine h.congr hrun' ?_ ?_ ?_
    · intro hr
      rw [hpoint] at hr
      rw [hkpt]
      rcases hcr3 with hcr3 | hcr3
      · exact hcr3.trans (h.running hr)
      · exact hcr3
    · intro i _ hr
      rwa [hpoint] at hr
    · intro i _ _ hiso
      rw [reapZombie_sched] at hiso
      exact isolated_reapTake hiso
  | stay hsched =>
    obtain rfl := scheduleRest_none hsched
    exact h
  | switch rsp hsched =>
    rcases scheduleRest_spec hsched with ⟨ho, -⟩ | ⟨sw', t, rest, ho, hrot, -, hcur, -⟩
    · cases ho
    · cases ho
      exact absurd (hcur.symm.trans hmove) (next_ne_current hs hrot)
  | exit rsp _ hexit =>
    obtain ⟨t, rest, -, hrot, -, hcur, -⟩ := exitRest_spec hexit
    exact absurd (hcur.symm.trans hmove) (next_ne_current hs hrot)

/-- **A scheduling decision keeps the invariant**, whoever it is that runs next: it runs under
its own table, and of the reclaiming threads none has one. -/
theorem ReclaimsSafely.decision {k k' : Kernel} (h : k.ReclaimsSafely)
    (hcond : (k.point k.running).reclaiming = true → ¬ Isolated k.sched k.running)
    (hown : k'.OwnContext)
    (hpoint : ∀ i, (k'.point i).reclaiming = true → (k.point i).reclaiming = true)
    (hrec : ∀ i, (k'.sched.threads i).map Thread.frozen = (k.sched.threads i).map Thread.frozen) :
    k'.ReclaimsSafely := by
  have hall : ∀ i, (k'.point i).reclaiming = true → ¬ Isolated k'.sched i := by
    intro i hp hiso
    have hiso := isolated_of_frozen (hrec i) hiso
    by_cases hi : i = k.running
    · subst hi
      exact hcond (hpoint _ hp) hiso
    · exact h.waiting i hi (hpoint i hp) hiso
  refine ⟨fun hp => ?_, fun i _ => hall i⟩
  obtain ⟨t, ht⟩ := Option.isSome_iff_exists.mp hown.occupied
  rw [hown.cr3 t ht, not_isolated (hall _ hp) ht]
  rfl

/-- `schedule` from `interrupts::disable()` on. -/
theorem ReclaimsSafely.scheduleRest {k k' : Kernel} {rsp : ℕ} (h : k.ReclaimsSafely)
    (hs : k.sched.Safe) (hc : k.InContext)
    (hcond : (k.point k.running).reclaiming = true → ¬ Isolated k.sched k.running)
    (hd : k.scheduleRest rsp = .ok k') : k'.ReclaimsSafely := by
  obtain ⟨hpoint, -, -, hrec⟩ := records_of_scheduleRest hd
  refine h.decision hcond (hc.decision_of_schedule hs rsp hd).2 ?_ hrec
  intro i
  rw [hpoint]
  exact id

/-- `exit_current_thread` from `interrupts::disable()` on. -/
theorem ReclaimsSafely.exitRest {k k' : Kernel} {rsp : ℕ} (h : k.ReclaimsSafely)
    (hs : k.sched.Safe) (hc : k.InContext)
    (hcond : (k.point k.running).reclaiming = true → ¬ Isolated k.sched k.running)
    (hd : k.exitRest rsp = .ok k') : k'.ReclaimsSafely := by
  obtain ⟨hpoint, -, -, hrec⟩ := records_of_exitRest hd
  refine h.decision hcond (hc.decision_of_exit hs rsp hd).2 ?_ hrec
  intro i hr
  rw [hpoint] at hr
  by_cases hi : i = k.running
  · rw [hi, Function.update_self] at hr
    cases hr
  · rwa [Function.update_of_ne hi] at hr

/-- **One step.** -/
theorem step_reclaimsSafely {k k' : Kernel} {a : Action} (hs : k.sched.Safe) (hc : k.InContext)
    (h : k.ReclaimsSafely) (hcond : ReclaimsUndisturbed k a) (hstep : k.step a = .ok k') :
    k'.ReclaimsSafely := by
  cases ha : a.decides with
  | false =>
    obtain ⟨hm, hrot⟩ := move_of_step (P := fun _ => True) ha hstep
    exact hm.reclaimsSafely hs hc h (current_of_rotation_grows hrot)
  | true =>
    -- the reap in front of a decision with interrupts off
    have hmove := Move.reapZombie (P := fun _ => True) (k := k)
    have hs₁ : k.reapZombie.sched.Safe := hmove.preserves (fun _ _ hsec => hsec.safe) hs
    have h₁ : k.reapZombie.ReclaimsSafely := by
      refine hmove.reclaimsSafely hs hc h ?_
      rw [reapZombie_sched]
      exact k.sched.reapTake_spec.2.2.1
    have hcond₁ : ((k.point k.running).reclaiming = true → ¬ Isolated k.sched k.running) →
        (k.reapZombie.point k.reapZombie.running).reclaiming = true →
        ¬ Isolated k.reapZombie.sched k.reapZombie.running := by
      obtain ⟨hpoint, hrun, -⟩ := k.reapZombie_spec
      rw [hpoint, hrun, reapZombie_sched]
      exact fun hk hr hiso => hk hr (isolated_reapTake hiso)
    obtain ⟨rsp, ⟨hpt, hd⟩ | ⟨hpt, -, hd⟩ | ⟨hor, hd⟩ | ⟨hpt, hd⟩⟩ := decision_of_step ha hstep
    · have hpt' : (k.point k.running).exitBound = false := by rw [hpt]; rfl
      have hm : Move (fun _ => True) k (k.goto .body) := .goto .body hpt' rfl
      refine (hm.reclaimsSafely hs hc h rfl).scheduleRest hs (hm.inContext hs hc) ?_ hd
      intro hr
      have hr' : ((k.goto .body).point k.running).reclaiming = true := hr
      rw [goto_point_running] at hr'
      cases hr'
    · refine h.exitRest hs hc ?_ hd
      rw [hpt]
      exact fun hr => absurd hr (by decide)
    · refine h₁.scheduleRest hs₁ (hmove.inContext hs hc) (hcond₁ ?_) hd
      rcases hor with hpt | rfl
      · rw [hpt]
        exact fun hr => absurd hr (by decide)
      · exact hcond
    · refine h₁.exitRest hs₁ (hmove.inContext hs hc) (hcond₁ ?_) hd
      rw [hpt]
      exact fun hr => absurd hr (by decide)

/-! ## Reclamation -/

/-- **Reclamation happens under the kernel's table** in every run in which no tick arrives
while an isolated thread is between the write to `CR3` and the end of `reap_zombie`. -/
theorem reclaims_under_kernel_table {pt : Frame} {rsp rsp0 : ℕ} {k : Kernel}
    (h : Runs.Reach step ReclaimsUndisturbed (Kernel.boot pt rsp rsp0) k) (a : Action)
    (stage : ReapStage) (cr3 : Frame) (hmem : (stage, cr3) ∈ k.reclaims a)
    (hstage : stage ≠ .setCr3) : cr3 = k.sched.kernelPageTable := by
  obtain ⟨-, -, hsafe⟩ : k.sched.Safe ∧ k.InContext ∧ k.ReclaimsSafely := by
    refine h.invariant (I := fun k => k.sched.Safe ∧ k.InContext ∧ k.ReclaimsSafely)
      ⟨init_safe pt, boot_inContext pt rsp rsp0, boot_reclaimsSafely pt rsp rsp0⟩ ?_
    rintro k a k' ⟨hs, hc, hr⟩ hcond hstep
    obtain ⟨hs', hc'⟩ := step_inContext hs hc hstep
    exact ⟨hs', hc', step_reclaimsSafely hs hc hr hcond hstep⟩
  cases a with
  | reapStep =>
    unfold reclaims at hmem
    cases hpt : k.point k.running with
    | reaping c dead st =>
      simp only [hpt, reapTrace, List.mem_singleton, Prod.mk.injEq] at hmem
      obtain ⟨rfl, rfl⟩ := hmem
      apply hsafe.running
      rw [hpt]
      simpa [Point.reclaiming] using hstage
    | _ => simp [hpt] at hmem
  | tick r => exact reapZombieTrace_cr3 hmem hstage
  | sysYield r => exact reapZombieTrace_cr3 hmem hstage
  | sysExit r => exact reapZombieTrace_cr3 hmem hstage
  | _ => cases hmem

/-- A kernel thread exits to an isolated one, which calls `exit_current_thread` itself and has
interrupts enabled while it reaps. -/
def isolatedReaperRun : List Action :=
  [.spawn 0x10000 (.function 1), .spawnIsolated 0x20000 (.function 2) 7, .yieldCall,
   .yieldRest 100, .trampoline, .exitCall, .exitRest 200, .trampoline, .exitCall, .reapStep]

theorem reclaims_under_kernel_table_isolatedReaper :
    ∃ k, Runs.Reach step ReclaimsUndisturbed (Kernel.boot 1 0 0) k ∧
      Isolated k.sched k.running ∧ (.deallocStack, 1) ∈ k.reclaims .reapStep ∧
      1 = k.sched.kernelPageTable := by
  obtain ⟨k, hk, htest⟩ := Runs.exists_reach_of_any step ReclaimsUndisturbed (Kernel.boot 1 0 0)
    isolatedReaperRun
    (fun k => decide (Isolated k.sched k.running ∧ (.deallocStack, 1) ∈ k.reclaims .reapStep))
    (by decide)
  obtain ⟨hiso, hmem⟩ := of_decide_eq_true htest
  exact ⟨k, hk, hiso, hmem,
    reclaims_under_kernel_table hk .reapStep .deallocStack 1 hmem (by decide)⟩

/-- **A tick in the window breaks it.**  The isolated reaper is preempted after its write to
`CR3` and resumed under its own table, and so deallocates the stack under that one. -/
theorem reclaims_under_own_table :
    ∃ k, Runs.Reachable step (Kernel.boot 1 0 0) k ∧ (k.step .reapStep).isOk = true ∧
      (.deallocStack, 7) ∈ k.reclaims .reapStep ∧ k.sched.kernelPageTable = 1 := by
  obtain ⟨k, hk, htest⟩ := Runs.exists_reach_of_any step (fun _ _ => True) (Kernel.boot 1 0 0)
    (isolatedReaperRun ++ [.tick 300, .tick 400])
    (fun k => decide ((k.step .reapStep).isOk = true ∧ (.deallocStack, 7) ∈ k.reclaims .reapStep ∧
      k.sched.kernelPageTable = 1)) (by decide)
  exact ⟨k, hk, of_decide_eq_true htest⟩

end Kernel
