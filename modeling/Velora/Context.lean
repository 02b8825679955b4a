/-
# Every thread runs in its own context

Three registers decide in whose context the CPU executes: `CR3`, the stack pointer
and the privilege stack `RSP0` of the TSS.  They are written in three places:
`reap_zombie` forces `CR3` to the kernel's table and never puts it back, `switch_to`
loads `CR3` and the stack pointer, `set_rsp0` the third.

`InContext` is what holds between any two moves: the registers are those of the
running thread, except that `CR3` may be the kernel's.  `decision_restores_context`
says that after a scheduling decision the exception is gone too.  The delicate
decision is a `schedule` that finds the queue empty and returns without reloading
`CR3`: it can only be the boot thread's, whose table is the kernel's own.
-/
import Velora.Preemption

namespace Kernel

open SchedulerState

/-! ## What the moves do to each component -/

/-- A spawn makes the new slot's thread start from its initial frame. -/
theorem adopt_spec {k : Kernel} {s : SchedulerState} {t : Thread} {id : ThreadId}
    (hi : k.sched.install t = .ok (id, s)) (base : ℕ) :
    (k.adopt s base).point = Function.update k.point id .fresh ∧
      (k.adopt s base).saved = Function.update k.saved id (buildInitialStack base) := by
  obtain ⟨hfree, hthr, -⟩ := install_spec hi
  have hnew : ∀ i, ((k.sched.threads i).isNone && (s.threads i).isSome) = decide (i = id) := by
    intro i
    by_cases h : i = id
    · subst h
      simp [hfree, hthr]
    · rw [hthr, Function.update_of_ne h]
      cases k.sched.threads i <;> simp [h]
  constructor <;> funext i <;> simp only [adopt, hnew, decide_eq_true_eq, Function.update_apply]

/-- `reap_zombie` called with interrupts enabled moves the caller to the unlocked half if a
thread was taken, and past it otherwise. -/
theorem reapCall_spec (k : Kernel) (c : Caller) :
    ∃ p, k.reapCall c = { k with sched := k.sched.reapTake.2 }.goto p ∧
      p.reaper = k.sched.reapTake.1.map (fun dead => (dead, ReapStage.setCr3)) ∧
      (p.exitBound = true ↔ c = .exit) := by
  unfold reapCall
  rcases k.sched.reapTake with ⟨o, s⟩
  cases o with
  | none => cases c <;> exact ⟨_, rfl, rfl, by simp [Point.exitBound]⟩
  | some dead => cases c <;> exact ⟨_, rfl, rfl, by simp [Point.exitBound]⟩

/-- `reap_zombie` called with interrupts off. -/
theorem reapZombie_spec (k : Kernel) :
    k.reapZombie.point = k.point ∧ k.reapZombie.running = k.running ∧
      k.reapZombie.saved = k.saved ∧ k.reapZombie.issued = k.issued ∧
      k.reapZombie.cpu.rsp = k.cpu.rsp ∧ k.reapZombie.cpu.rsp0 = k.cpu.rsp0 ∧
      (k.reapZombie.cpu.cr3 = k.cpu.cr3 ∨ k.reapZombie.cpu.cr3 = k.sched.kernelPageTable) ∧
      k.reapZombie.liveStacks =
        k.sched.reapTake.1.elim k.liveStacks (fun dead => k.liveStacks.erase dead.stackBase) ∧
      k.reapZombie.liveTables =
        (k.sched.reapTake.1.bind Thread.pageTable).elim k.liveTables k.liveTables.erase := by
  have hkpt := k.sched.reapTake_spec.2.2.2.1
  unfold reapZombie
  rcases h : k.sched.reapTake with ⟨o, s⟩
  rw [h] at hkpt
  cases o with
  | none => simp
  | some dead => cases hd : dead.pageTable <;> simp [reapEffect, hd, ← hkpt]

/-- One stage of `reap_zombie` changes neither the points nor the bookkeeping, and of the
registers only `CR3`. -/
theorem reapEffect_spec (k : Kernel) (dead : Thread) (stage : ReapStage) :
    (k.reapEffect dead stage).point = k.point ∧ (k.reapEffect dead stage).running = k.running ∧
      (k.reapEffect dead stage).saved = k.saved ∧
      (k.reapEffect dead stage).cpu.rsp = k.cpu.rsp ∧
      (k.reapEffect dead stage).cpu.rsp0 = k.cpu.rsp0 ∧
      ((k.reapEffect dead stage).cpu.cr3 = k.cpu.cr3 ∨
        (k.reapEffect dead stage).cpu.cr3 = k.sched.kernelPageTable) := by
  cases stage with
  | freeSpace => cases hd : dead.pageTable <;> simp [reapEffect, hd]
  | _ => simp [reapEffect]

/-- `schedule` moves no thread's point and keeps all records but for a stack pointer. -/
theorem records_of_scheduleRest {k k' : Kernel} {rsp : ℕ} (h : k.scheduleRest rsp = .ok k') :
    k'.point = k.point ∧ k'.sched.kernelPageTable = k.sched.kernelPageTable ∧
      k'.sched.slotGenerations = k.sched.slotGenerations ∧
      ∀ i, (k'.sched.threads i).map Thread.frozen = (k.sched.threads i).map Thread.frozen := by
  unfold scheduleRest at h
  obtain ⟨⟨o, s⟩, hs, h⟩ := bind_eq_ok h
  rcases scheduleRest_spec hs with
    ⟨rfl, rfl, -⟩ | ⟨sw, t, rest, rfl, -, -, -, hthr, -, hkpt, hgen, -⟩
  · cases h
    exact ⟨rfl, rfl, rfl, fun _ => rfl⟩
  · cases h
    refine ⟨rfl, hkpt, hgen, fun i => ?_⟩
    rw [← hthr]
    exact s.frozen_saveStackPointer sw.previous rsp i

/-- `exit_current_thread` moves the caller out of the way and keeps all records but for a
stack pointer. -/
theorem records_of_exitRest {k k' : Kernel} {rsp : ℕ} (h : k.exitRest rsp = .ok k') :
    k'.point = Function.update k.point k.running .gone ∧
      k'.sched.kernelPageTable = k.sched.kernelPageTable ∧
      k'.sched.slotGenerations = k.sched.slotGenerations ∧
      ∀ i, (k'.sched.threads i).map Thread.frozen = (k.sched.threads i).map Thread.frozen := by
  unfold exitRest at h
  obtain ⟨⟨sw, s⟩, hs, h⟩ := bind_eq_ok h
  cases h
  obtain ⟨t, rest, -, -, -, -, hthr, -, hkpt, hgen, -⟩ := exitRest_spec hs
  refine ⟨rfl, hkpt, hgen, fun i => ?_⟩
  rw [← hthr]
  exact s.frozen_saveStackPointer sw.previous rsp i

/-! ## The invariant -/

/-- The registers and the bookkeeping agree with the thread table. -/
structure InContext (k : Kernel) : Prop where
  running : k.running = k.sched.current
  boot : ∀ t, k.sched.threads 0 = some t → t.pageTable = none
  cr3 : ∀ t, k.sched.threads k.sched.current = some t →
    k.cpu.cr3 = t.pageTable.getD k.sched.kernelPageTable ∨ k.cpu.cr3 = k.sched.kernelPageTable
  rsp : k.cpu.rsp = k.saved k.running
  rsp0 : k.sched.current ≠ 0 →
    ∀ t, k.sched.threads k.sched.current = some t → k.cpu.rsp0 = t.kernelStackTop
  saved : ∀ i t, k.sched.threads i = some t → i ≠ k.sched.current → t.stackPointer = k.saved i

/-- Execution continues in a thread under that thread's own context. -/
structure OwnContext (k : Kernel) : Prop where
  current : k.sched.current = k.running
  occupied : k.sched.Occupied k.running
  cr3 : ∀ t, k.sched.threads k.running = some t →
    k.cpu.cr3 = t.pageTable.getD k.sched.kernelPageTable
  rsp : k.cpu.rsp = k.saved k.running
  rsp0 : k.running ≠ 0 →
    ∀ t, k.sched.threads k.running = some t → k.cpu.rsp0 = t.kernelStackTop

theorem boot_inContext (pt : Frame) (rsp rsp0 : ℕ) : (Kernel.boot pt rsp rsp0).InContext where
  running := rfl
  boot := by
    intro t ht
    simp only [Kernel.boot, init, if_true, Option.some.injEq] at ht
    rw [← ht]
  cr3 := fun _ _ => Or.inr rfl
  rsp := rfl
  rsp0 := fun h => absurd rfl h
  saved := by
    intro i t ht hi
    have h0 : i ≠ 0 := hi
    simp [Kernel.boot, init, h0] at ht

/-- `InContext` survives a change of the thread table that keeps what it reads. -/
theorem InContext.congr {k k' : Kernel} (h : k.InContext) (hrun : k'.running = k.running)
    (hcur : k'.sched.current = k.sched.current)
    (hkpt : k'.sched.kernelPageTable = k.sched.kernelPageTable)
    (hrsp : k'.cpu.rsp = k.cpu.rsp) (hrsp0 : k'.cpu.rsp0 = k.cpu.rsp0)
    (hcr3 : k'.cpu.cr3 = k.cpu.cr3 ∨ k'.cpu.cr3 = k.sched.kernelPageTable)
    (hsaved : k'.saved = k.saved)
    (hthr : ∀ i t', k'.sched.threads i = some t' → ∃ t, k.sched.threads i = some t ∧
      t.SameResources t' ∧ t'.stackPointer = t.stackPointer) : k'.InContext where
  running := by rw [hrun, hcur]; exact h.running
  boot := by
    intro t' ht'
    obtain ⟨t, ht, ⟨-, -, hpt, -⟩, -⟩ := hthr 0 t' ht'
    rw [hpt]
    exact h.boot t ht
  cr3 := by
    intro t' ht'
    rw [hcur] at ht'
    obtain ⟨t, ht, ⟨-, -, hpt, -⟩, -⟩ := hthr _ t' ht'
    rw [hpt, hkpt]
    rcases hcr3 with hc | hc
    · rw [hc]
      exact h.cr3 t ht
    · exact Or.inr hc
  rsp := by rw [hrsp, hrun, hsaved]; exact h.rsp
  rsp0 := by
    intro h0 t' ht'
    rw [hcur] at h0 ht'
    obtain ⟨t, ht, ⟨-, -, -, htop⟩, -⟩ := hthr _ t' ht'
    rw [hrsp0, htop]
    exact h.rsp0 h0 t ht
  saved := by
    intro i t' ht' hi
    rw [hcur] at hi
    obtain ⟨t, ht, -, hsp⟩ := hthr i t' ht'
    rw [hsp, hsaved]
    exact h.saved i t ht hi

/-- A spawn keeps `InContext`: the slot it fills is not the current one. -/
theorem InContext.adopt {k : Kernel} {s : SchedulerState} {t : Thread} {id : ThreadId}
    {base : ℕ} (h : k.InContext) (hs : k.sched.Safe)
    (hi : k.sched.install t = .ok (id, s)) (hsp : t.stackPointer = buildInitialStack base) :
    (k.adopt s base).InContext := by
  obtain ⟨hfree, hthr, -, -, hcur, hkpt, -⟩ := install_spec hi
  obtain ⟨-, hsaved⟩ := adopt_spec hi base
  have hne : ∀ i ∈ k.sched.rotation, i ≠ id := by
    intro i hmem hc
    have hocc := hs.occupied i hmem
    rw [Occupied, hc, hfree] at hocc
    cases hocc
  have hold : ∀ i, i ≠ id → s.threads i = k.sched.threads i := by
    intro i hne
    rw [hthr, Function.update_of_ne hne]
  have hcurne := hne _ k.sched.current_mem_rotation
  exact {
    running := h.running.trans hcur.symm
    boot := by
      intro t' ht'
      exact h.boot t' ((hold 0 (hne 0 hs.boot)).symm.trans ht')
    cr3 := by
      intro t' ht'
      have ht'' : s.threads s.current = some t' := ht'
      rw [hcur, hold _ hcurne] at ht''
      rcases h.cr3 t' ht'' with hc | hc
      · exact Or.inl (by rw [show (k.adopt s base).sched = s from rfl, hkpt]; exact hc)
      · exact Or.inr (by rw [show (k.adopt s base).sched = s from rfl, hkpt]; exact hc)
    rsp := by
      rw [hsaved, show (k.adopt s base).running = k.running from rfl, Function.update_of_ne]
      · exact h.rsp
      · rw [h.running]
        exact hcurne
    rsp0 := by
      intro h0 t' ht'
      have ht'' : s.threads s.current = some t' := ht'
      have h0' : s.current ≠ 0 := h0
      rw [hcur] at h0' ht''
      exact h.rsp0 h0' t' ((hold _ hcurne).symm.trans ht'')
    saved := by
      intro i t' ht' hne'
      have ht'' : s.threads i = some t' := ht'
      have hne'' : i ≠ s.current := hne'
      rw [hcur] at hne''
      rw [hsaved]
      by_cases hid : i = id
      · subst hid
        rw [hthr, Function.update_self, Option.some.injEq] at ht''
        rw [Function.update_self, ← ht'', hsp]
      · rw [Function.update_of_ne hid]
        exact h.saved i t' ((hold i hid).symm.trans ht'') hne'' }

/-- **A switch restores the whole context**: `switch_to` and `set_rsp0` load what the incoming
thread's record holds. -/
theorem InContext.switchTo {k : Kernel} {sw : Switch} {t : Thread} (h : k.InContext)
    (k₁ : Kernel) (rsp : ℕ) (hthr : k₁.sched.threads = k.sched.threads)
    (hkpt : k₁.sched.kernelPageTable = k.sched.kernelPageTable)
    (hcur : k₁.sched.current = sw.next) (hsaved : k₁.saved = k.saved)
    (hprev : sw.previous = k.sched.current) (hne : sw.next ≠ k.sched.current)
    (ht : k.sched.threads sw.next = some t) (hstack : sw.newStack = t.stackPointer)
    (htable : sw.newPageTable = t.pageTable.getD k.sched.kernelPageTable)
    (hrsp0 : sw.newRsp0 = t.kernelStackTop) :
    (k₁.switchTo sw rsp).InContext ∧ (k₁.switchTo sw rsp).OwnContext := by
  have hnext : (k₁.switchTo sw rsp).sched.threads sw.next = some t := by
    show Function.update _ _ _ _ = _
    rw [Function.update_of_ne (hprev ▸ hne), hthr, ht]
  have hcur' : (k₁.switchTo sw rsp).sched.current = sw.next := hcur
  have hkpt' : (k₁.switchTo sw rsp).sched.kernelPageTable = k.sched.kernelPageTable := hkpt
  have hrsp : (k₁.switchTo sw rsp).cpu.rsp = (k₁.switchTo sw rsp).saved sw.next := by
    show sw.newStack = Function.update k₁.saved sw.previous rsp sw.next
    rw [Function.update_of_ne (hprev ▸ hne), hstack, hsaved]
    exact h.saved _ t ht hne
  have hcr3 : ∀ t', (k₁.switchTo sw rsp).sched.threads sw.next = some t' →
      (k₁.switchTo sw rsp).cpu.cr3 = t'.pageTable.getD k.sched.kernelPageTable := by
    intro t' ht'
    rw [hnext, Option.some.injEq] at ht'
    rw [← ht', ← htable]
    rfl
  have htop : ∀ t', (k₁.switchTo sw rsp).sched.threads sw.next = some t' →
      (k₁.switchTo sw rsp).cpu.rsp0 = t'.kernelStackTop := by
    intro t' ht'
    rw [hnext, Option.some.injEq] at ht'
    rw [← ht', ← hrsp0]
    rfl
  refine ⟨⟨hcur'.symm, ?_, ?_, hrsp, ?_, ?_⟩, ⟨hcur', ?_, ?_, hrsp, ?_⟩⟩
  · intro t' ht'
    have ht'' : Function.update k₁.sched.threads sw.previous
        ((k₁.sched.threads sw.previous).map _) 0 = some t' := ht'
    rw [hthr] at ht''
    by_cases h0 : (0 : ThreadId) = sw.previous
    · rw [← h0, Function.update_self, Option.map_eq_some_iff] at ht''
      obtain ⟨t₀, ht₀, rfl⟩ := ht''
      exact h.boot t₀ ht₀
    · rw [Function.update_of_ne h0] at ht''
      exact h.boot t' ht''
  · intro t' ht'
    rw [hcur'] at ht'
    rw [hkpt']
    exact Or.inl (hcr3 t' ht')
  · intro _ t' ht'
    rw [hcur'] at ht'
    exact htop t' ht'
  · intro i t' ht' hi
    rw [hcur'] at hi
    have ht'' : Function.update k₁.sched.threads sw.previous
        ((k₁.sched.threads sw.previous).map _) i = some t' := ht'
    rw [hthr] at ht''
    show t'.stackPointer = Function.update k₁.saved sw.previous rsp i
    by_cases hprev' : i = sw.previous
    · subst hprev'
      rw [Function.update_self, Option.map_eq_some_iff] at ht''
      obtain ⟨t₀, -, rfl⟩ := ht''
      rw [Function.update_self]
    · rw [Function.update_of_ne hprev'] at ht''
      rw [Function.update_of_ne hprev', hsaved]
      exact h.saved i t' ht'' (hprev ▸ hprev')
  · show ((k₁.switchTo sw rsp).sched.threads sw.next).isSome = true
    rw [hnext]
    rfl
  · intro t' ht'
    rw [hkpt']
    exact hcr3 t' ht'
  · intro _ t' ht'
    exact htop t' ht'

/-- In a safe state the incoming thread of a switch is not the outgoing one. -/
theorem next_ne_current {s : SchedulerState} (hs : s.Safe) {next : ThreadId}
    {rest : List ThreadId} (hrot : s.rotation = s.current :: next :: rest) : next ≠ s.current := by
  have hnd := hs.nodup
  rw [hrot, List.nodup_cons, List.mem_cons, not_or] at hnd
  exact Ne.symm hnd.1.1

/-- A completed `schedule`, with or without a switch, leaves the thread in its own context. -/
theorem InContext.decision_of_schedule {k k' : Kernel} (h : k.InContext) (hs : k.sched.Safe)
    (rsp : ℕ) (hd : k.scheduleRest rsp = .ok k') : k'.InContext ∧ k'.OwnContext := by
  unfold scheduleRest at hd
  obtain ⟨⟨o, s⟩, hsched, hd⟩ := bind_eq_ok hd
  rcases scheduleRest_spec hsched with
    ⟨rfl, rfl, hempty⟩ | ⟨sw, t, rest, rfl, hrot, -, hcur, hthr, -, hkpt, -, hprev, ht, h1, h2, h3⟩
  · -- the queue is empty, so the caller is the boot thread, whose table is the kernel's
    cases hd
    have hzero : (0 : ThreadId) = k.sched.current := by
      have hboot := hs.boot
      rwa [SchedulerState.rotation, hempty, List.mem_singleton] at hboot
    refine ⟨h, h.running.symm, ?_, ?_, h.rsp, ?_⟩
    · show k.sched.Occupied k.running
      rw [h.running]
      exact hs.occupied _ k.sched.current_mem_rotation
    · intro t ht
      have ht' : k.sched.threads k.running = some t := ht
      rw [h.running] at ht'
      have hnone := h.boot t (hzero ▸ ht')
      have hcr3 := h.cr3 t ht'
      rw [hnone] at hcr3 ⊢
      exact hcr3.elim (·) (·)
    · intro hne
      exact absurd (h.running.trans hzero.symm) hne
  · cases hd
    exact h.switchTo { k with sched := s } _ hthr hkpt hcur rfl hprev
      (next_ne_current hs hrot) ht h1 h2 h3

/-- So does a completed `exit_current_thread`, for the thread it hands the CPU to. -/
theorem InContext.decision_of_exit {k k' : Kernel} (h : k.InContext) (hs : k.sched.Safe)
    (rsp : ℕ) (hd : k.exitRest rsp = .ok k') : k'.InContext ∧ k'.OwnContext := by
  unfold exitRest at hd
  obtain ⟨⟨sw, s⟩, hexit, hd⟩ := bind_eq_ok hd
  cases hd
  obtain ⟨t, rest, -, hrot, -, hcur, hthr, -, hkpt, -, hprev, ht, h1, h2, h3⟩ := exitRest_spec hexit
  exact h.switchTo ({ k with sched := s }.goto .gone) _ hthr hkpt hcur rfl hprev
    (next_ne_current hs hrot) ht h1 h2 h3

/-- The two reaps keep `InContext`: the slot they empty is not in the rotation. -/
theorem InContext.take {k k' : Kernel} (h : k.InContext) (hrun : k'.running = k.running)
    (hsched : k'.sched = k.sched.reapTake.2) (hrsp : k'.cpu.rsp = k.cpu.rsp)
    (hrsp0 : k'.cpu.rsp0 = k.cpu.rsp0)
    (hcr3 : k'.cpu.cr3 = k.cpu.cr3 ∨ k'.cpu.cr3 = k.sched.kernelPageTable)
    (hsaved : k'.saved = k.saved) : k'.InContext := by
  obtain ⟨-, -, hcur, hkpt, -, -, hthr⟩ := k.sched.reapTake_spec
  rw [← hsched] at hcur hkpt hthr
  refine h.congr hrun hcur hkpt hrsp hrsp0 hcr3 hsaved ?_
  intro i t ht
  rw [hthr] at ht
  split_ifs at ht
  exact ⟨t, ht, ⟨rfl, rfl, rfl, rfl⟩, rfl⟩

/-- **Every move keeps `InContext`.** -/
theorem Move.inContext {P : SchedulerState → Prop} {k k' : Kernel} (hm : Move P k k')
    (hs : k.sched.Safe) (h : k.InContext) : k'.InContext := by
  cases hm with
  | spawn _ _ _ hi => exact h.adopt hs hi rfl
  | spawnIsolated _ _ _ _ hi =>
    have hadopt := h.adopt hs hi rfl
    exact ⟨hadopt.running, hadopt.boot, hadopt.cr3, hadopt.rsp, hadopt.rsp0, hadopt.saved⟩
  | start f p _ _ hf =>
    refine h.congr rfl rfl rfl rfl rfl (Or.inl rfl) rfl ?_
    intro i t' ht'
    have ht'' : Function.update k.sched.threads k.sched.current
        ((k.sched.threads k.sched.current).map f) i = some t' := ht'
    by_cases hi : i = k.sched.current
    · subst hi
      rw [Function.update_self, Option.map_eq_some_iff] at ht''
      obtain ⟨t, ht, rfl⟩ := ht''
      exact ⟨t, ht, hf t⟩
    · rw [Function.update_of_ne hi] at ht''
      exact ⟨t', ht'', ⟨rfl, rfl, rfl, rfl⟩, rfl⟩
  | goto p =>
    exact ⟨h.running, h.boot, h.cr3, h.rsp, h.rsp0, h.saved⟩
  | reapCall c =>
    obtain ⟨p, hp, -⟩ := k.reapCall_spec c
    rw [hp]
    exact h.take rfl rfl rfl rfl (Or.inl rfl) rfl
  | reapStep hp =>
    rename_i c dead stage
    obtain ⟨-, hrun, hsaved, hrsp, hrsp0, hcr3⟩ := k.reapEffect_spec dead stage
    refine h.congr hrun ?_ ?_ hrsp hrsp0 hcr3 hsaved ?_
    · rw [goto_sched, reapEffect_sched]
    · rw [goto_sched, reapEffect_sched]
    · intro i t ht
      rw [goto_sched, reapEffect_sched] at ht
      exact ⟨t, ht, ⟨rfl, rfl, rfl, rfl⟩, rfl⟩
  | reapZombie =>
    obtain ⟨-, hrun, hsaved, -, hrsp, hrsp0, hcr3, -⟩ := k.reapZombie_spec
    exact h.take hrun k.reapZombie_sched hrsp hrsp0 hcr3 hsaved
  | stay hsched =>
    obtain rfl := scheduleRest_none hsched
    exact h
  | switch rsp hsched =>
    exact (h.decision_of_schedule hs rsp (by rw [scheduleRest, hsched]; rfl)).1
  | exit rsp _ hexit =>
    exact (h.decision_of_exit hs rsp (by rw [exitRest, hexit]; rfl)).1

/-- One step keeps safety and `InContext`. -/
theorem step_inContext {k k' : Kernel} {a : Action} (hs : k.sched.Safe) (hc : k.InContext)
    (hstep : k.step a = .ok k') : k'.sched.Safe ∧ k'.InContext := by
  refine step_preserves_of_moves (I := fun k => k.sched.Safe ∧ k.InContext) ?_ hstep ⟨hs, hc⟩
  intro k k' hm hk
  exact ⟨hm.preserves (fun _ _ hsec => hsec.safe) hk.1, hm.inContext hk.1 hk.2⟩

/-- `InContext` holds in every reachable state. -/
theorem inContext_of_reachable {pt : Frame} {rsp rsp0 : ℕ} {k : Kernel}
    (h : Runs.Reachable step (Kernel.boot pt rsp rsp0) k) : k.sched.Safe ∧ k.InContext := by
  refine h.invariant (I := fun k => k.sched.Safe ∧ k.InContext)
    ⟨init_safe pt, boot_inContext pt rsp rsp0⟩ ?_
  intro k a k' hk _ hstep
  exact step_inContext hk.1 hk.2 hstep

/-! ## Scheduling decisions -/

/-- **The CPU always runs a thread under that thread's own context**: in every state in which a
scheduling decision completes, whichever of the three kinds it is and whether or not
`reap_zombie` had overwritten `CR3` before it. -/
theorem decision_restores_context {pt : Frame} {rsp rsp0 : ℕ} {k k' : Kernel} {a : Action}
    (h : Runs.Reachable step (Kernel.boot pt rsp rsp0) k) (ha : a.decides = true)
    (hstep : k.step a = .ok k') : k'.OwnContext := by
  obtain ⟨hs, hc⟩ := inContext_of_reachable h
  obtain ⟨-, hperf⟩ := step_eq_ok hstep
  -- the reap in front of a decision with interrupts off
  have hs' : k.reapZombie.sched.Safe := by
    rw [reapZombie_sched]
    exact hs.reapTake
  have hc' : k.reapZombie.InContext := (Move.reapZombie (P := fun _ => True)).inContext hs hc
  cases a with
  | yieldRest r =>
    have hgoto : (k.goto .body).InContext :=
      ⟨hc.running, hc.boot, hc.cr3, hc.rsp, hc.rsp0, hc.saved⟩
    exact (hgoto.decision_of_schedule hs r (orPanic_eq_ok hperf)).2
  | exitRest r => exact (hc.decision_of_exit hs r (orPanic_eq_ok hperf)).2
  | tick r => exact (hc'.decision_of_schedule hs' r (orPanic_eq_ok hperf)).2
  | sysYield r => exact (hc'.decision_of_schedule hs' r (orPanic_eq_ok hperf)).2
  | sysExit r => exact (hc'.decision_of_exit hs' r (orPanic_eq_ok hperf)).2
  | _ => cases ha

/-- An isolated thread exits to a second one; a third one is queued. -/
def reapUnderIsolatedRun : List Action :=
  [.spawnIsolated 0x10000 (.function 1) 7, .spawnIsolated 0x20000 (.function 2) 8,
   .spawnIsolated 0x30000 (.function 3) 9, .yieldCall, .yieldRest 100, .trampoline, .exitCall,
   .exitRest 200, .trampoline]

/-- The next tick reaps the first thread while the second one is running, and switches to the
third. -/
theorem decision_restores_context_reapUnderIsolatedRun :
    ∃ k k', Runs.Reachable step (Kernel.boot 1 0 0) k ∧ k.step (.tick 300) = .ok k' ∧
      k'.OwnContext ∧ k.sched.zombie = some 1 ∧ k.running = 2 ∧ k.cpu.cr3 = 8 ∧
      k'.sched.zombie = none ∧ (k'.sched.threads 1).isNone = true ∧ k'.running = 3 ∧
      k'.cpu.cr3 = 9 := by
  obtain ⟨k, k', hk, hs, htest⟩ := Runs.exists_step_of_any step (fun _ _ => True)
    (Kernel.boot 1 0 0) reapUnderIsolatedRun (.tick 300) (fun k k' => decide
      (k.sched.zombie = some 1 ∧ k.running = 2 ∧ k.cpu.cr3 = 8 ∧ k'.sched.zombie = none ∧
        (k'.sched.threads 1).isNone = true ∧ k'.running = 3 ∧ k'.cpu.cr3 = 9)) (by decide)
  exact ⟨k, k', hk, hs, decision_restores_context hk rfl hs, of_decide_eq_true htest⟩

end Kernel
