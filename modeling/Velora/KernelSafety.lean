/-
# Safety of the scheduler over every run

The three consequences of the invariants, and the theorem that collects them:

* **assertions**: none of the scheduler's own can fire (`no_assertion_fires`);
* **reaping** frees neither the stack nor the page table of the running thread
  (`reap_spares_stack`, `reap_spares_table`), although the reaper may be interrupted
  between any two of its steps;
* **exits**: a thread that is past `interrupts::disable()` in `exit_current_thread`
  never becomes current again (`exited_never_current`).  One that has only called it
  can be preempted and resumed, but does nothing else any more
  (`exit_only_finishes`).
-/
import Velora.Resources

namespace Kernel

open SchedulerState Ownership

/-! ## Assertions -/

/-- The scheduler's own assertions. -/
def assertions : List Panic :=
  [.readyQueueFull, .currentThreadMissing, .nextThreadMissing, .noOtherThread]

theorem install_no_assertion {s : SchedulerState} {t : Thread} {p : Panic} (hs : s.Safe)
    (h : s.install t = .error p) : p ∉ assertions := by
  rcases hs.install_error h with rfl | rfl <;> decide

theorem spawnIsolatedInner_no_assertion {s : SchedulerState} {base : ℕ} {e : Entry}
    {u : Option UserEntry} {pt : Frame} {p : Panic} (hs : s.Safe)
    (h : s.spawnIsolatedInner base e u pt = .error p) : p ∉ assertions := by
  unfold spawnIsolatedInner at h
  by_cases hb : base = 0
  · rw [if_pos hb] at h
    cases h
    decide
  · rw [if_neg hb] at h
    rcases bind_eq_error h with h | ⟨⟨_, _⟩, _, h⟩
    · exact install_no_assertion hs h
    · cases h

theorem spawn_no_assertion {s : SchedulerState} {base : ℕ} {e : Entry} {p : Panic} (hs : s.Safe)
    (h : s.spawn base e = .error p) : p ∉ assertions := by
  unfold SchedulerState.spawn at h
  by_cases hb : base = 0
  · rw [if_pos hb] at h
    cases h
    decide
  · rw [if_neg hb] at h
    rcases bind_eq_error h with h | ⟨⟨_, _⟩, _, h⟩
    · exact install_no_assertion hs h
    · cases h

theorem scheduleRest_no_panic {k : Kernel} {rsp : ℕ} {p : Panic} (hs : k.sched.Safe) :
    k.scheduleRest rsp ≠ .error p := by
  intro h
  obtain ⟨r, hr⟩ := hs.exists_scheduleRest
  unfold scheduleRest at h
  rcases bind_eq_error h with h | ⟨⟨o, s⟩, -, h⟩
  · rw [hr] at h
    cases h
  · cases o <;> cases h

theorem exitRest_no_assertion {k : Kernel} {rsp : ℕ} {p : Panic} (hs : k.sched.Safe)
    (h : k.exitRest rsp = .error p) : p ∉ assertions := by
  unfold exitRest at h
  rcases bind_eq_error h with h | ⟨⟨_, _⟩, _, h⟩
  · by_cases h0 : k.sched.current = 0
    · unfold SchedulerState.exitRest at h
      rw [if_pos h0] at h
      cases h
      decide
    · obtain ⟨r, hr⟩ := hs.exists_exitRest h0
      rw [hr] at h
      cases h
  · cases h

/-- **No assertion of the scheduler fires in a safe state.** -/
theorem no_assertion_fires {k : Kernel} {a : Action} {p : Panic} (hs : k.sched.Safe)
    (h : k.step a = .error (.panic p)) : p ∉ assertions := by
  have hperf : k.perform a = .error (.panic p) := by
    unfold step at h
    split_ifs at h
    · exact h
    · cases h
  have hs' : k.reapZombie.sched.Safe := by
    rw [reapZombie_sched]
    exact hs.reapTake
  cases a with
  | spawn base e =>
    simp only [perform] at hperf
    split_ifs at hperf
    · rcases bind_eq_error hperf with h | ⟨_, _, h⟩
      · exact spawn_no_assertion hs (orPanic_eq_panic h)
      · cases h
    · cases hperf
  | spawnIsolated base e pt =>
    simp only [perform] at hperf
    split_ifs at hperf
    · rcases bind_eq_error hperf with h | ⟨⟨_, _⟩, _, h⟩
      · exact spawnIsolatedInner_no_assertion hs (orPanic_eq_panic h)
      · cases h
    · cases hperf
  | spawnUser base u pt =>
    simp only [perform] at hperf
    split_ifs at hperf
    · rcases bind_eq_error hperf with h | ⟨⟨_, _⟩, _, h⟩
      · exact spawnIsolatedInner_no_assertion hs (orPanic_eq_panic h)
      · cases h
    · cases hperf
  | trampoline =>
    rcases bind_eq_error hperf with h | ⟨⟨_, _⟩, _, h⟩
    · have h := orPanic_eq_panic h
      unfold takeEntry at h
      split at h
      · cases h
        decide
      · split at h
        · cases h
          decide
        · cases h
    · cases h
  | ring3Trampoline =>
    rcases bind_eq_error hperf with h | ⟨⟨_, _⟩, _, h⟩
    · have h := orPanic_eq_panic h
      unfold takeUserEntry at h
      split at h
      · cases h
        decide
      · split at h
        · cases h
          decide
        · cases h
    · cases h
  | enterRing3 => cases hperf
  | yieldCall => cases hperf
  | exitCall => cases hperf
  | reapStep =>
    simp only [perform] at hperf
    split at hperf <;> cases hperf
  | yieldRest rsp =>
    exact absurd (orPanic_eq_panic hperf) (scheduleRest_no_panic (k := k.goto .body) hs)
  | exitRest rsp => exact exitRest_no_assertion hs (orPanic_eq_panic hperf)
  | tick rsp => exact absurd (orPanic_eq_panic hperf) (scheduleRest_no_panic hs')
  | sysYield rsp => exact absurd (orPanic_eq_panic hperf) (scheduleRest_no_panic hs')
  | sysExit rsp => exact exitRest_no_assertion hs' (orPanic_eq_panic hperf)

/-! ## What a reap frees -/

/-- The dead thread whose stack an action deallocates. -/
def freesStack (k : Kernel) : Action → Option Thread
  | .reapStep =>
    match k.point k.running with
    | .reaping _ dead .deallocStack => some dead
    | _ => none
  | .tick _ | .sysYield _ | .sysExit _ => k.sched.reapTake.1
  | _ => none

/-- The dead thread whose address space an action frees. -/
def freesTable (k : Kernel) : Action → Option Thread
  | .reapStep =>
    match k.point k.running with
    | .reaping _ dead .freeSpace => some dead
    | _ => none
  | .tick _ | .sysYield _ | .sysExit _ => k.sched.reapTake.1
  | _ => none

/-- Address `x` is in the stack of a thread. -/
def onStack (t : Thread) (x : ℕ) : Prop :=
  t.stackBase ≤ x ∧ x < t.stackBase + t.stackSize

/-- The zombie's slot is not the running thread's. -/
theorem taken_slot {s : SchedulerState} (hs : s.Safe) {dead : Thread}
    (hd : s.reapTake.1 = some dead) : ∃ z, s.threads z = some dead ∧ z ≠ s.current := by
  rw [s.reapTake_spec.2.2.2.2.2.1] at hd
  obtain ⟨z, hz, hthr⟩ := Option.bind_eq_some_iff.mp hd
  refine ⟨z, hthr, ?_⟩
  rintro rfl
  exact hs.zombie_out _ hz s.current_mem_rotation

/-- The dead thread's stack is held by somebody else than the running slot. -/
theorem freesStack_held {k : Kernel} {a : Action} {dead : Thread} (ho : k.Owned)
    (hs : k.sched.Safe) (hf : k.freesStack a = some dead) :
    dead.stackSize = threadStackSize ∧ ∃ j, j ≠ .inl k.sched.current ∧
      k.holding Thread.stack ReapStage.keepsStack j = some dead.stackBase := by
  have htaken : k.sched.reapTake.1 = some dead → dead.stackSize = threadStackSize ∧
      ∃ j, j ≠ .inl k.sched.current ∧
        k.holding Thread.stack ReapStage.keepsStack j = some dead.stackBase := by
    intro hd
    obtain ⟨z, hz, hne⟩ := taken_slot hs hd
    have hsize := taken_size ho hs hd
    refine ⟨hsize, .inl z, fun hc => hne (Sum.inl.inj hc), ?_⟩
    exact holding_inl.mpr ⟨dead, hz, stack_of_size hsize⟩
  cases a with
  | reapStep =>
    simp only [freesStack] at hf
    split at hf
    · rename_i hp
      cases hf
      have hr : (k.point k.running).reaper = some (dead, .deallocStack) := by rw [hp]; rfl
      have hsize := ho.dead _ _ _ hr
      exact ⟨hsize, .inr k.running, Sum.inr_ne_inl,
        holding_inr.mpr ⟨dead, _, hr, rfl, stack_of_size hsize⟩⟩
    · cases hf
  | tick => exact htaken hf
  | sysYield => exact htaken hf
  | sysExit => exact htaken hf
  | _ => cases hf

/-- **A reap deallocates no byte of the running thread's stack.** -/
theorem reap_spares_stack {k : Kernel} {a : Action} {dead t : Thread} (ho : k.Owned)
    (hs : k.sched.Safe) (hf : k.freesStack a = some dead)
    (ht : k.sched.threads k.sched.current = some t)
    (hboot : k.sched.current = 0 → t.stackSize = 0) (x : ℕ) (hx : onStack t x) :
    ¬ onStack dead x := by
  obtain ⟨hdead, j, hj, hheld⟩ := freesStack_held ho hs hf
  obtain ⟨h1, h2⟩ := hx
  by_cases h0 : k.sched.current = 0
  · rw [hboot h0] at h2
    omega
  · have hsize := ho.sizes _ t ht h0
    have hself : k.holding Thread.stack ReapStage.keepsStack (.inl k.sched.current) =
        some t.stackBase := holding_inl.mpr ⟨t, ht, stack_of_size hsize⟩
    have hapart := ho.stacksOwned.apart_of_ne hheld hself hj
    rintro ⟨h3, h4⟩
    unfold StacksApart at hapart
    rw [hsize] at h2
    rw [hdead] at h4
    omega

/-- **A reap does not free the page table of the running thread**, nor the kernel's. -/
theorem reap_spares_table {k : Kernel} {a : Action} {dead t : Thread} {pt : Frame} (ho : k.Owned)
    (hs : k.sched.Safe) (hf : k.freesTable a = some dead) (hpt : dead.pageTable = some pt)
    (ht : k.sched.threads k.sched.current = some t) :
    t.pageTable.getD k.sched.kernelPageTable ≠ pt := by
  have hheld : ∃ j, j ≠ .inl k.sched.current ∧
      k.holding Thread.pageTable ReapStage.keepsTable j = some pt := by
    have htaken : k.sched.reapTake.1 = some dead → ∃ j, j ≠ .inl k.sched.current ∧
        k.holding Thread.pageTable ReapStage.keepsTable j = some pt := by
      intro hd
      obtain ⟨z, hz, hne⟩ := taken_slot hs hd
      exact ⟨.inl z, fun hc => hne (Sum.inl.inj hc), holding_inl.mpr ⟨dead, hz, hpt⟩⟩
    cases a with
    | reapStep =>
      simp only [freesTable] at hf
      split at hf
      · rename_i hp
        cases hf
        have hr : (k.point k.running).reaper = some (dead, .freeSpace) := by rw [hp]; rfl
        exact ⟨.inr k.running, Sum.inr_ne_inl, holding_inr.mpr ⟨dead, _, hr, rfl, hpt⟩⟩
      · cases hf
    | tick => exact htaken hf
    | sysYield => exact htaken hf
    | sysExit => exact htaken hf
    | _ => cases hf
  obtain ⟨j, hj, hheld⟩ := hheld
  cases hown : t.pageTable with
  | none =>
    rintro rfl
    exact ho.kernel (ho.tablesOwned.live j _ hheld)
  | some own =>
    have hself : k.holding Thread.pageTable ReapStage.keepsTable (.inl k.sched.current) =
        some own := holding_inl.mpr ⟨t, ht, hown⟩
    exact (ho.tablesOwned.apart_of_ne hheld hself hj).symm

/-! ## Threads that exit -/

/-- The thread that had generation `g` of slot `i` is out of the rotation, and so is whatever is
in the slot until it is populated again. -/
def Retired (i : ThreadId) (g : UInt64) (s : SchedulerState) : Prop :=
  (s.slotGenerations i = g ∧ i ∉ s.rotation) ∨ g < s.slotGenerations i

theorem CritSection.retired {P : SchedulerState → Prop} {s s' : SchedulerState} {i : ThreadId}
    {g : UInt64} (h : CritSection P s s') (hr : Retired i g s) : Retired i g s' := by
  cases h with
  | @install _ _ id hi =>
    obtain ⟨hle, hlt⟩ := install_generation hi i
    obtain ⟨-, -, hrot, -⟩ := install_spec hi
    rcases hr with ⟨hg, hout⟩ | hg
    · by_cases hid : i = id
      · exact Or.inr (hg ▸ hlt hid)
      · refine Or.inl ⟨?_, ?_⟩
        · rw [(install_spec hi).2.2.2.2.2.2.2, Function.update_of_ne hid]
          exact hg
        · rw [hrot, List.mem_append, List.mem_singleton, not_or]
          exact ⟨hout, hid⟩
    · exact Or.inr (UInt64.lt_of_lt_of_le hg hle)
  | touch => exact hr
  | take =>
    obtain ⟨-, hrot, -, -, hgen, -⟩ := s.reapTake_spec
    unfold Retired
    rw [hrot, hgen]
    exact hr
  | schedule hs =>
    rcases scheduleRest_spec hs with ⟨-, rfl, -⟩ | ⟨sw, t, rest, -, h1, h2, -, -, -, -, hgen, -⟩
    · exact hr
    · unfold Retired
      rw [hgen]
      refine hr.imp_left (fun ⟨hg, hout⟩ => ⟨hg, ?_⟩)
      rw [h1, List.mem_cons, not_or] at hout
      rw [h2, ← List.cons_append, List.mem_append, List.mem_singleton, not_or]
      exact ⟨hout.2, hout.1⟩
  | exit _ hs =>
    obtain ⟨t, rest, -, h1, h2, -, -, -, -, hgen, -⟩ := exitRest_spec hs
    unfold Retired
    rw [hgen]
    refine hr.imp_left (fun ⟨hg, hout⟩ => ⟨hg, ?_⟩)
    rw [h1, List.mem_cons, not_or] at hout
    rw [h2]
    exact hout.2

/-- The action is the part of `exit_current_thread` that takes the thread out of the rotation. -/
def Action.exits : Action → Bool
  | .exitRest _ | .sysExit _ => true
  | _ => false

/-- That part retires the running thread. -/
theorem exits_retires {k k' : Kernel} {a : Action} (hs : k.sched.Safe)
    (hrun : k.running = k.sched.current) (ha : a.exits = true) (h : k.step a = .ok k') :
    Retired k.running (k.sched.slotGenerations k.running) k'.sched := by
  have key : ∀ k₁ : Kernel, ∀ rsp, k₁.sched.Safe → k₁.sched.current = k.sched.current →
      k₁.sched.slotGenerations = k.sched.slotGenerations → k₁.exitRest rsp = .ok k' →
      Retired k.running (k.sched.slotGenerations k.running) k'.sched := by
    intro k₁ rsp hs₁ hcur hgen he
    unfold exitRest at he
    obtain ⟨⟨sw, s⟩, hexit, he⟩ := bind_eq_ok he
    cases he
    obtain ⟨t, rest, -, h1, h2, -, -, -, -, hgen', -⟩ := exitRest_spec hexit
    have hnd := hs₁.nodup
    rw [h1, List.nodup_cons, hcur] at hnd
    refine Or.inl ⟨?_, ?_⟩
    · show s.slotGenerations _ = _
      rw [hgen', hgen]
    · show k.running ∉ s.rotation
      rw [h2, hrun]
      exact hnd.1
  obtain ⟨-, hperf⟩ := step_eq_ok h
  cases a with
  | exitRest rsp => exact key k rsp hs rfl rfl (orPanic_eq_ok hperf)
  | sysExit rsp =>
    refine key k.reapZombie rsp ?_ ?_ ?_ (orPanic_eq_ok hperf)
    · rw [reapZombie_sched]
      exact hs.reapTake
    · rw [reapZombie_sched]
      exact k.sched.reapTake_spec.2.2.1
    · rw [reapZombie_sched]
      exact k.sched.reapTake_spec.2.2.2.2.1
  | _ => cases ha

/-- **A thread past `interrupts::disable()` in `exit_current_thread` never becomes current
again**: as long as its slot is not populated anew, the slot is not in the rotation. -/
theorem exited_never_current {k k' k'' : Kernel} {a : Action} (hs : k.sched.Safe)
    (hrun : k.running = k.sched.current) (ha : a.exits = true) (h : k.step a = .ok k')
    (hreach : Runs.Reachable step k' k'')
    (hgen : k''.sched.slotGenerations k.running = k.sched.slotGenerations k.running) :
    k.running ∉ k''.sched.rotation := by
  have hr : Retired k.running (k.sched.slotGenerations k.running) k''.sched := by
    refine hreach.invariant
      (I := fun k₁ => Retired k.running (k.sched.slotGenerations k.running) k₁.sched)
      (exits_retires hs hrun ha h) ?_
    intro k₁ a₁ k₂ hk₁ _ hstep
    exact step_preserves (P := fun _ => True) (fun _ _ hc => hc.retired) (fun _ _ => trivial)
      (fun _ _ => trivial) hstep hk₁
  rcases hr with ⟨-, hout⟩ | hlt
  · exact hout
  · rw [hgen] at hlt
    exact absurd hlt (UInt64.lt_irrefl _)

/-- The thread with generation `g` of slot `i` is retired or on its way out. -/
def Leaving (i : ThreadId) (g : UInt64) (k : Kernel) : Prop :=
  (k.sched.slotGenerations i = g ∧ (i ∉ k.sched.rotation ∨ (k.point i).exitBound = true)) ∨
    g < k.sched.slotGenerations i

/-- Every move leaves a leaving thread on its way out. -/
theorem Move.leaving {P : SchedulerState → Prop} {k k' : Kernel} {i : ThreadId} {g : UInt64}
    (hm : Move P k k') (hs : k.sched.Safe) (hrun : k.running = k.sched.current)
    (h : Leaving i g k) : Leaving i g k' := by
  -- a retired thread stays so, by the critical sections of the move
  by_cases hret : Retired i g k.sched
  · have := hm.preserves (fun _ _ hc => hc.retired) hret
    exact this.imp_left (fun hl => ⟨hl.1, Or.inl hl.2⟩)
  have hgen : k.sched.slotGenerations i = g := by
    rcases h with h | h
    · exact h.1
    · exact absurd (Or.inr h) hret
  have hbound : (k.point i).exitBound = true := by
    rcases h with ⟨hg, hout | hb⟩ | h
    · exact absurd (Or.inl ⟨hg, hout⟩) hret
    · exact hb
    · exact absurd (Or.inr h) hret
  -- moves of the running thread's own code are not possible for `i`
  have hne : (k.point k.running).exitBound = false → i ≠ k.running := by
    rintro hpt rfl
    rw [hpt] at hbound
    cases hbound
  have hspawn : ∀ {t : Thread} {id : ThreadId} {s : SchedulerState} (base : ℕ),
      k.sched.install t = .ok (id, s) → Leaving i g (k.adopt s base) := by
    intro t id s base hi
    by_cases hid : i = id
    · exact Or.inr (hgen ▸ (install_generation hi i).2 hid)
    · refine Or.inl ⟨?_, Or.inr ?_⟩
      · show s.slotGenerations i = g
        rw [(install_spec hi).2.2.2.2.2.2.2, Function.update_of_ne hid, hgen]
      · rw [(adopt_spec hi base).1, Function.update_of_ne hid]
        exact hbound
  cases hm with
  | spawn _ _ _ hi => exact hspawn _ hi
  | @spawnIsolated base _ _ _ _ _ _ _ _ _ hi => exact hspawn base hi
  | start f p hpt =>
    refine Or.inl ⟨hgen, Or.inr ?_⟩
    show (Function.update k.point k.running p i).exitBound = true
    rw [Function.update_of_ne (hne hpt)]
    exact hbound
  | goto p hpt =>
    refine Or.inl ⟨hgen, Or.inr ?_⟩
    show (Function.update k.point k.running p i).exitBound = true
    rw [Function.update_of_ne (hne hpt)]
    exact hbound
  | reapCall c hpt =>
    obtain ⟨p, hp, -⟩ := k.reapCall_spec c
    refine Or.inl ⟨?_, Or.inr ?_⟩
    · rw [reapCall_sched, k.sched.reapTake_spec.2.2.2.2.1]
      exact hgen
    · rw [hp]
      show (Function.update k.point k.running p i).exitBound = true
      rw [Function.update_of_ne (hne hpt)]
      exact hbound
  | @reapStep c dead stage hp =>
    obtain ⟨hpoint, hrun', -⟩ := k.reapEffect_spec dead stage
    refine Or.inl ⟨?_, Or.inr ?_⟩
    · rw [goto_sched, reapEffect_sched]
      exact hgen
    · unfold Kernel.goto
      simp only [hpoint, hrun']
      by_cases hi : i = k.running
      · subst hi
        rw [hp] at hbound
        rw [Function.update_self]
        cases c with
        | schedule => cases hbound
        | exit => cases stage <;> rfl
      · rw [Function.update_of_ne hi]
        exact hbound
  | reapZombie =>
    obtain ⟨hpoint, -⟩ := k.reapZombie_spec
    refine Or.inl ⟨?_, Or.inr ?_⟩
    · rw [reapZombie_sched, k.sched.reapTake_spec.2.2.2.2.1]
      exact hgen
    · rw [hpoint]
      exact hbound
  | stay hs =>
    obtain rfl := scheduleRest_none hs
    exact h
  | switch rsp hs =>
    rcases scheduleRest_spec hs with ⟨ho, -, -⟩ | ⟨sw, t, rest, -, -, -, -, -, -, -, hgen', -⟩
    · cases ho
    · refine Or.inl ⟨?_, Or.inr hbound⟩
      rw [← hgen, ← hgen']
      rfl
  | @exit sw s rsp _ hexit =>
    obtain ⟨t, rest, -, h1, h2, -, -, -, -, hgen', -⟩ := exitRest_spec hexit
    by_cases hi : i = k.running
    · -- the leaving thread itself has reached the end
      have hnd := hs.nodup
      rw [h1, List.nodup_cons, ← hrun, ← hi] at hnd
      refine Or.inl ⟨?_, Or.inl ?_⟩
      · rw [← hgen, ← hgen']
        rfl
      · show i ∉ s.rotation
        rw [h2]
        exact hnd.1
    · refine Or.inl ⟨?_, Or.inr ?_⟩
      · rw [← hgen, ← hgen']
        rfl
      · show (Function.update k.point k.running Point.gone i).exitBound = true
        rw [Function.update_of_ne hi]
        exact hbound

/-- **A thread that has called `exit_current_thread` does nothing else any more**: when it is
current again, it is still inside that call. -/
theorem exit_only_finishes {pt : Frame} {rsp rsp0 : ℕ} {k k' k'' : Kernel}
    (hk : Runs.Reachable step (boot pt rsp rsp0) k) (h : k.step .exitCall = .ok k')
    (hreach : Runs.Reachable step k' k'')
    (hgen : k''.sched.slotGenerations k.running = k.sched.slotGenerations k.running)
    (hcur : k''.sched.current = k.running) : (k''.point k.running).exitBound = true := by
  have hk' := inContext_of_reachable (hk.tail trivial h)
  have hstart : Leaving k.running (k.sched.slotGenerations k.running) k' := by
    obtain ⟨-, hperf⟩ := step_eq_ok h
    cases hperf
    obtain ⟨p, hp, -, hbound⟩ := k.reapCall_spec .exit
    refine Or.inl ⟨?_, Or.inr ?_⟩
    · rw [reapCall_sched, k.sched.reapTake_spec.2.2.2.2.1]
    · rw [hp]
      show (Function.update k.point k.running p k.running).exitBound = true
      rw [Function.update_self]
      exact hbound.mpr rfl
  have hleave := (hreach.invariant (I := fun k₁ => (k₁.sched.Safe ∧ k₁.InContext) ∧
    Leaving k.running (k.sched.slotGenerations k.running) k₁) ⟨hk', hstart⟩ ?_).2
  · rcases hleave with ⟨-, hout | hb⟩ | hlt
    · rw [← hcur] at hout
      exact absurd k''.sched.current_mem_rotation hout
    · exact hb
    · rw [hgen] at hlt
      exact absurd hlt (UInt64.lt_irrefl _)
  · intro k₁ a₁ k₂ hk₁ _ hstep
    refine step_preserves_of_moves (I := fun k₁ => (k₁.sched.Safe ∧ k₁.InContext) ∧
      Leaving k.running (k.sched.slotGenerations k.running) k₁) ?_ hstep hk₁
    rintro k₁ k₂ hm ⟨⟨hs, hc⟩, hl⟩
    exact ⟨⟨hm.preserves (fun _ _ hc => hc.safe) hs, hm.inContext hs hc⟩,
      hm.leaving hs hc.running hl⟩

/-! ## The whole of it -/

/-- The boot thread's record names an empty stack: it runs on the one the bootloader set up. -/
theorem boot_stack_empty {pt : Frame} {rsp rsp0 : ℕ} {k : Kernel}
    (h : Runs.Reachable step (boot pt rsp rsp0) k) :
    ∀ t, k.sched.threads 0 = some t → t.stackSize = 0 := by
  refine (h.invariant (I := fun k => k.sched.Safe ∧
    ∀ t, k.sched.threads 0 = some t → t.stackSize = 0) ⟨init_safe pt, ?_⟩ ?_).2
  · intro t ht
    simp only [boot, init, if_true, Option.some.injEq] at ht
    rw [← ht]
  · intro k a k' hk _ hstep
    refine step_preserves (P := fun _ => True)
      (I := fun s => s.Safe ∧ ∀ t, s.threads 0 = some t → t.stackSize = 0) ?_
      (fun _ _ => trivial) (fun _ _ => trivial) hstep hk
    rintro s s' hc ⟨hs, h0⟩
    refine ⟨hc.safe hs, ?_⟩
    cases hc with
    | @install _ _ id hi =>
      obtain ⟨hfree, hthr, -⟩ := install_spec hi
      have hne : (0 : ThreadId) ≠ id := by
        rintro rfl
        have := hs.occupied 0 hs.boot
        rw [Occupied, hfree] at this
        cases this
      rwa [hthr, Function.update_of_ne hne]
    | touch i f hf =>
      intro t' ht'
      obtain ⟨t, ht, -, hsize, -⟩ := threads_mapThread hf 0 t' ht'
      rw [hsize]
      exact h0 t ht
    | take =>
      intro t ht
      rw [s.reapTake_spec.2.2.2.2.2.2] at ht
      split_ifs at ht
      exact h0 t ht
    | schedule hsched =>
      rcases scheduleRest_spec hsched with ⟨-, rfl, -⟩ | ⟨sw, t, rest, -, -, -, -, hthr, -⟩
      · exact h0
      · rwa [hthr]
    | exit _ hexit =>
      obtain ⟨t, rest, -, -, -, -, hthr, -⟩ := exitRest_spec hexit
      rwa [hthr]

/-- **Scheduler safety over every run.** -/
theorem scheduler_safe {pt : Frame} {rsp rsp0 : ℕ} {k : Kernel}
    (h : Runs.Reachable step (boot pt rsp rsp0) k) :
    k.sched.readyQueue.toList.Nodup ∧
    (∀ i ∈ k.sched.readyQueue.toList,
      k.sched.Occupied i ∧ i ≠ k.sched.current ∧ k.sched.zombie ≠ some i) ∧
    k.sched.Occupied k.sched.current ∧
    (k.sched.current = 0 ∨ 0 ∈ k.sched.readyQueue.toList) ∧
    -- the assertions
    (∀ a p, k.step a = .error (.panic p) → p ≠ .readyQueueFull ∧ p ≠ .currentThreadMissing ∧
      p ≠ .nextThreadMissing ∧ p ≠ .noOtherThread) ∧
    -- reaping
    (∀ a dead t, k.freesStack a = some dead → k.sched.threads k.running = some t →
      ∀ x, onStack t x → ¬ onStack dead x) ∧
    (∀ a dead t pt', k.freesTable a = some dead → dead.pageTable = some pt' →
      k.sched.threads k.running = some t → t.pageTable.getD k.sched.kernelPageTable ≠ pt') ∧
    -- exits: for ever out of the rotation, once past `interrupts::disable()` ...
    (∀ a k', a.exits = true → k.step a = .ok k' → ∀ k'', Runs.Reachable step k' k'' →
      k''.sched.slotGenerations k.running = k.sched.slotGenerations k.running →
      k''.sched.current ≠ k.running) ∧
    -- ... and inside `exit_current_thread` whenever current before that
    (∀ k', k.step .exitCall = .ok k' → ∀ k'', Runs.Reachable step k' k'' →
      k''.sched.slotGenerations k.running = k.sched.slotGenerations k.running →
      k''.sched.current = k.running → (k''.point k.running).exitBound = true) := by
  obtain ⟨hs, hc⟩ := inContext_of_reachable h
  have ho := owned_of_reachable h
  have hnd := hs.nodup
  rw [SchedulerState.rotation, List.nodup_cons] at hnd
  refine ⟨hnd.2, ?_, hs.occupied _ k.sched.current_mem_rotation, ?_, ?_, ?_, ?_, ?_, ?_⟩
  · intro i hi
    have hmem : i ∈ k.sched.rotation := List.mem_cons_of_mem _ hi
    refine ⟨hs.occupied i hmem, ?_, fun hz => hs.zombie_out i hz hmem⟩
    rintro rfl
    exact hnd.1 hi
  · have hboot := hs.boot
    rw [SchedulerState.rotation, List.mem_cons] at hboot
    exact hboot.imp_left Eq.symm
  · intro a p hp
    have := no_assertion_fires hs hp
    simpa only [assertions, List.mem_cons, List.not_mem_nil, or_false, not_or] using this
  · intro a dead t hf ht
    rw [hc.running] at ht
    refine reap_spares_stack ho hs hf ht (fun h0 => ?_)
    exact boot_stack_empty h t (h0 ▸ ht)
  · intro a dead t pt' hf hpt ht
    rw [hc.running] at ht
    exact reap_spares_table ho hs hf hpt ht
  · intro a k' ha hstep k'' hreach hgen hcur
    refine exited_never_current hs hc.running ha hstep hreach hgen ?_
    rw [← hcur]
    exact k''.sched.current_mem_rotation
  · intro k' hstep k'' hreach hgen hcur
    exact exit_only_finishes h hstep hreach hgen hcur

/-- Thread 1 runs and is about to call `exit_current_thread`. -/
def beforeExitRun : List Action :=
  [.spawn 0x10000 (.function 1), .yieldCall, .yieldRest 100, .trampoline]

theorem scheduler_safe_beforeExitRun :
    ∃ k, Runs.Reachable step (boot 1 0 0) k ∧ k.sched.current = 1 ∧
      k.sched.readyQueue.toList.Nodup := by
  obtain ⟨k, hk, h1⟩ := Runs.exists_reach_of_any step (fun _ _ => True) (boot 1 0 0)
    beforeExitRun (fun k => k.sched.current = 1) (by decide)
  exact ⟨k, hk, of_decide_eq_true h1, (scheduler_safe hk).1⟩

/-- **Having called `exit_current_thread` is not enough**: two ticks between its `reap_zombie()`
and its `interrupts::disable()` make the caller current again. -/
theorem current_again_after_exitCall :
    ∃ k k' k₁ k₂, Runs.Reachable step (boot 1 0 0) k ∧ k.running = 1 ∧
      k.step .exitCall = .ok k' ∧ Runs.Reachable step k' k₁ ∧ k₁.sched.current ≠ 1 ∧
      k₁.step (.tick 300) = .ok k₂ ∧ k₂.sched.current = 1 ∧
      k₂.sched.slotGenerations 1 = k.sched.slotGenerations 1 := by
  obtain ⟨k, hk, ht⟩ := Runs.exists_reach_of_any step (fun _ _ => True) (boot 1 0 0)
    beforeExitRun (fun k => k.running = 1 && (k.step .exitCall).toOption.any fun k' =>
      (Runs.runWhile step (fun _ _ => True) k' [.tick 200]).any fun k₁ =>
        k₁.sched.current != 1 && (k₁.step (.tick 300)).toOption.any fun k₂ =>
          k₂.sched.current == 1 && k₂.sched.slotGenerations 1 == k.sched.slotGenerations 1)
    (by decide)
  rw [Bool.and_eq_true, decide_eq_true_eq] at ht
  obtain ⟨k', hk', ht'⟩ := Runs.exists_ok_of_any _ ht.2
  obtain ⟨k₁, hk₁, ht₁⟩ := Runs.exists_reach_of_any step (fun _ _ => True) k' _ _ ht'
  rw [Bool.and_eq_true, bne_iff_ne] at ht₁
  obtain ⟨k₂, hk₂, ht₂⟩ := Runs.exists_ok_of_any _ ht₁.2
  rw [Bool.and_eq_true, beq_iff_eq, beq_iff_eq] at ht₂
  exact ⟨k, k', k₁, k₂, hk, ht.1, hk', hk₁, ht₁.1, hk₂, ht₂.1, ht₂.2⟩

end Kernel
