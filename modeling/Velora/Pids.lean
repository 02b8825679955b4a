/-
# Pids are unique handles

A pid packs a slot of the thread table with the generation the slot had when the
pid was issued.  Generations count how often a slot has been populated
(`generation_eq_tally`), so within `2 ^ 56` spawns a slot the packing is exact and a
pid names one thread of the whole run: it is alive from its spawn up to the very
reap that clears its slot (`alive_iff_not_reaped`), however often the slot is
populated again.

`sys_wait` polls `thread_alive`; it is modelled by the scheduler states its polls
observe.
-/
import Velora.Context

/-! ## Packing -/

theorem packPid_toNat (slot : ThreadId) {g : UInt64} (hg : g.toNat < 2 ^ 56) :
    (packPid slot g).toNat = 2 ^ 8 * g.toNat + slot.val := by
  have hslot : slot.val < 2 ^ 8 := lt_trans slot.isLt (by norm_num)
  have hshift : (g <<< 8).toNat = 2 ^ 8 * g.toNat := by
    rw [UInt64.toNat_shiftLeft, Nat.shiftLeft_eq]
    have : (8 : UInt64).toNat % 64 = 8 := rfl
    rw [this, Nat.mod_eq_of_lt (by omega)]
    omega
  rw [packPid, UInt64.toNat_or, hshift, UInt64.toNat_ofNat_of_lt' (lt_trans hslot (by decide)),
    Nat.two_pow_add_eq_or_of_lt hslot]

theorem unpackPid_eq (pid : Pid) :
    (unpackPid pid).1 = pid.toNat % 2 ^ 8 ∧ (unpackPid pid).2.toNat = pid.toNat / 2 ^ 8 := by
  constructor
  · show (pid &&& 0xFF).toNat = _
    rw [UInt64.toNat_and, show (0xFF : UInt64).toNat = 2 ^ 8 - 1 from rfl,
      Nat.and_two_pow_sub_one_eq_mod]
  · show (pid >>> 8).toNat = _
    rw [UInt64.toNat_shiftRight, Nat.shiftRight_eq_div_pow]
    rfl

/-- **Unpacking undoes packing**, for generations below `2 ^ 56`. -/
theorem unpackPid_packPid {slot : ThreadId} {g : UInt64} (hg : g.toNat < 2 ^ 56) :
    unpackPid (packPid slot g) = (slot.val, g) := by
  obtain ⟨h1, h2⟩ := unpackPid_eq (packPid slot g)
  rw [packPid_toNat slot hg] at h1 h2
  have hslot : slot.val < 2 ^ 8 := lt_trans slot.isLt (by norm_num)
  refine Prod.ext ?_ (UInt64.toNat_inj.mp ?_)
  · rw [h1]
    show _ = slot.val
    omega
  · rw [h2]
    show _ = g.toNat
    omega

/-- Packing undoes unpacking, for a slot of the table. -/
theorem packPid_unpackPid {pid : Pid} {slot : ThreadId} (h : (unpackPid pid).1 = slot.val) :
    pid = packPid slot (unpackPid pid).2 := by
  obtain ⟨h1, h2⟩ := unpackPid_eq pid
  have hlt := pid.toNat_lt
  refine UInt64.toNat_inj.mp ?_
  rw [packPid_toNat slot (by rw [h2]; omega), h2, ← h, h1]
  omega

/-- No packed pid is the error value of `sys_spawn`. -/
theorem packPid_ne_max {slot : ThreadId} {g : UInt64} (hg : g.toNat < 2 ^ 56) :
    packPid slot g ≠ 0xFFFFFFFFFFFFFFFF := by
  intro h
  have hnat := packPid_toNat slot hg
  have hslot : slot.val < 16 := slot.isLt
  rw [h, show (0xFFFFFFFFFFFFFFFF : UInt64).toNat = 2 ^ 64 - 1 from rfl] at hnat
  omega

/-! ## `thread_alive` and `sys_wait` -/

namespace SchedulerState

/-- **`thread_alive` never indexes out of range**, and tells whether the pid unpacks to an
occupied slot and that slot's current generation. -/
theorem threadAlive_eq (s : SchedulerState) (pid : Pid) :
    ∃ b, s.threadAlive pid = .ok b ∧ (b = true ↔ ∃ slot : ThreadId,
      (unpackPid pid).1 = slot.val ∧ s.Occupied slot ∧
        s.slotGenerations slot = (unpackPid pid).2) := by
  unfold threadAlive
  rcases hu : unpackPid pid with ⟨slot, g⟩
  by_cases hslot : slot < maxThreads
  · simp only [if_pos hslot, indexArray, dif_pos hslot, bind, Except.bind, pure, Except.pure]
    have hslots : ∀ i : ThreadId, slot = i.val ↔ i = ⟨slot, hslot⟩ := by
      intro i
      rw [Fin.ext_iff]
      exact eq_comm
    by_cases hocc : (s.threads ⟨slot, hslot⟩).isSome = true
    · rw [if_pos hocc]
      refine ⟨_, rfl, ?_⟩
      simp only [hslots, exists_eq_left, beq_iff_eq]
      exact ⟨fun h => ⟨hocc, h⟩, fun h => h.2⟩
    · rw [if_neg hocc]
      refine ⟨_, rfl, ?_⟩
      simp only [hslots, exists_eq_left, Bool.false_eq_true, false_iff]
      exact fun h => hocc h.1
  · refine ⟨false, if_neg hslot, ?_⟩
    simp only [Bool.false_eq_true, false_iff]
    rintro ⟨i, rfl, -⟩
    exact hslot i.isLt

/-- A pid that was packed for a slot is alive while the slot keeps its generation and its
thread. -/
theorem threadAlive_packPid (s : SchedulerState) (slot : ThreadId) {g : UInt64}
    (hg : g.toNat < 2 ^ 56) : ∃ b, s.threadAlive (packPid slot g) = .ok b ∧
      (b = true ↔ s.Occupied slot ∧ s.slotGenerations slot = g) := by
  obtain ⟨b, hb, hiff⟩ := s.threadAlive_eq (packPid slot g)
  refine ⟨b, hb, ?_⟩
  rw [hiff, unpackPid_packPid hg]
  constructor
  · rintro ⟨i, hi, hocc⟩
    rw [Fin.val_inj.mp hi]
    exact hocc
  · rintro ⟨hocc, hgen⟩
    exact ⟨slot, rfl, hocc, hgen⟩

/-- The loop of `sys_wait`, over the states its polls of `thread_alive` observe; `none` while it
is still polling. -/
def waitLoop (pid : Pid) : List SchedulerState → Except Panic (Option UInt64)
  | [] => .ok none
  | s :: observed => do
    if ← s.threadAlive pid then waitLoop pid observed else return some 0

/-- `sys_wait` -/
def sysWait (pid : Pid) : List SchedulerState → Except Panic (Option UInt64)
  | [] => .ok none
  | s :: observed => do
    if !(← s.threadAlive pid) then return some 0xFFFFFFFFFFFFFFFF else waitLoop pid observed

theorem waitLoop_append {pid : Pid} {observed : List SchedulerState} {s : SchedulerState}
    (h : waitLoop pid observed = .ok none)
    (h0 : waitLoop pid (observed ++ [s]) = .ok (some 0)) : s.threadAlive pid = .ok false := by
  induction observed with
  | nil =>
    obtain ⟨b, hb, h0⟩ := bind_eq_ok h0
    cases b with
    | false => exact hb
    | true => cases h0
  | cons o observed ih =>
    rw [List.cons_append] at h0
    obtain ⟨b, hb, h0⟩ := bind_eq_ok h0
    obtain ⟨b', hb', h⟩ := bind_eq_ok h
    rw [hb] at hb'
    cases hb'
    cases b with
    | false => cases h
    | true => exact ih h h0

/-- **The poll on which `sys_wait` returns 0 found the thread gone.** -/
theorem sysWait_zero {pid : Pid} {observed : List SchedulerState} {s : SchedulerState}
    (h : sysWait pid observed = .ok none) (h0 : sysWait pid (observed ++ [s]) = .ok (some 0)) :
    s.threadAlive pid = .ok false := by
  cases observed with
  | nil =>
    obtain ⟨b, hb, h0⟩ := bind_eq_ok h0
    cases b with
    | false => exact hb
    | true => cases h0
  | cons o observed =>
    rw [List.cons_append] at h0
    obtain ⟨b, hb, h0⟩ := bind_eq_ok h0
    obtain ⟨b', hb', h⟩ := bind_eq_ok h
    rw [hb] at hb'
    cases hb'
    cases b with
    | false => cases h
    | true => exact waitLoop_append h h0

end SchedulerState

namespace Kernel

open SchedulerState

/-! ## What a step does to the slots -/

/-- The step populates slot `id`; if it issues a pid, the pid is packed from the slot and its
new generation. -/
structure Populates (k k' : Kernel) (id : ThreadId) : Prop where
  free : k.sched.threads id = none
  occupied : ∀ i, (k'.sched.threads i).isSome = if i = id then true else (k.sched.threads i).isSome
  generation : (k'.sched.slotGenerations id).toNat = (k.sched.slotGenerations id).toNat + 1
  others : ∀ i, i ≠ id → k'.sched.slotGenerations i = k.sched.slotGenerations i
  issued : k'.issued = k.issued ∨
    k'.issued = packPid id (k'.sched.slotGenerations id) :: k.issued

/-- The step populates no slot: at most it empties the zombie's. -/
structure MayReap (k k' : Kernel) : Prop where
  occupied : ∀ i, (k'.sched.threads i).isSome = (k.sched.threads i).isSome ∨
    (k.sched.zombie = some i ∧ (k.sched.threads i).isSome ∧ (k'.sched.threads i).isSome = false)
  generations : k'.sched.slotGenerations = k.sched.slotGenerations
  issued : k'.issued = k.issued

theorem populates_of_install {k k' : Kernel} {t : Thread} {id : ThreadId} {s : SchedulerState}
    (hi : k.sched.install t = .ok (id, s)) (hsched : k'.sched = s)
    (hissued : k'.issued = k.issued ∨ k'.issued = packPid id (s.slotGenerations id) :: k.issued) :
    Populates k k' id := by
  obtain ⟨hfree, hthr, -, -, -, -, hlt, hgen⟩ := install_spec hi
  refine ⟨hfree, ?_, ?_, ?_, by rw [hsched]; exact hissued⟩
  · intro i
    rw [hsched, hthr]
    by_cases h : i = id
    · subst h
      simp
    · rw [Function.update_of_ne h, if_neg h]
  · rw [hsched, hgen, Function.update_self, UInt64.toNat_add]
    exact Nat.mod_eq_of_lt hlt
  · intro i h
    rw [hsched, hgen, Function.update_of_ne h]

/-- A decision leaves all slots as they are. -/
theorem slots_of_scheduleRest {k k' : Kernel} {rsp : ℕ} (h : k.scheduleRest rsp = .ok k') :
    (∀ i, (k'.sched.threads i).isSome = (k.sched.threads i).isSome) ∧
      k'.sched.slotGenerations = k.sched.slotGenerations ∧ k'.issued = k.issued := by
  unfold scheduleRest at h
  obtain ⟨⟨o, s⟩, hs, h⟩ := bind_eq_ok h
  rcases scheduleRest_spec hs with
    ⟨rfl, rfl, -⟩ | ⟨sw, t, rest, rfl, -, -, -, hthr, -, -, hgen, -⟩
  · cases h
    exact ⟨fun _ => rfl, rfl, rfl⟩
  · cases h
    refine ⟨fun i => ?_, hgen, rfl⟩
    rw [← hthr]
    exact isSome_mapThread s sw.previous _ i

theorem slots_of_exitRest {k k' : Kernel} {rsp : ℕ} (h : k.exitRest rsp = .ok k') :
    (∀ i, (k'.sched.threads i).isSome = (k.sched.threads i).isSome) ∧
      k'.sched.slotGenerations = k.sched.slotGenerations ∧ k'.issued = k.issued := by
  unfold exitRest at h
  obtain ⟨⟨sw, s⟩, hs, h⟩ := bind_eq_ok h
  cases h
  obtain ⟨t, rest, -, -, -, -, hthr, -, -, hgen, -⟩ := exitRest_spec hs
  refine ⟨fun i => ?_, hgen, rfl⟩
  rw [← hthr]
  exact isSome_mapThread s sw.previous _ i

/-- A reap empties the zombie's slot and no other. -/
theorem mayReap_of_take {k k' : Kernel}
    (hocc : ∀ i, (k'.sched.threads i).isSome = (k.sched.reapTake.2.threads i).isSome)
    (hgen : k'.sched.slotGenerations = k.sched.reapTake.2.slotGenerations)
    (hissued : k'.issued = k.issued) : MayReap k k' := by
  obtain ⟨-, -, -, -, hgen', -, hthr⟩ := k.sched.reapTake_spec
  refine ⟨fun i => ?_, hgen.trans hgen', hissued⟩
  rw [hocc, hthr]
  by_cases hz : k.sched.zombie = some i
  · rw [if_pos hz]
    cases ht : k.sched.threads i with
    | none => exact Or.inl rfl
    | some t => exact Or.inr ⟨hz, rfl, rfl⟩
  · rw [if_neg hz]
    exact Or.inl rfl

/-- A step that changes no slot is one that may reap. -/
theorem mayReap_of_eq {k k' : Kernel}
    (hocc : ∀ i, (k'.sched.threads i).isSome = (k.sched.threads i).isSome)
    (hgen : k'.sched.slotGenerations = k.sched.slotGenerations)
    (hissued : k'.issued = k.issued) : MayReap k k' :=
  ⟨fun i => Or.inl (hocc i), hgen, hissued⟩

/-- **Every step populates one slot or at most reaps the zombie.** -/
theorem step_slots {k k' : Kernel} {a : Action} (h : k.step a = .ok k') :
    (∃ id, Populates k k' id) ∨ MayReap k k' := by
  obtain ⟨-, h⟩ := step_eq_ok h
  have hz : ∀ i, (k.reapZombie.sched.threads i).isSome =
      (k.sched.reapTake.2.threads i).isSome := fun i => by rw [reapZombie_sched]
  obtain ⟨-, -, -, hissued, -⟩ := k.reapZombie_spec
  cases a with
  | spawn base e =>
    obtain ⟨-, -, id, s, hi, rfl⟩ := perform_spawn_eq_ok h
    exact Or.inl ⟨id, populates_of_install hi rfl (Or.inl rfl)⟩
  | spawnIsolated base e pt =>
    obtain ⟨-, -, -, id, s, hi, rfl⟩ := perform_spawnIsolated_eq_ok h
    exact Or.inl ⟨id, populates_of_install hi rfl (Or.inr rfl)⟩
  | spawnUser base u pt =>
    obtain ⟨-, -, -, id, s, hi, rfl⟩ := perform_spawnUser_eq_ok h
    exact Or.inl ⟨id, populates_of_install hi rfl (Or.inr rfl)⟩
  | trampoline =>
    obtain ⟨⟨e, s⟩, hs, h⟩ := bind_eq_ok h
    cases h
    rw [takeEntry_eq_ok (orPanic_eq_ok hs)]
    exact Or.inr (mayReap_of_eq (isSome_mapThread _ _ _) rfl rfl)
  | ring3Trampoline =>
    obtain ⟨⟨e, s⟩, hs, h⟩ := bind_eq_ok h
    cases h
    rw [takeUserEntry_eq_ok (orPanic_eq_ok hs)]
    exact Or.inr (mayReap_of_eq (isSome_mapThread _ _ _) rfl rfl)
  | enterRing3 =>
    cases h
    exact Or.inr (mayReap_of_eq (fun _ => rfl) rfl rfl)
  | yieldCall =>
    cases h
    obtain ⟨p, hp, -⟩ := k.reapCall_spec .schedule
    rw [hp]
    exact Or.inr (mayReap_of_take (fun _ => rfl) rfl rfl)
  | exitCall =>
    cases h
    obtain ⟨p, hp, -⟩ := k.reapCall_spec .exit
    rw [hp]
    exact Or.inr (mayReap_of_take (fun _ => rfl) rfl rfl)
  | reapStep =>
    obtain ⟨c, dead, stage, -, rfl⟩ := perform_reapStep_eq_ok h
    refine Or.inr (mayReap_of_eq (fun i => ?_) ?_ ?_)
    · rw [goto_sched, reapEffect_sched]
    · rw [goto_sched, reapEffect_sched]
    · cases stage with
      | freeSpace => unfold reapEffect goto; cases dead.pageTable <;> rfl
      | _ => rfl
  | yieldRest rsp =>
    obtain ⟨h1, h2, h3⟩ := slots_of_scheduleRest (orPanic_eq_ok h)
    exact Or.inr (mayReap_of_eq h1 h2 h3)
  | exitRest rsp =>
    obtain ⟨h1, h2, h3⟩ := slots_of_exitRest (orPanic_eq_ok h)
    exact Or.inr (mayReap_of_eq h1 h2 h3)
  | tick rsp =>
    obtain ⟨h1, h2, h3⟩ := slots_of_scheduleRest (orPanic_eq_ok h)
    exact Or.inr (mayReap_of_take (fun i => (h1 i).trans (hz i))
      (h2.trans (by rw [reapZombie_sched])) (h3.trans hissued))
  | sysYield rsp =>
    obtain ⟨h1, h2, h3⟩ := slots_of_scheduleRest (orPanic_eq_ok h)
    exact Or.inr (mayReap_of_take (fun i => (h1 i).trans (hz i))
      (h2.trans (by rw [reapZombie_sched])) (h3.trans hissued))
  | sysExit rsp =>
    obtain ⟨h1, h2, h3⟩ := slots_of_exitRest (orPanic_eq_ok h)
    exact Or.inr (mayReap_of_take (fun i => (h1 i).trans (hz i))
      (h2.trans (by rw [reapZombie_sched])) (h3.trans hissued))

/-! ## Generations count -/

/-- Between two states slot `i` goes from free to occupied. -/
def populated (i : ThreadId) (k k' : Kernel) : Bool :=
  (k.sched.threads i).isNone && (k'.sched.threads i).isSome

/-- A step raises the generation of a slot by one exactly if it populates it. -/
theorem step_generation {k k' : Kernel} {a : Action} (h : k.step a = .ok k') (i : ThreadId) :
    (k'.sched.slotGenerations i).toNat =
      (k.sched.slotGenerations i).toNat + if populated i k k' then 1 else 0 := by
  rcases step_slots h with ⟨id, hp⟩ | hr
  · by_cases hid : i = id
    · subst hid
      have hpop : populated i k k' = true := by simp [populated, hp.free, hp.occupied]
      rw [hpop, if_pos rfl]
      exact hp.generation
    · have hpop : populated i k k' = false := by
        rw [populated, hp.occupied, if_neg hid]
        cases k.sched.threads i <;> rfl
      rw [hpop, hp.others i hid]
      rfl
  · have hpop : populated i k k' = false := by
      rw [populated]
      rcases hr.occupied i with h | ⟨-, h, h'⟩
      · rw [h]
        cases k.sched.threads i <;> rfl
      · rw [h']
        exact Bool.and_false _
    rw [hpop, hr.generations]
    rfl

/-- **A slot's generation is the number of times it has been populated.** -/
theorem generation_eq_tally {k k' : Kernel} {as : List Action} (h : Runs.run step k as = .ok k')
    (i : ThreadId) : (k'.sched.slotGenerations i).toNat =
      (k.sched.slotGenerations i).toNat + Runs.Tally step (populated i) k as := by
  induction as generalizing k with
  | nil =>
    cases h
    rfl
  | cons a as ih =>
    obtain ⟨k₁, hs, hr⟩ := Runs.run_cons_eq_ok h
    rw [Runs.tally_cons hs, ih hr, step_generation hs i]
    omega

/-- With fewer than `2 ^ 56` spawns per slot, every generation stays below `2 ^ 56`. -/
theorem generation_lt {pt : Frame} {rsp rsp0 : ℕ} {k : Kernel} {as : List Action}
    (h : Runs.run step (boot pt rsp rsp0) as = .ok k)
    (hfew : ∀ i, Runs.Tally step (populated i) (boot pt rsp rsp0) as < 2 ^ 56) (i : ThreadId) :
    (k.sched.slotGenerations i).toNat < 2 ^ 56 := by
  rw [generation_eq_tally h i]
  by_cases hi : i = 0
  · -- slot 0 is never free, so it keeps its first generation
    subst hi
    have hzero : Runs.Tally step (populated 0) (boot pt rsp rsp0) as = 0 := by
      have key : ∀ k₀ : Kernel, k₀.sched.Safe → ∀ k₁, Runs.run step k₀ as = .ok k₁ →
          Runs.Tally step (populated 0) k₀ as = 0 := by
        clear h hfew
        induction as with
        | nil => intros; rfl
        | cons a as ih =>
          intro k₀ hs k₁ hr
          obtain ⟨k₂, hstep, hr⟩ := Runs.run_cons_eq_ok hr
          have hs₂ : k₂.sched.Safe := step_preserves (P := fun _ => True)
            (fun _ _ hc => hc.safe) (fun _ _ => trivial) (fun _ _ => trivial) hstep hs
          have hocc : (k₀.sched.threads 0).isNone = false :=
            Option.isNone_eq_false_iff.mpr (hs.occupied 0 hs.boot)
          rw [Runs.tally_cons hstep, ih k₂ hs₂ k₁ hr, populated, hocc]
          rfl
      exact key _ (init_safe pt) k h
    rw [hzero]
    show (1 : UInt64).toNat + 0 < 2 ^ 56
    decide
  · have hinit : (boot pt rsp rsp0).sched.slotGenerations i = 0 := by
      simp [boot, init, hi]
    rw [hinit]
    have := hfew i
    simpa using this

/-! ## Issued pids -/

/-- Issued pids are distinct and packed from generations their slots have had, as long as
generations fit. -/
def IssuedOk (k : Kernel) : Prop :=
  (∀ i, (k.sched.slotGenerations i).toNat < 2 ^ 56) →
    k.issued.Nodup ∧ ∀ pid ∈ k.issued, ∃ slot g, pid = packPid slot g ∧
      g.toNat ≤ (k.sched.slotGenerations slot).toNat

theorem step_issuedOk {k k' : Kernel} {a : Action} (h : k.step a = .ok k') (hk : IssuedOk k) :
    IssuedOk k' := by
  intro hfit
  have hmono : ∀ i, (k.sched.slotGenerations i).toNat ≤ (k'.sched.slotGenerations i).toNat := by
    intro i
    rw [step_generation h i]
    omega
  obtain ⟨hnd, hpids⟩ := hk (fun i => lt_of_le_of_lt (hmono i) (hfit i))
  have hold : ∀ pid ∈ k.issued, ∃ slot g, pid = packPid slot g ∧
      g.toNat ≤ (k'.sched.slotGenerations slot).toNat := by
    intro pid hpid
    obtain ⟨slot, g, hpack, hle⟩ := hpids pid hpid
    exact ⟨slot, g, hpack, hle.trans (hmono slot)⟩
  rcases step_slots h with ⟨id, hp⟩ | hr
  · rcases hp.issued with hi | hi
    · rw [hi]
      exact ⟨hnd, hold⟩
    · rw [hi]
      refine ⟨List.nodup_cons.mpr ⟨?_, hnd⟩, ?_⟩
      · -- an older pid of the same slot has a smaller generation
        intro hmem
        obtain ⟨slot, g, hpack, hle⟩ := hpids _ hmem
        have hg : g.toNat < 2 ^ 56 :=
          lt_of_le_of_lt (hle.trans (hmono slot)) (hfit slot)
        have hunpack := congrArg unpackPid hpack
        rw [unpackPid_packPid (hfit id), unpackPid_packPid hg, Prod.mk.injEq] at hunpack
        rw [← Fin.val_inj.mp hunpack.1, ← hunpack.2, hp.generation] at hle
        omega
      · intro pid hpid
        rcases List.mem_cons.mp hpid with rfl | hpid
        · exact ⟨id, _, rfl, le_rfl⟩
        · exact hold pid hpid
  · rw [hr.issued]
    exact ⟨hnd, hold⟩

theorem issuedOk_of_reachable {pt : Frame} {rsp rsp0 : ℕ} {k : Kernel}
    (h : Runs.Reachable step (boot pt rsp rsp0) k) : IssuedOk k := by
  refine h.invariant (I := IssuedOk) ?_ (fun k a k' hk _ hs => step_issuedOk hs hk)
  intro _
  exact ⟨List.nodup_nil, fun pid hpid => absurd hpid List.not_mem_nil⟩

/-! ## One thread, one handle -/

/-- Between two states `reap_zombie` clears slot `i`, which held its thread of generation `g`. -/
def Reaped (i : ThreadId) (g : UInt64) (k k' : Kernel) : Prop :=
  k.sched.zombie = some i ∧ k.sched.Occupied i ∧ k.sched.slotGenerations i = g ∧
    ¬ k'.sched.Occupied i

/-- The thread of generation `g` is in its slot. -/
def Present (i : ThreadId) (g : UInt64) (k : Kernel) : Prop :=
  k.sched.Occupied i ∧ k.sched.slotGenerations i = g

/-- It has left it for good. -/
def Departed (i : ThreadId) (g : UInt64) (k : Kernel) : Prop :=
  (¬ k.sched.Occupied i ∧ k.sched.slotGenerations i = g) ∨
    g.toNat < (k.sched.slotGenerations i).toNat

theorem Departed.not_present {i : ThreadId} {g : UInt64} {k : Kernel} (h : Departed i g k) :
    ¬ Present i g k := by
  rintro ⟨hocc, hgen⟩
  rcases h with ⟨hno, -⟩ | hlt
  · exact hno hocc
  · rw [hgen] at hlt
    omega

/-- A thread stays in its slot up to the step that reaps it. -/
theorem step_present {k k' : Kernel} {a : Action} {i : ThreadId} {g : UInt64}
    (h : k.step a = .ok k') (hp : Present i g k) :
    (Present i g k' ∧ ¬ Reaped i g k k') ∨ (Departed i g k' ∧ Reaped i g k k') := by
  obtain ⟨hocc, hgen⟩ := hp
  rcases step_slots h with ⟨id, hpop⟩ | hr
  · have hid : i ≠ id := by
      rintro rfl
      rw [Occupied, hpop.free] at hocc
      cases hocc
    have hocc' : k'.sched.Occupied i := by
      rw [Occupied, hpop.occupied, if_neg hid]
      exact hocc
    exact Or.inl ⟨⟨hocc', (hpop.others i hid).trans hgen⟩, fun hreap => hreap.2.2.2 hocc'⟩
  · rcases hr.occupied i with hsame | ⟨hz, -, hnone⟩
    · have hocc' : k'.sched.Occupied i := by
        rw [Occupied, hsame]
        exact hocc
      exact Or.inl ⟨⟨hocc', by rw [hr.generations]; exact hgen⟩,
        fun hreap => hreap.2.2.2 hocc'⟩
    · have hno : ¬ k'.sched.Occupied i := by
        rw [Occupied, hnone]
        exact Bool.false_ne_true
      exact Or.inr ⟨Or.inl ⟨hno, by rw [hr.generations]; exact hgen⟩, hz, hocc, hgen, hno⟩

/-- A departed thread never comes back, however often the slot is populated. -/
theorem step_departed {k k' : Kernel} {a : Action} {i : ThreadId} {g : UInt64}
    (h : k.step a = .ok k') (hd : Departed i g k) : Departed i g k' := by
  rcases hd with ⟨hno, hgen⟩ | hlt
  · rcases step_slots h with ⟨id, hpop⟩ | hr
    · by_cases hid : i = id
      · subst hid
        refine Or.inr ?_
        rw [hpop.generation, hgen]
        omega
      · refine Or.inl ⟨?_, (hpop.others i hid).trans hgen⟩
        rw [Occupied, hpop.occupied, if_neg hid]
        exact hno
    · refine Or.inl ⟨?_, by rw [hr.generations]; exact hgen⟩
      rcases hr.occupied i with hsame | ⟨-, hocc, -⟩
      · rw [Occupied, hsame]
        exact hno
      · exact absurd hocc hno
  · refine Or.inr ?_
    rw [step_generation h i]
    omega

theorem run_departed {k k' : Kernel} {as : List Action} {i : ThreadId} {g : UInt64}
    (h : Runs.run step k as = .ok k') (hd : Departed i g k) : Departed i g k' :=
  (Runs.reachable_of_run h).invariant (I := Departed i g) hd
    (fun _ _ _ hk _ hs => step_departed hs hk)

/-- **Along a run, a thread is in its slot exactly as long as it has not been reaped.** -/
theorem run_present {k k' : Kernel} {as : List Action} {i : ThreadId} {g : UInt64}
    (h : Runs.run step k as = .ok k') (hp : Present i g k) :
    Present i g k' ↔ ¬ Runs.Seen step (Reaped i g) k as := by
  induction as generalizing k with
  | nil =>
    cases h
    exact ⟨fun _ hs => hs, fun _ => hp⟩
  | cons a as ih =>
    obtain ⟨k₁, hs, hr⟩ := Runs.run_cons_eq_ok h
    rw [Runs.seen_cons hs, not_or]
    rcases step_present hs hp with ⟨hp₁, hnot⟩ | ⟨hd, hreap⟩
    · rw [ih hr hp₁]
      exact ⟨fun hrest => ⟨hnot, hrest⟩, fun hrest => hrest.2⟩
    · constructor
      · intro hpres
        exact absurd hpres (run_departed hr hd).not_present
      · intro hc
        exact absurd hreap hc.1

/-- **`thread_alive` on an issued pid** is true from the spawn up to the reap that clears the
thread's slot, and false from then on. -/
theorem alive_iff_not_reaped {k k' : Kernel} {as : List Action} {i : ThreadId} {g : UInt64}
    (h : Runs.run step k as = .ok k') (hp : Present i g k) (hg : g.toNat < 2 ^ 56) :
    ∃ b, k'.sched.threadAlive (packPid i g) = .ok b ∧
      (b = true ↔ ¬ Runs.Seen step (Reaped i g) k as) := by
  obtain ⟨b, hb, hiff⟩ := k'.sched.threadAlive_packPid i hg
  exact ⟨b, hb, hiff.trans (run_present h hp)⟩

/-- A step that issues a pid puts the thread it names into a free slot. -/
theorem step_issues {k k' : Kernel} {a : Action} {pid : Pid} (h : k.step a = .ok k')
    (hi : k'.issued = pid :: k.issued) :
    ∃ slot, k.sched.threads slot = none ∧ pid = packPid slot (k'.sched.slotGenerations slot) ∧
      Present slot (k'.sched.slotGenerations slot) k' := by
  rcases step_slots h with ⟨id, hp⟩ | hr
  · rcases hp.issued with hold | hnew
    · rw [hold] at hi
      exact absurd hi.symm (List.cons_ne_self _ _)
    · rw [hnew] at hi
      refine ⟨id, hp.free, (List.cons.inj hi).1.symm, ?_, rfl⟩
      rw [Occupied, hp.occupied, if_pos rfl]
  · rw [hr.issued] at hi
    exact absurd hi.symm (List.cons_ne_self _ _)

/-- **Pids are unique handles**, in every run with fewer than `2 ^ 56` spawns per slot. -/
theorem pids_unique_handles {pt : Frame} {rsp rsp0 : ℕ} {k : Kernel} {as : List Action}
    (hrun : Runs.run step (boot pt rsp rsp0) as = .ok k)
    (hfew : ∀ i, Runs.Tally step (populated i) (boot pt rsp rsp0) as < 2 ^ 56) :
    -- the pids handed out
    k.issued.Nodup ∧ (∀ pid ∈ k.issued, pid ≠ 0xFFFFFFFFFFFFFFFF) ∧
    -- a pid issued by the step `a` of the run, at every later moment of it
    (∀ as₁ a bs cs k₁ k₂ k₃ pid, as = as₁ ++ a :: (bs ++ cs) →
      Runs.run step (boot pt rsp rsp0) as₁ = .ok k₁ → k₁.step a = .ok k₂ →
      k₂.issued = pid :: k₁.issued → Runs.run step k₂ bs = .ok k₃ →
      ∃ slot g, pid = packPid slot g ∧ k₁.sched.threads slot = none ∧ Present slot g k₂ ∧
        (k₃.sched.threadAlive pid = .ok true ↔ ¬ Runs.Seen step (Reaped slot g) k₂ bs) ∧
        (k₃.sched.threadAlive pid = .ok false ↔ Runs.Seen step (Reaped slot g) k₂ bs) ∧
        -- the poll on which `sys_wait` returns 0 comes after that reap
        (∀ observed, sysWait pid observed = .ok none →
          sysWait pid (observed ++ [k₃.sched]) = .ok (some 0) →
          Runs.Seen step (Reaped slot g) k₂ bs)) ∧
    -- a forged value
    (∀ pid, ∃ b, k.sched.threadAlive pid = .ok b ∧ (b = true →
      ∃ slot, pid = packPid slot (k.sched.slotGenerations slot) ∧ k.sched.Occupied slot)) := by
  have hfit := generation_lt hrun hfew
  obtain ⟨hnd, hpids⟩ := issuedOk_of_reachable (Runs.reachable_of_run hrun) hfit
  refine ⟨hnd, ?_, ?_, ?_⟩
  · intro pid hpid
    obtain ⟨slot, g, rfl, hle⟩ := hpids pid hpid
    exact packPid_ne_max (lt_of_le_of_lt hle (hfit slot))
  · intro as₁ a bs cs k₁ k₂ k₃ pid has hr₁ hs hissued hr₂
    subst has
    obtain ⟨slot, hfree, rfl, hpres⟩ := step_issues hs hissued
    have hg : (k₂.sched.slotGenerations slot).toNat < 2 ^ 56 := by
      -- generations only grow along the rest of the run
      obtain ⟨k₁', hr₁', hrest⟩ := Runs.run_append_eq_ok hrun
      rw [hr₁] at hr₁'
      cases hr₁'
      obtain ⟨k₂', hs', hrest⟩ := Runs.run_cons_eq_ok hrest
      rw [hs] at hs'
      cases hs'
      have := generation_eq_tally hrest slot
      have := hfit slot
      omega
    obtain ⟨b, hb, hiff⟩ := alive_iff_not_reaped hr₂ hpres hg
    have hfalse : k₃.sched.threadAlive (packPid slot (k₂.sched.slotGenerations slot)) =
        .ok false ↔ Runs.Seen step (Reaped slot (k₂.sched.slotGenerations slot)) k₂ bs := by
      rw [hb]
      cases b with
      | true => exact ⟨fun h => (Bool.noConfusion (Except.ok.inj h)), fun h => absurd h (hiff.mp rfl)⟩
      | false =>
        refine ⟨fun _ => ?_, fun _ => rfl⟩
        by_contra hc
        exact absurd (hiff.mpr hc) Bool.false_ne_true
    refine ⟨slot, _, rfl, hfree, hpres, ?_, hfalse, ?_⟩
    · rw [hb, Except.ok.injEq, hiff]
    · intro observed hpoll hzero
      exact hfalse.mp (sysWait_zero hpoll hzero)
  · intro pid
    obtain ⟨b, hb, hiff⟩ := k.sched.threadAlive_eq pid
    refine ⟨b, hb, fun htrue => ?_⟩
    obtain ⟨slot, hslot, hocc, hgen⟩ := hiff.mp htrue
    refine ⟨slot, ?_, hocc⟩
    rw [hgen]
    exact packPid_unpackPid hslot

/-- An isolated thread is spawned, exits, is reaped, and its slot is populated again. -/
def slotReusedRun : List Action :=
  [.spawnIsolated 0x10000 (.function 1) 7, .yieldCall, .yieldRest 100, .trampoline, .exitCall,
   .exitRest 200, .tick 300, .spawnIsolated 0x10000 (.function 2) 7]

theorem pids_unique_handles_slotReusedRun :
    ∃ k, Runs.run step (boot 1 0 0) slotReusedRun = .ok k ∧ k.issued = [0x201, 0x101] ∧
      k.issued.Nodup := by
  obtain ⟨k, hk, ht⟩ := Runs.exists_ok_of_any (x := Runs.run step (boot 1 0 0) slotReusedRun)
    (fun k => k.issued == [0x201, 0x101]) (by decide)
  exact ⟨k, hk, beq_iff_eq.mp ht, (pids_unique_handles hk (by decide)).1⟩

end Kernel
