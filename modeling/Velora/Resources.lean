/-
# Who holds a stack, who holds a page table

Every kernel stack and every level-4 table in use has exactly one holder (`Owned`):
an occupied slot of the thread table, or the local variable of a `reap_zombie` that
is still at work.  A spawn grants, the locked half of a reap moves a holding from
the slot to the reaper, and the stages of the unlocked half release it, whatever
ticks come between them.

Both resources go through the same life, so the lemmas about single moves are
stated once, for any resource a record names (`holding`).
-/
import Velora.Ownership
import Velora.Context

open Ownership

/-! ## Holders of stacks and page tables -/

/-- The stack a record names; the boot thread's record names none. -/
def Thread.stack (t : Thread) : Option ℕ :=
  if t.stackSize = 0 then none else some t.stackBase

/-- Before this stage the dead thread's stack has not been deallocated. -/
def ReapStage.keepsStack : ReapStage → Bool
  | .setCr3 | .deallocStack => true
  | .freeSpace | .dropFiles => false

/-- Before this stage the dead thread's address space has not been freed. -/
def ReapStage.keepsTable : ReapStage → Bool
  | .setCr3 | .deallocStack | .freeSpace => true
  | .dropFiles => false

/-- Two stacks of `STACK_SIZE` bytes do not overlap. -/
def StacksApart (a b : ℕ) : Prop :=
  a + threadStackSize ≤ b ∨ b + threadStackSize ≤ a

theorem stacksApart_irrefl (a : ℕ) : ¬ StacksApart a a := by
  simp [StacksApart, threadStackSize]

instance : Std.Symm StacksApart := ⟨fun _ _ h => h.symm⟩

namespace Kernel

open SchedulerState

/-- What each holder holds of the resource `res`: a slot what its record names, a thread at
work in `reap_zombie` what the dead record in its hands still names. -/
def holding {β : Type} (k : Kernel) (res : Thread → Option β) (keeps : ReapStage → Bool) :
    ThreadId ⊕ ThreadId → Option β
  | .inl i => (k.sched.threads i).bind res
  | .inr i =>
    match (k.point i).reaper with
    | some (dead, stage) => if keeps stage then res dead else none
    | none => none

section Holding

variable {β : Type} {res : Thread → Option β} {keeps : ReapStage → Bool}
  {apart : β → β → Prop} {live : List β} {k k' : Kernel}

theorem holding_inl {i : ThreadId} {b : β} :
    k.holding res keeps (.inl i) = some b ↔ ∃ t, k.sched.threads i = some t ∧ res t = some b := by
  rw [holding, Option.bind_eq_some_iff]

theorem holding_inr {i : ThreadId} {b : β} :
    k.holding res keeps (.inr i) = some b ↔
      ∃ dead stage, (k.point i).reaper = some (dead, stage) ∧ keeps stage = true ∧
        res dead = some b := by
  cases hr : (k.point i).reaper with
  | none => simp [holding, hr]
  | some pair =>
    obtain ⟨dead, stage⟩ := pair
    by_cases hk : keeps stage = true <;> simp [holding, hr, hk]

/-- A move that replaces no resource only lets holders forget. -/
theorem holding_forget (hres : ∀ t t', t.SameResources t' → res t' = res t)
    (hthr : ∀ i t', k'.sched.threads i = some t' →
      ∃ t, k.sched.threads i = some t ∧ t.SameResources t')
    (hpoint : ∀ i dead stage', (k'.point i).reaper = some (dead, stage') →
      keeps stage' = true → ∃ stage, (k.point i).reaper = some (dead, stage) ∧ keeps stage = true)
    (j : ThreadId ⊕ ThreadId) (b : β) (h : k'.holding res keeps j = some b) :
    k.holding res keeps j = some b := by
  cases j with
  | inl i =>
    rw [holding_inl] at h ⊢
    obtain ⟨t', ht', hb⟩ := h
    obtain ⟨t, ht, hsame⟩ := hthr i t' ht'
    exact ⟨t, ht, hres t t' hsame ▸ hb⟩
  | inr i =>
    rw [holding_inr] at h ⊢
    obtain ⟨dead, stage', hp, hk, hb⟩ := h
    obtain ⟨stage, hp', hk'⟩ := hpoint i dead stage' hp hk
    exact ⟨dead, stage, hp', hk', hb⟩

/-- Taking the zombie out of the table moves its holdings to the reaper. -/
theorem holding_take (h : Owns apart (k.holding res keeps) live)
    (hsched : k'.sched = k.sched.reapTake.2)
    (hother : ∀ i, i ≠ k.running → k'.point i = k.point i)
    (hself : (k'.point k.running).reaper =
      k.sched.reapTake.1.map (fun dead => (dead, ReapStage.setCr3))) :
    Owns apart (k'.holding res keeps) live := by
  obtain ⟨-, -, -, -, -, htaken, hthr⟩ := k.sched.reapTake_spec
  rw [← hsched] at hthr
  rw [htaken] at hself
  -- the slots keep what they hold, the zombie's apart
  have hinl : ∀ i b, k'.holding res keeps (.inl i) = some b →
      k.sched.zombie ≠ some i ∧ k.holding res keeps (.inl i) = some b := by
    intro i b hb
    rw [holding_inl] at hb
    obtain ⟨t, ht, hb⟩ := hb
    rw [hthr] at ht
    split_ifs at ht with hz
    exact ⟨hz, holding_inl.mpr ⟨t, ht, hb⟩⟩
  have hinr : ∀ i b, i ≠ k.running → k'.holding res keeps (.inr i) = some b →
      k.holding res keeps (.inr i) = some b := by
    intro i b hi hb
    rwa [holding, hother i hi] at hb
  cases hz : k.sched.zombie with
  | none =>
    refine h.forget (fun j b hb => ?_)
    cases j with
    | inl i => exact (hinl i b hb).2
    | inr i =>
      by_cases hi : i = k.running
      · subst hi
        rw [holding, hself, hz] at hb
        cases hb
      · exact hinr i b hi hb
  | some z =>
    refine h.move (Equiv.swap (.inl z) (.inr k.running)) (Equiv.injective _) (fun j b hb => ?_)
    cases j with
    | inl i =>
      obtain ⟨hne, hb⟩ := hinl i b hb
      rw [Equiv.swap_apply_of_ne_of_ne]
      · exact hb
      · intro hc
        exact hne (hz.trans (congrArg some (Sum.inl.inj hc).symm))
      · exact Sum.inl_ne_inr
    | inr i =>
      by_cases hi : i = k.running
      · subst hi
        rw [Equiv.swap_apply_right, holding_inl]
        rw [holding_inr, hself, hz] at hb
        obtain ⟨dead, stage, hd, -, hb⟩ := hb
        obtain ⟨dead', hd', heq⟩ := Option.map_eq_some_iff.mp hd
        cases heq
        exact ⟨dead, hd', hb⟩
      · rw [Equiv.swap_apply_of_ne_of_ne Sum.inr_ne_inl]
        · exact hinr i b hi hb
        · intro hc
          exact hi (Sum.inr.inj hc)

/-- A reap with interrupts off releases the zombie's holding on the spot. -/
theorem holding_reap [DecidableEq β] (h : Owns apart (k.holding res keeps) live)
    (hsched : k'.sched = k.sched.reapTake.2) (hpoint : k'.point = k.point) :
    Owns apart (k'.holding res keeps)
      ((k.sched.reapTake.1.bind res).elim live live.erase) := by
  obtain ⟨-, -, -, -, -, htaken, hthr⟩ := k.sched.reapTake_spec
  rw [← hsched] at hthr
  rw [htaken]
  have hsub : ∀ j b, k'.holding res keeps j = some b → k.holding res keeps j = some b ∧
      ∀ z, k.sched.zombie = some z → j ≠ .inl z := by
    intro j b hb
    cases j with
    | inl i =>
      obtain ⟨t, ht, hb⟩ := holding_inl.mp hb
      rw [hthr] at ht
      split_ifs at ht with hz
      refine ⟨holding_inl.mpr ⟨t, ht, hb⟩, fun z hz' hc => hz ?_⟩
      rw [hz', Sum.inl.inj hc]
    | inr i =>
      rw [holding, hpoint] at hb
      exact ⟨hb, fun z _ => Sum.inr_ne_inl⟩
  cases hd : (k.sched.zombie.bind k.sched.threads).bind res with
  | none => exact h.forget (fun j b hb => (hsub j b hb).1)
  | some a =>
    obtain ⟨dead, hdead, hres⟩ := Option.bind_eq_some_iff.mp hd
    obtain ⟨z, hz, hthr⟩ := Option.bind_eq_some_iff.mp hdead
    exact h.release (i := .inl z) (holding_inl.mpr ⟨dead, hthr, hres⟩)
      (fun j b hb => ⟨(hsub j b hb).2 z hz, (hsub j b hb).1⟩)

/-- A spawn grants the new slot what its record names. -/
theorem holding_adopt {s : SchedulerState} {t : Thread} {id : ThreadId} {j : ThreadId ⊕ ThreadId}
    {b : β} (hb : k'.holding res keeps j = some b) (base : ℕ)
    (hi : k.sched.install t = .ok (id, s)) (hsched : k'.sched = s)
    (hpoint : k'.point = (k.adopt s base).point) :
    (j ≠ .inl id → k.holding res keeps j = some b) ∧ (j = .inl id → res t = some b) := by
  obtain ⟨-, hthr, -⟩ := install_spec hi
  rw [(adopt_spec hi base).1] at hpoint
  rw [← hsched] at hthr
  cases j with
  | inl i =>
    obtain ⟨t', ht', hb⟩ := holding_inl.mp hb
    rw [hthr] at ht'
    refine ⟨fun hne => ?_, fun hid => ?_⟩
    · have hne' : i ≠ id := fun hc => hne (congrArg Sum.inl hc)
      rw [Function.update_of_ne hne'] at ht'
      exact holding_inl.mpr ⟨t', ht', hb⟩
    · rw [Sum.inl.inj hid, Function.update_self, Option.some.injEq] at ht'
      rw [ht', hb]
  | inr i =>
    refine ⟨fun _ => ?_, fun hc => absurd hc Sum.inr_ne_inl⟩
    rw [holding, hpoint] at hb
    by_cases hid : i = id
    · subst hid
      rw [Function.update_self] at hb
      cases hb
    · rw [Function.update_of_ne hid] at hb
      exact hb

end Holding

/-- **Every stack and every page table has exactly one holder.** -/
structure Owned (k : Kernel) : Prop where
  stacksOwned : Owns StacksApart (k.holding Thread.stack ReapStage.keepsStack) k.liveStacks
  tablesOwned : Owns (· ≠ ·) (k.holding Thread.pageTable ReapStage.keepsTable) k.liveTables
  kernel : k.sched.kernelPageTable ∉ k.liveTables
  sizes : ∀ i t, k.sched.threads i = some t → i ≠ 0 → t.stackSize = threadStackSize
  dead : ∀ i dead stage, (k.point i).reaper = some (dead, stage) →
    dead.stackSize = threadStackSize

theorem stack_congr (t t' : Thread) (h : t.SameResources t') : t'.stack = t.stack := by
  rw [Thread.stack, Thread.stack, h.1, h.2.1]

theorem pageTable_congr (t t' : Thread) (h : t.SameResources t') : t'.pageTable = t.pageTable :=
  h.2.2.1

theorem stack_of_size {t : Thread} (h : t.stackSize = threadStackSize) :
    t.stack = some t.stackBase := by
  rw [Thread.stack, if_neg]
  rw [h]
  decide

theorem boot_owned (pt : Frame) (rsp rsp0 : ℕ) : (boot pt rsp rsp0).Owned where
  stacksOwned := by
    refine Owns.empty _ (fun j => ?_)
    cases j with
    | inl i => by_cases hi : i = 0 <;> simp [holding, boot, init, Thread.stack, hi]
    | inr i => by_cases hi : i = 0 <;> simp [holding, boot, Point.reaper, hi]
  tablesOwned := by
    refine Owns.empty _ (fun j => ?_)
    cases j with
    | inl i => by_cases hi : i = 0 <;> simp [holding, boot, init, hi]
    | inr i => by_cases hi : i = 0 <;> simp [holding, boot, Point.reaper, hi]
  kernel := List.not_mem_nil
  sizes := by
    intro i t ht hi
    simp [boot, init, hi] at ht
  dead := by
    intro i dead stage hp
    by_cases hi : i = 0 <;> simp [boot, Point.reaper, hi] at hp

/-- A move that neither allocates nor frees keeps `Owned`. -/
theorem Owned.forget {k k' : Kernel} (h : k.Owned) (hstacks : k'.liveStacks = k.liveStacks)
    (htables : k'.liveTables = k.liveTables)
    (hkpt : k'.sched.kernelPageTable = k.sched.kernelPageTable)
    (hthr : ∀ i t', k'.sched.threads i = some t' →
      ∃ t, k.sched.threads i = some t ∧ t.SameResources t')
    (hpoint : ∀ i dead stage, (k'.point i).reaper = some (dead, stage) →
      (k.point i).reaper = some (dead, stage)) : k'.Owned where
  stacksOwned := by
    rw [hstacks]
    exact h.stacksOwned.forget (holding_forget stack_congr hthr
      (fun i dead stage hp hk => ⟨stage, hpoint i dead stage hp, hk⟩))
  tablesOwned := by
    rw [htables]
    exact h.tablesOwned.forget (holding_forget pageTable_congr hthr
      (fun i dead stage hp hk => ⟨stage, hpoint i dead stage hp, hk⟩))
  kernel := by
    rw [hkpt, htables]
    exact h.kernel
  sizes := by
    intro i t' ht' hi
    obtain ⟨t, ht, -, hsize, -⟩ := hthr i t' ht'
    rw [hsize]
    exact h.sizes i t ht hi
  dead := fun i dead stage hp => h.dead i dead stage (hpoint i dead stage hp)

/-- Records changed in place keep their resources. -/
theorem threads_mapThread {s : SchedulerState} {j : ThreadId} {f : Thread → Thread}
    (hf : ∀ t : Thread, t.SameResources (f t)) (i : ThreadId) (t' : Thread)
    (h : (s.mapThread j f).threads i = some t') :
    ∃ t, s.threads i = some t ∧ t.SameResources t' := by
  unfold mapThread at h
  by_cases hij : i = j
  · subst hij
    simp only [Function.update_self, Option.map_eq_some_iff] at h
    obtain ⟨t, ht, rfl⟩ := h
    exact ⟨t, ht, hf t⟩
  · simp only [Function.update_of_ne hij] at h
    exact ⟨t', h, rfl, rfl, rfl, rfl⟩

theorem threads_switchTo {k : Kernel} {sw : Switch} {rsp : ℕ} (i : ThreadId) (t' : Thread)
    (h : (k.switchTo sw rsp).sched.threads i = some t') :
    ∃ t, k.sched.threads i = some t ∧ t.SameResources t' :=
  threads_mapThread (f := fun t => { t with stackPointer := rsp })
    (fun _ => ⟨rfl, rfl, rfl, rfl⟩) i t' h

theorem goto_reaper {k : Kernel} {p : Point} (hp : p.reaper = none) (i : ThreadId)
    (dead : Thread) (stage : ReapStage) (h : ((k.goto p).point i).reaper = some (dead, stage)) :
    (k.point i).reaper = some (dead, stage) := by
  unfold goto at h
  by_cases hi : i = k.running
  · subst hi
    simp only [Function.update_self, hp] at h
    cases h
  · simpa only [Function.update_of_ne hi] using h

/-- A stage of `reap_zombie` releases what it frees. -/
theorem Owned.reapStep {k : Kernel} {c : Caller} {dead : Thread} {stage : ReapStage}
    (h : k.Owned) (hp : k.point k.running = .reaping c dead stage) :
    ((k.reapEffect dead stage).goto (afterStage c dead stage)).Owned := by
  have hreaper : (k.point k.running).reaper = some (dead, stage) := by rw [hp]; rfl
  have hbase := stack_of_size (h.dead _ _ _ hreaper)
  obtain ⟨hpoint, hrun, -⟩ := k.reapEffect_spec dead stage
  -- the points after the stage, in terms of those before it
  have hother : ∀ i d st, (((k.reapEffect dead stage).goto
      (afterStage c dead stage)).point i).reaper = some (d, st) →
      (i ≠ k.running ∧ (k.point i).reaper = some (d, st)) ∨
        (i = k.running ∧ d = dead ∧ (afterStage c dead stage).reaper = some (dead, st)) := by
    intro i d st hi
    unfold goto at hi
    by_cases heq : i = k.running
    · subst heq
      simp only [hrun, Function.update_self] at hi
      refine Or.inr ⟨rfl, ?_, ?_⟩
      · cases stage <;> cases c <;> simp_all [afterStage, Point.reaper]
      · cases stage <;> cases c <;> simp_all [afterStage, Point.reaper]
    · simp only [hrun, hpoint, Function.update_of_ne heq] at hi
      exact Or.inl ⟨heq, hi⟩
  have hthr : ∀ i t', ((k.reapEffect dead stage).goto (afterStage c dead stage)).sched.threads i =
      some t' → ∃ t, k.sched.threads i = some t ∧ t.SameResources t' := by
    intro i t' ht'
    rw [goto_sched, reapEffect_sched] at ht'
    exact ⟨t', ht', rfl, rfl, rfl, rfl⟩
  have hsub : ∀ keeps : ReapStage → Bool,
      (∀ st, (afterStage c dead stage).reaper = some (dead, st) → keeps st = true →
        keeps stage = true) →
      ∀ i d st, (((k.reapEffect dead stage).goto (afterStage c dead stage)).point i).reaper =
        some (d, st) → keeps st = true →
        ∃ st', (k.point i).reaper = some (d, st') ∧ keeps st' = true := by
    intro keeps hkeeps i d st hi hk
    rcases hother i d st hi with ⟨-, hi⟩ | ⟨rfl, rfl, hafter⟩
    · exact ⟨st, hi, hk⟩
    · exact ⟨stage, hreaper, hkeeps st hafter hk⟩
  -- after the stage that frees a resource, the reaper no longer holds it
  have hnone : ∀ {β : Type} (res : Thread → Option β) (keeps : ReapStage → Bool),
      (∀ st, (afterStage c dead stage).reaper = some (dead, st) → keeps st = false) →
      ((k.reapEffect dead stage).goto (afterStage c dead stage)).holding res keeps
        (.inr k.running) = none := by
    intro β res keeps hkeeps
    rw [← Option.not_isSome_iff_eq_none, Option.isSome_iff_exists]
    rintro ⟨b, hb⟩
    obtain ⟨d, st, hi, hk, -⟩ := holding_inr.mp hb
    rcases hother _ d st hi with ⟨hne, -⟩ | ⟨-, -, hafter⟩
    · exact hne rfl
    · rw [hkeeps st hafter] at hk
      cases hk
  have hstackheld : ReapStage.keepsStack stage = true →
      k.holding Thread.stack ReapStage.keepsStack (.inr k.running) = some dead.stackBase :=
    fun hk => holding_inr.mpr ⟨dead, stage, hreaper, hk, hbase⟩
  refine ⟨?_, ?_, ?_, ?_, ?_⟩
  · have hf := holding_forget (k := k) stack_congr hthr (hsub ReapStage.keepsStack (by
      cases stage <;> cases c <;> simp [afterStage, Point.reaper, ReapStage.keepsStack]))
    cases stage with
    | deallocStack =>
      refine h.stacksOwned.release (hstackheld rfl) (fun j b hb => ⟨?_, hf j b hb⟩)
      rintro rfl
      rw [hnone Thread.stack ReapStage.keepsStack
        (by simp [afterStage, Point.reaper, ReapStage.keepsStack])] at hb
      cases hb
    | setCr3 => exact h.stacksOwned.forget hf
    | dropFiles => exact h.stacksOwned.forget hf
    | freeSpace =>
      have hlive : ((k.reapEffect dead .freeSpace).goto
          (afterStage c dead .freeSpace)).liveStacks = k.liveStacks := by
        unfold reapEffect goto
        cases dead.pageTable <;> rfl
      rw [hlive]
      exact h.stacksOwned.forget hf
  · have hf := holding_forget (k := k) pageTable_congr hthr
      (hsub ReapStage.keepsTable (by
        cases stage <;> cases c <;> simp [afterStage, Point.reaper, ReapStage.keepsTable]))
    cases stage with
    | freeSpace =>
      cases hpt : dead.pageTable with
      | none =>
        have hlive : ((k.reapEffect dead .freeSpace).goto
            (afterStage c dead .freeSpace)).liveTables = k.liveTables := by
          simp [reapEffect, goto, hpt]
        rw [hlive]
        exact h.tablesOwned.forget hf
      | some pt =>
        have hlive : ((k.reapEffect dead .freeSpace).goto
            (afterStage c dead .freeSpace)).liveTables = k.liveTables.erase pt := by
          simp [reapEffect, goto, hpt]
        rw [hlive]
        refine h.tablesOwned.release (i := .inr k.running)
          (holding_inr.mpr ⟨dead, _, hreaper, rfl, hpt⟩) (fun j b hb => ⟨?_, hf j b hb⟩)
        rintro rfl
        rw [hnone Thread.pageTable ReapStage.keepsTable
          (by simp [afterStage, Point.reaper, ReapStage.keepsTable])] at hb
        cases hb
    | setCr3 => exact h.tablesOwned.forget hf
    | deallocStack => exact h.tablesOwned.forget hf
    | dropFiles => exact h.tablesOwned.forget hf
  · rw [goto_sched, reapEffect_sched]
    intro hmem
    refine h.kernel ?_
    cases stage with
    | freeSpace =>
      cases hpt : dead.pageTable with
      | none => simpa [reapEffect, goto, hpt] using hmem
      | some pt =>
        have hmem' : k.sched.kernelPageTable ∈ k.liveTables.erase pt := by
          simpa [reapEffect, goto, hpt] using hmem
        exact List.mem_of_mem_erase hmem'
    | _ => exact hmem
  · intro i t ht hi
    rw [goto_sched, reapEffect_sched] at ht
    exact h.sizes i t ht hi
  · intro i d st hi
    rcases hother i d st hi with ⟨-, hi⟩ | ⟨-, rfl, -⟩
    · exact h.dead i d st hi
    · exact h.dead _ _ _ hreaper

/-- The dead thread of a reap has a stack of its own: it is not the boot thread. -/
theorem taken_size {k : Kernel} (h : k.Owned) (hs : k.sched.Safe) {dead : Thread}
    (hd : k.sched.reapTake.1 = some dead) : dead.stackSize = threadStackSize := by
  rw [k.sched.reapTake_spec.2.2.2.2.2.1] at hd
  obtain ⟨z, hz, hthr⟩ := Option.bind_eq_some_iff.mp hd
  refine h.sizes z dead hthr ?_
  rintro rfl
  exact hs.zombie_out 0 hz hs.boot

/-- A slot keeps its size invariant when another one is emptied. -/
theorem taken_sizes {k : Kernel} (h : k.Owned) (i : ThreadId) (t : Thread)
    (ht : k.sched.reapTake.2.threads i = some t) (hi : i ≠ 0) : t.stackSize = threadStackSize := by
  rw [k.sched.reapTake_spec.2.2.2.2.2.2 i] at ht
  split_ifs at ht
  exact h.sizes i t ht hi

theorem Owned.reapCall {k : Kernel} (h : k.Owned) (hs : k.sched.Safe) (c : Caller) :
    (k.reapCall c).Owned := by
  obtain ⟨p, heq, hp, -⟩ := k.reapCall_spec c
  rw [heq]
  have hother : ∀ i, i ≠ k.running →
      ({ k with sched := k.sched.reapTake.2 }.goto p).point i = k.point i := by
    intro i hi
    exact Function.update_of_ne hi _ _
  have hself : (({ k with sched := k.sched.reapTake.2 }.goto p).point k.running).reaper =
      k.sched.reapTake.1.map (fun dead => (dead, ReapStage.setCr3)) := by
    rw [← hp]
    exact congrArg Point.reaper (Function.update_self _ _ _)
  refine ⟨holding_take h.stacksOwned rfl hother hself, holding_take h.tablesOwned rfl hother hself, ?_,
    fun i t ht hi => taken_sizes h i t ht hi, ?_⟩
  · rw [goto_sched, k.sched.reapTake_spec.2.2.2.1]
    exact h.kernel
  · intro i dead stage hi
    by_cases hrun : i = k.running
    · subst hrun
      rw [hself] at hi
      obtain ⟨dead', hd, heq'⟩ := Option.map_eq_some_iff.mp hi
      cases heq'
      exact taken_size h hs hd
    · rw [hother i hrun] at hi
      exact h.dead i dead stage hi

theorem Owned.reapZombie {k : Kernel} (h : k.Owned) (hs : k.sched.Safe) : k.reapZombie.Owned := by
  obtain ⟨hpoint, -, -, -, -, -, -, hstacks, htables⟩ := k.reapZombie_spec
  have hsched := k.reapZombie_sched
  have hstack : k.sched.reapTake.1.elim k.liveStacks
      (fun dead => k.liveStacks.erase dead.stackBase) =
      (k.sched.reapTake.1.bind Thread.stack).elim k.liveStacks k.liveStacks.erase := by
    cases hd : k.sched.reapTake.1 with
    | none => rfl
    | some dead =>
      rw [Option.bind_some, stack_of_size (taken_size h hs hd)]
      rfl
  refine ⟨?_, ?_, ?_, ?_, ?_⟩
  · rw [hstacks, hstack]
    exact holding_reap h.stacksOwned hsched hpoint
  · rw [htables]
    exact holding_reap h.tablesOwned hsched hpoint
  · rw [hsched, htables, k.sched.reapTake_spec.2.2.2.1]
    cases k.sched.reapTake.1.bind Thread.pageTable with
    | none => exact h.kernel
    | some pt => exact fun hmem => h.kernel (List.mem_of_mem_erase hmem)
  · rw [hsched]
    exact fun i t ht hi => taken_sizes h i t ht hi
  · rw [hpoint]
    exact h.dead

/-- The stack a spawn takes overlaps no live one. -/
theorem stacksApart_of_free {k : Kernel} {base : ℕ} (h : k.stackFree base = true) :
    ∀ b ∈ k.liveStacks, StacksApart base b := by
  intro b hb
  have hall := List.all_eq_true.mp h b hb
  simpa [StacksApart] using hall

/-- A spawn keeps the clauses of `Owned` about sizes and dead records. -/
theorem Owned.adopt_sizes {k k' : Kernel} {s : SchedulerState} {t : Thread} {id : ThreadId}
    (h : k.Owned) (base : ℕ) (hi : k.sched.install t = .ok (id, s))
    (hsize : t.stackSize = threadStackSize) (hsched : k'.sched = s)
    (hpoint : k'.point = (k.adopt s base).point) :
    (∀ i t, k'.sched.threads i = some t → i ≠ 0 → t.stackSize = threadStackSize) ∧
      ∀ i dead stage, (k'.point i).reaper = some (dead, stage) →
        dead.stackSize = threadStackSize := by
  obtain ⟨-, hthr, -⟩ := install_spec hi
  rw [(adopt_spec hi base).1] at hpoint
  constructor
  · intro i t' ht' h0
    rw [hsched, hthr] at ht'
    by_cases hid : i = id
    · subst hid
      rw [Function.update_self, Option.some.injEq] at ht'
      rw [← ht', hsize]
    · rw [Function.update_of_ne hid] at ht'
      exact h.sizes i t' ht' h0
  · intro i dead stage hp
    rw [hpoint] at hp
    by_cases hid : i = id
    · subst hid
      rw [Function.update_self] at hp
      cases hp
    · rw [Function.update_of_ne hid] at hp
      exact h.dead i dead stage hp

/-- A spawn gives the stack it takes to the new thread. -/
theorem Owned.adopt_stacks {k k' : Kernel} {s : SchedulerState} {t : Thread} {id : ThreadId}
    {base : ℕ} (h : k.Owned) (hfree : k.stackFree base = true)
    (hi : k.sched.install t = .ok (id, s)) (hsize : t.stackSize = threadStackSize)
    (hbase : t.stackBase = base) (hsched : k'.sched = s)
    (hpoint : k'.point = (k.adopt s base).point) (hlive : k'.liveStacks = base :: k.liveStacks) :
    Owns StacksApart (k'.holding Thread.stack ReapStage.keepsStack) k'.liveStacks := by
  rw [hlive]
  refine h.stacksOwned.grant (i := .inl id) stacksApart_irrefl (stacksApart_of_free hfree) ?_ ?_
  · exact fun j b hb hj => (holding_adopt hb base hi hsched hpoint).1 hj
  · intro b hb
    have hstack := (holding_adopt hb base hi hsched hpoint).2 rfl
    rw [stack_of_size hsize, hbase] at hstack
    exact (Option.some.inj hstack).symm

/-- **Every move keeps `Owned`.** -/
theorem Move.owned {P : SchedulerState → Prop} {k k' : Kernel} (hm : Move P k k')
    (hs : k.sched.Safe) (h : k.Owned) : k'.Owned := by
  cases hm with
  | @spawn base e id s _ hfree _ hi =>
    have hrest := h.adopt_sizes base hi rfl rfl rfl
    refine ⟨?_, ?_, ?_, hrest.1, hrest.2⟩
    · exact h.adopt_stacks hfree hi rfl rfl rfl rfl rfl
    · -- the new thread has no page table of its own
      refine h.tablesOwned.forget (fun j b hb => (holding_adopt hb base hi rfl rfl).1 ?_)
      intro hj
      have := (holding_adopt hb base hi rfl rfl).2 hj
      cases this
    · exact (install_spec hi).2.2.2.2.2.1 ▸ h.kernel
  | @spawnIsolated base e u pt id s _ hfree htable _ hi =>
    rw [tableFree, Bool.and_eq_true, Bool.not_eq_true', List.contains_eq_mem,
      decide_eq_false_iff_not, bne_iff_ne] at htable
    have hrest := h.adopt_sizes base hi rfl rfl rfl
    refine ⟨?_, ?_, ?_, hrest.1, hrest.2⟩
    · exact h.adopt_stacks hfree hi rfl rfl rfl rfl rfl
    · refine h.tablesOwned.grant (i := .inl id) (fun a hne => hne rfl)
        (fun b hb hc => htable.1 (hc ▸ hb)) ?_ ?_
      · exact fun j b hb hj => (holding_adopt hb base hi rfl rfl).1 hj
      · intro b hb
        exact (Option.some.inj ((holding_adopt hb base hi rfl rfl).2 rfl)).symm
    · show s.kernelPageTable ∉ pt :: k.liveTables
      rw [(install_spec hi).2.2.2.2.2.1, List.mem_cons, not_or]
      exact ⟨Ne.symm htable.2, h.kernel⟩
  | start f p _ hp hf =>
    exact h.forget rfl rfl rfl (threads_mapThread (fun t => (hf t).1))
      (goto_reaper (k := { k with sched := k.sched.mapThread k.sched.current f }) hp)
  | goto p _ hp =>
    exact h.forget rfl rfl rfl (fun i t ht => ⟨t, ht, rfl, rfl, rfl, rfl⟩) (goto_reaper hp)
  | reapCall c => exact h.reapCall hs c
  | reapStep hp => exact h.reapStep hp
  | reapZombie => exact h.reapZombie hs
  | stay hsched =>
    obtain rfl := scheduleRest_none hsched
    exact h
  | switch rsp hsched =>
    rcases scheduleRest_spec hsched with
      ⟨ho, -, -⟩ | ⟨sw, t, rest, -, -, -, -, hthr, -, hkpt, -⟩
    · cases ho
    · refine h.forget rfl rfl hkpt (fun i t' ht' => ?_) (fun _ _ _ hp => hp)
      rw [← hthr]
      exact threads_switchTo i t' ht'
  | @exit sw s rsp _ hexit =>
    obtain ⟨t, rest, -, -, -, -, hthr, -, hkpt, -⟩ := exitRest_spec hexit
    refine h.forget rfl rfl hkpt (fun i t' ht' => ?_)
      (goto_reaper (k := { k with sched := s }) (p := .gone) rfl)
    rw [← hthr]
    exact threads_switchTo i t' ht'

/-- `Owned` holds in every reachable state. -/
theorem owned_of_reachable {pt : Frame} {rsp rsp0 : ℕ} {k : Kernel}
    (h : Runs.Reachable step (boot pt rsp rsp0) k) : k.Owned := by
  refine (h.invariant (I := fun k => k.sched.Safe ∧ k.Owned)
    ⟨init_safe pt, boot_owned pt rsp rsp0⟩ ?_).2
  intro k a k' hk _ hstep
  refine step_preserves_of_moves (I := fun k => k.sched.Safe ∧ k.Owned) ?_ hstep hk
  intro k k' hm hk
  exact ⟨hm.preserves (fun _ _ hc => hc.safe) hk.1, hm.owned hk.1 hk.2⟩

end Kernel
