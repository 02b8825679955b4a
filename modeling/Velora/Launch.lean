/-
# Every program starts once, with its own parameters

`switch_to` enters a new thread in `thread_trampoline`, which takes no arguments: it
looks its entry point up in the record of `state.current` and takes it.  For a thread
made by `spawn_user` the entry point is `ring3_trampoline`, which in turn takes the
`user_entry` of `state.current` and drops to ring 3 with it.  Both can be preempted
after the take, and slots are reused.

A run keeps a **record** of launches: the threads spawned, the entry points
`thread_trampoline` calls, and the arrivals at `enter_ring3`.  A thread is named by its
slot and the generation of the slot.  `Launched` relates the record to the state: what
a thread that has not run yet finds in its record is what it was spawned with.
-/
import Velora.Reclaim

/-- What a thread has done of its own start. -/
inductive Phase
  /-- `thread_trampoline` is still to come. -/
  | waiting
  /-- `ring3_trampoline` is still to come. -/
  | launching
  /-- In kernel-mode code of its own, or in the scheduler on behalf of it. -/
  | kernel
  | user
  | gone
  deriving DecidableEq

def Point.phase : Point → Phase
  | .fresh => .waiting
  | .ring3Start => .launching
  | .ring3 => .user
  | .gone => .gone
  | _ => .kernel

/-- Outside of `reap_zombie`, `schedule` and `exit_current_thread`. -/
def Point.settled : Point → Bool
  | .fresh | .ring3Start | .body | .ring3 => true
  | _ => false

/-- One entry of the record of launches.  The first two fields name the thread. -/
inductive Launch
  | spawned (slot : ThreadId) (generation : UInt64) (entry : Entry)
      (userEntry : Option UserEntry) (pageTable : Option Frame)
  /-- `thread_trampoline` calls `entry`. -/
  | started (slot : ThreadId) (generation : UInt64) (entry : Entry)
  /-- `enter_ring3` is reached, by `ring3_trampoline` with the given parameters, or by a
  kernel-mode body with some of its own. -/
  | entered (slot : ThreadId) (generation : UInt64) (parameters : Option UserEntry) (cr3 : Frame)
  deriving DecidableEq

namespace Launch

def slot : Launch → ThreadId
  | .spawned i .. | .started i .. | .entered i .. => i

def generation : Launch → UInt64
  | .spawned _ g .. | .started _ g .. | .entered _ g .. => g

def isSpawn : Launch → Bool
  | .spawned .. => true
  | _ => false

def isEnter : Launch → Bool
  | .entered .. => true
  | _ => false

/-- The entry is about generation `g` of slot `i`. -/
def concerns (i : ThreadId) (g : UInt64) (l : Launch) : Bool :=
  l.slot == i && l.generation == g

end Launch

namespace Kernel

open SchedulerState

/-! ## The record of a run -/

/-- A spawn, recorded with the slot it takes. -/
def spawnRecord (k k' : Kernel) (e : Entry) (u : Option UserEntry) (pt : Option Frame) :
    List Launch :=
  k.sched.freeSlot.toList.map (fun i => .spawned i (k'.sched.slotGenerations i) e u pt)

/-- What one step adds to the record. -/
def launchesOf (k : Kernel) (a : Action) (k' : Kernel) : List Launch :=
  match a with
  | .spawn _ e => k.spawnRecord k' e none none
  | .spawnIsolated _ e pt => k.spawnRecord k' e none (some pt)
  | .spawnUser _ u pt => k.spawnRecord k' .ring3Trampoline (some u) (some pt)
  | .trampoline =>
    match k.sched.takeEntry with
    | .ok (e, _) => [.started k.running (k.sched.slotGenerations k.running) e]
    | .error _ => []
  | .ring3Trampoline =>
    match k.sched.takeUserEntry with
    | .ok (u, _) => [.entered k.running (k.sched.slotGenerations k.running) (some u) k.cpu.cr3]
    | .error _ => []
  | .enterRing3 => [.entered k.running (k.sched.slotGenerations k.running) none k.cpu.cr3]
  | _ => []

/-- The record of a run. -/
def launches (k : Kernel) (as : List Action) : List Launch :=
  Runs.events step launchesOf k as

/-- `ring3_trampoline` is private to the scheduler: no caller can pass it to `spawn` or
`spawn_isolated`. -/
def Action.callable : Action → Bool
  | .spawn _ e => e != .ring3Trampoline
  | .spawnIsolated _ e _ => e != .ring3Trampoline
  | _ => true

/-! ## The invariant -/

/-- What a thread that was spawned with `e` and `u` finds in its record, by phase. -/
def Stage (log : List Launch) (i : ThreadId) (g : UInt64) (t : Thread) (e : Entry)
    (u : Option UserEntry) : Phase → Prop
  | .waiting => t.entry = some e ∧ t.userEntry = u ∧
      ∀ l ∈ log, l.isEnter = true → l.concerns i g = false
  | .launching => e = .ring3Trampoline ∧ t.userEntry = u ∧
      ∀ l ∈ log, l.isEnter = true → l.concerns i g = false
  | .kernel => e ≠ .ring3Trampoline
  | .user => True
  | .gone => True

/-- **The invariant of the record.** -/
structure Launched (k : Kernel) (log : List Launch) : Prop where
  /-- Entries about a slot have generations up to its present one. -/
  bound : ∀ l ∈ log, l.generation ≤ k.sched.slotGenerations l.slot
  /-- The boot thread is not started by a trampoline. -/
  boot : (k.point 0).phase ≠ .waiting ∧ (k.point 0).phase ≠ .launching
  cr3 : (k.point k.running).settled = true → ∀ t, k.sched.threads k.running = some t →
    k.cpu.cr3 = t.pageTable.getD k.sched.kernelPageTable
  thread : ∀ i t, i ≠ 0 → k.sched.threads i = some t →
    ∃ e u, .spawned i (k.sched.slotGenerations i) e u t.pageTable ∈ log ∧
      Stage log i (k.sched.slotGenerations i) t e u (k.point i).phase
  kinds : ∀ i g e u pt, .spawned i g e u pt ∈ log → i ≠ 0 ∧
    (e = .ring3Trampoline → u.isSome = true ∧ pt.isSome = true) ∧
    (u.isSome = true → e = .ring3Trampoline)
  spawns : ∀ i g, (log.filter (fun l => l.isSpawn && l.concerns i g)).length ≤ 1
  starts : ∀ i g e, .started i g e ∈ log → ∃ u pt, .spawned i g e u pt ∈ log
  enters : ∀ i g u cr3, .entered i g (some u) cr3 ∈ log →
    .spawned i g .ring3Trampoline (some u) (some cr3) ∈ log
  once : ∀ i g u pt, .spawned i g .ring3Trampoline u pt ∈ log →
    (log.filter (fun l => l.isEnter && l.concerns i g)).length ≤ 1 ∧
      ∀ params cr3, .entered i g params cr3 ∈ log → params.isSome = true

theorem boot_launched (pt : Frame) (rsp rsp0 : ℕ) : (Kernel.boot pt rsp rsp0).Launched [] where
  bound := by simp
  boot := by simp [Kernel.boot, Point.phase]
  cr3 := by
    intro _ t ht
    have ht' : (init pt).threads 0 = some t := ht
    simp only [init, if_true, Option.some.injEq] at ht'
    rw [← ht']
    rfl
  thread := by
    intro i t hi ht
    have ht' : (init pt).threads i = some t := ht
    simp [init, hi] at ht'
  kinds := by simp
  spawns := by simp
  starts := by simp
  enters := by simp
  once := by simp

/-- A thread is spawned once. -/
theorem Launched.spawned_inj {k : Kernel} {log : List Launch} (h : k.Launched log) {i : ThreadId}
    {g : UInt64} {e e' : Entry} {u u' : Option UserEntry} {pt pt' : Option Frame}
    (h₁ : .spawned i g e u pt ∈ log) (h₂ : .spawned i g e' u' pt' ∈ log) :
    e = e' ∧ u = u' ∧ pt = pt' := by
  have hle := h.spawns i g
  have hm₁ : Launch.spawned i g e u pt ∈ log.filter (fun l => l.isSpawn && l.concerns i g) :=
    List.mem_filter.mpr ⟨h₁, by simp [Launch.isSpawn, Launch.concerns, Launch.slot,
      Launch.generation]⟩
  have hm₂ : Launch.spawned i g e' u' pt' ∈ log.filter (fun l => l.isSpawn && l.concerns i g) :=
    List.mem_filter.mpr ⟨h₂, by simp [Launch.isSpawn, Launch.concerns, Launch.slot,
      Launch.generation]⟩
  obtain ⟨l, hl⟩ := List.length_eq_one_iff.mp
    (Nat.le_antisymm hle (List.length_pos_of_mem hm₁))
  rw [hl, List.mem_singleton] at hm₁ hm₂
  have heq := hm₁.trans hm₂.symm
  cases heq
  exact ⟨rfl, rfl, rfl⟩

/-- The stage of a thread depends on its two entry fields only. -/
theorem Stage.congr {log : List Launch} {i : ThreadId} {g : UInt64} {t t' : Thread} {e : Entry}
    {u : Option UserEntry} {p : Phase} (h : Stage log i g t e u p) (he : t'.entry = t.entry)
    (hu : t'.userEntry = t.userEntry) : Stage log i g t' e u p := by
  cases p with
  | waiting => exact ⟨he.trans h.1, hu.trans h.2.1, h.2.2⟩
  | launching => exact ⟨h.1, hu.trans h.2.1, h.2.2⟩
  | kernel => exact h
  | user => trivial
  | gone => trivial

/-- **A step that records nothing**: records keep what they hold, and no thread goes on to
another phase except by exiting. -/
theorem Launched.quiet {k k' : Kernel} {log : List Launch} (h : k.Launched log)
    (hgen : k'.sched.slotGenerations = k.sched.slotGenerations)
    (hphase : ∀ i, (k'.point i).phase = (k.point i).phase ∨ (k'.point i).phase = .gone)
    (hcr3 : (k'.point k'.running).settled = true → ∀ t, k'.sched.threads k'.running = some t →
      k'.cpu.cr3 = t.pageTable.getD k'.sched.kernelPageTable)
    (hthr : ∀ i t', k'.sched.threads i = some t' → ∃ t, k.sched.threads i = some t ∧
      t'.entry = t.entry ∧ t'.userEntry = t.userEntry ∧ t'.pageTable = t.pageTable) :
    k'.Launched log where
  bound := by
    rw [hgen]
    exact h.bound
  boot := by
    rcases hphase 0 with hp | hp <;> rw [hp]
    · exact h.boot
    · decide
  cr3 := hcr3
  thread := by
    intro i t' hi ht'
    obtain ⟨t, ht, he, hu, hpt⟩ := hthr i t' ht'
    obtain ⟨e, u, hmem, hst⟩ := h.thread i t hi ht
    rw [hgen, hpt]
    refine ⟨e, u, hmem, ?_⟩
    rcases hphase i with hp | hp <;> rw [hp]
    · exact hst.congr he hu
    · trivial
  kinds := h.kinds
  spawns := h.spawns
  starts := h.starts
  enters := h.enters
  once := h.once

/-- No entry is about a generation that a slot has not had yet. -/
theorem Launched.not_concerns {k : Kernel} {log : List Launch} (h : k.Launched log) {i : ThreadId}
    {g : UInt64} (hg : k.sched.slotGenerations i < g) : ∀ l ∈ log, l.concerns i g = false := by
  intro l hl
  by_contra hc
  simp only [Launch.concerns, Bool.not_eq_false, Bool.and_eq_true, beq_iff_eq] at hc
  obtain ⟨rfl, rfl⟩ := hc
  exact absurd (h.bound l hl) (UInt64.not_le.mpr hg)

/-- A later entry about another thread does not change a thread's stage. -/
theorem Stage.concat {log : List Launch} {i : ThreadId} {g : UInt64} {t : Thread} {e : Entry}
    {u : Option UserEntry} {p : Phase} (h : Stage log i g t e u p) {l : Launch}
    (hl : l.isEnter = true → l.concerns i g = false) : Stage (log ++ [l]) i g t e u p := by
  have hall : (∀ l ∈ log, l.isEnter = true → l.concerns i g = false) →
      ∀ l' ∈ log ++ [l], l'.isEnter = true → l'.concerns i g = false := by
    intro hlog l' hl'
    rcases List.mem_append.mp hl' with hl' | hl'
    · exact hlog l' hl'
    · rw [List.mem_singleton.mp hl']
      exact hl
  cases p with
  | waiting => exact ⟨h.1, h.2.1, hall h.2.2⟩
  | launching => exact ⟨h.1, h.2.1, hall h.2.2⟩
  | kernel => exact h
  | user => trivial
  | gone => trivial

theorem mem_concat_of_ne {log : List Launch} {l x : Launch} (hne : x ≠ l) (h : x ∈ log ++ [l]) :
    x ∈ log := by
  rcases List.mem_append.mp h with h | h
  · exact h
  · exact absurd (List.mem_singleton.mp h) hne

/-- **A spawn** records a thread that no entry is about yet. -/
theorem Launched.spawn {k k' : Kernel} {log : List Launch} {base : ℕ} {e : Entry}
    {u : Option UserEntry} {pt : Option Frame} {id : ThreadId} (h : k.Launched log)
    (hs : k.sched.Safe) (hc : k.InContext)
    (hi : k.sched.install (newThread base e pt u) = .ok (id, k'.sched))
    (hpoint : k'.point = Function.update k.point id .fresh) (hrun : k'.running = k.running)
    (hcpu : k'.cpu = k.cpu)
    (hkind : (e = .ring3Trampoline → u.isSome = true ∧ pt.isSome = true) ∧
      (u.isSome = true → e = .ring3Trampoline)) :
    k'.Launched (log ++ [.spawned id (k'.sched.slotGenerations id) e u pt]) := by
  obtain ⟨hfree, hthr, -, -, -, hkpt, -, hgen⟩ := install_spec hi
  have hfree' : ∀ i ∈ k.sched.rotation, i ≠ id := by
    rintro i hmem rfl
    have hocc := hs.occupied i hmem
    rw [Occupied, hfree] at hocc
    cases hocc
  have hrunning : k.running ≠ id := hc.running ▸ hfree' _ k.sched.current_mem_rotation
  have hnew : ∀ l ∈ log, l.concerns id (k'.sched.slotGenerations id) = false :=
    h.not_concerns ((install_generation hi id).2 rfl)
  have hne : ∀ i, i ≠ id → k'.sched.threads i = k.sched.threads i ∧
      k'.sched.slotGenerations i = k.sched.slotGenerations i ∧ k'.point i = k.point i := by
    intro i hid
    rw [hthr, hgen, hpoint, Function.update_of_ne hid, Function.update_of_ne hid,
      Function.update_of_ne hid]
    exact ⟨rfl, rfl, rfl⟩
  -- of the entries about a thread the new one is the only one, if it is one of them
  have hfilter : ∀ i g (p : Launch → Bool), (log.filter (fun l => p l && l.concerns i g)).length ≤ 1 →
      ((log ++ [Launch.spawned id (k'.sched.slotGenerations id) e u pt]).filter
        (fun l => p l && l.concerns i g)).length ≤ 1 := by
    intro i g p hle
    rw [List.filter_append, List.length_append]
    by_cases hkey : id = i ∧ k'.sched.slotGenerations id = g
    · obtain ⟨rfl, rfl⟩ := hkey
      have hnil : log.filter (fun l => p l && l.concerns id (k'.sched.slotGenerations id)) = [] := by
        rw [List.filter_eq_nil_iff]
        intro l hl
        simp [hnew l hl]
      rw [hnil]
      exact (Nat.zero_add _).le.trans (List.length_filter_le _ _)
    · have hnil : [Launch.spawned id (k'.sched.slotGenerations id) e u pt].filter
          (fun l => p l && l.concerns i g) = [] := by
        have hno : (Launch.spawned id (k'.sched.slotGenerations id) e u pt).concerns i g = false := by
          simpa [Launch.concerns, Launch.slot, Launch.generation] using hkey
        simp [hno]
      rw [hnil]
      exact hle
  exact {
    bound := by
      intro l hl
      rcases List.mem_append.mp hl with hl | hl
      · exact UInt64.le_trans (h.bound l hl) (install_generation hi l.slot).1
      · rw [List.mem_singleton.mp hl]
        exact UInt64.le_refl _
    boot := by
      rw [(hne 0 (hfree' 0 hs.boot)).2.2]
      exact h.boot
    cr3 := by
      rw [hrun, hcpu, hkpt, (hne _ hrunning).1, (hne _ hrunning).2.2]
      exact h.cr3
    thread := by
      intro i t h0 ht
      by_cases hid : i = id
      · subst hid
        rw [hthr, Function.update_self, Option.some.injEq] at ht
        subst ht
        refine ⟨e, u, List.mem_append_right _ List.mem_cons_self, ?_⟩
        rw [hpoint, Function.update_self]
        refine ⟨rfl, rfl, fun l hl henter => ?_⟩
        rcases List.mem_append.mp hl with hl | hl
        · exact hnew l hl
        · rw [List.mem_singleton.mp hl] at henter
          cases henter
      · obtain ⟨ht', hg', hp'⟩ := hne i hid
        rw [ht'] at ht
        obtain ⟨e', u', hmem, hst⟩ := h.thread i t h0 ht
        rw [hg', hp']
        exact ⟨e', u', List.mem_append_left _ hmem, hst.concat (fun hc => by cases hc)⟩
    kinds := by
      intro i g e' u' pt' hmem
      rcases List.mem_append.mp hmem with hmem | hmem
      · exact h.kinds i g e' u' pt' hmem
      · cases List.mem_singleton.mp hmem
        exact ⟨(hfree' 0 hs.boot).symm, hkind⟩
    spawns := fun i g => hfilter i g _ (h.spawns i g)
    starts := by
      intro i g e' hmem
      obtain ⟨u', pt', hsp⟩ := h.starts i g e' (mem_concat_of_ne (by simp) hmem)
      exact ⟨u', pt', List.mem_append_left _ hsp⟩
    enters := by
      intro i g u' cr3 hmem
      exact List.mem_append_left _ (h.enters i g u' cr3 (mem_concat_of_ne (by simp) hmem))
    once := by
      intro i g u' pt' hmem
      rcases List.mem_append.mp hmem with hmem | hmem
      · obtain ⟨hle, hall⟩ := h.once i g u' pt' hmem
        exact ⟨hfilter i g _ hle,
          fun params cr3 hen => hall params cr3 (mem_concat_of_ne (by simp) hen)⟩
      · cases List.mem_singleton.mp hmem
        refine ⟨hfilter _ _ _ ?_, fun params cr3 hen => ?_⟩
        · have hnil : log.filter
              (fun l => l.isEnter && l.concerns id (k'.sched.slotGenerations id)) = [] := by
            rw [List.filter_eq_nil_iff]
            intro l hl
            simp [hnew l hl]
          rw [hnil]
          exact Nat.zero_le _
        · have hno := hnew _ (mem_concat_of_ne (by simp) hen)
          simp [Launch.concerns, Launch.slot, Launch.generation] at hno }

/-- **The running thread takes a step of its own start**, recorded by an entry `l` about it. -/
theorem Launched.act {k k' : Kernel} {log : List Launch} {l : Launch} (h : k.Launched log)
    (hgen : k'.sched.slotGenerations = k.sched.slotGenerations)
    (hrun : k'.running = k.running)
    (hother : ∀ i, i ≠ k.running → k'.sched.threads i = k.sched.threads i ∧
      k'.point i = k.point i)
    (hboot : k.running = 0 → (k'.point 0).phase ≠ .waiting ∧ (k'.point 0).phase ≠ .launching)
    (hcr3 : ∀ t, k'.sched.threads k.running = some t →
      k'.cpu.cr3 = t.pageTable.getD k'.sched.kernelPageTable)
    (hthread : ∀ t, k.running ≠ 0 → k'.sched.threads k.running = some t →
      ∃ e u, .spawned k.running (k.sched.slotGenerations k.running) e u t.pageTable ∈ log ∧
        Stage (log ++ [l]) k.running (k.sched.slotGenerations k.running) t e u
          (k'.point k.running).phase)
    (hl : l.isSpawn = false ∧ l.slot = k.running ∧
      l.generation = k.sched.slotGenerations k.running)
    (hstart : ∀ i g e, l = .started i g e → ∃ u pt, .spawned i g e u pt ∈ log)
    (henter : ∀ i g u cr3, l = .entered i g (some u) cr3 →
      .spawned i g .ring3Trampoline (some u) (some cr3) ∈ log)
    (honce : l.isEnter = true → ∀ u pt, .spawned k.running
        (k.sched.slotGenerations k.running) .ring3Trampoline u pt ∈ log →
      (∀ l' ∈ log, l'.isEnter = true →
        l'.concerns k.running (k.sched.slotGenerations k.running) = false) ∧
      ∀ i g params cr3, l = .entered i g params cr3 → params.isSome = true) :
    k'.Launched (log ++ [l]) := by
  obtain ⟨hspawn, hslot, hlgen⟩ := hl
  have hself : ∀ i g, l.concerns i g = true → i = k.running ∧
      g = k.sched.slotGenerations k.running := by
    intro i g hc
    simp only [Launch.concerns, Bool.and_eq_true, beq_iff_eq] at hc
    exact ⟨hc.1.symm.trans hslot, hc.2.symm.trans hlgen⟩
  have hsp : ∀ {i g e u pt}, Launch.spawned i g e u pt ∈ log ++ [l] →
      Launch.spawned i g e u pt ∈ log := by
    intro i g e u pt hmem
    refine mem_concat_of_ne ?_ hmem
    rintro rfl
    cases hspawn
  exact {
    bound := by
      rw [hgen]
      intro l' hl'
      rcases List.mem_append.mp hl' with hl' | hl'
      · exact h.bound l' hl'
      · rw [List.mem_singleton.mp hl', hslot, hlgen]
        exact UInt64.le_refl _
    boot := by
      by_cases h0 : k.running = 0
      · exact hboot h0
      · rw [(hother 0 (Ne.symm h0)).2]
        exact h.boot
    cr3 := by
      rw [hrun]
      exact fun _ => hcr3
    thread := by
      intro i t h0 ht
      rw [hgen]
      by_cases hi : i = k.running
      · subst hi
        obtain ⟨e, u, hmem, hst⟩ := hthread t h0 ht
        exact ⟨e, u, List.mem_append_left _ hmem, hst⟩
      · obtain ⟨ht', hp'⟩ := hother i hi
        rw [ht'] at ht
        obtain ⟨e, u, hmem, hst⟩ := h.thread i t h0 ht
        rw [hp']
        refine ⟨e, u, List.mem_append_left _ hmem, hst.concat fun _ => ?_⟩
        by_contra hc
        rw [Bool.not_eq_false] at hc
        exact hi (hself _ _ hc).1
    kinds := fun i g e u pt hmem => h.kinds i g e u pt (hsp hmem)
    spawns := by
      intro i g
      rw [List.filter_append]
      simpa [hspawn] using h.spawns i g
    starts := by
      intro i g e hmem
      rcases List.mem_append.mp hmem with hmem | hmem
      · obtain ⟨u, pt, hs⟩ := h.starts i g e hmem
        exact ⟨u, pt, List.mem_append_left _ hs⟩
      · obtain ⟨u, pt, hs⟩ := hstart i g e (List.mem_singleton.mp hmem).symm
        exact ⟨u, pt, List.mem_append_left _ hs⟩
    enters := by
      intro i g u cr3 hmem
      rcases List.mem_append.mp hmem with hmem | hmem
      · exact List.mem_append_left _ (h.enters i g u cr3 hmem)
      · exact List.mem_append_left _ (henter i g u cr3 (List.mem_singleton.mp hmem).symm)
    once := by
      intro i g u pt hmem
      have hmem := hsp hmem
      obtain ⟨hle, hall⟩ := h.once i g u pt hmem
      by_cases hkey : l.isEnter = true ∧ l.concerns i g = true
      · -- the thread's own arrival, and there was none before
        obtain ⟨rfl, rfl⟩ := hself i g hkey.2
        obtain ⟨hnone, hsome⟩ := honce hkey.1 u pt hmem
        refine ⟨?_, fun params cr3 hen => ?_⟩
        · have hnil : log.filter (fun l => l.isEnter &&
              l.concerns k.running (k.sched.slotGenerations k.running)) = [] := by
            rw [List.filter_eq_nil_iff]
            intro l' hl'
            simpa using hnone l' hl'
          rw [List.filter_append, hnil]
          exact List.length_filter_le _ _
        · rcases List.mem_append.mp hen with hen | hen
          · exact hall params cr3 hen
          · exact hsome _ _ params cr3 (List.mem_singleton.mp hen).symm
      · refine ⟨?_, fun params cr3 hen => hall params cr3 (mem_concat_of_ne ?_ hen)⟩
        · rw [List.filter_append, List.length_append]
          have hno : (l.isEnter && l.concerns i g) = false := by
            rw [Bool.and_eq_false_iff]
            by_contra hc
            push Not at hc
            exact hkey ⟨by simpa using hc.1, by simpa using hc.2⟩
          simpa [hno] using hle
        · rintro rfl
          exact hkey ⟨rfl, by simp [Launch.concerns, Launch.slot, Launch.generation]⟩ }

/-! ## Steps -/

theorem of_frozen {o o' : Option Thread} {t' : Thread}
    (h : o'.map Thread.frozen = o.map Thread.frozen) (ht' : o' = some t') :
    ∃ t, o = some t ∧ t'.entry = t.entry ∧ t'.userEntry = t.userEntry ∧
      t'.pageTable = t.pageTable := by
  rw [ht', Option.map_some] at h
  obtain ⟨t, ht, heq⟩ := Option.map_eq_some_iff.mp h.symm
  have heq' : t.frozen = t'.frozen := heq
  exact ⟨t, ht, (congrArg Thread.entry heq').symm, (congrArg Thread.userEntry heq').symm,
    (congrArg Thread.pageTable heq').symm⟩

theorem threads_of_reapTake {s : SchedulerState} {i : ThreadId} {t : Thread}
    (h : s.reapTake.2.threads i = some t) : s.threads i = some t := by
  rw [s.reapTake_spec.2.2.2.2.2.2 i] at h
  split_ifs at h
  exact h

/-- A scheduling decision records nothing. -/
theorem Launched.decision {k k' : Kernel} {a : Action} {log : List Launch} (h : k.Launched log)
    (hs : k.sched.Safe) (hc : k.InContext) (ha : a.decides = true)
    (hstep : k.step a = .ok k') : k'.Launched log := by
  -- the reap in front of a decision with interrupts off
  have hmove := Move.reapZombie (P := fun _ => True) (k := k)
  have hs₁ : k.reapZombie.sched.Safe := hmove.preserves (fun _ _ hsec => hsec.safe) hs
  have hc₁ : k.reapZombie.InContext := hmove.inContext hs hc
  obtain ⟨hpoint₁, hrun₁, -⟩ := k.reapZombie_spec
  have hgen₁ : k.reapZombie.sched.slotGenerations = k.sched.slotGenerations := by
    rw [reapZombie_sched]
    exact k.sched.reapTake_spec.2.2.2.2.1
  have hthr₁ : ∀ {i t}, k.reapZombie.sched.threads i = some t → k.sched.threads i = some t := by
    intro i t ht
    rw [reapZombie_sched] at ht
    exact threads_of_reapTake ht
  have hgone : ∀ i, (Function.update k.point k.running .gone i).phase = (k.point i).phase ∨
      (Function.update k.point k.running .gone i).phase = .gone := by
    intro i
    rw [Function.update_apply]
    split_ifs
    · exact Or.inr rfl
    · exact Or.inl rfl
  obtain ⟨rsp, ⟨hpt, hd⟩ | ⟨-, -, hd⟩ | ⟨-, hd⟩ | ⟨-, hd⟩⟩ := decision_of_step ha hstep
  · have hcgoto : (k.goto .body).InContext :=
      ⟨hc.running, hc.boot, hc.cr3, hc.rsp, hc.rsp0, hc.saved⟩
    obtain ⟨hpoint, -, hgen, hrec⟩ := records_of_scheduleRest hd
    refine h.quiet hgen (fun i => Or.inl ?_) ?_ (fun i t' ht' => of_frozen (hrec i) ht')
    · rw [hpoint]
      show (Function.update k.point k.running .body i).phase = _
      rw [Function.update_apply]
      split_ifs with hi
      · rw [hi, hpt]
        rfl
      · rfl
    · exact fun _ => (hcgoto.decision_of_schedule hs rsp hd).2.cr3
  · obtain ⟨hpoint, -, hgen, hrec⟩ := records_of_exitRest hd
    refine h.quiet hgen ?_ ?_ (fun i t' ht' => of_frozen (hrec i) ht')
    · rw [hpoint]
      exact hgone
    · exact fun _ => (hc.decision_of_exit hs rsp hd).2.cr3
  · obtain ⟨hpoint, -, hgen, hrec⟩ := records_of_scheduleRest hd
    refine h.quiet (hgen.trans hgen₁) (fun i => Or.inl ?_) ?_ ?_
    · rw [hpoint, hpoint₁]
    · exact fun _ => (hc₁.decision_of_schedule hs₁ rsp hd).2.cr3
    · intro i t' ht'
      obtain ⟨t, ht, hfields⟩ := of_frozen (hrec i) ht'
      exact ⟨t, hthr₁ ht, hfields⟩
  · obtain ⟨hpoint, -, hgen, hrec⟩ := records_of_exitRest hd
    refine h.quiet (hgen.trans hgen₁) ?_ ?_ ?_
    · rw [hpoint, hpoint₁, hrun₁]
      exact hgone
    · exact fun _ => (hc₁.decision_of_exit hs₁ rsp hd).2.cr3
    · intro i t' ht'
      obtain ⟨t, ht, hfields⟩ := of_frozen (hrec i) ht'
      exact ⟨t, hthr₁ ht, hfields⟩

/-- A thread that goes on inside the scheduler records nothing. -/
theorem Launched.goto {k : Kernel} {s : SchedulerState} {p : Point} {log : List Launch}
    (h : k.Launched log) (hkernel : (k.point k.running).phase = .kernel)
    (hp : p.phase = .kernel ∧ p.settled = false)
    (hgen : s.slotGenerations = k.sched.slotGenerations)
    (hthr : ∀ i t, s.threads i = some t → k.sched.threads i = some t) :
    ({ k with sched := s }.goto p).Launched log := by
  refine h.quiet hgen (fun i => Or.inl ?_) ?_ (fun i t ht => ⟨t, hthr i t ht, rfl, rfl, rfl⟩)
  · show (Function.update k.point k.running p i).phase = _
    rw [Function.update_apply]
    split_ifs with hi
    · rw [hi, hkernel, hp.1]
    · rfl
  · intro hset
    have hset' : (Function.update k.point k.running p k.running).settled = true := hset
    rw [Function.update_self, hp.2] at hset'
    cases hset'

theorem Launched.reapCall {k : Kernel} {log : List Launch} (h : k.Launched log)
    (hkernel : (k.point k.running).phase = .kernel) (c : Caller) : (k.reapCall c).Launched log := by
  obtain ⟨-, -, -, -, hgen, -⟩ := k.sched.reapTake_spec
  have hthr : ∀ i t, k.sched.reapTake.2.threads i = some t → k.sched.threads i = some t :=
    fun _ _ => threads_of_reapTake
  unfold Kernel.reapCall
  rcases htake : k.sched.reapTake with ⟨o, s⟩
  rw [htake] at hgen hthr
  cases o with
  | none => cases c <;> exact h.goto hkernel ⟨rfl, rfl⟩ hgen hthr
  | some dead => exact h.goto hkernel ⟨rfl, rfl⟩ hgen hthr

theorem Launched.reapStep {k : Kernel} {log : List Launch} (h : k.Launched log) {c : Caller}
    {dead : Thread} {stage : ReapStage} (hp : k.point k.running = .reaping c dead stage) :
    ((k.reapEffect dead stage).goto (afterStage c dead stage)).Launched log := by
  obtain ⟨hpoint, hrun, -⟩ := k.reapEffect_spec dead stage
  have hafter : (afterStage c dead stage).phase = .kernel ∧
      (afterStage c dead stage).settled = false := by
    cases stage <;> cases c <;> exact ⟨rfl, rfl⟩
  have hgoto : ∀ i, ((k.reapEffect dead stage).goto (afterStage c dead stage)).point i =
      Function.update k.point k.running (afterStage c dead stage) i := by
    intro i
    show Function.update (k.reapEffect dead stage).point (k.reapEffect dead stage).running _ i = _
    rw [hpoint, hrun]
  refine h.quiet ?_ (fun i => Or.inl ?_) ?_ ?_
  · rw [goto_sched, reapEffect_sched]
  · rw [hgoto, Function.update_apply]
    split_ifs with hi
    · rw [hi, hp, hafter.1]
      rfl
    · rfl
  · intro hset
    have hrun' : ((k.reapEffect dead stage).goto (afterStage c dead stage)).running = k.running :=
      hrun
    rw [hgoto, hrun', Function.update_self, hafter.2] at hset
    cases hset
  · intro i t ht
    rw [goto_sched, reapEffect_sched] at ht
    exact ⟨t, ht, rfl, rfl, rfl⟩

/-- `thread_trampoline`: the entry point of the thread that runs. -/
theorem takeEntry_spec {s s' : SchedulerState} {e : Entry} (h : s.takeEntry = .ok (e, s')) :
    ∃ t, s.threads s.current = some t ∧ t.entry = some e := by
  unfold takeEntry at h
  cases ht : s.threads s.current with
  | none => rw [ht] at h; cases h
  | some t =>
    rw [ht] at h
    cases he : t.entry with
    | none => simp [he] at h
    | some e' =>
      simp only [he] at h
      cases h
      exact ⟨t, rfl, he⟩

theorem takeUserEntry_spec {s s' : SchedulerState} {u : UserEntry}
    (h : s.takeUserEntry = .ok (u, s')) :
    ∃ t, s.threads s.current = some t ∧ t.userEntry = some u := by
  unfold takeUserEntry at h
  cases ht : s.threads s.current with
  | none => rw [ht] at h; cases h
  | some t =>
    rw [ht] at h
    cases hu : t.userEntry with
    | none => simp [hu] at h
    | some u' =>
      simp only [hu] at h
      cases h
      exact ⟨t, rfl, hu⟩

/-- **A trampoline takes something out of its thread's record**, leaves the page table in it
and goes on at `p`. -/
theorem Launched.take {k : Kernel} {log : List Launch} {f : Thread → Thread} {p : Point}
    {l : Launch} {t : Thread} (h : k.Launched log) (hc : k.InContext) (h0 : k.running ≠ 0)
    (hset : (k.point k.running).settled = true) (ht : k.sched.threads k.running = some t)
    (hf : (f t).pageTable = t.pageTable)
    (hstage : ∃ e u, .spawned k.running (k.sched.slotGenerations k.running) e u t.pageTable ∈ log ∧
      Stage (log ++ [l]) k.running (k.sched.slotGenerations k.running) (f t) e u p.phase)
    (hl : l.isSpawn = false ∧ l.slot = k.running ∧
      l.generation = k.sched.slotGenerations k.running)
    (hstart : ∀ i g e, l = .started i g e → ∃ u pt, .spawned i g e u pt ∈ log)
    (henter : ∀ i g u cr3, l = .entered i g (some u) cr3 →
      .spawned i g .ring3Trampoline (some u) (some cr3) ∈ log)
    (honce : l.isEnter = true → ∀ u pt, .spawned k.running
        (k.sched.slotGenerations k.running) .ring3Trampoline u pt ∈ log →
      (∀ l' ∈ log, l'.isEnter = true →
        l'.concerns k.running (k.sched.slotGenerations k.running) = false) ∧
      ∀ i g params cr3, l = .entered i g params cr3 → params.isSome = true) :
    ({ k with sched := k.sched.mapThread k.sched.current f }.goto p).Launched (log ++ [l]) := by
  have hthr : ∀ i, (k.sched.mapThread k.sched.current f).threads i =
      if i = k.running then some (f t) else k.sched.threads i := by
    intro i
    rw [threads_mapThread_apply, ← hc.running]
    split_ifs with hi
    · rw [hi, ht]
      rfl
    · rfl
  have hself : ∀ t', (k.sched.mapThread k.sched.current f).threads k.running = some t' →
      t' = f t := by
    intro t' h'
    rw [hthr, if_pos rfl] at h'
    exact (Option.some.inj h').symm
  refine h.act rfl rfl ?_ (fun h => absurd h h0) ?_ ?_ hl hstart henter honce
  · intro i hi
    refine ⟨?_, goto_point_of_ne _ _ hi⟩
    show (k.sched.mapThread k.sched.current f).threads i = _
    rw [hthr, if_neg hi]
  · intro t' h'
    rw [hself t' h', hf]
    exact h.cr3 hset t ht
  · intro t' _ h'
    obtain ⟨e, u, hmem, hst⟩ := hstage
    rw [hself t' h', hf]
    refine ⟨e, u, hmem, ?_⟩
    have hpoint : ({ k with sched := k.sched.mapThread k.sched.current f }.goto p).point
        k.running = p := goto_point_running _ p
    rw [hpoint]
    exact hst

/-- The thread that is about to run a trampoline is not the boot thread. -/
theorem Launched.running_ne_zero {k : Kernel} {log : List Launch} (h : k.Launched log)
    (hp : (k.point k.running).phase = .waiting ∨ (k.point k.running).phase = .launching) :
    k.running ≠ 0 := by
  intro h0
  rw [h0] at hp
  exact hp.elim h.boot.1 h.boot.2

/-- **`thread_trampoline`.** -/
theorem Launched.trampoline {k : Kernel} {log : List Launch} {e : Entry} {s : SchedulerState}
    (h : k.Launched log) (hc : k.InContext) (hp : k.point k.running = .fresh)
    (hs : k.sched.takeEntry = .ok (e, s)) :
    ({ k with sched := s }.goto
        (if e = Entry.ring3Trampoline then .ring3Start else .body)).Launched
      (log ++ [Launch.started k.running (k.sched.slotGenerations k.running) e]) := by
  obtain ⟨t, ht, he⟩ := takeEntry_spec hs
  obtain rfl := takeEntry_eq_ok hs
  rw [← hc.running] at ht
  have h0 : k.running ≠ 0 := h.running_ne_zero (Or.inl (by rw [hp]; rfl))
  obtain ⟨e', u, hmem, hst⟩ := h.thread k.running t h0 ht
  rw [hp] at hst
  obtain ⟨he', hu, hnone⟩ := hst
  obtain rfl : e' = e := Option.some.inj (he'.symm.trans he)
  refine h.take (p := if e' = Entry.ring3Trampoline then .ring3Start else .body) hc h0
    (by rw [hp]; rfl) ht rfl ⟨e', u, hmem, ?_⟩ ⟨rfl, rfl, rfl⟩ ?_ ?_ ?_
  · split_ifs with hring3
    · have hst' : Stage log k.running (k.sched.slotGenerations k.running)
          { t with entry := none } e' u .launching := ⟨hring3, hu, hnone⟩
      exact hst'.concat (fun hc => by cases hc)
    · exact hring3
  · rintro i g e'' heq
    cases heq
    exact ⟨u, _, hmem⟩
  · rintro i g u' cr3 heq
    cases heq
  · intro hcontra
    cases hcontra

/-- **`ring3_trampoline`.** -/
theorem Launched.ring3Trampoline {k : Kernel} {log : List Launch} {u : UserEntry}
    {s : SchedulerState} (h : k.Launched log) (hc : k.InContext)
    (hp : k.point k.running = .ring3Start) (hs : k.sched.takeUserEntry = .ok (u, s)) :
    ({ k with sched := s }.goto .ring3).Launched
      (log ++ [Launch.entered k.running (k.sched.slotGenerations k.running) (some u)
        k.cpu.cr3]) := by
  obtain ⟨t, ht, hu⟩ := takeUserEntry_spec hs
  obtain rfl := takeUserEntry_eq_ok hs
  rw [← hc.running] at ht
  have h0 : k.running ≠ 0 := h.running_ne_zero (Or.inr (by rw [hp]; rfl))
  obtain ⟨e, u', hmem, hst⟩ := h.thread k.running t h0 ht
  rw [hp] at hst
  obtain ⟨rfl, hu', hnone⟩ := hst
  obtain rfl : u' = some u := hu'.symm.trans hu
  -- the thread has a page table, and it is the one in `CR3`
  have hcr3 : t.pageTable = some k.cpu.cr3 := by
    obtain ⟨pt, hpt⟩ := Option.isSome_iff_exists.mp ((h.kinds _ _ _ _ _ hmem).2.1 rfl).2
    rw [h.cr3 (by rw [hp]; rfl) t ht, hpt]
    rfl
  refine h.take (p := .ring3) hc h0 (by rw [hp]; rfl) ht rfl ⟨_, _, hmem, trivial⟩
    ⟨rfl, rfl, rfl⟩ ?_ ?_ ?_
  · rintro i g e' heq
    cases heq
  · rintro i g u' cr3 heq
    cases heq
    rw [← hcr3]
    exact hmem
  · rintro - u' pt' -
    refine ⟨hnone, ?_⟩
    rintro i g params cr3 heq
    cases heq
    rfl

/-- **A kernel-mode body drops to ring 3.**  It is none of `spawn_user`'s threads. -/
theorem Launched.enterRing3 {k : Kernel} {log : List Launch} (h : k.Launched log)
    (hs : k.sched.Safe) (hc : k.InContext) (hp : k.point k.running = .body) :
    (k.goto .ring3).Launched
      (log ++ [Launch.entered k.running (k.sched.slotGenerations k.running) none
        k.cpu.cr3]) := by
  have hpoint : (k.goto .ring3).point k.running = .ring3 := goto_point_running _ _
  refine h.act rfl rfl (fun i hi => ⟨rfl, goto_point_of_ne _ _ hi⟩) ?_ ?_ ?_ ⟨rfl, rfl, rfl⟩
    ?_ ?_ ?_
  · intro h0
    rw [← h0, hpoint]
    decide
  · exact fun t ht => h.cr3 (by rw [hp]; rfl) t ht
  · intro t h0 ht
    obtain ⟨e, u, hmem, -⟩ := h.thread k.running t h0 ht
    rw [hpoint]
    exact ⟨e, u, hmem, trivial⟩
  · rintro i g e heq
    cases heq
  · rintro i g u cr3 heq
    cases heq
  · intro _ u pt hmem
    exfalso
    have hocc := hs.occupied _ k.sched.current_mem_rotation
    rw [← hc.running] at hocc
    obtain ⟨t, ht⟩ := Option.isSome_iff_exists.mp hocc
    obtain ⟨e, u', hmem', hst⟩ := h.thread _ t (h.kinds _ _ _ _ _ hmem).1 ht
    rw [hp] at hst
    exact hst (h.spawned_inj hmem' hmem).1

/-- **One step.** -/
theorem step_launched {k k' : Kernel} {a : Action} {log : List Launch} (h : k.Launched log)
    (hs : k.sched.Safe) (hc : k.InContext) (hcall : a.callable = true)
    (hstep : k.step a = .ok k') : k'.Launched (log ++ k.launchesOf a k') := by
  obtain ⟨hp, hperf⟩ := step_eq_ok hstep
  have hpoint : ∀ p, (∀ q, a.possibleAt q = true → q = p) → k.point k.running = p :=
    fun p hq => hq _ hp
  have hquiet : k'.Launched log → k'.Launched (log ++ []) := by
    rw [List.append_nil]
    exact id
  cases a with
  | spawn base e =>
    obtain ⟨-, -, id, s, hi, rfl⟩ := perform_spawn_eq_ok hperf
    rw [launchesOf, spawnRecord, freeSlot_of_install hi]
    exact h.spawn hs hc hi (adopt_spec hi base).1 rfl rfl
      ⟨fun he => absurd he (by simpa [Action.callable] using hcall), fun hu => by cases hu⟩
  | spawnIsolated base e pt =>
    obtain ⟨-, -, -, id, s, hi, rfl⟩ := perform_spawnIsolated_eq_ok hperf
    rw [launchesOf, spawnRecord, freeSlot_of_install hi]
    exact h.spawn hs hc hi (adopt_spec hi base).1 rfl rfl
      ⟨fun he => absurd he (by simpa [Action.callable] using hcall), fun hu => by cases hu⟩
  | spawnUser base u pt =>
    obtain ⟨-, -, -, id, s, hi, rfl⟩ := perform_spawnUser_eq_ok hperf
    rw [launchesOf, spawnRecord, freeSlot_of_install hi]
    exact h.spawn hs hc hi (adopt_spec hi base).1 rfl rfl
      ⟨fun _ => ⟨rfl, rfl⟩, fun _ => rfl⟩
  | trampoline =>
    obtain ⟨⟨e, s⟩, htake, hperf⟩ := bind_eq_ok hperf
    cases hperf
    have htake' := orPanic_eq_ok htake
    rw [launchesOf, htake']
    refine h.trampoline hc (hpoint _ ?_) htake'
    intro q hq
    cases q <;> first | rfl | cases hq
  | ring3Trampoline =>
    obtain ⟨⟨u, s⟩, htake, hperf⟩ := bind_eq_ok hperf
    cases hperf
    have htake' := orPanic_eq_ok htake
    rw [launchesOf, htake']
    refine h.ring3Trampoline hc (hpoint _ ?_) htake'
    intro q hq
    cases q <;> first | rfl | cases hq
  | enterRing3 =>
    cases hperf
    refine h.enterRing3 hs hc (hpoint _ ?_)
    intro q hq
    cases q <;> first | rfl | cases hq
  | yieldCall =>
    cases hperf
    refine hquiet (h.reapCall ?_ _)
    rw [hpoint .body (by intro q hq; cases q <;> first | rfl | cases hq)]
    rfl
  | exitCall =>
    cases hperf
    refine hquiet (h.reapCall ?_ _)
    rw [hpoint .body (by intro q hq; cases q <;> first | rfl | cases hq)]
    rfl
  | reapStep =>
    obtain ⟨c, dead, stage, hpt, rfl⟩ := perform_reapStep_eq_ok hperf
    exact hquiet (h.reapStep hpt)
  | yieldRest rsp => exact hquiet (h.decision hs hc rfl hstep)
  | exitRest rsp => exact hquiet (h.decision hs hc rfl hstep)
  | tick rsp => exact hquiet (h.decision hs hc rfl hstep)
  | sysYield rsp => exact hquiet (h.decision hs hc rfl hstep)
  | sysExit rsp => exact hquiet (h.decision hs hc rfl hstep)

/-- **The record of every run** from boot in which `ring3_trampoline` is passed to no spawn. -/
theorem launched_of_run {pt : Frame} {rsp rsp0 : ℕ} {k : Kernel} {as : List Action}
    (h : Runs.run step (Kernel.boot pt rsp rsp0) as = .ok k)
    (hcall : ∀ a ∈ as, a.callable = true) :
    k.sched.Safe ∧ k.InContext ∧ k.Launched ((Kernel.boot pt rsp rsp0).launches as) := by
  refine Runs.events_invariant
    (J := fun k log => k.sched.Safe ∧ k.InContext ∧ k.Launched log) h
    ⟨init_safe pt, boot_inContext pt rsp rsp0, boot_launched pt rsp rsp0⟩ ?_
  rintro u a v log ⟨hs, hc, hl⟩ ha hstep
  obtain ⟨hs', hc'⟩ := step_inContext hs hc hstep
  exact ⟨hs', hc', step_launched hl hs hc (hcall a ha) hstep⟩

/-! ## The trampolines find their entries -/

theorem Launched.takeEntry_ne_error {k : Kernel} {log : List Launch} (h : k.Launched log)
    (hs : k.sched.Safe) (hc : k.InContext) (hp : k.point k.running = .fresh) (p : Panic) :
    k.sched.takeEntry ≠ .error p := by
  obtain ⟨t, ht⟩ := Option.isSome_iff_exists.mp (hs.occupied _ k.sched.current_mem_rotation)
  obtain ⟨e, u, -, hst⟩ := h.thread _ t
    (h.running_ne_zero (Or.inl (by rw [hp]; rfl))) (by rw [hc.running]; exact ht)
  rw [hp] at hst
  have he : t.entry = some e := hst.1
  simp [takeEntry, ht, he]

theorem Launched.takeUserEntry_ne_error {k : Kernel} {log : List Launch} (h : k.Launched log)
    (hs : k.sched.Safe) (hc : k.InContext) (hp : k.point k.running = .ring3Start) (p : Panic) :
    k.sched.takeUserEntry ≠ .error p := by
  obtain ⟨t, ht⟩ := Option.isSome_iff_exists.mp (hs.occupied _ k.sched.current_mem_rotation)
  obtain ⟨e, u, hmem, hst⟩ := h.thread _ t
    (h.running_ne_zero (Or.inr (by rw [hp]; rfl))) (by rw [hc.running]; exact ht)
  rw [hp] at hst
  obtain ⟨he, hu, -⟩ := hst
  obtain ⟨v, hv⟩ := Option.isSome_iff_exists.mp ((h.kinds _ _ _ _ _ hmem).2.1 he).1
  simp [takeUserEntry, ht, hu, hv]

/-- Neither trampoline panics. -/
theorem Launched.trampolines_succeed {k : Kernel} {log : List Launch} (h : k.Launched log)
    (hs : k.sched.Safe) (hc : k.InContext) (p : Panic) :
    k.step .trampoline ≠ .error (.panic p) ∧ k.step .ring3Trampoline ≠ .error (.panic p) := by
  constructor
  · intro hstep
    unfold step at hstep
    split_ifs at hstep with hp
    · rcases bind_eq_error hstep with herr | ⟨⟨e, s⟩, -, herr⟩
      · refine h.takeEntry_ne_error hs hc ?_ p (orPanic_eq_panic herr)
        cases hpt : k.point k.running <;> rw [hpt] at hp <;> first | rfl | cases hp
      · cases herr
    · cases hstep
  · intro hstep
    unfold step at hstep
    split_ifs at hstep with hp
    · rcases bind_eq_error hstep with herr | ⟨⟨u, s⟩, -, herr⟩
      · refine h.takeUserEntry_ne_error hs hc ?_ p (orPanic_eq_panic herr)
        cases hpt : k.point k.running <;> rw [hpt] at hp <;> first | rfl | cases hp
      · cases herr
    · cases hstep

/-! ## Programs -/

/-- **Every spawned program starts once, with its own parameters.**  Along every run from boot,
for the thread that `spawn_user(u, pt)` created in generation `g` of slot `i`:

* it is the only thread with this name, and arrives at `enter_ring3` at most once;
* it arrives there with `u` and under `pt`, and whenever it runs in ring 3 afterwards `CR3`
  is `pt`;
* what `thread_trampoline` and `ring3_trampoline` take is what the very thread that runs them
  was spawned with;
* and neither of them ever finds its entry taken. -/
theorem program_starts_once {pt₀ : Frame} {rsp rsp0 : ℕ} {k : Kernel} {as : List Action}
    (h : Runs.run step (Kernel.boot pt₀ rsp rsp0) as = .ok k)
    (hcall : ∀ a ∈ as, a.callable = true) :
    (∀ i g u pt, .spawned i g .ring3Trampoline (some u) (some pt) ∈
        (Kernel.boot pt₀ rsp rsp0).launches as →
      (((Kernel.boot pt₀ rsp rsp0).launches as).filter
        (fun l => l.isSpawn && l.concerns i g)).length = 1 ∧
      (((Kernel.boot pt₀ rsp rsp0).launches as).filter
        (fun l => l.isEnter && l.concerns i g)).length ≤ 1 ∧
      (∀ params cr3, .entered i g params cr3 ∈ (Kernel.boot pt₀ rsp rsp0).launches as →
        params = some u ∧ cr3 = pt) ∧
      (k.running = i → k.sched.slotGenerations i = g → k.point i = .ring3 → k.cpu.cr3 = pt)) ∧
    (∀ i g e, .started i g e ∈ (Kernel.boot pt₀ rsp rsp0).launches as →
      ∃ u pt, .spawned i g e u pt ∈ (Kernel.boot pt₀ rsp rsp0).launches as) ∧
    (∀ i g u cr3, .entered i g (some u) cr3 ∈ (Kernel.boot pt₀ rsp rsp0).launches as →
      .spawned i g .ring3Trampoline (some u) (some cr3) ∈
        (Kernel.boot pt₀ rsp rsp0).launches as) ∧
    (∀ p, k.step .trampoline ≠ .error (.panic p) ∧
      k.step .ring3Trampoline ≠ .error (.panic p)) := by
  obtain ⟨hs, hc, hl⟩ := launched_of_run h hcall
  refine ⟨fun i g u pt hmem => ⟨?_, (hl.once i g _ _ hmem).1, ?_, ?_⟩, hl.starts, hl.enters,
    hl.trampolines_succeed hs hc⟩
  · refine Nat.le_antisymm (hl.spawns i g) (List.length_pos_of_mem (List.mem_filter.mpr ⟨hmem, ?_⟩))
    simp [Launch.isSpawn, Launch.concerns, Launch.slot, Launch.generation]
  · intro params cr3 hen
    obtain ⟨v, rfl⟩ := Option.isSome_iff_exists.mp ((hl.once i g _ _ hmem).2 params cr3 hen)
    obtain ⟨-, hu, hpt⟩ := hl.spawned_inj (hl.enters i g v cr3 hen) hmem
    exact ⟨hu, Option.some.inj hpt⟩
  · rintro rfl rfl hring3
    have hocc := hs.occupied _ k.sched.current_mem_rotation
    rw [← hc.running] at hocc
    obtain ⟨t, ht⟩ := Option.isSome_iff_exists.mp hocc
    obtain ⟨e, u', hmem', -⟩ := hl.thread _ t (hl.kinds _ _ _ _ _ hmem).1 ht
    rw [hl.cr3 (by rw [hring3]; rfl) t ht, (hl.spawned_inj hmem' hmem).2.2]
    rfl

/-- The parameters of a program linked at `base`. -/
def programAt (base : Fin 0x1000) : UserEntry where
  entry := ⟨base.val, Or.inl (by omega)⟩
  stackTop := ⟨base.val + 0x2000, Or.inl (by omega)⟩
  argsPtr := ⟨base.val + 0x3000, Or.inl (by omega)⟩
  argsLen := base.val

/-- Two programs are spawned and preempted inside their trampolines.  The first exits, its slot
is taken by a third one, and that one starts. -/
def threeProgramsRun : List Action :=
  [.spawnUser 0x10000 (programAt 1) 7, .spawnUser 0x20000 (programAt 2) 8, .yieldCall,
   .yieldRest 100, .trampoline, .tick 200, .trampoline, .tick 300, .tick 400, .ring3Trampoline,
   .sysExit 500, .ring3Trampoline, .tick 600, .spawnUser 0x10000 (programAt 3) 7, .yieldCall,
   .yieldRest 700, .tick 800, .trampoline, .ring3Trampoline]

theorem program_starts_once_threeProgramsRun :
    ∃ k, Runs.run step (Kernel.boot 1 0 0) threeProgramsRun = .ok k ∧
      .entered 1 1 (some (programAt 1)) 7 ∈ (Kernel.boot 1 0 0).launches threeProgramsRun ∧
      .entered 1 2 (some (programAt 3)) 7 ∈ (Kernel.boot 1 0 0).launches threeProgramsRun ∧
      (((Kernel.boot 1 0 0).launches threeProgramsRun).filter
        (fun l => l.isEnter && l.concerns 1 2)).length ≤ 1 ∧ k.cpu.cr3 = 7 := by
  obtain ⟨k, hk, htest⟩ := Runs.exists_ok_of_any
    (x := Runs.run step (Kernel.boot 1 0 0) threeProgramsRun)
    (fun k => decide (k.running = 1 ∧ k.sched.slotGenerations 1 = 2 ∧
      (k.point 1).phase = .user)) (by decide)
  obtain ⟨hrun, hgen, hphase⟩ := of_decide_eq_true htest
  have hpoint : k.point 1 = .ring3 := by
    cases hp : k.point 1 <;> rw [hp] at hphase <;> first | rfl | cases hphase
  have hmem : .spawned 1 2 .ring3Trampoline (some (programAt 3)) (some 7) ∈
      (Kernel.boot 1 0 0).launches threeProgramsRun := by decide
  have hprog := (program_starts_once hk (by decide)).1 1 2 _ _ hmem
  exact ⟨k, hk, by decide, by decide, hprog.2.1, hprog.2.2.2 hrun hgen hpoint⟩

end Kernel
