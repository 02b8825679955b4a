/-
# Programs from files

`SYS_SPAWN` reads a file, makes an address space for it and starts a thread.  In the worlds of
`Isolation` this is a run of events like any other, and none of them is about a space that there was
before (`Guarded.reach_plan`, `Guarded.reach_spawnUser`): whoever is running already notices
nothing.

The program that is started sees the pages that its file asks for, filled as the file says, and
nothing else (`Plan.view`).  So it is its file that decides what the program does.
-/
import Velora.DemoSpaces

open MachineCode hiding Word
open Traces

/-! ## What a file asks for -/

namespace Plan

/-- The page of an address, if the file asks for it. -/
def pageOf (p : Plan) (a : ℕ) : Option Request := p.pages.find? fun q => q.addr == a - a % 4096

/-- **What a program sees when it starts**: the pages of its file, and nothing else. -/
def view (p : Plan) (keys : List UInt8) : View where
  byte a := (p.pageOf a).map fun q => (q.bytes[a % 4096]?).getD 0
  writable a := (p.pageOf a).any fun q => PageTableEntry.writable q.flags
  keys := keys
  files _ := none

end Plan

/-! ## The call -/

section Call

variable {σ : Type} {A : FrameAllocator σ} {mapTo : MapTo σ} {env : SpawnEnv}

/-- What is left of `spawn_from_path` when it has returned. -/
theorem SyscallState.spawnFromPath_cases {path args : List UInt8} {pid : Option Pid}
    {h h' : SyscallState σ}
    (hcall : h.spawnFromPath A mapTo env path args = some (.ok (pid, h'))) :
    (pid = none ∧ h' = h) ∨ ∃ data machine loaded,
      Fs.readFile env.heapRoom env.disk env.rounds path = some (.ok (some data)) ∧
      load A mapTo h.cr3 env.off (data.map UInt8.toBitVec) (args.map UInt8.toBitVec) h.machine =
        .ok (machine, loaded) ∧
      ((loaded = none ∧ pid = none ∧ h'.toSystem = { h.toSystem with machine }) ∨
        ∃ elf pid', loaded = some elf ∧ pid = some pid' ∧
          System.spawnUser mapTo h.cr3 env.stackBase elf { machine, sched := h.sched } =
            .ok (pid', h'.toSystem)) := by
  rw [spawnFromPath] at hcall
  rcases hread : Fs.readFile env.heapRoom env.disk env.rounds path with _ | _ | _ | data
  · rw [hread] at hcall
    cases hcall
  · rw [hread] at hcall
    cases hcall
  · rw [hread] at hcall
    cases hcall
    exact Or.inl ⟨rfl, rfl⟩
  · rw [hread] at hcall
    obtain ⟨⟨machine, loaded⟩, hload, hcall⟩ := bind_eq_ok (Option.some.inj hcall)
    refine Or.inr ⟨data, machine, loaded, rfl, hload, ?_⟩
    cases loaded with
    | none =>
      cases hcall
      exact Or.inl ⟨rfl, rfl, rfl⟩
    | some elf =>
      obtain ⟨⟨pid', s⟩, hspawn, hcall⟩ := bind_eq_ok hcall
      cases hcall
      exact Or.inr ⟨elf, pid', rfl, rfl, hspawn⟩

/-- A call has been made with this path and these arguments, both read from the caller's memory. -/
structure SyscallState.Names (pathPtr pathLen argsPtr argsLen : ℕ) (path args : List UInt8)
    (h : SyscallState σ) : Prop where
  path : copyFromUser h.machine.mem h.cr3 pathPtr pathLen = .ok (some path)
  args : (if argsLen > 0 then copyFromUser h.machine.mem h.cr3 argsPtr argsLen
    else .ok (some [])) = .ok (some args)

/-- The file that the call names asks only for pages below entries of the level-4 table that are not
shared with the kernel. -/
def SyscallState.OwnPages (env : SpawnEnv) (pathPtr pathLen argsPtr argsLen : ℕ)
    (h : SyscallState σ) : Prop :=
  ∀ path args data, h.Names pathPtr pathLen argsPtr argsLen path args →
    Fs.readFile env.heapRoom env.disk env.rounds path = some (.ok (some data)) →
      ∀ q ∈ (plan (data.map UInt8.toBitVec) (args.map UInt8.toBitVec)).pages,
        owned env.off q.slot = true

/-- **What `sys_spawn` has done when it returns**: nothing, or it has loaded a file in vain, or it
has loaded it and started a thread. -/
theorem SyscallState.sysSpawn_cases {pathPtr pathLen argsPtr argsLen : ℕ} {rax : UInt64}
    {h h' : SyscallState σ}
    (hcall : h.sysSpawn A mapTo env pathPtr pathLen argsPtr argsLen =
      some (.ok (.returns rax h'))) :
    (rax = u64Max ∧ h'.toSystem = h.toSystem) ∨ ∃ path args data machine loaded,
      h.Names pathPtr pathLen argsPtr argsLen path args ∧
      Fs.readFile env.heapRoom env.disk env.rounds path = some (.ok (some data)) ∧
      load A mapTo (toPhysFrame h.sched.kernelPageTable) env.off (data.map UInt8.toBitVec)
        (args.map UInt8.toBitVec) h.machine = .ok (machine, loaded) ∧
      ((loaded = none ∧ rax = u64Max ∧ h'.toSystem = { h.toSystem with machine }) ∨
        ∃ elf, loaded = some elf ∧
          System.spawnUser mapTo (toPhysFrame h.sched.kernelPageTable) env.stackBase elf
            { machine, sched := h.sched } = .ok (rax, h'.toSystem)) := by
  rw [sysSpawn] at hcall
  by_cases hbad : pathLen = 0 ∨ pathLen > 255 ∨ argsLen > 255
  · rw [if_pos hbad] at hcall
    cases hcall
    exact Or.inl ⟨rfl, rfl⟩
  rw [if_neg hbad] at hcall
  rcases hpath : copyFromUser h.machine.mem h.cr3 pathPtr pathLen with _ | _ | path
  · rw [hpath] at hcall
    cases hcall
  · rw [hpath] at hcall
    cases hcall
  rw [hpath] at hcall
  cases hutf8 : validUtf8 path with
  | false =>
    simp only [hutf8, Bool.not_false, if_true] at hcall
    cases hcall
    exact Or.inl ⟨rfl, rfl⟩
  | true =>
    simp only [hutf8, Bool.not_true, Bool.false_eq_true, if_false] at hcall
    rcases hargs : (if argsLen > 0 then copyFromUser h.machine.mem h.cr3 argsPtr argsLen
      else .ok (some [])) with _ | _ | args
    · rw [hargs] at hcall
      cases hcall
    · rw [hargs] at hcall
      cases hcall
    rw [hargs] at hcall
    obtain ⟨r, hr, hcall⟩ := Option.map_eq_some_iff.1 hcall
    cases r with
    | error p => cases hcall
    | ok r =>
      obtain ⟨pid, h''⟩ := r
      cases hcall
      rcases spawnFromPath_cases hr with ⟨rfl, rfl⟩ | ⟨data, machine, loaded, hread, hload, hend⟩
      · exact Or.inl ⟨rfl, rfl⟩
      · refine Or.inr ⟨path, args, data, machine, loaded, ⟨hpath, hargs⟩, hread, hload, ?_⟩
        rcases hend with ⟨rfl, rfl, hsys⟩ | ⟨elf, pid', rfl, rfl, hspawn⟩
        · exact Or.inl ⟨rfl, rfl, hsys⟩
        · exact Or.inr ⟨elf, rfl, hspawn⟩

end Call

/-! ## The call as a run of events -/

namespace World

variable {mapTo : MapTo BootInfoFrameAllocator} {map : MemoryMap} {cr3 : PhysFrame} {off : Fin 512}
  {m₀ m₁ m₂ : Machine BootInfoFrameAllocator} {w w' : World} {l4 : PhysFrame}
  {bytes args : List Byte}

/-- An event that is admitted and not about a space of the world `w₀`. -/
def Aside (cr3 : PhysFrame) (off : Fin 512) (m₀ : Machine BootInfoFrameAllocator) (w₀ w : World)
    (e : Event) : Prop :=
  Admitted cr3 off m₀ w e ∧ ∀ id s, w₀.space id = some s → ¬ e.About w id

/-- The kernel's table is always the same. -/
theorem kernelPageTable_of_reap {system : System BootInfoFrameAllocator}
    (hr : w.toSystem.reapZombie bootInfo off = .ok system) :
    system.sched.kernelPageTable = w.sched.kernelPageTable := by
  obtain ⟨-, -, -, htable, -⟩ := w.sched.reapTake_spec
  rcases w.toSystem.reapZombie_eq bootInfo off with ⟨z, sp, -, -, heq⟩ | ⟨-, heq⟩
  · rw [heq] at hr
    cases hfree : freeAddressSpace bootInfo off sp.borrowed sp.l4 w.machine with
    | error p =>
      rw [hfree] at hr
      cases hr
    | ok machine =>
      rw [hfree] at hr
      cases hr
      exact htable
  · rw [heq] at hr
    cases hr
    exact htable

theorem kernelPageTable_of_step {a : Action} (hr : World.step mapTo cr3 off w a = .ok w') :
    w'.sched.kernelPageTable = w.sched.kernelPageTable := by
  cases a with
  | newAddressSpace active =>
    obtain ⟨⟨l4, machine⟩, -, hr⟩ := bind_eq_ok hr
    cases hr
    rfl
  | mapPage noFrames failed l4 page flags fill =>
    obtain ⟨machine, -, hr⟩ := bind_eq_ok hr
    cases hr
    rfl
  | spawnIsolatedInner l4 stackBase entry userEntry =>
    obtain ⟨⟨pid, system⟩, hspawn, hr⟩ := bind_eq_ok hr
    cases hr
    obtain ⟨-, -, hsched⟩ := System.spawnIsolatedInner_eq_ok hspawn
    obtain ⟨-, j, hinstall, -⟩ := Kernel.spawnIsolatedInner_eq_ok hsched
    obtain ⟨-, -, -, -, -, htable, -⟩ := SchedulerState.install_spec hinstall
    exact htable
  | spawn stackBase entry =>
    obtain ⟨sched, hspawn, hr⟩ := bind_eq_ok hr
    cases hr
    obtain ⟨-, j, hinstall⟩ := Kernel.spawn_eq_ok hspawn
    obtain ⟨-, -, -, -, -, htable, -⟩ := SchedulerState.install_spec hinstall
    exact htable
  | schedule rsp =>
    obtain ⟨system, hsys, hr⟩ := bind_eq_ok hr
    cases hr
    obtain ⟨s₁, hreap, hsys⟩ := bind_eq_ok hsys
    obtain ⟨⟨switch, sched⟩, hrest, hsys⟩ := bind_eq_ok hsys
    have htable : sched.kernelPageTable = s₁.sched.kernelPageTable := by
      rcases SchedulerState.scheduleRest_spec hrest with
        ⟨-, rfl, -⟩ | ⟨-, -, -, -, -, -, -, -, -, htable, -⟩
      · rfl
      · exact htable
    rw [← kernelPageTable_of_reap hreap, ← htable]
    cases switch <;> cases hsys <;> rfl
  | exitCurrentThread rsp =>
    obtain ⟨system, hsys, hr⟩ := bind_eq_ok hr
    cases hr
    obtain ⟨s₁, hreap, hsys⟩ := bind_eq_ok hsys
    obtain ⟨⟨switch, sched⟩, hrest, hsys⟩ := bind_eq_ok hsys
    obtain ⟨-, -, -, -, -, -, -, -, htable, -⟩ := SchedulerState.exitRest_spec hrest
    cases hsys
    rw [← kernelPageTable_of_reap hreap, ← htable]
    rfl
  | reapZombie =>
    obtain ⟨system, hsys, hr⟩ := bind_eq_ok hr
    cases hr
    exact kernelPageTable_of_reap hsys
  | discard l4 =>
    obtain ⟨machine, -, hr⟩ := bind_eq_ok hr
    cases hr
    rfl
  | store f words =>
    cases hr
    rfl
  | setFiles files =>
    cases hr
    rfl

theorem kernelPageTable_of_events (hmap : MapTo.Documented bootInfo mapTo)
    (hboot : Booted map cr3 m₀) (hk : KernelOnly off m₀.mem cr3)
    (hreach : Runs.Reach (Event.step mapTo cr3 off) (Admitted cr3 off m₀) (start cr3 m₀) w) :
    toPhysFrame w.sched.kernelPageTable = cr3 := by
  have hinv : Guarded cr3 off m₀ w ∧ w.sched.kernelPageTable = cr3.val := by
    refine hreach.invariant (I := fun u => Guarded cr3 off m₀ u ∧
      u.sched.kernelPageTable = cr3.val) ⟨guarded_start hboot, rfl⟩ ?_
    rintro u e v ⟨hu, htable⟩ ha hr
    obtain ⟨a, -, -, hstep, -⟩ := hu.exists_action hboot hk ha hr
    exact ⟨hu.event hmap hboot hk ha hr, (kernelPageTable_of_step hstep).trans htable⟩
  rw [hinv.2, toPhysFrame]
  exact Fin.ofNat_val_eq_self cr3

/-- A table without a thread that has a space. -/
theorem mem_unspawned_of_space {s : AddrSpace} (hs : w.space (.unspawned l4) = some s) :
    l4 ∈ w.unspawned := by
  by_contra hc
  rw [space, if_neg hc] at hs
  cases hs

/-- The page that is mapped for a request. -/
theorem p4Index_pageAt {q : Request} (hq : q.Ok) : (pageAt q.addr).start.p4Index = q.slot := by
  have hpath := path_pageAt hq.lower hq.aligned
  exact (List.cons.inj hpath).1

/-- **Requests are events**, one after the other. -/
theorem reach_mapRequests {w₀ u : World} {qs : List Request}
    (hspace : ∃ s, u.space (.unspawned l4) = some s ∧ s.l4 = l4)
    (hnot : ∀ id s, w₀.space id = some s → ∀ s', u.space id = some s' → s'.l4 ≠ l4)
    (hqs : ∀ q ∈ qs, q.Ok) (hown : ∀ q ∈ qs, owned off q.slot = true)
    (hrun : qs.foldlM (mapRequest bootInfo mapTo l4) u.machine = .ok m₂) :
    Runs.Reach (Event.step mapTo cr3 off) (Aside cr3 off m₀ w₀) u { u with machine := m₂ } := by
  induction qs generalizing u with
  | nil =>
    cases hrun
    exact .refl
  | cons q qs ih =>
    rw [List.forall_mem_cons] at hqs hown
    rw [List.foldlM_cons] at hrun
    obtain ⟨m, hone, hrun⟩ := bind_eq_ok hrun
    rw [mapRequest_eq_mapFreshPage] at hone
    have hstep : Event.step mapTo cr3 off u (.kernel (.mapPage .noFramesForSegment
        .mapSegmentFailed l4 (pageAt q.addr) q.flags (Fill.segment q.bytes))) =
        .ok { u with machine := m } := by
      rw [Event.step, World.step, hone]
      rfl
    have hlow : ((pageAt q.addr).start.p4Index : ℕ) < 256 := by
      have hlower := hqs.1.lower
      rw [p4Index_pageAt hqs.1]
      show q.addr / 0x8000000000 % 512 < 256
      omega
    have hadmitted : Admitted cr3 off m₀ u (.kernel (.mapPage .noFramesForSegment
        .mapSegmentFailed l4 (pageAt q.addr) q.flags (Fill.segment q.bytes))) := by
      refine ⟨⟨?_, ?_, hqs.1.plain⟩, hlow⟩
      · obtain ⟨s, hs, hl4⟩ := hspace
        exact ⟨_, s, hs, hl4⟩
      · rw [p4Index_pageAt hqs.1]
        exact hown.1
    refine (Runs.Reach.refl.tail ⟨hadmitted, ?_⟩ hstep).trans
      (ih (u := { u with machine := m }) hspace hnot hqs.2 hown.2 hrun)
    rintro id s hs ⟨s', hs', hl4⟩
    exact hnot id s hs s' hs' hl4

/-- **A space for a file** is made by a run of events. -/
theorem Guarded.reach_plan (hboot : Booted map cr3 m₀) (h : Guarded cr3 off m₀ w)
    (hnew : newAddressSpace bootInfo w.machine cr3 off = .ok (l4, m₁))
    (hlow : ∀ s ∈ (plan bytes args).segments, s.Lower)
    (hown : ∀ q ∈ (plan bytes args).pages, owned off q.slot = true)
    (hrun : (plan bytes args).pages.foldlM (mapRequest bootInfo mapTo l4) m₁ = .ok m₂) :
    l4 ∉ w.unspawned ∧ Runs.Reach (Event.step mapTo cr3 off) (Aside cr3 off m₀ w) w
      { w with machine := m₂, unspawned := insert l4 w.unspawned } := by
  have hunspawned := h.new_not_unspawned hboot hnew
  have hfirst : Aside cr3 off m₀ w w (.kernel (.newAddressSpace cr3)) := by
    refine ⟨⟨Or.inl rfl, trivial⟩, ?_⟩
    intro id s hs hnone
    rw [show w.space id = none from hnone] at hs
    cases hs
  refine ⟨hunspawned, (Runs.Reach.refl.tail hfirst (step_newAddressSpace hnew)).trans
    (reach_mapRequests (u := { w with machine := m₁, unspawned := insert l4 w.unspawned })
      ⟨_, if_pos (Finset.mem_insert_self l4 w.unspawned), rfl⟩ ?_ (plan_request_ok hlow) hown hrun)⟩
  intro id s hs s' hs'
  cases id with
  | unspawned l4' =>
    have hmem := mem_unspawned_of_space hs
    rw [space, if_pos (Finset.mem_insert_of_mem hmem)] at hs'
    cases hs'
    rintro rfl
    exact hunspawned hmem
  | thread i =>
    obtain rfl := Option.some.inj (hs.symm.trans hs')
    exact h.new_not_space hboot hnew hs

/-- **A file that is given up** leaves a run of events behind. -/
theorem Guarded.reach_load_none (hboot : Booted map cr3 m₀) (h : Guarded cr3 off m₀ w)
    (hown : ∀ q ∈ (plan bytes args).pages, owned off q.slot = true)
    (hload : load bootInfo mapTo cr3 off bytes args w.machine = .ok (m₂, none)) :
    Runs.Reach (Event.step mapTo cr3 off) (Aside cr3 off m₀ w) w { w with machine := m₂ } := by
  rcases load_eq_ok hload with ⟨-, rfl, -⟩ | ⟨-, l4, m₁, m, hnew, hall, hend⟩
  · exact .refl
  rcases hend with ⟨_, _, _, _, _, _, hc⟩ | ⟨_, _, hfree⟩
  · cases hc
  obtain ⟨hlow, hrun⟩ := (mapAll_eq_ok plan_accepted).1 hall
  obtain ⟨hunspawned, hreach⟩ := h.reach_plan hboot hnew hlow hown hrun
  have hdiscard : Event.step mapTo cr3 off
      { w with machine := m, unspawned := insert l4 w.unspawned } (.kernel (.discard l4)) =
      .ok { w with machine := m₂ } := by
    rw [Event.step, World.step, hfree]
    show Except.ok (World.mk ⟨m₂, w.sched⟩ ((insert l4 w.unspawned).erase l4)) = _
    rw [Finset.erase_insert hunspawned]
  have hadmitted : Admitted cr3 off m₀
      { w with machine := m, unspawned := insert l4 w.unspawned } (.kernel (.discard l4)) :=
    ⟨Finset.mem_insert_self l4 w.unspawned, trivial⟩
  refine hreach.tail ⟨hadmitted, ?_⟩ hdiscard
  rintro id s hs rfl
  exact hunspawned (mem_unspawned_of_space hs)

/-- **A program that is started** is started by a run of events. -/
theorem Guarded.reach_spawnUser (hboot : Booted map cr3 m₀) (h : Guarded cr3 off m₀ w)
    {stackBase : ℕ} (hblock : stackBase = 0 ∨ HeapBlock stackBase)
    (hown : ∀ q ∈ (plan bytes args).pages, owned off q.slot = true) {elf : LoadedElf}
    (hload : load bootInfo mapTo cr3 off bytes args w.machine = .ok (m₂, some elf)) {pid : Pid}
    {system : System BootInfoFrameAllocator}
    (hspawn : System.spawnUser mapTo cr3 stackBase elf { machine := m₂, sched := w.sched } =
      .ok (pid, system)) :
    Runs.Reach (Event.step mapTo cr3 off) (Aside cr3 off m₀ w) w
        { w with machine := m₂, unspawned := insert elf.pageTable w.unspawned } ∧
      Runs.Reach (Event.step mapTo cr3 off) (Aside cr3 off m₀ w) w
        { w with toSystem := system } := by
  obtain ⟨m₁, hnew, hlow, hrun, -⟩ := load_eq_some hload
  obtain ⟨hunspawned, hreach⟩ := h.reach_plan hboot hnew hlow hown hrun
  have hadmitted : Admitted cr3 off m₀
      { w with machine := m₂, unspawned := insert elf.pageTable w.unspawned }
      (.kernel (.spawnIsolatedInner elf.pageTable stackBase .ring3Trampoline
        (some ⟨elf.entry, elf.stackTop, elf.argsPtr, elf.argsLen⟩))) :=
    ⟨⟨Finset.mem_insert_self elf.pageTable w.unspawned, hblock⟩, trivial⟩
  refine ⟨hreach, hreach.tail ⟨hadmitted, ?_⟩ (step_spawnIsolatedInner hunspawned hspawn)⟩
  rintro id s hs (rfl | hnone)
  · exact hunspawned (mem_unspawned_of_space hs)
  · cases id with
    | unspawned l4 =>
      have hmem := mem_unspawned_of_space hs
      rw [space, if_pos (Finset.mem_insert_of_mem hmem)] at hnone
      cases hnone
    | thread i =>
      rw [show w.space (.thread i) = none from hnone] at hs
      cases hs

/-- **What a run aside leaves**: every space of the world is kept. -/
theorem Guarded.kept_aside (hmap : MapTo.Documented bootInfo mapTo) (hboot : Booted map cr3 m₀)
    (hk : KernelOnly off m₀.mem cr3) (h : Guarded cr3 off m₀ w)
    (hreach : Runs.Reach (Event.step mapTo cr3 off) (Aside cr3 off m₀ w) w w') {id : Owner}
    {s : AddrSpace} (hs : w.space id = some s) :
    Guarded cr3 off m₀ w' ∧ Kept off w w' id s :=
  h.kept_run hmap hboot hk hs (hreach.mono fun _ _ ha => ⟨ha.1, ha.2 id s hs⟩)

end World

/-! ## What the program sees -/

/-- A space that has just been made lets nothing through. -/
theorem newAddressSpace_permits_owned {σ : Type} {A : FrameAllocator σ} {S : A.Spec}
    {m m' : Machine σ} {cr3 l4 : PhysFrame} {off : Fin 512} (hv : S.valid m.frames)
    (hcr3 : cr3 ∉ S.free m.frames) (hnew : newAddressSpace A m cr3 off = .ok (l4, m')) :
    Permits S l4 (owned off) (owned off) m' ∅ := by
  obtain ⟨hspace, -, -, hwalk⟩ := newAddressSpace_own hv hcr3 (fun _ hi => Or.inl hi) hnew
  refine ⟨hspace, ?_, by simp⟩
  intro ρ j t hρ ht _
  obtain ⟨rfl, -⟩ := hwalk ρ t ht
  cases hρ

/-- The pages of a file are for ring 3. -/
theorem Plan.user_flags {p : Plan} {q : Request} (hq : q ∈ p.pages) :
    PageTableEntry.user q.flags = true := by
  obtain ⟨s, -, hs⟩ := List.mem_flatMap.1 hq
  obtain ⟨i, -, rfl⟩ := Segment.mem_requests.1 hs
  exact user_segmentFlags s.writable

/-- The page of an address, where no page is asked for twice. -/
theorem Plan.pageOf_eq_some {p : Plan} (hnodup : (p.pages.map Request.addr).Nodup) {a : ℕ}
    {q : Request} : p.pageOf a = some q ↔ q ∈ p.pages ∧ q.addr = a - a % 4096 := by
  constructor
  · intro h
    have hbeq : (q.addr == a - a % 4096) = true :=
      List.find?_some (p := fun q : Request => q.addr == a - a % 4096) h
    exact ⟨List.mem_of_find?_eq_some h, beq_iff_eq.1 hbeq⟩
  · rintro ⟨hq, haddr⟩
    cases hfind : p.pageOf a with
    | none => exact absurd (beq_iff_eq.2 haddr) (List.find?_eq_none.1 hfind q hq)
    | some q' =>
      have hbeq : (q'.addr == a - a % 4096) = true :=
        List.find?_some (p := fun q : Request => q.addr == a - a % 4096) hfind
      rw [List.inj_on_of_nodup_map hnodup (List.mem_of_find?_eq_some hfind) hq
        ((beq_iff_eq.1 hbeq).trans haddr.symm)]

namespace World

variable {mapTo : MapTo BootInfoFrameAllocator} {map : MemoryMap} {cr3 : PhysFrame} {off : Fin 512}
  {m₀ m₂ : Machine BootInfoFrameAllocator} {w : World} {bytes args : List Byte}

/-- **The pages of a file and nothing else**: what the tables of a space hold for ring 3. -/
structure Holds (off : Fin 512) (m : Machine BootInfoFrameAllocator) (l4 : PhysFrame) (p : Plan) :
    Prop where
  ok : ∀ q ∈ p.pages, q.Ok
  nodup : (p.pages.map Request.addr).Nodup
  leaves : LeavesFrom m.mem l4 (owned off) {x | ∃ q ∈ p.pages, x = q.mapping}
  granted : ∀ q ∈ p.pages, Granted m.mem l4 (owned off) (pathOf q.addr) q.flags
  loaded : ∀ q ∈ p.pages, q.Loaded bootInfoSpec l4 (owned off) m

/-- Loading a file. -/
theorem Guarded.holds_of_load (hmap : MapTo.Documented bootInfo mapTo) (hboot : Booted map cr3 m₀)
    (h : Guarded cr3 off m₀ w) (hown : ∀ q ∈ (plan bytes args).pages, owned off q.slot = true)
    {elf : LoadedElf}
    (hload : load bootInfo mapTo cr3 off bytes args w.machine = .ok (m₂, some elf)) :
    Holds off m₂ elf.pageTable (plan bytes args) := by
  obtain ⟨m₁, hnew, hlow, hrun, -⟩ := load_eq_some hload
  have hoks := plan_request_ok hlow
  have hempty := newAddressSpace_permits_owned h.books.valid
    (h.books.active_not_mem hboot (Or.inl rfl)) hnew
  obtain ⟨-, -, hloaded, hnodup, -⟩ := mapRequests_spec hmap hempty.space hoks hown hrun
  have hpermits := mapRequests_permits hmap hempty hoks hown hrun
  refine ⟨hoks, hnodup, ?_, ?_, hloaded⟩
  · have hleaves := hpermits.leaves
    rwa [Set.union_empty] at hleaves
  · intro q hq
    exact (hpermits.granted q.mapping (Or.inl ⟨q, hq, rfl⟩)).2.2

/-- Starting the thread adds nothing. -/
theorem Holds.spawned (hmap : MapTo.Documented bootInfo mapTo) (hboot : Booted map cr3 m₀)
    {l4 : PhysFrame} {p : Plan} (h : Guarded cr3 off m₀ w) (hholds : Holds off w.machine l4 p)
    {stackBase : ℕ} (hl4 : l4 ∈ w.unspawned) (hblock : HeapBlock stackBase)
    (hshare : shareStack mapTo cr3 l4 stackBase w.machine = .ok m₂) : Holds off m₂ l4 p := by
  have hs : w.space (.unspawned l4) = some ⟨l4, (0, 0)⟩ := if_pos hl4
  have hspace := (h.books.spaces _ _ hs).order.space
  obtain ⟨hext, hleaves⟩ := h.books.shareStack_extends hmap hboot hl4 hblock hshare
  refine ⟨hholds.ok, hholds.nodup, hleaves _ hholds.leaves, fun q hq => ?_,
    fun q hq => (hholds.loaded q hq).extends hspace hext⟩
  obtain ⟨f, hmaps, -⟩ := hholds.loaded q hq
  exact Granted.extends hspace hext (length_pathOf q.addr).le hmaps (hholds.granted q hq)

/-- **The thread of a file that has been loaded**: it has the space that was made, which holds the
pages of the file, and starts where the file says. -/
theorem Guarded.holds_of_spawnUser (hmap : MapTo.Documented bootInfo mapTo)
    (hboot : Booted map cr3 m₀) (hk : KernelOnly off m₀.mem cr3) (h : Guarded cr3 off m₀ w)
    {stackBase : ℕ} (hblock : stackBase = 0 ∨ HeapBlock stackBase)
    (hown : ∀ q ∈ (plan bytes args).pages, owned off q.slot = true) {elf : LoadedElf}
    (hload : load bootInfo mapTo cr3 off bytes args w.machine = .ok (m₂, some elf)) {pid : Pid}
    {system : System BootInfoFrameAllocator}
    (hspawn : System.spawnUser mapTo cr3 stackBase elf { machine := m₂, sched := w.sched } =
      .ok (pid, system)) :
    ∃ i, pid = packPid i (system.sched.slotGenerations i) ∧
      (system.sched.threads i).bind Thread.space =
        some ⟨elf.pageTable, (stackBase, stackBase + threadStackSize)⟩ ∧
      (Kernel.filesOf system.sched i = some fun _ => none) ∧
      (system.sched.threads i).bind Thread.userEntry =
        some ⟨elf.entry, elf.stackTop, elf.argsPtr, elf.argsLen⟩ ∧
      Holds off system.machine elf.pageTable (plan bytes args) := by
  obtain ⟨hloaded, -⟩ := h.reach_spawnUser hboot hblock hown hload hspawn
  have h₂ := hloaded.invariant h fun u e u' hu ha hr => hu.event hmap hboot hk ha.1 hr
  obtain ⟨hbase, hshare, -⟩ := System.spawnIsolatedInner_eq_ok hspawn
  obtain ⟨i, hpid, hspace, hfiles, hentry⟩ := space_of_spawn
    (w := { w with machine := m₂, unspawned := insert elf.pageTable w.unspawned }) hspawn
  exact ⟨i, hpid, hspace, hfiles, hentry, (h.holds_of_load hmap hboot hown hload).spawned hmap hboot
    (w := { w with machine := m₂, unspawned := insert elf.pageTable w.unspawned }) h₂
    (Finset.mem_insert_self elf.pageTable w.unspawned) (hblock.resolve_left hbase) hshare⟩

section Exact

variable {p : Plan} {id : Owner} {s : AddrSpace} (h : Guarded cr3 off m₀ w)
  (hk : KernelOnly off m₀.mem cr3) (hs : w.space id = some s) (hholds : Holds off w.machine s.l4 p)
include h hk hs hholds

/-- **What ring 3 may use is what the file asks for.** -/
theorem Holds.userWalk_iff {page : Page} {needWrite : Bool} :
    UserWalk w.machine.mem needWrite s.l4 page.path ↔ ∃ q ∈ p.pages,
      page.start.val = q.addr ∧ (needWrite = true → PageTableEntry.writable q.flags = true) := by
  constructor
  · intro hu
    have hown := h.owned_of_userWalk hk hs hu
    obtain ⟨t, ht, hgrants⟩ := UserWalk.follow
      (ρ := [page.start.p4Index, page.start.p3Index, page.start.p2Index]) hu
    have hwalk := (h.books.spaces id s hs).order.space.walk_owned (x := t) (fun _ hi => hi)
      (π := [page.start.p4Index, page.start.p3Index, page.start.p2Index]) (by simp) fun i hi => by
        obtain rfl := Option.some.inj hi
        exact hown
    obtain ⟨flags, ⟨q, hq, hmapping⟩, -, hwrite⟩ := hholds.leaves _ _ t rfl (hwalk.1 ht) hgrants.2.1
    obtain ⟨hpath, rfl⟩ := Prod.mk.inj hmapping
    exact ⟨q, hq, (hholds.ok q hq).path_eq_iff.1 hpath, fun hneed => hwrite (hgrants.2.2.1 hneed)⟩
  · rintro ⟨q, hq, haddr, hwrite⟩
    obtain ⟨f, hmaps, -⟩ := hholds.loaded q hq
    rw [(hholds.ok q hq).path_eq_iff.2 haddr]
    exact userWalk_of_mapped hmaps (hholds.granted q hq) (Plan.user_flags hq) hwrite

theorem Holds.userMay_iff {a : ℕ} {needWrite : Bool} :
    UserMay w.machine.mem s.l4 needWrite a ↔ ∃ q, p.pageOf a = some q ∧
      (needWrite = true → PageTableEntry.writable q.flags = true) := by
  have hval : ∀ hlow : a < 0x800000000000, (Page.containing ⟨a, VirtAddr.canonical_of_lower hlow⟩
      ).start.val = a - a % 4096 := fun hlow => Page.containing_val _
  constructor
  · rintro ⟨hlow, hu⟩
    obtain ⟨q, hq, haddr, hwrite⟩ := (hholds.userWalk_iff h hk hs).1 hu
    rw [hval hlow] at haddr
    exact ⟨q, (Plan.pageOf_eq_some hholds.nodup).2 ⟨hq, haddr.symm⟩, hwrite⟩
  · rintro ⟨q, hpage, hwrite⟩
    obtain ⟨hq, haddr⟩ := (Plan.pageOf_eq_some hholds.nodup).1 hpage
    have hlower := (hholds.ok q hq).lower
    have haligned := (hholds.ok q hq).aligned
    have hlow : a < 0x800000000000 := by omega
    exact ⟨hlow, (hholds.userWalk_iff h hk hs).2 ⟨q, hq, (hval hlow).trans haddr.symm, hwrite⟩⟩

/-- **What ring 3 sees is what the file says.** -/
theorem Holds.seenByte_eq (keys : List UInt8) :
    seenByte w.machine.mem s.l4 = (p.view keys).byte := by
  funext a
  show _ = (p.pageOf a).map _
  cases hpage : p.pageOf a with
  | none =>
    rw [Option.map_none, ← Option.not_isSome_iff_eq_none, seenByte_isSome,
      hholds.userMay_iff h hk hs]
    rintro ⟨q, hq, -⟩
    rw [hpage] at hq
    cases hq
  | some q =>
    obtain ⟨hq, haddr⟩ := (Plan.pageOf_eq_some hholds.nodup).1 hpage
    have hmay : UserMay w.machine.mem s.l4 false a :=
      (hholds.userMay_iff h hk hs).2 ⟨q, hpage, fun hc => by cases hc⟩
    have hbyte := (hholds.loaded q hq).imageByte_eq (hholds.ok q hq)
      (Nat.mod_lt a (by decide : 0 < 4096))
    rw [show q.addr + a % 4096 = a by have := Nat.mod_le a 4096; omega] at hbyte
    rw [hmay.seenByte_eq, hbyte, Option.map_some]

theorem Holds.mayStore_eq (keys : List UInt8) :
    mayStore w.machine.mem s.l4 = (p.view keys).writable := by
  funext a
  show _ = (p.pageOf a).any _
  rw [Bool.eq_iff_iff, mayStore_iff, hholds.userMay_iff h hk hs, Option.any_eq_true]
  exact exists_congr fun q => and_congr_right fun _ => ⟨fun hw => hw rfl, fun hw _ => hw⟩

/-- The view of a program that has opened no files. -/
theorem Holds.view_eq {i : ThreadId} (hfiles : Kernel.filesOf w.sched i = some fun _ => none)
    {r : Running} (hr : r.world = w) : r.view i s.l4 = p.view r.inputQueue.toList := by
  subst hr
  have hbyte := hholds.seenByte_eq h hk hs r.inputQueue.toList
  have hstore := hholds.mayStore_eq h hk hs r.inputQueue.toList
  simp only [Running.view, hbyte, hstore, hfiles]
  rfl

end Exact

/-! ## Enough for a call -/

/-- A block of the heap can be lent as a stack. -/
theorem Books.stackBlock (hboot : Booted map cr3 m₀) (h : Books cr3 off m₀ w) {stackBase : ℕ}
    (hblock : HeapBlock stackBase) (hheap : owned off 136 = true) :
    StackBlock bootInfoSpec cr3 off w.machine stackBase := by
  have hisHeap : ∀ page, IsStackPage stackBase page → IsHeapPage page := by
    rintro page ⟨v, hv, i, hi, hadd⟩
    exact hblock.isHeapPage (AddrSpace.inRange_of_add hblock.aligned hblock.lower hv hi hadd)
  refine ⟨hblock.aligned, hblock.lower, fun page hpage => h.heapPage hboot (hisHeap page hpage),
    fun page hpage => ?_⟩
  rw [p4Index_of_isHeapPage (hisHeap page hpage)]
  exact hheap

/-- A program can name a file with one byte of its page. -/
theorem copyFromUser_demoPage (hboot : Booted map cr3 m₀) (hk : KernelOnly off m₀.mem cr3)
    (h : Guarded cr3 off m₀ w) {addr : Word} (hpage : DemoPage off addr) (h0 : addr.toNat ≠ 0)
    {id : Owner} {s : AddrSpace} (hs : w.space id = some s) {b : Byte}
    (hb : seenByte w.machine.mem s.l4 addr.toNat = some b) :
    copyFromUser w.machine.mem s.l4 addr.toNat 1 = .ok (some [⟨b⟩]) := by
  have hlow := hpage.lower
  let k : CallState BootInfoFrameAllocator := ⟨⟨w.toSystem, [], s.l4⟩, InputQueue.new, []⟩
  have hcopy := copyFromUser_eq_load k (h.privateSpace hboot hk hs)
    (show addr.toNat < 0x10000000000000000 by omega) (show 1 ≤ 1024 by decide)
  have hbyte : k.view.byte (addr.toNat + 0) = some b := hb
  have hcond : addr.toNat ≠ 0 ∧ (VirtAddr.tryNew addr.toNat).isSome = true ∧
      ∀ j < 1, (k.view.byte (addr.toNat + j)).isSome = true := by
    refine ⟨h0, ?_, fun j hj => ?_⟩
    · rw [VirtAddr.tryNew_of_lower hlow]
      rfl
    · obtain rfl : j = 0 := by omega
      rw [hbyte]
      rfl
  rw [View.load, if_pos hcond, List.range_one, List.map_singleton, hbyte] at hcopy
  exact hcopy

/-- A run at the end of which there is a space with a page that begins with the name of the file
`A`, and frames are left. -/
theorem exists_named : ∃ (m₀ : Machine BootInfoFrameAllocator) (w : World) (l4 : PhysFrame),
    Booted heapMap 1 m₀ ∧ KernelOnly 3 m₀.mem 1 ∧
      Runs.Reach (Event.step (documentedMapTo bootInfo) 1 3) (Admitted 1 3 m₀) (start 1 m₀) w ∧
      w.sched = SchedulerState.init (1 : PhysFrame).val ∧
      copyFromUser w.machine.mem l4 0x600000000000 1 = .ok (some [0x41]) ∧
      bootInfo.Supplies (48 + 4 * 3 + 1) w.machine.frames := by
  have hmap : MapTo.Documented bootInfo (documentedMapTo bootInfo) := fun _ _ _ _ _ _ => rfl
  have hpage : DemoPage 3 isolatedUserPageAddr := ⟨by decide, by decide, by decide⟩
  obtain ⟨m₀, hboot, hk, hsup⟩ := exists_booted_kernelOnly (n := 66) (by decide)
  have hguard : Guarded 1 3 m₀ (start 1 m₀) := guarded_start hboot
  obtain ⟨l4, m₁, m₂, -, hnew, hput, -, hsup₂⟩ :=
    hguard.books.exists_setUp (n := 48 + 4 * 3 + 1) hmap hboot [0x41] hpage hsup
  obtain ⟨-, hreach, f, hu, hf, hbytes⟩ := hguard.setUp hmap hboot hk hpage hnew hput
  have hseen : seenByte m₂.mem l4 isolatedUserPageAddr.toNat = some 0x41 := by
    have hbyte := hpage.seenByte_eq hu hf (show 0 < 4096 by decide)
    rw [hbytes 0 0x41 rfl (by decide)] at hbyte
    exact hbyte
  have hs : ({ start 1 m₀ with machine := m₂, unspawned := insert l4 (start 1 m₀).unspawned } :
      World).space (.unspawned l4) = some ⟨l4, (0, 0)⟩ := if_pos (Finset.mem_insert_self _ _)
  exact ⟨m₀, _, l4, hboot, hk, hreach, rfl, copyFromUser_demoPage hboot hk
    (guarded_of_events hmap hboot hk hreach) hpage (by decide) hs hseen, hsup₂⟩

/-- The file is accepted there. -/
theorem exists_accepted_named (hboot : Booted heapMap 1 m₀) (hk : KernelOnly 3 m₀.mem 1)
    (hreach : Runs.Reach (Event.step (documentedMapTo bootInfo) 1 3) (Admitted 1 3 m₀) (start 1 m₀)
      w) {l4 : PhysFrame}
    (hpath : copyFromUser w.machine.mem l4 0x600000000000 1 = .ok (some [0x41]))
    (hsup : bootInfo.Supplies (48 + 4 * 3 + 1) w.machine.frames) :
    ∃ m' elf, Accepted bootInfoSpec (documentedMapTo bootInfo) shellEnv ⟨w.toSystem, [], l4⟩
      0x600000000000 1 0 0 (oneSegment.map UInt8.ofBitVec) [] m' elf := by
  have hmap : MapTo.Documented bootInfo (documentedMapTo bootInfo) := fun _ _ _ _ _ _ => rfl
  have hblock : HeapBlock 0x444444530000 := ⟨by decide, by decide, by decide⟩
  have hguard := guarded_of_events hmap hboot hk hreach
  have htables := hguard.books.kernelSpace hboot
  have htable := kernelPageTable_of_events hmap hboot hk hreach
  obtain ⟨m', elf, hload⟩ : ∃ m' elf, load bootInfo (documentedMapTo bootInfo) 1 3 oneSegment []
      w.machine = .ok (m', some elf) :=
    exists_load_eq_some (n := 48) hmap htables (by decide +kernel) (by decide +kernel)
      distinct_oneSegment (fun q hq => Or.inl (owned_oneSegment q hq))
      (by rw [length_pages_oneSegment]; exact hsup)
  refine ⟨m', elf, ?_, by decide, ⟨[0x41], hpath, by decide, readFile_programDisk⟩, rfl, ?_, ?_, ?_⟩
  · rw [htable]
    exact htables
  · rw [htable, map_oneSegment]
    exact hload
  · rw [htable]
    exact hguard.books.stackBlock hboot hblock rfl
  · rw [map_oneSegment, List.map_nil, length_pages_oneSegment]
    exact hsup

/-- **A call that succeeds**: a program names the file `A`. -/
theorem exists_spawned : ∃ (m₀ : Machine BootInfoFrameAllocator) (w : World)
    (h h' : SyscallState BootInfoFrameAllocator) (rax : UInt64), Booted heapMap 1 m₀ ∧
      KernelOnly shellEnv.off m₀.mem 1 ∧
      Runs.Reach (Event.step (documentedMapTo bootInfo) 1 shellEnv.off) (Admitted 1 shellEnv.off m₀)
        (start 1 m₀) w ∧
      h.toSystem = w.toSystem ∧ h.OwnPages shellEnv 0x600000000000 1 0 0 ∧
      h.sysSpawn bootInfo (documentedMapTo bootInfo) shellEnv 0x600000000000 1 0 0 =
        some (.ok (.returns rax h')) ∧ rax ≠ u64Max := by
  have hmap : MapTo.Documented bootInfo (documentedMapTo bootInfo) := fun _ _ _ _ _ _ => rfl
  obtain ⟨m₀, w, l4, hboot, hk, hreach, hsched, hpath, hsup⟩ := exists_named
  obtain ⟨m', elf, hc⟩ := exists_accepted_named hboot hk hreach hpath hsup
  have hclear : ∀ q ∈ (plan ((oneSegment.map UInt8.ofBitVec).map UInt8.toBitVec) []).pages,
      ¬ (shellEnv.stackBase ≤ q.addr ∧ q.addr < shellEnv.stackBase + threadStackSize) := by
    decide +kernel
  have hslot : ∃ id, w.sched.freeSlot = some id ∧
      (w.sched.slotGenerations id).toNat + 1 < 0x10000000000000000 := by
    rw [hsched]
    exact ⟨1, by decide, by decide⟩
  have hsafe : w.sched.Safe := hsched ▸ SchedulerState.init_safe _
  obtain ⟨⟨pid, system⟩, hspawn⟩ := (hc.spawnUser_returns_iff hmap hsafe).2 ⟨hslot, hclear⟩
  refine ⟨m₀, w, ⟨w.toSystem, [], l4⟩, ⟨system, [(shellEnv.stackBase, threadStackSize)], l4⟩, pid,
    hboot, hk, hreach, rfl, ?_, ?_, ?_⟩
  · intro path args data hnames hfile
    obtain rfl := Option.some.inj (Except.ok.inj (hpath.symm.trans hnames.path))
    obtain rfl := Option.some.inj (Except.ok.inj hnames.args)
    obtain rfl := Option.some.inj (Except.ok.inj (Option.some.inj
      (readFile_programDisk.symm.trans hfile)))
    rw [map_oneSegment]
    exact owned_oneSegment
  · rw [hc.sysSpawn_eq, hspawn]
    rfl
  · -- the first thread that is started has the slot 1, for the first time
    obtain ⟨-, -, hthread⟩ := System.spawnIsolatedInner_eq_ok hspawn
    obtain ⟨pid', s₁, hthread', hne⟩ : ∃ pid' s₁, (SchedulerState.init (1 : PhysFrame).val
        ).spawnIsolatedInner shellEnv.stackBase .ring3Trampoline
          (some ⟨elf.entry, elf.stackTop, elf.argsPtr, elf.argsLen⟩) elf.pageTable.val =
        .ok (pid', s₁) ∧ pid' ≠ u64Max :=
      ⟨_, _, rfl, show packPid 1 1 ≠ u64Max by decide⟩
    rw [← hsched] at hthread'
    obtain ⟨rfl, -⟩ := Prod.mk.inj (Except.ok.inj (hthread'.symm.trans hthread))
    exact hne

/-! ## A call in a system -/

section System

variable {env : SpawnEnv} {h h' : SyscallState BootInfoFrameAllocator}
  {pathPtr pathLen argsPtr argsLen : ℕ} {rax : UInt64}

/-- **The whole call is a run of events**, and none of them is about a space that there was. -/
theorem reach_sysSpawn (hmap : MapTo.Documented bootInfo mapTo) (hboot : Booted map cr3 m₀)
    (hk : KernelOnly env.off m₀.mem cr3)
    (hreach : Runs.Reach (Event.step mapTo cr3 env.off) (Admitted cr3 env.off m₀) (start cr3 m₀) w)
    (hblock : env.stackBase = 0 ∨ HeapBlock env.stackBase) (hsys : h.toSystem = w.toSystem)
    (hown : h.OwnPages env pathPtr pathLen argsPtr argsLen)
    (hcall : h.sysSpawn bootInfo mapTo env pathPtr pathLen argsPtr argsLen =
      some (.ok (.returns rax h'))) :
    Runs.Reach (Event.step mapTo cr3 env.off) (Aside cr3 env.off m₀ w) w
      { w with toSystem := h'.toSystem } := by
  have hguard := guarded_of_events hmap hboot hk hreach
  have htable := kernelPageTable_of_events hmap hboot hk hreach
  rcases SyscallState.sysSpawn_cases hcall with
    ⟨-, hsame⟩ | ⟨path, args, data, machine, loaded, hnames, hread, hload, hend⟩
  · rw [hsame, hsys]
    exact .refl
  have hpages := hown path args data hnames hread
  rw [hsys, htable] at hload
  rcases hend with ⟨rfl, -, hmachine⟩ | ⟨elf, rfl, hspawn⟩
  · rw [hmachine, hsys]
    exact hguard.reach_load_none hboot hpages hload
  · rw [hsys, htable] at hspawn
    exact (hguard.reach_spawnUser hboot hblock hpages hload hspawn).2

/-- **Starting a program disturbs nobody.**  In any world that is reached, when `SYS_SPAWN` returns,
be it with a new program or because the file is not there or not fit to be loaded, the world is
again one that is reached by admitted events; and every space that there was is still there, its
program sees the same bytes and may write to the same places. -/
theorem spawn_disturbs_nobody (hmap : MapTo.Documented bootInfo mapTo) (hboot : Booted map cr3 m₀)
    (hk : KernelOnly env.off m₀.mem cr3)
    (hreach : Runs.Reach (Event.step mapTo cr3 env.off) (Admitted cr3 env.off m₀) (start cr3 m₀) w)
    (hblock : env.stackBase = 0 ∨ HeapBlock env.stackBase) (hsys : h.toSystem = w.toSystem)
    (hown : h.OwnPages env pathPtr pathLen argsPtr argsLen)
    (hcall : h.sysSpawn bootInfo mapTo env pathPtr pathLen argsPtr argsLen =
      some (.ok (.returns rax h'))) :
    Runs.Reach (Event.step mapTo cr3 env.off) (Admitted cr3 env.off m₀) (start cr3 m₀)
        { w with toSystem := h'.toSystem } ∧
      ∀ id s, w.space id = some s →
        ({ w with toSystem := h'.toSystem } : World).space id = some s ∧
          seenByte h'.machine.mem s.l4 = seenByte w.machine.mem s.l4 ∧
          mayStore h'.machine.mem s.l4 = mayStore w.machine.mem s.l4 := by
  have hguard := guarded_of_events hmap hboot hk hreach
  have haside := reach_sysSpawn hmap hboot hk hreach hblock hsys hown hcall
  refine ⟨hreach.trans (haside.mono fun _ _ ha => ha.1), fun id s hs => ?_⟩
  obtain ⟨hguard', hkept⟩ := hguard.kept_aside hmap hboot hk haside hs
  exact ⟨hkept.1, hkept.sameView hguard hguard' hk hs⟩

theorem spawn_disturbs_nobody_shell : ∃ (m₀ : Machine BootInfoFrameAllocator) (w : World)
    (h h' : SyscallState BootInfoFrameAllocator) (rax : UInt64),
    h.sysSpawn bootInfo (documentedMapTo bootInfo) shellEnv 0x600000000000 1 0 0 =
      some (.ok (.returns rax h')) ∧ rax ≠ u64Max ∧
    Runs.Reach (Event.step (documentedMapTo bootInfo) 1 shellEnv.off) (Admitted 1 shellEnv.off m₀)
      (start 1 m₀) { w with toSystem := h'.toSystem } := by
  obtain ⟨m₀, w, h, h', rax, hboot, hk, hreach, hsys, hown, hcall, hpid⟩ := exists_spawned
  have hblock : HeapBlock shellEnv.stackBase := ⟨by decide, by decide, by decide⟩
  exact ⟨m₀, w, h, h', rax, hcall, hpid, (spawn_disturbs_nobody (fun _ _ _ _ _ _ => rfl) hboot hk
    hreach (Or.inr hblock) hsys hown hcall).1⟩

/-- **A program is its file.**  When `SYS_SPAWN` returns a PID, there is a thread with that PID
which starts where the file says, sees the pages of the file and nothing else, and has no open
files; and whatever can be observed of it from then on, among other programs (`Running.Step`), can
be observed of the file alone. -/
theorem spawned_program_is_its_file (hmap : MapTo.Documented bootInfo mapTo)
    (hboot : Booted map cr3 m₀) (hk : KernelOnly env.off m₀.mem cr3)
    (hreach : Runs.Reach (Event.step mapTo cr3 env.off) (Admitted cr3 env.off m₀) (start cr3 m₀) w)
    (hblock : env.stackBase = 0 ∨ HeapBlock env.stackBase) (hsys : h.toSystem = w.toSystem)
    (hown : h.OwnPages env pathPtr pathLen argsPtr argsLen)
    (hcall : h.sysSpawn bootInfo mapTo env pathPtr pathLen argsPtr argsLen =
      some (.ok (.returns rax h'))) (hpid : rax ≠ u64Max) :
    ∃ path args data p entry stackTop argv argc i s,
      h.Names pathPtr pathLen argsPtr argsLen path args ∧
      Fs.readFile env.heapRoom env.disk env.rounds path = some (.ok (some data)) ∧
      p = plan (data.map UInt8.toBitVec) (args.map UInt8.toBitVec) ∧
      p.result = some (entry, stackTop, argv, argc) ∧
      rax = packPid i (h'.sched.slotGenerations i) ∧
      (h'.sched.threads i).bind Thread.space = some s ∧
      (h'.sched.threads i).bind Thread.userEntry = some ⟨entry, stackTop, argv, argc⟩ ∧
      ∀ r : Running, r.world = { w with toSystem := h'.toSystem } →
        r.view i s.l4 = p.view r.inputQueue.toList ∧
        ∀ rooms ls r', Trace (Running.Step mapTo env rooms cr3 m₀ i s.l4) r ls r' →
          Trace (View.Step (env.reads rooms)) (r.core, p.view r.inputQueue.toList) ls
            (r'.alone i s.l4) := by
  have hguard := guarded_of_events hmap hboot hk hreach
  have htable := kernelPageTable_of_events hmap hboot hk hreach
  have haside := reach_sysSpawn hmap hboot hk hreach hblock hsys hown hcall
  rcases SyscallState.sysSpawn_cases hcall with
    ⟨hmax, -⟩ | ⟨path, args, data, machine, loaded, hnames, hread, hload, hend⟩
  · exact absurd hmax hpid
  rcases hend with ⟨-, hmax, -⟩ | ⟨elf, rfl, hspawn⟩
  · exact absurd hmax hpid
  have hpages := hown path args data hnames hread
  rw [hsys, htable] at hload hspawn
  obtain ⟨-, -, -, -, hresult⟩ := load_eq_some hload
  obtain ⟨i, hrax, hspace, hfiles, hentry, hholds⟩ :=
    hguard.holds_of_spawnUser hmap hboot hk hblock hpages hload hspawn
  have hreach' := hreach.trans (haside.mono fun _ _ ha => ha.1)
  have hguard' := guarded_of_events hmap hboot hk hreach'
  refine ⟨path, args, data, _, _, _, _, _, i, _, hnames, hread, rfl, hresult, hrax, hspace, hentry,
    fun r hr => ?_⟩
  have hs : ({ w with toSystem := h'.toSystem } : World).space (.thread i) =
      some ⟨elf.pageTable, (env.stackBase, env.stackBase + threadStackSize)⟩ := hspace
  have hhosted : ∀ rooms, r.Hosted mapTo env rooms map cr3 m₀ i
      ⟨elf.pageTable, (env.stackBase, env.stackBase + threadStackSize)⟩ := by
    refine fun rooms => ⟨hmap, hboot, hk, r, [], ?_, ?_, ?_, .refl⟩
    · rw [hr]
      exact hreach'
    · rw [hr]
      exact hs
    · rw [hr]
      exact hfiles
  have hview := Holds.view_eq hguard' hk hs hholds hfiles hr
  refine ⟨hview, fun rooms ls r' htrace => ?_⟩
  rw [← hview]
  exact ((hhosted rooms).sound.trace hmap hboot hk htrace).2

theorem spawned_program_is_its_file_shell : ∃ (w : World)
    (h h' : SyscallState BootInfoFrameAllocator) (rax : UInt64) (i : ThreadId) (s : AddrSpace)
    (data args : List UInt8),
    h.sysSpawn bootInfo (documentedMapTo bootInfo) shellEnv 0x600000000000 1 0 0 =
      some (.ok (.returns rax h')) ∧ rax = packPid i (h'.sched.slotGenerations i) ∧
    ∀ r : Running, r.world = { w with toSystem := h'.toSystem } →
      r.view i s.l4 =
        (plan (data.map UInt8.toBitVec) (args.map UInt8.toBitVec)).view r.inputQueue.toList := by
  obtain ⟨m₀, w, h, h', rax, hboot, hk, hreach, hsys, hown, hcall, hpid⟩ := exists_spawned
  have hblock : HeapBlock shellEnv.stackBase := ⟨by decide, by decide, by decide⟩
  obtain ⟨_, args, data, _, _, _, _, _, i, s, _, _, rfl, _, hrax, _, _, hruns⟩ :=
    spawned_program_is_its_file (fun _ _ _ _ _ _ => rfl) hboot hk hreach (Or.inr hblock) hsys hown
      hcall hpid
  exact ⟨w, h, h', rax, i, s, data, args, hcall, hrax, fun r hr => (hruns r hr).1⟩

end System

end World
