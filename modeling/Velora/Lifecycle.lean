/-
# The frames of all processes

Address spaces come and go: one is made, pages are mapped into it, a thread is started on
it and lent its kernel stack, the thread exits, and some later call of `reap_zombie` frees
the space.  All of this draws on one allocator, whatever the order in which the steps of
different processes follow each other.

A `World` is the machine with the scheduler's state and the spaces that no thread has yet.
`Books` is the account of all frames: what is handed out after boot (the pool) is divided
into what the allocator has and what each space owns, and the kernel's tables are not
touched.  Every step keeps the books (`Books.step`), so in every world that can be reached
each usable frame is in one place.
-/
import Velora.Heap
import Velora.Shares
import Velora.SpaceLedger
import Velora.SysSpawn

/-! ## The code -/

/-- What a new page is filled with; nothing but its frame is written. -/
structure Fill where
  write : PhysMem → PhysFrame → PhysMem
  other : ∀ mem f x, x ≠ f → write mem f x = mem x

namespace Fill

/-- `map_shellcode_page`: the code at the start of the frame, which is not cleared. -/
def code (bytes : List Byte) : Fill where
  write := fun mem f => mem.writeBytes f bytes
  other := fun _ _ _ hx => PhysMem.writeBytes_of_ne hx

/-- `map_segment`: the bytes of the file, and zeros. -/
def segment (bytes : List Byte) : Fill where
  write := fun mem f => (mem.zeroFrame f).writeBytes f bytes
  other := fun _ _ _ hx => PhysMem.writeBytes_zeroFrame_of_ne hx

end Fill

section Code

variable {σ : Type} (A : FrameAllocator σ) (mapTo : MapTo σ)

/-- What `map_segment` and `map_shellcode_page` do for one page: take a frame, map it, fill it. -/
def mapFreshPage (noFrames failed : Panic) (l4 : PhysFrame) (page : Page) (flags : Word)
    (fill : Fill) (m : Machine σ) : Except Panic (Machine σ) := do
  let (frame, m) ← (m.allocate A).expect noFrames
  let m ← expectOk failed (mapTo m l4 page frame flags)
  .ok (m.write (fill.write m.mem frame))

/-- `map_shellcode_page`, for code that fits the page. -/
def mapShellcodePage (l4 : PhysFrame) (addr : ℕ) (code : List Byte) (m : Machine σ) :
    Except Panic (Machine σ) := do
  let page := Page.containing (← VirtAddr.new addr)
  mapFreshPage A mapTo .noFramesForDemoPage .mapDemoPageFailed l4 page
    (PageTableFlags.present ||| PageTableFlags.writable ||| PageTableFlags.userAccessible)
    (Fill.code code) m

/-- The pages of a file are mapped this way. -/
theorem mapRequest_eq_mapFreshPage (l4 : PhysFrame) (m : Machine σ) (q : Request) :
    mapRequest A mapTo l4 m q = mapFreshPage A mapTo .noFramesForSegment .mapSegmentFailed l4
      (pageAt q.addr) q.flags (Fill.segment q.bytes) m := rfl

/-- `reap_zombie`.  The stack goes back to the heap, whose frames stay where they are. -/
def System.reapZombie (off : Fin 512) (s : System σ) : Except Panic (System σ) :=
  match s.sched.reapTake with
  | (none, sched) => .ok { s with sched }
  | (some dead, sched) =>
    match dead.pageTable with
    | none => .ok { s with sched }
    | some pageTable => do
      let machine ← freeAddressSpace A off (dead.stackBase, dead.stackBase + dead.stackSize)
        (toPhysFrame pageTable) s.machine
      .ok { machine, sched }

/-- `schedule`; `rsp` is what `switch_to` saves for the outgoing thread. -/
def System.schedule (off : Fin 512) (rsp : ℕ) (s : System σ) : Except Panic (System σ) := do
  let s ← s.reapZombie A off
  let (switch, sched) ← s.sched.scheduleRest
  match switch with
  | none => .ok { s with sched }
  | some sw => .ok { s with sched := sched.saveStackPointer sw.previous rsp }

/-- `exit_current_thread` -/
def System.exitCurrentThread (off : Fin 512) (rsp : ℕ) (s : System σ) :
    Except Panic (System σ) := do
  let s ← s.reapZombie A off
  let (sw, sched) ← s.sched.exitRest
  .ok { s with sched := sched.saveStackPointer sw.previous rsp }

end Code

/-! ## Worlds -/

/-- Who owns an address space: nobody yet, or the thread in a slot. -/
inductive Owner
  | unspawned (l4 : PhysFrame)
  | thread (id : ThreadId)
  deriving DecidableEq

/-- The system, with the spaces that no thread has been started on. -/
structure World extends System BootInfoFrameAllocator where
  unspawned : Finset PhysFrame

/-- The space a thread runs in, if it is not the kernel's.  It has borrowed its stack. -/
def Thread.space (t : Thread) : Option AddrSpace :=
  t.pageTable.map fun pageTable =>
    ⟨toPhysFrame pageTable, (t.stackBase, t.stackBase + t.stackSize)⟩

/-- A block of the heap for a kernel stack, as its layout asks for it. -/
structure HeapBlock (stackBase : ℕ) : Prop where
  aligned : stackBase % 4096 = 0
  above : heapStart ≤ stackBase
  below : stackBase + threadStackSize ≤ heapStart + heapSize

theorem HeapBlock.lower {stackBase : ℕ} (h : HeapBlock stackBase) :
    stackBase + threadStackSize ≤ 0x800000000000 := by
  have hend : heapStart + heapSize = 0x444444840000 := rfl
  have hbelow := h.below
  omega

theorem HeapBlock.isHeapPage {stackBase : ℕ} (h : HeapBlock stackBase) {page : Page}
    (hpage : inRange (stackBase, stackBase + threadStackSize) page.start.val = true) :
    IsHeapPage page := by
  obtain ⟨hlo, hhi⟩ := inRange_iff.1 hpage
  exact ⟨h.above.trans hlo, hhi.trans_le h.below⟩

namespace World

/-- The space of an owner. -/
def space (w : World) : Owner → Option AddrSpace
  | .unspawned l4 => if l4 ∈ w.unspawned then some ⟨l4, (0, 0)⟩ else none
  | .thread id => (w.sched.threads id).bind Thread.space

/-- The table belongs to a space that has not been freed. -/
def Live (w : World) (l4 : PhysFrame) : Prop := ∃ id s, w.space id = some s ∧ s.l4 = l4

/-- What can happen, one atomic step each. -/
inductive Action
  /-- `new_address_space`, under the table that is active. -/
  | newAddressSpace (active : PhysFrame)
  /-- A page is mapped to a new frame. -/
  | mapPage (noFrames failed : Panic) (l4 : PhysFrame) (page : Page) (flags : Word) (fill : Fill)
  /-- `spawn_isolated_inner`, with what the heap returned for the stack. -/
  | spawnIsolatedInner (l4 : PhysFrame) (stackBase : ℕ) (entry : Entry)
      (userEntry : Option UserEntry)
  /-- `spawn`, of a thread in the kernel's space. -/
  | spawn (stackBase : ℕ) (entry : Entry)
  | schedule (rsp : ℕ)
  | exitCurrentThread (rsp : ℕ)
  | reapZombie
  /-- `elf::load` gives a space up. -/
  | discard (l4 : PhysFrame)
  /-- A program, or the kernel, writes to memory. -/
  | store (f : PhysFrame) (words : Fin 512 → Word)
  /-- `open_file`, `read_open_file` or `close_file` for the running thread: its table of open files
  becomes another one. -/
  | setFiles (files : Fin maxOpenFiles → Option OpenFile)

/-- What an action does; `cr3` is the kernel's level-4 table. -/
def step (mapTo : MapTo BootInfoFrameAllocator) (cr3 : PhysFrame) (off : Fin 512) (w : World) :
    Action → Except Panic World
  | .newAddressSpace active => do
    let (l4, machine) ← newAddressSpace bootInfo w.machine active off
    .ok { w with machine, unspawned := insert l4 w.unspawned }
  | .mapPage noFrames failed l4 page flags fill => do
    let machine ← mapFreshPage bootInfo mapTo noFrames failed l4 page flags fill w.machine
    .ok { w with machine }
  | .spawnIsolatedInner l4 stackBase entry userEntry => do
    let (_, system) ← w.toSystem.spawnIsolatedInner mapTo cr3 stackBase entry userEntry l4
    .ok { toSystem := system, unspawned := w.unspawned.erase l4 }
  | .spawn stackBase entry => do
    let sched ← w.sched.spawn stackBase entry
    .ok { w with sched }
  | .schedule rsp => do
    let system ← w.toSystem.schedule bootInfo off rsp
    .ok { w with toSystem := system }
  | .exitCurrentThread rsp => do
    let system ← w.toSystem.exitCurrentThread bootInfo off rsp
    .ok { w with toSystem := system }
  | .reapZombie => do
    let system ← w.toSystem.reapZombie bootInfo off
    .ok { w with toSystem := system }
  | .discard l4 => do
    let machine ← freeAddressSpace bootInfo off (0, 0) l4 w.machine
    .ok { w with machine, unspawned := w.unspawned.erase l4 }
  | .store f words =>
    .ok { w with machine := w.machine.write (Function.update w.machine.mem f words) }
  | .setFiles files => .ok { w with sched := Kernel.setFiles w.sched files }

/-- What the callers see to: a space is made under a table in use; pages are mapped below the
entries that a space owns; a thread gets a space that no other one has, and a stack from the heap,
unless the heap has none; only such a space is given up; and page tables are written to by the
mapper only. -/
def Allowed (cr3 : PhysFrame) (off : Fin 512) (w : World) : Action → Prop
  | .newAddressSpace active => active = cr3 ∨ w.Live active
  | .mapPage _ _ l4 page flags _ =>
    w.Live l4 ∧ owned off page.start.p4Index = true ∧ PageTableEntry.Plain flags
  | .spawnIsolatedInner l4 stackBase _ _ =>
    l4 ∈ w.unspawned ∧ (stackBase = 0 ∨ HeapBlock stackBase)
  | .discard l4 => l4 ∈ w.unspawned
  | .store f _ => ¬ IsTable w.machine.mem cr3 allEntries f ∧
      ∀ id s, w.space id = some s → ¬ IsTable w.machine.mem s.l4 (owned off) f
  | _ => True

/-- The world when the scheduler starts: the boot thread alone. -/
def start (cr3 : PhysFrame) (m : Machine BootInfoFrameAllocator) : World where
  machine := m
  sched := SchedulerState.init cr3.val
  unspawned := ∅

/-- What an owner's space owns. -/
def held (off : Fin 512) (w : World) (id : Owner) : Set PhysFrame :=
  {f | ∃ s, w.space id = some s ∧ f ∈ s.frames off w.machine.mem}

theorem held_of_space {off : Fin 512} {w : World} {id : Owner} {s : AddrSpace}
    (h : w.space id = some s) : w.held off id = s.frames off w.machine.mem := by
  ext f
  simp [held, h]

theorem held_of_none {off : Fin 512} {w : World} {id : Owner} (h : w.space id = none) :
    w.held off id = ∅ := by
  ext f
  simp [held, h]

/-! ## The books -/

/-- The shared entries of a level-4 table are the kernel's, but for flags. -/
def Cloned (cr3 : PhysFrame) (off : Fin 512) (mem₀ mem : PhysMem) (l4 : PhysFrame) : Prop :=
  ∀ i, owned off i = false → PageTableEntry.Grows (mem₀ cr3 i) (mem l4 i)

/-- What holds of every space: it is in good order, it shares what it does not own with the
kernel, and its borrowed pages are pages of the heap, mapped as in the kernel's tables. -/
structure Sound (cr3 : PhysFrame) (off : Fin 512) (mem₀ : PhysMem)
    (m : Machine BootInfoFrameAllocator) (s : AddrSpace) : Prop where
  order : s.InOrder bootInfoSpec off m
  cloned : Cloned cr3 off mem₀ m.mem s.l4
  filled : s.Filled (translatePage mem₀ cr3) off m.mem
  heap : ∀ page : Page, inRange s.borrowed page.start.val = true → IsHeapPage page

theorem Cloned.grown {cr3 : PhysFrame} {off : Fin 512} {mem₀ mem mem' : PhysMem} {l4 : PhysFrame}
    (h : Cloned cr3 off mem₀ mem l4)
    (hgrows : ∀ i, PageTableEntry.Grows (mem l4 i) (mem' l4 i)) : Cloned cr3 off mem₀ mem' l4 :=
  fun i hi => (h i hi).trans (hgrows i)

/-- **The account of all frames**, in a world that started from the machine `m₀`. -/
structure Books (cr3 : PhysFrame) (off : Fin 512) (m₀ : Machine BootInfoFrameAllocator)
    (w : World) : Prop where
  valid : bootInfoSpec.valid w.machine.frames
  spaces : ∀ id s, w.space id = some s → Sound cr3 off m₀.mem w.machine s
  divided : Shares.Divided (bootInfoSpec.free m₀.frames) (bootInfoSpec.free w.machine.frames)
    (w.held off)
  kernel : ∀ x, IsTable m₀.mem cr3 allEntries x → w.machine.mem x = m₀.mem x

section Account

variable {mapTo : MapTo BootInfoFrameAllocator} {map : MemoryMap} {cr3 : PhysFrame} {off : Fin 512}
  {m₀ m' : Machine BootInfoFrameAllocator} {w w' : World} {id : Owner} {s : AddrSpace}

theorem Books.within (h : Books cr3 off m₀ w) (hs : w.space id = some s) :
    s.Within bootInfoSpec off (bootInfoSpec.free m₀.frames) w.machine where
  used := by
    rw [← held_of_space hs]
    exact h.divided.used id
  free := h.divided.spare_subset
  frames := by
    rw [← held_of_space hs]
    exact h.divided.held_subset id

theorem Books.table_mem_held (h : Books cr3 off m₀ w) (hs : w.space id = some s) {x : PhysFrame}
    (hx : IsTable w.machine.mem s.l4 (owned off) x) : x ∈ w.held off id := by
  rw [held_of_space hs]
  exact (h.spaces id s hs).order.mem_frames_of_isTable hx

/-- The kernel's tables are never handed out. -/
theorem Books.kernel_not_mem (hboot : Booted map cr3 m₀) (h : Books cr3 off m₀ w) {x : PhysFrame}
    (hx : IsTable m₀.mem cr3 allEntries x) :
    x ∉ bootInfoSpec.free w.machine.frames ∧ ∀ j, x ∉ w.held off j := by
  have hout := hboot.tables.used x hx
  exact ⟨fun hc => hout (h.divided.spare_subset hc), fun j hc => hout (h.divided.held_subset j hc)⟩

/-! ### Changes -/

/-- **The rule for a step** that concerns the spaces of some owners: the tables of the others are
not written to, and nothing of theirs becomes free. -/
theorem Books.of_tables (h : Books cr3 off m₀ w) (C : Set Owner)
    (hvalid : bootInfoSpec.valid w'.machine.frames)
    (hspaces : ∀ j, j ∉ C → w'.space j = w.space j)
    (hsound : ∀ j ∈ C, ∀ s, w'.space j = some s → Sound cr3 off m₀.mem w'.machine s)
    (hmem : ∀ j, j ∉ C → ∀ s, w.space j = some s → ∀ x,
      IsTable w.machine.mem s.l4 (owned off) x → w'.machine.mem x = w.machine.mem x)
    (hkernel : ∀ x, IsTable m₀.mem cr3 allEntries x → w'.machine.mem x = w.machine.mem x)
    (hfree : ∀ x ∈ bootInfoSpec.free w'.machine.frames, x ∈ bootInfoSpec.free w.machine.frames ∨
      ∃ j ∈ C, x ∈ w.held off j)
    (hdivided : (∀ j, j ∉ C → w'.held off j = w.held off j) →
      Shares.Divided (bootInfoSpec.free m₀.frames) (bootInfoSpec.free w'.machine.frames)
        (w'.held off)) :
    Books cr3 off m₀ w' := by
  have hother : ∀ j, j ∉ C → ∀ s, w.space j = some s → Sound cr3 off m₀.mem w'.machine s ∧
      s.frames off w'.machine.mem = s.frames off w.machine.mem := by
    intro j hj s hs
    have hold := h.spaces j s hs
    obtain ⟨horder, hframes⟩ := hold.order.frame (hmem j hj s hs) hvalid (by
      intro x hx hc
      have hheld := h.table_mem_held hs hx
      rcases hfree x hc with hc | ⟨k, hk, hc⟩
      · exact h.divided.used j x hheld hc
      · exact hj (h.divided.apart j k x hheld hc ▸ hk))
    have hcloned : Cloned cr3 off m₀.mem w'.machine.mem s.l4 := by
      unfold Cloned
      rw [hmem j hj s hs s.l4 ⟨[], Nat.zero_le _, rfl⟩]
      exact hold.cloned
    exact ⟨⟨horder, hcloned, hold.filled.frame (hmem j hj s hs), hold.heap⟩, hframes⟩
  refine ⟨hvalid, ?_, hdivided ?_, fun x hx => (hkernel x hx).trans (h.kernel x hx)⟩
  · intro j s hs
    by_cases hj : j ∈ C
    · exact hsound j hj s hs
    · rw [hspaces j hj] at hs
      exact (hother j hj s hs).1
  · intro j hj
    cases hs : w.space j with
    | none => rw [held_of_none hs, held_of_none ((hspaces j hj).trans hs)]
    | some s =>
      rw [held_of_space hs, held_of_space ((hspaces j hj).trans hs)]
      exact (hother j hj s hs).2

/-- The same for a step that writes only to what was free or belongs to these owners. -/
theorem Books.of_change (hboot : Booted map cr3 m₀) (h : Books cr3 off m₀ w) (C : Set Owner)
    (hvalid : bootInfoSpec.valid w'.machine.frames)
    (hspaces : ∀ j, j ∉ C → w'.space j = w.space j)
    (hsound : ∀ j ∈ C, ∀ s, w'.space j = some s → Sound cr3 off m₀.mem w'.machine s)
    (hmem : ∀ x, x ∉ bootInfoSpec.free w.machine.frames → (∀ j ∈ C, x ∉ w.held off j) →
      w'.machine.mem x = w.machine.mem x)
    (hfree : ∀ x ∈ bootInfoSpec.free w'.machine.frames, x ∈ bootInfoSpec.free w.machine.frames ∨
      ∃ j ∈ C, x ∈ w.held off j)
    (hdivided : (∀ j, j ∉ C → w'.held off j = w.held off j) →
      Shares.Divided (bootInfoSpec.free m₀.frames) (bootInfoSpec.free w'.machine.frames)
        (w'.held off)) :
    Books cr3 off m₀ w' := by
  refine h.of_tables C hvalid hspaces hsound ?_ ?_ hfree hdivided
  · intro j hj s hs x hx
    have hheld := h.table_mem_held hs hx
    refine hmem x (h.divided.used j x hheld) fun k hk hc => ?_
    exact hj (h.divided.apart j k x hheld hc ▸ hk)
  · intro x hx
    obtain ⟨hfree, hheld⟩ := h.kernel_not_mem hboot hx
    exact hmem x hfree fun j _ => hheld j

/-- A step that changes neither the machine nor who owns what. -/
theorem Books.congr (h : Books cr3 off m₀ w) (hm : w'.machine = w.machine)
    (hspaces : ∀ j, w'.space j = w.space j) : Books cr3 off m₀ w' := by
  have hheld : w'.held off = w.held off := by
    funext j
    rw [held, held, hspaces, hm]
  refine ⟨hm ▸ h.valid, ?_, ?_, hm ▸ h.kernel⟩
  · intro j s hs
    rw [hspaces] at hs
    rw [hm]
    exact h.spaces j s hs
  · rw [hheld, hm]
    exact h.divided

theorem space_machine (w : World) (m : Machine BootInfoFrameAllocator) (j : Owner) :
    ({ w with machine := m } : World).space j = w.space j := by
  cases j with
  | unspawned l4 => rfl
  | thread i => rfl

theorem space_unspawned_congr {r : PhysFrame} (h : r ∈ w'.unspawned ↔ r ∈ w.unspawned) :
    w'.space (.unspawned r) = w.space (.unspawned r) :=
  if_congr h rfl rfl

/-- **A space grows.** -/
theorem Books.grow (hboot : Booted map cr3 m₀) (h : Books cr3 off m₀ w)
    (hs : w.space id = some s) {taken : Set PhysFrame}
    (hg : AddrSpace.Grown bootInfoSpec off s w.machine m' taken) :
    Books cr3 off m₀ { w with machine := m' } := by
  have hspaces := space_machine w m'
  have hs' := (hspaces id).trans hs
  refine h.of_change hboot {id} hg.order.space.valid (fun j _ => hspaces j) ?_ ?_ ?_ ?_
  · rintro j rfl s' hs''
    rw [hs'] at hs''
    obtain rfl := Option.some.inj hs''
    have hold := h.spaces j s hs
    have hl4 : s.l4 ∉ bootInfoSpec.free w.machine.frames := (h.within hs).used s.l4 (Or.inl rfl)
    exact ⟨hg.order, hold.cloned.grown (hg.grows s.l4 hl4), hg.filled hold.filled, hold.heap⟩
  · intro x hfree hheld
    refine hg.untouched x hfree ?_
    rw [← held_of_space hs]
    exact hheld id rfl
  · intro x hx
    rw [hg.free] at hx
    exact Or.inl hx.1
  · intro hother
    refine h.divided.grant (i := id) hg.fresh hg.free ?_ fun j hj => hother j hj
    rw [held_of_space hs', held_of_space hs]
    exact hg.frames

/-- **A space is given back.** -/
theorem Books.release (hboot : Booted map cr3 m₀) (h : Books cr3 off m₀ w)
    (hs : w.space id = some s)
    (hfree : freeAddressSpace bootInfo off s.borrowed s.l4 w.machine = .ok w'.machine)
    (hnone : w'.space id = none) (hspaces : ∀ j, j ≠ id → w'.space j = w.space j) :
    Books cr3 off m₀ w' := by
  obtain ⟨heq, hvalid, hspare⟩ :=
    (h.spaces id s hs).order.freed bootInfoSpec_exact (h.within hs).used
  rw [heq] at hfree
  rw [Except.ok.inj hfree, ← held_of_space hs] at hspare
  rw [Except.ok.inj hfree] at hvalid
  have hmem : w'.machine.mem = w.machine.mem := by
    rw [← Except.ok.inj hfree, Machine.deallocateAll_mem]
  refine h.of_change hboot {id} hvalid hspaces ?_ ?_ ?_ ?_
  · rintro j rfl s' hs'
    rw [hnone] at hs'
    cases hs'
  · intro x _ _
    rw [hmem]
  · intro x hx
    rw [hspare] at hx
    exact hx.imp_right fun hx => ⟨id, rfl, hx⟩
  · intro hother
    exact h.divided.release hspare (held_of_none hnone) hother

/-- **A space is made.** -/
theorem Books.create (hboot : Booted map cr3 m₀) (h : Books cr3 off m₀ w) {active l4 : PhysFrame}
    (hactive : active ∉ bootInfoSpec.free w.machine.frames)
    (hcloned : Cloned cr3 off m₀.mem w.machine.mem active)
    (hnew : newAddressSpace bootInfo w.machine active off = .ok (l4, m')) :
    Books cr3 off m₀ { w with machine := m', unspawned := insert l4 w.unspawned } := by
  obtain ⟨horder, hframes⟩ := AddrSpace.newAddressSpace_inOrder h.valid hactive hnew
  have hfree := newAddressSpace_free bootInfoSpec_exact h.valid hnew
  obtain ⟨-, hl4, -, -⟩ := newAddressSpace_own h.valid hactive (fun _ hi => Or.inl hi) hnew
  obtain ⟨-, -, -, hkeep, hentries⟩ := newAddressSpace_eq_ok hnew
  have hne : active ≠ l4 := fun hc => hactive (hc ▸ hl4)
  have hnone : w.space (.unspawned l4) = none := by
    cases hs : w.space (.unspawned l4) with
    | none => rfl
    | some s =>
      obtain ⟨-, rfl⟩ : l4 ∈ w.unspawned ∧ (⟨l4, (0, 0)⟩ : AddrSpace) = s := by
        simpa [space] using hs
      exact absurd hl4 ((h.within hs).used l4 (Or.inl rfl))
  have hs' : ({ w with machine := m', unspawned := insert l4 w.unspawned } : World).space
      (.unspawned l4) = some ⟨l4, (0, 0)⟩ := if_pos (Finset.mem_insert_self l4 w.unspawned)
  refine h.of_change hboot {.unspawned l4} horder.space.valid ?_ ?_ ?_ ?_ ?_
  · intro j hj
    cases j with
    | thread i => rfl
    | unspawned r =>
      have hr : r ≠ l4 := fun hc => hj (by rw [hc]; rfl)
      exact space_unspawned_congr (Finset.mem_insert.trans (or_iff_right hr))
  · rintro j rfl s hs
    rw [hs'] at hs
    obtain rfl := Option.some.inj hs
    refine ⟨horder, ?_, AddrSpace.filled_nothing, ?_⟩
    · intro i hi
      rw [hentries hne i, if_neg (by rw [hi]; exact Bool.false_ne_true)]
      exact hcloned i hi
    · intro page hpage
      exact absurd (inRange_iff.1 hpage).2 (Nat.not_lt_zero _)
  · intro x hx _
    exact hkeep x fun hc => hx (hc ▸ hl4)
  · intro x hx
    rw [hfree] at hx
    exact Or.inl hx.1
  · intro hother
    refine h.divided.grant (i := .unspawned l4) (Set.singleton_subset_iff.2 hl4) hfree ?_ hother
    rw [held_of_space hs', hframes, held_of_none hnone, Set.empty_union]

/-- The stack can be shared only if the heap's entry is not: below a shared entry its pages are
mapped already. -/
theorem Books.owned_of_shareStack (hmap : MapTo.Documented bootInfo mapTo)
    (h : Books cr3 off m₀ w) {l4 : PhysFrame} {stackBase : ℕ} (hl4 : l4 ∈ w.unspawned)
    (hblock : HeapBlock stackBase) (hshare : shareStack mapTo cr3 l4 stackBase w.machine = .ok m') :
    owned off 136 = true := by
  by_contra hshared
  rw [Bool.not_eq_true] at hshared
  have hs : w.space (.unspawned l4) = some ⟨l4, (0, 0)⟩ := if_pos hl4
  obtain ⟨v, hv, hloop⟩ := shareStack_eq_ok hshare
  obtain ⟨m₁, hfirst, -⟩ := bind_eq_ok (show _ >>= _ = Except.ok m' from hloop)
  obtain ⟨page, f, hpage, hf, hto⟩ := shareStackPage_eq_ok hmap hfirst
  have hrange := AddrSpace.inRange_of_add hblock.aligned hblock.lower hv (by decide) hpage
  have hslot : page.start.p4Index = 136 := p4Index_of_isHeapPage (hblock.isHeapPage hrange)
  have hmapped : translatePage w.machine.mem l4 page = some f := by
    rw [translatePage, Page.path, RadixHeap.walk_cons] at hf ⊢
    obtain ⟨c, hc, hf⟩ := Option.bind_eq_some_iff.1 hf
    rw [h.kernel cr3 ⟨[], Nat.zero_le _, rfl⟩] at hc
    have hentry := ((h.spaces _ _ hs).cloned page.start.p4Index (hslot ▸ hshared)).follow hc
    rw [hentry]
    exact hf
  exact mapPath_ne_ok_of_mapped (by decide) hmapped hto

/-- **A space gets a thread**, and the thread's stack. -/
theorem Books.lend (hmap : MapTo.Documented bootInfo mapTo) (hboot : Booted map cr3 m₀)
    (h : Books cr3 off m₀ w) {l4 : PhysFrame} {i : ThreadId}
    {stackBase : ℕ} (hl4 : l4 ∈ w.unspawned) (hblock : HeapBlock stackBase)
    (hshare : shareStack mapTo cr3 l4 stackBase w.machine = .ok w'.machine)
    (hfresh : w.space (.thread i) = none) (hnone : w'.space (.unspawned l4) = none)
    (hs' : w'.space (.thread i) = some ⟨l4, (stackBase, stackBase + threadStackSize)⟩)
    (hspaces : ∀ j, j ≠ .unspawned l4 → j ≠ .thread i → w'.space j = w.space j) :
    Books cr3 off m₀ w' := by
  have hs : w.space (.unspawned l4) = some ⟨l4, (0, 0)⟩ := if_pos hl4
  have hoff : owned off 136 = true := h.owned_of_shareStack hmap hl4 hblock hshare
  have hlow := hblock.lower
  have hheap : ∀ page : Page,
      inRange (stackBase, stackBase + threadStackSize) page.start.val = true → IsHeapPage page :=
    fun _ hpage => hblock.isHeapPage hpage
  have hlent : ∀ mem : PhysMem, (∀ x, x ∉ bootInfoSpec.free m₀.frames → mem x = w.machine.mem x) →
      ∀ page, translatePage mem cr3 page = translatePage m₀.mem cr3 page := by
    intro mem hmem page
    refine translatePage_congr (fun x hx => ?_) page
    rw [hmem x (hboot.tables.used x hx), h.kernel x hx]
  obtain ⟨⟨taken, hg⟩, hframes, hfilled⟩ := (h.spaces _ _ hs).order.lendStack
    bootInfoSpec_exact hmap (h.within hs) hlent hblock.aligned hlow (by
      intro page hpage
      have hpage' := hheap page hpage
      rw [p4Index_of_isHeapPage hpage']
      exact ⟨hoff, fun f hf => hboot.not_mem_supply (Or.inr ⟨page, hpage', hf⟩)⟩) hshare
  refine h.of_change hboot {.unspawned l4, .thread i} hg.order.space.valid ?_ ?_ ?_ ?_ ?_
  · intro j hj
    rw [Set.mem_insert_iff, Set.mem_singleton_iff, not_or] at hj
    exact hspaces j hj.1 hj.2
  · rintro j (rfl | rfl) s hs''
    · rw [hnone] at hs''
      cases hs''
    · rw [hs'] at hs''
      obtain rfl := Option.some.inj hs''
      have hused : l4 ∉ bootInfoSpec.free w.machine.frames := (h.within hs).used l4 (Or.inl rfl)
      exact ⟨hg.order, (h.spaces _ _ hs).cloned.grown (hg.grows l4 hused), hfilled, hheap⟩
  · intro x hfree hheld
    refine hg.untouched x hfree ?_
    rw [hframes, ← held_of_space hs]
    exact hheld _ (Or.inl rfl)
  · intro x hx
    rw [hg.free] at hx
    exact Or.inl hx.1
  · intro hother
    -- the space takes what it needs while it is nobody's, and is handed over then
    have hgrant : Shares.Divided (bootInfoSpec.free m₀.frames)
        (bootInfoSpec.free w'.machine.frames)
        (Function.update (w.held off) (.unspawned l4) (w.held off (.unspawned l4) ∪ taken)) :=
      h.divided.grant (i := .unspawned l4) hg.fresh hg.free (Function.update_self ..)
        fun j hj => Function.update_of_ne hj ..
    refine hgrant.handOver (i := .unspawned l4) (j := .thread i) ?_ (held_of_none hnone) ?_ ?_
    · rw [Function.update_of_ne (by simp), held_of_none hfresh]
    · rw [held_of_space hs', hg.frames, hframes, Function.update_self, held_of_space hs]
    · intro k hk hk'
      rw [Function.update_of_ne hk]
      refine hother k ?_
      rw [Set.mem_insert_iff, Set.mem_singleton_iff, not_or]
      exact ⟨hk, hk'⟩

end Account

end World

/-! ## The steps -/

/-- **What `reap_zombie` does**: it frees the space of the zombie, if that has one. -/
theorem System.reapZombie_eq {σ : Type} (A : FrameAllocator σ) (off : Fin 512) (s : System σ) :
    (∃ z sp, s.sched.zombie = some z ∧ (s.sched.threads z).bind Thread.space = some sp ∧
      s.reapZombie A off = (freeAddressSpace A off sp.borrowed sp.l4 s.machine).map fun machine =>
        { machine, sched := s.sched.reapTake.2 }) ∨
    ((∀ z, s.sched.zombie = some z → (s.sched.threads z).bind Thread.space = none) ∧
      s.reapZombie A off = .ok { s with sched := s.sched.reapTake.2 }) := by
  obtain ⟨-, -, -, -, -, htaken, -⟩ := s.sched.reapTake_spec
  cases hdead : s.sched.reapTake.1 with
  | none =>
    have htake : s.sched.reapTake = (none, s.sched.reapTake.2) := Prod.ext hdead rfl
    refine Or.inr ⟨?_, by rw [System.reapZombie, htake]⟩
    intro z hz
    rw [hdead, hz, Option.bind_some] at htaken
    rw [← htaken, Option.bind_none]
  | some dead =>
    have htake : s.sched.reapTake = (some dead, s.sched.reapTake.2) := Prod.ext hdead rfl
    rw [hdead] at htaken
    obtain ⟨z, hz, hthread⟩ := Option.bind_eq_some_iff.1 htaken.symm
    cases hpt : dead.pageTable with
    | none =>
      refine Or.inr ⟨?_, ?_⟩
      · intro z' hz'
        rw [hz] at hz'
        obtain rfl := Option.some.inj hz'
        rw [hthread, Option.bind_some, Thread.space, hpt, Option.map_none]
      · rw [System.reapZombie, htake]
        simp only [hpt]
    | some pageTable =>
      refine Or.inl ⟨z, ⟨toPhysFrame pageTable, (dead.stackBase, dead.stackBase + dead.stackSize)⟩,
        hz, ?_, ?_⟩
      · rw [hthread, Option.bind_some, Thread.space, hpt, Option.map_some]
      · rw [System.reapZombie, htake]
        simp only [hpt]
        cases freeAddressSpace A off (dead.stackBase, dead.stackBase + dead.stackSize)
            (toPhysFrame pageTable) s.machine with
        | error p => rfl
        | ok machine => rfl

/-- Without a zombie there is nothing to reap. -/
theorem System.reapZombie_of_none {σ : Type} {A : FrameAllocator σ} {off : Fin 512} {s : System σ}
    (h : s.sched.zombie = none) : s.reapZombie A off = .ok s := by
  rw [System.reapZombie, SchedulerState.reapTake, h]

/-- After the locked half of `reap_zombie` the zombie has no space. -/
theorem SchedulerState.space_reapTake (s : SchedulerState) (i : ThreadId) :
    (s.reapTake.2.threads i).bind Thread.space =
      if s.zombie = some i then none else (s.threads i).bind Thread.space := by
  obtain ⟨-, -, -, -, -, -, hthreads⟩ := s.reapTake_spec
  rw [hthreads]
  split_ifs
  · rfl
  · rfl

namespace World

section Steps

variable {mapTo : MapTo BootInfoFrameAllocator} {map : MemoryMap} {cr3 : PhysFrame} {off : Fin 512}
  {m₀ : Machine BootInfoFrameAllocator} {w w' : World} {system : System BootInfoFrameAllocator}

/-- Who owns what is a matter of the threads and of the spaces without one. -/
theorem space_congr (hun : w'.unspawned = w.unspawned)
    (h : ∀ i, (w'.sched.threads i).bind Thread.space = (w.sched.threads i).bind Thread.space)
    (j : Owner) : w'.space j = w.space j := by
  cases j with
  | unspawned l4 =>
    refine space_unspawned_congr ?_
    rw [hun]
  | thread i => exact h i

/-- Open files have nothing to do with spaces. -/
theorem space_setFiles (w : World) (files : Fin maxOpenFiles → Option OpenFile) (j : Owner) :
    ({ w with sched := Kernel.setFiles w.sched files } : World).space j = w.space j := by
  cases j with
  | unspawned l4 => rfl
  | thread i =>
    show ((Kernel.setFiles w.sched files).threads i).bind Thread.space = _
    rw [Kernel.setFiles, SchedulerState.threads_mapThread_apply]
    split_ifs
    · rw [Option.bind_map]
      rfl
    · rfl

theorem space_saveStackPointer (s : SchedulerState) (j : ThreadId) (rsp : ℕ) (i : ThreadId) :
    ((s.saveStackPointer j rsp).threads i).bind Thread.space = (s.threads i).bind Thread.space := by
  rw [SchedulerState.saveStackPointer, SchedulerState.threads_mapThread_apply]
  split_ifs
  · cases s.threads i with
    | none => rfl
    | some t => rfl
  · rfl

/-- **Reaping.** -/
theorem Books.reapZombie (hboot : Booted map cr3 m₀) (h : Books cr3 off m₀ w)
    (hr : w.toSystem.reapZombie bootInfo off = .ok system) :
    Books cr3 off m₀ { w with toSystem := system } := by
  rcases w.toSystem.reapZombie_eq bootInfo off with ⟨z, sp, hz, hsp, heq⟩ | ⟨hnone, heq⟩
  · rw [heq] at hr
    cases hfree : freeAddressSpace bootInfo off sp.borrowed sp.l4 w.machine with
    | error p =>
      rw [hfree] at hr
      cases hr
    | ok machine =>
      rw [hfree] at hr
      cases hr
      have hs : w.space (.thread z) = some sp := hsp
      refine h.release hboot hs hfree ?_ ?_
      · show (w.sched.reapTake.2.threads z).bind Thread.space = none
        rw [SchedulerState.space_reapTake, if_pos hz]
      · intro j hj
        cases j with
        | unspawned l4 => rfl
        | thread i =>
          show (w.sched.reapTake.2.threads i).bind Thread.space = _
          rw [SchedulerState.space_reapTake, if_neg]
          · rfl
          · intro hc
            rw [hz] at hc
            exact hj (by rw [Option.some.inj hc])
  · rw [heq] at hr
    cases hr
    refine h.congr rfl (space_congr rfl fun i => ?_)
    show (w.sched.reapTake.2.threads i).bind Thread.space = _
    rw [SchedulerState.space_reapTake]
    split_ifs with hz
    · exact (hnone i hz).symm
    · rfl

/-- **Starting a thread.** -/
theorem Books.spawnIsolatedInner (hmap : MapTo.Documented bootInfo mapTo)
    (hboot : Booted map cr3 m₀) (h : Books cr3 off m₀ w)
    {l4 : PhysFrame} {stackBase : ℕ} {entry : Entry} {userEntry : Option UserEntry} {pid : Pid}
    (hl4 : l4 ∈ w.unspawned) (hbase : stackBase = 0 ∨ HeapBlock stackBase)
    (hr : w.toSystem.spawnIsolatedInner mapTo cr3 stackBase entry userEntry l4 =
      .ok (pid, system)) :
    Books cr3 off m₀ { toSystem := system, unspawned := w.unspawned.erase l4 } := by
  obtain ⟨h0, hshare, hsched⟩ := System.spawnIsolatedInner_eq_ok hr
  obtain ⟨-, i, hinstall, -⟩ := Kernel.spawnIsolatedInner_eq_ok hsched
  obtain ⟨hfree, hthreads, -⟩ := SchedulerState.install_spec hinstall
  have hs' : (system.sched.threads i).bind Thread.space =
      some ⟨l4, (stackBase, stackBase + threadStackSize)⟩ := by
    rw [hthreads, Function.update_self, Option.bind_some, Thread.space]
    show some (AddrSpace.mk (toPhysFrame l4.val) _) = _
    rw [toPhysFrame, Fin.ofNat_val_eq_self]
    rfl
  refine h.lend (i := i) hmap hboot hl4 (hbase.resolve_left h0) hshare ?_ ?_ hs' ?_
  · show (w.sched.threads i).bind Thread.space = none
    rw [hfree, Option.bind_none]
  · exact if_neg (Finset.notMem_erase l4 w.unspawned)
  · intro j hj hj'
    cases j with
    | unspawned r =>
      have hr : r ≠ l4 := fun hc => hj (by rw [hc])
      exact space_unspawned_congr (Finset.mem_erase.trans (and_iff_right hr))
    | thread k =>
      have hk : k ≠ i := fun hc => hj' (by rw [hc])
      show (system.sched.threads k).bind Thread.space = _
      rw [hthreads, Function.update_of_ne hk]
      rfl

/-- A thread in the kernel's space changes nothing. -/
theorem Books.spawn (h : Books cr3 off m₀ w) {stackBase : ℕ} {entry : Entry}
    {sched : SchedulerState} (hr : w.sched.spawn stackBase entry = .ok sched) :
    Books cr3 off m₀ { w with sched } := by
  obtain ⟨-, i, hinstall⟩ := Kernel.spawn_eq_ok hr
  obtain ⟨hfree, hthreads, -⟩ := SchedulerState.install_spec hinstall
  refine h.congr rfl (space_congr rfl fun k => ?_)
  show (sched.threads k).bind Thread.space = _
  rw [hthreads]
  by_cases hk : k = i
  · rw [hk, Function.update_self, hfree]
    rfl
  · rw [Function.update_of_ne hk]

theorem Books.schedule (hboot : Booted map cr3 m₀) (h : Books cr3 off m₀ w) {rsp : ℕ}
    (hr : w.toSystem.schedule bootInfo off rsp = .ok system) :
    Books cr3 off m₀ { w with toSystem := system } := by
  rw [System.schedule] at hr
  obtain ⟨s₁, h₁, hr⟩ := bind_eq_ok hr
  obtain ⟨⟨switch, sched⟩, hrest, hr⟩ := bind_eq_ok hr
  have hthreads : sched.threads = s₁.sched.threads := by
    rcases SchedulerState.scheduleRest_spec hrest with ⟨-, rfl, -⟩ | ⟨-, -, -, -, -, -, -, hthr, -⟩
    · rfl
    · exact hthr
  refine (h.reapZombie hboot h₁).congr ?_ ?_
  · cases switch with
    | none =>
      cases hr
      rfl
    | some sw =>
      cases hr
      rfl
  · refine space_congr rfl fun i => ?_
    cases switch with
    | none =>
      cases hr
      show (sched.threads i).bind Thread.space = _
      rw [hthreads]
    | some sw =>
      cases hr
      show ((sched.saveStackPointer _ _).threads i).bind Thread.space = _
      rw [space_saveStackPointer, hthreads]

theorem Books.exitCurrentThread (hboot : Booted map cr3 m₀) (h : Books cr3 off m₀ w) {rsp : ℕ}
    (hr : w.toSystem.exitCurrentThread bootInfo off rsp = .ok system) :
    Books cr3 off m₀ { w with toSystem := system } := by
  rw [System.exitCurrentThread] at hr
  obtain ⟨s₁, h₁, hr⟩ := bind_eq_ok hr
  obtain ⟨⟨sw, sched⟩, hrest, hr⟩ := bind_eq_ok hr
  cases hr
  obtain ⟨-, -, -, -, -, -, hthreads, -⟩ := SchedulerState.exitRest_spec hrest
  refine (h.reapZombie hboot h₁).congr rfl (space_congr rfl fun i => ?_)
  show ((sched.saveStackPointer _ _).threads i).bind Thread.space = _
  rw [space_saveStackPointer, hthreads]

/-- **Mapping a page.** -/
theorem Books.mapPage (hmap : MapTo.Documented bootInfo mapTo) (hboot : Booted map cr3 m₀)
    (h : Books cr3 off m₀ w) {noFrames failed : Panic} {l4 : PhysFrame} {page : Page} {flags : Word}
    {fill : Fill} {m' : Machine BootInfoFrameAllocator} (hlive : w.Live l4)
    (hown : owned off page.start.p4Index = true) (hfl : PageTableEntry.Plain flags)
    (hr : mapFreshPage bootInfo mapTo noFrames failed l4 page flags fill w.machine = .ok m') :
    Books cr3 off m₀ { w with machine := m' } := by
  obtain ⟨id, s, hs, rfl⟩ := hlive
  rw [mapFreshPage] at hr
  obtain ⟨⟨f, m₁⟩, ha, hr⟩ := bind_eq_ok hr
  obtain ⟨m₂, hto, hr⟩ := bind_eq_ok hr
  cases hr
  have hto' := expectOk_eq_ok hto
  rw [hmap _ _ _ _ _ hfl, documentedMapTo, plain_and hfl] at hto'
  have hsound := h.spaces id s hs
  obtain ⟨taken, hg⟩ := hsound.order.mapFresh bootInfoSpec_exact (h.within hs).used hfl hown
    hsound.filled (Option.expect_eq_ok ha) hto' (fill.other m₂.mem f)
  exact h.grow hboot hs hg

/-- A write that hits no page table. -/
theorem Books.store (h : Books cr3 off m₀ w) {f : PhysFrame} {words : Fin 512 → Word}
    (hallowed : Allowed cr3 off w (.store f words)) :
    Books cr3 off m₀
      { w with machine := w.machine.write (Function.update w.machine.mem f words) } := by
  obtain ⟨hkernel, hspaces⟩ := hallowed
  have hmem : ∀ x, x ≠ f → Function.update w.machine.mem f words x = w.machine.mem x :=
    fun x hx => Function.update_of_ne hx ..
  refine h.of_tables ∅ h.valid (fun j _ => space_machine w _ j) (fun j hj => hj.elim) ?_ ?_
    (fun x hx => Or.inl hx) ?_
  · intro j _ s hs x hx
    refine hmem x ?_
    rintro rfl
    exact hspaces j s hs hx
  · intro x hx
    refine hmem x ?_
    rintro rfl
    exact hkernel ((isTable_congr h.kernel).2 hx)
  · intro hother
    have hheld : World.held off
        { w with machine := w.machine.write (Function.update w.machine.mem f words) } =
          w.held off := funext fun j => hother j (Set.notMem_empty j)
    rw [hheld]
    exact h.divided

/-- The table that is active is not free. -/
theorem Books.active_not_mem (hboot : Booted map cr3 m₀) (h : Books cr3 off m₀ w)
    {active : PhysFrame} (hactive : active = cr3 ∨ w.Live active) :
    active ∉ bootInfoSpec.free w.machine.frames := by
  rcases hactive with rfl | ⟨id, s, hs, rfl⟩
  · exact (h.kernel_not_mem hboot ⟨[], by simp, rfl⟩).1
  · exact (h.within hs).used s.l4 (Or.inl rfl)

theorem Books.active_cloned (h : Books cr3 off m₀ w) {active : PhysFrame}
    (hactive : active = cr3 ∨ w.Live active) : Cloned cr3 off m₀.mem w.machine.mem active := by
  rcases hactive with rfl | ⟨id, s, hs, rfl⟩
  · intro i _
    rw [h.kernel active ⟨[], Nat.zero_le _, rfl⟩]
    exact PageTableEntry.Grows.refl _
  · exact (h.spaces id s hs).cloned

/-- **Every step keeps the books.** -/
theorem Books.step (hmap : MapTo.Documented bootInfo mapTo) (hboot : Booted map cr3 m₀)
    (h : Books cr3 off m₀ w) {a : Action} (ha : Allowed cr3 off w a)
    (hr : step mapTo cr3 off w a = .ok w') : Books cr3 off m₀ w' := by
  cases a with
  | newAddressSpace active =>
    obtain ⟨⟨l4, machine⟩, hnew, hr⟩ := bind_eq_ok hr
    cases hr
    exact h.create hboot (h.active_not_mem hboot ha) (h.active_cloned ha) hnew
  | mapPage noFrames failed l4 page flags fill =>
    obtain ⟨machine, hpage, hr⟩ := bind_eq_ok hr
    cases hr
    exact h.mapPage hmap hboot ha.1 ha.2.1 ha.2.2 hpage
  | spawnIsolatedInner l4 stackBase entry userEntry =>
    obtain ⟨⟨pid, system⟩, hspawn, hr⟩ := bind_eq_ok hr
    cases hr
    exact h.spawnIsolatedInner hmap hboot ha.1 ha.2 hspawn
  | spawn stackBase entry =>
    obtain ⟨sched, hspawn, hr⟩ := bind_eq_ok hr
    cases hr
    exact h.spawn hspawn
  | schedule rsp =>
    obtain ⟨system, hsys, hr⟩ := bind_eq_ok hr
    cases hr
    exact h.schedule hboot hsys
  | exitCurrentThread rsp =>
    obtain ⟨system, hsys, hr⟩ := bind_eq_ok hr
    cases hr
    exact h.exitCurrentThread hboot hsys
  | reapZombie =>
    obtain ⟨system, hsys, hr⟩ := bind_eq_ok hr
    cases hr
    exact h.reapZombie hboot hsys
  | discard l4 =>
    obtain ⟨machine, hfree, hr⟩ := bind_eq_ok hr
    cases hr
    have hs : w.space (.unspawned l4) = some ⟨l4, (0, 0)⟩ := if_pos ha
    refine h.release hboot hs hfree (if_neg (Finset.notMem_erase l4 w.unspawned)) ?_
    intro j hj
    cases j with
    | thread i => rfl
    | unspawned r =>
      have hne : r ≠ l4 := fun hc => hj (by rw [hc])
      exact space_unspawned_congr (Finset.mem_erase.trans (and_iff_right hne))
  | store f words =>
    cases hr
    exact h.store ha
  | setFiles files =>
    cases hr
    exact h.congr rfl (space_setFiles w files)

/-- At the start everything is free. -/
theorem books_start (hboot : Booted map cr3 m₀) : Books cr3 off m₀ (start cr3 m₀) := by
  have hnone : ∀ j, (start cr3 m₀).space j = none := by
    intro j
    cases j with
    | unspawned l4 => rfl
    | thread i =>
      show (((SchedulerState.init cr3.val).threads i).bind Thread.space) = none
      rw [SchedulerState.init]
      simp only
      split_ifs
      · rfl
      · rfl
  refine ⟨hboot.tables.valid, ?_, Shares.Divided.start _ fun j => held_of_none (hnone j),
    fun _ _ => rfl⟩
  intro j s hs
  rw [hnone j] at hs
  cases hs

/-- **In every world that is reached the books are in order.** -/
theorem books_of_reach (hmap : MapTo.Documented bootInfo mapTo) (hboot : Booted map cr3 m₀)
    (hrun : Runs.Reach (step mapTo cr3 off) (Allowed cr3 off) (start cr3 m₀) w) :
    Books cr3 off m₀ w :=
  hrun.invariant (books_start hboot) fun _ _ _ h ha hr => h.step hmap hboot ha hr

end Steps

/-! ## Where every frame is -/

/-- The places a usable frame can be in. -/
inductive Place
  | notHandedOut
  | freeList
  | space (id : Owner)
  | kernel

/-- The frame is in the place; on the free list, it is there once. -/
def Place.Holds (cr3 : PhysFrame) (off : Fin 512) (w : World) (f : PhysFrame) : Place → Prop
  | .notHandedOut => f ∈ w.machine.frames.fresh
  | .freeList => w.machine.frames.freed.count f = 1
  | .space id => f ∈ w.held off id
  | .kernel => KernelHeld w.machine.mem cr3 f

section Places

variable {mapTo : MapTo BootInfoFrameAllocator} {map : MemoryMap} {cr3 f : PhysFrame}
  {off : Fin 512} {m₀ : Machine BootInfoFrameAllocator} {w : World}

theorem freed_deallocateAll (m : Machine BootInfoFrameAllocator) (fs : List PhysFrame) :
    (m.deallocateAll bootInfo fs).frames.freed = fs.reverse ++ m.frames.freed := by
  induction fs generalizing m with
  | nil => rfl
  | cons f fs ih =>
    show ((m.deallocate bootInfo f).deallocateAll bootInfo fs).frames.freed = _
    rw [ih, List.reverse_cons, List.append_assoc]
    rfl

/-- Nothing is on the free list twice, or both there and not handed out. -/
theorem Books.supply_cases (h : Books cr3 off m₀ w) :
    (f ∈ bootInfoSpec.free w.machine.frames ↔
      f ∈ w.machine.frames.fresh ∨ w.machine.frames.freed.count f = 1) ∧
    ¬ (f ∈ w.machine.frames.fresh ∧ w.machine.frames.freed.count f = 1) := by
  obtain ⟨hfreed, -, hdisjoint⟩ := List.nodup_append.1 h.valid
  have hcount : w.machine.frames.freed.count f = 1 ↔ f ∈ w.machine.frames.freed := by
    refine ⟨fun hc => List.count_pos_iff.1 (by omega), List.count_eq_one_of_mem hfreed⟩
  rw [hcount]
  constructor
  · show f ∈ w.machine.frames.freed ++ w.machine.frames.fresh ↔ _
    rw [List.mem_append, or_comm]
  · rintro ⟨hfresh, hf⟩
    exact hdisjoint f hf f hfresh rfl

theorem Books.kernelHeld_iff (h : Books cr3 off m₀ w) :
    KernelHeld w.machine.mem cr3 f ↔ KernelHeld m₀.mem cr3 f :=
  kernelHeld_congr h.kernel

/-- Every usable frame is somewhere. -/
theorem Books.exists_place (hboot : Booted map cr3 m₀) (h : Books cr3 off m₀ w)
    (hf : f ∈ map.usableFrames) : ∃ p : Place, p.Holds cr3 off w f := by
  rcases hboot.rest f hf with hpool | hkernel
  · rcases (h.divided.cover f).1 hpool with hfree | ⟨id, hheld⟩
    · rcases h.supply_cases.1.1 hfree with hfresh | hfreed
      · exact ⟨.notHandedOut, hfresh⟩
      · exact ⟨.freeList, hfreed⟩
    · exact ⟨.space id, hheld⟩
  · exact ⟨.kernel, h.kernelHeld_iff.2 hkernel⟩

/-- No frame is in two places. -/
theorem Books.place_unique (hboot : Booted map cr3 m₀) (h : Books cr3 off m₀ w) {p q : Place}
    (hp : p.Holds cr3 off w f) (hq : q.Holds cr3 off w f) : p = q := by
  obtain ⟨hsupply, honce⟩ := h.supply_cases (f := f)
  have hheld : ∀ id, f ∈ w.held off id → f ∉ bootInfoSpec.free w.machine.frames :=
    fun id => h.divided.used id f
  have hapart : ∀ i j, f ∈ w.held off i → f ∈ w.held off j → i = j :=
    fun i j => h.divided.apart i j f
  -- the kernel has nothing of the pool, and all others have nothing else
  have hkernel : KernelHeld w.machine.mem cr3 f → f ∉ bootInfoSpec.free w.machine.frames ∧
      ∀ id, f ∉ w.held off id := by
    intro hk
    have hout := hboot.not_mem_supply (h.kernelHeld_iff.1 hk)
    exact ⟨fun hc => hout (h.divided.spare_subset hc),
      fun id hc => hout (h.divided.held_subset id hc)⟩
  cases p <;> cases q <;> simp only [Place.Holds] at hp hq <;> grind

/-- **Reaping gives everything back**: it returns, and then what the zombie's space owned is on the
free list, and no frame of its kernel stack is. -/
theorem Books.reaped (hboot : Booted map cr3 m₀) (h : Books cr3 off m₀ w) {z : ThreadId}
    {s : AddrSpace} (hz : w.sched.zombie = some z) (hs : w.space (.thread z) = some s) :
    ∃ w', World.step mapTo cr3 off w .reapZombie = .ok w' ∧ w'.space (.thread z) = none ∧
      (∀ f ∈ s.frames off w.machine.mem, f ∈ w'.machine.frames.freed) ∧
      ∀ page f, OwnedPage w.machine.mem off s.l4 page f →
        inRange s.borrowed page.start.val = true → f ∉ w'.machine.frames.freed := by
  have hsound := h.spaces _ _ hs
  obtain ⟨hfree, -, -⟩ := hsound.order.freed bootInfoSpec_exact (h.within hs).used
  obtain ⟨machine, hmachine⟩ : ∃ machine, machine = w.machine.deallocateAll bootInfo
      (freedBySpace w.machine.mem off s.borrowed s.l4) := ⟨_, rfl⟩
  rw [← hmachine] at hfree
  have hreap : w.toSystem.reapZombie bootInfo off = .ok ⟨machine, w.sched.reapTake.2⟩ := by
    rcases w.toSystem.reapZombie_eq bootInfo off with ⟨z', sp, hz', hsp, heq⟩ | ⟨hnone, -⟩
    · rw [hz] at hz'
      obtain rfl := Option.some.inj hz'
      obtain rfl := Option.some.inj (hs.symm.trans hsp)
      rw [heq, hfree]
      rfl
    · have hsp : w.space (.thread z) = none := hnone z hz
      rw [hs] at hsp
      cases hsp
  have hbooks := h.reapZombie hboot hreap
  refine ⟨{ w with toSystem := ⟨machine, w.sched.reapTake.2⟩ }, ?_, ?_, ?_, ?_⟩
  · rw [World.step, hreap]
    rfl
  · show (w.sched.reapTake.2.threads z).bind Thread.space = none
    rw [SchedulerState.space_reapTake, if_pos hz]
  · intro f hf
    rw [hsound.order.mem_frames, ← hsound.order.mem_freed] at hf
    show f ∈ machine.frames.freed
    rw [hmachine, freed_deallocateAll]
    exact List.mem_append_left _ (List.mem_reverse.2 hf)
  · rintro page f ⟨hown, hf⟩ hrange hfreed
    -- the page is one of the heap's, and its frame is still the kernel's
    obtain ⟨g, hlent, hg⟩ := hsound.filled page hrange
    rw [translatePage, hsound.order.space.walk_owned (fun _ hi => hi)
      (show page.path.length ≤ 4 from le_rfl)
      (fun i hi => Option.some.inj hi ▸ hown), hg] at hf
    obtain rfl := Option.some.inj hf
    refine hboot.not_mem_supply (Or.inr ⟨page, hsound.heap page hrange, hlent⟩) ?_
    exact hbooks.divided.spare_subset (List.mem_append_left _ hfreed)

/-- **Physical frames are conserved.**  Whatever the order of the steps, every usable frame is in
exactly one place: not yet handed out, once on the free list, owned by one address space that has
not been freed, or held by the kernel.  Reaping a thread puts all that its space owned on the free
list, and nothing of its kernel stack. -/
theorem frames_conserved (hmap : MapTo.Documented bootInfo mapTo) (hboot : Booted map cr3 m₀)
    (hrun : Runs.Reach (step mapTo cr3 off) (Allowed cr3 off) (start cr3 m₀) w) :
    (∀ f ∈ map.usableFrames, ∃! p : Place, p.Holds cr3 off w f) ∧
      ∀ z s, w.sched.zombie = some z → w.space (.thread z) = some s →
        ∃ w', step mapTo cr3 off w .reapZombie = .ok w' ∧ w'.space (.thread z) = none ∧
          (∀ f ∈ s.frames off w.machine.mem, f ∈ w'.machine.frames.freed) ∧
          ∀ page f, OwnedPage w.machine.mem off s.l4 page f →
            inRange s.borrowed page.start.val = true → f ∉ w'.machine.frames.freed := by
  have h := books_of_reach hmap hboot hrun
  refine ⟨?_, fun z s hz hs => h.reaped hboot hz hs⟩
  intro f hf
  obtain ⟨p, hp⟩ := h.exists_place hboot hf
  exact ⟨p, hp, fun q hq => h.place_unique hboot hq hp⟩

/-! ## Loading a program -/

/-- A page mapped to a new frame is a run of one step. -/
theorem reach_of_mapFreshPage {noFrames failed : Panic} {l4 : PhysFrame} {page : Page}
    {flags : Word} {fill : Fill} {m' : Machine BootInfoFrameAllocator} (hlive : w.Live l4)
    (hpage : owned off page.start.p4Index = true) (hfl : PageTableEntry.Plain flags)
    (h : mapFreshPage bootInfo mapTo noFrames failed l4 page flags fill w.machine = .ok m') :
    Runs.Reach (step mapTo cr3 off) (Allowed cr3 off) w { w with machine := m' } := by
  have hone : step mapTo cr3 off w (.mapPage noFrames failed l4 page flags fill) =
      .ok { w with machine := m' } := by
    rw [step, h]
    rfl
  have hallowed : Allowed cr3 off w (.mapPage noFrames failed l4 page flags fill) :=
    ⟨hlive, hpage, hfl⟩
  exact Runs.Reach.refl.tail hallowed hone

/-- **`map_shellcode_page` is a run** of these steps, for a page outside the two shared entries. -/
theorem reach_of_mapShellcodePage {l4 : PhysFrame} {addr : ℕ} {code : List Byte}
    {m' : Machine BootInfoFrameAllocator} (hlive : w.Live l4)
    (hslot : ∀ v, VirtAddr.new addr = .ok v → owned off (Page.containing v).start.p4Index = true)
    (h : mapShellcodePage bootInfo mapTo l4 addr code w.machine = .ok m') :
    Runs.Reach (step mapTo cr3 off) (Allowed cr3 off) w { w with machine := m' } := by
  obtain ⟨v, hv, h⟩ := bind_eq_ok h
  exact reach_of_mapFreshPage hlive (hslot v hv) (by decide) h

/-- Mapping the pages of a file is a run. -/
theorem reach_of_mapRequests {l4 : PhysFrame} {qs : List Request}
    {m' : Machine BootInfoFrameAllocator} (hlive : w.Live l4) (hqs : ∀ q ∈ qs, q.Ok)
    (hslots : ∀ q ∈ qs, owned off q.slot = true)
    (h : qs.foldlM (mapRequest bootInfo mapTo l4) w.machine = .ok m') :
    Runs.Reach (step mapTo cr3 off) (Allowed cr3 off) w { w with machine := m' } := by
  induction qs generalizing w with
  | nil =>
    cases h
    exact .refl
  | cons q qs ih =>
    rw [List.forall_mem_cons] at hqs hslots
    rw [List.foldlM_cons] at h
    obtain ⟨m₁, h₁, h⟩ := bind_eq_ok h
    have hlive₁ : World.Live { w with machine := m₁ } l4 := by
      obtain ⟨id, s, hs, hl4⟩ := hlive
      exact ⟨id, s, (space_machine w m₁ id).trans hs, hl4⟩
    have hpage : owned off (pageAt q.addr).start.p4Index = true := by
      rw [pageAt_of_lower hqs.1.lower hqs.1.aligned]
      exact hslots.1
    rw [mapRequest_eq_mapFreshPage] at h₁
    exact (reach_of_mapFreshPage hlive hpage hqs.1.plain h₁).trans
      (ih (w := { w with machine := m₁ }) hlive₁ hqs.2 hslots.2 h)

/-- **`elf::load` is a run** of these steps for a program whose pages are all outside the two
shared entries: a space is made, and then its pages are mapped. -/
theorem reach_of_load {active : PhysFrame} {bytes args : List Byte} {elf : LoadedElf}
    {m' : Machine BootInfoFrameAllocator} (hactive : active = cr3 ∨ w.Live active)
    (hslots : ∀ q ∈ (plan bytes args).pages, owned off q.slot = true)
    (h : load bootInfo mapTo active off bytes args w.machine = .ok (m', some elf)) :
    Runs.Reach (step mapTo cr3 off) (Allowed cr3 off) w
      { w with machine := m', unspawned := insert elf.pageTable w.unspawned } := by
  obtain ⟨m₁, hnew, hlow, hrun, -⟩ := load_eq_some h
  have hone : step mapTo cr3 off w (.newAddressSpace active) =
      .ok { w with machine := m₁, unspawned := insert elf.pageTable w.unspawned } := by
    rw [step, hnew]
    rfl
  have hallowed : Allowed cr3 off w (.newAddressSpace active) := hactive
  have hlive : World.Live
      { w with machine := m₁, unspawned := insert elf.pageTable w.unspawned } elf.pageTable :=
    ⟨.unspawned elf.pageTable, _, if_pos (Finset.mem_insert_self _ _), rfl⟩
  exact (Runs.Reach.refl.tail hallowed hone).trans
    (reach_of_mapRequests hlive (plan_request_ok hlow) hslots hrun)

end Places

/-! ## Room for a process -/

section Room

variable {mapTo : MapTo BootInfoFrameAllocator} {map : MemoryMap} {cr3 : PhysFrame} {off : Fin 512}
  {m₀ : Machine BootInfoFrameAllocator} {w : World}

/-- What `lendStack` asks of a heap block that is shared with a space. -/
theorem Books.lent (hboot : Booted map cr3 m₀) (h : Books cr3 off m₀ w) (mem : PhysMem)
    (hmem : ∀ x, x ∉ bootInfoSpec.free m₀.frames → mem x = w.machine.mem x) (page : Page) :
    translatePage mem cr3 page = translatePage m₀.mem cr3 page := by
  refine translatePage_congr (fun x hx => ?_) page
  rw [hmem x (hboot.tables.used x hx), h.kernel x hx]

/-- The kernel's tables stay in good order, -/
theorem Books.kernelSpace (hboot : Booted map cr3 m₀) (h : Books cr3 off m₀ w) :
    Space bootInfoSpec cr3 allEntries noEntries w.machine where
  valid := h.valid
  tree := hboot.tables.tree.congr fun π hπ => by
    refine RadixHeap.walk_congr (d := 4) (fun ρ x hρ hx j => ?_) (by omega)
    rw [view, view, h.kernel x ⟨ρ, by omega, hx⟩]
  used x hx := (h.kernel_not_mem hboot ((isTable_congr h.kernel).1 hx)).1
  proper π x j _ _ hown := by
    cases π with
    | nil => exact absurd (hown j rfl) Bool.false_ne_true
    | cons i π => exact absurd (hown i rfl) Bool.false_ne_true

/-- and so does its heap. -/
theorem Books.heapPage (hboot : Booted map cr3 m₀) (h : Books cr3 off m₀ w) {page : Page}
    (hpage : IsHeapPage page) : HeapPage bootInfoSpec cr3 w.machine page := by
  obtain ⟨f, hf, hfree, htable⟩ := hboot.heap page hpage
  refine ⟨f, (h.lent hboot _ (fun _ _ => rfl) page).trans hf, ?_, ?_⟩
  · exact fun hc => hfree (h.divided.spare_subset hc)
  · exact fun hc => htable ((isTable_congr h.kernel).1 hc)

end Room

end World

section Exists

variable {σ : Type} {A : FrameAllocator σ} {S : A.Spec} {mapTo : MapTo σ} {l4 : PhysFrame}
  {vis own : Fin 512 → Bool} {m : Machine σ} {page : Page} {flags : Word} {n : ℕ}

/-- A new page can be mapped where it is possible, given four frames. -/
theorem exists_mapFreshPage_eq_ok (hmap : MapTo.Documented A mapTo) (hs : Space S l4 vis own m)
    (hfl : PageTableEntry.Plain flags) (hvis : vis page.start.p4Index = true)
    (hmappable : Mappable m.mem l4 vis page.path) (hsup : A.Supplies (n + 4) m.frames)
    (noFrames failed : Panic) (fill : Fill) :
    ∃ m' f, mapFreshPage A mapTo noFrames failed l4 page flags fill m = .ok m' ∧
      FreshMapped S l4 vis own page.path f m m' ∧ A.Supplies n m'.frames := by
  have hhead : ∀ i ∈ page.path.head?, vis i = true := by
    intro i hi
    obtain rfl := Option.some.inj hi
    exact hvis
  obtain ⟨f, m₁, ha, hsup₁⟩ := Machine.exists_allocate_eq_some hsup
  obtain ⟨hs₁, -⟩ := hs.allocate ha
  obtain ⟨-, hmem, -⟩ := Machine.allocate_eq_some ha
  obtain ⟨m₂, hto, hsup₂⟩ := exists_mapPath_of_mappable (PageTableEntry.setFrame f flags) hfl
    (show page.path.length = 4 from rfl) hhead hs₁ (hmem ▸ hmappable) hsup₁
  refine ⟨m₂.write (fill.write m₂.mem f), f, ?_,
    freshMapped hs hfl rfl hhead ha hto (fill.other m₂.mem f), hsup₂⟩
  rw [mapFreshPage, ha]
  show (expectOk _ (mapTo m₁ l4 page f flags) >>= _) = _
  rw [hmap _ _ _ _ _ hfl, documentedMapTo, plain_and hfl, hto]
  rfl

end Exists

namespace World

section Room

variable {mapTo : MapTo BootInfoFrameAllocator} {map : MemoryMap} {cr3 : PhysFrame} {off : Fin 512}
  {m₀ : Machine BootInfoFrameAllocator} {w : World}

variable (hboot : Booted map cr3 m₀) (h : Books cr3 off m₀ w) {l4 : PhysFrame}
  {m₁ m₂ : Machine BootInfoFrameAllocator}
  (hnew : newAddressSpace bootInfo w.machine cr3 off = .ok (l4, m₁))
include hboot h hnew

/-- In a new space everything can be mapped that is not below one of the two shared entries. -/
theorem Books.mappable {page : Page} (hown : owned off page.start.p4Index = true) :
    Mappable m₁.mem l4 allEntries page.path := by
  have htables := h.kernelSpace hboot
  exact (newAddressSpace_mappable htables.valid htables.used hnew rfl).2 (Or.inl hown)

/-- A stack can be lent to a space with one page that is not in its range, and the page stays. -/
theorem Books.exists_shareStack (hmap : MapTo.Documented bootInfo mapTo) {stackBase : ℕ}
    (hblock : HeapBlock stackBase) (hheap : owned off 136 = true) {page : Page} {f : PhysFrame}
    (hfresh : FreshMapped bootInfoSpec l4 allEntries (owned off) page.path f m₁ m₂)
    (hout : inRange (stackBase, stackBase + threadStackSize) page.start.val = false)
    (hsup : bootInfo.Supplies 48 m₂.frames) :
    ∃ m₃, shareStack mapTo cr3 l4 stackBase m₂ = .ok m₃ ∧
      translatePage m₃.mem l4 page = some f := by
  obtain ⟨v, hv, hpages⟩ := exists_stackPages hblock.aligned hblock.lower
  have hsize : threadStackSize / 4096 = 16 := rfl
  have hshareable : ∀ i ∈ List.range (threadStackSize / 4096), ∃ p,
      (Page.containing v).add i = .ok p ∧ Shareable bootInfoSpec w.machine.mem cr3 l4 m₂ p ∧
        Mappable m₂.mem l4 allEntries p.path := by
    intro i hi
    obtain ⟨p, hadd, -⟩ := hpages i (List.mem_range.1 hi)
    have hrange := AddrSpace.inRange_of_add hblock.aligned hblock.lower hv (List.mem_range.1 hi)
      hadd
    have hisHeap := hblock.isHeapPage hrange
    refine ⟨p, hadd, ((h.heapPage hboot hisHeap).shareable (h.kernelSpace hboot) hnew).extends
      hfresh.space hfresh.ext, (hfresh.others _ rfl).2 ⟨h.mappable hboot hnew ?_, ?_⟩⟩
    · rw [p4Index_of_isHeapPage hisHeap]
      exact hheap
    · intro hpath
      rw [Page.path_injective hpath, hout] at hrange
      cases hrange
  obtain ⟨m₃, hloop, -⟩ := exists_shareStackLoop_eq_ok (n := 0) hmap hfresh.space List.nodup_range
    (fun i hi => by rw [List.mem_range] at hi; omega) hshareable (by
      rw [List.length_range]
      exact hsup)
  obtain ⟨-, hext, -⟩ := shareStackLoop_spec hmap hfresh.space (fun i hi p hadd => by
    obtain ⟨p', hadd', hshare, -⟩ := hshareable i hi
    obtain rfl := Except.ok.inj (hadd.symm.trans hadd')
    exact hshare) hloop
  refine ⟨m₃, ?_, (hfresh.maps.extends hfresh.space hext le_rfl).follow⟩
  rw [shareStack, hv]
  exact hloop

end Room

/-! ## A process from its start to its end -/

/-- One usable region, with room for the heap. -/
def heapMap : MemoryMap where
  regions := [⟨0x1000, 0x3000, .usable, by decide⟩]
  disjoint := List.pairwise_singleton _ _

theorem mem_supply_heapMap {f : PhysFrame} :
    f ∈ (BootInfoFrameAllocator.init heapMap).supply ↔ 0x1000 ≤ f.val ∧ f.val < 0x3000 := by
  rw [BootInfoFrameAllocator.supply_init, List.mem_flatMap]
  simp [heapMap, MemoryRegion.mem_frames]

/-- The machine when the bootloader is done. -/
def bootloaderMachine : Machine BootInfoFrameAllocator where
  mem := bootMemory
  frames := BootInfoFrameAllocator.init heapMap
  log := []

/-- Its tables are in good order. -/
theorem space_bootloaderMachine : Space bootInfoSpec 1 allEntries noEntries bootloaderMachine := by
  refine space_bootMemory (BootInfoFrameAllocator.nodup_supply_init heapMap) ?_ ?_
  · intro hc
    exact absurd (mem_supply_heapMap.1 hc).1 (by decide)
  · intro hc
    exact absurd (mem_supply_heapMap.1 hc).1 (by decide)

/-- The heap can be mapped, and frames are left. -/
theorem exists_initHeap_bootloaderMachine {n : ℕ} (hn : n ≤ 4096) : ∃ m₀,
    initHeap bootInfo (documentedMapTo bootInfo) 1 bootloaderMachine = .ok m₀ ∧
      bootInfo.Supplies n m₀.frames := by
  have hmap : MapTo.Documented bootInfo (documentedMapTo bootInfo) := fun _ _ _ _ _ _ => rfl
  have hsupply : n + 4 * 1024 ≤ bootloaderMachine.frames.supply.length := by
    have hlen : bootloaderMachine.frames.supply.length = 8192 := by
      rw [bootloaderMachine, BootInfoFrameAllocator.supply_init]
      simp [heapMap, MemoryRegion.frames, framesBetween]
    omega
  have hmappable : ∀ page, IsHeapPage page → Mappable bootMemory 1 allEntries page.path := by
    intro page hpage
    refine RadixHeap.holed_cons_iff.2 (Or.inl ?_)
    rw [view_allEntries, p4Index_of_isHeapPage hpage]
    decide
  exact exists_initHeap_eq_ok bootInfoSpec_exact hmap space_bootloaderMachine hmappable
    (supplies_bootInfo hsupply)

/-- It boots, and has frames left. -/
theorem exists_booted : ∃ m₀, Booted heapMap 1 m₀ ∧ bootInfo.Supplies 53 m₀.frames := by
  obtain ⟨m₀, hheap, hsup⟩ := exists_initHeap_bootloaderMachine (n := 53) (by decide)
  exact ⟨m₀, booted_of_initHeap (fun _ _ _ _ _ _ => rfl) rfl space_bootloaderMachine hheap, hsup⟩

/-- The scheduler starts a thread, switches to it, and the thread exits. -/
theorem exists_exit (pageTable : Frame) : ∃ pid s₁ sw s₂ sw' s₃,
    (SchedulerState.init (1 : PhysFrame).val).spawnIsolatedInner 0x444444530000 (.function 0) none
      pageTable = .ok (pid, s₁) ∧ s₁.zombie = none ∧ s₁.scheduleRest = .ok (some sw, s₂) ∧
    (s₂.saveStackPointer sw.previous 0).zombie = none ∧
    (s₂.saveStackPointer sw.previous 0).exitRest = .ok (sw', s₃) ∧ s₃.zombie = some 1 ∧
    (s₃.threads 1).bind Thread.space = some ⟨toPhysFrame pageTable,
      (0x444444530000, 0x444444530000 + threadStackSize)⟩ :=
  ⟨_, _, _, _, _, _, rfl, rfl, rfl, rfl, rfl, rfl, rfl⟩

/-- The page that the isolated demo runs from, at `ISOLATED_USER_PAGE_ADDR`. -/
def isolatedUserPage : Page :=
  Page.containing ⟨0x600000000000, VirtAddr.canonical_of_lower (by norm_num)⟩

/-- What `map_shellcode_page` maps its page with. -/
def demoFlags : Word :=
  PageTableFlags.present ||| PageTableFlags.writable ||| PageTableFlags.userAccessible

/-- A run in which a space is made, gets a page, and is given to the thread that the scheduler
starts. -/
theorem exists_withPage {m₀ : Machine BootInfoFrameAllocator} (hboot : Booted heapMap 1 m₀)
    (hsup : bootInfo.Supplies 53 m₀.frames) : ∃ (l4 : PhysFrame) (m : Machine _) (f : PhysFrame),
    OwnedPage m.mem 3 l4 isolatedUserPage f ∧ ∀ pid s,
      (SchedulerState.init (1 : PhysFrame).val).spawnIsolatedInner 0x444444530000 (.function 0) none
        l4.val = .ok (pid, s) →
      Runs.Reach (step (documentedMapTo bootInfo) 1 3) (Allowed 1 3) (start 1 m₀)
        ⟨⟨m, s⟩, (insert l4 ∅ : Finset PhysFrame).erase l4⟩ := by
  have hmap : MapTo.Documented bootInfo (documentedMapTo bootInfo) := fun _ _ _ _ _ _ => rfl
  have hblock : HeapBlock 0x444444530000 := ⟨by decide, by decide, by decide⟩
  have hbooks : Books 1 3 m₀ (start 1 m₀) := books_start hboot
  have hown : owned 3 isolatedUserPage.start.p4Index = true := by decide
  have hplain : PageTableEntry.Plain demoFlags := by decide
  obtain ⟨l4, m₁, hnew, hsup₁⟩ := exists_newAddressSpace 1 3 hsup
  obtain ⟨m₂, f, hpage, hfresh, hsup₂⟩ := exists_mapFreshPage_eq_ok (n := 48) hmap
    (newAddressSpace_all hboot.tables hnew) hplain rfl (hbooks.mappable hboot hnew hown) hsup₁
    .noFramesForDemoPage .mapDemoPageFailed (Fill.code [])
  obtain ⟨m₃, hshare, hmapped⟩ := hbooks.exists_shareStack hboot hnew hmap hblock rfl hfresh
    (by decide) hsup₂
  refine ⟨l4, m₃, f, ⟨hown, hmapped⟩, fun pid s hspawn => ?_⟩
  let w₁ : World := ⟨⟨m₁, SchedulerState.init (1 : PhysFrame).val⟩, insert l4 ∅⟩
  let w₂ : World := ⟨⟨m₂, SchedulerState.init (1 : PhysFrame).val⟩, insert l4 ∅⟩
  have hmake : step (documentedMapTo bootInfo) 1 3 (start 1 m₀) (.newAddressSpace 1) = .ok w₁ := by
    show (newAddressSpace bootInfo m₀ 1 3 >>= _) = _
    rw [hnew]
    rfl
  have hfill : step (documentedMapTo bootInfo) 1 3 w₁ (.mapPage .noFramesForDemoPage
      .mapDemoPageFailed l4 isolatedUserPage demoFlags (Fill.code [])) = .ok w₂ := by
    rw [step, hpage]
    rfl
  have hstart : step (documentedMapTo bootInfo) 1 3 w₂
      (.spawnIsolatedInner l4 0x444444530000 (.function 0) none) =
        .ok ⟨⟨m₃, s⟩, (insert l4 ∅ : Finset PhysFrame).erase l4⟩ := by
    rw [step, System.spawnIsolatedInner, if_neg (by decide)]
    simp only [w₂, hshare, hspawn]
    rfl
  have hl4 : l4 ∈ (insert l4 ∅ : Finset PhysFrame) := Finset.mem_insert_self l4 ∅
  have hlive : w₁.Live l4 := ⟨.unspawned l4, ⟨l4, (0, 0)⟩, if_pos hl4, rfl⟩
  have hallowed : Allowed 1 3 (start 1 m₀) (.newAddressSpace 1) := Or.inl rfl
  have hallowed₁ : Allowed 1 3 w₁ (.mapPage .noFramesForDemoPage .mapDemoPageFailed l4
      isolatedUserPage demoFlags (Fill.code [])) := ⟨hlive, hown, hplain⟩
  have hallowed₂ : Allowed 1 3 w₂ (.spawnIsolatedInner l4 0x444444530000 (.function 0) none) :=
    ⟨hl4, Or.inr hblock⟩
  exact ((Runs.Reach.refl.tail hallowed hmake).tail hallowed₁ hfill).tail hallowed₂ hstart

/-- **A run** in which a process with a page is started and exits. -/
theorem exists_exited {m₀ : Machine BootInfoFrameAllocator} (hboot : Booted heapMap 1 m₀)
    (hsup : bootInfo.Supplies 53 m₀.frames) :
    ∃ w s f, Runs.Reach (step (documentedMapTo bootInfo) 1 3) (Allowed 1 3) (start 1 m₀) w ∧
      w.sched.zombie = some 1 ∧ w.space (.thread 1) = some s ∧
      OwnedPage w.machine.mem 3 s.l4 isolatedUserPage f ∧
      inRange s.borrowed isolatedUserPage.start.val = false := by
  obtain ⟨l4, m, f, howned, hreach⟩ := exists_withPage hboot hsup
  obtain ⟨pid, s₁, sw, s₂, sw', s₃, hspawn, hz₁, hsched, hz₂, hexit, hz₃, hsp⟩ := exists_exit l4.val
  let w₁ : World := ⟨⟨m, s₁⟩, (insert l4 ∅ : Finset PhysFrame).erase l4⟩
  let w₂ : World := ⟨⟨m, s₂.saveStackPointer sw.previous 0⟩, w₁.unspawned⟩
  let w₃ : World := ⟨⟨m, s₃.saveStackPointer sw'.previous 0⟩, w₁.unspawned⟩
  have hswitch : step (documentedMapTo bootInfo) 1 3 w₁ (.schedule 0) = .ok w₂ := by
    rw [step, System.schedule, System.reapZombie_of_none hz₁]
    show ((s₁.scheduleRest >>= _) >>= _) = _
    rw [hsched]
    rfl
  have hleave : step (documentedMapTo bootInfo) 1 3 w₂ (.exitCurrentThread 0) = .ok w₃ := by
    rw [step, System.exitCurrentThread, System.reapZombie_of_none hz₂]
    show (((s₂.saveStackPointer sw.previous 0).exitRest >>= _) >>= _) = _
    rw [hexit]
    rfl
  have hallowed : Allowed 1 3 w₁ (.schedule 0) := trivial
  have hallowed' : Allowed 1 3 w₂ (.exitCurrentThread 0) := trivial
  have hspace := (space_saveStackPointer s₃ sw'.previous 0 1).trans hsp
  rw [toPhysFrame, Fin.ofNat_val_eq_self] at hspace
  have hout : inRange (0x444444530000, 0x444444530000 + threadStackSize)
      isolatedUserPage.start.val = false := by decide
  exact ⟨w₃, _, f, ((hreach pid s₁ hspawn).tail hallowed hswitch).tail hallowed' hleave, hz₃,
    hspace, howned, hout⟩

/-- The theorem for this run: there is a zombie, and reaping it frees the frame of its page. -/
theorem frames_conserved_exited : ∃ m₀ w s f,
    Runs.Reach (step (documentedMapTo bootInfo) 1 3) (Allowed 1 3) (start 1 m₀) w ∧
    w.space (.thread 1) = some s ∧ translatePage w.machine.mem s.l4 isolatedUserPage = some f ∧
    (∀ f ∈ heapMap.usableFrames, ∃! p : Place, p.Holds 1 3 w f) ∧
    ∃ w', step (documentedMapTo bootInfo) 1 3 w .reapZombie = .ok w' ∧
      w'.space (.thread 1) = none ∧ f ∈ w'.machine.frames.freed ∧
      ∀ f ∈ s.frames 3 w.machine.mem, f ∈ w'.machine.frames.freed := by
  obtain ⟨m₀, hboot, hsup⟩ := exists_booted
  obtain ⟨w, s, f, hrun, hz, hs, hpage, hout⟩ := exists_exited hboot hsup
  obtain ⟨hplaces, hreap⟩ := frames_conserved (fun _ _ _ _ _ _ => rfl) hboot hrun
  obtain ⟨w', hstep, hnone, hfreed, -⟩ := hreap 1 s hz hs
  exact ⟨m₀, w, s, f, hrun, hs, hpage.2, hplaces, w', hstep, hnone,
    hfreed f (Or.inr (Or.inr ⟨isolatedUserPage, hpage, hout⟩)), hfreed⟩

end World
