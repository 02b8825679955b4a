/-
# `SYS_SPAWN`

`sys_spawn` and `spawn_from_path` (syscall.rs) as a whole: the arguments are copied in
from the caller's memory, the file is read from the disk, loaded into a new address
space and started as a thread.  The handler runs with interrupts disabled, so nothing
comes in between.

`spawns_cleanly_iff`: for a file that `elf::load` accepts, and with enough heap and
frames, the call ends as its documentation says if and only if there is a free slot in
the thread table, its generation can be counted up, and the program has no page in the
range of the kernel stack that is shared into its address space.  Otherwise one of the
`expect`s in `spawn_isolated_inner` panics.
-/
import Velora.FsRead
import Velora.Preemption
import Velora.SpawnUser
import Velora.SysRead

/-! ## The code -/

/-- The ranges of the bytes that must follow a byte at the start of a character, `none` if no
character starts with it. -/
def utf8Tail (a : UInt8) : Option (List (UInt8 × UInt8)) :=
  if a < 0x80 then some []
  else if 0xc2 ≤ a ∧ a ≤ 0xdf then some [(0x80, 0xbf)]
  else if a = 0xe0 then some [(0xa0, 0xbf), (0x80, 0xbf)]
  else if a = 0xed then some [(0x80, 0x9f), (0x80, 0xbf)]
  else if 0xe1 ≤ a ∧ a ≤ 0xef then some [(0x80, 0xbf), (0x80, 0xbf)]
  else if a = 0xf0 then some [(0x90, 0xbf), (0x80, 0xbf), (0x80, 0xbf)]
  else if 0xf1 ≤ a ∧ a ≤ 0xf3 then some [(0x80, 0xbf), (0x80, 0xbf), (0x80, 0xbf)]
  else if a = 0xf4 then some [(0x80, 0x8f), (0x80, 0xbf), (0x80, 0xbf)]
  else none

/-- The bytes continue a character whose remaining bytes lie in the given ranges. -/
def validUtf8From : List (UInt8 × UInt8) → List UInt8 → Bool
  | [], [] => true
  | [], a :: rest =>
    match utf8Tail a with
    | none => false
    | some pending => validUtf8From pending rest
  | _ :: _, [] => false
  | (lo, hi) :: pending, b :: rest => lo ≤ b && b ≤ hi && validUtf8From pending rest

/-- `core::str::from_utf8(bytes).is_ok()` -/
def validUtf8 (bytes : List UInt8) : Bool := validUtf8From [] bytes

/-- `copy_from_user`: `none` if the calling thread is killed. -/
def copyFromUser (mem : PhysMem) (cr3 : PhysFrame) (ptr len : ℕ) :
    Except Panic (Option (List UInt8)) := do
  if ← userRangeOk mem cr3 ptr len false then
    return some ((List.range len).map fun i => ⟨(imageByte mem cr3 (ptr + i)).getD 0⟩)
  else return none

/-- A frame number of the scheduler's as a frame of memory. -/
def toPhysFrame (f : Frame) : PhysFrame := Fin.ofNat 0x10000000000 f

/-- What a system call finds: memory, the scheduler, the blocks of the heap that are in use (base
and size), and the active page table. -/
structure SyscallState (σ : Type) extends System σ where
  blocks : List (ℕ × ℕ)
  cr3 : PhysFrame

/-- How a system call ends: it returns a value to its caller, or the caller is killed. -/
inductive SyscallEnd (σ : Type)
  | returns (rax : UInt64) (state : SyscallState σ)
  | killed

/-- What a call finds around it: the disk, the level-4 index of `physical_memory_offset`, how
large a block the heap can hand out for the file and where it has one for a stack (0 if it has
none); the loop over the clusters of the file is followed for `rounds` rounds. -/
structure SpawnEnv where
  disk : Disk
  rounds : ℕ
  off : Fin 512
  heapRoom : ℕ
  stackBase : ℕ

namespace SyscallState

variable {σ : Type} (A : FrameAllocator σ) (mapTo : MapTo σ) (env : SpawnEnv)

/-- `spawn_from_path`.  The buffer of the file is freed at its end, so of the heap only the stack
stays in use. -/
def spawnFromPath (path args : List UInt8) (h : SyscallState σ) :
    Option (Except Panic (Option Pid × SyscallState σ)) :=
  match Fs.readFile env.heapRoom env.disk env.rounds path with
  | none => none
  | some (.error p) => some (.error p)
  | some (.ok none) => some (.ok (none, h))
  | some (.ok (some data)) => some do
    let (machine, loaded) ← load A mapTo h.cr3 env.off (data.map UInt8.toBitVec)
      (args.map UInt8.toBitVec) h.machine
    match loaded with
    | none => return (none, { h with machine })
    | some elf =>
      let (pid, s) ← System.spawnUser mapTo h.cr3 env.stackBase elf { machine, sched := h.sched }
      return (some pid, { h with
        toSystem := s, blocks := (env.stackBase, threadStackSize) :: h.blocks })

/-- The end of `sys_spawn`: switch to the kernel's page table, spawn, switch back. -/
def spawnUnderKernelTable (path args : List UInt8) (h : SyscallState σ) :
    Option (Except Panic (SyscallEnd σ)) :=
  (spawnFromPath A mapTo env path args
    { h with cr3 := toPhysFrame h.sched.kernelPageTable }).map fun r => r.map fun (pid, h') =>
      .returns (pid.getD u64Max) { h' with cr3 := h.cr3 }

/-- `sys_spawn` -/
def sysSpawn (pathPtr pathLen argsPtr argsLen : ℕ) (h : SyscallState σ) :
    Option (Except Panic (SyscallEnd σ)) :=
  if pathLen = 0 ∨ pathLen > 255 ∨ argsLen > 255 then some (.ok (.returns u64Max h))
  else
    match copyFromUser h.machine.mem h.cr3 pathPtr pathLen with
    | .error p => some (.error p)
    | .ok none => some (.ok .killed)
    | .ok (some path) =>
      if !validUtf8 path then some (.ok (.returns u64Max h))
      else
        match if argsLen > 0 then copyFromUser h.machine.mem h.cr3 argsPtr argsLen
          else .ok (some []) with
        | .error p => some (.error p)
        | .ok none => some (.ok .killed)
        | .ok (some args) => spawnUnderKernelTable A mapTo env path args h

end SyscallState

/-! ## How a call should end -/

section Spec

variable {σ : Type} {A : FrameAllocator σ} {mapTo : MapTo σ} {env : SpawnEnv} {S : A.Spec}

/-- The pid names a thread that is new, and queued. -/
def SchedulerState.Started (s s' : SchedulerState) (pid : Pid) : Prop :=
  ∃ id, pid = packPid id (s'.slotGenerations id) ∧ s.threads id = none ∧ s'.Occupied id ∧
    id ∈ s'.readyQueue.toList

/-- Nothing is left behind: the scheduler's data, the blocks of the heap and the free frames are
as they were. -/
structure NoResidue (S : A.Spec) (h h' : SyscallState σ) : Prop where
  sched : h'.sched = h.sched
  blocks : h'.blocks = h.blocks
  free : S.free h'.machine.frames = S.free h.machine.frames

/-- **A clean end**: the pid of a thread that is now queued, or `u64::MAX` and no residue. -/
def SpawnsCleanly (S : A.Spec) (h : SyscallState σ) (outcome : Option (Except Panic (SyscallEnd σ))) :
    Prop :=
  ∃ rax h', outcome = some (.ok (.returns rax h')) ∧
    (h.sched.Started h'.sched rax ∨ (rax = u64Max ∧ NoResidue S h h'))

/-- **A call that names a file which `elf::load` accepts**, with enough heap for the file and the
stack, and frames for the pages of the program and for tables. -/
structure Accepted (S : A.Spec) (mapTo : MapTo σ) (env : SpawnEnv) (h : SyscallState σ)
    (pathPtr pathLen argsPtr argsLen : ℕ) (data args : List UInt8) (m' : Machine σ)
    (elf : LoadedElf) : Prop where
  tables : Space S (toPhysFrame h.sched.kernelPageTable) allEntries noEntries h.machine
  lengths : 0 < pathLen ∧ pathLen ≤ 255 ∧ argsLen ≤ 255
  named : ∃ path, copyFromUser h.machine.mem h.cr3 pathPtr pathLen = .ok (some path) ∧
    validUtf8 path = true ∧
    Fs.readFile env.heapRoom env.disk env.rounds path = some (.ok (some data))
  argsRead : if argsLen > 0 then copyFromUser h.machine.mem h.cr3 argsPtr argsLen = .ok (some args)
    else args = []
  loads : load A mapTo (toPhysFrame h.sched.kernelPageTable) env.off (data.map UInt8.toBitVec)
    (args.map UInt8.toBitVec) h.machine = .ok (m', some elf)
  stack : StackBlock S (toPhysFrame h.sched.kernelPageTable) env.off h.machine env.stackBase
  frames : A.Supplies (48 + 4 * (plan (data.map UInt8.toBitVec)
    (args.map UInt8.toBitVec)).pages.length + 1) h.machine.frames

/-! ## How a call ends -/

variable {h : SyscallState σ} {pathPtr pathLen argsPtr argsLen : ℕ} {data args : List UInt8}
  {m' : Machine σ} {elf : LoadedElf}

/-- **What a call does with an accepted file**: start a thread on it. -/
theorem Accepted.sysSpawn_eq
    (hc : Accepted S mapTo env h pathPtr pathLen argsPtr argsLen data args m' elf) :
    h.sysSpawn A mapTo env pathPtr pathLen argsPtr argsLen = some
      ((System.spawnUser mapTo (toPhysFrame h.sched.kernelPageTable) env.stackBase elf
        { machine := m', sched := h.sched }).map fun r => .returns r.1 { h with
          toSystem := r.2, blocks := (env.stackBase, threadStackSize) :: h.blocks }) := by
  obtain ⟨path, hpath, hutf, hread⟩ := hc.named
  obtain ⟨hpos, hle, hle'⟩ := hc.lengths
  have hargs : (if argsLen > 0 then copyFromUser h.machine.mem h.cr3 argsPtr argsLen
      else .ok (some [])) = .ok (some args) := by
    have hargs := hc.argsRead
    split_ifs at hargs ⊢
    · exact hargs
    · rw [hargs]
  rw [SyscallState.sysSpawn, if_neg (by omega), hpath]
  simp only [hutf, Bool.not_true, Bool.false_eq_true, if_false, hargs]
  rw [SyscallState.spawnUnderKernelTable, SyscallState.spawnFromPath, hread]
  simp only [hc.loads, Option.map_some]
  show some (Except.map _ (System.spawnUser _ _ _ _ _ >>= _)) = _
  cases System.spawnUser mapTo (toPhysFrame h.sched.kernelPageTable) env.stackBase elf
    { machine := m', sched := h.sched } <;> rfl

/-- The heap hands out no block at address 0: it lies below an entry that is shared. -/
theorem StackBlock.ne_zero {cr3 : PhysFrame} {off : Fin 512} {m : Machine σ} {stackBase : ℕ}
    (hblock : StackBlock S cr3 off m stackBase) : stackBase ≠ 0 := by
  rintro rfl
  obtain ⟨v, hv, hpages⟩ := exists_stackPages hblock.aligned hblock.lower
  obtain ⟨page, hpage, hval⟩ := hpages 0 (by decide)
  have hown := hblock.apart page ⟨v, hv, 0, by decide, hpage⟩
  have hindex : page.start.p4Index = 0 := by
    apply Fin.ext
    show page.start.val / 0x8000000000 % 512 = 0
    rw [hval]
  rw [hindex, owned_eq_false.2 (Or.inl rfl)] at hown
  cases hown

/-- A thread that has been installed is new, and queued. -/
theorem started_of_spawnUser {cr3 : PhysFrame} {stackBase : ℕ} {s s' : System σ} {pid : Pid}
    (hspawn : s.spawnUser mapTo cr3 stackBase elf = .ok (pid, s')) :
    s.sched.Started s'.sched pid := by
  obtain ⟨-, -, hsched⟩ := System.spawnIsolatedInner_eq_ok hspawn
  obtain ⟨-, id, hinstall, hpid⟩ := Kernel.spawnIsolatedInner_eq_ok hsched
  obtain ⟨hfree, hthreads, hrot, -, hcur, -⟩ := SchedulerState.install_spec hinstall
  refine ⟨id, hpid, hfree, ?_, ?_⟩
  · rw [SchedulerState.Occupied, hthreads, Function.update_self]
    rfl
  · -- the rotation is the current thread and the queue
    rw [SchedulerState.rotation, SchedulerState.rotation, hcur, List.cons_append] at hrot
    rw [(List.cons.inj hrot).2]
    exact List.mem_append_right _ (List.mem_singleton_self id)

/-- **When a thread is started on an accepted file.** -/
theorem Accepted.spawnUser_returns_iff (hmap : MapTo.Documented A mapTo) (hsafe : h.sched.Safe)
    (hc : Accepted S mapTo env h pathPtr pathLen argsPtr argsLen data args m' elf) :
    (∃ r, System.spawnUser mapTo (toPhysFrame h.sched.kernelPageTable) env.stackBase elf
        { machine := m', sched := h.sched } = .ok r) ↔
      (∃ id, h.sched.freeSlot = some id ∧
        (h.sched.slotGenerations id).toNat + 1 < 0x10000000000000000) ∧
      ∀ q ∈ (plan (data.map UInt8.toBitVec) (args.map UInt8.toBitVec)).pages,
        ¬ (env.stackBase ≤ q.addr ∧ q.addr < env.stackBase + threadStackSize) := by
  have hsup : A.Supplies 48 m'.frames := supplies_of_load hmap hc.tables hc.loads hc.frames
  rw [System.spawnUser, System.spawnIsolatedInner_returns_iff, hsafe.install_returns_iff,
    shareStack_returns_iff hmap hc.tables hc.stack hc.loads hsup]
  constructor
  · rintro ⟨-, hclear, hslot⟩
    exact ⟨hslot, hclear⟩
  · rintro ⟨hslot, hclear⟩
    exact ⟨hc.stack.ne_zero, hclear, hslot⟩

/-- **With a full thread table the call panics**, once the stack is shared. -/
theorem Accepted.sysSpawn_full (hmap : MapTo.Documented A mapTo)
    (hc : Accepted S mapTo env h pathPtr pathLen argsPtr argsLen data args m' elf)
    (hfull : h.sched.freeSlot = none)
    (hclear : ∀ q ∈ (plan (data.map UInt8.toBitVec) (args.map UInt8.toBitVec)).pages,
      ¬ (env.stackBase ≤ q.addr ∧ q.addr < env.stackBase + threadStackSize)) :
    h.sysSpawn A mapTo env pathPtr pathLen argsPtr argsLen = some (.error .threadTableFull) := by
  have hsup : A.Supplies 48 m'.frames := supplies_of_load hmap hc.tables hc.loads hc.frames
  obtain ⟨m'', hshare⟩ :=
    (shareStack_returns_iff hmap hc.tables hc.stack hc.loads hsup).2 hclear
  have hinstall : ∀ t, h.sched.install t = .error .threadTableFull := by
    intro t
    rw [SchedulerState.install, hfull]
    rfl
  rw [hc.sysSpawn_eq, System.spawnUser, System.spawnIsolatedInner, if_neg hc.stack.ne_zero]
  simp only [hshare, SchedulerState.spawnIsolatedInner, if_neg hc.stack.ne_zero, hinstall]
  rfl

/-- **`SYS_SPAWN` ends cleanly** in every reachable state of the scheduler, for every call that
names a file which `elf::load` accepts, if and only if the thread table has a free slot, whose
generation can be counted up, and no page of the program lies in the range of the kernel stack. -/
theorem spawns_cleanly_iff (hmap : MapTo.Documented A mapTo) {pt : Frame} {rsp rsp0 : ℕ}
    {k : Kernel} (hreach : Runs.Reachable Kernel.step (Kernel.boot pt rsp rsp0) k)
    (hsched : h.sched = k.sched)
    (hc : Accepted S mapTo env h pathPtr pathLen argsPtr argsLen data args m' elf) :
    SpawnsCleanly S h (h.sysSpawn A mapTo env pathPtr pathLen argsPtr argsLen) ↔
      (∃ id, h.sched.freeSlot = some id ∧
        (h.sched.slotGenerations id).toNat + 1 < 0x10000000000000000) ∧
      ∀ q ∈ (plan (data.map UInt8.toBitVec) (args.map UInt8.toBitVec)).pages,
        ¬ (env.stackBase ≤ q.addr ∧ q.addr < env.stackBase + threadStackSize) := by
  have hsafe : h.sched.Safe := hsched ▸ Kernel.safe_of_reachable hreach
  rw [← hc.spawnUser_returns_iff hmap hsafe, hc.sysSpawn_eq]
  constructor
  · rintro ⟨rax, h', hend, -⟩
    cases hspawn : System.spawnUser mapTo (toPhysFrame h.sched.kernelPageTable) env.stackBase elf
      { machine := m', sched := h.sched } with
    | error p =>
      rw [hspawn] at hend
      cases hend
    | ok r => exact ⟨r, rfl⟩
  · rintro ⟨⟨pid, s'⟩, hspawn⟩
    have hstarted := started_of_spawnUser hspawn
    rw [hspawn]
    exact ⟨pid, { h with
      toSystem := s', blocks := (env.stackBase, threadStackSize) :: h.blocks }, rfl,
      Or.inl hstarted⟩

end Spec

/-! ## A shell that spawns programs -/

/-- The disk with the file `A`, which holds the program `oneSegment`. -/
def programDisk : Disk
  | 3 => fun i => UInt8.ofBitVec (oneSegment.getD i.val 0)
  | n => Fs.oneFile 0 120 n

/-- What a call of the shell finds around it. -/
def shellEnv : SpawnEnv where
  disk := programDisk
  rounds := 1
  off := 3
  heapRoom := 0x400000
  stackBase := 0x444444530000

/-- The stack that is handed out for the program number `i`. -/
def shellStack (i : ℕ) : ℕ := 0x444444440000 + i * threadStackSize

/-- The shell, in the address space at 0x800, makes a system call. -/
def shellCall (sched : SchedulerState) : SyscallState BootInfoFrameAllocator where
  machine := heapMachine
  sched := sched
  blocks := (List.range 15).map fun i => (shellStack i, threadStackSize)
  cr3 := 0x800

/-- The parameters of a program. -/
def shellEntry : UserEntry :=
  ⟨⟨0x8000000000, VirtAddr.canonical_of_lower (by norm_num)⟩,
    ⟨0x8000003000, VirtAddr.canonical_of_lower (by norm_num)⟩,
    ⟨0x8000003000, VirtAddr.canonical_of_lower (by norm_num)⟩, 0⟩

/-- The shell is started, and spawns `n` programs. -/
def shellRun (n : ℕ) : List Kernel.Action :=
  Kernel.Action.spawnUser (shellStack 0) shellEntry 0x800 ::
    [Kernel.Action.tick 0x1000, Kernel.Action.trampoline, Kernel.Action.ring3Trampoline] ++
    (List.range n).map fun i =>
      Kernel.Action.spawnUser (shellStack (i + 1)) shellEntry (0x810 + i)

theorem eq_ok_of_toOption {ε α : Type} {x : Except ε α} {a : α} (h : x.toOption = some a) :
    x = .ok a := by
  cases x with
  | error e => cases h
  | ok b => exact congrArg Except.ok (Option.some.inj h)

/-- What is read from the disk is the program. -/
theorem map_oneSegment : (oneSegment.map UInt8.ofBitVec).map UInt8.toBitVec = oneSegment := by
  rw [List.map_map]
  exact List.map_id _

theorem readFile_programDisk : Fs.readFile 0x400000 programDisk 1 [0x41] =
    some (.ok (some (oneSegment.map UInt8.ofBitVec))) := by
  have hread : (Fs.readFile 0x400000 programDisk 1 [0x41]).map (·.toOption) =
      some (some (some (oneSegment.map UInt8.ofBitVec))) := by decide +kernel
  obtain ⟨r, hr, hread⟩ := Option.map_eq_some_iff.1 hread
  rw [hr, eq_ok_of_toOption hread]

/-- The call names the file `A`, and `elf::load` accepts it. -/
theorem exists_accepted {sched : SchedulerState} (hpt : sched.kernelPageTable = 1) :
    ∃ m' elf, Accepted bootInfoSpec (documentedMapTo bootInfo) shellEnv (shellCall sched)
      0x8000000000 1 0 0 (oneSegment.map UInt8.ofBitVec) [] m' elf := by
  have hsup : bootInfo.Supplies (48 + 4 * 3 + 1) heapMachine.frames :=
    supplies_bootInfo (by decide +kernel)
  obtain ⟨m', elf, hload⟩ : ∃ m' elf, load bootInfo (documentedMapTo bootInfo) 1 3 oneSegment []
      heapMachine = .ok (m', some elf) :=
    exists_load_eq_some (n := 48) (fun _ _ _ _ _ _ => rfl) space_heapMachine (by decide +kernel)
      (by decide +kernel) distinct_oneSegment (fun q hq => Or.inl (owned_oneSegment q hq))
      (by rw [length_pages_oneSegment]; exact hsup)
  have htable : toPhysFrame (shellCall sched).sched.kernelPageTable = 1 := by
    rw [shellCall, hpt]
    rfl
  have hpath : (copyFromUser heapMachine.mem 0x800 0x8000000000 1).toOption = some (some [0x41]) := by
    decide +kernel
  refine ⟨m', elf, ?_, by decide,
    ⟨[0x41], eq_ok_of_toOption hpath, by decide, readFile_programDisk⟩, rfl, ?_, ?_, ?_⟩
  · rw [htable]
    exact space_heapMachine
  · rw [htable, map_oneSegment]
    exact hload
  · rw [htable]
    exact stackBlock_heapMachine
  · rw [map_oneSegment, List.map_nil, length_pages_oneSegment]
    exact hsup

/-- The first program that the shell spawns. -/
theorem spawns_cleanly_iff_shell : ∃ k, Runs.Reachable Kernel.step (Kernel.boot 1 0 0) k ∧
    k.sched.freeSlot = some 2 ∧ SpawnsCleanly bootInfoSpec (shellCall k.sched)
      ((shellCall k.sched).sysSpawn bootInfo (documentedMapTo bootInfo) shellEnv
        0x8000000000 1 0 0) := by
  obtain ⟨k, hk, htest⟩ := Runs.exists_reach_of_any Kernel.step (fun _ _ => True)
    (Kernel.boot 1 0 0) (shellRun 0) (fun k => decide (k.sched.kernelPageTable = 1 ∧
      k.sched.freeSlot = some 2 ∧ k.sched.slotGenerations 2 = 0)) (by decide +kernel)
  obtain ⟨hpt, hslot, hgen⟩ := of_decide_eq_true htest
  obtain ⟨m', elf, hc⟩ := exists_accepted hpt
  refine ⟨k, hk, hslot, (spawns_cleanly_iff (fun _ _ _ _ _ _ => rfl) hk rfl hc).2 ⟨⟨2, hslot, ?_⟩, ?_⟩⟩
  · show (k.sched.slotGenerations 2).toNat + 1 < _
    rw [hgen]
    decide
  · decide +kernel

/-- **A full thread table takes the kernel down**: the shell has spawned fourteen programs, and
spawns another one. -/
theorem full_table_panics : ∃ k m' elf, Runs.Reachable Kernel.step (Kernel.boot 1 0 0) k ∧
    Accepted bootInfoSpec (documentedMapTo bootInfo) shellEnv (shellCall k.sched)
      0x8000000000 1 0 0 (oneSegment.map UInt8.ofBitVec) [] m' elf ∧
    (shellCall k.sched).sysSpawn bootInfo (documentedMapTo bootInfo) shellEnv 0x8000000000 1 0 0 =
      some (.error .threadTableFull) := by
  obtain ⟨k, hk, htest⟩ := Runs.exists_reach_of_any Kernel.step (fun _ _ => True)
    (Kernel.boot 1 0 0) (shellRun 14) (fun k => decide (k.sched.kernelPageTable = 1 ∧
      k.sched.freeSlot = none)) (by decide +kernel)
  obtain ⟨hpt, hslot⟩ := of_decide_eq_true htest
  obtain ⟨m', elf, hc⟩ := exists_accepted hpt
  exact ⟨k, m', elf, hk, hc, hc.sysSpawn_full (fun _ _ _ _ _ _ => rfl) hslot (by decide +kernel)⟩
