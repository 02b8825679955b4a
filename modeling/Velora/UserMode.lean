/-
# Programs among others

A program runs in user mode: the processor fetches its instructions through its page tables, and
`int 0x80` leads to `dispatch`, from which it returns with all registers but RAX as they were.
Meanwhile keys are typed, the scheduler switches, other programs run, and the kernel sets up new
ones and takes down old ones.

A program that is alone has only its view: it computes, and its calls are those of `View.call`.
What can be observed of a program among others can be observed of it alone
(`Running.Sound.trace`), and what it does alone it can do in the system when it runs
(`Running.Sound.exists_trace`).  What the others do includes their calls
(`Running.Sound.trace_of_call`).
-/
import Velora.CallIsolation
import Velora.MachineCode
import Velora.ProgramView
import Velora.Traces

open MachineCode hiding Word
open Traces

/-! ## Alone -/

/-- What can be observed of a program: keys are typed, which get lost when too many wait, and the
program prints. -/
inductive Label
  | typed (b : UInt8)
  | lost (b : UInt8)
  | said (text : List UInt8)
  deriving DecidableEq

/-- What the processor fetches for the program. -/
def View.fetch (v : View) : Fetch := fun a => v.byte a.toNat

/-- The number of a system call. -/
abbrev callNumber (c : Core) : UInt64 := ⟨c.reg rax⟩

/-- The call concerns the caller alone. -/
def ownCall (c : Core) : Prop := callNumber c ≠ sysSpawnNumber ∧ callNumber c ≠ sysWaitNumber

/-- The answers of `read_file` that there may be with this disk.  How much room there is on the
heap when a file is read depends on what all the others have open, and may be another amount each
time. -/
def SpawnEnv.reads (env : SpawnEnv) (rooms : Set ℕ) : Set ReadFile :=
  {readFile | ∃ room ∈ rooms, readFile = Fs.readFile room env.disk env.rounds}

theorem SpawnEnv.reads_nonempty (env : SpawnEnv) {rooms : Set ℕ} (h : rooms.Nonempty) :
    (env.reads rooms).Nonempty := by
  obtain ⟨room, hroom⟩ := h
  exact ⟨_, room, hroom, rfl⟩

/-- **A program alone with its view**, from one call to the next.  Each call is answered in one of
the ways in `reads`. -/
inductive View.Step (reads : Set ReadFile) : Core × View → Option Label → Core × View → Prop
  | typed {c : Core} {v : View} (b : UInt8) (hroom : v.keys.length < inputQueueCapacity) :
      Step reads (c, v) (some (.typed b)) (c, v.typed b)
  | lost {c : Core} {v : View} (b : UInt8) (hfull : ¬ v.keys.length < inputQueueCapacity) :
      Step reads (c, v) (some (.lost b)) (c, v)
  | call {c c' : Core} {v v' : View} {result : UInt64} {text : List UInt8} {readFile : ReadFile}
      (hread : readFile ∈ reads) (hint : Interrupts v.fetch 0x80 c c') (hown : ownCall c')
      (hcall : v.call readFile (callNumber c') ⟨c'.reg rdi⟩ ⟨c'.reg rsi⟩ ⟨c'.reg rdx⟩ =
        some (.ok (.returns result text v'))) :
      Step reads (c, v) (some (.said text)) (c'.resume result.toBitVec, v')

/-! ## Among others -/

/-- The system, with the registers of one program, the keys that wait and what has been printed. -/
structure Running where
  world : World
  core : Core
  inputQueue : InputQueue
  printed : List UInt8

namespace Running

/-- What a call of the program finds.  The calls that are its own do not look at the heap. -/
def callState (l4 : PhysFrame) (r : Running) : CallState BootInfoFrameAllocator where
  toSystem := r.world.toSystem
  blocks := []
  cr3 := l4
  inputQueue := r.inputQueue
  printed := r.printed

/-- What the program in thread `i` sees. -/
def view (i : ThreadId) (l4 : PhysFrame) (r : Running) : View where
  byte := seenByte r.world.machine.mem l4
  writable := mayStore r.world.machine.mem l4
  keys := r.inputQueue.toList
  files slot := (Kernel.filesOf r.world.sched i).bind fun files => (files slot).map Kernel.unread

/-- The program's registers, and what it sees. -/
def alone (i : ThreadId) (l4 : PhysFrame) (r : Running) : Core × View := (r.core, r.view i l4)

/-- `int 0x80` of the program. -/
def dispatch (mapTo : MapTo BootInfoFrameAllocator) (env : SpawnEnv) (l4 : PhysFrame) (c : Core)
    (r : Running) : Option (Except Panic (CallEnd BootInfoFrameAllocator)) :=
  (r.callState l4).dispatch bootInfo mapTo env (callNumber c) ⟨c.reg rdi⟩ ⟨c.reg rsi⟩ ⟨c.reg rdx⟩
    ⟨c.reg rcx⟩

/-- The system after a call. -/
def after (c : Core) (result : UInt64) (k : CallState BootInfoFrameAllocator) (r : Running) :
    Running where
  world := { r.world with toSystem := k.toSystem }
  core := c.resume result.toBitVec
  inputQueue := k.inputQueue
  printed := k.printed

/-- **A program among others**: keys are typed, the program makes a call when its thread is running
and finds one of the amounts of room on the heap, and everything else happens that is not about its
space: the others compute, print, open, read and close files, and are started and taken down.  The
keys that wait are left to this program: the queue is one for the whole system, and whoever else
read it would be noticed. -/
inductive Step (mapTo : MapTo BootInfoFrameAllocator) (env : SpawnEnv) (rooms : Set ℕ)
    (cr3 : PhysFrame) (m₀ : Machine BootInfoFrameAllocator) (i : ThreadId) (l4 : PhysFrame) :
    Running → Option Label → Running → Prop
  | typed {r : Running} (b : UInt8) (hroom : r.inputQueue.len < inputQueueCapacity) :
      Step mapTo env rooms cr3 m₀ i l4 r (some (.typed b))
        { r with inputQueue := r.inputQueue.push b }
  | lost {r : Running} (b : UInt8) (hfull : ¬ r.inputQueue.len < inputQueueCapacity) :
      Step mapTo env rooms cr3 m₀ i l4 r (some (.lost b))
        { r with inputQueue := r.inputQueue.push b }
  | call {r : Running} {c' : Core} {result : UInt64} {text : List UInt8} {room : ℕ}
      {k' : CallState BootInfoFrameAllocator} (hmem : room ∈ rooms)
      (hrun : r.world.sched.current = i)
      (hint : Interrupts (r.view i l4).fetch 0x80 r.core c') (hown : ownCall c')
      (hcall : r.dispatch mapTo { env with heapRoom := room } l4 c' =
        some (.ok (.returns result k')))
      (htext : k'.printed = r.printed ++ text) :
      Step mapTo env rooms cr3 m₀ i l4 r (some (.said text)) (r.after c' result k')
  | other {r : Running} {w' : World} {e : World.Event} (text : List UInt8)
      (hadmitted : World.Admitted cr3 env.off m₀ r.world e) (hnot : ¬ e.About r.world (.thread i))
      (hstep : e.step mapTo cr3 env.off r.world = .ok w') :
      Step mapTo env rooms cr3 m₀ i l4 r none { r with world := w', printed := r.printed ++ text }

end Running

/-! ## The pages of a program are its own -/

namespace World

variable {mapTo : MapTo BootInfoFrameAllocator} {map : MemoryMap} {cr3 : PhysFrame} {off : Fin 512}
  {m₀ : Machine BootInfoFrameAllocator} {w w' : World} {id : Owner} {s : AddrSpace}

/-- No frame that ring 3 can reach is a table, also not one that the space shares. -/
theorem Guarded.userFrame_not_walkTable (hboot : Booted map cr3 m₀) (h : Guarded cr3 off m₀ w)
    (hk : KernelOnly off m₀.mem cr3) (hs : w.space id = some s) {page : Page} {f : PhysFrame}
    (hu : UserWalk w.machine.mem false s.l4 page.path)
    (hf : translatePage w.machine.mem s.l4 page = some f) : ¬ WalkTable w.machine.mem s.l4 f := by
  rintro ⟨ρ, hlen, hρ⟩
  by_cases hhead : ∀ i ∈ ρ.head?, owned off i = true
  · -- below an entry of the space itself
    rw [(h.books.spaces id s hs).order.space.walk_owned (fun _ hi => hi) (by omega) hhead] at hρ
    exact h.userFrame_not_table hk hs hu hf hs ⟨ρ, hlen, hρ⟩
  · -- below an entry that is shared, where all tables are the kernel's
    cases ρ with
    | nil => exact hhead fun i hi => by cases hi
    | cons i ρ =>
      have hshared : owned off i = false := by
        rw [← Bool.not_eq_true]
        exact fun hown => hhead fun j hj => by rwa [← Option.some.inj hj]
      have hcr3 := h.books.kernel cr3 ⟨[], Nat.zero_le _, rfl⟩
      have hkernel : IsTable w.machine.mem cr3 allEntries f := by
        refine isTable_of_follow hlen ?_
        rw [RadixHeap.walk_cons] at hρ ⊢
        rw [hcr3, ← (h.confined id s hs).shared i hshared]
        exact hρ
      refine (h.books.kernel_not_mem hboot ((isTable_congr h.books.kernel).1 hkernel)).2 id ?_
      rw [held_of_space hs]
      exact (h.userFrame hk hs hu hf).2

/-- **In a guarded world the pages of every program are its own.** -/
theorem Guarded.privateSpace (hboot : Booted map cr3 m₀) (h : Guarded cr3 off m₀ w)
    (hk : KernelOnly off m₀.mem cr3) (hs : w.space id = some s) :
    PrivateSpace w.machine.mem s.l4 where
  upper page hup := h.not_userWalk_of_upper hk hs hup
  once page page' f hu hu' hf hf' := by
    have hleads := (h.userFrame hk hs hu hf).1
    have hleads' := (h.userFrame hk hs hu' hf').1
    exact Page.path_injective ((h.books.spaces id s hs).order.once _ _ f hleads hleads')
  apart page f hu hf := h.userFrame_not_walkTable hboot hk hs hu hf

/-! ## What an event leaves of the threads -/

/-- The open files of a thread depend on its record, not on its stack pointer. -/
theorem Reaped.filesOf_eq {system : System BootInfoFrameAllocator} (h : Reaped w system)
    {i : ThreadId} (hi : ¬ w.sched.zombie = some i) :
    Kernel.filesOf system.sched i = Kernel.filesOf w.sched i := by
  refine Kernel.filesOf_of_frozen ?_
  rw [h.2 i, if_neg hi]

/-- **A thread keeps its open files** through everything that is not about its space. -/
theorem filesOf_of_step {a : Action} {i : ThreadId}
    (hr : World.step mapTo cr3 off w a = .ok w') (hs : w.space (.thread i) = some s)
    (hnot : ¬ w.Concerns (.thread i) a) :
    Kernel.filesOf w'.sched i = Kernel.filesOf w.sched i := by
  -- a new thread takes a slot that is free
  have hinstalled : ∀ {t : Thread} {j : ThreadId} {sched : SchedulerState},
      w.sched.install t = .ok (j, sched) → Kernel.filesOf sched i = Kernel.filesOf w.sched i := by
    intro t j sched hinstall
    obtain ⟨hfree, hthreads, -⟩ := SchedulerState.install_spec hinstall
    have hne : i ≠ j := by
      rintro rfl
      rw [space, hfree] at hs
      cases hs
    rw [Kernel.filesOf, hthreads, Function.update_of_ne hne]
    rfl
  have hreaped : ∀ {system : System BootInfoFrameAllocator}, Reaped w system →
      (¬ ∃ z, w.sched.zombie = some z ∧ Owner.thread i = .thread z) →
      Kernel.filesOf system.sched i = Kernel.filesOf w.sched i :=
    fun hsys hz => hsys.filesOf_eq fun hi => hz ⟨i, hi, rfl⟩
  cases a with
  | newAddressSpace active =>
    obtain ⟨⟨l4, machine⟩, -, hr⟩ := bind_eq_ok hr
    cases hr
    rfl
  | mapPage noFrames failed l4 page flags fill =>
    obtain ⟨machine, -, hr⟩ := bind_eq_ok hr
    cases hr
    rfl
  | spawnIsolatedInner l4 stackBase entry userEntry =>
    obtain ⟨⟨pid, system⟩, hspawn, hr⟩ := bind_eq_ok hr
    cases hr
    obtain ⟨-, -, hsched⟩ := System.spawnIsolatedInner_eq_ok hspawn
    obtain ⟨-, j, hinstall, -⟩ := Kernel.spawnIsolatedInner_eq_ok hsched
    exact hinstalled hinstall
  | spawn stackBase entry =>
    obtain ⟨sched, hspawn, hr⟩ := bind_eq_ok hr
    cases hr
    obtain ⟨-, j, hinstall⟩ := Kernel.spawn_eq_ok hspawn
    exact hinstalled hinstall
  | schedule rsp =>
    obtain ⟨system, hsys, hr⟩ := bind_eq_ok hr
    cases hr
    exact hreaped (schedule_effect hsys) hnot
  | exitCurrentThread rsp =>
    obtain ⟨system, hsys, hr⟩ := bind_eq_ok hr
    cases hr
    exact hreaped (exitCurrentThread_effect hsys) hnot
  | reapZombie =>
    obtain ⟨system, hsys, hr⟩ := bind_eq_ok hr
    cases hr
    exact hreaped (reapZombie_effect hsys) hnot
  | discard l4 =>
    obtain ⟨machine, -, hr⟩ := bind_eq_ok hr
    cases hr
    rfl
  | store f words =>
    cases hr
    rfl
  | setFiles files =>
    cases hr
    have hne : i ≠ w.sched.current := fun hc => hnot (congrArg Owner.thread hc)
    rw [Kernel.filesOf, Kernel.setFiles, SchedulerState.threads_mapThread_apply, if_neg hne]
    rfl

/-- A world with the same machine and the same spaces. -/
theorem Guarded.congr (h : Guarded cr3 off m₀ w) (hm : w'.machine = w.machine)
    (hspaces : ∀ j, w'.space j = w.space j) : Guarded cr3 off m₀ w' where
  books := h.books.congr hm hspaces
  confined id s hs := by
    rw [hm]
    exact h.confined id s (hspaces id ▸ hs)

end World

namespace Running

variable {mapTo : MapTo BootInfoFrameAllocator} {env : SpawnEnv} {rooms : Set ℕ} {map : MemoryMap}
  {cr3 : PhysFrame} {off : Fin 512} {m₀ : Machine BootInfoFrameAllocator} {r r' : Running}
  {i : ThreadId} {s : AddrSpace}

/-- **What holds while the program runs**: the world is guarded, the program has its space, and the
offsets of its open files are inside of them. -/
structure Sound (cr3 : PhysFrame) (off : Fin 512) (m₀ : Machine BootInfoFrameAllocator)
    (i : ThreadId) (s : AddrSpace) (r : Running) : Prop where
  guarded : World.Guarded cr3 off m₀ r.world
  space : r.world.space (.thread i) = some s
  files : ∀ files, Kernel.filesOf r.world.sched i = some files → CallState.FilesOk files

/-- When the thread is running, its calls find what it sees. -/
theorem view_callState (hrun : r.world.sched.current = i) :
    (r.callState s.l4).view = r.view i s.l4 := by
  subst hrun
  simp only [CallState.view, view, callState, Kernel.filesOf, Option.bind_map]
  rfl

/-- When the thread is running, the kernel can serve it. -/
theorem Sound.served (hboot : Booted map cr3 m₀) (hk : World.KernelOnly off m₀.mem cr3)
    (h : r.Sound cr3 off m₀ i s) (hrun : r.world.sched.current = i) :
    (r.callState s.l4).Served := by
  refine ⟨h.guarded.privateSpace hboot hk h.space, ?_⟩
  have hspace := h.space
  rw [World.space, Option.bind_eq_some_iff] at hspace
  obtain ⟨t, ht, -⟩ := hspace
  have hfiles : Kernel.filesOf r.world.sched i = some t.openFiles := by
    rw [Kernel.filesOf, ht]
    rfl
  subst hrun
  exact ⟨t, ht, h.files _ hfiles⟩

/-- The call agrees with that on the view, whatever disk and room there is. -/
theorem Sound.agrees (mapTo : MapTo BootInfoFrameAllocator) (env : SpawnEnv)
    (hboot : Booted map cr3 m₀) (hk : World.KernelOnly off m₀.mem cr3)
    (h : r.Sound cr3 off m₀ i s) (hrun : r.world.sched.current = i) {c : Core} (hown : ownCall c) :
    (r.callState s.l4).Agrees (r.dispatch mapTo env s.l4 c)
      ((r.view i s.l4).call (Fs.readFile env.heapRoom env.disk env.rounds) (callNumber c)
        ⟨c.reg rdi⟩ ⟨c.reg rsi⟩ ⟨c.reg rdx⟩) := by
  rw [← view_callState hrun]
  exact CallState.dispatch_agrees (h.served hboot hk hrun) hown.1 hown.2 _ _ _ _

/-- What a call that returns leaves behind is what the call on the view gives. -/
theorem Sound.exists_leaves (hboot : Booted map cr3 m₀) (hk : World.KernelOnly off m₀.mem cr3)
    (h : r.Sound cr3 off m₀ i s) (hrun : r.world.sched.current = i) {c : Core} (hown : ownCall c)
    {result : UInt64} {k' : CallState BootInfoFrameAllocator}
    (hcall : r.dispatch mapTo env s.l4 c = some (.ok (.returns result k'))) :
    ∃ text v, (r.view i s.l4).call (Fs.readFile env.heapRoom env.disk env.rounds) (callNumber c)
        ⟨c.reg rdi⟩ ⟨c.reg rsi⟩ ⟨c.reg rdx⟩ = some (.ok (.returns result text v)) ∧
      (r.callState s.l4).Leaves text v k' := by
  have hagrees := h.agrees mapTo env hboot hk hrun hown
  rw [hcall] at hagrees
  exact hagrees.of_returns

/-- **A call keeps what holds**, and the program sees what it leaves behind. -/
theorem Sound.after_call (hmap : MapTo.Documented bootInfo mapTo) (hboot : Booted map cr3 m₀)
    (hk : World.KernelOnly off m₀.mem cr3) (h : r.Sound cr3 off m₀ i s)
    (hrun : r.world.sched.current = i) {c : Core} (hown : ownCall c) {result : UInt64}
    {k' : CallState BootInfoFrameAllocator}
    (hcall : r.dispatch mapTo env s.l4 c = some (.ok (.returns result k'))) {text : List UInt8}
    {v : View} (hleaves : (r.callState s.l4).Leaves text v k') :
    (r.after c result k').Sound cr3 off m₀ i s ∧ (r.after c result k').view i s.l4 = v := by
  obtain ⟨files, hok, hsched⟩ := hleaves.sched
  have hspaces : ∀ j, (r.after c result k').world.space j = r.world.space j := by
    refine World.space_congr (w := r.world) (by rfl) fun j => ?_
    show (k'.sched.threads j).bind Thread.space = _
    rw [hsched]
    exact World.space_setFiles r.world files (.thread j)
  -- memory is as after some stores of the program
  obtain ⟨k'', hstate, hserves⟩ := CallState.dispatch_serves
    (h.served hboot hk hrun).space.upper hown.1 hcall
  obtain rfl := Option.some.inj hstate
  have hreach := h.guarded.reach_of_serves hmap hboot hk h.space rfl rfl hserves
  have hguarded := hreach.invariant h.guarded fun u e u' hu ha hr =>
    hu.event hmap hboot hk ha.1 hr
  have hcurrent : (r.after c result k').world.sched.current = i := by
    show k'.sched.current = i
    rw [hsched]
    exact hrun
  refine ⟨⟨hguarded.congr rfl hspaces, (hspaces _).trans h.space, fun files' hfiles' => ?_⟩, ?_⟩
  · obtain ⟨t, ht, -⟩ := (h.served hboot hk hrun).thread
    have heq : Kernel.filesOf k'.sched i = some files := by
      rw [hsched, Kernel.filesOf_setFiles ht]
      exact if_pos hrun.symm
    obtain rfl := Option.some.inj (heq.symm.trans hfiles')
    exact hok
  · rw [← view_callState hcurrent, ← hleaves.view, CallState.view, CallState.view, hleaves.cr3]
    rfl

/-- **What others do changes nothing that the program sees.** -/
theorem Sound.after_event (hmap : MapTo.Documented bootInfo mapTo) (hboot : Booted map cr3 m₀)
    (hk : World.KernelOnly env.off m₀.mem cr3) (h : r.Sound cr3 env.off m₀ i s) {w' : World}
    {e : World.Event} (hadmitted : World.Admitted cr3 env.off m₀ r.world e)
    (hnot : ¬ e.About r.world (.thread i)) (hstep : e.step mapTo cr3 env.off r.world = .ok w')
    (text : List UInt8) :
    { r with world := w', printed := text }.Sound cr3 env.off m₀ i s ∧
      { r with world := w', printed := text }.view i s.l4 = r.view i s.l4 := by
  have h' := h.guarded.event hmap hboot hk hadmitted hstep
  have hkept := h.guarded.kept hmap hboot hk hadmitted hstep h.space hnot
  obtain ⟨hseen, hstore⟩ := hkept.sameView h.guarded h' hk h.space
  have hfiles : Kernel.filesOf w'.sched i = Kernel.filesOf r.world.sched i := by
    obtain ⟨a, -, -, haction, hothers⟩ := h.guarded.exists_action hboot hk hadmitted hstep
    exact World.filesOf_of_step haction h.space (hothers _ _ h.space hnot).1
  refine ⟨⟨h', hkept.1, fun files hf => h.files files (hfiles ▸ hf)⟩, ?_⟩
  simp only [view, hseen, hstore, hfiles]

/-- A key that is typed is seen, if there is room for it. -/
theorem view_push {q : InputQueue} (b : UInt8) : { r with inputQueue := q.push b }.view i s.l4 =
    if q.len < inputQueueCapacity then ({ r with inputQueue := q }.view i s.l4).typed b
    else { r with inputQueue := q }.view i s.l4 := by
  split_ifs with hroom
  · simp only [view, View.typed, InputQueue.toList_push hroom]
  · rw [InputQueue.push, dif_neg hroom]

section Refines

variable (hmap : MapTo.Documented bootInfo mapTo) (hboot : Booted map cr3 m₀)
  (hk : World.KernelOnly env.off m₀.mem cr3)
include hmap hboot hk

/-- **Every step keeps what holds.** -/
theorem Sound.step (h : r.Sound cr3 env.off m₀ i s) {l : Option Label}
    (hstep : Step mapTo env rooms cr3 m₀ i s.l4 r l r') : r'.Sound cr3 env.off m₀ i s := by
  cases hstep with
  | typed b hroom => exact ⟨h.guarded, h.space, h.files⟩
  | lost b hfull => exact ⟨h.guarded, h.space, h.files⟩
  | call hmem hrun hint hown hcall htext =>
    obtain ⟨text, v, -, hleaves⟩ := h.exists_leaves hboot hk hrun hown hcall
    exact (h.after_call hmap hboot hk hrun hown hcall hleaves).1
  | other text hadmitted hnot hstep =>
    exact (h.after_event hmap hboot hk hadmitted hnot hstep _).1

/-- **A step that is observed is one that the program takes alone.** -/
theorem Sound.alone_step (h : r.Sound cr3 env.off m₀ i s) {l : Label}
    (hstep : Step mapTo env rooms cr3 m₀ i s.l4 r (some l) r') :
    View.Step (env.reads rooms) (r.alone i s.l4) (some l) (r'.alone i s.l4) := by
  cases hstep with
  | typed b hroom =>
    have hseen : (r.view i s.l4).keys.length < inputQueueCapacity := by
      rw [view, RingBuffer.length_toList]
      exact hroom
    rw [alone, alone, view_push, if_pos hroom]
    exact .typed b hseen
  | lost b hfull =>
    have hseen : ¬ (r.view i s.l4).keys.length < inputQueueCapacity := by
      rw [view, RingBuffer.length_toList]
      exact hfull
    rw [alone, alone, view_push, if_neg hfull]
    exact .lost b hseen
  | call hmem hrun hint hown hcall htext =>
    obtain ⟨text, v, hview, hleaves⟩ := h.exists_leaves hboot hk hrun hown hcall
    obtain rfl := List.append_cancel_left (hleaves.printed.symm.trans htext)
    rw [alone, alone, (h.after_call hmap hboot hk hrun hown hcall hleaves).2]
    exact .call ⟨_, hmem, rfl⟩ hint hown hview

theorem Sound.alone_silent (h : r.Sound cr3 env.off m₀ i s)
    (hstep : Step mapTo env rooms cr3 m₀ i s.l4 r none r') : r'.alone i s.l4 = r.alone i s.l4 := by
  cases hstep with
  | other text hadmitted hnot hstep =>
    rw [alone, alone, (h.after_event hmap hboot hk hadmitted hnot hstep _).2]

/-- **Among others a program does what it does alone.** -/
theorem Sound.trace (h : r.Sound cr3 env.off m₀ i s) {ls : List Label}
    (htrace : Trace (Step mapTo env rooms cr3 m₀ i s.l4) r ls r') :
    r'.Sound cr3 env.off m₀ i s ∧
      Trace (View.Step (env.reads rooms)) (r.alone i s.l4) ls (r'.alone i s.l4) :=
  htrace.refines h (fun _ _ _ ht hs => ht.step hmap hboot hk hs)
    (fun _ _ _ ht hs => ht.alone_step hmap hboot hk hs)
    (fun _ _ ht hs => ht.alone_silent hmap hboot hk hs)

/-- **The kernel returns from a call** from which the call on the view returns. -/
theorem Sound.exists_call (h : r.Sound cr3 env.off m₀ i s) (hrun : r.world.sched.current = i)
    {c : Core} (hint : Interrupts (r.view i s.l4).fetch 0x80 r.core c) (hown : ownCall c)
    {result : UInt64} {text : List UInt8} {v : View} {readFile : ReadFile}
    (hread : readFile ∈ env.reads rooms)
    (hcall : (r.view i s.l4).call readFile (callNumber c) ⟨c.reg rdi⟩ ⟨c.reg rsi⟩ ⟨c.reg rdx⟩ =
      some (.ok (.returns result text v))) :
    ∃ r', Step mapTo env rooms cr3 m₀ i s.l4 r (some (.said text)) r' ∧
      r'.alone i s.l4 = (c.resume result.toBitVec, v) ∧ r'.world.sched.current = i := by
  obtain ⟨room, hmem, rfl⟩ := hread
  have hagrees := h.agrees mapTo { env with heapRoom := room } hboot hk hrun hown
  rw [hcall] at hagrees
  obtain ⟨k', hdispatch, hleaves⟩ := hagrees.exists_returns
  obtain ⟨-, hview⟩ := h.after_call hmap hboot hk hrun hown hdispatch hleaves
  obtain ⟨files, -, hsched⟩ := hleaves.sched
  refine ⟨_, .call hmem hrun hint hown hdispatch hleaves.printed, ?_, ?_⟩
  · rw [alone, hview]
    rfl
  · show k'.sched.current = i
    rw [hsched]
    exact hrun

/-- **What a program does alone it can do in the system**, when its thread is running. -/
theorem Sound.exists_step (h : r.Sound cr3 env.off m₀ i s) (hrun : r.world.sched.current = i)
    {l : Option Label} {st : Core × View}
    (hstep : View.Step (env.reads rooms) (r.alone i s.l4) l st) :
    ∃ r', Step mapTo env rooms cr3 m₀ i s.l4 r l r' ∧ r'.alone i s.l4 = st ∧
      r'.world.sched.current = i := by
  have hlen : (r.view i s.l4).keys.length = r.inputQueue.len := RingBuffer.length_toList _
  generalize hst₀ : r.alone i s.l4 = st₀ at hstep
  cases hstep with
  | typed b hroom =>
    cases hst₀
    rw [hlen] at hroom
    refine ⟨_, .typed b hroom, ?_, hrun⟩
    rw [alone, view_push, if_pos hroom]
  | lost b hfull =>
    cases hst₀
    rw [hlen] at hfull
    refine ⟨_, .lost b hfull, ?_, hrun⟩
    rw [alone, view_push, if_neg hfull]
  | call hread hint hown hcall =>
    cases hst₀
    exact h.exists_call hmap hboot hk hrun hint hown hread hcall

theorem Sound.exists_trace (h : r.Sound cr3 env.off m₀ i s) (hrun : r.world.sched.current = i)
    {ls : List Label} {st : Core × View}
    (htrace : Trace (View.Step (env.reads rooms)) (r.alone i s.l4) ls st) :
    ∃ r', Trace (Step mapTo env rooms cr3 m₀ i s.l4) r ls r' ∧ r'.alone i s.l4 = st ∧
      r'.world.sched.current = i := by
  induction htrace with
  | refl => exact ⟨r, .refl, rfl, hrun⟩
  | tail _ hstep ih =>
    obtain ⟨r', htrace, rfl, hrun'⟩ := ih
    obtain ⟨r'', hstep', hst, hrun''⟩ := (h.trace hmap hboot hk htrace).1.exists_step hmap hboot hk
      hrun' hstep
    exact ⟨r'', htrace.tail hstep', hst, hrun''⟩

/-- **The calls of the others are steps among these.**  When another thread is running and makes
any call but `SYS_SPAWN`, with any room on the heap, and the kernel gets to the end of it and the
keys still wait, then nothing was observed of the program. -/
theorem Sound.trace_of_call (h : r.Sound cr3 env.off m₀ i s) (hne : r.world.sched.current ≠ i)
    {t : AddrSpace} (ht : r.world.space (.thread r.world.sched.current) = some t) {env' : SpawnEnv}
    {c : Core} (hnumber : callNumber c ≠ sysSpawnNumber) {e : CallEnd BootInfoFrameAllocator}
    (hcall : r.dispatch mapTo env' t.l4 c = some (.ok e)) :
    ∃ k', e.state = some k' ∧ (k'.inputQueue = r.inputQueue →
      Trace (Step mapTo env rooms cr3 m₀ i s.l4) r []
        { r with world := { r.world with toSystem := k'.toSystem }, printed := k'.printed }) := by
  obtain ⟨k', hstate, hserves⟩ := CallState.dispatch_serves
    (fun page hup => h.guarded.not_userWalk_of_upper hk ht hup) hnumber hcall
  refine ⟨k', hstate, fun _ => ?_⟩
  obtain ⟨u, files, hreach, hadmitted, hnot, hstep⟩ := h.guarded.reach_of_call hmap hboot hk ht rfl
    rfl hserves (j := .thread i) fun hc => hne (Owner.thread.inj hc).symm
  obtain ⟨text, htext⟩ := hserves.printed
  -- the stores come first, and what is printed with the last event
  have hstores : Trace (Step mapTo env rooms cr3 m₀ i s.l4) r [] { r with world := u } :=
    hreach.invariant (I := fun u => Trace (Step mapTo env rooms cr3 m₀ i s.l4) r []
      { r with world := u }) .refl fun u e u' hu ha hr => by
        have hother : Step mapTo env rooms cr3 m₀ i s.l4 { r with world := u } none
            { r with world := u', printed := r.printed ++ [] } := .other [] ha.1 ha.2 hr
        rw [List.append_nil] at hother
        exact hu.tail hother
  rw [← htext]
  exact hstores.tail (.other (r := { r with world := u }) text hadmitted hnot hstep)

end Refines

/-! ## A program in a system -/

/-- **A program in a system**: the system has been booted, its events have led to a world in which
thread `i` has the space `s` and no open files, and since then the program has run among others. -/
structure Hosted (mapTo : MapTo BootInfoFrameAllocator) (env : SpawnEnv) (rooms : Set ℕ)
    (map : MemoryMap) (cr3 : PhysFrame) (m₀ : Machine BootInfoFrameAllocator) (i : ThreadId)
    (s : AddrSpace) (r : Running) : Prop where
  documented : MapTo.Documented bootInfo mapTo
  booted : Booted map cr3 m₀
  kernelOnly : World.KernelOnly env.off m₀.mem cr3
  run : ∃ r₀ ls, Runs.Reach (World.Event.step mapTo cr3 env.off) (World.Admitted cr3 env.off m₀)
      (World.start cr3 m₀) r₀.world ∧ r₀.world.space (.thread i) = some s ∧
    Kernel.filesOf r₀.world.sched i = some (fun _ => none) ∧
    Trace (Step mapTo env rooms cr3 m₀ i s.l4) r₀ ls r

theorem Hosted.sound (h : r.Hosted mapTo env rooms map cr3 m₀ i s) :
    r.Sound cr3 env.off m₀ i s := by
  obtain ⟨r₀, ls, hreach, hspace, hnone, htrace⟩ := h.run
  have hguarded := World.guarded_of_events h.documented h.booted h.kernelOnly hreach
  have hsound : r₀.Sound cr3 env.off m₀ i s := by
    refine ⟨hguarded, hspace, fun files hfiles => ?_⟩
    obtain rfl := Option.some.inj (hnone.symm.trans hfiles)
    intro slot file hfile
    cases hfile
  exact (hsound.trace h.documented h.booted h.kernelOnly htrace).1

end Running

namespace CallState

variable {σ : Type}

/-- Two programs that had the same view have the same view again, and have printed the same. -/
def Same (k₁ k₂ k₁' k₂' : CallState σ) : Prop :=
  k₁'.view = k₂'.view ∧
    ∃ text, k₁'.printed = k₁.printed ++ text ∧ k₂'.printed = k₂.printed ++ text

/-- **Two calls end alike** for the programs that make them. -/
def Alike (k₁ k₂ : CallState σ) :
    Option (Except Panic (CallEnd σ)) → Option (Except Panic (CallEnd σ)) → Prop
  | none, none => True
  | some (.error p₁), some (.error p₂) => p₁ = p₂
  | some (.ok (.returns rax₁ k₁')), some (.ok (.returns rax₂ k₂')) =>
    rax₁ = rax₂ ∧ Same k₁ k₂ k₁' k₂'
  | some (.ok (.exits k₁')), some (.ok (.exits k₂')) => Same k₁ k₂ k₁' k₂'
  | _, _ => False

/-- Two calls that agree with the same call on a view. -/
theorem Agrees.alike {k₁ k₂ : CallState σ} {x₁ x₂ : Option (Except Panic (CallEnd σ))}
    {y : Option (Except Panic ViewEnd)} (h₁ : k₁.Agrees x₁ y) (h₂ : k₂.Agrees x₂ y) :
    k₁.Alike k₂ x₁ x₂ := by
  have hsame : ∀ {text v k₁' k₂'}, k₁.Leaves text v k₁' → k₂.Leaves text v k₂' →
      Same k₁ k₂ k₁' k₂' :=
    fun hl₁ hl₂ => ⟨hl₁.view.trans hl₂.view.symm, _, hl₁.printed, hl₂.printed⟩
  rcases y with _ | p | ⟨rax, text, v⟩ | ⟨text, v⟩
  · obtain rfl := h₁.of_none
    obtain rfl := h₂.of_none
    trivial
  · obtain rfl := h₁.of_error
    obtain rfl := h₂.of_error
    exact rfl
  · obtain ⟨k₁', rfl, hl₁⟩ := h₁.exists_returns
    obtain ⟨k₂', rfl, hl₂⟩ := h₂.exists_returns
    exact ⟨rfl, hsame hl₁ hl₂⟩
  · obtain ⟨k₁', rfl, hl₁⟩ := h₁.exists_exits
    obtain ⟨k₂', rfl, hl₂⟩ := h₂.exists_exits
    exact hsame hl₁ hl₂

end CallState
