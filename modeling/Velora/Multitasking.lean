/-
# Many threads on one processor

The scheduler's data and a machine with registers and memory, run together.  The
machine executes the running thread's own code, about which nothing is assumed but
where it writes, and the `switch_to` calls of `schedule` and `exit_current_thread`;
`spawn` builds the first frame of a new thread on a stack of its own.

Memory holds every thread's stack and, for every slot of the thread table, the
`stack_pointer` field that `old_stack_slot` points to.  A stack lies at the same
addresses in every address space it is used in, so memory is one map from addresses
to bytes throughout.

`Parked` is the invariant: a thread in the ready queue has the frame of its context
on its stack, and that context is the one of its last `switch_to` call, or the
initial one if it never ran.
-/
import Velora.Preemption
import Velora.SwitchTo

open X86 hiding Word Instr
open Context

/-- Where things lie in memory: the `stack_pointer` field of each slot of the thread table,
the boot thread's stack, and `thread_trampoline`. -/
structure Layout where
  slot : ThreadId → X86.Word
  bootBase : ℕ
  bootSize : ℕ
  trampoline : X86.Word
  slot_fits : ∀ i, (slot i).toNat + 8 ≤ 2 ^ 64
  slots_apart : ∀ i j, i ≠ j → Apart (slot i).toNat 8 (slot j).toNat 8
  boot_fits : bootBase + bootSize ≤ 2 ^ 64
  boot_apart : ∀ i, Apart (slot i).toNat 8 bootBase bootSize

/-- The processor. -/
structure Processor where
  cpu : State
  sched : SchedulerState

namespace Processor

/-- What the processor can do next. -/
inductive Action
  /-- The running thread's own code: new registers, and some bytes written. -/
  | code (reg : Reg → X86.Word) (rip cr3 : X86.Word) (writes : List (X86.Word × BitVec 8))
  /-- `spawn`, `spawn_isolated` or `spawn_user` -/
  | spawn (stackBase : ℕ) (entry : Entry) (pageTable : Option Frame)
      (userEntry : Option UserEntry)
  /-- The locked half of `reap_zombie`. -/
  | reap
  /-- `schedule`; a `switch_to` it calls is to return to `ra`. -/
  | schedule (ra : X86.Word)
  /-- `exit_current_thread` -/
  | exit (ra : X86.Word)

variable (L : Layout)

/-- The state in which `init()` leaves the boot thread. -/
def boot (kernelPageTable : Frame) (cpu : State) : Processor where
  cpu := cpu
  sched := .init kernelPageTable

/-- The first address and the size of a thread's stack. -/
def stack (i : ThreadId) (t : Thread) : ℕ × ℕ :=
  if i = 0 then (L.bootBase, L.bootSize) else (t.stackBase, t.stackSize)

/-- The stack of the thread in a slot. -/
def stackOf (s : SchedulerState) (i : ThreadId) : Option (ℕ × ℕ) := (s.threads i).map (stack L i)

/-- The running thread's code may write here: it is on no other thread's stack, and no
`stack_pointer` field. -/
def MayWrite (p : Processor) (x : X86.Word) : Prop :=
  (∀ i ≠ p.sched.current, ∀ r ∈ stackOf L p.sched i, ¬ InRange r.1 r.2 x) ∧
    ∀ i, ¬ InRange (L.slot i).toNat 8 x

instance (p : Processor) (x : X86.Word) : Decidable (MayWrite L p x) :=
  inferInstanceAs (Decidable (_ ∧ _))

/-- What the allocator guarantees of a new stack. -/
def Allocated (p : Processor) (stackBase : ℕ) : Prop :=
  0 < stackBase ∧ stackBase % 4096 = 0 ∧ stackBase + threadStackSize ≤ 2 ^ 64 ∧
    (∀ i, ∀ r ∈ stackOf L p.sched i, Apart stackBase threadStackSize r.1 r.2) ∧
    ∀ i, Apart (L.slot i).toNat 8 stackBase threadStackSize

instance (p : Processor) (stackBase : ℕ) : Decidable (Allocated L p stackBase) :=
  inferInstanceAs (Decidable (_ ∧ _ ∧ _ ∧ _ ∧ _))

/-- The words a `switch_to` call pushes fit on the running thread's stack. -/
def Room (p : Processor) : Prop :=
  ∀ r ∈ stackOf L p.sched p.sched.current,
    r.1 + 56 ≤ (p.cpu.reg .rsp).toNat ∧ (p.cpu.reg .rsp).toNat ≤ r.1 + r.2

instance (p : Processor) : Decidable (Room L p) :=
  inferInstanceAs (Decidable (∀ r ∈ stackOf L p.sched p.sched.current, _))

/-- Loads the arguments of `switch_to`. -/
def switchArgs (p : Processor) (sw : SchedulerState.Switch) : State :=
  let s := p.cpu.set .rdi (L.slot sw.previous)
  let s := s.set .rsi (BitVec.ofNat 64 sw.newStack)
  s.set .rdx (BitVec.ofNat 64 (sw.newPageTable * 4096))

/-- Calls `switch_to`; the record's `stack_pointer` is the field in memory. -/
def switch (p : Processor) (sw : SchedulerState.Switch) (s : SchedulerState) (ra : X86.Word) :
    Processor :=
  let cpu := ((switchArgs L p sw).call ra).run switchTo
  { cpu := cpu
    sched := s.saveStackPointer sw.previous (read64 cpu.mem (L.slot sw.previous)).toNat }

/-- The first frame of a new thread is built, and its record installed in slot `id`. -/
def adopt (p : Processor) (stackBase : ℕ) (id : ThreadId) (s : SchedulerState) : Processor :=
  let (mem, stackPointer) := buildInitialFrame L.trampoline p.cpu.mem stackBase
  let mem := write64 mem (L.slot id) stackPointer
  { cpu := { p.cpu with mem := mem }, sched := s }

/-- One step of the processor. -/
def step (p : Processor) : Action → Except Halt Processor
  | .code reg rip cr3 writes =>
    if writes.all (fun w => decide (MayWrite L p w.1)) then
      let mem := writeBytes p.cpu.mem writes
      .ok { p with cpu := { reg := reg, rip := rip, cr3 := cr3, mem := mem } }
    else .error .refused
  | .spawn stackBase entry pageTable userEntry =>
    if Allocated L p stackBase then do
      let t := SchedulerState.newThread stackBase entry pageTable userEntry
      let (id, s) ← orPanic (p.sched.install t)
      return p.adopt L stackBase id s
    else .error .refused
  | .reap => .ok { p with sched := p.sched.reapTake.2 }
  | .schedule ra => do
    let (o, s) ← orPanic p.sched.scheduleRest
    match o with
    | none => return { p with sched := s }
    | some sw => if Room L p then return p.switch L sw s ra else .error .refused
  | .exit ra => do
    let (sw, s) ← orPanic p.sched.exitRest
    if Room L p then return p.switch L sw s ra else .error .refused

/-! ## What is observed -/

/-- The events of a run. -/
inductive Event
  /-- A thread was created on a stack. -/
  | spawned (t : ThreadId) (stackBase : ℕ)
  /-- `schedule` called `switch_to` in this context. -/
  | called (t : ThreadId) (c : Context)
  /-- `switch_to` went on with this thread, in this context. -/
  | entered (t : ThreadId) (c : Context)
  deriving DecidableEq

/-- The thread an event is about. -/
def Event.thread : Event → ThreadId
  | .spawned t _ | .called t _ | .entered t _ => t

/-- The events of a step. -/
def eventsOf (p : Processor) (a : Action) (p' : Processor) : List Event :=
  match a with
  | .code .. => []
  | .spawn stackBase .. => p.sched.freeSlot.toList.map (.spawned · stackBase)
  | .reap => []
  | .schedule ra =>
    if p'.sched.current = p.sched.current then []
    else [.called p.sched.current (atCall p.cpu ra),
      .entered p'.sched.current (Context.current p'.cpu)]
  | .exit _ => [.entered p'.sched.current (Context.current p'.cpu)]

/-- The events of a run. -/
def switchEvents (p : Processor) (as : List Action) : List Event :=
  Runs.events (step L) eventsOf p as

/-- The last event of a thread. -/
def lastOf (t : ThreadId) (log : List Event) : Option Event :=
  (log.filter (fun e => e.thread = t)).getLast?

theorem lastOf_append (t : ThreadId) (log : List Event) (e : Event) :
    lastOf t (log ++ [e]) = if e.thread = t then some e else lastOf t log := by
  unfold lastOf
  rw [List.filter_append]
  by_cases h : e.thread = t
  · simp [h]
  · simp [h]

/-! ## The invariant -/

/-- The stacks are apart from each other and from the table. -/
structure Stacks (s : SchedulerState) : Prop where
  apart : ∀ i j, i ≠ j → ∀ r ∈ stackOf L s i, ∀ q ∈ stackOf L s j, Apart r.1 r.2 q.1 q.2
  fits : ∀ i, ∀ r ∈ stackOf L s i, r.1 + r.2 ≤ 2 ^ 64
  slots : ∀ i j, ∀ r ∈ stackOf L s i, Apart (L.slot j).toNat 8 r.1 r.2

/-- The thread's record, its `stack_pointer` field and its stack hold a suspended context. -/
structure ParkedAt (m : Memory) (i : ThreadId) (t : Thread) (c : Context) : Prop where
  saved : SavedAt m (BitVec.ofNat 64 t.stackPointer) c
  field : read64 m (L.slot i) = BitVec.ofNat 64 t.stackPointer
  low : (stack L i t).1 ≤ t.stackPointer
  high : t.stackPointer + 56 ≤ (stack L i t).1 + (stack L i t).2

/-- Where a thread's context comes from: its last `switch_to` call, or its creation. -/
def Origin (log : List Event) (i : ThreadId) (c : Context) : Prop :=
  lastOf i log = some (.called i c) ∨
    ∃ stackBase, lastOf i log = some (.spawned i stackBase) ∧
      c = Context.initial L.trampoline stackBase ∧ stackBase % 4096 = 0 ∧
      stackBase + threadStackSize ≤ 2 ^ 64

/-- Every thread is entered in the context it is owed. -/
def Restored (log : List Event) : Prop :=
  ∀ l₁ i c l₂, log = l₁ ++ .entered i c :: l₂ → Origin L l₁ i c

/-- **The invariant.** -/
structure Parked (p : Processor) (log : List Event) : Prop where
  safe : p.sched.Safe
  disjoint : Stacks L p.sched
  parked : ∀ i ∈ p.sched.readyQueue.toList, ∃ t c, p.sched.threads i = some t ∧
    ParkedAt L p.cpu.mem i t c ∧ Origin L log i c
  restored : Restored L log

variable {L}

theorem Origin.append {log : List Event} {i : ThreadId} {c : Context} (h : Origin L log i c)
    {e : Event} (he : e.thread ≠ i) : Origin L (log ++ [e]) i c := by
  unfold Origin at h ⊢
  rwa [lastOf_append, if_neg he]

theorem Restored.append {log : List Event} (h : Restored L log) {e : Event}
    (he : ∀ i c, e = .entered i c → Origin L log i c) : Restored L (log ++ [e]) := by
  intro l₁ i c l₂ heq
  rcases List.eq_nil_or_concat l₂ with rfl | ⟨l₃, e', rfl⟩
  · obtain ⟨rfl, hlast⟩ := List.append_inj' heq rfl
    exact he i c (List.singleton_inj.mp hlast)
  · rw [List.concat_eq_append, ← List.cons_append, ← List.append_assoc] at heq
    exact h l₁ i c l₃ (List.append_inj' heq rfl).1

theorem ParkedAt.congr {m m' : Memory} {i : ThreadId} {t : Thread} {c : Context}
    (h : ParkedAt L m i t c) (hfits : (stack L i t).1 + (stack L i t).2 ≤ 2 ^ 64)
    (hstack : ∀ x, InRange (stack L i t).1 (stack L i t).2 x → m' x = m x)
    (hslot : ∀ x, InRange (L.slot i).toNat 8 x → m' x = m x) : ParkedAt L m' i t c where
  saved := by
    have hlow := h.low
    have hhigh := h.high
    have hsp : (BitVec.ofNat 64 t.stackPointer).toNat = t.stackPointer := by
      rw [BitVec.toNat_ofNat, Nat.mod_eq_of_lt (by omega)]
    refine h.saved.congr (by omega) (fun x hx => hstack x ?_)
    rw [hsp] at hx
    unfold InRange at hx ⊢
    omega
  field := (read64_congr (L.slot_fits i) hslot).trans h.field
  low := h.low
  high := h.high

/-- Stacks stay apart when some of them go. -/
theorem Stacks.mono {s s' : SchedulerState} (h : Stacks L s)
    (hsub : ∀ i, ∀ r ∈ stackOf L s' i, r ∈ stackOf L s i) : Stacks L s' where
  apart i j hij r hr q hq := h.apart i j hij r (hsub i r hr) q (hsub j q hq)
  fits i r hr := h.fits i r (hsub i r hr)
  slots i j r hr := h.slots i j r (hsub i r hr)

theorem mem_stackOf {s : SchedulerState} {i : ThreadId} {t : Thread} (h : s.threads i = some t) :
    stack L i t ∈ stackOf L s i := by
  rw [stackOf, h]
  exact rfl

theorem stackOf_saveStackPointer (s : SchedulerState) (j : ThreadId) (rsp : ℕ) (i : ThreadId) :
    stackOf L (s.saveStackPointer j rsp) i = stackOf L s i := by
  unfold stackOf
  rw [SchedulerState.saveStackPointer, SchedulerState.threads_mapThread_apply]
  split_ifs
  · rw [Option.map_map]
    rfl
  · rfl

theorem boot_parked (L : Layout) (pt : Frame) (cpu : State) : Parked L (boot pt cpu) [] where
  safe := SchedulerState.init_safe pt
  disjoint := by
    have hboot : ∀ i, ∀ r ∈ stackOf L (SchedulerState.init pt) i,
        i = 0 ∧ r = (L.bootBase, L.bootSize) := by
      intro i r hr
      by_cases hi : i = 0
      · subst hi
        exact ⟨rfl, (Option.some.inj hr).symm⟩
      · have hnone : (SchedulerState.init pt).threads i = none := if_neg hi
        rw [stackOf, hnone] at hr
        cases hr
    refine ⟨?_, ?_, ?_⟩
    · intro i j hij r hr q hq
      exact absurd ((hboot i r hr).1.trans (hboot j q hq).1.symm) hij
    · intro i r hr
      rw [(hboot i r hr).2]
      exact L.boot_fits
    · intro i j r hr
      rw [(hboot i r hr).2]
      exact L.boot_apart j
  parked i hi := by cases hi
  restored l₁ i c l₂ h := by
    cases l₁ <;> cases h

/-! ## One `switch_to` call -/

section Switch

variable {p : Processor} {s : SchedulerState} {sw : SchedulerState.Switch} {ra : X86.Word}

/-- The stores of the call stay on the caller's stack and in its `stack_pointer` field. -/
theorem mem_switch (hroom : Room L p) {t : Thread} (ht : p.sched.threads p.sched.current = some t)
    {x : X86.Word} (hstack : ¬ InRange (stack L p.sched.current t).1 (stack L p.sched.current t).2 x)
    (hslot : ¬ InRange (L.slot sw.previous).toNat 8 x) :
    (p.switch L sw s ra).cpu.mem x = p.cpu.mem x := by
  obtain ⟨hlow, hhigh⟩ := hroom _ (mem_stackOf ht)
  refine mem_switchTo_of_not_inRange (s := switchArgs L p sw) ?_ (L.slot_fits _) ?_ hslot
  · show 56 ≤ (p.cpu.reg .rsp).toNat
    omega
  · show ¬ InRange ((p.cpu.reg .rsp).toNat - 56) 56 x
    unfold InRange at hstack ⊢
    omega

/-- The caller is parked, ... -/
theorem parkedAt_switch (hroom : Room L p) (hd : Stacks L p.sched) {t : Thread}
    (ht : p.sched.threads p.sched.current = some t) (hprev : sw.previous = p.sched.current)
    (hthreads : s.threads = p.sched.threads) :
    ∃ t', (p.switch L sw s ra).sched.threads p.sched.current = some t' ∧
      ParkedAt L (p.switch L sw s ra).cpu.mem p.sched.current t' (atCall p.cpu ra) := by
  obtain ⟨hlow, hhigh⟩ := hroom _ (mem_stackOf ht)
  have hsp : (p.cpu.reg .rsp - 56).toNat = (p.cpu.reg .rsp).toNat - 56 := by bv_omega
  have hfield : read64 (p.switch L sw s ra).cpu.mem (L.slot sw.previous) =
      p.cpu.reg .rsp - 56 := read64_switchTo (s := switchArgs L p sw)
  have hframe : SavedAt (p.switch L sw s ra).cpu.mem (p.cpu.reg .rsp - 56) (atCall p.cpu ra) := by
    refine savedAt_switchTo (s := switchArgs L p sw) ?_ (L.slot_fits _) (fun x hx => ?_)
    · show 56 ≤ (p.cpu.reg .rsp).toNat
      omega
    · refine (hd.slots _ sw.previous _ (mem_stackOf ht)).symm.not_inRange (x := x) ?_
      replace hx : InRange ((p.cpu.reg .rsp).toNat - 56) 56 x := hx
      unfold InRange at hx ⊢
      omega
  refine ⟨{ t with stackPointer := (p.cpu.reg .rsp - 56).toNat }, ?_, ?_⟩
  · show (s.saveStackPointer sw.previous
      (read64 (p.switch L sw s ra).cpu.mem (L.slot sw.previous)).toNat).threads _ = _
    rw [SchedulerState.saveStackPointer, SchedulerState.threads_mapThread_apply,
      if_pos hprev.symm, hthreads, ht, hfield]
    rfl
  · have hback : BitVec.ofNat 64 (p.cpu.reg .rsp - 56).toNat = p.cpu.reg .rsp - 56 := by
      rw [BitVec.ofNat_toNat, BitVec.setWidth_eq]
    refine ⟨?_, ?_, ?_, ?_⟩
    · rw [hback]
      exact hframe
    · rw [hback, ← hfield, hprev]
    · show (stack L p.sched.current t).1 ≤ (p.cpu.reg .rsp - 56).toNat
      omega
    · show (p.cpu.reg .rsp - 56).toNat + 56 ≤ (stack L p.sched.current t).1 + _
      rw [hsp]
      show _ ≤ (stack L p.sched.current t).1 + (stack L p.sched.current t).2
      omega

/-- ... the other threads stay parked, ... -/
theorem ParkedAt.switch (hroom : Room L p) (hd : Stacks L p.sched)
    (hocc : p.sched.Occupied p.sched.current) (hprev : sw.previous = p.sched.current)
    (hthreads : s.threads = p.sched.threads) {i : ThreadId} (hi : i ≠ p.sched.current)
    {u : Thread} {c : Context} (hu : p.sched.threads i = some u)
    (h : ParkedAt L p.cpu.mem i u c) :
    (p.switch L sw s ra).sched.threads i = some u ∧
      ParkedAt L (p.switch L sw s ra).cpu.mem i u c := by
  obtain ⟨t, ht⟩ := Option.isSome_iff_exists.mp hocc
  constructor
  · show (s.saveStackPointer sw.previous _).threads _ = _
    rw [SchedulerState.saveStackPointer, SchedulerState.threads_mapThread_apply,
      if_neg (hprev ▸ hi), hthreads, hu]
  · refine h.congr (hd.fits i _ (mem_stackOf hu)) (fun x hx => ?_) (fun x hx => ?_)
    · refine mem_switch hroom ht ?_ ?_
      · exact (hd.apart i _ hi _ (mem_stackOf hu) _ (mem_stackOf ht)).not_inRange hx
      · exact (hd.slots i _ _ (mem_stackOf hu)).symm.not_inRange hx
    · refine mem_switch hroom ht ?_ ?_
      · exact (hd.slots _ i _ (mem_stackOf ht)).not_inRange hx
      · exact (L.slots_apart i _ (hprev ▸ hi)).not_inRange hx

/-- ... and the thread it goes on with runs in its context. -/
theorem current_switch {t : Thread} {c : Context} {i : ThreadId}
    (h : ParkedAt L (p.switch L sw s ra).cpu.mem i t c) (hnew : sw.newStack = t.stackPointer) :
    Context.current (p.switch L sw s ra).cpu = c := by
  refine current_switchTo (s := switchArgs L p sw) ?_
  show SavedAt _ (BitVec.ofNat 64 sw.newStack) c
  rw [hnew]
  exact h.saved

end Switch

/-! ## Steps and runs -/

theorem Parked.ne_current {p : Processor} {log : List Event} (h : Parked L p log) {i : ThreadId}
    (hi : i ∈ p.sched.readyQueue.toList) : i ≠ p.sched.current := by
  rintro rfl
  exact (List.nodup_cons.mp h.safe.nodup).1 hi

/-- Own code leaves the other threads parked. -/
theorem Parked.code {p : Processor} {log : List Event} (h : Parked L p log)
    {cpu : State} {writes : List (X86.Word × BitVec 8)} (hw : ∀ w ∈ writes, MayWrite L p w.1)
    (hcpu : cpu.mem = writeBytes p.cpu.mem writes) :
    Parked L { p with cpu := cpu } log where
  safe := h.safe
  disjoint := h.disjoint
  restored := h.restored
  parked := by
    have hmem : ∀ x, ¬ MayWrite L p x → cpu.mem x = p.cpu.mem x := by
      intro x hx
      rw [hcpu]
      refine writeBytes_of_ne (fun w hmem => ?_)
      rintro rfl
      exact hx (hw w hmem)
    intro i hi
    obtain ⟨t, c, ht, hc, ho⟩ := h.parked i hi
    refine ⟨t, c, ht, hc.congr (h.disjoint.fits i _ (mem_stackOf ht)) ?_ ?_, ho⟩
    · intro x hx
      exact hmem x (fun hm => hm.1 i (h.ne_current hi) _ (mem_stackOf ht) hx)
    · intro x hx
      exact hmem x (fun hm => hm.2 i hx)

/-- Reaping touches no thread of the queue. -/
theorem Parked.reap {p : Processor} {log : List Event} (h : Parked L p log) :
    Parked L { p with sched := p.sched.reapTake.2 } log := by
  obtain ⟨-, hrot, -, -, -, -, hthreads⟩ := SchedulerState.reapTake_spec p.sched
  have hqueue : p.sched.reapTake.2.readyQueue.toList = p.sched.readyQueue.toList :=
    (List.cons.inj hrot).2
  refine ⟨h.safe.reapTake, h.disjoint.mono ?_, ?_, h.restored⟩
  · intro i r hr
    unfold stackOf at hr ⊢
    rw [hthreads i] at hr
    split_ifs at hr with hz
    · cases hr
    · exact hr
  · intro i hi
    have hi' : i ∈ p.sched.readyQueue.toList := hqueue ▸ hi
    obtain ⟨t, c, ht, hc, ho⟩ := h.parked i hi'
    refine ⟨t, c, ?_, hc, ho⟩
    have hz : p.sched.zombie ≠ some i := fun hz =>
      h.safe.zombie_out i hz (List.mem_cons_of_mem _ hi')
    show p.sched.reapTake.2.threads i = _
    rw [hthreads i, if_neg hz, ht]

/-- Building the first frame writes to the new stack and the slot's field only. -/
theorem mem_adopt {p : Processor} {stackBase : ℕ} {id : ThreadId} {s : SchedulerState}
    (hfits : stackBase + threadStackSize ≤ 2 ^ 64) {x : X86.Word}
    (hstack : ¬ InRange stackBase threadStackSize x) (hslot : ¬ InRange (L.slot id).toNat 8 x) :
    (p.adopt L stackBase id s).cpu.mem x = p.cpu.mem x := by
  show write64 (buildInitialFrame L.trampoline p.cpu.mem stackBase).1 _ _ x = _
  rw [write64_of_not_inRange (L.slot_fits id) hslot]
  exact buildInitialFrame_of_not_inRange hfits hstack

/-- A new thread is parked on its stack in the initial context. -/
theorem parkedAt_adopt {p : Processor} {stackBase : ℕ} {id : ThreadId} {s : SchedulerState}
    {e : Entry} {pt : Option Frame} {ue : Option UserEntry} (hid : id ≠ 0)
    (hfits : stackBase + threadStackSize ≤ 2 ^ 64)
    (hslot : Apart (L.slot id).toNat 8 stackBase threadStackSize) :
    ParkedAt L (p.adopt L stackBase id s).cpu.mem id
      (SchedulerState.newThread stackBase e pt ue) (Context.initial L.trampoline stackBase) := by
  have hsize : 64 ≤ threadStackSize := by decide
  have hsp : buildInitialStack stackBase + 64 = stackBase + threadStackSize := by
    unfold buildInitialStack
    omega
  have hstack : stack L id (SchedulerState.newThread stackBase e pt ue) =
      (stackBase, threadStackSize) := if_neg hid
  have hmod : (BitVec.ofNat 64 (buildInitialStack stackBase)).toNat =
      buildInitialStack stackBase := by
    rw [BitVec.toNat_ofNat, Nat.mod_eq_of_lt (by omega)]
  refine ⟨?_, ?_, ?_, ?_⟩
  · refine (savedAt_buildInitialFrame (m := p.cpu.mem) hfits).congr ?_ (fun x hx => ?_)
    · rw [hmod]
      omega
    · refine write64_of_not_inRange (L.slot_fits id) (hslot.symm.not_inRange ?_)
      rw [hmod] at hx
      unfold InRange at hx ⊢
      omega
  · show read64 (write64 _ _ _) _ = _
    rw [read64_write64]
    exact buildInitialFrame_pointer (m := p.cpu.mem)
  · rw [hstack]
    show stackBase ≤ buildInitialStack stackBase
    omega
  · rw [hstack]
    show buildInitialStack stackBase + 56 ≤ stackBase + threadStackSize
    omega

/-- A new stack is apart from all others. -/
theorem Stacks.install {s s' : SchedulerState} {stackBase : ℕ} {id : ThreadId} {t : Thread}
    (h : Stacks L s) (hthreads : s'.threads = Function.update s.threads id (some t))
    (hstack : stack L id t = (stackBase, threadStackSize))
    (hfits : stackBase + threadStackSize ≤ 2 ^ 64)
    (hapart : ∀ i, ∀ r ∈ stackOf L s i, Apart stackBase threadStackSize r.1 r.2)
    (hslots : ∀ i, Apart (L.slot i).toNat 8 stackBase threadStackSize) : Stacks L s' := by
  have hcases : ∀ i, ∀ r ∈ stackOf L s' i,
      (i = id ∧ r = (stackBase, threadStackSize)) ∨ (i ≠ id ∧ r ∈ stackOf L s i) := by
    intro i r hr
    unfold stackOf at hr ⊢
    rw [hthreads] at hr
    by_cases hi : i = id
    · subst hi
      rw [Function.update_self] at hr
      exact Or.inl ⟨rfl, (Option.some.inj hr).symm.trans hstack⟩
    · rw [Function.update_of_ne hi] at hr
      exact Or.inr ⟨hi, hr⟩
  refine ⟨?_, ?_, ?_⟩
  · intro i j hij r hr q hq
    rcases hcases i r hr with ⟨rfl, rfl⟩ | ⟨-, hr'⟩
    · rcases hcases j q hq with ⟨rfl, -⟩ | ⟨-, hq'⟩
      · exact absurd rfl hij
      · exact hapart j q hq'
    · rcases hcases j q hq with ⟨rfl, rfl⟩ | ⟨-, hq'⟩
      · exact (hapart i r hr').symm
      · exact h.apart i j hij r hr' q hq'
  · intro i r hr
    rcases hcases i r hr with ⟨-, rfl⟩ | ⟨-, hr'⟩
    · exact hfits
    · exact h.fits i r hr'
  · intro i j r hr
    rcases hcases i r hr with ⟨-, rfl⟩ | ⟨-, hr'⟩
    · exact hslots j
    · exact h.slots i j r hr'

theorem Parked.spawn {p : Processor} {log : List Event} (h : Parked L p log) {stackBase : ℕ}
    {e : Entry} {pt : Option Frame} {ue : Option UserEntry} {id : ThreadId} {s : SchedulerState}
    (halloc : Allocated L p stackBase)
    (hi : p.sched.install (SchedulerState.newThread stackBase e pt ue) = .ok (id, s)) :
    Parked L (p.adopt L stackBase id s) (log ++ [.spawned id stackBase]) := by
  obtain ⟨-, haligned, hfits, hapart, hslots⟩ := halloc
  obtain ⟨hfree, hthreads, hrot, -⟩ := SchedulerState.install_spec hi
  have hid : id ≠ 0 := by
    rintro rfl
    have hocc := h.safe.occupied 0 h.safe.boot
    rw [SchedulerState.Occupied, hfree] at hocc
    cases hocc
  have hqueue : s.readyQueue.toList = p.sched.readyQueue.toList ++ [id] :=
    (List.cons.inj hrot).2
  refine ⟨h.safe.install hi, ?_, ?_, ?_⟩
  · exact h.disjoint.install hthreads (if_neg hid) hfits hapart hslots
  · intro i hmem
    have hmem' : i ∈ p.sched.readyQueue.toList ∨ i = id := by
      rw [← List.mem_singleton, ← List.mem_append, ← hqueue]
      exact hmem
    rcases hmem' with hmem' | rfl
    · obtain ⟨t, c, ht, hc, ho⟩ := h.parked i hmem'
      have hne : i ≠ id := by
        rintro rfl
        rw [hfree] at ht
        cases ht
      refine ⟨t, c, ?_, ?_, ho.append (fun heq => hne heq.symm)⟩
      · show s.threads i = some t
        rw [hthreads, Function.update_of_ne hne, ht]
      · refine hc.congr (h.disjoint.fits i _ (mem_stackOf ht)) (fun x hx => ?_) (fun x hx => ?_)
        · refine mem_adopt hfits ?_ ?_
          · exact (hapart i _ (mem_stackOf ht)).symm.not_inRange hx
          · exact (h.disjoint.slots i id _ (mem_stackOf ht)).symm.not_inRange hx
        · refine mem_adopt hfits ((hslots i).not_inRange hx) ?_
          exact (L.slots_apart i id hne).not_inRange hx
    · refine ⟨SchedulerState.newThread stackBase e pt ue, _, ?_,
        parkedAt_adopt hid hfits (hslots i), ?_⟩
      · show s.threads i = _
        rw [hthreads, Function.update_self]
      · refine Or.inr ⟨stackBase, ?_, rfl, haligned, hfits⟩
        rw [lastOf_append]
        exact if_pos rfl
  · exact h.restored.append (fun _ _ hc => by cases hc)

/-- The processor after a `switch_to` call that `schedule` or `exit_current_thread` makes: who
was parked still is, the caller too, and the next thread runs in its context. -/
theorem Parked.switch {p : Processor} {log : List Event} (h : Parked L p log)
    {s : SchedulerState} {sw : SchedulerState.Switch} {t : Thread} {rest : List ThreadId}
    (ra : X86.Word) (hroom : Room L p) (hrot : p.sched.rotation = p.sched.current :: sw.next :: rest)
    (hthreads : s.threads = p.sched.threads) (hprev : sw.previous = p.sched.current)
    (ht : p.sched.threads sw.next = some t) (hnew : sw.newStack = t.stackPointer) :
    Origin L log sw.next (Context.current (p.switch L sw s ra).cpu) ∧
    (∀ i ∈ rest, ∃ u c, (p.switch L sw s ra).sched.threads i = some u ∧
      ParkedAt L (p.switch L sw s ra).cpu.mem i u c ∧ Origin L log i c) ∧
    (∃ u, (p.switch L sw s ra).sched.threads p.sched.current = some u ∧
      ParkedAt L (p.switch L sw s ra).cpu.mem p.sched.current u (atCall p.cpu ra)) ∧
    Stacks L (p.switch L sw s ra).sched := by
  have hocc := h.safe.occupied _ p.sched.current_mem_rotation
  have hqueue : p.sched.readyQueue.toList = sw.next :: rest := (List.cons.inj hrot).2
  have hkeep : ∀ i ∈ p.sched.readyQueue.toList, ∀ u c, p.sched.threads i = some u →
      ParkedAt L p.cpu.mem i u c → (p.switch L sw s ra).sched.threads i = some u ∧
        ParkedAt L (p.switch L sw s ra).cpu.mem i u c :=
    fun i hi u c hu hc => hc.switch hroom h.disjoint hocc hprev hthreads (h.ne_current hi) hu
  refine ⟨?_, ?_, ?_, ?_⟩
  · have hnext : sw.next ∈ p.sched.readyQueue.toList := hqueue ▸ List.mem_cons_self
    obtain ⟨u, c, hu, hc, ho⟩ := h.parked sw.next hnext
    obtain rfl : u = t := Option.some.inj (hu.symm.trans ht)
    rwa [current_switch (hkeep sw.next hnext u c hu hc).2 hnew]
  · intro i hi
    have hmem : i ∈ p.sched.readyQueue.toList := hqueue ▸ List.mem_cons_of_mem _ hi
    obtain ⟨u, c, hu, hc, ho⟩ := h.parked i hmem
    exact ⟨u, c, (hkeep i hmem u c hu hc).1, (hkeep i hmem u c hu hc).2, ho⟩
  · obtain ⟨u, hu⟩ := Option.isSome_iff_exists.mp hocc
    exact parkedAt_switch hroom h.disjoint hu hprev hthreads
  · refine h.disjoint.mono (fun i r hr => ?_)
    have hsame : stackOf L (p.switch L sw s ra).sched i = stackOf L s i :=
      stackOf_saveStackPointer s _ _ i
    rw [hsame] at hr
    unfold stackOf at hr ⊢
    rwa [hthreads] at hr

theorem Parked.schedule {p : Processor} {log : List Event} (h : Parked L p log)
    {s : SchedulerState} {sw : SchedulerState.Switch} {ra : X86.Word} (hroom : Room L p)
    (hs : p.sched.scheduleRest = .ok (some sw, s)) :
    Parked L (p.switch L sw s ra) (log ++ eventsOf p (.schedule ra) (p.switch L sw s ra)) := by
  rcases SchedulerState.scheduleRest_spec hs with ⟨hnone, -⟩ | ⟨sw', t, rest, hsw, hrot, hrot',
    hcur, hthreads, -, -, -, hprev, ht, hnew, -⟩
  · cases hnone
  obtain rfl : sw = sw' := Option.some.inj hsw
  have hnodup : (p.sched.current :: sw.next :: rest).Nodup := hrot ▸ h.safe.nodup
  obtain ⟨hcurOut, hrestNodup⟩ := List.nodup_cons.mp hnodup
  have hne : sw.next ≠ p.sched.current := fun heq => hcurOut (heq ▸ List.mem_cons_self)
  have hnext : sw.next ∉ rest := (List.nodup_cons.mp hrestNodup).1
  have hnow : (p.switch L sw s ra).sched.current = sw.next := hcur
  have hevents : eventsOf p (.schedule ra) (p.switch L sw s ra) =
      [.called p.sched.current (atCall p.cpu ra)] ++
        [.entered sw.next (Context.current (p.switch L sw s ra).cpu)] := by
    show (if (p.switch L sw s ra).sched.current = p.sched.current then _ else _) = _
    rw [hnow, if_neg hne]
    rfl
  obtain ⟨horigin, hothers, ⟨u, hu, hcaller⟩, hdisjoint⟩ :=
    h.switch (s := s) ra hroom hrot hthreads hprev ht hnew
  rw [hevents, ← List.append_assoc]
  refine ⟨?_, hdisjoint, ?_, ?_⟩
  · exact (Kernel.critSection_saveStackPointer (fun _ => True) s _ _).safe (h.safe.scheduleRest hs)
  · intro i hi
    have hmem : i ∈ rest ∨ i = p.sched.current := by
      have hqueue : s.readyQueue.toList = rest ++ [p.sched.current] := (List.cons.inj hrot').2
      rw [← List.mem_singleton, ← List.mem_append, ← hqueue]
      exact hi
    rcases hmem with hmem | rfl
    · obtain ⟨v, c, hv, hc, ho⟩ := hothers i hmem
      refine ⟨v, c, hv, hc, (ho.append ?_).append ?_⟩
      · rintro (rfl : p.sched.current = i)
        exact hcurOut (List.mem_cons_of_mem _ hmem)
      · rintro (rfl : sw.next = i)
        exact hnext hmem
    · refine ⟨u, _, hu, hcaller, Origin.append (Or.inl ?_) hne⟩
      rw [lastOf_append]
      exact if_pos rfl
  · refine (h.restored.append (fun _ _ hc => by cases hc)).append ?_
    intro i c heq
    cases heq
    exact horigin.append (fun heq => hne heq.symm)

theorem Parked.exit {p : Processor} {log : List Event} (h : Parked L p log)
    {s : SchedulerState} {sw : SchedulerState.Switch} {ra : X86.Word} (hroom : Room L p)
    (hs : p.sched.exitRest = .ok (sw, s)) :
    Parked L (p.switch L sw s ra) (log ++ eventsOf p (.exit ra) (p.switch L sw s ra)) := by
  obtain ⟨t, rest, -, hrot, hrot', hcur, hthreads, -, -, -, hprev, ht, hnew, -⟩ :=
    SchedulerState.exitRest_spec hs
  have hnodup : (p.sched.current :: sw.next :: rest).Nodup := hrot ▸ h.safe.nodup
  have hnext : sw.next ∉ rest := (List.nodup_cons.mp (List.nodup_cons.mp hnodup).2).1
  have hevents : eventsOf p (.exit ra) (p.switch L sw s ra) =
      [.entered sw.next (Context.current (p.switch L sw s ra).cpu)] := by
    show [Event.entered s.current _] = _
    rw [hcur]
  obtain ⟨horigin, hothers, -, hdisjoint⟩ :=
    h.switch (s := s) ra hroom hrot hthreads hprev ht hnew
  rw [hevents]
  refine ⟨?_, hdisjoint, ?_, ?_⟩
  · exact (Kernel.critSection_saveStackPointer (fun _ => True) s _ _).safe (h.safe.exitRest hs)
  · intro i hi
    have hqueue : s.readyQueue.toList = rest := (List.cons.inj hrot').2
    have hmem : i ∈ rest := hqueue ▸ hi
    obtain ⟨v, c, hv, hc, ho⟩ := hothers i hmem
    refine ⟨v, c, hv, hc, ho.append ?_⟩
    rintro (rfl : sw.next = i)
    exact hnext hmem
  · refine h.restored.append ?_
    intro i c heq
    cases heq
    exact horigin

/-- **One step.** -/
theorem step_parked {p p' : Processor} {a : Action} {log : List Event} (h : Parked L p log)
    (hstep : step L p a = .ok p') : Parked L p' (log ++ eventsOf p a p') := by
  cases a with
  | code reg rip cr3 writes =>
    rw [step] at hstep
    split_ifs at hstep with hw
    cases hstep
    rw [eventsOf, List.append_nil]
    refine h.code (fun w hmem => ?_) rfl
    exact of_decide_eq_true (List.all_eq_true.mp hw w hmem)
  | spawn stackBase e pt ue =>
    rw [step] at hstep
    split_ifs at hstep with halloc
    obtain ⟨⟨id, s⟩, hi, hstep⟩ := bind_eq_ok hstep
    cases hstep
    have hi' := Kernel.orPanic_eq_ok hi
    rw [eventsOf, SchedulerState.freeSlot_of_install hi']
    exact h.spawn halloc hi'
  | reap =>
    cases hstep
    rw [eventsOf, List.append_nil]
    exact h.reap
  | schedule ra =>
    obtain ⟨⟨o, s⟩, hs, hstep⟩ := bind_eq_ok hstep
    have hs' := Kernel.orPanic_eq_ok hs
    cases o with
    | none =>
      cases hstep
      obtain rfl := SchedulerState.scheduleRest_none hs'
      have hquiet : eventsOf p (.schedule ra) { p with sched := p.sched } = [] := if_pos rfl
      rw [hquiet, List.append_nil]
      exact h
    | some sw =>
      simp only at hstep
      split_ifs at hstep with hroom
      cases hstep
      exact h.schedule hroom hs'
  | exit ra =>
    obtain ⟨⟨sw, s⟩, hs, hstep⟩ := bind_eq_ok hstep
    simp only at hstep
    split_ifs at hstep with hroom
    cases hstep
    exact h.exit hroom (Kernel.orPanic_eq_ok hs)

/-- **Every run.** -/
theorem parked_of_run {pt : Frame} {cpu : State} {as : List Action} {p : Processor}
    (h : Runs.run (step L) (boot pt cpu) as = .ok p) :
    Parked L p (switchEvents L (boot pt cpu) as) :=
  Runs.events_invariant (J := Parked L) h (boot_parked L pt cpu)
    (fun _ _ _ _ hp _ hstep => step_parked hp hstep)

/-- **Context switches preserve every thread's context.**  Whenever `switch_to` goes on with a
thread, the callee-saved registers, the stack pointer and the return address are those of the
thread's last `switch_to` call; if it has made none since it was spawned, `thread_trampoline`
starts with the callee-saved registers zero and a stack pointer one word below the end of its
stack, aligned as after a call.  All that `build_initial_stack` writes lies on that stack. -/
theorem contexts_preserved (L : Layout) {pt : Frame} {cpu : State} {as : List Action}
    {p : Processor} (h : Runs.run (step L) (boot pt cpu) as = .ok p) :
    (∀ l₁ t c l₂, switchEvents L (boot pt cpu) as = l₁ ++ .entered t c :: l₂ →
      lastOf t l₁ = some (.called t c) ∨
      ∃ stackBase, lastOf t l₁ = some (.spawned t stackBase) ∧
        c = Context.initial L.trampoline stackBase ∧
        c.rsp.toNat = stackBase + threadStackSize - 8 ∧ c.rsp.toNat % 16 = 8) ∧
    (∀ m stackBase x, stackBase + threadStackSize ≤ 2 ^ 64 →
      ¬ InRange stackBase threadStackSize x →
      (buildInitialFrame L.trampoline m stackBase).1 x = m x) := by
  constructor
  · intro l₁ t c l₂ heq
    rcases (parked_of_run h).restored l₁ t c l₂ heq with hcall | ⟨base, hlast, rfl, halign, hfits⟩
    · exact Or.inl hcall
    · have hrsp : (Context.initial L.trampoline base).rsp.toNat = base + threadStackSize - 8 :=
        padding_toNat hfits
      refine Or.inr ⟨base, hlast, rfl, hrsp, ?_⟩
      rw [hrsp]
      unfold threadStackSize
      omega
  · intro m stackBase x hfits hx
    exact buildInitialFrame_of_not_inRange hfits hx

/-- The table at `0x1000`, the boot thread's stack at `0x100000`. -/
def smallLayout : Layout where
  slot i := BitVec.ofNat 64 (0x1000 + 8 * i)
  bootBase := 0x100000
  bootSize := 0x10000
  trampoline := 0x5000
  slot_fits := by decide
  slots_apart := by decide
  boot_fits := by decide
  boot_apart := by decide

/-- The boot thread, with a value in `r12`. -/
def bootCpu : State where
  reg r := if r = .rsp then 0x10f000 else if r = .r12 then 7 else 0
  rip := 0
  cr3 := 0x1000
  mem _ := 0

/-- The boot thread spawns a thread and yields to it; the new thread changes `r12`, writes to its
stack and yields back. -/
def thereAndBackRun : List Action :=
  [.spawn 0x200000 (.function 5) none none, .schedule 0x6000,
   .code (fun r => if r = .rsp then 0x20ff00 else if r = .r12 then 9 else 1) 0x7000 0x1000
     [(0x20ff00, 3), (0x20ff08, 4)],
   .schedule 0x7000]

/-- What happened up to the last switch of that run. -/
def thereAndBackLog : List Event :=
  [.spawned 1 0x200000, .called 0 (atCall bootCpu 0x6000),
   .entered 1 (Context.initial 0x5000 0x200000),
   .called 1 { rbx := 1, rbp := 1, r12 := 9, r13 := 1, r14 := 1, r15 := 1, rsp := 0x20ff00,
               rip := 0x7000 }]

theorem contexts_preserved_thereAndBack :
    switchEvents smallLayout (boot 1 bootCpu) thereAndBackRun =
        thereAndBackLog ++ [.entered 0 (atCall bootCpu 0x6000)] ∧
      lastOf 0 thereAndBackLog = some (.called 0 (atCall bootCpu 0x6000)) := by
  have hlog : switchEvents smallLayout (boot 1 bootCpu) thereAndBackRun =
      thereAndBackLog ++ [.entered 0 (atCall bootCpu 0x6000)] := by decide +kernel
  obtain ⟨p, hrun, -⟩ := Runs.exists_ok_of_any
    (x := Runs.run (step smallLayout) (boot 1 bootCpu) thereAndBackRun)
    (fun p => decide (p.cpu.reg .r12 = 7)) (by decide +kernel)
  refine ⟨hlog, ?_⟩
  rcases (contexts_preserved smallLayout hrun).1 _ 0 _ [] hlog with hcall | ⟨base, hlast, -⟩
  · exact hcall
  · cases hlast

end Processor
