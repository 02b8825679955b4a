/-
# `switch_to` and the frames it leaves

`context::switch_to` as the list of its instructions, on the machine of `X86.lean`, and
`build_initial_stack` with the stores it makes.

A suspended thread is a frame of seven words on its stack: the six callee-saved
registers and the return address, `r15` lowest.  `switch_to` lays such a frame down
for the thread that calls it, and takes the other thread's context out of the frame
`new_stack` points to; `build_initial_stack` lays one down by hand.
-/
import Velora.Scheduler
import Velora.X86

open X86 hiding Word Instr

/-- `context::switch_to`: `rdi` is `old_stack_slot`, `rsi` is `new_stack`, `rdx` is
`new_page_table`. -/
def switchTo : List X86.Instr :=
  [.push .rbp,
   .push .rbx,
   .push .r12,
   .push .r13,
   .push .r14,
   .push .r15,
   .store .rdi .rsp,
   .movCr3 .rdx,
   .mov .rsp .rsi,
   .pop .r15,
   .pop .r14,
   .pop .r13,
   .pop .r12,
   .pop .rbx,
   .pop .rbp,
   .ret]

/-- What a function call preserves, and where execution goes on. -/
structure Context where
  rbx : X86.Word
  rbp : X86.Word
  r12 : X86.Word
  r13 : X86.Word
  r14 : X86.Word
  r15 : X86.Word
  rsp : X86.Word
  rip : X86.Word
  deriving DecidableEq

namespace Context

/-- The context of a machine that runs at `rip`. -/
def current (s : State) : Context where
  rbx := s.reg .rbx
  rbp := s.reg .rbp
  r12 := s.reg .r12
  r13 := s.reg .r13
  r14 := s.reg .r14
  r15 := s.reg .r15
  rsp := s.reg .rsp
  rip := s.rip

/-- The context right before a call that is to return to `ra`. -/
def atCall (s : State) (ra : X86.Word) : Context := { current s with rip := ra }

/-- The frame of a suspended context, from the lowest word up. -/
def frame (c : Context) : List X86.Word := [c.r15, c.r14, c.r13, c.r12, c.rbx, c.rbp, c.rip]

/-- The frame at `sp` is that of `c`, and `c` goes on right above it. -/
def SavedAt (m : Memory) (sp : X86.Word) (c : Context) : Prop :=
  words m sp 7 = c.frame ∧ c.rsp = sp + 56

theorem SavedAt.congr {m m' : Memory} {sp : X86.Word} {c : Context} (h : SavedAt m sp c)
    (hsp : sp.toNat + 56 ≤ 2 ^ 64) (hm : ∀ x, InRange sp.toNat 56 x → m' x = m x) :
    SavedAt m' sp c :=
  ⟨(words_congr (n := 7) hsp hm).trans h.1, h.2⟩

end Context

open Context

/-! ## What `switch_to` does -/

/-- The first nine instructions: save, change the address space, change stacks. -/
def switchTo.save : List X86.Instr :=
  [Reg.rbp, .rbx, .r12, .r13, .r14, .r15].map .push ++
    [.store .rdi .rsp, .movCr3 .rdx, .mov .rsp .rsi]

/-- The registers in the order they are popped. -/
def switchTo.restored : List Reg := [.r15, .r14, .r13, .r12, .rbx, .rbp]

theorem switchTo_eq : switchTo = switchTo.save ++ (switchTo.restored.map .pop ++ [.ret]) := rfl

theorem run_save (s : State) (ra : X86.Word) :
    ((s.call ra).run switchTo.save).mem =
        write64 (pushWords s.mem (s.reg .rsp) (atCall s ra).frame.reverse) (s.reg .rdi)
          (s.reg .rsp - 56) ∧
      ((s.call ra).run switchTo.save).reg .rsp = s.reg .rsi := by
  have hlow : s.reg .rsp - 8 - BitVec.ofNat 64 (8 * 6) = s.reg .rsp - 56 := by
    rw [sub_sub]
    rfl
  rw [switchTo.save, State.run_append, State.run_pushes _ (by decide)]
  refine ⟨?_, rfl⟩
  show write64 _ _ (s.reg .rsp - 8 - BitVec.ofNat 64 (8 * 6)) = _
  rw [hlow]
  rfl

/-- The last seven instructions take a context out of the frame at `rsp`. -/
theorem run_restore (s : State) :
    (s.run (switchTo.restored.map .pop ++ [.ret])).mem = s.mem ∧
      ∀ c, SavedAt s.mem (s.reg .rsp) c →
        Context.current (s.run (switchTo.restored.map .pop ++ [.ret])) = c := by
  obtain ⟨hmem, -, -, hsp, hregs, -⟩ :=
    State.run_pops s switchTo.restored (by decide) (by decide)
  rw [State.run_append]
  generalize s.run (switchTo.restored.map .pop) = s₁ at hmem hsp hregs
  refine ⟨hmem, ?_⟩
  rintro c ⟨hframe, hrsp⟩
  have hsix : words s.mem (s.reg .rsp) 6 = [c.r15, c.r14, c.r13, c.r12, c.rbx, c.rbp] ∧
      [read64 s.mem (s₁.reg .rsp)] = [c.rip] := by
    rw [words_succ_last] at hframe
    rw [hsp]
    exact List.append_inj' hframe rfl
  have hpopped : [s₁.reg .r15, s₁.reg .r14, s₁.reg .r13, s₁.reg .r12, s₁.reg .rbx, s₁.reg .rbp] =
      [c.r15, c.r14, c.r13, c.r12, c.rbx, c.rbp] := hregs.trans hsix.1
  have hend : s₁.reg .rsp + 8 = c.rsp := by
    rw [hsp, hrsp, add_assoc]
    rfl
  simp only [List.cons.injEq, and_true] at hpopped
  obtain ⟨h15, h14, h13, h12, hbx, hbp⟩ := hpopped
  have hrip : read64 s₁.mem (s₁.reg .rsp) = c.rip := by
    rw [hmem]
    exact List.singleton_inj.mp hsix.2
  show Context.mk (s₁.reg .rbx) (s₁.reg .rbp) (s₁.reg .r12) (s₁.reg .r13) (s₁.reg .r14)
    (s₁.reg .r15) (s₁.reg .rsp + 8) (read64 s₁.mem (s₁.reg .rsp)) = c
  rw [h15, h14, h13, h12, hbx, hbp, hend, hrip]

/-- The stores of a call of `switch_to`: the frame of the caller, then its address in
`*old_stack_slot`. -/
theorem mem_switchTo (s : State) (ra : X86.Word) :
    ((s.call ra).run switchTo).mem =
      write64 (pushWords s.mem (s.reg .rsp) (atCall s ra).frame.reverse) (s.reg .rdi)
        (s.reg .rsp - 56) := by
  rw [switchTo_eq, State.run_append, (run_restore _).1, (run_save s ra).1]

/-- The machine a call of `switch_to` leaves runs in the context whose frame `new_stack`
points to. -/
theorem current_switchTo {s : State} {ra : X86.Word} {c : Context}
    (h : SavedAt ((s.call ra).run switchTo).mem (s.reg .rsi) c) :
    Context.current ((s.call ra).run switchTo) = c := by
  rw [switchTo_eq, State.run_append, (run_restore _).1, ← (run_save s ra).2] at h
  rw [switchTo_eq, State.run_append]
  exact (run_restore _).2 c h

section Caller

variable {s : State} {ra : X86.Word}

/-- The caller of `switch_to` leaves its context on its stack, ... -/
theorem savedAt_switchTo (hroom : 56 ≤ (s.reg .rsp).toNat)
    (hslot : (s.reg .rdi).toNat + 8 ≤ 2 ^ 64)
    (hapart : ∀ x, InRange ((s.reg .rsp).toNat - 56) 56 x → ¬ InRange (s.reg .rdi).toNat 8 x) :
    SavedAt ((s.call ra).run switchTo).mem (s.reg .rsp - 56) (atCall s ra) := by
  have hlow : (s.reg .rsp - 56).toNat = (s.reg .rsp).toNat - 56 := by bv_omega
  have hlt := (s.reg .rsp).isLt
  have hframe : words (pushWords s.mem (s.reg .rsp) (atCall s ra).frame.reverse)
      (s.reg .rsp - 56) 7 = (atCall s ra).frame := by
    have h := words_pushWords (m := s.mem) (a := s.reg .rsp) (atCall s ra).frame.reverse hroom
    rwa [List.reverse_reverse] at h
  refine SavedAt.congr ⟨hframe, (sub_add_cancel _ _).symm⟩ (by omega) (fun x hx => ?_)
  rw [mem_switchTo]
  rw [hlow] at hx
  exact write64_of_not_inRange hslot (hapart x hx)

/-- ... the address of that frame in `*old_stack_slot`, ... -/
theorem read64_switchTo :
    read64 ((s.call ra).run switchTo).mem (s.reg .rdi) = s.reg .rsp - 56 := by
  rw [mem_switchTo, read64_write64]

/-- ... and all other memory as it was. -/
theorem mem_switchTo_of_not_inRange (hroom : 56 ≤ (s.reg .rsp).toNat)
    (hslot : (s.reg .rdi).toNat + 8 ≤ 2 ^ 64) {x : X86.Word}
    (hstack : ¬ InRange ((s.reg .rsp).toNat - 56) 56 x)
    (hx : ¬ InRange (s.reg .rdi).toNat 8 x) :
    ((s.call ra).run switchTo).mem x = s.mem x := by
  rw [mem_switchTo, write64_of_not_inRange hslot hx]
  exact pushWords_of_not_inRange hroom hstack

end Caller

/-! ## The first frame -/

/-- `build_initial_stack` with its stores; `trampoline` is the address of
`thread_trampoline`. -/
def buildInitialFrame (trampoline : X86.Word) (m : Memory) (stackBase : ℕ) : Memory × X86.Word :=
  let stackEnd := BitVec.ofNat 64 (stackBase + threadStackSize)
  let frameTop := stackEnd - 16
  let frame := [trampoline, 0, 0, 0, 0, 0, 0]
  let m := frame.zipIdx.foldl
    (fun m wi => write64 m (frameTop - BitVec.ofNat 64 (8 * wi.2)) wi.1) m
  (m, frameTop - BitVec.ofNat 64 ((frame.length - 1) * 8))

/-- The context a new thread starts in. -/
def Context.initial (trampoline : X86.Word) (stackBase : ℕ) : Context where
  rbx := 0
  rbp := 0
  r12 := 0
  r13 := 0
  r14 := 0
  r15 := 0
  rsp := BitVec.ofNat 64 (stackBase + threadStackSize - 8)
  rip := trampoline

section Initial

variable {trampoline : X86.Word} {m : Memory} {stackBase : ℕ}

theorem buildInitialFrame_eq :
    (buildInitialFrame trampoline m stackBase).1 =
      pushWords m (BitVec.ofNat 64 (stackBase + threadStackSize) - 8)
        [trampoline, 0, 0, 0, 0, 0, 0] := by
  have hstep : ∀ k : ℕ, ∀ e : X86.Word, e - 16 - BitVec.ofNat 64 (8 * k) - 8 =
      e - 16 - BitVec.ofNat 64 (8 * (k + 1)) := by
    intro k e
    rw [sub_sub, add_comm, eight_add]
  have hfirst : ∀ e : X86.Word, e - 8 - 8 = e - 16 - BitVec.ofNat 64 (8 * 0) := by
    intro e
    rw [sub_sub, sub_sub]
    rfl
  simp only [pushWords, hfirst, hstep]
  rfl

theorem ofNat_sub {a b : ℕ} (hb : b ≤ a) :
    BitVec.ofNat 64 a - BitVec.ofNat 64 b = BitVec.ofNat 64 (a - b) := by
  have h : a = a - b + b := by omega
  rw [sub_eq_iff_eq_add, BitVec.ofNat_add_ofNat, ← h]

/-- The pointer it returns is the one the thread's record gets. -/
theorem buildInitialFrame_pointer :
    (buildInitialFrame trampoline m stackBase).2 =
      BitVec.ofNat 64 (buildInitialStack stackBase) := by
  have h64 : 64 ≤ stackBase + threadStackSize := by
    unfold threadStackSize
    omega
  show BitVec.ofNat 64 (stackBase + threadStackSize) - BitVec.ofNat 64 16 -
    BitVec.ofNat 64 48 = _
  rw [ofNat_sub (by omega), ofNat_sub (by omega)]
  rfl

/-- Where the frame starts: below one word of padding. -/
theorem padding_eq :
    BitVec.ofNat 64 (stackBase + threadStackSize) - 8 =
      BitVec.ofNat 64 (stackBase + threadStackSize - 8) :=
  ofNat_sub (b := 8) (by unfold threadStackSize; omega)

theorem padding_toNat (h : stackBase + threadStackSize ≤ 2 ^ 64) :
    (BitVec.ofNat 64 (stackBase + threadStackSize - 8)).toNat =
      stackBase + threadStackSize - 8 := by
  rw [BitVec.toNat_ofNat]
  unfold threadStackSize at h ⊢
  omega

/-- Every byte it writes lies in the allocation. -/
theorem buildInitialFrame_of_not_inRange (h : stackBase + threadStackSize ≤ 2 ^ 64) {x : X86.Word}
    (hx : ¬ InRange stackBase threadStackSize x) :
    (buildInitialFrame trampoline m stackBase).1 x = m x := by
  have h64 : 64 ≤ threadStackSize := by decide
  rw [buildInitialFrame_eq, padding_eq]
  refine pushWords_of_not_inRange ?_ ?_
  · rw [padding_toNat h]
    show 56 ≤ _
    omega
  · rw [padding_toNat h]
    show ¬ InRange (_ - 56) 56 x
    unfold InRange at hx ⊢
    omega

/-- The frame is that of the initial context. -/
theorem savedAt_buildInitialFrame (h : stackBase + threadStackSize ≤ 2 ^ 64) :
    SavedAt (buildInitialFrame trampoline m stackBase).1
      (BitVec.ofNat 64 (buildInitialStack stackBase)) (Context.initial trampoline stackBase) := by
  have h64 : 64 ≤ threadStackSize := by decide
  have hlow : BitVec.ofNat 64 (stackBase + threadStackSize - 8) - BitVec.ofNat 64 56 =
      BitVec.ofNat 64 (buildInitialStack stackBase) := by
    rw [ofNat_sub (by omega)]
    congr 1
  constructor
  · have hwords := words_pushWords (m := m)
      (a := BitVec.ofNat 64 (stackBase + threadStackSize - 8))
      [trampoline, 0, 0, 0, 0, 0, 0] (by rw [padding_toNat h]; show 56 ≤ _; omega)
    rw [buildInitialFrame_eq, padding_eq, ← hlow]
    exact hwords
  · rw [← hlow]
    exact (sub_add_cancel _ _).symm

end Initial
