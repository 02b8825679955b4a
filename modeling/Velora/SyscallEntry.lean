/-
# The syscall stub

`syscall::entry` as the list of its instructions up to `iretq`, on the machine of
`X86.lean`, around a `dispatch` of which only the calling convention is known.

The fifteen saved registers are a block of words on the stack, `r15` lowest.  The block is
written by the pushes, read by the loads of the arguments, left alone by the call and by
`dispatch`, changed in its last word (the slot of `rax`) by the store of the result, and
read back by the pops.  All addresses are distances from the bottom of the block, so it
does not matter where the stack is.
-/
import Velora.X86

open X86 hiding Word Instr

namespace SyscallEntry

/-- `entry`, before its `call`. -/
def entryBefore : List X86.Op :=
  [.plain (.push .rax),
   .plain (.push .rbx),
   .plain (.push .rcx),
   .plain (.push .rdx),
   .plain (.push .rsi),
   .plain (.push .rdi),
   .plain (.push .rbp),
   .plain (.push .r8),
   .plain (.push .r9),
   .plain (.push .r10),
   .plain (.push .r11),
   .plain (.push .r12),
   .plain (.push .r13),
   .plain (.push .r14),
   .plain (.push .r15),
   .load .rdi .rsp 112,
   .load .rsi .rsp 72,
   .load .rdx .rsp 80,
   .load .rcx .rsp 88,
   .load .r8 .rsp 96,
   .plain (.mov .r15 .rsp),
   .and .rsp (-16)]

/-- `entry`, between its `call` and its `iretq`. -/
def entryAfter : List X86.Op :=
  [.plain (.mov .rsp .r15),
   .storeAt .rsp 112 .rax,
   .plain (.pop .r15),
   .plain (.pop .r14),
   .plain (.pop .r13),
   .plain (.pop .r12),
   .plain (.pop .r11),
   .plain (.pop .r10),
   .plain (.pop .r9),
   .plain (.pop .r8),
   .plain (.pop .rbp),
   .plain (.pop .rdi),
   .plain (.pop .rsi),
   .plain (.pop .rdx),
   .plain (.pop .rcx),
   .plain (.pop .rbx),
   .plain (.pop .rax)]

/-- `entry`, up to its `iretq`. -/
def entry : List X86.Op := entryBefore ++ .call :: entryAfter

/-- The registers in which the five arguments of a function are passed. -/
def argument : List Reg := [.rdi, .rsi, .rdx, .rcx, .r8]

/-- The registers a function hands back unchanged, besides `rsp`. -/
def calleeSaved : List Reg := [.rbx, .rbp, .r12, .r13, .r14, .r15]

/-- **The calling convention**, for a call that began in state `s` (the return address is on
the stack) and came back in state `t`: the callee-saved registers are unchanged, the return
address has been popped, and the frame of the caller, which begins above the return address, is
unchanged.  Of a callee that writes nothing at or above that frame this asks only for the 128
bytes that `entry` can have on the stack; a byte is named by its distance from the frame. -/
structure FollowsSysV (s t : State) : Prop where
  calleeSaved : ∀ r ∈ SyscallEntry.calleeSaved, t.reg r = s.reg r
  rsp : t.reg .rsp = s.reg .rsp + 8
  frame : ∀ k < 128,
    t.mem (s.reg .rsp + 8 + BitVec.ofNat 64 k) = s.mem (s.reg .rsp + 8 + BitVec.ofNat 64 k)

/-- The general registers but `rax` and `rsp`, in the order of the pops. -/
def others : List Reg :=
  [.r15, .r14, .r13, .r12, .r11, .r10, .r9, .r8, .rbp, .rdi, .rsi, .rdx, .rcx, .rbx]

theorem mem_others {r : Reg} (hrax : r ≠ .rax) (hrsp : r ≠ .rsp) : r ∈ others := by
  cases r <;> first | decide | contradiction

/-- The registers `entry` saves, in the order of the pops. -/
def saved : List Reg := others ++ [.rax]

theorem map_saved_eq {f : Reg → X86.Word} {ws : List X86.Word} {w : X86.Word}
    (h : saved.map f = ws ++ [w]) : others.map f = ws ∧ f .rax = w := by
  rw [saved, List.map_append, List.map_singleton] at h
  exact List.append_singleton_inj.mp h

/-! ## The block of saved registers -/

/-- The bottom of the block. -/
def bottom (s : State) : X86.Word := s.reg .rsp - 120

/-- Memory with the block written. -/
def savedMem (s : State) : Memory := pushWords s.mem (s.reg .rsp) (saved.reverse.map s.reg)

theorem words_savedMem (s : State) : words (savedMem s) (bottom s) 15 = saved.map s.reg := by
  have h := words_pushWords_offset (m := s.mem) (a := s.reg .rsp) (saved.reverse.map s.reg)
    (by rw [List.length_map]; decide)
  rw [← List.map_reverse, List.reverse_reverse] at h
  exact h

theorem words_savedMem_others (s : State) :
    words (savedMem s) (bottom s) 14 = others.map s.reg := by
  have h := words_savedMem s
  rw [saved, List.map_append] at h
  exact words_eq_of_succ h

/-- The slot of a saved register holds it. -/
theorem read64_savedMem (s : State) {i : ℕ} {r : Reg} (hi : saved[i]? = some r) :
    read64 (savedMem s) (bottom s + BitVec.ofNat 64 (8 * i)) = s.reg r := by
  have hlt : i < 15 := (List.getElem?_eq_some_iff.mp hi).1
  have hslot := getElem?_words (savedMem s) (bottom s) hlt
  rw [words_savedMem, List.getElem?_map, hi] at hslot
  exact (Option.some.inj hslot).symm

section

variable (dispatch : State → State) (ra : X86.Word) (s : State)

/-- The part of `entry` between the pushes and the call loads the arguments from the stack,
remembers `rsp` in `r15` and aligns it. -/
theorem runOps_arguments :
    (s.runOps dispatch ra (entryBefore.drop 15)).mem = s.mem ∧
    (s.runOps dispatch ra (entryBefore.drop 15)).reg .rsp = s.reg .rsp &&& -16 ∧
    (s.runOps dispatch ra (entryBefore.drop 15)).reg .r15 = s.reg .rsp ∧
    argument.map (s.runOps dispatch ra (entryBefore.drop 15)).reg =
      [14, 9, 10, 11, 12].map (fun i => read64 s.mem (s.reg .rsp + BitVec.ofNat 64 (8 * i))) :=
  ⟨rfl, rfl, rfl, rfl⟩

/-- The state in which `entry` calls `dispatch`, before the call. -/
def atCall : State := s.runOps dispatch ra entryBefore

/-- The state at the `iretq`. -/
def atIretq : State := s.runOps dispatch ra entry

theorem atCall_eq :
    atCall dispatch ra s =
      State.runOps dispatch ra { s.set .rsp (bottom s) with mem := savedMem s }
        (entryBefore.drop 15) := by
  have hcode : entryBefore =
      (saved.reverse.map X86.Instr.push).map X86.Op.plain ++ entryBefore.drop 15 := rfl
  rw [atCall, hcode, State.runOps_append, State.runOps_plain, State.run_pushes s (by decide)]
  rfl

/-- **The state at the call**: the block is written, `rsp` is aligned below it and `r15` is its
bottom; the arguments are those of the interrupted code. -/
theorem atCall_spec :
    (atCall dispatch ra s).mem = savedMem s ∧
    (atCall dispatch ra s).reg .rsp = bottom s &&& -16 ∧
    (atCall dispatch ra s).reg .r15 = bottom s ∧
    argument.map (atCall dispatch ra s).reg =
      [s.reg .rax, s.reg .rdi, s.reg .rsi, s.reg .rdx, s.reg .rcx] := by
  obtain ⟨hmem, hrsp, hr15, hargs⟩ :=
    runOps_arguments dispatch ra { s.set .rsp (bottom s) with mem := savedMem s }
  rw [← atCall_eq] at hmem hrsp hr15 hargs
  refine ⟨hmem, hrsp, hr15, hargs.trans ?_⟩
  have hslots : ∀ i r, saved[i]? = some r → read64 (savedMem s)
      ((s.set .rsp (bottom s)).reg .rsp + BitVec.ofNat 64 (8 * i)) = s.reg r := by
    intro i r hi
    rw [State.reg_set_self]
    exact read64_savedMem s hi
  simp only [List.map_cons, List.map_nil, hslots 14 .rax rfl, hslots 9 .rdi rfl,
    hslots 10 .rsi rfl, hslots 11 .rdx rfl, hslots 12 .rcx rfl]

/-- The part of `entry` behind the call puts `rax` into its slot and reads the block that `r15`
points to. -/
theorem runOps_entryAfter :
    (s.runOps dispatch ra entryAfter).reg .rsp = s.reg .r15 + 120 ∧
    others.map (s.runOps dispatch ra entryAfter).reg = words s.mem (s.reg .r15) 14 ∧
    (s.runOps dispatch ra entryAfter).reg .rax = s.reg .rax := by
  have hcode : entryAfter =
      [.plain (.mov .rsp .r15), .storeAt .rsp 112 .rax] ++
        (saved.map X86.Instr.pop).map X86.Op.plain := rfl
  obtain ⟨-, -, -, hrsp, hregs, -⟩ := State.run_pops
    (s.runOps dispatch ra [.plain (.mov .rsp .r15), .storeAt .rsp 112 .rax]) saved (by decide)
    (by decide)
  rw [hcode, State.runOps_append, State.runOps_plain]
  refine ⟨hrsp, map_saved_eq (hregs.trans ?_)⟩
  exact words_write64_last s.mem (s.reg .r15) (s.reg .rax) (n := 14) (by decide)

end

/-! ## The call keeps the block -/

/-- Aligning moves `rsp` down by nothing or by one word. -/
theorem exists_gap {b : X86.Word} (hb : b.toNat % 8 = 0) :
    ∃ d ≤ 8, b = (b &&& -16) + BitVec.ofNat 64 d := by
  have hand : (b &&& -16).toNat = b.toNat / 2 ^ 4 * 2 ^ 4 := toNat_and_allOnes_shiftLeft b 4
  refine ⟨b.toNat % 16, by omega, ?_⟩
  apply BitVec.eq_of_toNat_eq
  have hlt := b.isLt
  rw [BitVec.toNat_add, hand, BitVec.toNat_ofNat]
  omega

/-- A call from the aligned stack pointer keeps the words above it. -/
theorem words_of_followsSysV {s t : State} {ra b : X86.Word} {n : ℕ} (hb : b.toNat % 8 = 0)
    (hn : n ≤ 15) (hrsp : s.reg .rsp = b &&& -16) (h : FollowsSysV (s.call ra) t) :
    words t.mem b n = words s.mem b n := by
  obtain ⟨d, hd, hgap⟩ := exists_gap hb
  have htop : (s.call ra).reg .rsp + 8 = b &&& -16 := by
    rw [← hrsp]
    exact sub_add_cancel _ _
  have hframe := h.frame
  rw [htop] at hframe
  calc words t.mem b n
      = words (s.call ra).mem b n := by
        refine words_congr_offset (fun k hk => ?_)
        rw [hgap, add_assoc, BitVec.ofNat_add_ofNat]
        exact hframe _ (by omega)
    _ = words s.mem b n := by
        have hsub : b - (b &&& -16) = BitVec.ofNat 64 d := sub_eq_iff_eq_add'.mpr hgap
        have hoff : (b - (s.reg .rsp - 8)).toNat = d + 8 := by
          rw [hrsp, sub_sub_eq_add_sub, add_sub_right_comm, hsub, BitVec.toNat_add,
            BitVec.toNat_ofNat, show (8 : X86.Word).toNat = 8 from rfl]
          omega
        exact words_write64_of_apart (by omega) (by omega)

/-- **The stub is transparent but for `rax`.**  For every state with an 8-aligned stack pointer
and every `dispatch` that follows the calling convention: it is called with the syscall's number
and arguments and a 16-aligned `rsp`, and at the `iretq` the registers are those of the
interrupted code, except that `rax` is the result. -/
theorem entry_transparent (dispatch : State → State) (ra : X86.Word) (s : State)
    (haligned : (s.reg .rsp).toNat % 8 = 0)
    (hsysv : FollowsSysV ((atCall dispatch ra s).call ra)
      (dispatch ((atCall dispatch ra s).call ra))) :
    argument.map (atCall dispatch ra s).reg =
      [s.reg .rax, s.reg .rdi, s.reg .rsi, s.reg .rdx, s.reg .rcx] ∧
    ((atCall dispatch ra s).reg .rsp).toNat % 16 = 0 ∧
    (atIretq dispatch ra s).reg .rsp = s.reg .rsp ∧
    (atIretq dispatch ra s).reg .rax = (dispatch ((atCall dispatch ra s).call ra)).reg .rax ∧
    ∀ r, r ≠ .rax → r ≠ .rsp → (atIretq dispatch ra s).reg r = s.reg r := by
  obtain ⟨hmem, hrsp, hr15, hargs⟩ := atCall_spec dispatch ra s
  generalize ht : dispatch ((atCall dispatch ra s).call ra) = t at hsysv ⊢
  have hend : atIretq dispatch ra s = t.runOps dispatch ra entryAfter := by
    rw [atIretq, entry, State.runOps_append, State.runOps_cons, ← ht]
    rfl
  have hbottom : (bottom s).toNat % 8 = 0 := by
    unfold bottom
    bv_omega
  have hr15' : t.reg .r15 = bottom s := (hsysv.calleeSaved .r15 (by decide)).trans hr15
  -- the block is as it was written, without the slot of `rax`
  have hblock : words t.mem (bottom s) 14 = others.map s.reg := by
    rw [words_of_followsSysV hbottom (by decide) hrsp hsysv, hmem]
    exact words_savedMem_others s
  obtain ⟨hsp, hothers, hrax⟩ := runOps_entryAfter dispatch ra t
  rw [hr15', hblock] at hothers
  rw [hend]
  refine ⟨hargs, ?_, ?_, ?_, ?_⟩
  · rw [hrsp, show (bottom s &&& -16).toNat = _ from toNat_and_allOnes_shiftLeft (bottom s) 4]
    omega
  · rw [hsp, hr15', bottom, sub_add_cancel]
  · exact hrax
  · intro r hne hsp'
    exact List.map_inj_left.mp hothers r (mem_others hne hsp')

/-- A `dispatch` that returns 7 and destroys every register it may. -/
def clobber (s : State) : State :=
  { s with
    reg := fun r => if r ∈ calleeSaved then s.reg r else if r = .rsp then s.reg .rsp + 8 else 7 }

theorem clobber_followsSysV (s : State) : FollowsSysV s (clobber s) where
  calleeSaved _ hr := if_pos hr
  rsp := rfl
  frame _ _ := rfl

/-- Interrupted code whose stack pointer is 16-aligned, so that it is not when the fifteen registers
have been pushed. -/
def interrupted : State :=
  { reg := fun r => if r = .rsp then 0x10000 else if r = .rax then 5 else 1, rip := 0, cr3 := 0,
    mem := fun _ => 0 }

theorem entry_transparent_clobber :
    (bottom interrupted).toNat % 16 = 8 ∧
    (atIretq clobber 0 interrupted).reg .rax = 7 ∧
    (atIretq clobber 0 interrupted).reg .rsp = 0x10000 ∧
    (atIretq clobber 0 interrupted).reg .r11 = 1 := by
  obtain ⟨-, -, hrsp, hrax, hothers⟩ := entry_transparent clobber 0 interrupted (by decide)
    (clobber_followsSysV _)
  exact ⟨by decide, hrax, hrsp, hothers .r11 (by decide) (by decide)⟩

end SyscallEntry
