/-
# Machine code

A few instructions of x86-64 as the bytes a processor fetches: how they are encoded, how they are
decoded, and what code does between two software interrupts.

A software interrupt is where a program meets the system it runs on.  What the system answers is
left open: a session is a program together with any answers, and the rules here say which calls
the program makes.
-/
import Mathlib.Data.BitVec
import Mathlib.Tactic

namespace MachineCode

/-- A word, and an address. -/
abbrev Word := BitVec 64

/-- Memory as the processor sees it when it fetches; `none` is a page fault. -/
abbrev Fetch := Word → Option (BitVec 8)

/-! ## Little-endian numbers -/

/-- The `n` low bytes of a number, the lowest first. -/
def leBytes : ℕ → ℕ → List (BitVec 8)
  | 0, _ => []
  | n + 1, v => BitVec.ofNat 8 v :: leBytes n (v / 256)

/-- The number of a list of bytes, the lowest first. -/
def ofLeBytes : List (BitVec 8) → ℕ
  | [] => 0
  | b :: bs => b.toNat + 256 * ofLeBytes bs

@[simp] theorem length_leBytes (n v : ℕ) : (leBytes n v).length = n := by
  induction n generalizing v with
  | zero => rfl
  | succ n ih => rw [leBytes, List.length_cons, ih]

theorem ofLeBytes_leBytes (n v : ℕ) : ofLeBytes (leBytes n v) = v % 256 ^ n := by
  induction n generalizing v with
  | zero => rw [leBytes, ofLeBytes, pow_zero, Nat.mod_one]
  | succ n ih =>
    rw [leBytes, ofLeBytes, ih, BitVec.toNat_ofNat, pow_succ' 256 n]
    exact Nat.mod_mul.symm

/-! ## Bytes in memory -/

/-- The bytes are in memory, from address `a` on. -/
def CodeAt (fetch : Fetch) : Word → List (BitVec 8) → Prop
  | _, [] => True
  | a, b :: bs => fetch a = some b ∧ CodeAt fetch (a + 1) bs

/-- The `n` bytes from address `a` on. -/
def bytesAt (fetch : Fetch) : Word → ℕ → Option (List (BitVec 8))
  | _, 0 => some []
  | a, n + 1 => do
    let b ← fetch a
    let bs ← bytesAt fetch (a + 1) n
    return b :: bs

section CodeAt

variable {fetch : Fetch} {a : Word}

theorem add_one_add_ofNat (a : Word) (n : ℕ) :
    a + 1 + BitVec.ofNat 64 n = a + BitVec.ofNat 64 (n + 1) := by
  rw [add_assoc, Nat.add_comm, BitVec.ofNat_add]
  rfl

theorem codeAt_append {xs ys : List (BitVec 8)} :
    CodeAt fetch a (xs ++ ys) ↔
      CodeAt fetch a xs ∧ CodeAt fetch (a + BitVec.ofNat 64 xs.length) ys := by
  induction xs generalizing a with
  | nil =>
    rw [List.nil_append, List.length_nil, BitVec.add_zero]
    exact (and_iff_right trivial).symm
  | cons x xs ih =>
    rw [List.cons_append, CodeAt, CodeAt, ih, add_one_add_ofNat, List.length_cons, and_assoc]

/-- Byte by byte. -/
theorem codeAt_iff {bs : List (BitVec 8)} :
    CodeAt fetch a bs ↔ ∀ k b, bs[k]? = some b → fetch (a + BitVec.ofNat 64 k) = some b := by
  induction bs generalizing a with
  | nil => simp [CodeAt]
  | cons x bs ih =>
    rw [CodeAt, ih]
    constructor
    · rintro ⟨hx, hbs⟩ k b hk
      cases k with
      | zero =>
        rw [List.getElem?_cons_zero] at hk
        rw [BitVec.add_zero, hx, hk]
      | succ k =>
        rw [← add_one_add_ofNat]
        exact hbs k b hk
    · intro h
      refine ⟨?_, fun k b hk => ?_⟩
      · have h0 := h 0 x rfl
        rwa [BitVec.add_zero] at h0
      · rw [add_one_add_ofNat]
        exact h (k + 1) b hk

theorem bytesAt_of_codeAt {bs : List (BitVec 8)} (h : CodeAt fetch a bs) :
    bytesAt fetch a bs.length = some bs := by
  induction bs generalizing a with
  | nil => rfl
  | cons b bs ih =>
    obtain ⟨hb, hbs⟩ := h
    rw [List.length_cons, bytesAt, hb, ih hbs]
    rfl

/-- Memory with just these bytes, from address `a` on. -/
def image (a : Word) (bs : List (BitVec 8)) : Fetch := fun x => bs[(x - a).toNat]?

theorem codeAt_image {bs : List (BitVec 8)} (h : bs.length < 2 ^ 64) :
    CodeAt (image a bs) a bs := by
  refine codeAt_iff.2 fun k b hk => ?_
  obtain ⟨hlt, -⟩ := List.getElem?_eq_some_iff.1 hk
  rw [image, add_sub_cancel_left, BitVec.toNat_ofNat, Nat.mod_eq_of_lt (hlt.trans h), hk]

end CodeAt

/-! ## Instructions -/

/-- The instructions; registers go by their numbers. -/
inductive Insn
  /-- `mov r, v` -/
  | movImm (r : Fin 8) (v : Word)
  /-- `mov dst, src` -/
  | movReg (dst src : Fin 8)
  /-- `test x, y` -/
  | test (x y : Fin 8)
  /-- `jz`, with a displacement from the next instruction -/
  | jz (rel : BitVec 8)
  /-- `jmp`, with a displacement from the next instruction -/
  | jmp (rel : BitVec 8)
  /-- `int vector` -/
  | int (vector : BitVec 8)
  deriving DecidableEq

abbrev rax : Fin 8 := 0
abbrev rcx : Fin 8 := 1
abbrev rdx : Fin 8 := 2
abbrev rsp : Fin 8 := 4
abbrev rsi : Fin 8 := 6
abbrev rdi : Fin 8 := 7

/-- The operand byte for two registers. -/
def modRm (reg rm : Fin 8) : BitVec 8 := BitVec.ofNat 8 (0xc0 + 8 * reg + rm)

namespace Insn

/-- The bytes of an instruction. -/
def encode : Insn → List (BitVec 8)
  | movImm r v => 0x48 :: BitVec.ofNat 8 (0xb8 + r) :: leBytes 8 v.toNat
  | movReg dst src => [0x48, 0x89, modRm src dst]
  | test x y => [0x48, 0x85, modRm y x]
  | jz rel => [0x74, rel]
  | jmp rel => [0xeb, rel]
  | int vector => [0xcd, vector]

/-- The two registers of an operand byte. -/
def operands (m : BitVec 8) : Option (Fin 8 × Fin 8) :=
  if m.toNat / 64 = 3 then some (Fin.ofNat 8 (m.toNat / 8), Fin.ofNat 8 m.toNat) else none

/-- The instruction at an address, if it is one of these. -/
def decode (fetch : Fetch) (a : Word) : Option Insn := do
  match ← fetch a with
  | 0x48 =>
    let opcode ← fetch (a + 1)
    if opcode = 0x89 then
      let (src, dst) ← operands (← fetch (a + 2))
      return movReg dst src
    else if opcode = 0x85 then
      let (y, x) ← operands (← fetch (a + 2))
      return test x y
    else if opcode.toNat / 8 = 23 then
      let bs ← bytesAt fetch (a + 2) 8
      return movImm (Fin.ofNat 8 opcode.toNat) (BitVec.ofNat 64 (ofLeBytes bs))
    else none
  | 0x74 => return jz (← fetch (a + 1))
  | 0xeb => return jmp (← fetch (a + 1))
  | 0xcd => return int (← fetch (a + 1))
  | _ => none

theorem operands_modRm (reg rm : Fin 8) : operands (modRm reg rm) = some (reg, rm) := by
  revert reg rm
  decide

/-- **The processor decodes what was encoded.** -/
theorem decode_encode {fetch : Fetch} {a : Word} {i : Insn} (h : CodeAt fetch a i.encode) :
    decode fetch a = some i := by
  have htwo : a + 1 + 1 = a + 2 := by rw [add_assoc]; rfl
  cases i with
  | movImm r v =>
    obtain ⟨h0, h1, hv⟩ := h
    rw [htwo] at hv
    have hbytes := bytesAt_of_codeAt hv
    rw [length_leBytes] at hbytes
    have hr := r.isLt
    have hop : (BitVec.ofNat 8 (0xb8 + r.val)).toNat = 0xb8 + r.val := by
      rw [BitVec.toNat_ofNat]
      omega
    have hne : ∀ x : BitVec 8, x.toNat < 0xb8 → BitVec.ofNat 8 (0xb8 + r.val) ≠ x := by
      intro x hx heq
      rw [← heq, hop] at hx
      omega
    have hreg : Fin.ofNat 8 (0xb8 + r.val) = r := by
      apply Fin.ext
      rw [Fin.val_ofNat]
      omega
    have hval : BitVec.ofNat 64 (ofLeBytes (leBytes 8 v.toNat)) = v := by
      rw [ofLeBytes_leBytes, Nat.mod_eq_of_lt (show v.toNat < 256 ^ 8 from v.isLt),
        BitVec.ofNat_toNat, BitVec.setWidth_eq]
    simp only [decode, h0, h1, hbytes, Option.bind_eq_bind, Option.bind_some,
      if_neg (hne 0x89 (by decide)), if_neg (hne 0x85 (by decide)), hop,
      if_pos (show (0xb8 + r.val) / 8 = 23 by omega), hreg, hval]
    rfl
  | movReg dst src =>
    obtain ⟨h0, h1, h2, -⟩ := h
    rw [htwo] at h2
    simp only [decode, h0, h1, h2, Option.bind_eq_bind, Option.bind_some, operands_modRm, if_true]
    rfl
  | test x y =>
    obtain ⟨h0, h1, h2, -⟩ := h
    rw [htwo] at h2
    simp only [decode, h0, h1, h2, Option.bind_eq_bind, Option.bind_some, operands_modRm]
    rfl
  | jz rel =>
    obtain ⟨h0, h1, -⟩ := h
    simp only [decode, h0, h1, Option.bind_eq_bind, Option.bind_some]
    rfl
  | jmp rel =>
    obtain ⟨h0, h1, -⟩ := h
    simp only [decode, h0, h1, Option.bind_eq_bind, Option.bind_some]
    rfl
  | int vector =>
    obtain ⟨h0, h1, -⟩ := h
    simp only [decode, h0, h1, Option.bind_eq_bind, Option.bind_some]
    rfl

/-- How many bytes an instruction has. -/
abbrev size (i : Insn) : Word := BitVec.ofNat 64 i.encode.length

/-- An instruction that the next one in memory follows. -/
def straight : Insn → Bool
  | movImm _ _ | movReg _ _ | test _ _ => true
  | _ => false

end Insn

/-- The bytes of some instructions. -/
def assemble (code : List Insn) : List (BitVec 8) := code.flatMap Insn.encode

@[simp] theorem assemble_nil : assemble [] = [] := rfl

theorem assemble_cons (i : Insn) (code : List Insn) :
    assemble (i :: code) = i.encode ++ assemble code := rfl

theorem assemble_append (code code' : List Insn) :
    assemble (code ++ code') = assemble code ++ assemble code' := List.flatMap_append

/-! ## The processor -/

/-- A core of the processor: its low registers, the address of the next instruction and the zero
flag. -/
structure Core where
  reg : Fin 8 → Word
  rip : Word
  zf : Bool

/-- What an instruction leads to. -/
inductive Outcome
  | running (c : Core)
  /-- `c` is what the interrupt returns to. -/
  | interrupt (vector : BitVec 8) (c : Core)

namespace Core

/-- The state with a register set. -/
def set (c : Core) (r : Fin 8) (v : Word) : Core := { c with reg := Function.update c.reg r v }

/-- The state with the next instruction moved. -/
def goto (c : Core) (a : Word) : Core := { c with rip := a }

@[simp] theorem rip_set (c : Core) (r : Fin 8) (v : Word) : (c.set r v).rip = c.rip := rfl

@[simp] theorem rip_goto (c : Core) (a : Word) : (c.goto a).rip = a := rfl

@[simp] theorem reg_goto (c : Core) (a : Word) : (c.goto a).reg = c.reg := rfl

@[simp] theorem reg_set (c : Core) (r : Fin 8) (v : Word) :
    (c.set r v).reg = Function.update c.reg r v := rfl

/-- The effect of an instruction on registers and flags, its jumps apart. -/
def apply (c : Core) : Insn → Core
  | .movImm r v => c.set r v
  | .movReg dst src => c.set dst (c.reg src)
  | .test x y => { c with zf := c.reg x &&& c.reg y == 0 }
  | _ => c

theorem apply_goto (c : Core) (i : Insn) (a : Word) :
    (c.goto a).apply i = (c.apply i).goto a := by
  cases i <;> rfl

/-- One instruction, with `next` behind it. -/
def exec (c : Core) (next : Word) : Insn → Outcome
  | .jz rel => .running (c.goto (if c.zf then next + rel.signExtend 64 else next))
  | .jmp rel => .running (c.goto (next + rel.signExtend 64))
  | .int vector => .interrupt vector (c.goto next)
  | i => .running ((c.apply i).goto next)

/-- Fetch, decode and execute one instruction. -/
def step (fetch : Fetch) (c : Core) : Option Outcome := do
  let i ← Insn.decode fetch c.rip
  return c.exec (c.rip + i.size) i

variable {fetch : Fetch} {c c' : Core} {i : Insn} {code : List Insn}

theorem step_of_codeAt (h : CodeAt fetch c.rip i.encode) :
    step fetch c = some (c.exec (c.rip + i.size) i) := by
  rw [step, Insn.decode_encode h]
  rfl

/-- The state after some instructions that follow one another. -/
def run (c : Core) (code : List Insn) : Core := code.foldl apply c

theorem run_goto (c : Core) (a : Word) : (c.goto a).run code = (c.run code).goto a := by
  induction code generalizing c with
  | nil => rfl
  | cons i code ih =>
    rw [run, List.foldl_cons, apply_goto]
    exact ih (c.apply i)

end Core

/-! ## From one interrupt to the next -/

/-- The processor gets from one state to the other without an interrupt. -/
def Reaches (fetch : Fetch) : Core → Core → Prop :=
  Relation.ReflTransGen fun c c' => c.step fetch = some (.running c')

/-- From state `c` on, the processor gets to a software interrupt, which returns to `c'`. -/
def Interrupts (fetch : Fetch) (vector : BitVec 8) (c c' : Core) : Prop :=
  ∃ d, Reaches fetch c d ∧ d.step fetch = some (.interrupt vector c')

section Rules

variable {fetch : Fetch} {vector : BitVec 8} {c c' d : Core} {code : List Insn}

theorem Reaches.interrupts (h : Reaches fetch c d) (h' : Interrupts fetch vector d c') :
    Interrupts fetch vector c c' := by
  obtain ⟨e, hde, he⟩ := h'
  exact ⟨e, h.trans hde, he⟩

/-- The processor is deterministic. -/
theorem Interrupts.unique (h : Interrupts fetch vector c d) (h' : Interrupts fetch vector c c') :
    d = c' := by
  obtain ⟨e, hce, he⟩ := h
  obtain ⟨e', hce', he'⟩ := h'
  induction hce using Relation.ReflTransGen.head_induction_on with
  | refl =>
    obtain rfl | ⟨x, hx, -⟩ := hce'.cases_head
    · rw [he] at he'
      cases he'
      rfl
    · rw [he] at hx
      cases hx
  | head hstep _ ih =>
    obtain rfl | ⟨x, hx, hrest⟩ := hce'.cases_head
    · rw [hstep] at he'
      cases he'
    · rw [hstep] at hx
      cases hx
      exact ih hrest

/-- **Straight code** runs to its end. -/
theorem reaches_of_straight (hstraight : code.all Insn.straight = true)
    (h : CodeAt fetch c.rip (assemble code)) :
    Reaches fetch c ((c.run code).goto (c.rip + BitVec.ofNat 64 (assemble code).length)) := by
  induction code generalizing c with
  | nil =>
    rw [assemble_nil, List.length_nil, BitVec.add_zero]
    exact .refl
  | cons i code ih =>
    rw [List.all_cons, Bool.and_eq_true] at hstraight
    rw [assemble_cons, codeAt_append] at h
    obtain ⟨hi, hcode⟩ := h
    have hstep : c.step fetch = some (.running ((c.apply i).goto (c.rip + i.size))) := by
      rw [Core.step_of_codeAt hi]
      have hi := hstraight.1
      cases i <;> first | rfl | cases hi
    have hrest := ih (c := (c.apply i).goto (c.rip + i.size)) hstraight.2 hcode
    rw [Core.run_goto] at hrest
    refine .head hstep ?_
    rw [assemble_cons, List.length_append, BitVec.ofNat_add, ← add_assoc]
    exact hrest

/-- **Straight code with an interrupt at its end.** -/
theorem interrupts_of_straight (hstraight : code.all Insn.straight = true)
    (h : CodeAt fetch c.rip (assemble (code ++ [.int vector]))) :
    Interrupts fetch vector c ((c.run code).goto
      (c.rip + BitVec.ofNat 64 (assemble (code ++ [.int vector])).length)) := by
  rw [assemble_append, codeAt_append] at h
  obtain ⟨hcode, hint⟩ := h
  refine ⟨_, reaches_of_straight hstraight hcode, ?_⟩
  have hint : CodeAt fetch ((c.run code).goto
      (c.rip + BitVec.ofNat 64 (assemble code).length)).rip (Insn.int vector).encode := by
    rwa [assemble_cons, assemble_nil, List.append_nil] at hint
  rw [Core.step_of_codeAt hint, assemble_append, List.length_append, BitVec.ofNat_add, ← add_assoc]
  rfl

/-- A jump. -/
theorem reaches_jmp {rel : BitVec 8} (h : CodeAt fetch c.rip (Insn.jmp rel).encode) :
    Reaches fetch c (c.goto (c.rip + 2 + rel.signExtend 64)) :=
  .single (Core.step_of_codeAt h)

/-- A conditional jump. -/
theorem reaches_jz {rel : BitVec 8} (h : CodeAt fetch c.rip (Insn.jz rel).encode) :
    Reaches fetch c
      (c.goto (if c.zf then c.rip + 2 + rel.signExtend 64 else c.rip + 2)) :=
  .single (Core.step_of_codeAt h)

end Rules

/-! ## Sessions -/

/-- What a program finds when a call returns: the result, and memory. -/
structure Reply where
  result : Word
  fetch : Fetch

/-- Back from an interrupt that leaves its result in `rax`. -/
def Core.resume (c : Core) (result : Word) : Core := c.set rax result

@[simp] theorem Core.rax_resume (c : Core) (result : Word) :
    (c.resume result).reg rax = result := by
  rw [Core.resume, Core.reg_set, Function.update_self]

@[simp] theorem Core.rip_resume (c : Core) (result : Word) : (c.resume result).rip = c.rip := rfl

/-- **A session**: the program gets from each reply to its next call; the calls are listed with the
registers they are made with. -/
inductive Session (vector : BitVec 8) :
    Fetch → Core → List Reply → List (Fin 8 → Word) → Prop
  | last {fetch : Fetch} {c c' : Core} (h : Interrupts fetch vector c c') :
      Session vector fetch c [] [c'.reg]
  | next {fetch : Fetch} {c c' : Core} {r : Reply} {rs : List Reply} {calls : List (Fin 8 → Word)}
      (h : Interrupts fetch vector c c')
      (hrest : Session vector r.fetch (c'.resume r.result) rs calls) :
      Session vector fetch c (r :: rs) (c'.reg :: calls)

/-- Straight pieces of code, each with an interrupt at its end. -/
def pieces (vector : BitVec 8) (codes : List (List Insn)) : List Insn :=
  codes.flatMap (· ++ [.int vector])

theorem pieces_cons (vector : BitVec 8) (code : List Insn) (codes : List (List Insn)) :
    pieces vector (code :: codes) = (code ++ [.int vector]) ++ pieces vector codes := rfl

theorem pieces_append (vector : BitVec 8) (codes codes' : List (List Insn)) :
    pieces vector (codes ++ codes') = pieces vector codes ++ pieces vector codes' :=
  List.flatMap_append

/-- **One piece**: the processor runs it to its interrupt. -/
theorem interrupts_of_piece {fetch : Fetch} {vector : BitVec 8} {a : Word} {c : Core}
    (before : List (List Insn)) {code : List Insn} {after : List (List Insn)}
    (hstraight : code.all Insn.straight = true)
    (h : CodeAt fetch a (assemble (pieces vector (before ++ code :: after))))
    (hrip : c.rip = a + BitVec.ofNat 64 (assemble (pieces vector before)).length) :
    Interrupts fetch vector c ((c.run code).goto
      (c.rip + BitVec.ofNat 64 (assemble (code ++ [.int vector])).length)) := by
  rw [pieces_append, pieces_cons, assemble_append, assemble_append, codeAt_append,
    codeAt_append, ← hrip] at h
  exact interrupts_of_straight hstraight h.2.1

/-- The registers with which the pieces make their calls, when the results are these. -/
def pieceCalls (c : Core) : List (List Insn) → List Word → List (Fin 8 → Word)
  | [], _ => []
  | code :: _, [] => [(c.run code).reg]
  | code :: codes, r :: rs => (c.run code).reg :: pieceCalls ((c.run code).resume r) codes rs

theorem pieceCalls_goto (c : Core) (a : Word) (codes : List (List Insn)) (rs : List Word) :
    pieceCalls (c.goto a) codes rs = pieceCalls c codes rs := by
  induction codes generalizing c rs with
  | nil => rfl
  | cons code codes ih =>
    cases rs with
    | nil => rw [pieceCalls, pieceCalls, Core.run_goto, Core.reg_goto]
    | cons r rs =>
      rw [pieceCalls, pieceCalls, Core.run_goto, Core.reg_goto]
      exact congrArg _ (ih ((c.run code).resume r) rs)

/-- **The session of a straight program**, as long as nobody writes to its code. -/
theorem session_of_pieces {vector : BitVec 8} {codes : List (List Insn)} {replies : List Reply}
    {fetch : Fetch} {c : Core} (hlen : codes.length = replies.length + 1)
    (hstraight : codes.all (List.all · Insn.straight) = true)
    (h : CodeAt fetch c.rip (assemble (pieces vector codes)))
    (hkeep : ∀ r ∈ replies, CodeAt r.fetch c.rip (assemble (pieces vector codes))) :
    Session vector fetch c replies (pieceCalls c codes (replies.map Reply.result)) := by
  induction codes generalizing replies fetch c with
  | nil => cases hlen
  | cons code codes ih =>
    rw [List.all_cons, Bool.and_eq_true] at hstraight
    rw [pieces_cons, assemble_append, codeAt_append] at h
    have hcall := interrupts_of_straight hstraight.1 h.1
    have hrest : ∀ r ∈ replies, CodeAt r.fetch
        (c.rip + BitVec.ofNat 64 (assemble (code ++ [.int vector])).length)
        (assemble (pieces vector codes)) := by
      intro r hr
      have hr := hkeep r hr
      rw [pieces_cons, assemble_append, codeAt_append] at hr
      exact hr.2
    generalize c.rip + BitVec.ofNat 64 (assemble (code ++ [.int vector])).length = a
      at hcall hrest
    cases replies with
    | nil =>
      rw [List.map_nil, pieceCalls, ← Core.reg_goto (c.run code) a]
      exact .last hcall
    | cons r rs =>
      rw [List.forall_mem_cons] at hrest
      have hsession := ih (c := ((c.run code).resume r.result).goto a) (Nat.succ.inj hlen)
        hstraight.2 hrest.1 hrest.2
      rw [pieceCalls_goto] at hsession
      rw [List.map_cons, pieceCalls, ← Core.reg_goto (c.run code) a]
      exact .next hcall hsession

end MachineCode
