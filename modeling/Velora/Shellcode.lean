/-
# The shellcode builders

The functions of userspace.rs that assemble the demos' machine code by hand: opcodes are pushed
one after the other, with placeholders for the addresses of what follows the code and for the
displacements of jumps, which are patched in afterwards.

Each builder returns the listing in its documentation, with every address and displacement in
place (`buildEchoShellcode_eq` and its like), or panics because the page is at the end of the
address space.  What the processor makes of the bytes is then read off the listing: the calls of
the demos are those documented, whatever the kernel answers.
-/
import Velora.Dispatch
import Velora.MachineCode

open MachineCode hiding Word

/-! ## The code -/

/-- The panics of the builders. -/
inductive BuildPanic
  | kernel (p : Panic)
  /-- "shellcode jump target out of rel8 range" -/
  | jumpOutOfRange
  deriving DecidableEq

/-- `to_le_bytes` of a `u64`. -/
def toLeBytes64 (v : Word) : List Byte := leBytes 8 v.toNat

/-- `mov_imm64`; the opcodes of registers are `RAX`, `RCX`, `RDX`, `RSI` and `RDI`. -/
def movImm64 (code : List Byte) (regOpcode : Fin 8) (value : Word) : List Byte :=
  code ++ [0x48] ++ [BitVec.ofNat 8 (0xb8 + regOpcode)] ++ toLeBytes64 value

/-- `mov_r64_r64` -/
def movR64R64 (code : List Byte) (dst src : Fin 8) : List Byte :=
  let operands : Byte := 0xc0 ||| (BitVec.ofNat 8 src.val <<< 3) ||| BitVec.ofNat 8 dst.val
  code ++ [0x48, 0x89, operands]

/-- `rel8` -/
def rel8 (targetOffset nextInstructionOffset : ℕ) : Except BuildPanic Byte :=
  let delta : ℤ := targetOffset - nextInstructionOffset
  if -128 ≤ delta ∧ delta ≤ 127 then .ok (BitVec.ofInt 8 delta) else .error .jumpOutOfRange

/-- `code[i] = b` -/
def setIndex (code : List Byte) (i : ℕ) (b : Byte) : Except BuildPanic (List Byte) :=
  if i < code.length then .ok (code.set i b) else .error (.kernel .indexOutOfBounds)

/-- `code[start..start + src.len()].copy_from_slice(src)` -/
def copyFromSlice (code : List Byte) (start : ℕ) (src : List Byte) :
    Except BuildPanic (List Byte) :=
  if start + src.length ≤ code.length then
    .ok (code.take start ++ src ++ code.drop (start + src.length))
  else .error (.kernel .indexOutOfBounds)

/-- `page_addr + code.len() as u64` -/
def addrBehind (pageAddr : Word) (code : List Byte) : Except BuildPanic Word :=
  if pageAddr.toNat + code.length < 0x10000000000000000 then
    .ok (pageAddr + BitVec.ofNat 64 code.length)
  else .error (.kernel .arithmeticOverflow)

/-- `int 0x80` -/
def int80 : List Byte := [0xcd, 0x80]

/-- A system call number as a `u64`. -/
abbrev number (n : UInt64) : Word := n.toBitVec

/-- The code of `build_echo_shellcode` before the address of the buffer is patched in, and the
places where it will be. -/
def echoCode : Except BuildPanic (List Byte × ℕ × ℕ) := do
  let code : List Byte := []
  let readLoop := code.length
  let code := movImm64 code rax (number sysReadNumber)
  let code := movImm64 code rdi 0
  let readBufPatchAt := code.length + 2
  let code := movImm64 code rsi 0
  let code := movImm64 code rdx 1
  let code := code ++ int80
  let code := code ++ [0x48, 0x85, 0xc0]
  let jzOpcodeAt := code.length
  let code := code ++ [0x74, 0x00]
  let code ← setIndex code (jzOpcodeAt + 1) (← rel8 readLoop code.length)
  let code := movImm64 code rax (number sysWriteNumber)
  let code := movImm64 code rdi 1
  let writeBufPatchAt := code.length + 2
  let code := movImm64 code rsi 0
  let code := movImm64 code rdx 1
  let code := code ++ int80
  let jmpOpcodeAt := code.length
  let code := code ++ [0xeb, 0x00]
  let code ← setIndex code (jmpOpcodeAt + 1) (← rel8 readLoop code.length)
  return (code, readBufPatchAt, writeBufPatchAt)

/-- `build_echo_shellcode` -/
def buildEchoShellcode (pageAddr : Word) : Except BuildPanic (List Byte) := do
  let (code, readBufPatchAt, writeBufPatchAt) ← echoCode
  let bufAddr ← addrBehind pageAddr code
  let code ← copyFromSlice code readBufPatchAt (toLeBytes64 bufAddr)
  let code ← copyFromSlice code writeBufPatchAt (toLeBytes64 bufAddr)
  return code ++ [0]

/-- `b"..."` -/
def byteString (s : String) : List Byte := s.toUTF8.toList.map UInt8.toBitVec

/-- `OPEN_READ_DEMO_PATH` -/
def openReadDemoPath : List Byte := byteString "HELLO.TXT"

/-- `OPEN_READ_DEMO_READ_LEN` -/
def openReadDemoReadLen : ℕ := 64

/-- The code of `build_open_read_shellcode` before the addresses are patched in. -/
def openReadCode : List Byte × ℕ × ℕ × ℕ :=
  let code : List Byte := []
  let code := movImm64 code rax (number sysOpenNumber)
  let pathPtrPatchAt := code.length + 2
  let code := movImm64 code rdi 0
  let code := movImm64 code rsi (BitVec.ofNat 64 openReadDemoPath.length)
  let code := code ++ int80
  let code := movR64R64 code rdi rax
  let code := movImm64 code rax (number sysReadNumber)
  let readBufPatchAt := code.length + 2
  let code := movImm64 code rsi 0
  let code := movImm64 code rdx (BitVec.ofNat 64 openReadDemoReadLen)
  let code := code ++ int80
  let code := movR64R64 code rdx rax
  let code := movImm64 code rax (number sysWriteNumber)
  let code := movImm64 code rdi 1
  let writeBufPatchAt := code.length + 2
  let code := movImm64 code rsi 0
  let code := code ++ int80
  let code := movImm64 code rax (number sysExitNumber)
  let code := code ++ int80
  (code, pathPtrPatchAt, readBufPatchAt, writeBufPatchAt)

/-- `build_open_read_shellcode` -/
def buildOpenReadShellcode (pageAddr : Word) : Except BuildPanic (List Byte) := do
  let (code, pathPtrPatchAt, readBufPatchAt, writeBufPatchAt) := openReadCode
  let pathAddr ← addrBehind pageAddr code
  let code ← copyFromSlice code pathPtrPatchAt (toLeBytes64 pathAddr)
  let code := code ++ openReadDemoPath
  let bufAddr ← addrBehind pageAddr code
  let code ← copyFromSlice code readBufPatchAt (toLeBytes64 bufAddr)
  let code ← copyFromSlice code writeBufPatchAt (toLeBytes64 bufAddr)
  return code ++ List.replicate openReadDemoReadLen 0

/-- `BAD_POINTER` -/
def badPointer : Word := 0xdeadbeef

/-- `build_bad_pointer_shellcode` -/
def buildBadPointerShellcode : List Byte :=
  let code : List Byte := []
  let code := movImm64 code rax (number sysWriteNumber)
  let code := movImm64 code rdi 1
  let code := movImm64 code rsi badPointer
  let code := movImm64 code rdx 10
  code ++ int80

/-- `SPAWN_WAIT_CHILD_PATH` -/
def spawnWaitChildPath : List Byte := byteString "GREET.ELF"

/-- `SPAWN_WAIT_DONE_MSG` -/
def spawnWaitDoneMsg : List Byte := byteString "spawn/wait demo: child finished, parent resumed\n"

/-- The code of `build_spawn_wait_shellcode` before the addresses are patched in. -/
def spawnWaitCode : List Byte × ℕ × ℕ :=
  let code : List Byte := []
  let code := movImm64 code rax (number sysSpawnNumber)
  let pathPtrPatchAt := code.length + 2
  let code := movImm64 code rdi 0
  let code := movImm64 code rsi (BitVec.ofNat 64 spawnWaitChildPath.length)
  let code := movImm64 code rdx 0
  let code := movImm64 code rcx 0
  let code := code ++ int80
  let code := movR64R64 code rdi rax
  let code := movImm64 code rax (number sysWaitNumber)
  let code := code ++ int80
  let code := movImm64 code rax (number sysWriteNumber)
  let code := movImm64 code rdi 1
  let doneMsgPatchAt := code.length + 2
  let code := movImm64 code rsi 0
  let code := movImm64 code rdx (BitVec.ofNat 64 spawnWaitDoneMsg.length)
  let code := code ++ int80
  let code := movImm64 code rax (number sysExitNumber)
  let code := code ++ int80
  (code, pathPtrPatchAt, doneMsgPatchAt)

/-- `build_spawn_wait_shellcode` -/
def buildSpawnWaitShellcode (pageAddr : Word) : Except BuildPanic (List Byte) := do
  let (code, pathPtrPatchAt, doneMsgPatchAt) := spawnWaitCode
  let pathAddr ← addrBehind pageAddr code
  let code ← copyFromSlice code pathPtrPatchAt (toLeBytes64 pathAddr)
  let code := code ++ spawnWaitChildPath
  let doneMsgAddr ← addrBehind pageAddr code
  let code ← copyFromSlice code doneMsgPatchAt (toLeBytes64 doneMsgAddr)
  return code ++ spawnWaitDoneMsg

/-! ## Patching -/

/-- **Patching an instruction**: the bytes of its operand are replaced. -/
theorem copyFromSlice_movImm (xs ys : List Byte) (r : Fin 8) (v w : Word) {start : ℕ}
    (hstart : start = xs.length + 2) :
    copyFromSlice (xs ++ (Insn.movImm r v).encode ++ ys) start (toLeBytes64 w) =
      .ok (xs ++ (Insn.movImm r w).encode ++ ys) := by
  have hlen : ∀ u : Word, (toLeBytes64 u).length = 8 := fun u => length_leBytes 8 u.toNat
  have hsplit : xs ++ (Insn.movImm r v).encode ++ ys =
      (xs ++ [0x48, BitVec.ofNat 8 (0xb8 + r)]) ++ (toLeBytes64 v ++ ys) := by
    rw [Insn.encode, toLeBytes64]
    simp only [List.append_assoc, List.cons_append, List.nil_append]
  have hpre : start = (xs ++ [0x48, BitVec.ofNat 8 (0xb8 + r)]).length := by
    rw [hstart, List.length_append]
    rfl
  have hdrop : (toLeBytes64 v ++ ys).drop 8 = ys := List.drop_left' (hlen v)
  rw [copyFromSlice, hsplit, if_pos, hlen, hpre, List.take_left, ← List.drop_drop, List.drop_left,
    hdrop, Insn.encode, toLeBytes64]
  · simp only [List.append_assoc, List.cons_append, List.nil_append]
  · rw [hlen, hpre]
    simp only [List.length_append, hlen]
    omega

/-- The same in a listing, with `ys` behind the code. -/
theorem copyFromSlice_assemble (listing : Word → List Insn) (l : List Insn) {l' : List Insn}
    {r : Fin 8} (hlisting : ∀ v, listing v = l ++ .movImm r v :: l') (start : ℕ)
    (hstart : start = (assemble l).length + 2) (v w : Word) (ys : List Byte) :
    copyFromSlice (assemble (listing v) ++ ys) start (toLeBytes64 w) =
      .ok (assemble (listing w) ++ ys) := by
  have hsplit : ∀ u, assemble (listing u) ++ ys =
      assemble l ++ (Insn.movImm r u).encode ++ (assemble l' ++ ys) := by
    intro u
    rw [hlisting, assemble_append, assemble_cons]
    simp only [List.append_assoc]
  rw [hsplit, hsplit, copyFromSlice_movImm _ _ _ _ _ hstart]

/-- The address behind code that ends in the address space. -/
theorem addrBehind_of_lt {pageAddr : Word} {code : List Byte} {n : ℕ} (hn : code.length = n)
    (h : pageAddr.toNat + n < 0x10000000000000000) :
    addrBehind pageAddr code = .ok (pageAddr + BitVec.ofNat 64 n) := by
  rw [addrBehind, hn, if_pos h]

theorem addrBehind_of_le {pageAddr : Word} {code : List Byte} {n : ℕ} (hn : code.length = n)
    (h : 0x10000000000000000 ≤ pageAddr.toNat + n) :
    addrBehind pageAddr code = .error (.kernel .arithmeticOverflow) := by
  rw [addrBehind, hn, if_neg (Nat.not_lt.2 h)]

/-! ## The echo demo -/

/-- The listing in the documentation of `build_echo_shellcode`, with the two addresses of the
buffer. -/
def echoListing (readBuf writeBuf : Word) : List Insn :=
  [.movImm rax 1, .movImm rdi 0, .movImm rsi readBuf, .movImm rdx 1, .int 0x80,
   .test rax rax, .jz 0xd1,
   .movImm rax 0, .movImm rdi 1, .movImm rsi writeBuf, .movImm rdx 1, .int 0x80,
   .jmp 0xa5]

theorem echoCode_eq : echoCode = .ok (assemble (echoListing 0 0), 22, 69) := rfl

/-- **`build_echo_shellcode`** returns its listing, with the buffer right behind it. -/
theorem buildEchoShellcode_eq {pageAddr : Word}
    (h : pageAddr.toNat + 91 < 0x10000000000000000) :
    buildEchoShellcode pageAddr =
      .ok (assemble (echoListing (pageAddr + 91) (pageAddr + 91)) ++ [0]) := by
  have hread := copyFromSlice_assemble (fun v => echoListing v 0)
    [.movImm rax 1, .movImm rdi 0] (fun _ => rfl) 22 rfl 0 (pageAddr + 91) []
  have hwrite := copyFromSlice_assemble (fun v => echoListing (pageAddr + 91) v)
    [.movImm rax 1, .movImm rdi 0, .movImm rsi (pageAddr + 91), .movImm rdx 1, .int 0x80,
      .test rax rax, .jz 0xd1, .movImm rax 0, .movImm rdi 1] (fun _ => rfl) 69 rfl
    0 (pageAddr + 91) []
  have haddr : addrBehind pageAddr (assemble (echoListing 0 0)) = .ok (pageAddr + 91) :=
    addrBehind_of_lt (n := 91) rfl h
  rw [buildEchoShellcode, echoCode_eq]
  simp only [List.append_nil] at hread hwrite
  simp only [bind, Except.bind, haddr, hread, hwrite]
  rfl

/-- At the end of the address space it panics. -/
theorem buildEchoShellcode_of_le {pageAddr : Word}
    (h : 0x10000000000000000 ≤ pageAddr.toNat + 91) :
    buildEchoShellcode pageAddr = .error (.kernel .arithmeticOverflow) := by
  have haddr : addrBehind pageAddr (assemble (echoListing 0 0)) = _ :=
    addrBehind_of_le (n := 91) rfl h
  rw [buildEchoShellcode, echoCode_eq]
  simp only [bind, Except.bind, haddr]

/-- What it returns, if it returns. -/
theorem buildEchoShellcode_eq_ok {pageAddr : Word} {code : List Byte}
    (h : buildEchoShellcode pageAddr = .ok code) :
    code = assemble (echoListing (pageAddr + 91) (pageAddr + 91)) ++ [0] := by
  by_cases hlt : pageAddr.toNat + 91 < 0x10000000000000000
  · rw [buildEchoShellcode_eq hlt] at h
    exact (Except.ok.inj h).symm
  · rw [buildEchoShellcode_of_le (Nat.not_lt.1 hlt)] at h
    cases h

/-- The number and the arguments of a call that takes three. -/
def arguments (reg : Fin 8 → Word) : Word × Word × Word × Word :=
  (reg rax, reg rdi, reg rsi, reg rdx)

section Echo

variable {fetch : Fetch} {a buf : Word} {c : Core}

/-- The code in its four parts: up to the first call, the jump back, up to the second call, and the
jump to the start. -/
theorem codeAt_echoListing (h : CodeAt fetch a (assemble (echoListing buf buf))) :
    CodeAt fetch a (assemble ([.movImm rax 1, .movImm rdi 0, .movImm rsi buf, .movImm rdx 1] ++
        [.int 0x80])) ∧
      CodeAt fetch (a + 42) (assemble [.test rax rax]) ∧
      CodeAt fetch (a + 45) (Insn.jz 0xd1).encode ∧
      CodeAt fetch (a + 47) (assemble ([.movImm rax 0, .movImm rdi 1, .movImm rsi buf,
        .movImm rdx 1] ++ [.int 0x80])) ∧
      CodeAt fetch (a + 89) (Insn.jmp 0xa5).encode := by
  have hsplit : assemble (echoListing buf buf) =
      assemble ([.movImm rax 1, .movImm rdi 0, .movImm rsi buf, .movImm rdx 1] ++ [.int 0x80]) ++
      (assemble [.test rax rax] ++ ((Insn.jz 0xd1).encode ++
      (assemble ([.movImm rax 0, .movImm rdi 1, .movImm rsi buf, .movImm rdx 1] ++ [.int 0x80]) ++
      (Insn.jmp 0xa5).encode))) := rfl
  rw [hsplit, codeAt_append, codeAt_append, codeAt_append, codeAt_append] at h
  obtain ⟨hread, htest, hjz, hwrite, hjmp⟩ := h
  simp only [add_assoc] at htest hjz hwrite hjmp
  exact ⟨hread, htest, hjz, hwrite, hjmp⟩

/-- **The first call**: `sys_read` of one byte. -/
theorem echo_read (h : CodeAt fetch a (assemble (echoListing buf buf))) (hrip : c.rip = a) :
    ∃ c', Interrupts fetch 0x80 c c' ∧ c'.rip = a + 42 ∧ arguments c'.reg = (1, 0, buf, 1) := by
  have hcall := interrupts_of_straight (c := c) rfl (hrip ▸ (codeAt_echoListing h).1)
  exact ⟨_, hcall, by rw [hrip]; rfl, rfl⟩

/-- If nothing has been read, the code starts again; otherwise it goes on. -/
theorem echo_branch (h : CodeAt fetch a (assemble (echoListing buf buf))) (hrip : c.rip = a + 42) :
    ∃ c', Reaches fetch c c' ∧ c'.rip = if c.reg rax = 0 then a else a + 47 := by
  obtain ⟨-, htest, hjz, -, -⟩ := codeAt_echoListing h
  rw [← hrip] at htest
  have hreach := reaches_of_straight rfl htest
  generalize hd : (c.run [.test rax rax]).goto
    (c.rip + BitVec.ofNat 64 (assemble [.test rax rax]).length) = d at hreach
  have hdrip : d.rip = a + 45 := by
    rw [← hd, Core.rip_goto, hrip, add_assoc]
    rfl
  have hzf : d.zf = (c.reg rax == 0) := by
    rw [← hd]
    show (c.reg rax &&& c.reg rax == 0) = _
    rw [BitVec.and_self]
  refine ⟨_, hreach.trans (reaches_jz (hdrip ▸ hjz)), ?_⟩
  rw [Core.rip_goto, hzf, hdrip]
  by_cases h0 : c.reg rax = 0
  · rw [if_pos h0, h0, if_pos (beq_self_eq_true _), add_assoc, add_assoc]
    exact BitVec.add_zero a
  · rw [if_neg h0, beq_eq_false_iff_ne.2 h0, if_neg Bool.false_ne_true, add_assoc]
    rfl

/-- **The second call**: `sys_write` of the byte. -/
theorem echo_write (h : CodeAt fetch a (assemble (echoListing buf buf))) (hrip : c.rip = a + 47) :
    ∃ c', Interrupts fetch 0x80 c c' ∧ c'.rip = a + 89 ∧ arguments c'.reg = (0, 1, buf, 1) := by
  obtain ⟨-, -, -, hwrite, -⟩ := codeAt_echoListing h
  have hcall := interrupts_of_straight (c := c) rfl (hrip ▸ hwrite)
  exact ⟨_, hcall, by rw [Core.rip_goto, hrip, add_assoc]; rfl, rfl⟩

/-- After that the code starts again. -/
theorem echo_back (h : CodeAt fetch a (assemble (echoListing buf buf))) (hrip : c.rip = a + 89) :
    ∃ c', Reaches fetch c c' ∧ c'.rip = a := by
  obtain ⟨-, -, -, -, hjmp⟩ := codeAt_echoListing h
  refine ⟨_, reaches_jmp (c := c) (hrip ▸ hjmp), ?_⟩
  rw [Core.rip_goto, hrip, add_assoc, add_assoc]
  exact BitVec.add_zero a

end Echo

/-- The next call of the echo demo. -/
inductive EchoPoint
  | read
  | write
  deriving DecidableEq

namespace EchoPoint

/-- The call, with its arguments. -/
def call (buf : Word) : EchoPoint → Word × Word × Word × Word
  | read => (number sysReadNumber, 0, buf, 1)
  | write => (number sysWriteNumber, 1, buf, 1)

/-- The call after one with this result: a byte that has been read is written. -/
def next (result : Word) : EchoPoint → EchoPoint
  | read => if result = 0 then read else write
  | write => read

/-- The calls from here on, when the results are these. -/
def calls (buf : Word) : EchoPoint → List Word → List (Word × Word × Word × Word)
  | p, [] => [p.call buf]
  | p, r :: rs => p.call buf :: calls buf (p.next r) rs

/-- Where the core is before a call: it gets to the code that makes it. -/
def At (p : EchoPoint) (fetch : Fetch) (a : Word) (c : Core) : Prop :=
  ∃ d, Reaches fetch c d ∧ d.rip = match p with
    | read => a
    | write => a + 47

/-- **One call**: from where it is made to where the next one is, whatever the kernel answers. -/
theorem At.interrupts {p : EchoPoint} {fetch : Fetch} {a buf : Word} {c : Core}
    (hat : p.At fetch a c) (h : CodeAt fetch a (assemble (echoListing buf buf))) :
    ∃ c', Interrupts fetch 0x80 c c' ∧ arguments c'.reg = p.call buf ∧
      ∀ r fetch', CodeAt fetch' a (assemble (echoListing buf buf)) →
        (p.next r).At fetch' a (c'.resume r) := by
  obtain ⟨d, hreach, hrip⟩ := hat
  cases p with
  | read =>
    obtain ⟨c', hcall, hrip', hargs⟩ := echo_read h hrip
    refine ⟨c', hreach.interrupts hcall, hargs, fun r fetch' h' => ?_⟩
    obtain ⟨e, hreach', he⟩ := echo_branch (c := c'.resume r) h' hrip'
    refine ⟨e, hreach', ?_⟩
    rw [he, Core.rax_resume, next]
    split_ifs <;> rfl
  | write =>
    obtain ⟨c', hcall, hrip', hargs⟩ := echo_write h hrip
    exact ⟨c', hreach.interrupts hcall, hargs, fun r fetch' h' =>
      echo_back (c := c'.resume r) h' hrip'⟩

end EchoPoint

/-- **The echo demo makes the calls of its documentation.**  For every page address for which
`build_echo_shellcode` returns, wherever its code is in memory there, from any registers and for any
answers of the kernel that leave the code alone: the program reads a byte into the place behind its
code until a read is not answered with 0, writes that byte, and starts again. -/
theorem echo_session {pageAddr : Word} {code : List Byte} {fetch : Fetch} {c : Core}
    (hbuild : buildEchoShellcode pageAddr = .ok code) (hcode : CodeAt fetch pageAddr code)
    (hrip : c.rip = pageAddr) (replies : List Reply)
    (hkeep : ∀ r ∈ replies, CodeAt r.fetch pageAddr code.dropLast) :
    ∃ calls, Session 0x80 fetch c replies calls ∧ calls.map arguments =
      EchoPoint.read.calls (pageAddr + BitVec.ofNat 64 code.dropLast.length)
        (replies.map Reply.result) := by
  obtain rfl := buildEchoShellcode_eq_ok hbuild
  rw [List.dropLast_concat] at hkeep ⊢
  replace hcode := (codeAt_append.1 hcode).1
  have hat : EchoPoint.read.At fetch pageAddr c := ⟨c, .refl, hrip⟩
  show ∃ calls, _ ∧ _ = EchoPoint.read.calls (pageAddr + 91) _
  -- the induction is on the replies; the point says where in the loop the core is
  generalize EchoPoint.read = p at hat ⊢
  clear hrip hbuild
  induction replies generalizing fetch c p with
  | nil =>
    obtain ⟨c', hcall, hargs, -⟩ := hat.interrupts hcode
    exact ⟨[c'.reg], .last hcall, by rw [List.map_singleton, hargs]; rfl⟩
  | cons r rs ih =>
    rw [List.forall_mem_cons] at hkeep
    obtain ⟨c', hcall, hargs, hnext⟩ := hat.interrupts hcode
    obtain ⟨calls, hsession, hcalls⟩ :=
      ih hkeep.2 hkeep.1 (p.next r.result) (hnext r.result r.fetch hkeep.1)
    exact ⟨c'.reg :: calls, .next hcall hsession, by
      rw [List.map_cons, hargs, hcalls]; rfl⟩

theorem echo_session_isolated : ∃ code calls,
    buildEchoShellcode 0x600000000000 = .ok code ∧
      Session 0x80 (image 0x600000000000 code) ⟨fun _ => 0, 0x600000000000, false⟩
        [⟨0, image 0x600000000000 code.dropLast⟩, ⟨1, image 0x600000000000 code.dropLast⟩] calls ∧
      calls.map arguments =
        [(1, 0, 0x60000000005b, 1), (1, 0, 0x60000000005b, 1), (0, 1, 0x60000000005b, 1)] := by
  have hend : (0x600000000000 : Word).toNat + 91 < 0x10000000000000000 := by decide
  have hbuild := buildEchoShellcode_eq hend
  have hlen : (assemble (echoListing 0x60000000005b 0x60000000005b) ++ [0]).dropLast.length <
      2 ^ 64 := by decide
  have hkept := codeAt_image (a := 0x600000000000) hlen
  obtain ⟨calls, hsession, hcalls⟩ := echo_session (c := ⟨fun _ => 0, 0x600000000000, false⟩)
    hbuild (codeAt_image (by decide)) rfl [⟨0, _⟩, ⟨1, _⟩]
    (List.forall_mem_cons.2 ⟨hkept, List.forall_mem_singleton.2 hkept⟩)
  exact ⟨_, calls, hbuild, hsession, hcalls⟩

/-! ## The open/read demo -/

theorem length_openReadDemoPath : openReadDemoPath.length = 9 := by decide +kernel

/-- The listing in the documentation of `build_open_read_shellcode`, with the addresses of the path
and of the buffer; each piece ends in `int 0x80`. -/
def openReadListing (path readBuf writeBuf : Word) : List (List Insn) :=
  [[.movImm rax 3, .movImm rdi path, .movImm rsi 9],
   [.movReg rdi rax, .movImm rax 1, .movImm rsi readBuf, .movImm rdx 64],
   [.movReg rdx rax, .movImm rax 0, .movImm rdi 1, .movImm rsi writeBuf],
   [.movImm rax 2]]

/-- The listing, with the path and the buffer behind it. -/
def openReadProgram (a : Word) : List (List Insn) := openReadListing (a + 114) (a + 123) (a + 123)

theorem length_openReadText (a : Word) :
    (assemble (pieces 0x80 (openReadProgram a)) ++ openReadDemoPath).length = 123 := by
  rw [List.length_append, length_openReadDemoPath]
  rfl

theorem openReadCode_eq :
    openReadCode = (assemble (pieces 0x80 (openReadListing 0 0 0)), 12, 47, 92) := by
  rw [openReadCode, length_openReadDemoPath]
  rfl

/-- **`build_open_read_shellcode`** returns its listing, the path and the buffer. -/
theorem buildOpenReadShellcode_eq {pageAddr : Word}
    (h : pageAddr.toNat + 123 < 0x10000000000000000) :
    buildOpenReadShellcode pageAddr =
      .ok (assemble (pieces 0x80 (openReadProgram pageAddr)) ++ openReadDemoPath ++
        List.replicate 64 0) := by
  have hpath := copyFromSlice_assemble (fun v => pieces 0x80 (openReadListing v 0 0))
    [.movImm rax 3] (fun _ => rfl) 12 rfl 0 (pageAddr + 114) []
  have hread := copyFromSlice_assemble
    (fun v => pieces 0x80 (openReadListing (pageAddr + 114) v 0))
    [.movImm rax 3, .movImm rdi (pageAddr + 114), .movImm rsi 9, .int 0x80,
      .movReg rdi rax, .movImm rax 1] (fun _ => rfl) 47 rfl 0 (pageAddr + 123) openReadDemoPath
  have hwrite := copyFromSlice_assemble
    (fun v => pieces 0x80 (openReadListing (pageAddr + 114) (pageAddr + 123) v))
    [.movImm rax 3, .movImm rdi (pageAddr + 114), .movImm rsi 9, .int 0x80,
      .movReg rdi rax, .movImm rax 1, .movImm rsi (pageAddr + 123), .movImm rdx 64, .int 0x80,
      .movReg rdx rax, .movImm rax 0, .movImm rdi 1] (fun _ => rfl) 92 rfl 0
    (pageAddr + 123) openReadDemoPath
  have haddr : addrBehind pageAddr (assemble (pieces 0x80 (openReadListing 0 0 0))) =
      .ok (pageAddr + 114) := addrBehind_of_lt (n := 114) rfl (by omega)
  have haddr' : addrBehind pageAddr
      (assemble (pieces 0x80 (openReadListing (pageAddr + 114) 0 0)) ++ openReadDemoPath) =
      .ok (pageAddr + 123) :=
    addrBehind_of_lt (n := 123) (by rw [List.length_append, length_openReadDemoPath]; rfl) h
  rw [buildOpenReadShellcode, openReadCode_eq]
  simp only [List.append_nil] at hpath
  simp only [bind, Except.bind, haddr, hpath, haddr', hread, hwrite]
  rfl

/-! ## The bad-pointer demo -/

/-- The listing in the documentation of `build_bad_pointer_shellcode`. -/
def badPointerListing : List Insn :=
  [.movImm rax 0, .movImm rdi 1, .movImm rsi badPointer, .movImm rdx 10]

/-- **`build_bad_pointer_shellcode`** returns its listing. -/
theorem buildBadPointerShellcode_eq :
    buildBadPointerShellcode = assemble (badPointerListing ++ [.int 0x80]) := rfl

/-- **Its only call**: `sys_write` of ten bytes behind the bad pointer. -/
theorem badPointer_write {fetch : Fetch} {c : Core}
    (h : CodeAt fetch c.rip buildBadPointerShellcode) :
    ∃ c', Interrupts fetch 0x80 c c' ∧ arguments c'.reg = (0, 1, badPointer, 10) := by
  rw [buildBadPointerShellcode_eq] at h
  exact ⟨_, interrupts_of_straight rfl h, rfl⟩

/-! ## The spawn/wait demo -/

theorem length_spawnWaitChildPath : spawnWaitChildPath.length = 9 := by decide +kernel

theorem length_spawnWaitDoneMsg : spawnWaitDoneMsg.length = 48 := by decide +kernel

/-- The listing in the documentation of `build_spawn_wait_shellcode`, with the addresses of the path
and of the message; each piece ends in `int 0x80`. -/
def spawnWaitListing (path msg : Word) : List (List Insn) :=
  [[.movImm rax 5, .movImm rdi path, .movImm rsi 9, .movImm rdx 0, .movImm rcx 0],
   [.movReg rdi rax, .movImm rax 6],
   [.movImm rax 0, .movImm rdi 1, .movImm rsi msg, .movImm rdx 48],
   [.movImm rax 2]]

/-- The text of the program: its listing, the path and the message. -/
def spawnWaitText (a : Word) : List Byte :=
  assemble (pieces 0x80 (spawnWaitListing (a + 121) (a + 130))) ++ spawnWaitChildPath ++
    spawnWaitDoneMsg

theorem length_spawnWaitText (a : Word) : (spawnWaitText a).length = 178 := by
  rw [spawnWaitText, List.length_append, List.length_append, length_spawnWaitChildPath,
    length_spawnWaitDoneMsg]
  rfl

theorem spawnWaitCode_eq :
    spawnWaitCode = (assemble (pieces 0x80 (spawnWaitListing 0 0)), 12, 89) := by
  rw [spawnWaitCode, length_spawnWaitChildPath, length_spawnWaitDoneMsg]
  rfl

/-- **`build_spawn_wait_shellcode`** returns its listing, the path and the message. -/
theorem buildSpawnWaitShellcode_eq {pageAddr : Word}
    (h : pageAddr.toNat + 130 < 0x10000000000000000) :
    buildSpawnWaitShellcode pageAddr = .ok (spawnWaitText pageAddr) := by
  have hpath := copyFromSlice_assemble (fun v => pieces 0x80 (spawnWaitListing v 0))
    [.movImm rax 5] (fun _ => rfl) 12 rfl 0 (pageAddr + 121) []
  have hmsg := copyFromSlice_assemble
    (fun v => pieces 0x80 (spawnWaitListing (pageAddr + 121) v))
    [.movImm rax 5, .movImm rdi (pageAddr + 121), .movImm rsi 9, .movImm rdx 0, .movImm rcx 0,
      .int 0x80, .movReg rdi rax, .movImm rax 6, .int 0x80, .movImm rax 0, .movImm rdi 1]
    (fun _ => rfl) 89 rfl 0 (pageAddr + 130) spawnWaitChildPath
  have haddr : addrBehind pageAddr (assemble (pieces 0x80 (spawnWaitListing 0 0))) =
      .ok (pageAddr + 121) := addrBehind_of_lt (n := 121) rfl (by omega)
  have haddr' : addrBehind pageAddr
      (assemble (pieces 0x80 (spawnWaitListing (pageAddr + 121) 0)) ++ spawnWaitChildPath) =
      .ok (pageAddr + 130) :=
    addrBehind_of_lt (n := 130) (by rw [List.length_append, length_spawnWaitChildPath]; rfl) h
  rw [buildSpawnWaitShellcode, spawnWaitCode_eq]
  simp only [List.append_nil] at hpath
  simp only [bind, Except.bind, haddr, hpath, haddr', hmsg]
  rfl

/-- **The spawn/wait demo makes the calls of its documentation.**  Wherever its code is in memory,
from any registers and for any three answers of the kernel that leave the code alone: the program
asks for `GREET.ELF` to be started without arguments, waits for the answer to that as if it were a
PID, whatever it is, prints its message, and exits. -/
theorem spawnWait_session {pageAddr : Word} {fetch : Fetch} {c : Core}
    (h : pageAddr.toNat + 130 < 0x10000000000000000) {code : List Byte}
    (hbuild : buildSpawnWaitShellcode pageAddr = .ok code) (hcode : CodeAt fetch pageAddr code)
    (hrip : c.rip = pageAddr) (started waited written : Reply)
    (hkeep : ∀ r ∈ [started, waited, written], CodeAt r.fetch pageAddr code) :
    ∃ calls, Session 0x80 fetch c [started, waited, written] calls ∧
      calls.map (fun reg => (arguments reg, reg rcx)) =
        [((number sysSpawnNumber, pageAddr + 121, 9, 0), 0),
         ((number sysWaitNumber, started.result, 9, 0), 0),
         ((number sysWriteNumber, 1, pageAddr + 130, 48), 0),
         ((number sysExitNumber, 1, pageAddr + 130, 48), 0)] := by
  rw [buildSpawnWaitShellcode_eq h] at hbuild
  obtain rfl := Except.ok.inj hbuild
  subst hrip
  have hfront : ∀ f : Fetch, CodeAt f c.rip (spawnWaitText c.rip) →
      CodeAt f c.rip (assemble (pieces 0x80 (spawnWaitListing (c.rip + 121) (c.rip + 130)))) :=
    fun f hf => (codeAt_append.1 (codeAt_append.1 hf).1).1
  exact ⟨_, session_of_pieces rfl rfl (hfront _ hcode) fun r hr => hfront _ (hkeep r hr), rfl⟩
