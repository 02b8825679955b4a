/-
# The shell

disk/shell.s, between one `read_byte` call and the next.  The program is suspended at
one of four calls of `read_byte`; `Shell.feed` runs it from there with the byte that
was read to the next call.

The buffers of the program are modelled one by one, and an access outside its buffer,
by the program or by a system call it makes, has no result.  `rbx` always holds the
address of `line_buf`; `r12` and `r13` count up to 64 and 8 and never overflow, so they
are natural numbers.  The system calls the program makes are recorded in `trace`; the
result of `SYS_SPAWN` is given from outside.
-/
import Velora.Buffers

/-- `LINE_BUF_SIZE` -/
abbrev lineBufSize : ℕ := 64

/-- `HISTORY_CAPACITY` -/
abbrev historyCapacity : ℕ := 8

/-- The `read_byte` calls. -/
inductive ShellPoint
  /-- in `read_char` -/
  | readChar
  /-- the first one in `handle_escape` -/
  | escape
  /-- the second one in `handle_escape` -/
  | csi
  /-- in `drain_csi` -/
  | drain
  deriving DecidableEq

/-- The system calls, with the bytes their pointers and lengths describe. -/
inductive Syscall
  | write (bytes : List UInt8)
  | spawn (path args : List UInt8)
  | wait (pid : UInt64)
  deriving DecidableEq

/-- The shell's registers and memory. -/
structure Shell where
  point : ShellPoint
  lineBuf : Buffer UInt8 lineBufSize
  r12 : ℕ
  r13 : ℕ
  historyLines : Buffer UInt8 (historyCapacity * lineBufSize)
  historyLens : Buffer UInt8 historyCapacity
  historyCount : ℕ
  historyNext : ℕ
  trace : List Syscall

namespace Shell

/-- `prompt_str` -/
def promptStr : List UInt8 := "\n> ".toUTF8.toList

/-- `banner` -/
def banner : List UInt8 :=
  "Velora shell. Try: ECHO.ELF  GREET.ELF  (Up/Down for history)\n".toUTF8.toList

/-- `fail_str` -/
def failStr : List UInt8 := "spawn failed\n".toUTF8.toList

/-- `backspace_run` -/
def backspaceRun : Buffer UInt8 lineBufSize := fun _ => 0x08

/-- A system call is made. -/
def call (s : Shell) (c : Syscall) : Shell := { s with trace := s.trace ++ [c] }

/-- Back to `read_char`. -/
def toReadChar (s : Shell) : Shell := { s with point := .readChar }

/-- `prompt` -/
def prompt (s : Shell) : Shell :=
  { s.call (.write promptStr) with r12 := 0, r13 := 0 }.toReadChar

/-- `_start`, up to the first `read_byte`. -/
def start : Shell :=
  let bss : Shell :=
    { point := .readChar, lineBuf := fun _ => 0, r12 := 0, r13 := 0,
      historyLines := fun _ => 0, historyLens := fun _ => 0, historyCount := 0,
      historyNext := 0, trace := [] }
  (bss.call (.write banner)).prompt

/-- `history_push` -/
def historyPush (s : Shell) : Option Shell := do
  let rax := s.historyNext
  let r9 := rax * lineBufSize
  let lines ← Buffer.copy s.lineBuf 0 r9 0 s.r12 s.historyLines
  let lens ← Buffer.store s.historyLens rax (UInt8.ofNat s.r12)
  let s := { s with historyLines := lines, historyLens := lens,
                    historyNext := (rax + 1) % historyCapacity }
  if historyCapacity ≤ s.historyCount then return s
  else return { s with historyCount := s.historyCount + 1 }

/-- `SYS_WRITE` of the first bytes of a buffer, if there are any to write. -/
def writeFrom (s : Shell) (b : Buffer UInt8 lineBufSize) (len : ℕ) : Option Shell :=
  if len = 0 then some s else (Buffer.read b 0 len).map fun bytes => s.call (.write bytes)

/-- The end of `history_load_into_line`: erase the old line on the screen, write the new one. -/
def redraw (s : Shell) (r8 rcx : ℕ) : Option Shell := do
  let s ← s.writeFrom backspaceRun r8
  s.writeFrom s.lineBuf rcx

/-- `history_load_into_line` -/
def historyLoadIntoLine (s : Shell) : Option Shell := do
  let r8 := s.r12
  let rax := (s.historyNext + 0x10000000000000000 - s.r13) % 0x10000000000000000 % historyCapacity
  let len ← Buffer.load s.historyLens rax
  let rcx := len.toNat
  let r9 := rax * lineBufSize
  let line ← Buffer.copy s.historyLines r9 0 0 rcx s.lineBuf
  let s ← { s with lineBuf := line }.redraw r8 rcx
  return { s with r12 := rcx }

/-- `history_older` -/
def historyOlder (s : Shell) : Option Shell := do
  let rax := s.historyCount
  if rax = 0 then return s.toReadChar
  if rax ≤ s.r13 then return s.toReadChar
  let s ← { s with r13 := s.r13 + 1 }.historyLoadIntoLine
  return s.toReadChar

/-- `history_clear_line` -/
def historyClearLine (s : Shell) : Option Shell := do
  let r8 := s.r12
  if r8 = 0 then return s.toReadChar
  let bytes ← Buffer.read backspaceRun 0 r8
  return { s.call (.write bytes) with r12 := 0 }.toReadChar

/-- `history_newer` -/
def historyNewer (s : Shell) : Option Shell := do
  if s.r13 = 0 then return s.toReadChar
  let s := { s with r13 := s.r13 - 1 }
  if s.r13 = 0 then s.historyClearLine else
  let s ← s.historyLoadIntoLine
  return s.toReadChar

/-- `drain_csi`, with the byte in `al`. -/
def drainCsi (s : Shell) (al : UInt8) : Shell :=
  if al = 0x7E then s.toReadChar else { s with point := .drain }

/-- `handle_escape` after its second `read_byte`. -/
def handleCsi (s : Shell) (al : UInt8) : Option Shell :=
  if al = 0x41 then s.historyOlder
  else if al = 0x42 then s.historyNewer
  else if al = 0x43 then some s.toReadChar
  else if al = 0x44 then some s.toReadChar
  else some (s.drainCsi al)

/-- `handle_escape` after its first `read_byte`. -/
def handleEscape (s : Shell) (al : UInt8) : Shell :=
  if al ≠ 0x5B then s.toReadChar else { s with point := .csi }

/-- `handle_backspace` -/
def handleBackspace (s : Shell) : Shell :=
  if s.r12 = 0 then s.toReadChar else { s with r12 := s.r12 - 1 }.toReadChar

/-- The loop at `.Lfind_space`, with `k` bytes of the line left from `rax` on. -/
def findSpace (s : Shell) (rax : ℕ) : ℕ → Option ℕ
  | 0 => some rax
  | k + 1 => do
    let byte ← Buffer.load s.lineBuf rax
    if byte = 0x20 then return rax else s.findSpace (rax + 1) k

/-- The bytes after the path and the space; without a space `args_ptr` and `args_len` are 0. -/
def spawnArgs (s : Shell) (r14 : ℕ) : Option (List UInt8) :=
  if s.r12 ≤ r14 then some [] else Buffer.read s.lineBuf (r14 + 1) (s.r12 - r14 - 1)

/-- `handle_newline`; `pid` is what `SYS_SPAWN` returns. -/
def handleNewline (s : Shell) (pid : UInt64) : Option Shell := do
  if s.r12 = 0 then return s.prompt
  let s ← s.historyPush
  let r14 ← s.findSpace 0 s.r12
  let path ← Buffer.read s.lineBuf 0 r14
  let args ← s.spawnArgs r14
  let s := s.call (.spawn path args)
  if pid = 0xFFFFFFFFFFFFFFFF then return (s.call (.write failStr)).prompt
  else return (s.call (.wait pid)).prompt

/-- `read_char`, with the byte in `al`. -/
def readChar (s : Shell) (al : UInt8) (pid : UInt64) : Option Shell :=
  if al = 0x1B then some { s with point := .escape }
  else if al = 0x08 then some s.handleBackspace
  else if al = 0x0A then s.handleNewline pid
  else if al = 0x0D then s.handleNewline pid
  else if lineBufSize ≤ s.r12 then some s.toReadChar
  else do
    let line ← Buffer.store s.lineBuf s.r12 al
    return { s with lineBuf := line, r12 := s.r12 + 1 }.toReadChar

/-- `read_byte` has returned `al`: run to the next `read_byte`. -/
def feed (s : Shell) (al : UInt8) (pid : UInt64) : Option Shell :=
  match s.point with
  | .readChar => s.readChar al pid
  | .escape => some (s.handleEscape al)
  | .csi => s.handleCsi al
  | .drain => some (s.drainCsi al)

/-- `line_buf[0 .. r12)` -/
def line (s : Shell) : List UInt8 := Buffer.slice s.lineBuf 0 s.r12

/-- The `SYS_SPAWN` calls made so far: path and arguments. -/
def spawns (s : Shell) : List (List UInt8 × List UInt8) :=
  s.trace.filterMap (fun c => match c with
    | .spawn path args => some (path, args)
    | _ => none)

end Shell
