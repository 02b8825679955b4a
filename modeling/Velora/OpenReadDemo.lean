/-
# The open/read demo

The program that `build_open_read_shellcode` assembles opens `HELLO.TXT`, reads up to 64 bytes of it
behind its code, writes what it has read, and exits.  It checks nothing: without the file the three
calls go on with `u64::MAX`, and what is printed is what happens to be behind the code.

From `spawn_open_read_demo` to its end, the program prints the beginning of the file
(`open_read_demo_prints`), whatever else happens in the system.
-/
import Velora.Demos

open MachineCode hiding Word
open Traces

/-! ## Calls on a view -/

/-- A file is never at the descriptor of the keyboard or of the screen. -/
theorem slotFd_ne (slot : Fin maxOpenFiles) : slotFd slot ≠ 0 ∧ slotFd slot ≠ 1 := by
  revert slot
  decide

namespace View

variable {v : View} {ptr len : UInt64}

/-- What has been stored can be loaded. -/
theorem load_store {p : ℕ} {bytes : List UInt8} (h0 : p ≠ 0)
    (hp : (VirtAddr.tryNew p).isSome = true) :
    (v.store p bytes).load p bytes.length = some bytes := by
  have hbyte : ∀ k, k < bytes.length →
      (v.store p bytes).byte (p + k) = (bytes[k]?).map UInt8.toBitVec := by
    intro k hk
    rw [store]
    simp only
    rw [if_pos ⟨by omega, by omega⟩, Nat.add_sub_cancel_left]
  rw [load, if_pos]
  · congr 1
    refine List.ext_getElem (by simp) fun k hk hk' => ?_
    rw [List.getElem_map, List.getElem_range, hbyte k hk', List.getElem?_eq_getElem hk']
    rfl
  · refine ⟨h0, hp, fun k hk => ?_⟩
    rw [hbyte k hk, List.getElem?_eq_getElem hk]
    rfl

/-- Bytes that can be fetched can be loaded. -/
theorem load_of_codeAt {a : Word} {bytes : List Byte} (h0 : a.toNat ≠ 0)
    (hlow : a.toNat < 0x800000000000) (hend : a.toNat + bytes.length ≤ 0x10000000000000000)
    (h : CodeAt v.fetch a bytes) :
    v.load a.toNat bytes.length = some (bytes.map UInt8.ofBitVec) := by
  have hbyte : ∀ k (hk : k < bytes.length), v.byte (a.toNat + k) = some bytes[k] := by
    intro k hk
    have haddr : (a + BitVec.ofNat 64 k).toNat = a.toNat + k := by
      rw [BitVec.toNat_add, BitVec.toNat_ofNat, Nat.mod_eq_of_lt (by omega),
        Nat.mod_eq_of_lt (by omega)]
    rw [← haddr]
    exact codeAt_iff.1 h k _ (List.getElem?_eq_getElem hk)
  rw [load, if_pos]
  · congr 1
    refine List.ext_getElem (by simp) fun k hk hk' => ?_
    rw [List.length_map] at hk'
    rw [List.getElem_map, List.getElem_range, List.getElem_map, hbyte k hk']
    rfl
  · refine ⟨h0, by rw [VirtAddr.tryNew_of_lower hlow]; rfl, fun k hk => ?_⟩
    rw [hbyte k hk]
    rfl

section Open

variable {readFile : ReadFile} {path : List UInt8}
  (hlen : ¬ (len.toNat = 0 ∨ len.toNat > 255)) (hload : v.load ptr.toNat len.toNat = some path)
  (hutf8 : validUtf8 path = true)
include hlen hload hutf8

/-- Opening a file that is not there. -/
theorem openFile_of_missing (hfile : readFile path = some (.ok none)) :
    v.openFile readFile ptr len = some (.ok (.returns u64Max [] v)) := by
  rw [openFile, if_neg hlen, hload]
  simp only [hutf8, Bool.not_true, Bool.false_eq_true, if_false, hfile]
  rfl

/-- The first file that is opened. -/
theorem openFile_of_first {data : List UInt8} (hfile : readFile path = some (.ok (some data)))
    (hfree : ∀ slot, v.files slot = none) :
    v.openFile readFile ptr len = some (.ok (.returns (slotFd 0) []
      { v with files := Function.update v.files 0 (some data) })) := by
  have hfirst : (List.finRange maxOpenFiles).find? (fun slot => (v.files slot).isNone) =
      some 0 := by
    simp only [hfree]
    rfl
  rw [openFile, if_neg hlen, hload]
  simp only [hutf8, Bool.not_true, Bool.false_eq_true, if_false, hfile, hfirst]
  rfl

end Open

section Read

variable (h0 : ptr.toNat ≠ 0) (hw : ∀ k < 64, v.writable (ptr.toNat + k) = true)
include h0 hw

/-- Reading from a file that is open. -/
theorem read_of_file {slot : Fin maxOpenFiles} {data : List UInt8}
    (hfile : v.files slot = some data) :
    v.read (slotFd slot) ptr 64 = .returns (UInt64.ofNat (data.take 64).length) []
      ((v.consume (slotFd slot) (data.take 64).length).store ptr.toNat (data.take 64)) := by
  have hsource : v.source (slotFd slot) = some data := by
    rw [source, if_neg (slotFd_ne slot).1, Kernel.fileSlot_slotFd, Option.bind_some, hfile]
  rw [read, if_neg (by decide), if_neg (slotFd_ne slot).2, if_pos ⟨h0, hw⟩, hsource]
  rfl

/-- Reading from what is not a descriptor. -/
theorem read_of_max : v.read u64Max ptr 64 = .returns u64Max [] v := by
  have hsource : v.source u64Max = none := by
    rw [source, if_neg (by decide), show fileSlot u64Max = none by decide]
    rfl
  rw [read, if_neg (by decide), if_neg (by decide), if_pos ⟨h0, hw⟩, hsource]

end Read

/-- Writing what can be loaded. -/
theorem write_of_load {bytes : List UInt8}
    (hload : v.load ptr.toNat (min len.toNat 1024) = some bytes) :
    v.write 1 ptr len = .returns (UInt64.ofNat bytes.length) (CallState.shown bytes) v := by
  rw [write, if_neg (fun h => h rfl), hload]

end View

/-! ## From one call to the next -/

/-- `b"HELLO.TXT"`, as the kernel finds it. -/
def helloTxt : List UInt8 := "HELLO.TXT".toUTF8.toList

theorem map_openReadDemoPath : openReadDemoPath.map UInt8.ofBitVec = helloTxt := by
  rw [openReadDemoPath, byteString, List.map_map]
  exact List.map_id _

theorem validUtf8_helloTxt : validUtf8 helloTxt = true := by decide +kernel

section Code

variable {fetch : Fetch} {a : Word}

variable {c : Core} (h : CodeAt fetch a (assemble (pieces 0x80 (openReadProgram a))))
include h

/-- **The first call**: `sys_open` of the path. -/
theorem openRead_open (hrip : c.rip = a) : ∃ c', Interrupts fetch 0x80 c c' ∧ c'.rip = a + 32 ∧
    callNumber c' = sysOpenNumber ∧ c'.reg rdi = a + 114 ∧ c'.reg rsi = 9 := by
  have hcall := interrupts_of_piece [] rfl h (hrip.trans (BitVec.add_zero a).symm)
  exact ⟨_, hcall, by rw [hrip]; rfl, rfl, rfl, rfl⟩

/-- **The second call**: `sys_read` from what has been opened. -/
theorem openRead_read (hrip : c.rip = a + 32) : ∃ c', Interrupts fetch 0x80 c c' ∧
    c'.rip = a + 67 ∧ arguments c'.reg = (number sysReadNumber, c.reg rax, a + 123, 64) := by
  have hcall := interrupts_of_piece ((openReadProgram a).take 1) rfl h hrip
  exact ⟨_, hcall, by rw [Core.rip_goto, hrip, add_assoc]; rfl, rfl⟩

/-- **The third call**: `sys_write` of as many bytes as have been read. -/
theorem openRead_write (hrip : c.rip = a + 67) : ∃ c', Interrupts fetch 0x80 c c' ∧
    c'.rip = a + 102 ∧ arguments c'.reg = (number sysWriteNumber, 1, a + 123, c.reg rax) := by
  have hcall := interrupts_of_piece ((openReadProgram a).take 2) rfl h hrip
  exact ⟨_, hcall, by rw [Core.rip_goto, hrip, add_assoc]; rfl, rfl⟩

/-- **The last call**: `sys_exit`. -/
theorem openRead_exit (hrip : c.rip = a + 102) : ∃ c', Interrupts fetch 0x80 c c' ∧
    callNumber c' = sysExitNumber := by
  have hcall := interrupts_of_piece ((openReadProgram a).take 3) rfl h hrip
  exact ⟨_, hcall, rfl⟩

end Code

/-! ## The demo at work -/

/-- The next call of the open/read demo. -/
inductive OpenReadPoint
  | opens
  | reads
  | writes
  | exits
  deriving DecidableEq

/-- What there is to be printed: the beginning of the file, or, without a file, the 1024 bytes
behind the code. -/
def Shows (a : Word) (v : View) (file : Option (List UInt8)) (text : List UInt8) : Prop :=
  (∀ data, file = some data → text = CallState.shown (data.take 64)) ∧
    (file = none → ∃ bytes, v.load (a.toNat + 123) 1024 = some bytes ∧
      text = CallState.shown bytes)

namespace OpenReadPoint

/-- Where the call is made. -/
def offset : OpenReadPoint → Word
  | opens => 0
  | reads => 32
  | writes => 67
  | exits => 102

/-- How many calls it is from the last one. -/
def left : OpenReadPoint → ℕ
  | opens => 3
  | reads => 2
  | writes => 1
  | exits => 0

/-- What is known before the call: `printed` has been printed, and in the end it will be `text`. -/
def Ready (a : Word) (file : Option (List UInt8)) (text printed : List UInt8) (c : Core)
    (v : View) : OpenReadPoint → Prop
  | opens => printed = [] ∧ Shows a v file text ∧ ∀ slot, v.files slot = none
  | reads => printed = [] ∧ Shows a v file text ∧ (file = none → c.reg rax = u64Max.toBitVec) ∧
      ∀ data, file = some data →
        ∃ slot, c.reg rax = (slotFd slot).toBitVec ∧ v.files slot = some data
  | writes => printed = [] ∧ ∃ bytes,
      v.load (a.toNat + 123) (min (c.reg rax).toNat 1024) = some bytes ∧
      text = CallState.shown bytes
  | exits => printed = text

end OpenReadPoint

/-- **The open/read demo at work**: it is about to make the call `p`. -/
structure OpenReading (a : Word) (file : Option (List UInt8)) (text printed : List UInt8)
    (p : OpenReadPoint) (c : Core) (v : View) : Prop where
  rip : c.rip = a + p.offset
  code : CodeAt v.fetch a (assemble (pieces 0x80 (openReadProgram a)) ++ openReadDemoPath)
  buffer : ∀ k < 64, v.writable (a.toNat + 123 + k) = true
  ready : p.Ready a file text printed c v

namespace OpenReading

variable {readFile : ReadFile} {reads : Set ReadFile} {a : Word} {file : Option (List UInt8)}
  {text printed : List UInt8} {p : OpenReadPoint} {c : Core} {v : View}

/-- It has printed nothing or everything. -/
theorem printed_eq (h : OpenReading a file text printed p c v) : printed = [] ∨ printed = text := by
  have hready := h.ready
  cases p with
  | opens | reads | writes => exact .inl hready.1
  | exits => exact .inr hready

/-- A key changes nothing. -/
theorem typed (h : OpenReading a file text printed p c v) (b : UInt8) :
    OpenReading a file text printed p c (v.typed b) := by
  refine ⟨h.rip, h.code, h.buffer, ?_⟩
  have hready := h.ready
  cases p <;> exact hready

/-- The addresses of the path and of the buffer. -/
theorem toNat_add_of_lower {k : Word} (hpage : a.toNat + 4096 ≤ 0x800000000000)
    (hk : k.toNat < 4096) : (a + k).toNat = a.toNat + k.toNat := by
  rw [BitVec.toNat_add]
  exact Nat.mod_eq_of_lt (by omega)

theorem toNat_buffer (hpage : a.toNat + 4096 ≤ 0x800000000000) :
    (⟨a + 123⟩ : UInt64).toNat = a.toNat + 123 := toNat_add_of_lower hpage (by decide)

/-- The path is there. -/
theorem load_path (h : OpenReading a file text printed p c v)
    (hpage : a.toNat + 4096 ≤ 0x800000000000) :
    v.load (⟨a + 114⟩ : UInt64).toNat 9 = some helloTxt := by
  have haddr : (a + 114).toNat = a.toNat + 114 := toNat_add_of_lower hpage (by decide)
  have hpath : CodeAt v.fetch (a + 114) openReadDemoPath := (codeAt_append.1 h.code).2
  have hload := View.load_of_codeAt (by omega) (by omega)
    (by rw [length_openReadDemoPath]; omega) hpath
  rwa [length_openReadDemoPath, map_openReadDemoPath] at hload

/-- **Opening the file.** -/
theorem exists_open (hpage : a.toNat + 4096 ≤ 0x800000000000)
    (hfile : readFile helloTxt = some (.ok file))
    (h : OpenReading a file text printed .opens c v) :
    ∃ c' result v', Interrupts v.fetch 0x80 c c' ∧ ownCall c' ∧
      v.call readFile (callNumber c') ⟨c'.reg rdi⟩ ⟨c'.reg rsi⟩ ⟨c'.reg rdx⟩ =
        some (.ok (.returns result [] v')) ∧
      OpenReading a file text printed .reads (c'.resume result.toBitVec) v' := by
  obtain ⟨hprinted, hshows, hfree⟩ := h.ready
  obtain ⟨c', hint, hrip, hnumber, hptr, hlen⟩ :=
    openRead_open (codeAt_append.1 h.code).1 (h.rip.trans (BitVec.add_zero a))
  have hown : ownCall c' := ownCall_of_number (n := sysOpenNumber)
    (congrArg UInt64.toBitVec hnumber) (by decide)
  have hcall : v.call readFile (callNumber c') ⟨c'.reg rdi⟩ ⟨c'.reg rsi⟩ ⟨c'.reg rdx⟩ =
      v.openFile readFile ⟨a + 114⟩ 9 := by
    rw [hnumber, hptr, hlen]
    rfl
  have hload := h.load_path hpage
  cases file with
  | none =>
    rw [View.openFile_of_missing (by decide) hload validUtf8_helloTxt hfile] at hcall
    refine ⟨c', _, v, hint, hown, hcall, hrip, h.code, h.buffer, hprinted, hshows, ?_, ?_⟩
    · exact fun _ => Core.rax_resume c' _
    · intro data hdata
      cases hdata
  | some data =>
    rw [View.openFile_of_first (by decide) hload validUtf8_helloTxt hfile hfree] at hcall
    refine ⟨c', _, _, hint, hown, hcall, hrip, h.code, h.buffer, hprinted, hshows, ?_, ?_⟩
    · intro hnone
      cases hnone
    · intro data' hdata
      cases hdata
      exact ⟨0, Core.rax_resume c' _, Function.update_self (0 : Fin maxOpenFiles) _ v.files⟩

/-- **Reading from it.** -/
theorem exists_read (readFile : ReadFile)
    (hpage : a.toNat + 4096 ≤ 0x800000000000)
    (h : OpenReading a file text printed .reads c v) :
    ∃ c' result v', Interrupts v.fetch 0x80 c c' ∧ ownCall c' ∧
      v.call readFile (callNumber c') ⟨c'.reg rdi⟩ ⟨c'.reg rsi⟩ ⟨c'.reg rdx⟩ =
        some (.ok (.returns result [] v')) ∧
      OpenReading a file text printed .writes (c'.resume result.toBitVec) v' := by
  obtain ⟨hprinted, hshows, hmissing, hopen⟩ := h.ready
  obtain ⟨c', hint, hrip, hargs⟩ := openRead_read (codeAt_append.1 h.code).1 h.rip
  have hnumber : (arguments c'.reg).1 = number sysReadNumber := by rw [hargs]
  have hown := ownCall_of_number hnumber (by decide)
  have hcall : v.call readFile (callNumber c') ⟨c'.reg rdi⟩ ⟨c'.reg rsi⟩ ⟨c'.reg rdx⟩ =
      v.callOf readFile (number sysReadNumber, c.reg rax, a + 123, 64) := by
    rw [← hargs]
    rfl
  have hread : v.callOf readFile (number sysReadNumber, c.reg rax, a + 123, 64) =
      some (.ok (v.read ⟨c.reg rax⟩ ⟨a + 123⟩ 64)) := rfl
  have hbuf := toNat_buffer hpage
  have h0 : (⟨a + 123⟩ : UInt64).toNat ≠ 0 := by omega
  have hw : ∀ k < 64, v.writable ((⟨a + 123⟩ : UInt64).toNat + k) = true := by
    rw [hbuf]
    exact h.buffer
  cases file with
  | none =>
    -- without a file, nothing is read, and the result is taken for a number of bytes
    rw [hread, hmissing rfl, View.read_of_max h0 hw] at hcall
    refine ⟨c', _, v, hint, hown, hcall, hrip, h.code, h.buffer, hprinted, ?_⟩
    rw [Core.rax_resume]
    exact hshows.2 rfl
  | some data =>
    obtain ⟨slot, hslot, hdata⟩ := hopen data rfl
    rw [hread, hslot, View.read_of_file h0 hw hdata, hbuf] at hcall
    have hlen : (data.take 64).length ≤ 64 := List.length_take_le ..
    have hkept : (v.consume (slotFd slot) (data.take 64).length).byte = v.byte ∧
        (v.consume (slotFd slot) (data.take 64).length).writable = v.writable := by
      rw [View.consume, if_neg (slotFd_ne slot).1, Kernel.fileSlot_slotFd]
      exact ⟨rfl, rfl⟩
    generalize v.consume (slotFd slot) (data.take 64).length = u at hcall hkept
    have hcode : CodeAt u.fetch a
        (assemble (pieces 0x80 (openReadProgram a)) ++ openReadDemoPath) := by
      rw [show u.fetch = v.fetch from funext fun x => congrFun hkept.1 x.toNat]
      exact h.code
    refine ⟨c', _, _, hint, hown, hcall, hrip,
      View.codeAt_store _ ?_ (by omega) hcode, ?_, hprinted, data.take 64, ?_, hshows.1 data rfl⟩
    · rw [length_openReadText]
    · rw [View.store, hkept.2]
      exact h.buffer
    · have hrax : min (UInt64.ofNat (data.take 64).length).toNat 1024 = (data.take 64).length := by
        rw [UInt64.toNat_ofNat', Nat.mod_eq_of_lt (by omega)]
        omega
      rw [Core.rax_resume]
      show View.load _ (min (UInt64.ofNat (data.take 64).length).toNat 1024) _ = _
      rw [hrax]
      exact View.load_store (by omega) (by rw [VirtAddr.tryNew_of_lower (by omega)]; rfl)

/-- **Writing what has been read.** -/
theorem exists_write (readFile : ReadFile)
    (hpage : a.toNat + 4096 ≤ 0x800000000000)
    (h : OpenReading a file text printed .writes c v) :
    ∃ c' result, Interrupts v.fetch 0x80 c c' ∧ ownCall c' ∧
      v.call readFile (callNumber c') ⟨c'.reg rdi⟩ ⟨c'.reg rsi⟩ ⟨c'.reg rdx⟩ =
        some (.ok (.returns result text v)) ∧
      OpenReading a file text (printed ++ text) .exits (c'.resume result.toBitVec) v := by
  obtain ⟨rfl, bytes, hload, rfl⟩ := h.ready
  obtain ⟨c', hint, hrip, hargs⟩ := openRead_write (codeAt_append.1 h.code).1 h.rip
  have hnumber : (arguments c'.reg).1 = number sysWriteNumber := by rw [hargs]
  have hcall : v.call readFile (callNumber c') ⟨c'.reg rdi⟩ ⟨c'.reg rsi⟩ ⟨c'.reg rdx⟩ =
      v.callOf readFile (number sysWriteNumber, 1, a + 123, c.reg rax) := by
    rw [← hargs]
    rfl
  have hwrite : v.callOf readFile (number sysWriteNumber, 1, a + 123, c.reg rax) =
      some (.ok (v.write 1 ⟨a + 123⟩ ⟨c.reg rax⟩)) := rfl
  have hbytes : v.load (⟨a + 123⟩ : UInt64).toNat (min (⟨c.reg rax⟩ : UInt64).toNat 1024) =
      some bytes := by
    rw [toNat_buffer hpage]
    exact hload
  rw [hwrite, View.write_of_load hbytes] at hcall
  exact ⟨c', _, hint, ownCall_of_number hnumber (by decide), hcall, hrip, h.code, h.buffer, rfl⟩

/-- **Its end.** -/
theorem exists_exit (readFile : ReadFile)
    (h : OpenReading a file text printed .exits c v) :
    ∃ c', Interrupts v.fetch 0x80 c c' ∧ ownCall c' ∧
      v.call readFile (callNumber c') ⟨c'.reg rdi⟩ ⟨c'.reg rsi⟩ ⟨c'.reg rdx⟩ =
        some (.ok (.exits [] v)) := by
  obtain ⟨c', hint, hnumber⟩ := openRead_exit (codeAt_append.1 h.code).1 h.rip
  refine ⟨c', hint, ownCall_of_number (n := sysExitNumber)
    (congrArg UInt64.toBitVec hnumber) (by decide), ?_⟩
  rw [hnumber]
  rfl

/-- **One call**: it returns and the demo is at work again, one call nearer to its end. -/
theorem exists_call (hpage : a.toNat + 4096 ≤ 0x800000000000)
    (hfile : readFile helloTxt = some (.ok file)) (h : OpenReading a file text printed p c v)
    (hp : p ≠ .exits) :
    ∃ c' result said v' p', Interrupts v.fetch 0x80 c c' ∧ ownCall c' ∧
      v.call readFile (callNumber c') ⟨c'.reg rdi⟩ ⟨c'.reg rsi⟩ ⟨c'.reg rdx⟩ =
        some (.ok (.returns result said v')) ∧
      OpenReading a file text (printed ++ said) p' (c'.resume result.toBitVec) v' ∧
      p.left = p'.left + 1 := by
  cases p with
  | opens =>
    obtain ⟨c', result, v', hint, hown, hcall, hnext⟩ := h.exists_open hpage hfile
    refine ⟨c', result, [], v', .reads, hint, hown, hcall, ?_, rfl⟩
    rwa [List.append_nil]
  | reads =>
    obtain ⟨c', result, v', hint, hown, hcall, hnext⟩ := h.exists_read readFile hpage
    refine ⟨c', result, [], v', .writes, hint, hown, hcall, ?_, rfl⟩
    rwa [List.append_nil]
  | writes =>
    obtain ⟨c', result, hint, hown, hcall, hnext⟩ := h.exists_write readFile hpage
    exact ⟨c', result, text, v, .exits, hint, hown, hcall, hnext, rfl⟩
  | exits => exact absurd rfl hp

/-- **The run**: at any time the demo is at work. -/
theorem of_trace {ls : List Label} {c' : Core} {v' : View}
    (hpage : a.toNat + 4096 ≤ 0x800000000000)
    (hfile : ∀ readFile ∈ reads, readFile helloTxt = some (.ok file))
    (h : OpenReading a file text printed p c v)
    (htrace : Trace (View.Step reads) (c, v) ls (c', v')) :
    ∃ p', OpenReading a file text (printed ++ Label.text ls) p' c' v' := by
  refine htrace.invariant (P := fun ls st => ∃ p', OpenReading a file text
    (printed ++ Label.text ls) p' st.1 st.2) ⟨p, ?_⟩ ?_
  · show OpenReading a file text (printed ++ []) p c v
    rwa [List.append_nil]
  · rintro ls l t u ⟨p, hp⟩ hstep
    rw [Label.text_append]
    cases hstep with
    | @typed c v b hroom =>
      refine ⟨p, ?_⟩
      show OpenReading a file text (printed ++ (Label.text ls ++ [])) p c (v.typed b)
      rw [List.append_nil]
      exact hp.typed b
    | lost b hfull =>
      refine ⟨p, ?_⟩
      show OpenReading a file text (printed ++ (Label.text ls ++ [])) p _ _
      rwa [List.append_nil]
    | @call c c' v v' result said readFile hread hint hown hcall =>
      by_cases hexits : p = .exits
      · -- the last call does not return
        subst hexits
        obtain ⟨d, hint', -, hcall'⟩ := hp.exists_exit readFile
        obtain rfl := hint.unique hint'
        rw [hcall] at hcall'
        cases hcall'
      · obtain ⟨d, result', said', w, p', hint', -, hcall', hp', -⟩ :=
          hp.exists_call hpage (hfile readFile hread) hexits
        obtain rfl := hint.unique hint'
        rw [hcall] at hcall'
        cases hcall'
        refine ⟨p', ?_⟩
        show OpenReading a file text (printed ++ (Label.text ls ++ (said ++ []))) p' _ _
        rwa [List.append_nil, ← List.append_assoc]

/-- **It gets to its end**, if it is left in peace for a while. -/
theorem exists_trace (hpage : a.toNat + 4096 ≤ 0x800000000000)
    (hfile : ∀ readFile ∈ reads, readFile helloTxt = some (.ok file)) (hreads : reads.Nonempty)
    (h : OpenReading a file text printed p c v) :
    ∃ ls c' v', Trace (View.Step reads) (c, v) ls (c', v') ∧ Label.keys ls = [] ∧
      OpenReading a file text (printed ++ Label.text ls) .exits c' v' := by
  obtain ⟨readFile, hread⟩ := hreads
  -- the induction is on the number of calls that are left
  induction hn : p.left generalizing p c v printed with
  | zero =>
    obtain rfl : p = .exits := by
      cases p with
      | exits => rfl
      | opens | reads | writes => cases hn
    refine ⟨[], c, v, .refl, rfl, ?_⟩
    show OpenReading a file text (printed ++ []) .exits c v
    rwa [List.append_nil]
  | succ n ih =>
    have hp : p ≠ .exits := by
      rintro rfl
      cases hn
    obtain ⟨c', result, said, v', p', hint, hown, hcall, hp', hleft⟩ :=
      h.exists_call hpage (hfile readFile hread) hp
    obtain ⟨ls, c'', v'', htrace, hkeys, hend⟩ := ih hp' (by omega)
    refine ⟨.said said :: ls, c'', v'', (Trace.single (.call hread hint hown hcall)).trans htrace,
      hkeys, ?_⟩
    rw [List.append_assoc] at hend
    exact hend

end OpenReading

/-! ## The demo in the system -/

/-- The page of the open/read demo, if the window on physical memory is not there. -/
theorem demoPage_openReadDemoAddr {off : Fin 512} (hoff : off ≠ 234) :
    World.DemoPage off openReadDemoAddr :=
  .of_entry (by decide) (by decide) (by decide) (by decide) hoff

/-- What there is to be printed when the demo has been started: without a file, 64 zeros and what
the frame of the page held before. -/
theorem exists_shows {v : View} {a : Word} (hpage : a.toNat + 4096 ≤ 0x800000000000)
    (hread : ∀ k < 4096, (v.byte (a.toNat + k)).isSome = true)
    (hzero : ∀ k < 64, v.byte (a.toNat + 123 + k) = some 0) (file : Option (List UInt8)) :
    ∃ text, Shows a v file text ∧
      (file = none → ∃ rest, rest.length = 960 ∧
        text = CallState.shown (List.replicate 64 0 ++ rest)) := by
  cases file with
  | some data =>
    refine ⟨CallState.shown (data.take 64), ⟨?_, ?_⟩, ?_⟩
    · intro data' hdata
      cases hdata
      rfl
    · intro hnone
      cases hnone
    · intro hnone
      cases hnone
  | none =>
    let byte (k : ℕ) : UInt8 := ⟨(v.byte (a.toNat + 123 + k)).getD 0⟩
    have hload : v.load (a.toNat + 123) 1024 = some ((List.range 1024).map byte) := by
      refine if_pos ⟨by omega, by rw [VirtAddr.tryNew_of_lower (by omega)]; rfl, fun k hk => ?_⟩
      rw [add_assoc]
      exact hread _ (by omega)
    have hzeros : (List.range 64).map byte = List.replicate 64 0 := by
      refine List.eq_replicate_iff.2 ⟨by simp, ?_⟩
      rintro b hb
      obtain ⟨k, hk, rfl⟩ := List.mem_map.1 hb
      show UInt8.ofBitVec ((v.byte (a.toNat + 123 + k)).getD 0) = 0
      rw [hzero k (List.mem_range.1 hk)]
      rfl
    refine ⟨_, ⟨?_, fun _ => ⟨_, hload, rfl⟩⟩, fun _ =>
      ⟨(List.range 960).map fun k => byte (64 + k), by simp, ?_⟩⟩
    · intro data hdata
      cases hdata
    · rw [show (1024 : ℕ) = 64 + 960 from rfl, List.range_add, List.map_append, hzeros,
        List.map_map]
      rfl

/-- When it has been started, the demo is at work. -/
theorem OpenReading.of_started {w : World} {i : ThreadId} {s : AddrSpace} {code : List Byte}
    (hbuild : buildOpenReadShellcode openReadDemoAddr = .ok code)
    (hstarted : World.Started w i s openReadDemoAddr code) (file : Option (List UInt8)) :
    ∃ text, (∀ data, file = some data → text = CallState.shown (data.take 64)) ∧
      (file = none → ∃ rest, rest.length = 960 ∧
        text = CallState.shown (List.replicate 64 0 ++ rest)) ∧
      ∀ r : Running, r.world = w → r.core.rip = openReadDemoAddr →
        OpenReading openReadDemoAddr file text [] .opens r.core (r.view i s.l4) := by
  rw [buildOpenReadShellcode_eq (by decide)] at hbuild
  obtain rfl := Except.ok.inj hbuild
  have hend : openReadDemoAddr.toNat + (assemble (pieces 0x80 (openReadProgram openReadDemoAddr)) ++
      openReadDemoPath ++ List.replicate 64 0).length ≤ 0x10000000000000000 := by
    rw [List.length_append, length_openReadText, List.length_replicate]
    decide
  let r₀ : Running := ⟨w, ⟨fun _ => 0, 0, false⟩, InputQueue.new, []⟩
  have hread : ∀ k < 4096, ((r₀.view i s.l4).byte (openReadDemoAddr.toNat + k)).isSome = true :=
    fun k hk => seenByte_isSome.2 (mayStore_iff.1 (hstarted.writable k hk)).read
  have hzero : ∀ k < 64,
      (r₀.view i s.l4).byte (openReadDemoAddr.toNat + 123 + k) = some 0 := by
    intro k hk
    rw [add_assoc]
    refine hstarted.code (123 + k) 0 ?_
    rw [List.getElem?_append_right (by rw [length_openReadText]; omega), length_openReadText,
      Nat.add_sub_cancel_left, List.getElem?_replicate, if_pos hk]
  obtain ⟨text, hshows, hmissing⟩ := exists_shows (by decide) hread hzero file
  refine ⟨text, hshows.1, hmissing, fun r hr hrip => ⟨hrip, ?_, ?_, rfl, ?_, ?_⟩⟩
  · exact (codeAt_append.1 (hstarted.codeAt hend hr)).1
  · subst hr
    intro k hk
    rw [add_assoc]
    exact hstarted.writable (123 + k) (by omega)
  · subst hr
    exact hshows
  · subst hr
    intro slot
    show (Kernel.filesOf r.world.sched i).bind _ = none
    rw [hstarted.files]
    rfl

/-- **The open/read demo prints the beginning of its file.**  In any system that has been reached,
with a disk from which `HELLO.TXT` can be read or on which it is missing, with any of the amounts of
room on the heap: if `spawn_open_read_demo` returns, there is a new thread with a space of its own;
and from where `run_open_read_demo` enters ring 3, whatever else happens in the system
(`Running.Step`), the program has printed nothing or the first 64 bytes of the file, as one text.
Whenever its thread runs, it can go on, print them and exit.

Without the file it prints 64 zeros and 960 bytes that were in the frame of its page before. -/
theorem open_read_demo_prints (env : SpawnEnv) {mapTo : MapTo BootInfoFrameAllocator}
    {map : MemoryMap} {cr3 : PhysFrame} {m₀ : Machine BootInfoFrameAllocator} {w : World}
    {stackBase : ℕ} {entry : Entry} {pid : Option Pid} {system : System BootInfoFrameAllocator}
    {file : Option (List UInt8)} (hmap : MapTo.Documented bootInfo mapTo)
    (hboot : Booted map cr3 m₀) (hk : World.KernelOnly env.off m₀.mem cr3)
    (hreach : Runs.Reach (World.Event.step mapTo cr3 env.off) (World.Admitted cr3 env.off m₀)
      (World.start cr3 m₀) w)
    (hblock : HeapBlock stackBase) (hoff : env.off ≠ 234) {rooms : Set ℕ} (hrooms : rooms.Nonempty)
    (hfile : ∀ room ∈ rooms, Fs.readFile room env.disk env.rounds helloTxt = some (.ok file))
    (hspawn : w.toSystem.spawnOpenReadDemo bootInfo mapTo cr3 env.off stackBase entry true =
      .ok (pid, system)) :
    ∃ i s text, ({ w with toSystem := system } : World).space (.thread i) = some s ∧
      (∀ data, file = some data → text = CallState.shown (data.take 64)) ∧
      (file = none → ∃ rest, rest.length = 960 ∧
        text = CallState.shown (List.replicate 64 0 ++ rest)) ∧
      ∀ r : Running, r.world = { w with toSystem := system } → RunsDemo openReadDemoAddr r.core →
        ∀ ls r', Trace (Running.Step mapTo env rooms cr3 m₀ i s.l4) r ls r' →
          (Label.text ls = [] ∨ Label.text ls = text) ∧
          (r'.world.sched.current = i → ∃ ls' r'' c k,
            Trace (Running.Step mapTo env rooms cr3 m₀ i s.l4) r' ls' r'' ∧ Label.keys ls' = [] ∧
            Label.text (ls ++ ls') = text ∧ Interrupts (r''.view i s.l4).fetch 0x80 r''.core c ∧
            r''.dispatch mapTo env s.l4 c = some (.ok (.exits k)) ∧ k.printed = r''.printed) := by
  have hguarded := World.guarded_of_events hmap hboot hk hreach
  obtain ⟨code, i, s, hbuild, -, hreach', hstarted⟩ := hguarded.started hmap hboot hk hblock
    (demoPage_openReadDemoAddr hoff) (fun code hbuild => by
      rw [buildOpenReadShellcode_eq (by decide)] at hbuild
      obtain rfl := Except.ok.inj hbuild
      rw [List.length_append, length_openReadText, List.length_replicate]
      decide) hspawn
  obtain ⟨text, hfound, hmissing, hstart⟩ := OpenReading.of_started hbuild hstarted file
  refine ⟨i, s, text, hstarted.space, hfound, hmissing, fun r hr hruns ls r' htrace => ?_⟩
  have hhosted : r.Hosted mapTo env rooms map cr3 m₀ i s :=
    hstarted.hosted env rooms hmap hboot hk (hreach.trans hreach') hr
  obtain ⟨hsound, htrace'⟩ := hhosted.sound.trace hmap hboot hk htrace
  have hreads : ∀ readFile ∈ env.reads rooms, readFile helloTxt = some (.ok file) := by
    rintro _ ⟨room, hroom, rfl⟩
    exact hfile room hroom
  obtain ⟨p, hworking⟩ := (hstart r hr hruns.1).of_trace (by decide) hreads htrace'
  refine ⟨hworking.printed_eq, fun hrun => ?_⟩
  obtain ⟨ls', c', v', hmore, hkeys, hend⟩ :=
    hworking.exists_trace (by decide) hreads (env.reads_nonempty hrooms)
  obtain ⟨r'', hmore', halone, hrun''⟩ := hsound.exists_trace hmap hboot hk hrun hmore
  obtain ⟨hcore, hview⟩ := Prod.ext_iff.1 halone
  have hready : [] ++ Label.text ls ++ Label.text ls' = text := hend.ready
  rw [← show r''.core = c' from hcore, ← show r''.view i s.l4 = v' from hview] at hend
  obtain ⟨c, hint, hown, hcall⟩ := hend.exists_exit
    (Fs.readFile env.heapRoom env.disk env.rounds)
  have hagrees := (hsound.trace hmap hboot hk hmore').1.agrees mapTo env hboot hk hrun'' hown
  rw [hcall] at hagrees
  obtain ⟨k, hdispatch, hleaves⟩ := hagrees.exists_exits
  refine ⟨ls', r'', c, k, hmore', hkeys, ?_, hint, hdispatch, ?_⟩
  · rw [Label.text_append]
    exact hready
  · rw [hleaves.printed]
    exact List.append_nil _

/-- The disk with the file `HELLO.TXT`, which holds the bytes 0, 1 and 2. -/
def helloDisk : Disk
  | 2 => fun i =>
    if i.val < 11 then "HELLO   TXT".toUTF8.toList.getD i.val 0 else Fs.oneFile 0 3 2 i
  | n => Fs.oneFile 0 3 n

theorem readFile_helloDisk {room : ℕ} (h : room = 0x300000 ∨ room = 0x400000) :
    Fs.readFile room helloDisk 1 helloTxt = some (.ok (some [0, 1, 2])) := by
  have hread : (Fs.readFile room helloDisk 1 helloTxt).map (·.toOption) =
      some (some (some [0, 1, 2])) := by
    rcases h with rfl | rfl
    · decide +kernel
    · decide +kernel
  obtain ⟨x, hx, hread⟩ := Option.map_eq_some_iff.1 hread
  rw [hx, eq_ok_of_toOption hread]

/-- It is started right after boot and switched to, and prints its file. -/
theorem open_read_demo_prints_start : ∃ (m₀ : Machine BootInfoFrameAllocator) (pid : Option Pid)
    (system : System BootInfoFrameAllocator) (i : ThreadId) (s : AddrSpace) (r r' : Running)
    (ls : List Label),
    (World.start 1 m₀).toSystem.spawnOpenReadDemo bootInfo (documentedMapTo bootInfo) 1 3
      0x444444530000 (.function 0) true = .ok (pid, system) ∧
    r.world = { World.start 1 m₀ with toSystem := system } ∧ RunsDemo openReadDemoAddr r.core ∧
    Trace (Running.Step (documentedMapTo bootInfo) { shellEnv with disk := helloDisk }
      {0x300000, 0x400000} 1 m₀ i s.l4) r ls r' ∧ Label.text ls = [0, 1, 2] := by
  have hmap : MapTo.Documented bootInfo (documentedMapTo bootInfo) := fun _ _ _ _ _ _ => rfl
  have hblock : HeapBlock 0x444444530000 := ⟨by decide, by decide, by decide⟩
  obtain ⟨m₀, hboot, hk, hsup⟩ := World.exists_booted_kernelOnly (n := 53) (by decide)
  have hguard : World.Guarded 1 3 m₀ (World.start 1 m₀) := World.guarded_start hboot
  have hbuild : buildOpenReadShellcode openReadDemoAddr = .ok _ :=
    buildOpenReadShellcode_eq (by decide)
  obtain ⟨pid, system, hspawn⟩ := hguard.books.exists_spawnDemo hmap hboot _ hblock rfl
    (demoPage_openReadDemoAddr (by decide)) (by decide) (.function 0) (fun t => ⟨_, rfl⟩) hsup
  rw [← hbuild] at hspawn
  obtain ⟨i, s, text, hspace, hfound, -, hprints⟩ := open_read_demo_prints
    { shellEnv with disk := helloDisk } hmap hboot hk .refl hblock (by decide)
    (Set.insert_nonempty _ _) (fun room hroom => readFile_helloDisk hroom) hspawn
  obtain ⟨rfl, hnot, w, -, hswitch, hrun, -⟩ := World.exists_switched hspawn hspace
  let r : Running := ⟨{ World.start 1 m₀ with toSystem := system },
    ⟨fun n => if n = rsp then openReadDemoAddr + 4096 - 16 else 0, openReadDemoAddr, false⟩,
    InputQueue.new, []⟩
  have hother : Running.Step (documentedMapTo bootInfo) { shellEnv with disk := helloDisk }
      {0x300000, 0x400000} 1 m₀ 1 s.l4 r none { r with world := w } :=
    .other (e := .kernel (.schedule 0)) [] ⟨trivial, trivial⟩ hnot hswitch
  have hruns : RunsDemo openReadDemoAddr r.core := ⟨rfl, rfl, rfl, rfl⟩
  have htrace := Trace.refl.tail hother
  obtain ⟨ls', r'', c, k, hmore, -, htext, -⟩ := (hprints r rfl hruns _ _ htrace).2 hrun
  rw [hfound _ rfl] at htext
  exact ⟨m₀, pid, system, 1, s, r, r'', _, hspawn, rfl, hruns, htrace.trans hmore, htext⟩
