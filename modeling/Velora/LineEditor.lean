/-
# What the shell's read loop computes

A reference line editor, and the proof that the shell is one.

`Editor` knows lines as lists of bytes: typing, erasing, recalling earlier lines, and
submitting a line as a command.  `Editor.feed` is the editor behind a decoder of escape
sequences, byte by byte.  `Holds` relates the registers and buffers of the shell to an
editor, and every step of the shell is one of the editor behind the decoder
(`Holds.feed`); what the decoder does with the bytes of one key is a computation
(`decode_bytes`).
-/
import Velora.Keyboard
import Velora.Shell

/-- The reference editor. -/
structure Editor where
  line : List UInt8
  /-- Submitted lines, newest first. -/
  history : List (List UInt8)
  /-- How many lines back the user is browsing. -/
  browsing : ℕ
  /-- The commands issued: path and arguments. -/
  commands : List (List UInt8 × List UInt8)
  deriving DecidableEq

namespace Editor

/-- Nothing typed yet. -/
def new : Editor where
  line := []
  history := []
  browsing := 0
  commands := []

/-- A line as a command: the bytes before the first space, and those after it. -/
def command (line : List UInt8) : List UInt8 × List UInt8 :=
  (line.takeWhile (· ≠ 0x20), (line.dropWhile (· ≠ 0x20)).tail)

/-- Enter. -/
def enter (e : Editor) : Editor :=
  if e.line = [] then { e with browsing := 0 }
  else
    { line := []
      history := (e.line :: e.history).take historyCapacity
      browsing := 0
      commands := e.commands ++ [command e.line] }

/-- A character. -/
def type (e : Editor) (byte : UInt8) : Editor :=
  if byte = 0x08 then { e with line := e.line.dropLast }
  else if byte = 0x0A ∨ byte = 0x0D then e.enter
  else if e.line.length < lineBufSize then { e with line := e.line ++ [byte] }
  else e

/-- Up: the next older line, if there is one. -/
def older (e : Editor) : Editor :=
  match e.history[e.browsing]? with
  | some line => { e with line := line, browsing := e.browsing + 1 }
  | none => e

/-- Down: the next newer line, or an empty one after the newest. -/
def newer (e : Editor) : Editor :=
  match e.browsing with
  | 0 => e
  | 1 => { e with line := [], browsing := 0 }
  | n + 2 => { e with line := e.history[n]?.getD [], browsing := n + 1 }

/-- A key. -/
def press (e : Editor) : DecodedKey → Editor
  | .unicode c => if c.toNat < 128 then e.type (UInt8.ofNat c.toNat) else e
  | .rawKey .arrowUp => e.older
  | .rawKey .arrowDown => e.newer
  | .rawKey _ => e

/-- The editor behind the decoder of escape sequences. -/
def feed (e : Editor) (p : ShellPoint) (byte : UInt8) : ShellPoint × Editor :=
  match p with
  | .readChar => if byte = 0x1B then (.escape, e) else (.readChar, e.type byte)
  | .escape => if byte = 0x5B then (.csi, e) else (.readChar, e)
  | .csi =>
    if byte = 0x41 then (.readChar, e.older)
    else if byte = 0x42 then (.readChar, e.newer)
    else if byte = 0x43 ∨ byte = 0x44 ∨ byte = 0x7E then (.readChar, e)
    else (.drain, e)
  | .drain => if byte = 0x7E then (.readChar, e) else (.drain, e)

/-- The same for a stream of bytes. -/
def decode (s : ShellPoint × Editor) (bytes : List UInt8) : ShellPoint × Editor :=
  bytes.foldl (fun s byte => s.2.feed s.1 byte) s

@[simp] theorem decode_nil (s : ShellPoint × Editor) : decode s [] = s := rfl

@[simp] theorem decode_cons (s : ShellPoint × Editor) (byte : UInt8) (bytes : List UInt8) :
    decode s (byte :: bytes) = decode (s.2.feed s.1 byte) bytes := rfl

/-- Bytes that follow bytes are read from where those end. -/
theorem decode_append (s : ShellPoint × Editor) (bytes bytes' : List UInt8) :
    decode s (bytes ++ bytes') = decode (decode s bytes) bytes' :=
  List.foldl_append

/-- **The bytes of a key are decoded as that key**, and the decoder is back at its start. -/
theorem decode_bytes (e : Editor) {k : DecodedKey} (hk : k ≠ .escape) :
    decode (.readChar, e) k.bytes = (.readChar, e.press k) := by
  cases k with
  | unicode c =>
    show decode (.readChar, e) (if c.toNat < 128 then [UInt8.ofNat c.toNat] else []) =
      (.readChar, if c.toNat < 128 then e.type (UInt8.ofNat c.toNat) else e)
    by_cases hc : c.toNat < 128
    · rw [if_pos hc, if_pos hc]
      have hbyte : UInt8.ofNat c.toNat ≠ 0x1B := by
        intro hbyte
        apply hk
        have htoNat : c.toNat = 27 := by
          have := congrArg UInt8.toNat hbyte
          rw [UInt8.toNat_ofNat'] at this
          simp at this
          omega
        rw [DecodedKey.escape]
        congr 1
        exact Char.toNat_inj.mp htoNat
      rw [decode_cons, decode_nil]
      exact if_neg hbyte
    · rw [if_neg hc, if_neg hc]
      rfl
  | rawKey key => cases key <;> rfl

/-- The editor after a sequence of keys. -/
def afterKeys (ks : List DecodedKey) : Editor := ks.foldl press new

/-- Keys other than Escape are decoded one by one. -/
theorem decode_keys {ks : List DecodedKey} (h : ∀ k ∈ ks, k ≠ .escape) (e : Editor) :
    decode (.readChar, e) (ks.flatMap DecodedKey.bytes) = (.readChar, ks.foldl press e) := by
  induction ks generalizing e with
  | nil => rfl
  | cons k ks ih =>
    rw [List.flatMap_cons, decode_append, decode_bytes e (h k List.mem_cons_self)]
    exact ih (fun k' hk' => h k' (List.mem_cons_of_mem _ hk')) (e.press k)

end Editor

/-! ## The shell is such an editor -/

namespace Shell

/-- The slot of the history that holds the line submitted `k` lines before the last one. -/
def slot (s : Shell) (k : ℕ) : ℕ := (s.historyNext + (historyCapacity - 1) - k) % historyCapacity

/-- **The shell's registers and buffers hold what the editor knows.** -/
structure Holds (s : Shell) (e : Editor) : Prop where
  line : s.line = e.line
  room : s.r12 ≤ lineBufSize
  browsing : s.r13 = e.browsing
  browsing_le : e.browsing ≤ e.history.length
  count : s.historyCount = e.history.length
  count_le : e.history.length ≤ historyCapacity
  next : s.historyNext < historyCapacity
  entry : ∀ k l, e.history[k]? = some l → l.length ≤ lineBufSize ∧
    Buffer.get s.historyLens (s.slot k) = UInt8.ofNat l.length ∧
    Buffer.slice s.historyLines (s.slot k * lineBufSize) l.length = l
  spawns : s.spawns = e.commands

/-- At the start the shell holds an empty line and no history. -/
theorem start_holds : start.Holds .new where
  line := rfl
  room := by decide
  browsing := rfl
  browsing_le := le_rfl
  count := rfl
  count_le := by decide
  next := by decide
  entry k l h := by cases h
  spawns := rfl

variable {s : Shell} {e : Editor}

theorem Holds.length (h : s.Holds e) : e.line.length = s.r12 := by
  rw [← h.line, Shell.line, Buffer.length_slice]

theorem Holds.line_eq_nil (h : s.Holds e) : e.line = [] ↔ s.r12 = 0 := by
  rw [← List.length_eq_zero_iff, h.length]

theorem Holds.goto (h : s.Holds e) (p : ShellPoint) : Holds { s with point := p } e :=
  ⟨h.line, h.room, h.browsing, h.browsing_le, h.count, h.count_le, h.next, h.entry, h.spawns⟩

/-- System calls other than `SYS_SPAWN` do not show. -/
theorem spawns_call (s : Shell) (c : Syscall) :
    (s.call c).spawns = s.spawns ++ (match c with
      | .spawn path args => [(path, args)]
      | _ => []) := by
  unfold spawns call
  rw [List.filterMap_append]
  cases c <;> rfl

theorem Holds.write (h : s.Holds e) (bytes : List UInt8) : (s.call (.write bytes)).Holds e :=
  ⟨h.line, h.room, h.browsing, h.browsing_le, h.count, h.count_le, h.next, h.entry,
    by rw [spawns_call, List.append_nil, h.spawns]⟩

theorem Holds.wait (h : s.Holds e) (pid : UInt64) : (s.call (.wait pid)).Holds e :=
  ⟨h.line, h.room, h.browsing, h.browsing_le, h.count, h.count_le, h.next, h.entry,
    by rw [spawns_call, List.append_nil, h.spawns]⟩

theorem Holds.spawn (h : s.Holds e) (path args : List UInt8) :
    (s.call (.spawn path args)).Holds { e with commands := e.commands ++ [(path, args)] } :=
  ⟨h.line, h.room, h.browsing, h.browsing_le, h.count, h.count_le, h.next, h.entry,
    by rw [spawns_call, h.spawns]⟩

/-- Writing from a buffer changes only the trace. -/
theorem writeFrom_spec (s : Shell) (b : Buffer UInt8 lineBufSize) {len : ℕ}
    (h : len ≤ lineBufSize) : ∃ trace, s.writeFrom b len = some { s with trace := trace } ∧
      ({ s with trace := trace } : Shell).spawns = s.spawns := by
  unfold writeFrom
  by_cases hlen : len = 0
  · rw [if_pos hlen]
    exact ⟨s.trace, rfl, rfl⟩
  · rw [if_neg hlen, Buffer.read_of_le b (by omega)]
    refine ⟨_, rfl, ?_⟩
    exact (spawns_call s _).trans (List.append_nil _)

/-- Redrawing only writes. -/
theorem redraw_spec (s : Shell) {r8 rcx : ℕ} (hr8 : r8 ≤ lineBufSize) (hrcx : rcx ≤ lineBufSize) :
    ∃ trace, s.redraw r8 rcx = some { s with trace := trace } ∧
      ({ s with trace := trace } : Shell).spawns = s.spawns := by
  obtain ⟨trace, herase, hspawns⟩ := writeFrom_spec s backspaceRun hr8
  obtain ⟨trace', hwrite, hspawns'⟩ := writeFrom_spec { s with trace := trace } s.lineBuf hrcx
  refine ⟨trace', ?_, hspawns'.trans hspawns⟩
  rw [redraw, herase, Option.bind_eq_bind, Option.bind_some]
  exact hwrite

/-- `prompt` starts a new line. -/
theorem Holds.prompt (h : s.Holds e) : s.prompt.Holds { e with line := [], browsing := 0 } where
  line := rfl
  room := Nat.zero_le _
  browsing := rfl
  browsing_le := Nat.zero_le _
  count := h.count
  count_le := h.count_le
  next := h.next
  entry := h.entry
  spawns := (h.write _).spawns

/-- Backspace takes back one character, if there is one. -/
theorem Holds.handleBackspace (h : s.Holds e) :
    s.handleBackspace.Holds { e with line := e.line.dropLast } := by
  unfold Shell.handleBackspace
  split_ifs with hr12
  · have hline : e.line.dropLast = e.line := by
      rw [h.line_eq_nil.mpr hr12]
      rfl
    rw [hline]
    exact h.goto .readChar
  · obtain ⟨n, hn⟩ := Nat.exists_eq_succ_of_ne_zero hr12
    refine ⟨?_, ?_, h.browsing, h.browsing_le, h.count, h.count_le, h.next, h.entry, h.spawns⟩
    · show Buffer.slice s.lineBuf 0 (s.r12 - 1) = e.line.dropLast
      rw [← h.line, Shell.line, hn, Nat.succ_eq_add_one, Buffer.slice_succ, List.dropLast_concat]
      rfl
    · have := h.room
      show s.r12 - 1 ≤ lineBufSize
      omega

theorem handleBackspace_point (s : Shell) : s.handleBackspace.point = .readChar := by
  unfold handleBackspace
  split_ifs <;> rfl

/-- A character is appended while there is room. -/
theorem Holds.append (h : s.Holds e) (hroom : s.r12 < lineBufSize) (al : UInt8) :
    ∃ b, Buffer.store s.lineBuf s.r12 al = some b ∧
      Holds { s with lineBuf := b, r12 := s.r12 + 1 } { e with line := e.line ++ [al] } := by
  obtain ⟨b, hb, hget⟩ := Buffer.store_spec s.lineBuf hroom al
  refine ⟨b, hb, ?_, hroom, h.browsing, h.browsing_le, h.count, h.count_le, h.next, h.entry,
    h.spawns⟩
  show Buffer.slice b 0 (s.r12 + 1) = e.line ++ [al]
  rw [Buffer.slice_succ, ← h.line, Shell.line, hget, if_pos (Nat.zero_add _)]
  congr 1
  refine Buffer.slice_congr (fun i hi => ?_)
  rw [hget, if_neg (by omega)]

/-! ### The history -/

/-- **`history_load_into_line`** recalls the line the user is browsing. -/
theorem Holds.historyLoadIntoLine (h : s.Holds e) {k : ℕ} {l : List UInt8}
    (hk : e.browsing = k + 1) (hl : e.history[k]? = some l) :
    ∃ s', s.historyLoadIntoLine = some s' ∧ s'.Holds { e with line := l } := by
  obtain ⟨hlen, hlens, hlines⟩ := h.entry k l hl
  have hkcap : k < historyCapacity := by
    have hle := h.browsing_le
    have hcap := h.count_le
    omega
  have hnext := h.next
  have hslot : (s.historyNext + 0x10000000000000000 - s.r13) % 0x10000000000000000 %
      historyCapacity = s.slot k := by
    rw [h.browsing, hk, slot]
    unfold historyCapacity at hkcap hnext ⊢
    omega
  have hslotlt : s.slot k < historyCapacity := Nat.mod_lt _ (by decide)
  have hrcx : (UInt8.ofNat l.length).toNat = l.length := by
    rw [UInt8.toNat_ofNat', Nat.mod_eq_of_lt (by unfold lineBufSize at hlen; omega)]
  obtain ⟨b, hcopy, hget⟩ := Buffer.copy_spec s.historyLines (s.slot k * lineBufSize) 0 (i := 0)
    (k := l.length) s.lineBuf (by unfold historyCapacity lineBufSize at *; omega) (by omega)
  have hline : Buffer.slice b 0 l.length = l := by
    refine (Buffer.slice_congr (fun i hi => ?_)).trans hlines
    rw [hget, if_pos (by omega)]
    congr 2
    omega
  obtain ⟨trace, hredraw, hspawns⟩ := redraw_spec { s with lineBuf := b } h.room hlen
  refine ⟨{ s with lineBuf := b, trace := trace, r12 := l.length }, ?_, ?_⟩
  · unfold Shell.historyLoadIntoLine
    simp only [hslot, Buffer.load_of_lt s.historyLens hslotlt, hlens, hrcx, hcopy, hredraw,
      Option.bind_eq_bind, Option.bind_some, Option.pure_def]
  · exact ⟨hline, hlen, h.browsing, h.browsing_le, h.count, h.count_le, h.next, h.entry,
      hspawns.trans h.spawns⟩

/-- Up. -/
theorem Holds.historyOlder (h : s.Holds e) :
    ∃ s', s.historyOlder = some s' ∧ s'.point = .readChar ∧ s'.Holds e.older := by
  unfold Shell.historyOlder Editor.older
  cases hl : e.history[e.browsing]? with
  | none =>
    have hlen : e.history.length ≤ e.browsing := List.getElem?_eq_none_iff.mp hl
    refine ⟨s.toReadChar, ?_, rfl, h.goto .readChar⟩
    by_cases hcount : s.historyCount = 0
    · rw [if_pos hcount]
      rfl
    · rw [if_neg hcount, if_pos (by rw [h.count, h.browsing]; exact hlen)]
      rfl
  | some l =>
    have hlen : e.browsing < e.history.length := (List.getElem?_eq_some_iff.mp hl).1
    have hstep : Holds { s with r13 := s.r13 + 1 } { e with browsing := e.browsing + 1 } :=
      ⟨h.line, h.room, by rw [h.browsing], hlen, h.count, h.count_le, h.next, h.entry, h.spawns⟩
    obtain ⟨s', hload, hs'⟩ := hstep.historyLoadIntoLine rfl hl
    refine ⟨s'.toReadChar, ?_, rfl, hs'.goto .readChar⟩
    have hcount := h.count
    have hbrowsing := h.browsing
    rw [if_neg (by omega), if_neg (by omega), Option.bind_eq_bind, hload]
    rfl

/-- Clearing the line leaves an empty one, and the history as it is. -/
theorem Holds.historyClearLine (h : s.Holds e) :
    ∃ s', s.historyClearLine = some s' ∧ s'.point = .readChar ∧ s'.Holds { e with line := [] } := by
  have hroom := h.room
  unfold Shell.historyClearLine
  by_cases hr12 : s.r12 = 0
  · rw [if_pos hr12]
    refine ⟨s.toReadChar, rfl, rfl, ?_⟩
    have hline : { e with line := [] } = e := by
      rw [← h.line_eq_nil.mpr hr12]
    rw [hline]
    exact h.goto .readChar
  · rw [if_neg hr12, Buffer.read_of_le backspaceRun (by omega)]
    exact ⟨_, rfl, rfl, rfl, Nat.zero_le _, h.browsing, h.browsing_le, h.count, h.count_le, h.next,
      h.entry, (h.write _).spawns⟩

/-- Down. -/
theorem Holds.historyNewer (h : s.Holds e) :
    ∃ s', s.historyNewer = some s' ∧ s'.point = .readChar ∧ s'.Holds e.newer := by
  have hle := h.browsing_le
  unfold Shell.historyNewer Editor.newer
  rw [h.browsing]
  have hback : Holds { s with r13 := e.browsing - 1 } { e with browsing := e.browsing - 1 } :=
    ⟨h.line, h.room, rfl, (Nat.sub_le _ _).trans hle, h.count, h.count_le, h.next, h.entry,
      h.spawns⟩
  match hb : e.browsing with
  | 0 => exact ⟨s.toReadChar, rfl, rfl, h.goto .readChar⟩
  | 1 =>
    rw [hb] at hback
    exact hback.historyClearLine
  | n + 2 =>
    rw [hb] at hback hle
    have hget : e.history[n]? = some e.history[n] := List.getElem?_eq_getElem (by omega)
    obtain ⟨s', hload, hs'⟩ := hback.historyLoadIntoLine (k := n) rfl hget
    refine ⟨s'.toReadChar, ?_, rfl, ?_⟩
    · rw [if_neg (by omega), if_neg (by simp), Option.bind_eq_bind, hload]
      rfl
    · show s'.toReadChar.Holds { e with line := e.history[n]?.getD [], browsing := n + 1 }
      rw [hget]
      exact hs'.goto .readChar

/-- **The ring**: a new line takes the slot of the oldest one, and every other line is one further
back. -/
theorem slot_push {next k : ℕ} (hnext : next < historyCapacity) (hk : k + 1 < historyCapacity) :
    ((next + 1) % historyCapacity + (historyCapacity - 1) - (k + 1)) % historyCapacity =
      (next + (historyCapacity - 1) - k) % historyCapacity ∧
    (next + (historyCapacity - 1) - k) % historyCapacity ≠ next := by
  unfold historyCapacity at hnext hk ⊢
  omega

/-- **`history_push`** makes the line the newest one of the history. -/
theorem Holds.historyPush (h : s.Holds e) :
    ∃ s', s.historyPush = some s' ∧
      s'.Holds { e with history := (e.line :: e.history).take historyCapacity } := by
  have hroom := h.room
  have hnext := h.next
  have hcount := h.count
  have hcap := h.count_le
  obtain ⟨lines, hcopy, hlines⟩ := Buffer.copy_spec s.lineBuf 0 (s.historyNext * lineBufSize)
    (i := 0) (k := s.r12) s.historyLines (by omega)
    (by unfold historyCapacity lineBufSize at *; omega)
  obtain ⟨lens, hstore, hlens⟩ := Buffer.store_spec s.historyLens hnext (UInt8.ofNat s.r12)
  have hentry : ∀ k l, ((e.line :: e.history).take historyCapacity)[k]? = some l →
      l.length ≤ lineBufSize ∧
      Buffer.get lens (((s.historyNext + 1) % historyCapacity + (historyCapacity - 1) - k) %
        historyCapacity) = UInt8.ofNat l.length ∧
      Buffer.slice lines (((s.historyNext + 1) % historyCapacity + (historyCapacity - 1) - k) %
        historyCapacity * lineBufSize) l.length = l := by
    intro k l hl
    rw [List.getElem?_take] at hl
    split_ifs at hl with hk
    cases k with
    | zero =>
      -- the slot just written
      obtain rfl : e.line = l := Option.some.inj hl
      have hslot : ((s.historyNext + 1) % historyCapacity + (historyCapacity - 1) - 0) %
          historyCapacity = s.historyNext := by
        unfold historyCapacity at hnext ⊢
        omega
      rw [hslot, h.length]
      refine ⟨hroom, by rw [hlens, if_pos rfl], ?_⟩
      rw [← h.line]
      refine Buffer.slice_congr (fun i hi => ?_)
      rw [hlines, if_pos (by omega)]
      congr 2
      omega
    | succ k =>
      -- an older line, in another slot
      obtain ⟨hslot, hne⟩ := slot_push hnext hk
      obtain ⟨hlen, hlens', hlines'⟩ := h.entry k l hl
      rw [hslot]
      refine ⟨hlen, ?_, ?_⟩
      · rw [hlens, if_neg hne]
        exact hlens'
      · refine (Buffer.slice_congr (fun i hi => ?_)).trans hlines'
        rw [hlines, if_neg ?_]
        · rfl
        · unfold lineBufSize at hlen hroom ⊢
          omega
  have hlength : ((e.line :: e.history).take historyCapacity).length =
      min historyCapacity (e.history.length + 1) := by
    rw [List.length_take, List.length_cons]
  have hbrowsing := h.browsing_le
  have hpush : s.historyPush = some (if historyCapacity ≤ s.historyCount
      then
        { s with
          historyLines := lines, historyLens := lens
          historyNext := (s.historyNext + 1) % historyCapacity }
      else
        { s with
          historyLines := lines, historyLens := lens
          historyNext := (s.historyNext + 1) % historyCapacity
          historyCount := s.historyCount + 1 }) := by
    unfold Shell.historyPush
    simp only [hcopy, hstore, Option.bind_eq_bind, Option.bind_some]
    split_ifs <;> rfl
  refine ⟨_, hpush, ?_⟩
  split_ifs with hfull
  · refine ⟨h.line, hroom, h.browsing, ?_, ?_, ?_, Nat.mod_lt _ (by decide), hentry, h.spawns⟩
    · show e.browsing ≤ ((e.line :: e.history).take historyCapacity).length
      omega
    · show s.historyCount = ((e.line :: e.history).take historyCapacity).length
      omega
    · show ((e.line :: e.history).take historyCapacity).length ≤ historyCapacity
      omega
  · refine ⟨h.line, hroom, h.browsing, ?_, ?_, ?_, Nat.mod_lt _ (by decide), hentry, h.spawns⟩
    · show e.browsing ≤ ((e.line :: e.history).take historyCapacity).length
      omega
    · show s.historyCount + 1 = ((e.line :: e.history).take historyCapacity).length
      omega
    · show ((e.line :: e.history).take historyCapacity).length ≤ historyCapacity
      omega

/-! ### Submitting a line -/

/-- The scan stops at the first space, or at the end of the line. -/
theorem findSpace_eq (s : Shell) {rax k : ℕ} (h : rax + k ≤ lineBufSize) :
    s.findSpace rax k =
      some (rax + ((Buffer.slice s.lineBuf rax k).takeWhile (· ≠ 0x20)).length) := by
  induction k generalizing rax with
  | zero => rfl
  | succ k ih =>
    rw [findSpace, Buffer.load_of_lt _ (by omega), Buffer.slice_cons, Option.bind_eq_bind,
      Option.bind_some]
    by_cases hspace : Buffer.get s.lineBuf rax = 0x20
    · rw [if_pos hspace, List.takeWhile_cons_of_neg (by simp [hspace])]
      rfl
    · rw [if_neg hspace, ih (by omega), List.takeWhile_cons_of_pos (by simp [hspace]),
        List.length_cons]
      congr 1
      omega

/-- The pointers and lengths of `SYS_SPAWN` describe the line as a command. -/
theorem command_eq (s : Shell) {r14 : ℕ}
    (hr14 : r14 = (s.line.takeWhile (· ≠ 0x20)).length) :
    (Buffer.slice s.lineBuf 0 r14,
      if s.r12 ≤ r14 then [] else Buffer.slice s.lineBuf (r14 + 1) (s.r12 - r14 - 1)) =
      Editor.command s.line := by
  have hsplit := List.takeWhile_append_dropWhile (p := fun b : UInt8 => decide (b ≠ 0x20))
    (l := s.line)
  have hle : r14 ≤ s.r12 := by
    have hlen := congrArg List.length hsplit
    rw [List.length_append, line, Buffer.length_slice] at hlen
    rw [line] at hr14
    omega
  have hcut : s.line =
      Buffer.slice s.lineBuf 0 r14 ++ Buffer.slice s.lineBuf r14 (s.r12 - r14) := by
    have hadd := Buffer.slice_add s.lineBuf 0 r14 (s.r12 - r14)
    rw [Nat.add_sub_cancel' hle, Nat.zero_add] at hadd
    exact hadd
  obtain ⟨hpath, hrest⟩ := List.append_inj (hsplit.trans hcut) (by rw [← hr14, Buffer.length_slice])
  unfold Editor.command
  rw [hpath, hrest]
  congr 1
  by_cases hend : s.r12 ≤ r14
  · rw [if_pos hend, Nat.sub_eq_zero_of_le hend]
    rfl
  · obtain ⟨n, hn⟩ : ∃ n, s.r12 - r14 = n + 1 := ⟨s.r12 - r14 - 1, by omega⟩
    rw [if_neg hend, hn, Buffer.slice_cons]
    rfl

/-- Enter. -/
theorem Holds.handleNewline (h : s.Holds e) (pid : UInt64) :
    ∃ s', s.handleNewline pid = some s' ∧ s'.point = .readChar ∧ s'.Holds e.enter := by
  unfold Shell.handleNewline Editor.enter
  by_cases hr12 : s.r12 = 0
  · rw [if_pos hr12, if_pos (h.line_eq_nil.mpr hr12)]
    refine ⟨s.prompt, rfl, rfl, ?_⟩
    have hline : { e with line := [], browsing := 0 } = { e with browsing := 0 } := by
      rw [← h.line_eq_nil.mpr hr12]
    rw [← hline]
    exact h.prompt
  · rw [if_neg hr12, if_neg (fun hl => hr12 (h.line_eq_nil.mp hl))]
    obtain ⟨s₁, hpush, hs₁⟩ := h.historyPush
    obtain ⟨r14, hfind, hr14⟩ : ∃ r14, s₁.findSpace 0 s₁.r12 = some r14 ∧
        r14 = (s₁.line.takeWhile (· ≠ 0x20)).length :=
      ⟨_, findSpace_eq s₁ (by rw [Nat.zero_add]; exact hs₁.room), Nat.zero_add _⟩
    have hspawn := hs₁.spawn (Buffer.slice s₁.lineBuf 0 r14)
      (if s₁.r12 ≤ r14 then [] else Buffer.slice s₁.lineBuf (r14 + 1) (s₁.r12 - r14 - 1))
    rw [command_eq s₁ hr14, hs₁.line] at hspawn
    have hle : r14 ≤ s₁.r12 := by
      rw [hr14, ← Buffer.length_slice s₁.lineBuf 0 s₁.r12]
      exact (List.takeWhile_prefix _).length_le
    have hroom := hs₁.room
    have hargs : s₁.spawnArgs r14 = some (if s₁.r12 ≤ r14 then []
        else Buffer.slice s₁.lineBuf (r14 + 1) (s₁.r12 - r14 - 1)) := by
      unfold Shell.spawnArgs
      by_cases hend : s₁.r12 ≤ r14
      · rw [if_pos hend, if_pos hend]
      · rw [if_neg hend, if_neg hend, Buffer.read_of_le _ (by omega)]
    rw [hpush, Option.bind_eq_bind, Option.bind_some, hfind, Option.bind_eq_bind, Option.bind_some,
      Buffer.read_of_le _ (by omega), Option.bind_eq_bind, Option.bind_some, hargs,
      Option.bind_some]
    by_cases hpid : pid = 0xFFFFFFFFFFFFFFFF
    · rw [if_pos hpid]
      exact ⟨_, rfl, rfl, (hspawn.write failStr).prompt⟩
    · rw [if_neg hpid]
      exact ⟨_, rfl, rfl, (hspawn.wait pid).prompt⟩

/-- **One byte.**  The shell is the editor behind the decoder, and stays in its buffers. -/
theorem Holds.feed (h : s.Holds e) (al : UInt8) (pid : UInt64) :
    ∃ s', s.feed al pid = some s' ∧ s'.point = (e.feed s.point al).1 ∧
      s'.Holds (e.feed s.point al).2 := by
  unfold Shell.feed Editor.feed
  cases s.point with
  | readChar =>
    show ∃ s', s.readChar al pid = some s' ∧ _
    unfold Shell.readChar
    by_cases hesc : al = 0x1B
    · rw [if_pos hesc, if_pos hesc]
      exact ⟨_, rfl, rfl, h.goto .escape⟩
    rw [if_neg hesc, if_neg hesc]
    unfold Editor.type
    by_cases hbs : al = 0x08
    · rw [if_pos hbs, if_pos hbs]
      exact ⟨_, rfl, handleBackspace_point s, h.handleBackspace⟩
    rw [if_neg hbs, if_neg hbs]
    by_cases hlf : al = 0x0A
    · rw [if_pos hlf, if_pos (Or.inl hlf)]
      exact h.handleNewline pid
    by_cases hcr : al = 0x0D
    · rw [if_neg hlf, if_pos hcr, if_pos (Or.inr hcr)]
      exact h.handleNewline pid
    rw [if_neg hlf, if_neg hcr, if_neg (not_or.mpr ⟨hlf, hcr⟩), h.length]
    by_cases hfull : lineBufSize ≤ s.r12
    · rw [if_pos hfull, if_neg (by omega)]
      exact ⟨_, rfl, rfl, h.goto .readChar⟩
    · obtain ⟨b, hb, hs'⟩ := h.append (by omega) al
      rw [if_neg hfull, if_pos (by omega), hb]
      exact ⟨_, rfl, rfl, hs'.goto .readChar⟩
  | escape =>
    show ∃ s', some (s.handleEscape al) = some s' ∧ _
    unfold Shell.handleEscape
    by_cases hal : al = 0x5B
    · rw [if_neg (not_not.mpr hal), if_pos hal]
      exact ⟨_, rfl, rfl, h.goto .csi⟩
    · rw [if_pos hal, if_neg hal]
      exact ⟨_, rfl, rfl, h.goto .readChar⟩
  | csi =>
    show ∃ s', s.handleCsi al = some s' ∧ _
    unfold Shell.handleCsi Shell.drainCsi
    by_cases hup : al = 0x41
    · rw [if_pos hup, if_pos hup]
      exact h.historyOlder
    rw [if_neg hup, if_neg hup]
    by_cases hdown : al = 0x42
    · rw [if_pos hdown, if_pos hdown]
      exact h.historyNewer
    rw [if_neg hdown, if_neg hdown]
    by_cases hend : al = 0x43 ∨ al = 0x44 ∨ al = 0x7E
    · rw [if_pos hend]
      refine ⟨s.toReadChar, ?_, rfl, h.goto .readChar⟩
      rcases hend with rfl | rfl | rfl <;> rfl
    · rw [if_neg hend]
      simp only [not_or] at hend
      rw [if_neg hend.1, if_neg hend.2.1, if_neg hend.2.2]
      exact ⟨_, rfl, rfl, h.goto .drain⟩
  | drain =>
    show ∃ s', some (s.drainCsi al) = some s' ∧ _
    unfold Shell.drainCsi
    by_cases hal : al = 0x7E
    · rw [if_pos hal, if_pos hal]
      exact ⟨_, rfl, rfl, h.goto .readChar⟩
    · rw [if_neg hal, if_neg hal]
      exact ⟨_, rfl, rfl, h.goto .drain⟩

end Shell
