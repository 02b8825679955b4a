/-
# From key events to input bytes

What `print_keypresses` (task/keyboard.rs) feeds to `sys_read` for each decoded key,
and the `InputQueue` the bytes go through.
-/
import Velora.RingBuffer

/-- `KeyCode`, as far as the source names its members. -/
inductive KeyCode
  | lShift | rShift | lControl | rControl | capsLock | numpadLock | rAltGr | rControl2
  | arrowUp | arrowDown | arrowRight | arrowLeft | home | insert | endKey | pageUp | pageDown
  | f1 | f2 | f3 | f4 | f5 | f6 | f7 | f8 | f9 | f10 | f11 | f12
  /-- The rest: Alt, Win, media keys, ... -/
  | other (code : ℕ)
  deriving DecidableEq

/-- `DecodedKey` -/
inductive DecodedKey
  | unicode (character : Char)
  | rawKey (key : KeyCode)
  deriving DecidableEq

/-- `ansi_escape_sequence` -/
def ansiEscapeSequence : KeyCode → Option (List UInt8)
  | .arrowUp => some [0x1b, 0x5b, 0x41]
  | .arrowDown => some [0x1b, 0x5b, 0x42]
  | .arrowRight => some [0x1b, 0x5b, 0x43]
  | .arrowLeft => some [0x1b, 0x5b, 0x44]
  | .home => some [0x1b, 0x5b, 0x31, 0x7e]
  | .insert => some [0x1b, 0x5b, 0x32, 0x7e]
  | .endKey => some [0x1b, 0x5b, 0x34, 0x7e]
  | .pageUp => some [0x1b, 0x5b, 0x35, 0x7e]
  | .pageDown => some [0x1b, 0x5b, 0x36, 0x7e]
  | .f1 => some [0x1b, 0x5b, 0x31, 0x31, 0x7e]
  | .f2 => some [0x1b, 0x5b, 0x31, 0x32, 0x7e]
  | .f3 => some [0x1b, 0x5b, 0x31, 0x33, 0x7e]
  | .f4 => some [0x1b, 0x5b, 0x31, 0x34, 0x7e]
  | .f5 => some [0x1b, 0x5b, 0x31, 0x35, 0x7e]
  | .f6 => some [0x1b, 0x5b, 0x31, 0x37, 0x7e]
  | .f7 => some [0x1b, 0x5b, 0x31, 0x38, 0x7e]
  | .f8 => some [0x1b, 0x5b, 0x31, 0x39, 0x7e]
  | .f9 => some [0x1b, 0x5b, 0x32, 0x30, 0x7e]
  | .f10 => some [0x1b, 0x5b, 0x32, 0x31, 0x7e]
  | .f11 => some [0x1b, 0x5b, 0x32, 0x33, 0x7e]
  | .f12 => some [0x1b, 0x5b, 0x32, 0x34, 0x7e]
  | _ => none

namespace DecodedKey

/-- The Escape key; the layout decodes it to a character. -/
def escape : DecodedKey := .unicode '\x1b'

/-- The bytes `print_keypresses` pushes for a key: an ASCII character as itself, nothing for a
modifier, the escape sequence of any other raw key that has one. -/
def bytes : DecodedKey → List UInt8
  | .unicode character =>
    if character.toNat < 128 then [UInt8.ofNat character.toNat] else []
  | .rawKey .lShift | .rawKey .rShift | .rawKey .lControl | .rawKey .rControl
  | .rawKey .capsLock | .rawKey .numpadLock | .rawKey .rAltGr | .rawKey .rControl2 => []
  | .rawKey key => (ansiEscapeSequence key).getD []

end DecodedKey

/-- `INPUT_QUEUE_CAPACITY` -/
abbrev inputQueueCapacity : ℕ := 128

/-- `InputQueue` -/
abbrev InputQueue := RingBuffer UInt8 inputQueueCapacity

namespace InputQueue

/-- `InputQueue::new` -/
def new : InputQueue where
  buf := fun _ => 0
  head := 0
  len := 0
  head_lt := by decide
  len_le := by decide

/-- `InputQueue::push`: a full queue drops the byte. -/
def push (q : InputQueue) (byte : UInt8) : InputQueue :=
  if h : q.len < inputQueueCapacity then RingBuffer.push q byte h else q

/-- `InputQueue::pop` -/
def pop (q : InputQueue) : Option (UInt8 × InputQueue) :=
  if q.len = 0 then none else some (q.front, RingBuffer.pop q)

theorem toList_push {q : InputQueue} (h : q.len < inputQueueCapacity) (byte : UInt8) :
    (push q byte).toList = q.toList ++ [byte] := by
  rw [push, dif_pos h]
  exact RingBuffer.toList_push q byte h

theorem pop_eq_some {q q' : InputQueue} {byte : UInt8} (h : pop q = some (byte, q')) :
    q.toList = byte :: q'.toList := by
  unfold pop at h
  split_ifs at h with hlen
  cases h
  exact q.toList_eq_cons_pop hlen

end InputQueue
