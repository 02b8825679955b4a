/-
# The input queue is a bounded FIFO that drops the newest byte

`InputQueue` (task/keyboard.rs) once more, at the level of its array.  Here nothing is
known of `head` and `len`: every index is checked, every `+` and `-` may overflow, and
`push` and `pop` can panic.  `ofRing` embeds the rings of `Velora.Keyboard`, whose bounds
are fields; the operations agree with theirs and never panic on such a queue
(`push_ofRing`, `pop_ofRing`), so what a run does is read off the FIFO lists of the rings.
-/
import Velora.Keyboard
import Velora.Runs
import Velora.VirtAddr

/-- The fields of `InputQueue`, with any values. -/
structure RawInputQueue where
  bytes : Fin inputQueueCapacity → UInt8
  head : ℕ
  len : ℕ

namespace RawInputQueue

/-- `bytes[index]` -/
def read (q : RawInputQueue) (index : ℕ) : Except Panic UInt8 :=
  if h : index < inputQueueCapacity then .ok (q.bytes ⟨index, h⟩) else .error .indexOutOfBounds

/-- `bytes[index] = byte` -/
def write (q : RawInputQueue) (index : ℕ) (byte : UInt8) : Except Panic RawInputQueue :=
  if h : index < inputQueueCapacity then
    .ok { q with bytes := Function.update q.bytes ⟨index, h⟩ byte }
  else .error .indexOutOfBounds

/-- `InputQueue::new` -/
def new : RawInputQueue := ⟨fun _ => 0, 0, 0⟩

/-- `InputQueue::push` -/
def push (q : RawInputQueue) (byte : UInt8) : Except Panic RawInputQueue :=
  if q.len = inputQueueCapacity then .ok q
  else do
    let sum ← (checkedAdd q.head q.len).expect .arithmeticOverflow
    let q' ← q.write (sum % inputQueueCapacity) byte
    let len ← (checkedAdd q'.len 1).expect .arithmeticOverflow
    .ok { q' with len := len }

/-- `InputQueue::pop` -/
def pop (q : RawInputQueue) : Except Panic (Option UInt8 × RawInputQueue) :=
  if q.len = 0 then .ok (none, q)
  else do
    let byte ← q.read q.head
    let next ← (checkedAdd q.head 1).expect .arithmeticOverflow
    let len ← (checkedSub q.len 1).expect .arithmeticOverflow
    .ok (some byte, { q with head := next % inputQueueCapacity, len := len })

/-- The cell of the `k`-th unread byte. -/
def cell (q : RawInputQueue) (k : ℕ) : Fin inputQueueCapacity :=
  ⟨(q.head + k) % inputQueueCapacity, Nat.mod_lt _ (by decide)⟩

/-- The unread bytes, oldest first. -/
def unread (q : RawInputQueue) : List UInt8 :=
  (List.range q.len).map (fun k => q.bytes (q.cell k))

/-! ## Queues within their bounds -/

/-- The queue of a ring. -/
def ofRing (r : InputQueue) : RawInputQueue := ⟨r.buf, r.head, r.len⟩

theorem unread_ofRing (r : InputQueue) : (ofRing r).unread = r.toList := rfl

theorem push_ofRing (r : InputQueue) (byte : UInt8) :
    (ofRing r).push byte = .ok (ofRing (InputQueue.push r byte)) := by
  have hhead : r.head < 128 := r.head_lt
  have hlen : r.len ≤ 128 := r.len_le
  unfold push InputQueue.push
  by_cases hfull : r.len = inputQueueCapacity
  · rw [if_pos (show (ofRing r).len = _ from hfull), dif_neg (by omega)]
  · have hroom : r.len < inputQueueCapacity := lt_of_le_of_ne r.len_le hfull
    have hsum : checkedAdd r.head r.len = some (r.head + r.len) :=
      checkedAdd_eq_some.mpr ⟨by omega, rfl⟩
    have hnext : checkedAdd r.len 1 = some (r.len + 1) := checkedAdd_eq_some.mpr ⟨by omega, rfl⟩
    have hindex : (r.head + r.len) % inputQueueCapacity < inputQueueCapacity :=
      Nat.mod_lt _ (by decide)
    rw [if_neg (show (ofRing r).len ≠ _ from hfull), dif_pos hroom]
    simp only [ofRing, hsum, Option.expect_some, write, hindex, dif_pos, hnext, bind, Except.bind]
    rfl

theorem pop_ofRing_of_empty {r : InputQueue} (hempty : r.len = 0) :
    (ofRing r).pop = .ok (none, ofRing r) := by
  rw [pop, if_pos (show (ofRing r).len = 0 from hempty)]

theorem pop_ofRing {r : InputQueue} (hlen : r.len ≠ 0) :
    (ofRing r).pop = .ok (some r.front, ofRing (RingBuffer.pop r)) := by
  have hhead : r.head < 128 := r.head_lt
  have hread : (ofRing r).read r.head = .ok r.front := dif_pos r.head_lt
  have hnext : checkedAdd r.head 1 = some (r.head + 1) :=
    checkedAdd_eq_some.mpr ⟨by omega, rfl⟩
  have hsub : checkedSub r.len 1 = some (r.len - 1) := checkedSub_eq_some.mpr ⟨by omega, rfl⟩
  rw [pop, if_neg (show (ofRing r).len ≠ 0 from hlen)]
  show ((ofRing r).read r.head >>= fun byte => _) = _
  rw [hread]
  simp only [ofRing, hnext, hsub, Option.expect_some, bind, Except.bind]
  rfl

/-! ## Runs -/

/-- The calls. -/
inductive Call
  | push (byte : UInt8)
  | pop
  deriving DecidableEq

/-- A queue in use, with every byte that has come out of it. -/
structure Session where
  queue : RawInputQueue
  popped : List UInt8

/-- One call. -/
def Session.step (s : Session) : Call → Except Panic Session
  | .push byte => do
    let queue ← s.queue.push byte
    .ok { s with queue := queue }
  | .pop => do
    let (byte, queue) ← s.queue.pop
    .ok ⟨queue, s.popped ++ byte.toList⟩

/-- The pushed bytes, in order, without those pushed while the capacity is used up; the number
counts the unread bytes. -/
def accepted : ℕ → List Call → List UInt8
  | _, [] => []
  | count, .push byte :: calls =>
    if count = inputQueueCapacity then accepted count calls
    else byte :: accepted (count + 1) calls
  | count, .pop :: calls => accepted (count - 1) calls

theorem push_of_full {r : InputQueue} (hfull : r.len = inputQueueCapacity) (byte : UInt8) :
    InputQueue.push r byte = r := by
  rw [InputQueue.push, dif_neg (by omega)]

/-- A run from a queue within its bounds stays there, and what has come out and what is unread
make up what was accepted. -/
theorem run_ofRing (calls : List Call) (r : InputQueue) (popped : List UInt8) :
    ∃ (r' : InputQueue) (popped' : List UInt8),
      Runs.run Session.step ⟨ofRing r, popped⟩ calls = .ok ⟨ofRing r', popped'⟩ ∧
      popped' ++ r'.toList = popped ++ r.toList ++ accepted r.len calls := by
  induction calls generalizing r popped with
  | nil => exact ⟨r, popped, rfl, (List.append_nil _).symm⟩
  | cons call calls ih =>
    cases call with
    | push byte =>
      have hstep : Session.step ⟨ofRing r, popped⟩ (.push byte) =
          .ok ⟨ofRing (InputQueue.push r byte), popped⟩ := by
        simp only [Session.step, push_ofRing, bind, Except.bind]
      obtain ⟨r', popped', hrun, hbytes⟩ := ih (InputQueue.push r byte) popped
      refine ⟨r', popped', by rw [Runs.run, hstep]; exact hrun, ?_⟩
      by_cases hfull : r.len = inputQueueCapacity
      · rw [push_of_full hfull] at hbytes
        rw [hbytes, accepted, if_pos hfull]
      · have hroom : r.len < inputQueueCapacity := lt_of_le_of_ne r.len_le hfull
        have hlen : (InputQueue.push r byte).len = r.len + 1 := by
          rw [InputQueue.push, dif_pos hroom]
          rfl
        rw [hbytes, InputQueue.toList_push hroom, hlen, accepted, if_neg hfull]
        simp only [List.append_assoc, List.singleton_append]
    | pop =>
      by_cases hempty : r.len = 0
      · have hstep : Session.step ⟨ofRing r, popped⟩ .pop = .ok ⟨ofRing r, popped⟩ := by
          simp only [Session.step, pop_ofRing_of_empty hempty, bind, Except.bind,
            Option.toList_none, List.append_nil]
        obtain ⟨r', popped', hrun, hbytes⟩ := ih r popped
        refine ⟨r', popped', by rw [Runs.run, hstep]; exact hrun, ?_⟩
        rw [hbytes, accepted, hempty]
      · have hstep : Session.step ⟨ofRing r, popped⟩ .pop =
            .ok ⟨ofRing (RingBuffer.pop r), popped ++ [r.front]⟩ := by
          simp only [Session.step, pop_ofRing hempty, bind, Except.bind, Option.toList_some]
        obtain ⟨r', popped', hrun, hbytes⟩ := ih (RingBuffer.pop r) (popped ++ [r.front])
        refine ⟨r', popped', by rw [Runs.run, hstep]; exact hrun, ?_⟩
        rw [hbytes, RingBuffer.toList_eq_cons_pop r hempty, accepted,
          show (RingBuffer.pop r).len = r.len - 1 from rfl]
        simp only [List.append_assoc, List.cons_append, List.nil_append]

/-- A push leaves the cell of every unread byte alone. -/
theorem push_keeps_unread (r : InputQueue) (byte : UInt8) {k : ℕ} (hk : k < r.len) :
    (InputQueue.push r byte).buf (r.cell k) = r.buf (r.cell k) := by
  unfold InputQueue.push
  split_ifs with hroom
  · exact Function.update_of_ne (r.cell_ne_cell hk hroom) _ _
  · rfl

/-- **The queue is a bounded FIFO that drops the newest byte.**  No sequence of calls panics;
`head` and `len` stay in range; the bytes that came out, followed by the unread ones, are the
accepted bytes in order; and a further push keeps every unread byte where it is. -/
theorem bounded_fifo (calls : List Call) :
    ∃ s, Runs.run Session.step ⟨new, []⟩ calls = .ok s ∧
      s.queue.head < inputQueueCapacity ∧ s.queue.len ≤ inputQueueCapacity ∧
      s.popped ++ s.queue.unread = accepted 0 calls ∧
      ∀ byte, ∃ q, s.queue.push byte = .ok q ∧
        ∀ k < s.queue.len, q.bytes (s.queue.cell k) = s.queue.bytes (s.queue.cell k) := by
  obtain ⟨r, popped, hrun, hbytes⟩ := run_ofRing calls InputQueue.new []
  refine ⟨⟨ofRing r, popped⟩, hrun, r.head_lt, r.len_le, ?_, ?_⟩
  · rw [unread_ofRing, hbytes]
    rfl
  · intro byte
    exact ⟨_, push_ofRing r byte, fun k hk => push_keeps_unread r byte hk⟩

end RawInputQueue
