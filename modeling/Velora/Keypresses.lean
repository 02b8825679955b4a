/-
# Keys in the input queue

`print_keypresses` pushes the bytes of a key one by one, each in a critical section of
its own, and readers take bytes out in between.  A byte that finds the queue full is
dropped.

A reader tells the keys apart by their bytes, and the shell relies on getting the rest
of a sequence once it has seen its first byte.  `keys_stay_whole` says when it does: if
for every key of more than one byte there is room for all of it when its first byte is
pushed.  Otherwise the queue may take the front of a sequence and drop its end
(`cut_key`).
-/
import Velora.Keyboard
import Velora.Runs

/-- `print_keypresses`, the queue and its readers. -/
structure Keypresses where
  queue : InputQueue
  /-- What is still to be pushed of the key that is being handled. -/
  pending : List UInt8
  /-- The keys so far, this one included. -/
  keys : List DecodedKey
  /-- The bytes that were taken out. -/
  popped : List UInt8

namespace Keypresses

/-- What can happen next. -/
inductive Action
  /-- A key event is decoded. -/
  | key (k : DecodedKey)
  /-- `push_input_byte` -/
  | push
  /-- `try_pop_input_byte` -/
  | pop

def start : Keypresses where
  queue := .new
  pending := []
  keys := []
  popped := []

def step (s : Keypresses) : Action → Except Unit Keypresses
  | .key k =>
    if s.pending = [] then .ok { s with pending := k.bytes, keys := s.keys ++ [k] } else .error ()
  | .push =>
    match s.pending with
    | [] => .error ()
    | byte :: rest => .ok { s with queue := InputQueue.push s.queue byte, pending := rest }
  | .pop =>
    match InputQueue.pop s.queue with
    | none => .ok s
    | some (byte, queue) => .ok { s with queue := queue, popped := s.popped ++ [byte] }

/-- All bytes that ever went into the queue. -/
def stream (s : Keypresses) : List UInt8 := s.popped ++ s.queue.toList

/-- **Keys are whole**: the bytes are the encodings of some of the keys, in order. -/
def Whole (s : Keypresses) : Prop :=
  ∃ l, List.Sublist l s.keys ∧ s.stream = l.flatMap DecodedKey.bytes

/-- The queue has room for the whole key, or the key has at most one byte. -/
def Fits (s : Keypresses) : Action → Prop
  | .key k => s.queue.len + k.bytes.length ≤ inputQueueCapacity ∨ k.bytes.length ≤ 1
  | _ => True

instance (s : Keypresses) (a : Action) : Decidable (s.Fits a) := by
  cases a <;> unfold Fits <;> infer_instance

variable {s s' : Keypresses}

/-! ## The stream -/

/-- Readers move bytes, they do not change the stream. -/
theorem stream_pop {byte : UInt8} {queue : InputQueue}
    (h : InputQueue.pop s.queue = some (byte, queue)) :
    s.popped ++ [byte] ++ queue.toList = s.stream := by
  rw [stream, InputQueue.pop_eq_some h, List.append_assoc]
  rfl

theorem len_pop {byte : UInt8} {queue : InputQueue}
    (h : InputQueue.pop s.queue = some (byte, queue)) : queue.len < s.queue.len := by
  have hlen := congrArg List.length (InputQueue.pop_eq_some h)
  rw [List.length_cons, RingBuffer.length_toList, RingBuffer.length_toList] at hlen
  omega

/-- A byte goes to the end of the stream if there is room for it. -/
theorem stream_push (h : s.queue.len < inputQueueCapacity) (byte : UInt8) :
    s.popped ++ (InputQueue.push s.queue byte).toList = s.stream ++ [byte] := by
  rw [InputQueue.toList_push h, stream, List.append_assoc]

theorem len_push (h : s.queue.len < inputQueueCapacity) (byte : UInt8) :
    (InputQueue.push s.queue byte).len = s.queue.len + 1 := by
  have hlen := congrArg List.length (InputQueue.toList_push h byte)
  rwa [List.length_append, RingBuffer.length_toList, RingBuffer.length_toList] at hlen

/-! ## The invariant -/

/-- **Between two pushes.**  The stream is made of whole keys and of the bytes `front` of the last
one; what is left of that key has room, or is its only byte. -/
structure Between (s : Keypresses) (l : List DecodedKey) (k : DecodedKey) (front : List UInt8) :
    Prop where
  keys : List.Sublist (l ++ [k]) s.keys
  bytes : k.bytes = front ++ s.pending
  stream : s.stream = l.flatMap DecodedKey.bytes ++ front
  room : s.queue.len + s.pending.length ≤ inputQueueCapacity ∨ k.bytes.length ≤ 1

/-- Keys are whole, but for the one that is being pushed. -/
def Tidy (s : Keypresses) : Prop :=
  if s.pending = [] then s.Whole else ∃ l k front, s.Between l k front

theorem tidy_nil (h : s.pending = []) : s.Tidy ↔ s.Whole := by
  rw [Tidy, if_pos h]

theorem tidy_cons (h : s.pending ≠ []) : s.Tidy ↔ ∃ l k front, s.Between l k front := by
  rw [Tidy, if_neg h]

/-- Once its last byte is pushed, the key is whole. -/
theorem Between.tidy (l : List DecodedKey) (k : DecodedKey) (front : List UInt8)
    (h : s.Between l k front) : s.Tidy := by
  by_cases hp : s.pending = []
  · rw [tidy_nil hp]
    refine ⟨l ++ [k], h.keys, ?_⟩
    have hbytes := h.bytes
    rw [hp, List.append_nil] at hbytes
    rw [h.stream, List.flatMap_append, List.flatMap_singleton, hbytes]
  · exact (tidy_cons hp).2 ⟨l, k, front, h⟩

theorem Tidy.key (h : s.Tidy) {k : DecodedKey} (hp : s.pending = [])
    (hfits : s.queue.len + k.bytes.length ≤ inputQueueCapacity ∨ k.bytes.length ≤ 1) :
    Tidy { s with pending := k.bytes, keys := s.keys ++ [k] } := by
  obtain ⟨l, hl, hstream⟩ := (tidy_nil hp).1 h
  refine Between.tidy l k [] ⟨?_, rfl, ?_, hfits⟩
  · exact hl.append (List.Sublist.refl [k])
  · rw [List.append_nil]
    exact hstream

theorem Between.push {l : List DecodedKey} {k : DecodedKey} {front rest : List UInt8} {byte : UInt8}
    (h : s.Between l k front) (hp : s.pending = byte :: rest) :
    Tidy { s with queue := InputQueue.push s.queue byte, pending := rest } := by
  have hroom := h.room
  have hbytes := h.bytes
  rw [hp, List.length_cons] at hroom
  rw [hp] at hbytes
  by_cases hlen : s.queue.len < inputQueueCapacity
  · refine Between.tidy l k (front ++ [byte]) ⟨h.keys, ?_, ?_, ?_⟩
    · rw [hbytes, List.append_assoc]
      rfl
    · show s.popped ++ (InputQueue.push s.queue byte).toList = _
      rw [stream_push hlen, h.stream, List.append_assoc]
    · simp only [len_push hlen]
      exact hroom.imp_left fun hle => by omega
  · -- the queue is full, so the byte is the only one of its key, and the key is dropped
    have hone := hroom.resolve_left (by omega)
    rw [hbytes, List.length_append, List.length_cons] at hone
    have hfront : front = [] := List.length_eq_zero_iff.1 (by omega)
    have hrest : rest = [] := List.length_eq_zero_iff.1 (by omega)
    rw [tidy_nil hrest]
    refine ⟨l, (List.sublist_append_left l [k]).trans h.keys, ?_⟩
    show s.popped ++ (InputQueue.push s.queue byte).toList = _
    rw [InputQueue.push, dif_neg hlen]
    have hstream := h.stream
    rw [hfront, List.append_nil] at hstream
    exact hstream

/-- Readers take bytes out of the queue, not out of the stream. -/
theorem Tidy.pop (h : s.Tidy) (hpending : s'.pending = s.pending) (hkeys : s'.keys = s.keys)
    (hstream : s'.stream = s.stream) (hlen : s'.queue.len ≤ s.queue.len) : s'.Tidy := by
  by_cases hnil : s.pending = []
  · obtain ⟨l, hl, hs⟩ := (tidy_nil hnil).1 h
    rw [tidy_nil (hpending.trans hnil)]
    exact ⟨l, hkeys ▸ hl, hstream.trans hs⟩
  · obtain ⟨l, k, front, hb⟩ := (tidy_cons hnil).1 h
    refine Between.tidy l k front ⟨hkeys ▸ hb.keys, ?_, ?_, ?_⟩
    · rw [hpending]
      exact hb.bytes
    · rw [hstream]
      exact hb.stream
    · rw [hpending]
      exact hb.room.imp_left fun hle => by omega

/-- **One step.** -/
theorem Tidy.step (h : s.Tidy) {a : Action} (hfits : s.Fits a) (hs : s.step a = .ok s') :
    s'.Tidy := by
  cases a with
  | key k =>
    rw [Keypresses.step] at hs
    split_ifs at hs with hp
    cases hs
    exact h.key hp hfits
  | push =>
    rw [Keypresses.step] at hs
    cases hp : s.pending with
    | nil =>
      rw [hp] at hs
      cases hs
    | cons byte rest =>
      rw [hp] at hs
      cases hs
      obtain ⟨l, k, front, hb⟩ := (tidy_cons (by rw [hp]; exact List.cons_ne_nil _ _)).1 h
      exact hb.push hp
  | pop =>
    rw [Keypresses.step] at hs
    cases hp : InputQueue.pop s.queue with
    | none =>
      rw [hp] at hs
      cases hs
      exact h
    | some p =>
      rw [hp] at hs
      cases hs
      exact h.pop rfl rfl (stream_pop hp) (len_pop hp).le

/-- **Keys stay whole.**  In every run in which the queue has room for each key of more than one
byte when the key is decoded, however keys are interleaved with readers, the bytes that were taken
out and those that are queued are, between two keys, the encodings of some of the keys in order. -/
theorem keys_stay_whole {s : Keypresses} (h : Runs.Reach step Fits start s)
    (hp : s.pending = []) : s.Whole := by
  have hstart : start.Tidy := ⟨[], List.Sublist.refl [], rfl⟩
  exact (tidy_nil hp).1 (h.invariant hstart fun _ _ _ ht hfits hs => ht.step hfits hs)

/-- Up is pressed between two letters, and read while it is pushed. -/
theorem keys_stay_whole_arrowUp : ∃ s, Runs.Reach step Fits start s ∧
    s.popped = [0x61, 0x1b] ∧ s.queue.toList = [0x5b, 0x41, 0x62] ∧ s.Whole := by
  obtain ⟨s, hs, htest⟩ := Runs.exists_reach_of_any step Fits start
    [.key (.unicode 'a'), .push, .key (.rawKey .arrowUp), .push, .pop, .push, .pop, .push,
      .key (.unicode 'b'), .push]
    (fun s => s.pending = [] ∧ s.popped = [0x61, 0x1b] ∧ s.queue.toList = [0x5b, 0x41, 0x62])
    (by decide +kernel)
  obtain ⟨hp, hpopped, hqueue⟩ := of_decide_eq_true htest
  exact ⟨s, hs, hpopped, hqueue, keys_stay_whole hs hp⟩

/-- 127 letters that nobody reads, and F5. -/
def manyKeys : List DecodedKey := List.replicate 127 (.unicode 'a') ++ [.rawKey .f5]

/-- **A key that is cut**: of the five bytes of F5 the queue takes the first. -/
theorem cut_key : ∃ s, Runs.Reachable step start s ∧ s.pending = [] ∧
    s.stream = List.replicate 127 0x61 ++ [0x1b] ∧ ¬ s.Whole := by
  obtain ⟨s, hs, htest⟩ := Runs.exists_reach_of_any step (fun _ _ => True) start
    (manyKeys.flatMap fun k => .key k :: List.replicate k.bytes.length .push)
    (fun s => s.pending = [] ∧ s.stream = List.replicate 127 0x61 ++ [0x1b] ∧ s.keys = manyKeys)
    (by decide +kernel)
  obtain ⟨hp, hstream, hkeys⟩ := of_decide_eq_true htest
  refine ⟨s, hs, hp, hstream, ?_⟩
  rintro ⟨l, hl, hbytes⟩
  rw [hstream] at hbytes
  rw [hkeys] at hl
  -- only F5 accounts for the escape byte, and F5 has a tilde
  have hesc : (0x1b : UInt8) ∈ l.flatMap DecodedKey.bytes := by
    rw [← hbytes]
    exact List.mem_append_right _ List.mem_cons_self
  obtain ⟨k, hk, hmem⟩ := List.mem_flatMap.1 hesc
  have htilde : (0x7e : UInt8) ∈ l.flatMap DecodedKey.bytes := by
    rw [List.mem_flatMap]
    rcases List.mem_append.1 (hl.subset hk) with hletter | hf5
    · rw [List.eq_of_mem_replicate hletter] at hmem
      exact absurd hmem (by decide)
    · rw [List.mem_singleton.1 hf5] at hk
      exact ⟨_, hk, by decide⟩
  rw [← hbytes] at htilde
  exact absurd htilde (by decide)

end Keypresses
