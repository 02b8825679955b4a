/-
# The keyboard and the shell together

`print_keypresses` pushes the bytes of one key after another into the input queue,
one byte at a time; the shell polls the queue with `SYS_READ` and may do so between
any two of those bytes, or be behind by any number of keys.

What happened is recorded beside the state: the keys typed, the bytes the shell has
read, and whether the queue ever dropped one.
-/
import Velora.LineEditor
import Velora.Runs

/-- The keyboard task, the queue and the shell. -/
structure Console where
  /-- What `print_keypresses` still has to push of the key it is handling. -/
  pending : List UInt8
  queue : InputQueue
  shell : Shell
  typed : List DecodedKey
  taken : List UInt8
  lost : Bool

namespace Console

/-- What can happen next. -/
inductive Action
  /-- A key event is decoded. -/
  | key (k : DecodedKey)
  /-- `push_input_byte` -/
  | push
  /-- `SYS_READ` of one byte, and the shell's code up to the next one; `pid` is what a
  `SYS_SPAWN` on the way returns. -/
  | poll (pid : UInt64)

/-- Why an action does not complete. -/
inductive Stop
  | notPossible
  /-- The shell accessed memory outside a buffer. -/
  | outOfBounds
  deriving DecidableEq

/-- The shell waits for its first byte. -/
def start : Console where
  pending := []
  queue := .new
  shell := .start
  typed := []
  taken := []
  lost := false

/-- One step. -/
def step (c : Console) : Action → Except Stop Console
  | .key k =>
    if c.pending = [] then .ok { c with pending := k.bytes, typed := c.typed ++ [k] }
    else .error .notPossible
  | .push =>
    match c.pending with
    | [] => .error .notPossible
    | byte :: rest =>
      let lost := c.lost || decide (c.queue.len = inputQueueCapacity)
      .ok { c with pending := rest, queue := InputQueue.push c.queue byte, lost := lost }
  | .poll pid =>
    match InputQueue.pop c.queue with
    | none => .ok c
    | some (byte, queue) =>
      match c.shell.feed byte pid with
      | none => .error .outOfBounds
      | some shell => .ok { c with queue := queue, shell := shell, taken := c.taken ++ [byte] }

/-- **The invariant.**  The shell is where the decoded bytes put it, and no byte is lost between
the keys and the shell. -/
structure InStep (c : Console) : Prop where
  point : c.shell.point = (Editor.decode (.readChar, .new) c.taken).1
  holds : c.shell.Holds (Editor.decode (.readChar, .new) c.taken).2
  stream : c.lost = false → c.taken ++ c.queue.toList ++ c.pending = c.typed.flatMap DecodedKey.bytes

theorem start_inStep : start.InStep where
  point := rfl
  holds := Shell.start_holds
  stream _ := rfl

theorem step_inStep {c c' : Console} {a : Action} (h : c.InStep) (hstep : c.step a = .ok c') :
    c'.InStep := by
  cases a with
  | key k =>
    rw [step] at hstep
    split_ifs at hstep with hpending
    cases hstep
    refine ⟨h.point, h.holds, fun hlost => ?_⟩
    have hstream := h.stream hlost
    rw [hpending, List.append_nil] at hstream
    rw [List.flatMap_append, ← hstream]
    simp
  | push =>
    cases hpending : c.pending with
    | nil =>
      rw [step, hpending] at hstep
      cases hstep
    | cons byte rest =>
      rw [step, hpending] at hstep
      cases hstep
      refine ⟨h.point, h.holds, fun hlost => ?_⟩
      obtain ⟨hkept, hroom⟩ := Bool.or_eq_false_iff.mp hlost
      have hlen : c.queue.len < inputQueueCapacity :=
        lt_of_le_of_ne c.queue.len_le (of_decide_eq_false hroom)
      have hstream := h.stream hkept
      rw [hpending] at hstream
      rw [← hstream, InputQueue.toList_push hlen]
      simp
  | poll pid =>
    cases hpop : InputQueue.pop c.queue with
    | none =>
      rw [step, hpop] at hstep
      cases hstep
      exact h
    | some pair =>
      obtain ⟨byte, queue⟩ := pair
      obtain ⟨shell, hfeed, hpoint, hholds⟩ := h.holds.feed byte pid
      simp only [step, hpop, hfeed] at hstep
      cases hstep
      have hdecode : Editor.decode (.readChar, .new) (c.taken ++ [byte]) =
          (Editor.decode (.readChar, .new) c.taken).2.feed c.shell.point byte := by
        rw [Editor.decode_append, h.point]
        rfl
      refine ⟨?_, ?_, fun hlost => ?_⟩
      · rw [hdecode]
        exact hpoint
      · rw [hdecode]
        exact hholds
      · have hstream := h.stream hlost
        rw [InputQueue.pop_eq_some hpop] at hstream
        rw [← hstream]
        simp

theorem inStep_of_reachable {c : Console} (h : Runs.Reachable step start c) : c.InStep :=
  h.invariant (I := InStep) start_inStep (fun _ _ _ hc _ hstep => step_inStep hc hstep)

/-- The shell's code up to the next `SYS_READ` never leaves its buffers. -/
theorem InStep.exists_poll {c : Console} (h : c.InStep) (pid : UInt64) :
    ∃ c', c.step (.poll pid) = .ok c' := by
  cases hpop : InputQueue.pop c.queue with
  | none => exact ⟨c, by rw [step, hpop]⟩
  | some pair =>
    obtain ⟨byte, queue⟩ := pair
    obtain ⟨shell, hfeed, -⟩ := h.holds.feed byte pid
    refine ⟨{ c with queue := queue, shell := shell, taken := c.taken ++ [byte] }, ?_⟩
    simp only [step, hpop, hfeed]

/-- **The shell's decoder agrees with the keyboard's encoder.**  As long as Escape is not pressed
and the queue drops nothing, the shell always gets through to the next `SYS_READ`, and when it
has read the bytes of some first keys it is back at `read_char`, with the line and the commands
of the reference editor after those keys. -/
theorem shell_edits {c : Console} (h : Runs.Reachable step start c) (hlost : c.lost = false)
    (hescape : .escape ∉ c.typed) :
    (∀ pid, ∃ c', c.step (.poll pid) = .ok c') ∧
    c.taken ++ c.queue.toList ++ c.pending = c.typed.flatMap DecodedKey.bytes ∧
    ∀ ks rest, c.typed = ks ++ rest → c.taken = ks.flatMap DecodedKey.bytes →
      c.shell.point = .readChar ∧ c.shell.line = (Editor.afterKeys ks).line ∧
      c.shell.spawns = (Editor.afterKeys ks).commands := by
  have hc := inStep_of_reachable h
  refine ⟨hc.exists_poll, hc.stream hlost, ?_⟩
  intro ks rest htyped htaken
  have hks : ∀ k ∈ ks, k ≠ DecodedKey.escape := by
    rintro k hk rfl
    exact hescape (htyped ▸ List.mem_append_left rest hk)
  have hdecode : Editor.decode (.readChar, .new) c.taken = (.readChar, Editor.afterKeys ks) := by
    rw [htaken]
    exact Editor.decode_keys hks .new
  have hpoint := hc.point
  have hholds := hc.holds
  rw [hdecode] at hpoint hholds
  exact ⟨hpoint, hholds.line, hholds.spawns⟩

/-- `ls`, a space, F5, `x`, Enter; the shell reads each byte right away. -/
def typingRun : List Action :=
  [.key (.unicode 'l'), .push, .poll 0, .key (.unicode 's'), .push, .poll 0,
   .key (.unicode ' '), .push, .poll 0, .key (.rawKey .lShift),
   .key (.rawKey .f5), .push, .push, .poll 0, .push, .poll 0, .push, .poll 0, .push, .poll 0,
   .poll 0, .key (.unicode 'x'), .push, .poll 0, .key (.unicode '\n'), .push, .poll 513]

/-- The keys of that run. -/
def typingKeys : List DecodedKey :=
  [.unicode 'l', .unicode 's', .unicode ' ', .rawKey .lShift, .rawKey .f5, .unicode 'x',
   .unicode '\n']

theorem shell_edits_typingRun :
    ∃ c, Runs.Reachable step start c ∧ c.typed = typingKeys ∧ c.shell.line = [] ∧
      c.shell.spawns = [([0x6c, 0x73], [0x78])] := by
  obtain ⟨c, hreach, htest⟩ := Runs.exists_reach_of_any step (fun _ _ => True) start typingRun
    (fun c => decide (c.typed = typingKeys ∧ c.taken = typingKeys.flatMap DecodedKey.bytes ∧
      c.lost = false)) (by decide +kernel)
  obtain ⟨htyped, htaken, hlost⟩ := of_decide_eq_true htest
  have hedits := (shell_edits hreach hlost (by rw [htyped]; decide)).2.2 typingKeys []
    (by rw [htyped, List.append_nil]) htaken
  refine ⟨c, hreach, htyped, hedits.2.1.trans ?_, hedits.2.2.trans ?_⟩
  · decide
  · decide

end Console
