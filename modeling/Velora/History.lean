/-
# The shell's history

Whatever bytes the shell reads, in whatever order, it stays inside its buffers, and its
history is the list of the last eight lines that were submitted (`history_is_last_lines`).

Which lines those are (`submittedLines`) is said without the shell: the bytes go through the
reference editor, and a line is submitted when Enter is read while it is not empty.
-/
import Velora.LineEditor
import Velora.Runs

namespace Editor

/-- The byte is Enter, and is read in `read_char`. -/
def isEnter (p : ShellPoint) (al : UInt8) : Bool := p = .readChar && (al = 0x0A || al = 0x0D)

/-- The line that is submitted when the byte is read. -/
def submits (e : Editor) (p : ShellPoint) (al : UInt8) : List (List UInt8) :=
  if isEnter p al && e.line ≠ [] then [e.line] else []

/-- The lines submitted while bytes are read, oldest first. -/
def submitted : ShellPoint × Editor → List UInt8 → List (List UInt8)
  | _, [] => []
  | s, al :: bytes => s.2.submits s.1 al ++ submitted (s.2.feed s.1 al) bytes

/-- Going back and forth in the history leaves it as it is. -/
theorem history_older (e : Editor) : e.older.history = e.history := by
  unfold Editor.older
  split
  · rfl
  · rfl

theorem history_newer (e : Editor) : e.newer.history = e.history := by
  unfold Editor.newer
  split
  · rfl
  · rfl
  · rfl

/-- Of the characters only Enter changes the history. -/
theorem history_type (e : Editor) (al : UInt8) :
    (e.type al).history = if isEnter .readChar al && e.line ≠ [] then
      (e.line :: e.history).take historyCapacity else e.history := by
  unfold Editor.type
  by_cases hbs : al = 0x08
  · simp [hbs, isEnter]
  · rw [if_neg hbs]
    by_cases henter : al = 0x0A ∨ al = 0x0D
    · rw [if_pos henter]
      unfold Editor.enter
      by_cases hline : e.line = []
      · simp [hline]
      · simp [hline, isEnter, henter]
    · rw [if_neg henter]
      by_cases hlen : e.line.length < lineBufSize
      · simp [hlen, isEnter, henter]
      · simp [hlen, isEnter, henter]

/-- Only Enter on a line that is not empty changes the history. -/
theorem history_feed (e : Editor) (p : ShellPoint) (al : UInt8) :
    (e.feed p al).2.history = if isEnter p al && e.line ≠ [] then
      (e.line :: e.history).take historyCapacity else e.history := by
  cases p with
  | readChar =>
    unfold Editor.feed
    by_cases hesc : al = 0x1B
    · simp [hesc, isEnter]
    · simp only [if_neg hesc, history_type]
  | escape =>
    unfold Editor.feed
    by_cases h : al = 0x5B
    · simp [h, isEnter]
    · simp [h, isEnter]
  | csi =>
    unfold Editor.feed
    by_cases hup : al = 0x41
    · simp [hup, isEnter, history_older]
    · by_cases hdown : al = 0x42
      · simp [hdown, isEnter, history_newer]
      · by_cases hend : al = 0x43 ∨ al = 0x44 ∨ al = 0x7E
        · simp [hup, hdown, hend, isEnter]
        · simp [hup, hdown, hend, isEnter]
  | drain =>
    unfold Editor.feed
    by_cases h : al = 0x7E
    · simp [h, isEnter]
    · simp [h, isEnter]

/-- **The history after a stream of bytes** is the end of what has been submitted. -/
theorem history_decode {s : ShellPoint × Editor} {lines : List (List UInt8)}
    (h : s.2.history = lines.reverse.take historyCapacity) (bytes : List UInt8) :
    (decode s bytes).2.history =
      (lines ++ submitted s bytes).reverse.take historyCapacity := by
  induction bytes generalizing s lines with
  | nil => rw [decode_nil, submitted, List.append_nil, h]
  | cons al bytes ih =>
    rw [decode_cons, submitted, ← List.append_assoc]
    refine ih ?_
    rw [history_feed, submits]
    split_ifs with hsubmit
    · rw [List.reverse_append, List.reverse_singleton, List.singleton_append, h,
        List.take_succ_cons, List.take_succ_cons, List.take_take]
      rfl
    · rw [List.append_nil, h]

end Editor

namespace Shell

/-- The next byte is read; `pid` is what a `SYS_SPAWN` on the way returns.  An access outside a
buffer ends the run. -/
def step (s : Shell) (input : UInt8 × UInt64) : Except Unit Shell :=
  (s.feed input.1 input.2).elim (.error ()) .ok

/-- The lines submitted in a session, oldest first. -/
def submittedLines (session : List (UInt8 × UInt64)) : List (List UInt8) :=
  Editor.submitted (.readChar, .new) (session.map Prod.fst)

variable {s : Shell} {e : Editor}

/-- **The run**: every session is read to its end, and the shell is the editor that has read the
bytes. -/
theorem Holds.run (h : s.Holds e) (session : List (UInt8 × UInt64)) :
    ∃ s', Runs.run step s session = .ok s' ∧
      s'.Holds (Editor.decode (s.point, e) (session.map Prod.fst)).2 := by
  induction session generalizing s e with
  | nil => exact ⟨s, rfl, h⟩
  | cons input session ih =>
    obtain ⟨s₁, hfeed, hpoint, hholds⟩ := h.feed input.1 input.2
    obtain ⟨s', hrun, hholds'⟩ := ih hholds
    have hstep : s.step input = .ok s₁ := by
      rw [Shell.step, hfeed]
      rfl
    refine ⟨s', by rw [Runs.run, hstep]; exact hrun, ?_⟩
    rw [hpoint] at hholds'
    exact hholds'

/-- Loading the line at an offset of the history. -/
theorem Holds.load (h : s.Holds e) {lines : List (List UInt8)}
    (hhistory : e.history = lines.reverse.take historyCapacity) {k : ℕ} (hk : k < s.historyCount) :
    ∃ s', Shell.historyLoadIntoLine { s with r13 := k + 1 } = some s' ∧
      lines.reverse[k]? = some s'.line ∧ s'.r12 ≤ lineBufSize := by
  have hlt : k < e.history.length := by
    rw [← h.count]
    exact hk
  have hmoved : Holds { s with r13 := k + 1 } { e with browsing := k + 1 } :=
    ⟨h.line, h.room, rfl, hlt, h.count, h.count_le, h.next, h.entry, h.spawns⟩
  obtain ⟨s', hload, hs'⟩ := hmoved.historyLoadIntoLine rfl (List.getElem?_eq_getElem hlt)
  refine ⟨s', hload, ?_, hs'.room⟩
  have hcap := h.count_le
  rw [hs'.line, ← List.getElem?_eq_getElem hlt, hhistory, List.getElem?_take, if_pos (by omega)]

/-- **The history is the list of the last eight lines.**  Whatever bytes are read, the shell stays
inside its buffers; `r12` is at most 64 and `r13` at most `history_count`, which is the number of
lines submitted, up to eight; and loading at an offset `k` in the history puts the `k`-th most
recently submitted line into `line_buf`, as it was submitted: as the bytes that were read make it
in the reference editor. -/
theorem history_is_last_lines (session : List (UInt8 × UInt64)) :
    ∃ s, Runs.run step start session = .ok s ∧
      s.r12 ≤ lineBufSize ∧ s.r13 ≤ s.historyCount ∧
      s.historyCount = min (submittedLines session).length historyCapacity ∧
      ∀ k, 1 ≤ k → k ≤ s.historyCount →
        ∃ s', historyLoadIntoLine { s with r13 := k } = some s' ∧ s'.r12 ≤ lineBufSize ∧
          (submittedLines session).reverse[k - 1]? = some s'.line := by
  obtain ⟨s, hrun, hholds⟩ := start_holds.run session
  have hnew : Editor.new.history = ([] : List (List UInt8)).reverse.take historyCapacity := rfl
  have hhistory := Editor.history_decode (s := (.readChar, .new)) hnew (session.map Prod.fst)
  rw [List.nil_append] at hhistory
  have hcount := hholds.count
  refine ⟨s, hrun, hholds.room, ?_, ?_, ?_⟩
  · rw [hholds.browsing, hcount]
    exact hholds.browsing_le
  · rw [hcount]
    refine (congrArg List.length hhistory).trans ?_
    rw [List.length_take, List.length_reverse, Nat.min_comm]
    rfl
  · intro k hpos hk
    obtain ⟨n, rfl⟩ := Nat.exists_eq_succ_of_ne_zero (Nat.one_le_iff_ne_zero.1 hpos)
    obtain ⟨s', hload, hline, hroom⟩ := hholds.load hhistory hk
    exact ⟨s', hload, hroom, hline⟩

end Shell
