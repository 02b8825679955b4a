/-
# The VGA text writer

`Writer` (vga_buffer.rs): a buffer of 25 rows of 80 cells and a column in the bottom row.
Every cell access is checked against the bounds of the array, and the loops of `new_line`
and `clear_row` go through the buffer cell by cell.

`newLine_eq` says what the loops do in one step: the rows move up by one and the bottom row
becomes blank.  With it every call is a sequence of inputs to a `Terminal`, of which the
buffer shows the last 25 rows.
-/
import Velora.Runs
import Velora.Terminal
import Velora.VirtAddr

namespace Vga

/-- `BUFFER_HEIGHT` -/
abbrev bufferHeight : ℕ := 25

/-- `BUFFER_WIDTH` -/
abbrev bufferWidth : ℕ := 80

/-- `ScreenChar`, with the byte of its `ColorCode`. -/
structure ScreenChar where
  asciiCharacter : UInt8
  colorCode : UInt8
  deriving DecidableEq

/-- `Buffer`: its `chars`. -/
abbrev Buffer := Fin bufferHeight → Fin bufferWidth → ScreenChar

namespace Buffer

/-- `chars[row][col].read()` -/
def read (b : Buffer) (row col : ℕ) : Except Panic ScreenChar :=
  if h : row < bufferHeight ∧ col < bufferWidth then .ok (b ⟨row, h.1⟩ ⟨col, h.2⟩)
  else .error .indexOutOfBounds

/-- The buffer with one cell replaced. -/
def set (b : Buffer) (row col : ℕ) (c : ScreenChar) : Buffer :=
  fun r k => if r.val = row ∧ k.val = col then c else b r k

/-- `chars[row][col].write(c)` -/
def write (b : Buffer) (row col : ℕ) (c : ScreenChar) : Except Panic Buffer :=
  if row < bufferHeight ∧ col < bufferWidth then .ok (b.set row col c)
  else .error .indexOutOfBounds

/-- The rows of a buffer, top row first. -/
def rows (b : Buffer) : List (List ScreenChar) := List.ofFn fun r => List.ofFn (b r)

end Buffer

/-- `Writer` -/
structure Writer where
  columnPosition : ℕ
  colorCode : UInt8
  buffer : Buffer

namespace Writer

/-- The blank cell of `write_byte` and `clear_row`. -/
def blank (w : Writer) : ScreenChar := ⟨0x20, w.colorCode⟩

/-- A store into the buffer. -/
def writeCell (w : Writer) (row col : ℕ) (c : ScreenChar) : Except Panic Writer := do
  let buffer ← w.buffer.write row col c
  .ok { w with buffer := buffer }

/-- The body of the loops of `new_line`. -/
def copyCell (w : Writer) (row col : ℕ) : Except Panic Writer := do
  let character ← w.buffer.read row col
  let above ← (checkedSub row 1).expect .arithmeticOverflow
  w.writeCell above col character

/-- `Writer::clear_row` -/
def clearRow (w : Writer) (row : ℕ) : Except Panic Writer :=
  (List.range' 0 bufferWidth).foldlM (fun v col => v.writeCell row col w.blank) w

/-- `Writer::new_line` -/
def newLine (w : Writer) : Except Panic Writer := do
  let w ← (List.range' 1 (bufferHeight - 1)).foldlM
    (fun w row => (List.range' 0 bufferWidth).foldlM (fun w col => w.copyCell row col) w) w
  let w ← w.clearRow (bufferHeight - 1)
  .ok { w with columnPosition := 0 }

/-- `Writer::write_byte` -/
def writeByte (w : Writer) (byte : UInt8) : Except Panic Writer :=
  if byte = 0x0a then w.newLine
  else if byte = 0x08 then
    if w.columnPosition > 0 then do
      let col ← (checkedSub w.columnPosition 1).expect .arithmeticOverflow
      { w with columnPosition := col }.writeCell (bufferHeight - 1) col w.blank
    else .ok w
  else do
    let w ← if w.columnPosition ≥ bufferWidth then w.newLine else .ok w
    let w ← w.writeCell (bufferHeight - 1) w.columnPosition ⟨byte, w.colorCode⟩
    let col ← (checkedAdd w.columnPosition 1).expect .arithmeticOverflow
    .ok { w with columnPosition := col }

/-- The byte that `write_string` writes for a character. -/
def charByte (c : Char) : UInt8 :=
  if (' ' ≤ c ∧ c ≤ '~') ∨ c = '\n' ∨ c = '\x08' then UInt8.ofNat c.toNat else 0xfe

/-- `Writer::write_string` -/
def writeString (w : Writer) (s : String) : Except Panic Writer :=
  s.toList.foldlM (fun w c => w.writeByte (charByte c)) w

end Writer

/-! ## What the loops do -/

/-- A counted loop whose state after `i` rounds is `g i`. -/
theorem foldlM_range'_eq_ok {σ ε : Type} {f : σ → ℕ → Except ε σ} (g : ℕ → σ) {start n : ℕ}
    (h : ∀ i < n, f (g i) (start + i) = .ok (g (i + 1))) :
    (List.range' start n).foldlM f (g 0) = .ok (g n) := by
  induction n with
  | zero => rfl
  | succ n ih =>
    rw [List.range'_1_concat, List.foldlM_append, ih (fun i hi => h i (Nat.lt_succ_of_lt hi))]
    show ([start + n].foldlM f (g n)) = _
    rw [List.foldlM_cons, h n (Nat.lt_succ_self n)]
    rfl

namespace Buffer

/-- The loops of `new_line` after `m` whole rows and `n` cells of the next one: the cells passed
hold what was below them. -/
def shifted (b : Buffer) (m n : ℕ) : Buffer := fun r k =>
  if h : (r.val < m ∨ r.val = m ∧ k.val < n) ∧ r.val + 1 < bufferHeight then
    b ⟨r.val + 1, h.2⟩ k
  else b r k

/-- The loop of `clear_row` after `n` cells. -/
def cleared (b : Buffer) (row n : ℕ) (c : ScreenChar) : Buffer := fun r k =>
  if r.val = row ∧ k.val < n then c else b r k

/-- The buffer after `new_line`. -/
def scrolled (b : Buffer) (c : ScreenChar) : Buffer := fun r k =>
  if h : r.val + 1 < bufferHeight then b ⟨r.val + 1, h⟩ k else c

theorem shifted_of_passed (b : Buffer) {m n : ℕ} {r : Fin bufferHeight} {k : Fin bufferWidth}
    (h : r.val < m ∨ r.val = m ∧ k.val < n) (hr : r.val + 1 < bufferHeight) :
    b.shifted m n r k = b ⟨r.val + 1, hr⟩ k :=
  dif_pos ⟨h, hr⟩

theorem shifted_of_not_passed (b : Buffer) {m n : ℕ} {r : Fin bufferHeight}
    {k : Fin bufferWidth} (h : ¬ ((r.val < m ∨ r.val = m ∧ k.val < n) ∧ r.val + 1 < bufferHeight)) :
    b.shifted m n r k = b r k :=
  dif_neg h

theorem shifted_zero (b : Buffer) : b.shifted 0 0 = b := by
  funext r k
  exact shifted_of_not_passed b (by omega)

theorem shifted_width (b : Buffer) (m : ℕ) : b.shifted m bufferWidth = b.shifted (m + 1) 0 := by
  funext r k
  have hk := k.isLt
  by_cases h : r.val ≤ m ∧ r.val + 1 < bufferHeight
  · rw [shifted_of_passed b (by omega) h.2, shifted_of_passed b (by omega) h.2]
  · rw [shifted_of_not_passed b (by omega), shifted_of_not_passed b (by omega)]

theorem cleared_zero (b : Buffer) (row : ℕ) (c : ScreenChar) : b.cleared row 0 c = b := by
  funext r k
  exact if_neg (by omega)

theorem set_shifted (b : Buffer) {m n : ℕ} (hm : m + 1 < bufferHeight) (hn : n < bufferWidth) :
    (b.shifted m n).set m n (b ⟨m + 1, hm⟩ ⟨n, hn⟩) = b.shifted m (n + 1) := by
  funext r k
  unfold set
  split_ifs with h
  · obtain ⟨rfl, rfl⟩ := h
    exact (shifted_of_passed b (Or.inr ⟨rfl, Nat.lt_succ_self _⟩) hm).symm
  · by_cases hp : (r.val < m ∨ r.val = m ∧ k.val < n) ∧ r.val + 1 < bufferHeight
    · rw [shifted_of_passed b hp.1 hp.2, shifted_of_passed b (by omega) hp.2]
    · rw [shifted_of_not_passed b hp, shifted_of_not_passed b (by omega)]

theorem set_cleared (b : Buffer) (row n : ℕ) (c : ScreenChar) :
    (b.cleared row n c).set row n c = b.cleared row (n + 1) c := by
  funext r k
  unfold set cleared
  by_cases hrow : r.val = row
  · by_cases hk : k.val = n
    · simp [hrow, hk]
    · simp [hrow, hk, show k.val < n + 1 ↔ k.val < n by omega]
  · simp [hrow]

theorem cleared_shifted (b : Buffer) (c : ScreenChar) :
    (b.shifted (bufferHeight - 1) 0).cleared (bufferHeight - 1) bufferWidth c = b.scrolled c := by
  funext r k
  have hr := r.isLt
  unfold cleared scrolled
  by_cases h : r.val + 1 < bufferHeight
  · rw [if_neg (by omega), dif_pos h, shifted_of_passed b (by omega) h]
  · rw [if_pos ⟨by omega, k.isLt⟩, dif_neg h]

end Buffer

namespace Writer

theorem writeCell_eq (w : Writer) {row col : ℕ} (hrow : row < bufferHeight)
    (hcol : col < bufferWidth) (c : ScreenChar) :
    w.writeCell row col c = .ok { w with buffer := w.buffer.set row col c } := by
  rw [writeCell, Buffer.write, if_pos ⟨hrow, hcol⟩]
  rfl

theorem copyCell_shifted (w : Writer) {m n : ℕ} (hm : m + 1 < bufferHeight)
    (hn : n < bufferWidth) :
    { w with buffer := w.buffer.shifted m n }.copyCell (m + 1) n =
      .ok { w with buffer := w.buffer.shifted m (n + 1) } := by
  -- the row that is read has not been written yet
  have hread : (w.buffer.shifted m n).read (m + 1) n = .ok (w.buffer ⟨m + 1, hm⟩ ⟨n, hn⟩) := by
    rw [Buffer.read, dif_pos ⟨hm, hn⟩,
      Buffer.shifted_of_not_passed _ (show ¬ ((m + 1 < m ∨ m + 1 = m ∧ n < n) ∧ _) by omega)]
  have habove : checkedSub (m + 1) 1 = some m := checkedSub_eq_some.mpr ⟨by omega, by omega⟩
  simp only [copyCell, hread, habove, Option.expect_some, bind, Except.bind]
  rw [writeCell_eq _ (by omega) hn, Buffer.set_shifted]

theorem copyRow_shifted (w : Writer) {m : ℕ} (hm : m + 1 < bufferHeight) :
    (List.range' 0 bufferWidth).foldlM (fun v col => v.copyCell (m + 1) col)
        { w with buffer := w.buffer.shifted m 0 } =
      .ok { w with buffer := w.buffer.shifted (m + 1) 0 } := by
  rw [← Buffer.shifted_width]
  refine foldlM_range'_eq_ok (fun n => ({ w with buffer := w.buffer.shifted m n } : Writer)) ?_
  intro n hn
  rw [Nat.zero_add]
  exact w.copyCell_shifted hm hn

theorem clearRow_eq (w : Writer) {row : ℕ} (hrow : row < bufferHeight) :
    w.clearRow row = .ok { w with buffer := w.buffer.cleared row bufferWidth w.blank } := by
  have hloop : (List.range' 0 bufferWidth).foldlM (fun v col => v.writeCell row col w.blank)
      { w with buffer := w.buffer.cleared row 0 w.blank } =
        .ok { w with buffer := w.buffer.cleared row bufferWidth w.blank } := by
    refine foldlM_range'_eq_ok
      (fun n => ({ w with buffer := w.buffer.cleared row n w.blank } : Writer)) ?_
    intro n hn
    rw [Nat.zero_add, writeCell_eq _ hrow hn, Buffer.set_cleared]
  rw [Buffer.cleared_zero] at hloop
  exact hloop

/-- **`new_line` scrolls.** -/
theorem newLine_eq (w : Writer) :
    w.newLine = .ok { w with columnPosition := 0, buffer := w.buffer.scrolled w.blank } := by
  have hloop : (List.range' 1 (bufferHeight - 1)).foldlM
      (fun w row => (List.range' 0 bufferWidth).foldlM (fun w col => w.copyCell row col) w)
      { w with buffer := w.buffer.shifted 0 0 } =
        .ok { w with buffer := w.buffer.shifted (bufferHeight - 1) 0 } := by
    refine foldlM_range'_eq_ok (fun m => ({ w with buffer := w.buffer.shifted m 0 } : Writer)) ?_
    intro m hm
    rw [Nat.add_comm 1 m]
    exact w.copyRow_shifted (by omega)
  rw [Buffer.shifted_zero] at hloop
  have hclear := clearRow_eq { w with buffer := w.buffer.shifted (bufferHeight - 1) 0 }
    (show bufferHeight - 1 < bufferHeight by decide)
  rw [newLine, hloop]
  simp only [bind, Except.bind, hclear]
  exact congrArg (fun b => Except.ok ({ w with columnPosition := 0, buffer := b } : Writer))
    (w.buffer.cleared_shifted w.blank)

end Writer

/-! ## The rows of a buffer -/

namespace Buffer

/-- The rows above the bottom row. -/
def upper (b : Buffer) : List (List ScreenChar) :=
  List.ofFn fun r : Fin (bufferHeight - 1) => List.ofFn (b r.castSucc)

/-- The bottom row. -/
def bottom (b : Buffer) : List ScreenChar := List.ofFn (b (Fin.last (bufferHeight - 1)))

theorem rows_eq (b : Buffer) : b.rows = b.upper ++ [b.bottom] := by
  rw [rows, List.ofFn_succ' (n := bufferHeight - 1), List.concat_eq_append]
  rfl

theorem length_rows (b : Buffer) : b.rows.length = bufferHeight := List.length_ofFn

theorem length_bottom (b : Buffer) : b.bottom.length = bufferWidth := List.length_ofFn

/-- A store into the bottom row. -/
theorem rows_set (b : Buffer) (col : ℕ) (c : ScreenChar) :
    (b.set (bufferHeight - 1) col c).rows = b.upper ++ [b.bottom.set col c] := by
  have hupper : (b.set (bufferHeight - 1) col c).upper = b.upper := by
    unfold upper
    congr 1
    funext r
    congr 1
    funext k
    exact if_neg (fun h => r.isLt.ne h.1)
  have hbottom : (b.set (bufferHeight - 1) col c).bottom = b.bottom.set col c := by
    apply List.ext_getElem
    · rw [List.length_set, length_bottom, length_bottom]
    · intro k hk hk'
      simp only [List.getElem_set, bottom, List.getElem_ofFn, set, Fin.val_last, true_and]
      exact if_congr eq_comm rfl rfl
  rw [rows_eq, hupper, hbottom]

/-- Scrolling drops the top row and adds a blank one. -/
theorem rows_scrolled (b : Buffer) (c : ScreenChar) :
    (b.scrolled c).rows = b.rows.tail ++ [List.replicate bufferWidth c] := by
  have hupper : (b.scrolled c).upper = b.rows.tail := by
    rw [rows, List.ofFn_succ (n := bufferHeight - 1), List.tail_cons]
    unfold upper
    congr 1
    funext r
    congr 1
    funext k
    exact dif_pos (Nat.add_lt_add_right r.isLt 1)
  have hbottom : (b.scrolled c).bottom = List.replicate bufferWidth c := by
    rw [← List.ofFn_const]
    unfold bottom
    congr 1
  rw [rows_eq, hupper, hbottom]

end Buffer

/-! ## The writer and the terminal -/

/-- What a byte of `write_byte` is to a terminal. -/
def byteInput (colorCode byte : UInt8) : Terminal.Input ScreenChar :=
  if byte = 0x0a then .newline
  else if byte = 0x08 then .backspace
  else .cell ⟨byte, colorCode⟩

/-- What a character of `write_string` is to a terminal: anything but a newline or a backspace is
one cell, with the character's own byte if it is printable ASCII. -/
def charInput (colorCode : UInt8) (c : Char) : Terminal.Input ScreenChar :=
  if c = '\n' then .newline
  else if c = '\x08' then .backspace
  else if 0x20 ≤ c.toNat ∧ c.toNat ≤ 0x7e then .cell ⟨UInt8.ofNat c.toNat, colorCode⟩
  else .cell ⟨0xfe, colorCode⟩

theorem byteInput_charByte (colorCode : UInt8) (c : Char) :
    byteInput colorCode (Writer.charByte c) = charInput colorCode c := by
  unfold Writer.charByte charInput
  by_cases hnl : c = '\n'
  · subst hnl
    rfl
  by_cases hbs : c = '\x08'
  · subst hbs
    rfl
  have hrange : (' ' ≤ c ∧ c ≤ '~') ↔ (0x20 ≤ c.toNat ∧ c.toNat ≤ 0x7e) := Iff.rfl
  rw [if_neg hnl, if_neg hbs]
  by_cases hp : 0x20 ≤ c.toNat ∧ c.toNat ≤ 0x7e
  · have hbyte : (UInt8.ofNat c.toNat).toNat = c.toNat := by
      rw [UInt8.toNat_ofNat']
      omega
    rw [if_pos (Or.inl (hrange.mpr hp)), if_pos hp, byteInput, if_neg ?_, if_neg ?_]
    · intro h
      rw [h] at hbyte
      have : (0x08 : UInt8).toNat = 8 := rfl
      omega
    · intro h
      rw [h] at hbyte
      have : (0x0a : UInt8).toNat = 10 := rfl
      omega
  · rw [if_neg hp, if_neg (by simp only [hrange, hp, hnl, hbs, or_self, not_false_iff])]
    rfl

namespace Writer

/-- The writer shows the last rows of the terminal. -/
def Shows (w : Writer) (t : Terminal ScreenChar) : Prop :=
  t.Shows bufferWidth w.buffer.rows w.columnPosition

theorem Shows.columnPosition_le {w : Writer} {t : Terminal ScreenChar} (h : w.Shows t) :
    w.columnPosition ≤ bufferWidth := h.column.trans_le h.le_width

theorem Shows.newLine {w : Writer} {t : Terminal ScreenChar} (h : w.Shows t) :
    Shows { w with columnPosition := 0, buffer := w.buffer.scrolled w.blank }
      (t.newline bufferWidth w.blank) := by
  unfold Shows
  rw [Buffer.rows_scrolled]
  exact Terminal.Shows.newline h

/-- A store at the column. -/
theorem Shows.put {w : Writer} {t : Terminal ScreenChar} (h : w.Shows t)
    (hroom : w.columnPosition < bufferWidth) (c : ScreenChar) :
    Shows { w with
        columnPosition := w.columnPosition + 1
        buffer := w.buffer.set (bufferHeight - 1) w.columnPosition c }
      (t.put bufferWidth w.blank c) := by
  unfold Shows at h ⊢
  rw [Buffer.rows_eq] at h
  rw [Buffer.rows_set]
  exact h.put hroom c

theorem Shows.backspace {w : Writer} {t : Terminal ScreenChar} (h : w.Shows t)
    (hpos : 0 < w.columnPosition) :
    Shows { w with
        columnPosition := w.columnPosition - 1
        buffer := w.buffer.set (bufferHeight - 1) (w.columnPosition - 1) w.blank }
      (t.backspace w.blank) := by
  unfold Shows at h ⊢
  rw [Buffer.rows_eq] at h
  rw [Buffer.rows_set]
  exact h.backspace hpos

theorem writeByte_newline (w : Writer) {byte : UInt8} (hnl : byte = 0x0a) :
    w.writeByte byte =
      .ok { w with columnPosition := 0, buffer := w.buffer.scrolled w.blank } := by
  rw [writeByte, if_pos hnl, newLine_eq]

theorem writeByte_backspace (w : Writer) {byte : UInt8} (hbs : byte = 0x08)
    (hpos : 0 < w.columnPosition) (hle : w.columnPosition ≤ bufferWidth) :
    w.writeByte byte = .ok { w with
      columnPosition := w.columnPosition - 1
      buffer := w.buffer.set (bufferHeight - 1) (w.columnPosition - 1) w.blank } := by
  have hcol : checkedSub w.columnPosition 1 = some (w.columnPosition - 1) :=
    checkedSub_eq_some.mpr ⟨hpos, rfl⟩
  rw [writeByte, if_neg (by rw [hbs]; decide), if_pos hbs, if_pos hpos]
  simp only [hcol, Option.expect_some, bind, Except.bind]
  rw [writeCell_eq _ (by decide) (by omega)]

/-- There is nothing to remove at the beginning of the row. -/
theorem writeByte_backspace_of_zero (w : Writer) {byte : UInt8} (hbs : byte = 0x08)
    (hzero : w.columnPosition = 0) : w.writeByte byte = .ok w := by
  rw [writeByte, if_neg (by rw [hbs]; decide), if_pos hbs, if_neg (by omega)]

/-- `write_byte` of a byte that is shown, when the row has room. -/
theorem writeByte_of_room (w : Writer) {byte : UInt8} (hnl : byte ≠ 0x0a) (hbs : byte ≠ 0x08)
    (hroom : w.columnPosition < bufferWidth) :
    w.writeByte byte = .ok { w with
      columnPosition := w.columnPosition + 1
      buffer := w.buffer.set (bufferHeight - 1) w.columnPosition ⟨byte, w.colorCode⟩ } := by
  have hnext : checkedAdd w.columnPosition 1 = some (w.columnPosition + 1) :=
    checkedAdd_eq_some.mpr ⟨by have : w.columnPosition < 80 := hroom; omega, rfl⟩
  rw [writeByte, if_neg hnl, if_neg hbs, if_neg (not_le.mpr hroom)]
  simp only [bind, Except.bind, writeCell_eq w (show bufferHeight - 1 < bufferHeight by decide) hroom,
    hnext, Option.expect_some]

/-- `write_byte` of a byte that is shown, when the row is full: a newline first. -/
theorem writeByte_of_full (w : Writer) {byte : UInt8} (hnl : byte ≠ 0x0a) (hbs : byte ≠ 0x08)
    (hfull : bufferWidth ≤ w.columnPosition) :
    w.writeByte byte =
      Writer.writeByte { w with columnPosition := 0, buffer := w.buffer.scrolled w.blank } byte := by
  rw [writeByte, if_neg hnl, if_neg hbs, if_pos hfull, newLine_eq, writeByte, if_neg hnl,
    if_neg hbs, if_neg (show ¬ 0 ≥ bufferWidth by decide)]

/-- **One byte.** -/
theorem writeByte_shows {w : Writer} {t : Terminal ScreenChar} (h : w.Shows t) (byte : UInt8) :
    ∃ w', w.writeByte byte = .ok w' ∧ w'.colorCode = w.colorCode ∧
      w'.Shows (t.feed bufferWidth w.blank (byteInput w.colorCode byte)) := by
  have hle := h.columnPosition_le
  have hwidth : 0 < bufferWidth := by decide
  unfold byteInput
  split_ifs with hnl hbs
  · exact ⟨_, w.writeByte_newline hnl, rfl, h.newLine⟩
  · by_cases hpos : 0 < w.columnPosition
    · exact ⟨_, w.writeByte_backspace hbs hpos hle, rfl, h.backspace hpos⟩
    · have hzero : w.columnPosition = 0 := Nat.eq_zero_of_not_pos hpos
      have hsame : t.feed bufferWidth w.blank .backspace = t := by
        unfold Shows at h
        rw [hzero] at h
        exact h.backspace_of_empty
      rw [hsame]
      exact ⟨w, w.writeByte_backspace_of_zero hbs hzero, rfl, h⟩
  · by_cases hroom : w.columnPosition < bufferWidth
    · exact ⟨_, w.writeByte_of_room hnl hbs hroom, rfl, h.put hroom _⟩
    · have hfull : t.current.length = bufferWidth := by
        rw [← h.column]
        omega
      have hfeed : t.feed bufferWidth w.blank (.cell ⟨byte, w.colorCode⟩) =
          (t.newline bufferWidth w.blank).put bufferWidth w.blank ⟨byte, w.colorCode⟩ :=
        Terminal.put_of_full hfull hwidth _
      rw [hfeed, w.writeByte_of_full hnl hbs (not_lt.mp hroom)]
      exact ⟨_, writeByte_of_room _ hnl hbs hwidth, rfl, h.newLine.put hwidth _⟩

/-- A string, character by character. -/
theorem writeString_shows {w : Writer} {t : Terminal ScreenChar} (h : w.Shows t)
    (text : List Char) :
    ∃ w', text.foldlM (fun w c => w.writeByte (charByte c)) w = .ok w' ∧
      w'.colorCode = w.colorCode ∧
      w'.Shows (t.feedAll bufferWidth w.blank (text.map (charInput w.colorCode))) := by
  induction text generalizing w t with
  | nil => exact ⟨w, rfl, rfl, h⟩
  | cons c text ih =>
    obtain ⟨w₁, hbyte, hcolor₁, h₁⟩ := writeByte_shows h (charByte c)
    obtain ⟨w', hrest, hcolor, h'⟩ := ih h₁
    have hblank : w₁.blank = w.blank := by rw [blank, blank, hcolor₁]
    refine ⟨w', ?_, hcolor.trans hcolor₁, ?_⟩
    · rw [List.foldlM_cons, hbyte]
      exact hrest
    · rw [hblank, hcolor₁, byteInput_charByte] at h'
      exact h'

/-- The calls. -/
inductive Call
  | writeByte (byte : UInt8)
  | writeString (s : String)

/-- What a call feeds to a terminal. -/
def Call.inputs (colorCode : UInt8) : Call → List (Terminal.Input ScreenChar)
  | .writeByte byte => [byteInput colorCode byte]
  | .writeString s => s.toList.map (charInput colorCode)

/-- One call. -/
def step (w : Writer) : Call → Except Panic Writer
  | .writeByte byte => w.writeByte byte
  | .writeString s => w.writeString s

/-- **One call.** -/
theorem step_shows {w : Writer} {t : Terminal ScreenChar} (h : w.Shows t) (call : Call) :
    ∃ w', w.step call = .ok w' ∧ w'.colorCode = w.colorCode ∧
      w'.Shows (t.feedAll bufferWidth w.blank (call.inputs w.colorCode)) := by
  cases call with
  | writeByte byte => exact writeByte_shows h byte
  | writeString s => exact writeString_shows h s.toList

/-- **A sequence of calls.** -/
theorem run_shows {w : Writer} {t : Terminal ScreenChar} (h : w.Shows t) (calls : List Call) :
    ∃ w', Runs.run step w calls = .ok w' ∧
      w'.Shows (t.feedAll bufferWidth w.blank (calls.flatMap (Call.inputs w.colorCode))) := by
  induction calls generalizing w t with
  | nil => exact ⟨w, rfl, h⟩
  | cons call calls ih =>
    obtain ⟨w₁, hstep, hcolor₁, h₁⟩ := step_shows h call
    obtain ⟨w', hrest, h'⟩ := ih h₁
    have hblank : w₁.blank = w.blank := by rw [blank, blank, hcolor₁]
    refine ⟨w', ?_, ?_⟩
    · rw [Runs.run, hstep]
      exact hrest
    · rw [List.flatMap_cons, Terminal.feedAll_append]
      rw [hblank, hcolor₁] at h'
      exact h'

/-- **The screen is the end of a terminal.**  From any buffer and with the column at 0, no
sequence of calls panics, the column stays within the row, and the screen shows the last 25 rows
of a terminal that takes over the rows of the buffer.  If the bottom row was blank at the start,
every cell that holds nothing is blank. -/
theorem screen_is_end_of_terminal (colorCode : UInt8) (buffer : Buffer) (calls : List Call) :
    ∃ (w : Writer) (t : Terminal ScreenChar), Runs.run step ⟨0, colorCode, buffer⟩ calls = .ok w ∧
      t = (Terminal.takeOver buffer.rows).feedAll bufferWidth ⟨0x20, colorCode⟩
        (calls.flatMap (Call.inputs colorCode)) ∧
      w.columnPosition = t.current.length ∧ w.columnPosition ≤ bufferWidth ∧
      w.buffer.rows = t.lines.drop (t.lines.length - bufferHeight) ∧
      (buffer.bottom = List.replicate bufferWidth ⟨0x20, colorCode⟩ →
        t.behind = List.replicate bufferWidth ⟨0x20, colorCode⟩) := by
  have hstart : Shows ⟨0, colorCode, buffer⟩ (Terminal.takeOver buffer.rows) := by
    unfold Shows
    rw [Buffer.rows_eq]
    exact Terminal.shows_takeOver buffer.length_bottom
  obtain ⟨w, hrun, h⟩ := run_shows hstart calls
  refine ⟨w, _, hrun, rfl, h.column, h.columnPosition_le, ?_, ?_⟩
  · have hlast := List.suffix_iff_eq_drop.mp h.last
    rw [Buffer.length_rows] at hlast
    exact hlast
  · intro hblank
    refine Terminal.behind_feedAll_of_blank _ _ ?_ _
    rw [Terminal.takeOver, Buffer.rows_eq, List.getLast?_concat]
    exact hblank

/-- The terminal that begins with a blank row in the place of the bottom row. -/
def blankStart (colorCode : UInt8) (buffer : Buffer) : Terminal ScreenChar :=
  ⟨buffer.upper, [], List.replicate bufferWidth ⟨0x20, colorCode⟩⟩

/-- A screen full of `x`. -/
def crossed : Buffer := fun _ _ => ⟨0x78, 0x0f⟩

/-- On a screen full of `x`, the cells behind a written `a` are not blank. -/
theorem unwritten_cells_not_blank :
    ∃ (w : Writer) (t : Terminal ScreenChar),
      Runs.run step ⟨0, 0x0f, crossed⟩ [.writeByte 0x61] = .ok w ∧
      t = (blankStart 0x0f crossed).feedAll bufferWidth ⟨0x20, 0x0f⟩ [byteInput 0x0f 0x61] ∧
      w.buffer.rows ≠ t.lines.drop (t.lines.length - bufferHeight) := by
  have hstep : Writer.writeByte ⟨0, 0x0f, crossed⟩ 0x61 =
      .ok ⟨1, 0x0f, crossed.set (bufferHeight - 1) 0 ⟨0x61, 0x0f⟩⟩ :=
    writeByte_of_room _ (by decide) (by decide) (by decide)
  refine ⟨⟨1, 0x0f, crossed.set (bufferHeight - 1) 0 ⟨0x61, 0x0f⟩⟩, _, ?_, rfl, by decide +kernel⟩
  rw [Runs.run, step, hstep]
  rfl

end Writer

end Vga
