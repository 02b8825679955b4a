/-
# A scrolling terminal

What a text terminal shows, without a screen: the rows it has finished, oldest first, and
the cells of the row it is writing.  A row is `width` cells wide and is finished by a
newline, or when a cell is put into a full row.

`behind` is what shows where the current row has no cell yet.  It is blank in every row
that a terminal begins itself; in the row in which it takes over a screen that is not
empty it is whatever that row held.
-/
import Mathlib

/-- A terminal with cells of type `α`. -/
structure Terminal (α : Type*) where
  finished : List (List α)
  current : List α
  behind : List α

namespace Terminal

variable {α : Type*}

/-- What is fed to a terminal. -/
inductive Input (α : Type*)
  | newline
  | backspace
  | cell (c : α)

/-- The current row, over its whole width. -/
def row (t : Terminal α) : List α := t.current ++ t.behind.drop t.current.length

/-- All rows, oldest first. -/
def lines (t : Terminal α) : List (List α) := t.finished ++ [t.row]

/-- A terminal that takes over a screen at the beginning of its last row. -/
def takeOver (rows : List (List α)) : Terminal α :=
  ⟨rows.dropLast, [], rows.getLast?.getD []⟩

variable (width : ℕ) (blank : α)

/-- Finishes the current row. -/
def newline (t : Terminal α) : Terminal α := ⟨t.lines, [], List.replicate width blank⟩

/-- Removes the last cell of the current row, if it has one. -/
def backspace (t : Terminal α) : Terminal α :=
  if t.current = [] then t
  else ⟨t.finished, t.current.dropLast, t.behind.set (t.current.length - 1) blank⟩

/-- Adds a cell, in a new row if the current one is full. -/
def put (t : Terminal α) (c : α) : Terminal α :=
  if t.current.length = width then ⟨t.lines, [c], List.replicate width blank⟩
  else ⟨t.finished, t.current ++ [c], t.behind⟩

/-- One input. -/
def feed (t : Terminal α) : Input α → Terminal α
  | .newline => t.newline width blank
  | .backspace => t.backspace blank
  | .cell c => t.put width blank c

/-- A sequence of inputs. -/
def feedAll (t : Terminal α) (inputs : List (Input α)) : Terminal α :=
  inputs.foldl (feed width blank) t

theorem feedAll_append (t : Terminal α) (inputs inputs' : List (Input α)) :
    t.feedAll width blank (inputs ++ inputs') =
      (t.feedAll width blank inputs).feedAll width blank inputs' :=
  List.foldl_append

/-! ## The current row -/

/-- A cell put into a row that has room replaces what was behind it. -/
theorem row_append {cells behind : List α} (hroom : cells.length < behind.length) (c : α) :
    (cells ++ [c]) ++ behind.drop (cells ++ [c]).length =
      (cells ++ behind.drop cells.length).set cells.length c := by
  have hsplit : behind.drop cells.length =
      behind[cells.length] :: behind.drop (cells.length + 1) := List.drop_eq_getElem_cons hroom
  rw [List.set_append_right _ _ le_rfl, Nat.sub_self, hsplit, List.set_cons_zero,
    List.length_append, List.length_singleton, List.append_assoc, List.singleton_append]

/-- A cell taken from the end of a row leaves a blank. -/
theorem row_dropLast {cells behind : List α} (hcells : cells ≠ [])
    (hlen : cells.length ≤ behind.length) :
    cells.dropLast ++ (behind.set (cells.length - 1) blank).drop cells.dropLast.length =
      (cells ++ behind.drop cells.length).set (cells.length - 1) blank := by
  obtain ⟨front, c, rfl⟩ : ∃ front c, cells = front ++ [c] :=
    (List.eq_nil_or_concat' cells).resolve_left hcells
  rw [List.length_append, List.length_singleton] at hlen
  have hlast : (front ++ [c]).length - 1 = front.length := by
    rw [List.length_append, List.length_singleton, Nat.add_sub_cancel]
  rw [row_append (by omega), hlast, List.dropLast_concat, List.set_set, List.drop_set,
    if_neg (lt_irrefl _), List.set_append_right _ _ le_rfl]

/-! ## A screen of fixed height

`Shows` relates a terminal to a screen that has only the last rows, with a cursor in its
bottom row.  Each operation of the terminal is one operation on the screen: scrolling, or a
store into the bottom row. -/

variable {width blank}

/-- The screen shows the last rows of the terminal, and the cursor stands behind the last cell
of its current row. -/
structure Shows (width : ℕ) (screen : List (List α)) (column : ℕ) (t : Terminal α) : Prop where
  last : screen <:+ t.lines
  column : column = t.current.length
  le_width : t.current.length ≤ width
  behind : t.behind.length = width

theorem shows_takeOver {upper : List (List α)} {bottom : List α} (h : bottom.length = width) :
    Shows width (upper ++ [bottom]) 0 (takeOver (upper ++ [bottom])) where
  last := by
    rw [takeOver, lines, row, List.dropLast_concat, List.getLast?_concat]
    exact List.suffix_rfl
  column := rfl
  le_width := Nat.zero_le _
  behind := by
    rw [takeOver, List.getLast?_concat]
    exact h

theorem lines_newline (t : Terminal α) :
    (t.newline width blank).lines = t.lines ++ [List.replicate width blank] := rfl

/-- **Scrolling.** -/
theorem Shows.newline {screen : List (List α)} {column : ℕ} {t : Terminal α}
    (h : Shows width screen column t) :
    Shows width (screen.tail ++ [List.replicate width blank]) 0 (t.newline width blank) where
  last := by
    obtain ⟨older, holder⟩ := (List.tail_suffix screen).trans h.last
    exact ⟨older, by rw [lines_newline, ← holder, List.append_assoc]⟩
  column := rfl
  le_width := Nat.zero_le _
  behind := List.length_replicate

/-- What the two parts of a screen show. -/
theorem Shows.upper_bottom {upper : List (List α)} {bottom : List α} {column : ℕ}
    {t : Terminal α} (h : Shows width (upper ++ [bottom]) column t) :
    upper <:+ t.finished ∧ bottom = t.row := by
  obtain ⟨older, holder⟩ := h.last
  rw [← List.append_assoc, lines, List.append_singleton_inj] at holder
  exact ⟨⟨older, holder.1⟩, holder.2⟩

theorem suffix_lines {upper : List (List α)} {t : Terminal α} (h : upper <:+ t.finished) :
    upper ++ [t.row] <:+ t.lines := by
  obtain ⟨older, holder⟩ := h
  exact ⟨older, by rw [lines, ← holder, List.append_assoc]⟩

/-- **A store at the cursor.** -/
theorem Shows.put {upper : List (List α)} {bottom : List α} {column : ℕ} {t : Terminal α}
    (h : Shows width (upper ++ [bottom]) column t) (hroom : column < width) (c : α) :
    Shows width (upper ++ [bottom.set column c]) (column + 1) (t.put width blank c) := by
  obtain ⟨hupper, hbottom⟩ := h.upper_bottom
  have hput : t.put width blank c = ⟨t.finished, t.current ++ [c], t.behind⟩ :=
    if_neg (by rw [← h.column]; omega)
  have hlen : (t.current ++ [c]).length = column + 1 := by
    rw [h.column, List.length_append, List.length_singleton]
  have hrow : bottom.set column c = (t.put width blank c).row := by
    rw [hput, row, row_append (by rw [h.behind, ← h.column]; exact hroom), hbottom, h.column, row]
  rw [hrow]
  refine ⟨suffix_lines ?_, ?_, ?_, ?_⟩
  · rw [hput]
    exact hupper
  · rw [hput, hlen]
  · rw [hput, hlen]
    exact hroom
  · rw [hput]
    exact h.behind

/-- Putting a cell into a full row is a newline first. -/
theorem put_of_full {t : Terminal α} (hfull : t.current.length = width) (hwidth : 0 < width)
    (c : α) : t.put width blank c = (t.newline width blank).put width blank c := by
  rw [put, if_pos hfull, put, if_neg]
  · rfl
  · exact hwidth.ne

/-- **A blank before the cursor.** -/
theorem Shows.backspace {upper : List (List α)} {bottom : List α} {column : ℕ} {t : Terminal α}
    (h : Shows width (upper ++ [bottom]) column t) (hpos : 0 < column) :
    Shows width (upper ++ [bottom.set (column - 1) blank]) (column - 1) (t.backspace blank) := by
  obtain ⟨hupper, hbottom⟩ := h.upper_bottom
  have hcells : t.current ≠ [] := by
    rw [h.column] at hpos
    exact List.length_pos_iff.mp hpos
  have herase : t.backspace blank =
      ⟨t.finished, t.current.dropLast, t.behind.set (t.current.length - 1) blank⟩ := if_neg hcells
  have hrow : bottom.set (column - 1) blank = (t.backspace blank).row := by
    rw [herase, row, row_dropLast blank hcells (by rw [h.behind]; exact h.le_width), hbottom,
      h.column, row]
  have hle := h.le_width
  rw [hrow]
  refine ⟨suffix_lines ?_, ?_, ?_, ?_⟩
  · rw [herase]
    exact hupper
  · rw [herase, List.length_dropLast, h.column]
  · rw [herase, List.length_dropLast]
    omega
  · rw [herase, List.length_set]
    exact h.behind

theorem Shows.backspace_of_empty {screen : List (List α)} {t : Terminal α}
    (h : Shows width screen 0 t) : t.backspace blank = t :=
  if_pos (List.eq_nil_of_length_eq_zero h.column.symm)

/-! ## Blank rows -/

variable (width blank)

theorem behind_feed_of_blank {t : Terminal α} (h : t.behind = List.replicate width blank)
    (i : Input α) : (t.feed width blank i).behind = List.replicate width blank := by
  cases i with
  | newline => rfl
  | backspace =>
    show (t.backspace blank).behind = _
    unfold backspace
    split_ifs with hempty
    · exact h
    · show t.behind.set _ blank = _
      rw [h, List.set_replicate_self]
  | cell c =>
    show (t.put width blank c).behind = _
    unfold put
    split_ifs with hfull
    · rfl
    · exact h

/-- A terminal that starts in a blank row shows blanks in every cell that holds nothing. -/
theorem behind_feedAll_of_blank {t : Terminal α} (h : t.behind = List.replicate width blank)
    (inputs : List (Input α)) :
    (t.feedAll width blank inputs).behind = List.replicate width blank := by
  induction inputs generalizing t with
  | nil => exact h
  | cons i inputs ih => exact ih (behind_feed_of_blank width blank h i)

end Terminal
