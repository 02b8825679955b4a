/-
# Fixed-size buffers

Buffers of `n` cells with bounds-checked access, and the loop that copies from one
to another.  An access outside its buffer has no result, so a computation that has
one stayed inside.

`store_spec` and `copy_spec` say that an access in bounds succeeds and what every
cell holds afterwards; `slice` reads a range of cells as a list.
-/
import Mathlib.Data.List.Range
import Mathlib.Tactic

/-- A buffer of `n` cells. -/
abbrev Buffer (α : Type*) (n : ℕ) := Fin n → α

namespace Buffer

variable {α : Type*} [Inhabited α] {m n : ℕ}

/-- The content of a cell. -/
def get (b : Buffer α n) (i : ℕ) : α := if h : i < n then b ⟨i, h⟩ else default

/-- A range of cells, as a list. -/
def slice (b : Buffer α n) (lo len : ℕ) : List α := (List.range len).map (fun i => get b (lo + i))

/-- Reads a cell. -/
def load (b : Buffer α n) (i : ℕ) : Option α := if i < n then some (get b i) else none

/-- Reads a range of cells. -/
def read (b : Buffer α n) (lo len : ℕ) : Option (List α) :=
  if lo + len ≤ n then some (slice b lo len) else none

/-- Writes a cell. -/
def store (b : Buffer α n) (i : ℕ) (x : α) : Option (Buffer α n) :=
  if h : i < n then some (Function.update b ⟨i, h⟩ x) else none

/-- The loop `dst[d + i] = src[s + i]` for `k` more values of `i`. -/
def copy (src : Buffer α m) (s d : ℕ) : ℕ → ℕ → Buffer α n → Option (Buffer α n)
  | _, 0, dst => some dst
  | i, k + 1, dst => do
    let x ← load src (s + i)
    let dst ← store dst (d + i) x
    copy src s d (i + 1) k dst

theorem load_of_lt (b : Buffer α n) {i : ℕ} (h : i < n) : load b i = some (get b i) := if_pos h

theorem read_of_le (b : Buffer α n) {lo len : ℕ} (h : lo + len ≤ n) :
    read b lo len = some (slice b lo len) := if_pos h

/-- Writing a cell of the buffer changes that cell and no other. -/
theorem store_spec (b : Buffer α n) {i : ℕ} (h : i < n) (x : α) :
    ∃ b', store b i x = some b' ∧ ∀ j, get b' j = if j = i then x else get b j := by
  refine ⟨Function.update b ⟨i, h⟩ x, dif_pos h, fun j => ?_⟩
  unfold get
  by_cases hj : j < n
  · rw [dif_pos hj, dif_pos hj, Function.update_apply]
    simp only [Fin.mk.injEq]
  · rw [dif_neg hj, dif_neg hj, if_neg (by omega)]

/-- If both ranges are inside their buffers the loop ends: the target range has the cells of the
source range, and the other cells are as they were. -/
theorem copy_spec (src : Buffer α m) (s d : ℕ) {i k : ℕ} (dst : Buffer α n)
    (hs : s + (i + k) ≤ m) (hd : d + (i + k) ≤ n) :
    ∃ dst', copy src s d i k dst = some dst' ∧
      ∀ j, get dst' j =
        if d + i ≤ j ∧ j < d + (i + k) then get src (s + (j - d)) else get dst j := by
  induction k generalizing i dst with
  | zero => exact ⟨dst, rfl, fun j => (if_neg (by omega)).symm⟩
  | succ k ih =>
    obtain ⟨dst₁, hstore, hget₁⟩ := store_spec dst (i := d + i) (by omega) (get src (s + i))
    obtain ⟨dst₂, hcopy, hget₂⟩ := ih (i := i + 1) dst₁ (by omega) (by omega)
    refine ⟨dst₂, ?_, fun j => ?_⟩
    · rw [copy, load_of_lt src (by omega), Option.bind_eq_bind, Option.bind_some, hstore,
        Option.bind_eq_bind, Option.bind_some, hcopy]
    · rw [hget₂ j, hget₁ j]
      by_cases hj : j = d + i
      · subst hj
        rw [if_neg (by omega), if_pos rfl, if_pos (by omega)]
        congr 2
        omega
      · rw [if_neg hj]
        by_cases hin : d + (i + 1) ≤ j ∧ j < d + (i + 1 + k)
        · rw [if_pos hin, if_pos (by omega)]
        · rw [if_neg hin, if_neg (by omega)]

/-! ## Slices -/

/-- A slice is as long as asked for, whatever the buffer. -/
@[simp] theorem length_slice (b : Buffer α n) (lo len : ℕ) : (slice b lo len).length = len := by
  simp [slice]

@[simp] theorem slice_zero (b : Buffer α n) (lo : ℕ) : slice b lo 0 = [] := rfl

/-- A slice that is one cell longer, at its end. -/
theorem slice_succ (b : Buffer α n) (lo len : ℕ) :
    slice b lo (len + 1) = slice b lo len ++ [get b (lo + len)] := by
  rw [slice, List.range_succ, List.map_append]
  rfl

/-- A slice that is one cell longer, at its beginning. -/
theorem slice_cons (b : Buffer α n) (lo len : ℕ) :
    slice b lo (len + 1) = get b lo :: slice b (lo + 1) len := by
  unfold slice
  rw [List.range_succ_eq_map, List.map_cons, List.map_map, Nat.add_zero]
  congr 1
  refine List.map_congr_left (fun i _ => ?_)
  show get b (lo + (i + 1)) = get b (lo + 1 + i)
  congr 1
  omega

/-- Two slices that follow one another. -/
theorem slice_add (b : Buffer α n) (lo len len' : ℕ) :
    slice b lo (len + len') = slice b lo len ++ slice b (lo + len) len' := by
  induction len' with
  | zero => simp
  | succ k ih =>
    rw [← Nat.add_assoc, slice_succ, ih, slice_succ, List.append_assoc]
    congr 4
    omega

/-- Equal cells make equal slices, also of different buffers. -/
theorem slice_congr {b : Buffer α n} {b' : Buffer α m} {lo lo' len : ℕ}
    (h : ∀ i < len, get b' (lo' + i) = get b (lo + i)) : slice b' lo' len = slice b lo len :=
  List.map_congr_left (fun i hi => h i (List.mem_range.mp hi))

end Buffer
