/-
# A fixed-capacity ring buffer and its FIFO meaning

`RingBuffer α n` is an inline array of `n` cells with a read position `head` and a
count `len`; element number `k` of the queue sits in cell `(head + k) % n`.  The
two bounds that make every index legal are fields, so a ring that would index
outside its array cannot be built.

The FIFO list behind a ring is `toList`.  The two operations are characterised on
it (`toList_push`, `toList_eq_cons_pop`), and nothing after this file looks at
cells again.
-/
import Mathlib

/-- A ring of `n` cells: element `k` of the queue is in cell `(head + k) % n`. -/
structure RingBuffer (α : Type*) (n : ℕ) where
  buf : Fin n → α
  head : ℕ
  len : ℕ
  head_lt : head < n
  len_le : len ≤ n

namespace RingBuffer

variable {α : Type*} {n : ℕ}

theorem capacity_pos (r : RingBuffer α n) : 0 < n :=
  Nat.lt_of_le_of_lt (Nat.zero_le _) r.head_lt

/-- The cell of the `k`-th element. -/
def cell (r : RingBuffer α n) (k : ℕ) : Fin n :=
  ⟨(r.head + k) % n, Nat.mod_lt _ r.capacity_pos⟩

/-- The queue a ring stands for, front first. -/
def toList (r : RingBuffer α n) : List α :=
  (List.range r.len).map (fun k => r.buf (r.cell k))

/-- Writes at the end of the queue. -/
def push (r : RingBuffer α n) (x : α) (h : r.len < n) : RingBuffer α n where
  buf := Function.update r.buf (r.cell r.len) x
  head := r.head
  len := r.len + 1
  head_lt := r.head_lt
  len_le := h

/-- Reads the front of the queue. -/
def front (r : RingBuffer α n) : α := r.buf ⟨r.head, r.head_lt⟩

/-- Drops the front of the queue; the cell keeps its stale content. -/
def pop (r : RingBuffer α n) : RingBuffer α n where
  buf := r.buf
  head := (r.head + 1) % n
  len := r.len - 1
  head_lt := Nat.mod_lt _ r.capacity_pos
  len_le := (Nat.sub_le _ _).trans r.len_le

@[simp] theorem length_toList (r : RingBuffer α n) : r.toList.length = r.len := by
  simp [toList]

/-- Distinct positions below the capacity sit in distinct cells. -/
theorem cell_ne_cell (r : RingBuffer α n) {j k : ℕ} (hjk : j < k) (hk : k < n) :
    r.cell j ≠ r.cell k := by
  intro h
  have hmod : (r.head + j) % n = (r.head + k) % n := congrArg Fin.val h
  have hhead := r.head_lt
  -- both sums are below `2 * n`, so at most one wrap separates them
  rcases Nat.lt_or_ge (r.head + j) n with hj | hj
  · rw [Nat.mod_eq_of_lt hj] at hmod
    rcases Nat.lt_or_ge (r.head + k) n with hk' | hk'
    · rw [Nat.mod_eq_of_lt hk'] at hmod
      omega
    · rw [Nat.mod_eq_sub_mod hk', Nat.mod_eq_of_lt (by omega)] at hmod
      omega
  · rw [Nat.mod_eq_sub_mod hj, Nat.mod_eq_of_lt (by omega),
      Nat.mod_eq_sub_mod (by omega : n ≤ r.head + k), Nat.mod_eq_of_lt (by omega)] at hmod
    omega

/-- **Push appends.** -/
theorem toList_push (r : RingBuffer α n) (x : α) (h : r.len < n) :
    (r.push x h).toList = r.toList ++ [x] := by
  have hold : ∀ k ∈ List.range r.len,
      (r.push x h).buf ((r.push x h).cell k) = r.buf (r.cell k) := by
    intro k hk
    show Function.update r.buf (r.cell r.len) x (r.cell k) = _
    exact Function.update_of_ne (r.cell_ne_cell (List.mem_range.mp hk) h) _ _
  have hnew : (r.push x h).buf ((r.push x h).cell r.len) = x := by
    show Function.update r.buf (r.cell r.len) x (r.cell r.len) = x
    exact Function.update_self ..
  rw [toList, show (r.push x h).len = r.len + 1 from rfl, List.range_succ, List.map_append,
    List.map_congr_left hold, List.map_singleton, hnew]
  rfl

/-- **Pop takes the front.** -/
theorem toList_eq_cons_pop (r : RingBuffer α n) (h : r.len ≠ 0) :
    r.toList = r.front :: r.pop.toList := by
  have hlen : r.len = r.pop.len + 1 := by
    show r.len = r.len - 1 + 1
    omega
  have hfront : r.buf (r.cell 0) = r.front := by
    simp only [front, cell, Nat.add_zero, Nat.mod_eq_of_lt r.head_lt]
  have hrest : ∀ k, r.buf (r.cell (k + 1)) = r.pop.buf (r.pop.cell k) := by
    intro k
    have hcell : r.cell (k + 1) = r.pop.cell k := by
      apply Fin.ext
      show (r.head + (k + 1)) % n = ((r.head + 1) % n + k) % n
      rw [Nat.mod_add_mod, Nat.add_assoc, Nat.add_comm 1 k]
    rw [hcell]
    rfl
  rw [toList, hlen, List.range_succ_eq_map, List.map_cons, List.map_map, hfront]
  congr 1
  apply List.map_congr_left
  intro k _
  exact hrest k

theorem toList_eq_nil_iff (r : RingBuffer α n) : r.toList = [] ↔ r.len = 0 := by
  rw [← List.length_eq_zero_iff, length_toList]

end RingBuffer
