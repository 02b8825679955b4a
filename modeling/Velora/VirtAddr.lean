/-
# Virtual addresses and pages

The address arithmetic every other file rests on: `u64` operations with their
overflow checks, and the `VirtAddr` and `Page` types of the x86_64 crate as its
documentation describes them.

* `VirtAddr::new` and `try_new` accept canonical addresses, sign-extend bit 47
  when bits 48 to 63 are zero, and reject everything else; `new` panics where
  `try_new` returns an error.
* `Page + n` goes through `VirtAddr::new`, so a page walk that runs past the
  lower half continues, sign-extended, in the upper half.

A value of type `VirtAddr` carries the proof that it is canonical, a value of
type `Page` the proof that it is page-aligned.
-/
import Mathlib

/-! ## Panics

Every way a modelled function can panic.  The docstrings quote the messages. -/

/-- The panics of the modelled code. -/
inductive Panic
  /-- `VirtAddr::new` on an address that is not canonical. -/
  | virtAddrNotValid
  /-- An unchecked `+`, `-` or `*` out of range. -/
  | arithmeticOverflow
  /-- An array index out of range. -/
  | indexOutOfBounds
  /-- "scheduler not initialized" -/
  | schedulerNotInitialized
  /-- "ready queue full" -/
  | readyQueueFull
  /-- "current thread missing from thread table" -/
  | currentThreadMissing
  /-- "next thread missing from thread table" -/
  | nextThreadMissing
  /-- "exit_current_thread: no other thread left to run" -/
  | noOtherThread
  /-- "the boot thread can't exit" -/
  | bootThreadExit
  /-- "thread table full (MAX_THREADS exceeded)" -/
  | threadTableFull
  /-- "kernel thread stack allocation failed" -/
  | stackAllocationFailed
  /-- "thread_trampoline entered for a thread with no entry point" -/
  | noEntryPoint
  /-- "ring3_trampoline entered for a thread with no user entry point" -/
  | noUserEntryPoint
  /-- "no physical frames left for a new address space's L4 table" -/
  | noFramesForL4
  /-- "no physical frames left to load ELF segment" -/
  | noFramesForSegment
  /-- "failed to map ELF segment page" -/
  | mapSegmentFailed
  /-- "no physical frames left for the ring 3 demo page" -/
  | noFramesForDemoPage
  /-- "failed to map the ring 3 demo page" -/
  | mapDemoPageFailed
  /-- "thread stack page vanished right after being allocated" -/
  | stackPageVanished
  /-- "failed to share a thread stack page into its isolated address space" -/
  | shareStackFailed
  /-- "present L4 entry with no frame (huge page?)" -/
  | presentL4EntryWithoutFrame
  /-- "present page-table entry with no frame (huge page?)" -/
  | presentEntryWithoutFrame
  /-- "memory allocation of ... bytes failed" -/
  | allocationFailed
  /-- "LBA28 only supports 28-bit sector addresses" -/
  | lbaTooLarge
  deriving DecidableEq, Repr

/-- `Option::expect`. -/
def Option.expect {α : Type*} (p : Panic) : Option α → Except Panic α
  | some x => .ok x
  | none => .error p

@[simp] theorem Option.expect_some {α : Type*} (p : Panic) (x : α) :
    (some x).expect p = .ok x := rfl

@[simp] theorem Option.expect_none {α : Type*} (p : Panic) :
    (none : Option α).expect p = .error p := rfl

theorem Option.expect_eq_ok {α : Type*} {p : Panic} {o : Option α} {x : α}
    (h : o.expect p = .ok x) : o = some x := by
  cases o with
  | none => cases h
  | some y => cases h; rfl

/-- Inversion of a sequence that completed: both parts did. -/
theorem bind_eq_ok {ε α β : Type} {x : Except ε α} {f : α → Except ε β} {r : β}
    (h : (x >>= f) = .ok r) : ∃ a, x = .ok a ∧ f a = .ok r := by
  cases x with
  | error e => cases h
  | ok a => exact ⟨a, rfl, h⟩

/-- Inversion of a failed `do` block: the first part fails, or the rest does. -/
theorem bind_eq_error {ε α β : Type} {x : Except ε α} {f : α → Except ε β} {e : ε}
    (h : (x >>= f) = .error e) : x = .error e ∨ ∃ a, x = .ok a ∧ f a = .error e := by
  cases x with
  | error e' => cases h; exact Or.inl rfl
  | ok a => exact Or.inr ⟨a, rfl, h⟩

/-! ## Checked `u64` arithmetic -/

/-- `u64::checked_add`. -/
def checkedAdd (a b : ℕ) : Option ℕ :=
  if a + b < 0x10000000000000000 then some (a + b) else none

/-- `u64::checked_sub`. -/
def checkedSub (a b : ℕ) : Option ℕ :=
  if b ≤ a then some (a - b) else none

/-- `u64::checked_mul`. -/
def checkedMul (a b : ℕ) : Option ℕ :=
  if a * b < 0x10000000000000000 then some (a * b) else none

theorem checkedAdd_eq_some {a b c : ℕ} :
    checkedAdd a b = some c ↔ a + b < 0x10000000000000000 ∧ a + b = c := by
  unfold checkedAdd
  split_ifs with h <;> simp [h]

theorem checkedSub_eq_some {a b c : ℕ} :
    checkedSub a b = some c ↔ b ≤ a ∧ a - b = c := by
  unfold checkedSub
  split_ifs with h <;> simp [h]

/-! ## Virtual addresses -/

/-- A canonical 64-bit virtual address: bits 47 to 63 are equal. -/
@[ext] structure VirtAddr where
  val : ℕ
  canonical : val < 0x800000000000 ∨
    (0xffff800000000000 ≤ val ∧ val < 0x10000000000000000)
  deriving DecidableEq

namespace VirtAddr

/-- The addresses of the lower half are canonical. -/
theorem canonical_of_lower {a : ℕ} (h : a < 0x800000000000) :
    a < 0x800000000000 ∨ (0xffff800000000000 ≤ a ∧ a < 0x10000000000000000) :=
  Or.inl h

/-- `VirtAddr::try_new`: bits 47 to 63 decide.  All clear or all set, the address is
canonical; only bit 47 set, it is sign-extended; anything else is an error. -/
def tryNew (a : ℕ) : Option VirtAddr :=
  if h₁ : a < 0x800000000000 then some ⟨a, canonical_of_lower h₁⟩
  else if h₂ : a < 0x1000000000000 then
    some ⟨a + 0xffff000000000000, Or.inr (by omega)⟩
  else if h₃ : 0xffff800000000000 ≤ a ∧ a < 0x10000000000000000 then some ⟨a, Or.inr h₃⟩
  else none

/-- `VirtAddr::new`. -/
def new (a : ℕ) : Except Panic VirtAddr :=
  (tryNew a).expect .virtAddrNotValid

/-- `VirtAddr + u64`. -/
def add (v : VirtAddr) (n : ℕ) : Except Panic VirtAddr :=
  if v.val + n < 0x10000000000000000 then new (v.val + n) else .error .arithmeticOverflow

/-- An index into the level-4 table. -/
def p4Index (v : VirtAddr) : Fin 512 := ⟨v.val / 0x8000000000 % 512, Nat.mod_lt _ (by decide)⟩

/-- An index into a level-3 table. -/
def p3Index (v : VirtAddr) : Fin 512 := ⟨v.val / 0x40000000 % 512, Nat.mod_lt _ (by decide)⟩

/-- An index into a level-2 table. -/
def p2Index (v : VirtAddr) : Fin 512 := ⟨v.val / 0x200000 % 512, Nat.mod_lt _ (by decide)⟩

/-- An index into a level-1 table. -/
def p1Index (v : VirtAddr) : Fin 512 := ⟨v.val / 0x1000 % 512, Nat.mod_lt _ (by decide)⟩

/-- The offset of an address in its page. -/
def pageOffset (v : VirtAddr) : Fin 4096 := ⟨v.val % 4096, Nat.mod_lt _ (by decide)⟩

theorem lt_u64 (v : VirtAddr) : v.val < 0x10000000000000000 := by
  rcases v.canonical with h | h
  · omega
  · exact h.2

theorem tryNew_of_lower {a : ℕ} (h : a < 0x800000000000) :
    tryNew a = some ⟨a, Or.inl h⟩ := by
  unfold tryNew
  rw [dif_pos h]

theorem tryNew_of_upper {a : ℕ} (h : 0xffff800000000000 ≤ a ∧ a < 0x10000000000000000) :
    tryNew a = some ⟨a, Or.inr h⟩ := by
  unfold tryNew
  rw [dif_neg (by omega), dif_neg (by omega), dif_pos h]

theorem tryNew_of_bit47 {a : ℕ} (h₁ : 0x800000000000 ≤ a) (h₂ : a < 0x1000000000000) :
    tryNew a = some ⟨a + 0xffff000000000000, Or.inr (by omega)⟩ := by
  unfold tryNew
  rw [dif_neg (by omega), dif_pos h₂]

/-- What `try_new` returns: the address itself, or its sign extension. -/
theorem tryNew_eq_some {a : ℕ} {v : VirtAddr} (h : tryNew a = some v) :
    (v.val = a ∧ (a < 0x800000000000 ∨ 0xffff800000000000 ≤ a)) ∨
      (0x800000000000 ≤ a ∧ a < 0x1000000000000 ∧ v.val = a + 0xffff000000000000) := by
  unfold tryNew at h
  split_ifs at h with h₁ h₂ h₃
  · cases h; exact Or.inl ⟨rfl, Or.inl h₁⟩
  · cases h; exact Or.inr ⟨by omega, h₂, rfl⟩
  · cases h; exact Or.inl ⟨rfl, Or.inr h₃.1⟩

/-- `try_new` fails exactly between the two halves. -/
theorem tryNew_eq_none {a : ℕ} (ha : a < 0x10000000000000000) :
    tryNew a = none ↔ 0x1000000000000 ≤ a ∧ a < 0xffff800000000000 := by
  unfold tryNew
  split_ifs with h₁ h₂ h₃ <;> simp <;> omega

end VirtAddr

/-! ## Pages -/

/-- A 4 KiB page, named by its start address. -/
@[ext] structure Page where
  start : VirtAddr
  aligned : start.val % 4096 = 0
  deriving DecidableEq

namespace Page

/-- `Page::containing_address`. -/
def containing (v : VirtAddr) : Page where
  start := ⟨v.val - v.val % 4096, by
    have := v.canonical
    omega⟩
  aligned := by
    show (v.val - v.val % 4096) % 4096 = 0
    omega

/-- `Page + u64`: the scaled offset is added through `VirtAddr::new`. -/
def add (p : Page) (n : ℕ) : Except Panic Page :=
  if n * 4096 < 0x10000000000000000 then (p.start.add (n * 4096)).map containing
  else .error .arithmeticOverflow

/-- `Page - Page`, in pages. -/
def sub (p q : Page) : Except Panic ℕ :=
  if q.start.val ≤ p.start.val then .ok ((p.start.val - q.start.val) / 4096)
  else .error .arithmeticOverflow

/-- The four table indices on the way to a page, level 4 first. -/
def path (p : Page) : List (Fin 512) :=
  [p.start.p4Index, p.start.p3Index, p.start.p2Index, p.start.p1Index]

theorem containing_val (v : VirtAddr) : (containing v).start.val = v.val - v.val % 4096 := rfl

/-- An aligned address is the start of its page. -/
theorem containing_of_aligned {v : VirtAddr} (h : v.val % 4096 = 0) : containing v = ⟨v, h⟩ := by
  apply Page.ext
  apply VirtAddr.ext
  rw [containing_val, h, Nat.sub_zero]

/-- Addresses with the same page number are on the same page. -/
theorem containing_eq_of_div {v w : VirtAddr} (h : v.val / 4096 = w.val / 4096) :
    containing v = containing w := by
  apply Page.ext
  apply VirtAddr.ext
  rw [containing_val, containing_val]
  omega

/-- A page in the lower half, from its start address. -/
def ofLower (a : ℕ) (h : a < 0x800000000000) (ha : a % 4096 = 0) : Page :=
  ⟨⟨a, Or.inl h⟩, ha⟩

/-- `Page + n` is the page at the address that `VirtAddr::new` accepts. -/
theorem add_of_tryNew {p : Page} {n : ℕ} {v : VirtAddr}
    (hlt : p.start.val + n * 4096 < 0x10000000000000000) (ha : v.val % 4096 = 0)
    (h : VirtAddr.tryNew (p.start.val + n * 4096) = some v) : p.add n = .ok ⟨v, ha⟩ := by
  have hn : n * 4096 < 0x10000000000000000 := by omega
  rw [add, if_pos hn, VirtAddr.add, if_pos hlt, VirtAddr.new, h]
  show Except.ok (containing v) = _
  rw [containing_of_aligned ha]

/-- Inside the lower half, adding pages is adding addresses. -/
theorem add_of_lower {p : Page} {n : ℕ} (h : p.start.val + n * 4096 < 0x800000000000) :
    p.add n = .ok (ofLower (p.start.val + n * 4096) h (by have := p.aligned; omega)) :=
  add_of_tryNew (by omega) _ (VirtAddr.tryNew_of_lower h)

/-- Past the lower half, the sum is sign-extended. -/
theorem add_of_bit47 {p : Page} {n : ℕ} (h₁ : 0x800000000000 ≤ p.start.val + n * 4096)
    (h₂ : p.start.val + n * 4096 < 0x1000000000000) :
    ∃ q, p.add n = .ok q ∧ q.start.val = p.start.val + n * 4096 + 0xffff000000000000 := by
  have ha := p.aligned
  exact ⟨_, add_of_tryNew (by omega) (by simp only; omega) (VirtAddr.tryNew_of_bit47 h₁ h₂), rfl⟩

/-- Where `Page + n` is: at the sum, or at its sign extension. -/
theorem add_eq_ok {p q : Page} {n : ℕ} (h : p.add n = .ok q) :
    q.start.val = p.start.val + n * 4096 ∨
      q.start.val = p.start.val + n * 4096 + 0xffff000000000000 := by
  have ha := p.aligned
  rw [add, VirtAddr.add] at h
  split_ifs at h
  · rw [VirtAddr.new] at h
    cases hv : VirtAddr.tryNew (p.start.val + n * 4096) with
    | none =>
      rw [hv] at h
      cases h
    | some v =>
      rw [hv] at h
      cases h
      rw [containing_val]
      rcases VirtAddr.tryNew_eq_some hv with hval | hval
      · left; omega
      · right; omega
  · cases h

/-- Near-by pages are different pages. -/
theorem add_inj {p q : Page} {i j : ℕ} (hi : i < 0x100000000) (hj : j < 0x100000000)
    (h : p.add i = .ok q) (h' : p.add j = .ok q) : i = j := by
  rcases add_eq_ok h with h | h <;> rcases add_eq_ok h' with h' | h' <;> omega

/-- Pages with the same four indices are the same page. -/
theorem path_injective : Function.Injective path := by
  intro p q h
  simp only [path, List.cons.injEq, VirtAddr.p4Index, VirtAddr.p3Index, VirtAddr.p2Index,
    VirtAddr.p1Index, Fin.mk.injEq, and_true] at h
  obtain ⟨h4, h3, h2, h1⟩ := h
  apply Page.ext
  apply VirtAddr.ext
  have hp := p.aligned
  have hq := q.aligned
  have hpc := p.start.canonical
  have hqc := q.start.canonical
  omega

end Page
