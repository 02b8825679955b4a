/-
# Handing out frames and mapping pages

The two services every address space is built with.

* A frame allocator (`FrameAllocator` and `FrameDeallocator` of the x86_64 crate are
  the interface the kernel's functions are generic in).  What they rely on is
  `FrameAllocator.Spec`: a frame that is handed out was free and is free no more.
* `Mapper::map_to` of the x86_64 crate.  Its code is not part of this repository, so
  it is a parameter of the model; `MapTo.Documented` says what its documentation
  promises: it walks the existing tables, allocates and links the missing ones, adds
  `PRESENT`, `WRITABLE` and `USER_ACCESSIBLE` to the entries on the way as the
  mapping has them, and writes the last entry, unless a huge page is in the way or
  that entry is in use.
-/
import Velora.PageTable

/-! ## Frames -/

/-- `FrameAllocator<Size4KiB> + FrameDeallocator<Size4KiB>` -/
structure FrameAllocator (σ : Type) where
  allocateFrame : σ → Option (PhysFrame × σ)
  deallocateFrame : σ → PhysFrame → σ

namespace FrameAllocator

variable {σ : Type}

/-- **What callers rely on**: a frame that is handed out was free, and is free no more. -/
structure Spec (A : FrameAllocator σ) where
  valid : σ → Prop
  free : σ → Set PhysFrame
  allocate : ∀ {s s' f}, valid s → A.allocateFrame s = some (f, s') →
    valid s' ∧ f ∈ free s ∧ free s' ⊆ free s \ {f}

/-- The next `n` requests are granted. -/
def Supplies (A : FrameAllocator σ) : ℕ → σ → Prop
  | 0, _ => True
  | n + 1, s => ∃ f s', A.allocateFrame s = some (f, s') ∧ A.Supplies n s'

theorem Supplies.mono {A : FrameAllocator σ} {k n : ℕ} {s : σ} (h : A.Supplies n s)
    (hk : k ≤ n) : A.Supplies k s := by
  induction k generalizing n s with
  | zero => trivial
  | succ k ih =>
    cases n with
    | zero => omega
    | succ n =>
      obtain ⟨f, s', hs, hrest⟩ := h
      exact ⟨f, s', hs, ih hrest (by omega)⟩

end FrameAllocator

/-- What the kernel's memory functions change: physical memory and the allocator's state.
`log` lists the frames handed out so far, newest first; nothing reads it, it is there to
speak about them. -/
structure Machine (σ : Type) where
  mem : PhysMem
  frames : σ
  log : List PhysFrame

namespace Machine

variable {σ : Type}

/-- `allocate_frame` -/
def allocate (A : FrameAllocator σ) (m : Machine σ) : Option (PhysFrame × Machine σ) :=
  (A.allocateFrame m.frames).map fun p =>
    (p.1, { m with frames := p.2, log := p.1 :: m.log })

/-- `deallocate_frame` -/
def deallocate (A : FrameAllocator σ) (m : Machine σ) (f : PhysFrame) : Machine σ :=
  { m with frames := A.deallocateFrame m.frames f }

/-- Write to memory. -/
def write (m : Machine σ) (mem : PhysMem) : Machine σ := { m with mem := mem }

@[simp] theorem write_mem (m : Machine σ) (mem : PhysMem) : (m.write mem).mem = mem := rfl

@[simp] theorem write_frames (m : Machine σ) (mem : PhysMem) :
    (m.write mem).frames = m.frames := rfl

@[simp] theorem write_log (m : Machine σ) (mem : PhysMem) : (m.write mem).log = m.log := rfl

theorem allocate_eq_some {A : FrameAllocator σ} {m m' : Machine σ} {f : PhysFrame}
    (h : m.allocate A = some (f, m')) :
    A.allocateFrame m.frames = some (f, m'.frames) ∧ m'.mem = m.mem ∧ m'.log = f :: m.log := by
  obtain ⟨⟨g, s⟩, hs, hp⟩ := Option.map_eq_some_iff.1 h
  cases hp
  exact ⟨hs, rfl, rfl⟩

theorem exists_allocate_eq_some {A : FrameAllocator σ} {m : Machine σ} {n : ℕ}
    (h : A.Supplies (n + 1) m.frames) :
    ∃ f m', m.allocate A = some (f, m') ∧ A.Supplies n m'.frames := by
  obtain ⟨f, s, hs, hsup⟩ := h
  refine ⟨f, { m with frames := s, log := f :: m.log }, ?_, hsup⟩
  rw [allocate, hs]
  rfl

end Machine

/-! ## `map_to` -/

/-- `MapToError` -/
inductive MapToError
  | frameAllocationFailed
  | parentEntryHugePage
  | pageAlreadyMapped
  deriving DecidableEq, Repr

section MapTo

variable {σ : Type}

/-- The type of `map_to(page, frame, flags, frame_allocator)` on the mapper of the level-4
table it is given first. -/
abbrev MapTo (σ : Type) :=
  Machine σ → PhysFrame → Page → PhysFrame → Word → Except MapToError (Machine σ)

/-- The table behind an entry: the one it names, or a new one, zeroed. -/
def createNextTable (A : FrameAllocator σ) (parentFlags : Word) (m : Machine σ) (t : PhysFrame)
    (i : Fin 512) : Except MapToError (PhysFrame × Machine σ) :=
  if PageTableEntry.isUnused (m.mem t i) then
    match m.allocate A with
    | none => .error .frameAllocationFailed
    | some (c, m') =>
      .ok (c, m'.write ((m'.mem.setEntry t i (PageTableEntry.setFrame c parentFlags)).zeroFrame c))
  else if PageTableEntry.huge (m.mem t i) then .error .parentEntryHugePage
  else
    .ok (PageTableEntry.addrFrame (m.mem t i),
      m.write (m.mem.setEntry t i (m.mem t i ||| parentFlags)))

/-- Down the tables along a path; the last index is that of the entry to write. -/
def mapPath (A : FrameAllocator σ) (parentFlags leaf : Word) :
    Machine σ → PhysFrame → List (Fin 512) → Except MapToError (Machine σ)
  | m, _, [] => .ok m
  | m, t, [i] =>
    if PageTableEntry.isUnused (m.mem t i) then .ok (m.write (m.mem.setEntry t i leaf))
    else .error .pageAlreadyMapped
  | m, t, i :: j :: path => do
    let (c, m') ← createNextTable A parentFlags m t i
    mapPath A parentFlags leaf m' c (j :: path)

/-- What the documentation of `map_to` promises, as a function. -/
def documentedMapTo (A : FrameAllocator σ) : MapTo σ := fun m l4 page frame flags =>
  mapPath A (flags &&& (PageTableFlags.present ||| PageTableFlags.writable |||
    PageTableFlags.userAccessible)) (PageTableEntry.setFrame frame flags) m l4 page.path

/-- **What is assumed of `map_to`**, for flags that include `PRESENT` and are among the three
that the kernel uses. -/
def MapTo.Documented (A : FrameAllocator σ) (mapTo : MapTo σ) : Prop :=
  ∀ m l4 page frame flags, PageTableEntry.Plain flags →
    mapTo m l4 page frame flags = documentedMapTo A m l4 page frame flags

/-- The flags of parent entries are those of the mapping. -/
theorem plain_and {flags : Word} (h : PageTableEntry.Plain flags) :
    flags &&& (PageTableFlags.present ||| PageTableFlags.writable |||
      PageTableFlags.userAccessible) = flags := by
  apply BitVec.eq_of_toNat_eq
  rw [BitVec.toNat_and]
  show flags.toNat &&& (2 ^ 3 - 1) = flags.toNat
  rw [Nat.and_two_pow_sub_one_eq_mod, Nat.mod_eq_of_lt h.1]

/-- **The rule for `map_to`.**  If `I` holds of the machine, the table reached and the path
that is left, is kept by linking a new table and by going on through an entry in use, and
gives `Q` when the last entry is written, then a completed `map_to` establishes `Q`. -/
theorem mapPath_rule {A : FrameAllocator σ} {flags leaf : Word}
    {I : Machine σ → PhysFrame → List (Fin 512) → Prop} {Q : Machine σ → Prop}
    (hlink : ∀ m t i j path c m', I m t (i :: j :: path) → m.mem t i = 0 →
      m.allocate A = some (c, m') →
      I (m'.write ((m'.mem.setEntry t i (PageTableEntry.setFrame c flags)).zeroFrame c)) c
        (j :: path))
    (hmark : ∀ m t i j path, I m t (i :: j :: path) → m.mem t i ≠ 0 →
      PageTableEntry.huge (m.mem t i) = false →
      I (m.write (m.mem.setEntry t i (m.mem t i ||| flags)))
        (PageTableEntry.addrFrame (m.mem t i)) (j :: path))
    (hleaf : ∀ m t i, I m t [i] → m.mem t i = 0 → Q (m.write (m.mem.setEntry t i leaf)))
    {m m' : Machine σ} {t : PhysFrame} {i : Fin 512} {path : List (Fin 512)}
    (hI : I m t (i :: path)) (h : mapPath A flags leaf m t (i :: path) = .ok m') : Q m' := by
  induction path generalizing m t i with
  | nil =>
    rw [mapPath] at h
    split_ifs at h with hu
    cases h
    exact hleaf m t i hI (PageTableEntry.isUnused_iff.1 hu)
  | cons j path ih =>
    rw [mapPath] at h
    obtain ⟨⟨c, m₁⟩, hc, hrest⟩ := bind_eq_ok h
    unfold createNextTable at hc
    split_ifs at hc with hu hh
    · have hzero := PageTableEntry.isUnused_iff.1 hu
      cases ha : m.allocate A with
      | none => rw [ha] at hc; cases hc
      | some p =>
        rw [ha] at hc
        cases hc
        exact ih (hlink m t i j path _ _ hI hzero ha) hrest
    · cases hc
      rw [Bool.not_eq_true, PageTableEntry.isUnused_eq_false] at hu
      rw [Bool.not_eq_true] at hh
      exact ih (hmark m t i j path hI hu hh) hrest

/-- A page that is mapped is not mapped again. -/
theorem mapPath_ne_ok_of_mapped {A : FrameAllocator σ} {flags leaf : Word} (hfl : flags.toNat < 8)
    {m m' : Machine σ} {t f : PhysFrame} {i : Fin 512} {path : List (Fin 512)}
    (h : RadixHeap.walk PageTableEntry.follow m.mem t (i :: path) = some f) :
    mapPath A flags leaf m t (i :: path) ≠ .ok m' := by
  -- an entry on the way that is unused leads nowhere
  have hunused : ∀ {mem : PhysMem} {t : PhysFrame} {i : Fin 512} {path : List (Fin 512)},
      mem t i = 0 → RadixHeap.walk PageTableEntry.follow mem t (i :: path) ≠ some f := by
    intro mem t i path h0 hw
    rw [RadixHeap.walk_cons, h0, PageTableEntry.follow_zero] at hw
    cases hw
  intro hmap
  refine mapPath_rule (Q := fun _ => False)
    (I := fun m t path => RadixHeap.walk PageTableEntry.follow m.mem t path = some f) ?_ ?_ ?_ h hmap
  · intro m t i j path c m' hw h0 _
    exact absurd hw (hunused h0)
  · intro m t i j path hw _ _
    rw [RadixHeap.walk_cons] at hw
    obtain ⟨c, hc, hw⟩ := Option.bind_eq_some_iff.1 hw
    rw [(PageTableEntry.follow_eq_some.1 hc).2.2]
    refine RadixHeap.walk_mono ?_ hw
    intro ρ k y z _ _ hz
    rw [Machine.write_mem, PhysMem.setEntry_apply]
    split_ifs with hy
    · obtain ⟨rfl, rfl⟩ := hy
      exact PageTableEntry.Grows.follow (Or.inr ⟨flags, hfl, rfl⟩) hz
    · exact hz
  · intro m t i hw h0
    exact hunused h0 hw

end MapTo
