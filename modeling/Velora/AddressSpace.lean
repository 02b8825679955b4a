/-
# Address spaces

`new_address_space` and `free_address_space` (memory.rs).  A new space starts with a
zeroed level-4 table into which two entries of the active one are cloned: index 0,
where the kernel lives, and the index of the physical-memory window.  Freeing a space
skips these two and gives back everything else that hangs below the table, except the
frames of the borrowed range.

`freeAddressSpace_eq` says what freeing does to a space in good order: it returns,
changes no memory, and hands the frames listed by `freedBySpace` to the allocator, one
after the other.
-/
import Velora.Tables

section AddressSpace

variable {σ : Type} {A : FrameAllocator σ}

/-! ## The code -/

/-- The two entries of a level-4 table that every address space shares with the kernel's;
`off` is `physical_memory_offset.p4_index()`. -/
def shared (off i : Fin 512) : Bool := i = 0 || i = off

/-- The entries below which an address space owns what it maps. -/
def owned (off i : Fin 512) : Bool := !shared off i

theorem owned_eq_true {off i : Fin 512} : owned off i = true ↔ ¬ (i = 0 ∨ i = off) := by
  simp [owned, shared]

theorem owned_eq_false {off i : Fin 512} : owned off i = false ↔ i = 0 ∨ i = off := by
  rw [← Bool.not_eq_true, owned_eq_true, not_not]

/-- `new_address_space`; `cr3` is the active level-4 table. -/
def newAddressSpace (A : FrameAllocator σ) (m : Machine σ) (cr3 : PhysFrame) (off : Fin 512) :
    Except Panic (PhysFrame × Machine σ) := do
  let (newL4, m) ← (m.allocate A).expect .noFramesForL4
  let mem := m.mem.zeroFrame newL4
  let mem := mem.setEntry newL4 0 (mem cr3 0)
  let mem := mem.setEntry newL4 off (mem cr3 off)
  .ok (newL4, m.write mem)

/-- `free_table`, with `borrowed` the range of addresses whose frames are not given back.  The
source's `level` is 3, 2 or 1; the first argument here is `level`. -/
def freeTable (A : FrameAllocator σ) (borrowed : ℕ × ℕ) :
    ℕ → PhysFrame → ℕ → Machine σ → Except Panic (Machine σ)
  | 0, frame, _, m => .ok (m.deallocate A frame)
  | level + 1, frame, baseAddr, m => do
    let m ← (List.finRange 512).foldlM (fun m i =>
      if !PageTableEntry.contains (m.mem frame i) PageTableFlags.present then .ok m
      else match PageTableEntry.frame (m.mem frame i) with
        | .error _ => .error .presentEntryWithoutFrame
        | .ok child =>
          let childAddr := baseAddr ||| (i.val <<< (12 + 9 * level))
          if level + 1 > 1 then freeTable A borrowed level child childAddr m
          else if borrowed.1 ≤ childAddr ∧ childAddr < borrowed.2 then .ok m
          else .ok (m.deallocate A child)) m
    .ok (m.deallocate A frame)

/-- `free_address_space` -/
def freeAddressSpace (A : FrameAllocator σ) (off : Fin 512) (borrowed : ℕ × ℕ)
    (l4 : PhysFrame) (m : Machine σ) : Except Panic (Machine σ) := do
  let m ← (List.finRange 512).foldlM (fun m i =>
    if i = 0 ∨ i = off then .ok m
    else if !PageTableEntry.contains (m.mem l4 i) PageTableFlags.present then .ok m
    else match PageTableEntry.frame (m.mem l4 i) with
      | .error _ => .error .presentL4EntryWithoutFrame
      | .ok l3 => freeTable A borrowed 3 l3 (i.val <<< 39) m) m
  .ok (m.deallocate A l4)

/-! ## What is freed -/

/-- Give a list of frames back, in order. -/
def Machine.deallocateAll (A : FrameAllocator σ) (m : Machine σ) (fs : List PhysFrame) :
    Machine σ :=
  fs.foldl (Machine.deallocate A) m

@[simp] theorem Machine.deallocateAll_mem (m : Machine σ) (fs : List PhysFrame) :
    (m.deallocateAll A fs).mem = m.mem := by
  induction fs generalizing m with
  | nil => rfl
  | cons f fs ih => exact ih (m.deallocate A f)

theorem Machine.deallocateAll_append (m : Machine σ) (fs gs : List PhysFrame) :
    m.deallocateAll A (fs ++ gs) = (m.deallocateAll A fs).deallocateAll A gs :=
  List.foldl_append

/-- The frames `free_table` gives back, in order. -/
def freedByTable (mem : PhysMem) (borrowed : ℕ × ℕ) : ℕ → PhysFrame → ℕ → List PhysFrame
  | 0, frame, _ => [frame]
  | level + 1, frame, baseAddr =>
    ((List.finRange 512).flatMap fun i =>
      if PageTableEntry.present (mem frame i) then
        let child := PageTableEntry.addrFrame (mem frame i)
        let childAddr := baseAddr ||| (i.val <<< (12 + 9 * level))
        if level + 1 > 1 then freedByTable mem borrowed level child childAddr
        else if borrowed.1 ≤ childAddr ∧ childAddr < borrowed.2 then []
        else [child]
      else []) ++ [frame]

/-- The frames `free_address_space` gives back, in order. -/
def freedBySpace (mem : PhysMem) (off : Fin 512) (borrowed : ℕ × ℕ) (l4 : PhysFrame) :
    List PhysFrame :=
  ((List.finRange 512).flatMap fun i =>
    if owned off i && PageTableEntry.present (mem l4 i) then
      freedByTable mem borrowed 3 (PageTableEntry.addrFrame (mem l4 i)) (i.val <<< 39)
    else []) ++ [l4]

/-- No huge page is met in the tables below. -/
def ProperTable (mem : PhysMem) : ℕ → PhysFrame → Prop
  | 0, _ => True
  | level + 1, frame => ∀ i, PageTableEntry.present (mem frame i) = true →
    PageTableEntry.huge (mem frame i) = false ∧
      ProperTable mem level (PageTableEntry.addrFrame (mem frame i))

/-- Every present entry the space owns leads to proper tables. -/
def ProperOwned (mem : PhysMem) (off : Fin 512) (l4 : PhysFrame) : Prop :=
  ∀ i, owned off i = true → PageTableEntry.present (mem l4 i) = true →
    PageTableEntry.huge (mem l4 i) = false ∧
      ProperTable mem 3 (PageTableEntry.addrFrame (mem l4 i))

/-- A loop whose every round gives back a list of frames, all of them together. -/
theorem foldlM_deallocate {body : Machine σ → Fin 512 → Except Panic (Machine σ)}
    {freed : Fin 512 → List PhysFrame} {mem : PhysMem} (l : List (Fin 512))
    (hbody : ∀ m i, m.mem = mem → body m i = .ok (m.deallocateAll A (freed i)))
    (m : Machine σ) (hm : m.mem = mem) :
    l.foldlM body m = .ok (m.deallocateAll A (l.flatMap freed)) := by
  induction l generalizing m with
  | nil => rfl
  | cons i l ih =>
    rw [List.foldlM_cons, hbody m i hm, List.flatMap_cons, Machine.deallocateAll_append]
    exact ih _ (by rw [Machine.deallocateAll_mem, hm])

theorem freeTable_eq {borrowed : ℕ × ℕ} {level : ℕ} {frame : PhysFrame} {baseAddr : ℕ}
    {m : Machine σ} (h : ProperTable m.mem level frame) :
    freeTable A borrowed level frame baseAddr m =
      .ok (m.deallocateAll A (freedByTable m.mem borrowed level frame baseAddr)) := by
  induction level generalizing frame baseAddr m with
  | zero => rfl
  | succ level ih =>
    rw [freeTable, freedByTable]
    rw [foldlM_deallocate (A := A) (List.finRange 512) ?_ m rfl]
    · rw [Machine.deallocateAll_append]
      rfl
    · intro m' i hm'
      rw [← hm'] at h ⊢
      rw [PageTableEntry.contains_present]
      cases hp : PageTableEntry.present (m'.mem frame i) with
      | false => rfl
      | true =>
        obtain ⟨hh, hchild⟩ := h i hp
        rw [PageTableEntry.frame_eq_ok.2 ⟨hp, hh, rfl⟩]
        simp only [Bool.not_true, Bool.false_eq_true, if_false, if_true]
        split_ifs with hlevel hrange
        · exact ih hchild
        · rfl
        · rfl

/-- **Freeing a space in good order** returns, and hands the frames listed to the allocator. -/
theorem freeAddressSpace_eq {off : Fin 512} {borrowed : ℕ × ℕ} {l4 : PhysFrame} {m : Machine σ}
    (h : ProperOwned m.mem off l4) :
    freeAddressSpace A off borrowed l4 m =
      .ok (m.deallocateAll A (freedBySpace m.mem off borrowed l4)) := by
  rw [freeAddressSpace, freedBySpace]
  rw [foldlM_deallocate (A := A) (List.finRange 512) ?_ m rfl]
  · rw [Machine.deallocateAll_append]
    rfl
  · intro m' i hm'
    rw [ProperOwned, ← hm'] at h
    rw [← hm', PageTableEntry.contains_present]
    by_cases hi : i = 0 ∨ i = off
    · rw [if_pos hi, owned_eq_false.2 hi]
      rfl
    · have hown := owned_eq_true.2 hi
      rw [if_neg hi, hown]
      cases hp : PageTableEntry.present (m'.mem l4 i) with
      | false => rfl
      | true =>
        obtain ⟨hh, hchild⟩ := h i hown hp
        rw [PageTableEntry.frame_eq_ok.2 ⟨hp, hh, rfl⟩]
        exact freeTable_eq hchild

/-- A loop whose rounds keep memory and record keeps them. -/
theorem foldlM_keeps {body : Machine σ → Fin 512 → Except Panic (Machine σ)} {l : List (Fin 512)}
    {m m' : Machine σ}
    (hbody : ∀ m i m', body m i = .ok m' → m'.mem = m.mem ∧ m'.log = m.log)
    (h : l.foldlM body m = .ok m') : m'.mem = m.mem ∧ m'.log = m.log := by
  induction l generalizing m with
  | nil =>
    cases h
    exact ⟨rfl, rfl⟩
  | cons i l ih =>
    rw [List.foldlM_cons] at h
    obtain ⟨m₁, h₁, h⟩ := bind_eq_ok h
    obtain ⟨hmem, hlog⟩ := hbody m i m₁ h₁
    obtain ⟨hmem', hlog'⟩ := ih h
    exact ⟨hmem'.trans hmem, hlog'.trans hlog⟩

theorem freeTable_keeps {borrowed : ℕ × ℕ} {level : ℕ} {frame : PhysFrame} {baseAddr : ℕ}
    {m m' : Machine σ} (h : freeTable A borrowed level frame baseAddr m = .ok m') :
    m'.mem = m.mem ∧ m'.log = m.log := by
  induction level generalizing frame baseAddr m m' with
  | zero =>
    cases h
    exact ⟨rfl, rfl⟩
  | succ level ih =>
    rw [freeTable] at h
    obtain ⟨m₁, hloop, h⟩ := bind_eq_ok h
    cases h
    show m₁.mem = m.mem ∧ m₁.log = m.log
    refine foldlM_keeps ?_ hloop
    intro m i m' hbody
    by_cases hp : (!PageTableEntry.contains (m.mem frame i) PageTableFlags.present) = true
    · rw [if_pos hp] at hbody
      cases hbody
      exact ⟨rfl, rfl⟩
    · rw [if_neg hp] at hbody
      cases hf : PageTableEntry.frame (m.mem frame i) with
      | error e =>
        rw [hf] at hbody
        cases hbody
      | ok child =>
        rw [hf] at hbody
        simp only at hbody
        split_ifs at hbody
        · exact ih hbody
        · cases hbody
          exact ⟨rfl, rfl⟩
        · cases hbody
          exact ⟨rfl, rfl⟩

/-- Freeing a space, in good order or not, writes nothing. -/
theorem freeAddressSpace_keeps {off : Fin 512} {borrowed : ℕ × ℕ} {l4 : PhysFrame}
    {m m' : Machine σ} (h : freeAddressSpace A off borrowed l4 m = .ok m') :
    m'.mem = m.mem ∧ m'.log = m.log := by
  rw [freeAddressSpace] at h
  obtain ⟨m₁, hloop, h⟩ := bind_eq_ok h
  cases h
  show m₁.mem = m.mem ∧ m₁.log = m.log
  refine foldlM_keeps ?_ hloop
  intro m i m' hbody
  split_ifs at hbody with hi hp
  · cases hbody
    exact ⟨rfl, rfl⟩
  · cases hbody
    exact ⟨rfl, rfl⟩
  · cases hf : PageTableEntry.frame (m.mem l4 i) with
    | error e =>
      rw [hf] at hbody
      cases hbody
    | ok l3 =>
      rw [hf] at hbody
      exact freeTable_keeps hbody

/-! ## New spaces are in good order -/

variable {S : A.Spec} {r : PhysFrame} {vis : Fin 512 → Bool} {off : Fin 512} {m m' : Machine σ}

/-- In a space in good order the owned tables are proper. -/
theorem Space.properTable (hs : Space S r vis (owned off) m)
    (hvis : ∀ i, owned off i = true → vis i = true) {level : ℕ} {i : Fin 512}
    {π : List (Fin 512)} {x : PhysFrame} (hlen : π.length + level = 3) (hi : owned off i = true)
    (hx : tableWalk m.mem r vis (i :: π) = some x) : ProperTable m.mem level x := by
  induction level generalizing π x with
  | zero => trivial
  | succ level ih =>
    intro j hp
    have hlen' : (i :: π).length ≤ 3 := by
      rw [List.length_cons]
      omega
    have hproper := hs.proper (i :: π) x j hlen' hx (by simpa using hi)
    rcases hproper with h0 | ⟨-, hh⟩
    · rw [h0] at hp
      exact absurd hp (by decide)
    · have hlen'' : (π ++ [j]).length + level = 3 := by
        rw [List.length_append, List.length_singleton]
        omega
      refine ⟨hh, ih hlen'' ?_⟩
      have hhead : ∀ h ∈ ((i :: π) ++ j :: []).head?, vis h = true := by simpa using hvis i hi
      have hv := hs.visible hlen' hx hhead
      refine RadixHeap.walk_concat_eq_some.2 ⟨x, hx, ?_⟩
      rw [view_apply hv]
      exact PageTableEntry.next_eq_some.2 ⟨PageTableEntry.ne_zero_of_present hp, hh, rfl⟩

theorem Space.properOwned (hs : Space S r vis (owned off) m)
    (hvis : ∀ i, owned off i = true → vis i = true) : ProperOwned m.mem off r := by
  intro i hi hp
  rcases hs.proper [] r i (by simp) rfl (by simpa using hi) with h0 | ⟨-, hh⟩
  · rw [h0] at hp
    exact absurd hp (by decide)
  · refine ⟨hh, hs.properTable hvis (show ([] : List (Fin 512)).length + 3 = 3 from rfl) hi ?_⟩
    show RadixHeap.walk _ _ _ ([] ++ [i]) = _
    refine RadixHeap.walk_concat_eq_some.2 ⟨r, rfl, ?_⟩
    rw [view_apply fun _ => hvis i hi]
    exact PageTableEntry.next_eq_some.2 ⟨PageTableEntry.ne_zero_of_present hp, hh, rfl⟩

/-- Freeing a space in good order does not panic. -/
theorem Space.freeAddressSpace (hs : Space S r vis (owned off) m)
    (hvis : ∀ i, owned off i = true → vis i = true) {borrowed : ℕ × ℕ} :
    freeAddressSpace A off borrowed r m =
      .ok (m.deallocateAll A (freedBySpace m.mem off borrowed r)) :=
  freeAddressSpace_eq (hs.properOwned hvis)

/-! ## What a new space contains -/

theorem newAddressSpace_eq_ok {cr3 l4 : PhysFrame} (h : newAddressSpace A m cr3 off = .ok (l4, m')) :
    ∃ m₁, m.allocate A = some (l4, m₁) ∧ m' = m₁.write m'.mem ∧
      (∀ x, x ≠ l4 → m'.mem x = m.mem x) ∧
      (cr3 ≠ l4 → ∀ i, m'.mem l4 i = if owned off i then 0 else m.mem cr3 i) := by
  unfold newAddressSpace at h
  obtain ⟨⟨f, m₁⟩, ha, hrest⟩ := bind_eq_ok h
  have halloc := Option.expect_eq_ok ha
  have hmem : m₁.mem = m.mem := (Machine.allocate_eq_some halloc).2.1
  cases hrest
  refine ⟨m₁, halloc, rfl, ?_, ?_⟩
  · intro x hx
    simp only [Machine.write_mem]
    rw [PhysMem.setEntry_of_ne hx, PhysMem.setEntry_of_ne hx, PhysMem.zeroFrame_of_ne hx, hmem]
  · intro hne i
    simp only [Machine.write_mem, PhysMem.setEntry_apply, PhysMem.zeroFrame_self,
      PhysMem.zeroFrame_of_ne hne, hne, hmem, true_and, false_and, if_false]
    by_cases hoff : i = off
    · rw [if_pos hoff, owned_eq_false.2 (Or.inr hoff), hoff]
      rfl
    · rw [if_neg hoff]
      by_cases h0 : i = 0
      · rw [if_pos h0, owned_eq_false.2 (Or.inl h0), h0]
        rfl
      · rw [if_neg h0, if_pos (owned_eq_true.2 (not_or.2 ⟨h0, hoff⟩))]

/-- Every entry of a level-4 table. -/
def allEntries : Fin 512 → Bool := fun _ => true

/-- No entry of a level-4 table. -/
def noEntries : Fin 512 → Bool := fun _ => false

theorem not_noEntries (π : List (Fin 512)) (j : Fin 512) :
    ¬ ∀ h ∈ (π ++ [j]).head?, noEntries h = true := by
  intro hown
  cases π with
  | nil => exact Bool.false_ne_true (hown j rfl)
  | cons i π => exact Bool.false_ne_true (hown i rfl)

theorem view_allEntries (mem : PhysMem) (r : PhysFrame) : view mem r allEntries = mem := by
  funext x j
  exact view_apply fun _ => rfl

/-- **A new space, seen without the entries it shares**, is a lone table.  A cloned entry that is
unused is not shared. -/
theorem newAddressSpace_own {cr3 l4 : PhysFrame} (hv : S.valid m.frames)
    (hcr3 : cr3 ∉ S.free m.frames)
    (hvis : ∀ i, vis i = true → owned off i = true ∨ m.mem cr3 i = 0)
    (h : newAddressSpace A m cr3 off = .ok (l4, m')) :
    Space S l4 vis (owned off) m' ∧ l4 ∈ S.free m.frames ∧
      S.free m'.frames ⊆ S.free m.frames \ {l4} ∧
      ∀ π x, tableWalk m'.mem l4 vis π = some x → π = [] ∧ x = l4 := by
  obtain ⟨m₁, ha, hm', -, hl4⟩ := newAddressSpace_eq_ok h
  obtain ⟨halloc, -, -⟩ := Machine.allocate_eq_some ha
  obtain ⟨hvalid, hfree, hremoved⟩ := S.allocate hv halloc
  have hne : cr3 ≠ l4 := fun hc => hcr3 (hc ▸ hfree)
  have hframes : m'.frames = m₁.frames := by
    rw [hm']
    rfl
  have hview : ∀ i, view m'.mem l4 vis l4 i = 0 := by
    intro i
    rw [view]
    split_ifs with hc
    · rfl
    · rw [hl4 hne i]
      split_ifs with hown
      · rfl
      · exact (hvis i (by simpa using hc)).resolve_left hown
  have hlone : ∀ π x, tableWalk m'.mem l4 vis π = some x → π = [] ∧ x = l4 := by
    intro π x hx
    cases π with
    | nil => exact ⟨rfl, (Option.some.inj hx).symm⟩
    | cons i π =>
      rw [tableWalk, RadixHeap.walk_cons, hview, PageTableEntry.next_zero] at hx
      cases hx
  refine ⟨⟨hframes ▸ hvalid, ?_, ?_, ?_⟩, hfree, hframes ▸ hremoved, hlone⟩
  · intro π ρ x _ _ hπ hρ
    rw [(hlone π x hπ).1, (hlone ρ x hρ).1]
  · rintro x ⟨π, -, hx⟩ hc
    rw [(hlone π x hx).2, hframes] at hc
    exact (hremoved hc).2 rfl
  · intro π x j _ hx hown
    obtain ⟨rfl, rfl⟩ := hlone π x hx
    have hj : owned off j = true := hown j (by simp)
    left
    rw [hl4 hne j, if_pos hj]

section Clone

variable {cr3 l4 : PhysFrame} (hv : S.valid m.frames)
  (hk : ∀ x, IsTable m.mem cr3 allEntries x → x ∉ S.free m.frames)
  (h : newAddressSpace A m cr3 off = .ok (l4, m'))
include hv hk h

/-- The new table is none of the kernel's. -/
theorem newAddressSpace_fresh : l4 ∈ S.free m.frames ∧ S.valid m'.frames ∧
    S.free m'.frames ⊆ S.free m.frames \ {l4} ∧ ¬ IsTable m.mem cr3 allEntries l4 := by
  obtain ⟨m₁, ha, hm', -, -⟩ := newAddressSpace_eq_ok h
  obtain ⟨halloc, -, -⟩ := Machine.allocate_eq_some ha
  obtain ⟨hvalid, hfree, hremoved⟩ := S.allocate hv halloc
  have hframes : m'.frames = m₁.frames := by
    rw [hm']
    rfl
  exact ⟨hfree, hframes ▸ hvalid, hframes ▸ hremoved, fun ht => hk l4 ht hfree⟩

/-- Its entries: clones of the kernel's where they are shared, unused elsewhere. -/
theorem newAddressSpace_entry (i : Fin 512) :
    m'.mem l4 i = if owned off i then 0 else m.mem cr3 i := by
  obtain ⟨-, -, -, hl4⟩ := newAddressSpace_eq_ok h |>.choose_spec
  refine hl4 ?_ i
  rintro rfl
  exact (newAddressSpace_fresh hv hk h).2.2.2 ⟨[], by simp, rfl⟩

/-- The tables behind the cloned entries are the kernel's, unchanged. -/
theorem newAddressSpace_below {i : Fin 512} {c x : PhysFrame} {ρ : List (Fin 512)}
    (hc : PageTableEntry.next (m.mem cr3 i) = some c) (hρ : ρ.length ≤ 2)
    (hx : RadixHeap.walk PageTableEntry.next m.mem c ρ = some x) : m'.mem x = m.mem x := by
  obtain ⟨-, -, hkeep, -⟩ := newAddressSpace_eq_ok h |>.choose_spec
  refine hkeep x ?_
  rintro rfl
  refine (newAddressSpace_fresh hv hk h).2.2.2 ⟨i :: ρ, by rw [List.length_cons]; omega, ?_⟩
  rw [tableWalk, view_allEntries, RadixHeap.walk_cons, hc]
  exact hx

theorem newAddressSpace_walk {i : Fin 512} {π : List (Fin 512)} (hπ : π.length ≤ 3)
    {x : PhysFrame} : tableWalk m'.mem l4 allEntries (i :: π) = some x ↔
      owned off i = false ∧ tableWalk m.mem cr3 allEntries (i :: π) = some x := by
  rw [tableWalk, tableWalk, view_allEntries, view_allEntries, RadixHeap.walk_cons,
    RadixHeap.walk_cons, newAddressSpace_entry hv hk h]
  cases owned off i with
  | true =>
    rw [if_pos rfl, PageTableEntry.next_zero]
    simp
  | false =>
    rw [if_neg Bool.false_ne_true]
    cases hc : PageTableEntry.next (m.mem cr3 i) with
    | none => simp
    | some c =>
      have hsame : RadixHeap.walk PageTableEntry.next m'.mem c π =
          RadixHeap.walk PageTableEntry.next m.mem c π := by
        refine RadixHeap.walk_congr (d := 3) ?_ hπ
        intro ρ y hρ hy j
        rw [newAddressSpace_below hv hk h hc (by omega) hy]
      rw [Option.bind_some, Option.bind_some, hsame]
      simp

/-- **What can be mapped in a new space**: everything the space owns, and elsewhere what can be
mapped in the kernel's tables. -/
theorem newAddressSpace_mappable {i : Fin 512} {π : List (Fin 512)} (hπ : π.length = 3) :
    Mappable m'.mem l4 allEntries (i :: π) ↔
      owned off i = true ∨ Mappable m.mem cr3 allEntries (i :: π) := by
  rw [Mappable, Mappable, view_allEntries, view_allEntries, RadixHeap.holed_cons_iff,
    RadixHeap.holed_cons_iff, newAddressSpace_entry hv hk h]
  cases owned off i with
  | true => simp
  | false =>
    rw [if_neg Bool.false_ne_true]
    simp only [Bool.false_eq_true, false_or]
    refine or_congr Iff.rfl (exists_congr fun c => and_congr_right fun hc => ?_)
    refine RadixHeap.Holed.congr ?_ ?_
    · intro ρ hρ
      refine RadixHeap.walk_congr (d := 2) ?_ (by omega)
      intro ρ' y hρ' hy j
      rw [newAddressSpace_below hv hk h hc (by omega) hy]
    · intro ρ y j hρ hy
      rw [newAddressSpace_below hv hk h hc (by omega) hy]

end Clone

/-- **A new space, seen with the shared entries**, is in good order if the kernel's tables
are. -/
theorem newAddressSpace_all {cr3 l4 : PhysFrame} (hk : Space S cr3 allEntries noEntries m)
    (h : newAddressSpace A m cr3 off = .ok (l4, m')) :
    Space S l4 allEntries (owned off) m' where
  valid := (newAddressSpace_fresh hk.valid hk.used h).2.1
  tree := by
    have htable := (newAddressSpace_fresh hk.valid hk.used h).2.2.2
    intro π ρ x hπ hρ h₁ h₂
    cases π with
    | nil =>
      obtain rfl := Option.some.inj h₁
      cases ρ with
      | nil => rfl
      | cons j ρ =>
        rw [List.length_cons] at hρ
        have h₂' := ((newAddressSpace_walk hk.valid hk.used h (by omega)).1 h₂).2
        exact absurd ⟨j :: ρ, by rw [List.length_cons]; omega, h₂'⟩ htable
    | cons i π =>
      have hlen := hπ
      rw [List.length_cons] at hlen
      have h₁' := ((newAddressSpace_walk hk.valid hk.used h (by omega)).1 h₁).2
      cases ρ with
      | nil =>
        obtain rfl := Option.some.inj h₂
        exact absurd ⟨i :: π, hπ, h₁'⟩ htable
      | cons j ρ =>
        have hlen' := hρ
        rw [List.length_cons] at hlen'
        have h₂' := ((newAddressSpace_walk hk.valid hk.used h (by omega)).1 h₂).2
        exact hk.tree _ _ x hπ hρ h₁' h₂'
  used := by
    obtain ⟨-, -, hremoved, -⟩ := newAddressSpace_fresh hk.valid hk.used h
    rintro x ⟨π, hπ, hx⟩ hc
    cases π with
    | nil => exact (hremoved hc).2 (Option.some.inj hx).symm
    | cons i π =>
      have hlen := hπ
      rw [List.length_cons] at hlen
      have hx' := ((newAddressSpace_walk hk.valid hk.used h (by omega)).1 hx).2
      exact hk.used x ⟨i :: π, hπ, hx'⟩ (hremoved hc).1
  proper := by
    intro π x j hπ hx hown
    cases π with
    | nil =>
      obtain rfl := Option.some.inj hx
      have hj : owned off j = true := hown j (by simp)
      left
      rw [newAddressSpace_entry hk.valid hk.used h, if_pos hj]
    | cons i π =>
      rw [List.length_cons] at hπ
      have hi : owned off i = true := hown i (by simp)
      rw [((newAddressSpace_walk hk.valid hk.used h (by omega)).1 hx).1] at hi
      cases hi

end AddressSpace
