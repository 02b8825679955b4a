/-
# The frames of an address space

What `free_address_space` gives back, frame by frame.  `freeAddressSpace_eq` names the
list of its `deallocate_frame` calls; here the list is compared with the tables as a
tree of paths (`freedBySpace_eq`): it is the listing of the tree in postorder, without
what hangs below the two shared entries and without the data frames of the borrowed
range.

`free_table` knows a page only by the address it puts together from the indices on the
way (`rebuiltAddr`).  In the lower half that is the address of the page; in the upper
half the sign extension is missing (`rebuiltAddr_path`), and a range of the lower half
contains neither.
-/
import Velora.AddressSpace

/-! ## The address that is put together -/

/-- The address `free_table` has put together at the end of a path, starting with `baseAddr` in a
table of the given level. -/
def addrBelow : ℕ → ℕ → List (Fin 512) → ℕ
  | level + 1, baseAddr, i :: path =>
    addrBelow level (baseAddr ||| (i.val <<< (12 + 9 * level))) path
  | _, baseAddr, _ => baseAddr

/-- The address `free_address_space` puts together on the way along a path from the level-4
table. -/
def rebuiltAddr : List (Fin 512) → ℕ
  | [] => 0
  | i :: path => addrBelow 3 (i.val <<< 39) path

/-- The range contains the address. -/
def inRange (borrowed : ℕ × ℕ) (a : ℕ) : Bool := borrowed.1 ≤ a && a < borrowed.2

theorem inRange_iff {borrowed : ℕ × ℕ} {a : ℕ} :
    inRange borrowed a = true ↔ borrowed.1 ≤ a ∧ a < borrowed.2 := by
  rw [inRange, Bool.and_eq_true, decide_eq_true_iff, decide_eq_true_iff]

/-- Setting bits above those of an address adds them. -/
theorem or_shiftLeft_of_dvd {a i k : ℕ} (hi : i < 512) (ha : 2 ^ (k + 9) ∣ a) :
    a ||| (i <<< k) = a + i * 2 ^ k := by
  obtain ⟨c, rfl⟩ := ha
  have hlt : i * 2 ^ k < 2 ^ (k + 9) := by
    rw [pow_add, Nat.mul_comm]
    exact Nat.mul_lt_mul_of_pos_left hi (by positivity)
  rw [Nat.shiftLeft_eq, ← Nat.two_pow_add_eq_or_of_lt hlt]

/-- **The address of a page, put together**: without the sign extension. -/
theorem rebuiltAddr_path (page : Page) :
    rebuiltAddr page.path = page.start.val % 0x1000000000000 := by
  have h4 := page.start.p4Index.isLt
  have h3 := page.start.p3Index.isLt
  have h2 := page.start.p2Index.isLt
  have h1 := page.start.p1Index.isLt
  have ha := page.aligned
  have hval4 : page.start.p4Index.val = page.start.val / 0x8000000000 % 512 := rfl
  have hval3 : page.start.p3Index.val = page.start.val / 0x40000000 % 512 := rfl
  have hval2 : page.start.p2Index.val = page.start.val / 0x200000 % 512 := rfl
  have hval1 : page.start.p1Index.val = page.start.val / 0x1000 % 512 := rfl
  simp only [Page.path, rebuiltAddr, addrBelow]
  generalize page.start.p4Index.val = i4 at *
  generalize page.start.p3Index.val = i3 at *
  generalize page.start.p2Index.val = i2 at *
  generalize page.start.p1Index.val = i1 at *
  rw [Nat.shiftLeft_eq i4 39]
  rw [or_shiftLeft_of_dvd (k := 12 + 9 * 2) h3 (by omega)]
  rw [or_shiftLeft_of_dvd (k := 12 + 9 * 1) h2 (by omega)]
  rw [or_shiftLeft_of_dvd (k := 12 + 9 * 0) h1 (by omega)]
  omega

theorem rebuiltAddr_of_lower {page : Page} (h : page.start.val < 0x800000000000) :
    rebuiltAddr page.path = page.start.val := by
  rw [rebuiltAddr_path]
  omega

/-- **The address that is put together is the page's** exactly in the lower half. -/
theorem rebuiltAddr_eq_iff {page : Page} :
    rebuiltAddr page.path = page.start.val ↔ (page.start.p4Index : ℕ) < 256 := by
  have hindex : (page.start.p4Index : ℕ) = page.start.val / 0x8000000000 % 512 := rfl
  rw [rebuiltAddr_path, hindex]
  have := page.start.canonical
  omega

/-- A range of the lower half cannot tell the two addresses of a page apart. -/
theorem inRange_rebuiltAddr {borrowed : ℕ × ℕ} (hb : borrowed.2 ≤ 0x800000000000) (page : Page) :
    inRange borrowed (rebuiltAddr page.path) = inRange borrowed page.start.val := by
  rw [Bool.eq_iff_iff, inRange_iff, inRange_iff, rebuiltAddr_path]
  have := page.start.canonical
  omega

/-- Every choice of four indices is the path of a page. -/
theorem Page.exists_path (i j k l : Fin 512) : ∃ page : Page, page.path = [i, j, k, l] := by
  have hi := i.isLt
  have hj := j.isLt
  have hk := k.isLt
  have hl := l.isLt
  obtain ⟨a, ha⟩ : ∃ a, a = i.val * 0x8000000000 + j.val * 0x40000000 + k.val * 0x200000 +
      l.val * 0x1000 := ⟨_, rfl⟩
  have hpath : ∀ (b : ℕ) (hb : b < 0x800000000000 ∨
      (0xffff800000000000 ≤ b ∧ b < 0x10000000000000000)) (hal : b % 4096 = 0),
      b % 0x1000000000000 = a → Page.path ⟨⟨b, hb⟩, hal⟩ = [i, j, k, l] := by
    intro b hb hal hba
    simp only [Page.path, VirtAddr.p4Index, VirtAddr.p3Index, VirtAddr.p2Index, VirtAddr.p1Index,
      List.cons.injEq, and_true]
    refine ⟨Fin.ext ?_, Fin.ext ?_, Fin.ext ?_, Fin.ext ?_⟩ <;> simp only <;> omega
  by_cases hlow : a < 0x800000000000
  · exact ⟨_, hpath a (Or.inl hlow) (by omega) (by omega)⟩
  · exact ⟨_, hpath (a + 0xffff000000000000) (Or.inr (by omega)) (by omega) (by omega)⟩

/-! ## The list of calls is a listing of the tree -/

/-- `free_table` gives back what is reached by this path from a table of the given level: a
table, or a data frame outside the borrowed range. -/
def keptBelow (borrowed : ℕ × ℕ) (level baseAddr : ℕ) (p : List (Fin 512) × PhysFrame) : Bool :=
  p.1.length < level || !inRange borrowed (addrBelow level baseAddr p.1)

/-- A path of the whole space that ends in a frame which is given back. -/
def kept (off : Fin 512) (borrowed : ℕ × ℕ) : List (Fin 512) × PhysFrame → Bool
  | ([], _) => true
  | (i :: path, f) => owned off i && keptBelow borrowed 3 (i.val <<< 39) (path, f)

/-- All indices of a table, in order. -/
def indices : List (Fin 512) := List.finRange 512

theorem PageTableEntry.follow_of_proper {e : Word} (h : present e = true → huge e = false) :
    follow e = if present e then some (addrFrame e) else none := by
  rw [follow]
  cases hp : present e with
  | false => rfl
  | true => rw [h hp]; rfl

/-- One round of the loop of `free_table`, at level 1. -/
theorem freed_leaf {mem : PhysMem} {borrowed : ℕ × ℕ} {child : PhysFrame} {baseAddr : ℕ}
    {i : Fin 512} :
    (if borrowed.1 ≤ baseAddr ||| (i.val <<< (12 + 9 * 0)) ∧
        baseAddr ||| (i.val <<< (12 + 9 * 0)) < borrowed.2 then [] else [child]) =
      (((RadixHeap.postorder PageTableEntry.follow mem indices 0 child).map
        (Prod.map (i :: ·) id)).filter (keptBelow borrowed 1 baseAddr)).map Prod.snd := by
  rw [RadixHeap.postorder, List.map_singleton, List.filter_singleton, keptBelow]
  simp only [← inRange_iff, Prod.map_apply, List.length_singleton, addrBelow, lt_irrefl,
    decide_false, Bool.false_or, id_eq]
  cases inRange borrowed (baseAddr ||| (i.val <<< (12 + 9 * 0))) with
  | false => rfl
  | true => rfl

/-- One round of the loop of `free_table`, above. -/
theorem filter_keptBelow {borrowed : ℕ × ℕ} {level baseAddr : ℕ} {i : Fin 512}
    {l : List (List (Fin 512) × PhysFrame)} :
    ((l.map (Prod.map (i :: ·) id)).filter (keptBelow borrowed (level + 1) baseAddr)).map Prod.snd =
      (l.filter (keptBelow borrowed level (baseAddr ||| (i.val <<< (12 + 9 * level))))).map
        Prod.snd := by
  rw [List.filter_map, List.map_map]
  refine congrArg₂ List.map rfl (List.filter_congr ?_)
  rintro ⟨π, f⟩ _
  simp [keptBelow, addrBelow]

theorem freedByTable_eq {mem : PhysMem} {borrowed : ℕ × ℕ} {level : ℕ} {frame : PhysFrame}
    {baseAddr : ℕ} (h : ProperTable mem (level + 1) frame) :
    freedByTable mem borrowed (level + 1) frame baseAddr =
      ((RadixHeap.postorder PageTableEntry.follow mem indices (level + 1) frame).filter
        (keptBelow borrowed (level + 1) baseAddr)).map Prod.snd := by
  induction level generalizing frame baseAddr with
  | zero =>
    rw [freedByTable, RadixHeap.postorder, List.filter_append, List.map_append, List.filter_flatMap,
      List.map_flatMap]
    refine congrArg₂ (· ++ ·) (List.flatMap_congr fun i _ => ?_) rfl
    rw [PageTableEntry.follow_of_proper fun hp => (h i hp).1]
    cases PageTableEntry.present (mem frame i) with
    | false => rfl
    | true =>
      simp only [if_true, Option.toList_some, List.flatMap_singleton]
      rw [if_neg (by omega)]
      exact freed_leaf
  | succ level ih =>
    rw [freedByTable, RadixHeap.postorder, List.filter_append, List.map_append, List.filter_flatMap,
      List.map_flatMap]
    refine congrArg₂ (· ++ ·) (List.flatMap_congr fun i _ => ?_) rfl
    rw [PageTableEntry.follow_of_proper fun hp => (h i hp).1]
    cases hp : PageTableEntry.present (mem frame i) with
    | false => rfl
    | true =>
      simp only [if_true, Option.toList_some, List.flatMap_singleton]
      rw [if_pos (by omega), ih (h i hp).2, filter_keptBelow]

/-- **The frames given back**, as a listing of the tree below the level-4 table. -/
theorem freedBySpace_eq {mem : PhysMem} {off : Fin 512} {borrowed : ℕ × ℕ} {l4 : PhysFrame}
    (h : ProperOwned mem off l4) :
    freedBySpace mem off borrowed l4 =
      ((RadixHeap.postorder PageTableEntry.follow mem indices 4 l4).filter
        (kept off borrowed)).map Prod.snd := by
  rw [freedBySpace, RadixHeap.postorder, List.filter_append, List.map_append, List.filter_flatMap,
    List.map_flatMap]
  refine congrArg₂ (· ++ ·) (List.flatMap_congr fun i _ => ?_) rfl
  cases hown : owned off i with
  | false =>
    rw [Bool.false_and, if_neg Bool.false_ne_true, eq_comm, List.map_eq_nil_iff,
      List.filter_eq_nil_iff]
    rintro p hp hkept
    obtain ⟨m, ρ, -, hpath, -⟩ := RadixHeap.mem_below.1 hp
    rw [show p = (i :: ρ, p.2) from Prod.ext hpath rfl, kept, hown] at hkept
    cases hkept
  | true =>
    rw [PageTableEntry.follow_of_proper fun hp => (h i hown hp).1, Bool.true_and]
    cases hp : PageTableEntry.present (mem l4 i) with
    | false => rfl
    | true =>
      simp only [if_true, Option.toList_some, List.flatMap_singleton]
      rw [freedByTable_eq (h i hown hp).2, List.filter_map, List.map_map]
      refine congrArg₂ List.map rfl (List.filter_congr ?_)
      rintro ⟨π, f⟩ _
      show _ = (owned off i && keptBelow borrowed 3 (i.val <<< 39) (π, f))
      rw [hown, Bool.true_and]

/-! ## What is given back -/

/-- **A hierarchy that owns what is below its entries**: there are only 4 KiB pages, and every
table and data frame below an entry that is not shared is referenced once, by no shared entry and
not as the level-4 table. -/
structure PrivateTables (mem : PhysMem) (off : Fin 512) (l4 : PhysFrame) : Prop where
  proper : ProperOwned mem off l4
  once : ∀ i π ρ f, owned off i = true → (i :: π).length ≤ 4 → ρ.length ≤ 4 →
    RadixHeap.walk PageTableEntry.follow mem l4 (i :: π) = some f →
    RadixHeap.walk PageTableEntry.follow mem l4 ρ = some f → ρ = i :: π

/-- A level-3, level-2 or level-1 table below an entry that is not shared. -/
def OwnedTable (mem : PhysMem) (off : Fin 512) (l4 f : PhysFrame) : Prop :=
  ∃ i π, owned off i = true ∧ π.length ≤ 2 ∧
    RadixHeap.walk PageTableEntry.follow mem l4 (i :: π) = some f

/-- The data frame of a page below an entry that is not shared. -/
def OwnedPage (mem : PhysMem) (off : Fin 512) (l4 : PhysFrame) (page : Page) (f : PhysFrame) :
    Prop :=
  owned off page.start.p4Index = true ∧ translatePage mem l4 page = some f

/-- A table or data frame below a shared entry. -/
def SharedFrame (mem : PhysMem) (off : Fin 512) (l4 f : PhysFrame) : Prop :=
  ∃ i π, owned off i = false ∧ π.length ≤ 3 ∧
    RadixHeap.walk PageTableEntry.follow mem l4 (i :: π) = some f

section Exact

variable {mem : PhysMem} {off : Fin 512} {l4 f : PhysFrame} {borrowed : ℕ × ℕ}

theorem mem_indices (i : Fin 512) : i ∈ indices := List.mem_finRange i

/-- Which frames are given back, by their paths. -/
theorem mem_freedBySpace (h : ProperOwned mem off l4) :
    f ∈ freedBySpace mem off borrowed l4 ↔ ∃ π : List (Fin 512), kept off borrowed (π, f) = true ∧
      π.length ≤ 4 ∧ RadixHeap.walk PageTableEntry.follow mem l4 π = some f := by
  rw [freedBySpace_eq h, List.mem_map]
  constructor
  · rintro ⟨⟨π, x⟩, hp, rfl⟩
    rw [List.mem_filter, RadixHeap.mem_postorder mem_indices] at hp
    exact ⟨π, hp.2, hp.1⟩
  · rintro ⟨π, hkept, hwalk⟩
    exact ⟨(π, f), List.mem_filter.2 ⟨(RadixHeap.mem_postorder mem_indices).2 hwalk, hkept⟩, rfl⟩

/-- No frame is given back twice if no two paths that are kept lead to the same one. -/
theorem freedBySpace_nodup (h : ProperOwned mem off l4)
    (honce : ∀ π ρ f, kept off borrowed (π, f) = true → kept off borrowed (ρ, f) = true →
      π.length ≤ 4 → ρ.length ≤ 4 → RadixHeap.walk PageTableEntry.follow mem l4 π = some f →
      RadixHeap.walk PageTableEntry.follow mem l4 ρ = some f → π = ρ) :
    (freedBySpace mem off borrowed l4).Nodup := by
  rw [freedBySpace_eq h]
  refine List.Nodup.map_on ?_ ((RadixHeap.nodup_postorder (List.nodup_finRange 512)).filter _)
  rintro ⟨π, x⟩ hp ⟨ρ, y⟩ hq hxy
  obtain rfl : x = y := hxy
  obtain ⟨hp, hkept⟩ := List.mem_filter.1 hp
  obtain ⟨hq, hkept'⟩ := List.mem_filter.1 hq
  obtain ⟨hlen, hx⟩ := (RadixHeap.mem_postorder mem_indices).1 hp
  obtain ⟨hlen', hx'⟩ := (RadixHeap.mem_postorder mem_indices).1 hq
  rw [honce π ρ x hkept hkept' hlen hlen' hx hx']

theorem PrivateTables.nodup_freedBySpace (h : PrivateTables mem off l4) :
    (freedBySpace mem off borrowed l4).Nodup := by
  refine freedBySpace_nodup h.proper ?_
  intro π ρ f hkept hkept' hlen hlen' hf hf'
  cases π with
  | cons i π =>
    rw [kept, Bool.and_eq_true] at hkept
    exact (h.once i π ρ f hkept.1 hlen hlen' hf hf').symm
  | nil =>
    cases ρ with
    | nil => rfl
    | cons j ρ =>
      rw [kept, Bool.and_eq_true] at hkept'
      exact h.once j ρ [] f hkept'.1 hlen' hlen hf' hf

/-- A path is kept if it ends at the level-4 table, at an owned table, or at a page outside the
borrowed range. -/
theorem mem_freedBySpace_iff (h : ProperOwned mem off l4) :
    f ∈ freedBySpace mem off borrowed l4 ↔ f = l4 ∨ OwnedTable mem off l4 f ∨
      ∃ page, OwnedPage mem off l4 page f ∧ inRange borrowed (rebuiltAddr page.path) = false := by
  rw [mem_freedBySpace h]
  constructor
  · rintro ⟨π, hkept, hlen, hf⟩
    cases π with
    | nil => exact Or.inl (Option.some.inj hf).symm
    | cons i π =>
      rw [kept, keptBelow, Bool.and_eq_true, Bool.or_eq_true, decide_eq_true_iff,
        Bool.not_eq_true'] at hkept
      simp only at hkept
      obtain ⟨hi, hlt | hout⟩ := hkept
      · exact Or.inr (Or.inl ⟨i, π, hi, by omega, hf⟩)
      · by_cases hle : π.length ≤ 2
        · exact Or.inr (Or.inl ⟨i, π, hi, hle, hf⟩)
        · -- a path of full length is the path of a page
          rw [List.length_cons] at hlen
          obtain ⟨j, k, l, rfl⟩ := List.length_eq_three.1 (show π.length = 3 by omega)
          obtain ⟨page, hpage⟩ := Page.exists_path i j k l
          refine Or.inr (Or.inr ⟨page, ⟨?_, ?_⟩, ?_⟩)
          · rw [show page.start.p4Index = i from (List.cons.inj hpage).1]
            exact hi
          · rw [translatePage, hpage]
            exact hf
          · rw [hpage]
            exact hout
  · rintro (rfl | ⟨i, π, hi, hle, hf⟩ | ⟨page, ⟨hi, hf⟩, hout⟩)
    · exact ⟨[], rfl, by simp, rfl⟩
    · refine ⟨i :: π, ?_, by rw [List.length_cons]; omega, hf⟩
      rw [kept, keptBelow, hi, decide_eq_true (show π.length < 3 by omega)]
      rfl
    · refine ⟨page.path, ?_, by simp [Page.path], hf⟩
      have hout' : inRange borrowed (addrBelow 3 (page.start.p4Index.val <<< 39)
          [page.start.p3Index, page.start.p2Index, page.start.p1Index]) = false := hout
      rw [Page.path, kept, keptBelow, hi, hout']
      rfl

/-- The path of an owned page is the only path to its frame. -/
theorem PrivateTables.eq_path (h : PrivateTables mem off l4) {page : Page} {ρ : List (Fin 512)}
    (hpage : OwnedPage mem off l4 page f) (hlen : ρ.length ≤ 4)
    (hf : RadixHeap.walk PageTableEntry.follow mem l4 ρ = some f) : ρ = page.path :=
  h.once _ _ ρ f hpage.1 (by simp) hlen hpage.2 hf

/-- Whether the frame of a page is given back depends on the address that was put together. -/
theorem PrivateTables.mem_freed_of_page (h : PrivateTables mem off l4) {page : Page}
    (hpage : OwnedPage mem off l4 page f) : f ∈ freedBySpace mem off borrowed l4 ↔
      inRange borrowed (rebuiltAddr page.path) = false := by
  rw [mem_freedBySpace_iff h.proper]
  constructor
  · rintro (rfl | ⟨i, π, -, hle, hf⟩ | ⟨page', hpage', hout⟩)
    · cases h.eq_path (ρ := []) hpage (Nat.zero_le _) rfl
    · have hpath := h.eq_path hpage (by rw [List.length_cons]; omega) hf
      have hlen := congrArg List.length hpath
      simp only [Page.path, List.length_cons, List.length_nil] at hlen
      omega
    · rwa [h.eq_path hpage (by simp [Page.path]) hpage'.2] at hout
  · intro hout
    exact Or.inr (Or.inr ⟨page, hpage, hout⟩)

/-- Nothing that is shared is given back. -/
theorem PrivateTables.not_mem_freed_of_shared (h : PrivateTables mem off l4)
    (hshared : SharedFrame mem off l4 f) (hl4 : f ≠ l4) : f ∉ freedBySpace mem off borrowed l4 := by
  obtain ⟨i, π, hi, hle, hf⟩ := hshared
  have hlen : (i :: π).length ≤ 4 := by
    rw [List.length_cons]
    omega
  have hnot : ∀ j ρ, owned off j = true → (j :: ρ).length ≤ 4 →
      RadixHeap.walk PageTableEntry.follow mem l4 (j :: ρ) ≠ some f := by
    intro j ρ hj hlen' hf'
    obtain ⟨rfl, -⟩ := List.cons.inj (h.once j ρ (i :: π) f hj hlen' hlen hf' hf)
    rw [hi] at hj
    cases hj
  rw [mem_freedBySpace_iff h.proper]
  rintro (rfl | ⟨j, ρ, hj, hle', hf'⟩ | ⟨page, ⟨hj, hf'⟩, -⟩)
  · exact hl4 rfl
  · exact hnot j ρ hj (by rw [List.length_cons]; omega) hf'
  · exact hnot _ _ hj (by simp) hf'

/-- **`free_address_space` gives back what the space owns**, for every hierarchy that owns what is
below its entries, every window and every borrowed range of the lower half: the level-4 table,
every owned table and every data frame of an owned page outside the range, each once, and
nothing that is shared or borrowed.

A page is recognised by an address that is put together from the indices of its tables.  It lacks
the sign extension, so it is the address of the page if and only if the page is in the lower half;
it is so for all that is owned if and only if nothing is owned below the upper half of the level-4
table. -/
theorem freeAddressSpace_exact (mem : PhysMem) (off : Fin 512) (l4 : PhysFrame) (borrowed : ℕ × ℕ)
    (h : PrivateTables mem off l4) (hb : borrowed.2 ≤ 0x800000000000) :
    (∀ (σ : Type) (A : FrameAllocator σ) (m : Machine σ), m.mem = mem →
      freeAddressSpace A off borrowed l4 m =
        .ok (m.deallocateAll A (freedBySpace mem off borrowed l4))) ∧
    (freedBySpace mem off borrowed l4).Nodup ∧
    (∀ f, f ∈ freedBySpace mem off borrowed l4 ↔ f = l4 ∨ OwnedTable mem off l4 f ∨
      ∃ page, OwnedPage mem off l4 page f ∧
        ¬ (borrowed.1 ≤ page.start.val ∧ page.start.val < borrowed.2)) ∧
    (∀ f, SharedFrame mem off l4 f → f ≠ l4 → f ∉ freedBySpace mem off borrowed l4) ∧
    (∀ page f, OwnedPage mem off l4 page f → borrowed.1 ≤ page.start.val →
      page.start.val < borrowed.2 → f ∉ freedBySpace mem off borrowed l4) ∧
    (∀ page f, OwnedPage mem off l4 page f →
      (∀ range, f ∈ freedBySpace mem off range l4 ↔
        ¬ (range.1 ≤ rebuiltAddr page.path ∧ rebuiltAddr page.path < range.2)) ∧
      (page.start.val < 0x800000000000 → rebuiltAddr page.path = page.start.val) ∧
      (0x800000000000 ≤ page.start.val →
        rebuiltAddr page.path + 0xffff000000000000 = page.start.val)) ∧
    ((∀ page f, OwnedPage mem off l4 page f → rebuiltAddr page.path = page.start.val) ↔
      ∀ page f, OwnedPage mem off l4 page f → (page.start.p4Index : ℕ) < 256) := by
  have hpage : ∀ page : Page, inRange borrowed (rebuiltAddr page.path) = false ↔
      ¬ (borrowed.1 ≤ page.start.val ∧ page.start.val < borrowed.2) := by
    intro page
    rw [inRange_rebuiltAddr hb, ← inRange_iff, Bool.not_eq_true]
  refine ⟨?_, h.nodup_freedBySpace, ?_, fun f => h.not_mem_freed_of_shared, ?_, ?_,
    forall₂_congr fun page f => imp_congr_right fun _ => rebuiltAddr_eq_iff⟩
  · rintro σ A m rfl
    exact freeAddressSpace_eq h.proper
  · intro f
    rw [mem_freedBySpace_iff h.proper]
    simp only [hpage]
  · intro page f hf hle hlt
    rw [h.mem_freed_of_page hf, hpage page]
    exact not_not.2 ⟨hle, hlt⟩
  · intro page f hf
    refine ⟨?_, rebuiltAddr_of_lower, ?_⟩
    · intro range
      rw [h.mem_freed_of_page hf, ← inRange_iff, Bool.not_eq_true]
    · intro hup
      rw [rebuiltAddr_path]
      have := page.start.canonical
      omega

end Exact

/-! ## Two small hierarchies -/

/-- Strictly increasing targets make a list of entries a hierarchy of its own. -/
theorem privateTables_memoryOf {entries : List (PhysFrame × Fin 512 × Word)} {off : Fin 512}
    {l4 : PhysFrame}
    (hchain : (entries.map fun e =>
      ((PageTableEntry.follow e.2.2).map Fin.val).getD 0).IsChain (· < ·))
    (hroot : some l4 ∉ entries.map fun e => PageTableEntry.follow e.2.2)
    (hhuge : entries.all (fun e => !PageTableEntry.huge e.2.2) = true) :
    PrivateTables (memoryOf entries) off l4 where
  proper := by
    have hproper : ∀ t i, PageTableEntry.present (memoryOf entries t i) = true →
        PageTableEntry.huge (memoryOf entries t i) = false := by
      intro t i hp
      have hmem := mem_of_memoryOf_ne_zero (PageTableEntry.ne_zero_of_present hp)
      simpa using List.all_eq_true.1 hhuge _ hmem
    have htable : ∀ level t, ProperTable (memoryOf entries) level t := by
      intro level
      induction level with
      | zero => exact fun _ => trivial
      | succ level ih => exact fun t i hp => ⟨hproper t i hp, ih _⟩
    exact fun i _ hp => ⟨hproper l4 i hp, htable 3 _⟩
  once := by
    intro i π ρ f _ hlen hlen' hf hf'
    exact treeTo_memoryOf PageTableEntry.follow_zero hchain hroot ρ (i :: π) f hlen' hlen hf' hf

/-- A page of the program and one of its stack, at 0x4444_4444_0000 and right above. -/
def stackEntries : List (PhysFrame × Fin 512 × Word) :=
  [(1, 136, PageTableEntry.setFrame 2 7), (2, 273, PageTableEntry.setFrame 3 7),
    (3, 34, PageTableEntry.setFrame 4 7), (4, 64, PageTableEntry.setFrame 5 7),
    (4, 65, PageTableEntry.setFrame 6 3)]

/-- Both pages are below the entry 136 of the level-4 table. -/
theorem p4Index_of_stackEntries {page : Page} {f : PhysFrame}
    (h : OwnedPage (memoryOf stackEntries) 3 1 page f) : page.start.p4Index = 136 := by
  obtain ⟨t, ht, -⟩ := Option.bind_eq_some_iff.1 h.2
  have hne : memoryOf stackEntries 1 page.start.p4Index ≠ 0 := by
    intro hzero
    rw [hzero, PageTableEntry.follow_zero] at ht
    cases ht
  have hall : stackEntries.all (fun e => e.1 ≠ 1 ∨ e.2.1 = 136) = true := by decide +kernel
  have hentry := of_decide_eq_true (List.all_eq_true.1 hall _ (mem_of_memoryOf_ne_zero hne))
  exact hentry.resolve_left (not_not.2 rfl)

/-- The stack is borrowed: of the six frames five are given back, and the addresses of the pages
are put together as they are. -/
theorem freeAddressSpace_exact_stackEntries :
    (freedBySpace (memoryOf stackEntries) 3 (0x444444441000, 0x444444442000) 1).Nodup ∧
      freedBySpace (memoryOf stackEntries) 3 (0x444444441000, 0x444444442000) 1 =
        [5, 4, 3, 2, 1] ∧
      ∀ page f, OwnedPage (memoryOf stackEntries) 3 1 page f →
        rebuiltAddr page.path = page.start.val := by
  obtain ⟨-, hnodup, -, -, -, -, haddr⟩ := freeAddressSpace_exact (memoryOf stackEntries) 3 1
    (0x444444441000, 0x444444442000) (privateTables_memoryOf (by decide) (by decide) (by decide))
    (by decide)
  refine ⟨hnodup, by decide +kernel, haddr.2 fun page f hf => ?_⟩
  rw [p4Index_of_stackEntries hf]
  decide

/-- One page at the bottom of the upper half. -/
def upperEntries : List (PhysFrame × Fin 512 × Word) :=
  [(1, 256, PageTableEntry.setFrame 2 7), (2, 0, PageTableEntry.setFrame 3 7),
    (3, 0, PageTableEntry.setFrame 4 7), (4, 0, PageTableEntry.setFrame 5 7)]

/-- **In the upper half the address put together is not the page's**: the frame of the page at
0xffff_8000_0000_0000 is kept for a range that contains 0x8000_0000_0000, and given back
for one that contains the page. -/
theorem freeAddressSpace_upper : PrivateTables (memoryOf upperEntries) 3 1 ∧
    ∃ page : Page, page.start.val = 0xffff800000000000 ∧
      OwnedPage (memoryOf upperEntries) 3 1 page 5 ∧ rebuiltAddr page.path = 0x800000000000 ∧
      5 ∉ freedBySpace (memoryOf upperEntries) 3 (0x800000000000, 0x800000001000) 1 ∧
      5 ∈ freedBySpace (memoryOf upperEntries) 3 (0xffff800000000000, 0xffff800000001000) 1 := by
  refine ⟨privateTables_memoryOf (by decide) (by decide) (by decide),
    ⟨⟨0xffff800000000000, by decide⟩, by decide⟩, rfl, ⟨by decide, by decide +kernel⟩, by decide,
    by decide +kernel, by decide +kernel⟩
