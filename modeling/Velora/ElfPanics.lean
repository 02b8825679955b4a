/-
# When loading a file panics

The documentation of `elf::load` promises `None` for a malformed file, "never panics".
`load_returns_iff` says for which files it returns: those whose segments end in the
lower half and whose pages (stack and argument page included) are asked for once and
are not mapped already in what the new space shares with the kernel.  For any other
file one of the `expect`s in `map_segment`, or the addition of a page number, panics;
`repeatedSegment` is one.
-/
import Velora.Runs
import Velora.BootInfoFrameAllocator
import Velora.ElfPages

section Panics

variable {σ : Type} {A : FrameAllocator σ} {mapTo : MapTo σ} {S : A.Spec} {cr3 : PhysFrame}
  {off : Fin 512} {bytes args : List Byte} {m : Machine σ}

/-- A new space can be had as long as there is a frame. -/
theorem exists_newAddressSpace (cr3 : PhysFrame) (off : Fin 512) {n : ℕ}
    (h : A.Supplies (n + 1) m.frames) :
    ∃ l4 m', newAddressSpace A m cr3 off = .ok (l4, m') ∧ A.Supplies n m'.frames := by
  obtain ⟨f, s, hs, hsup⟩ := h
  obtain ⟨⟨l4, m'⟩, hnew⟩ : ∃ p, newAddressSpace A m cr3 off = .ok p := by
    rw [newAddressSpace, Machine.allocate, hs]
    exact ⟨_, rfl⟩
  obtain ⟨m₁, ha, hm', -, -⟩ := newAddressSpace_eq_ok hnew
  refine ⟨l4, m', hnew, ?_⟩
  have halloc := (Machine.allocate_eq_some ha).1
  rw [hs] at halloc
  cases halloc
  rw [hm']
  exact hsup

/-- **A plan can be carried out** in a new space, given distinct pages, each below an entry that is
not shared or free to be mapped in what is, and enough frames. -/
theorem exists_mapAll_eq_ok (hmap : MapTo.Documented A mapTo) {n : ℕ}
    (hk : Space S cr3 allEntries noEntries m) (hdistinct : (plan bytes args).Distinct)
    (hslots : ∀ q ∈ (plan bytes args).pages, owned off q.slot = true ∨
      Mappable m.mem cr3 allEntries (pathOf q.addr))
    (hsup : A.Supplies (n + 4 * (plan bytes args).pages.length + 1) m.frames) :
    ∃ l4 m₁ m₂, newAddressSpace A m cr3 off = .ok (l4, m₁) ∧
      mapAll A mapTo l4 (plan bytes args).segments m₁ = .ok m₂ ∧
      Space S l4 allEntries (owned off) m₂ ∧ A.Supplies n m₂.frames := by
  obtain ⟨l4, m₁, hnew, hsup₁⟩ := exists_newAddressSpace cr3 off hsup
  have hs₁ := newAddressSpace_all hk hnew
  have hmappable : ∀ q ∈ (plan bytes args).pages,
      Mappable m₁.mem l4 allEntries (pathOf q.addr) := by
    intro q hq
    obtain ⟨π, hπ, hpath⟩ := q.pathOf_addr
    have hq' := hslots q hq
    rw [hpath] at hq' ⊢
    exact (newAddressSpace_mappable hk.valid hk.used hnew hπ).2 hq'
  have hoks := plan_request_ok hdistinct.lower
  obtain ⟨m₂, hrun, hsup₂⟩ := exists_mapRequests_eq_ok hmap hs₁ hoks (fun _ _ => rfl)
    hdistinct.nodup hmappable hsup₁
  obtain ⟨hs₂, -⟩ := mapRequests_spec hmap hs₁ hoks (fun _ _ => rfl) hrun
  exact ⟨l4, m₁, m₂, hnew, (mapAll_eq_ok plan_accepted).2 ⟨hdistinct.lower, hrun⟩, hs₂, hsup₂⟩

/-- A plan that was carried out had distinct pages that could be mapped. -/
theorem distinct_of_mapAll (hmap : MapTo.Documented A mapTo) {l4 : PhysFrame} {m₁ m₂ : Machine σ}
    (hk : Space S cr3 allEntries noEntries m) (hnew : newAddressSpace A m cr3 off = .ok (l4, m₁))
    (hall : mapAll A mapTo l4 (plan bytes args).segments m₁ = .ok m₂) :
    (plan bytes args).Distinct ∧ ∀ q ∈ (plan bytes args).pages, owned off q.slot = true ∨
      Mappable m.mem cr3 allEntries (pathOf q.addr) := by
  obtain ⟨hlow, hrun⟩ := (mapAll_eq_ok plan_accepted).1 hall
  obtain ⟨-, -, -, hnodup, hmappable⟩ := mapRequests_spec hmap (newAddressSpace_all hk hnew)
    (plan_request_ok hlow) (fun _ _ => rfl) hrun
  refine ⟨⟨hlow, hnodup⟩, ?_⟩
  intro q hq
  obtain ⟨π, hπ, hpath⟩ := q.pathOf_addr
  have hq' := hmappable q hq
  rw [hpath] at hq' ⊢
  exact (newAddressSpace_mappable hk.valid hk.used hnew hπ).1 hq'

/-- **When `load` returns**, whatever the file, as long as there are enough frames. -/
theorem load_returns_iff (hmap : MapTo.Documented A mapTo) (hk : Space S cr3 allEntries noEntries m)
    (hsup : (plan bytes args).Distinct →
      A.Supplies (4 * (plan bytes args).pages.length + 1) m.frames) :
    (∃ r, load A mapTo cr3 off bytes args m = .ok r) ↔
      (headerOk bytes = true → (plan bytes args).Distinct ∧
        ∀ q ∈ (plan bytes args).pages, owned off q.slot = true ∨
          Mappable m.mem cr3 allEntries (pathOf q.addr)) := by
  constructor
  · rintro ⟨⟨m', loaded⟩, h⟩ hok
    rcases load_eq_ok h with ⟨hbad, -, -⟩ | ⟨-, l4, m₁, m₂, hnew, hall, -⟩
    · rw [hok] at hbad
      cases hbad
    · exact distinct_of_mapAll hmap hk hnew hall
  · intro hcond
    cases hok : headerOk bytes with
    | false => exact ⟨(m, none), by rw [load, hok]; rfl⟩
    | true =>
      obtain ⟨hdistinct, hslots⟩ := hcond hok
      have hsup' := hsup hdistinct
      rw [← Nat.zero_add (4 * (plan bytes args).pages.length)] at hsup'
      obtain ⟨l4, m₁, m₂, hnew, hall, hs₂, -⟩ := exists_mapAll_eq_ok hmap hk hdistinct hslots hsup'
      cases hres : (plan bytes args).result with
      | some r =>
        obtain ⟨entry, stackTop, argsPtr, argsLen⟩ := r
        exact ⟨_, load_of_result hok hnew hall hres⟩
      | none =>
        -- half-way up: what was built is freed again
        exact ⟨_, load_of_none hok hnew hall hres (hs₂.freeAddressSpace fun _ _ => rfl)⟩

/-- A file that is accepted, is loaded. -/
theorem exists_load_eq_some (hmap : MapTo.Documented A mapTo) {n : ℕ}
    (hk : Space S cr3 allEntries noEntries m) (hok : headerOk bytes = true)
    (hres : (plan bytes args).result.isSome = true) (hdistinct : (plan bytes args).Distinct)
    (hslots : ∀ q ∈ (plan bytes args).pages, owned off q.slot = true ∨
      Mappable m.mem cr3 allEntries (pathOf q.addr))
    (hsup : A.Supplies (n + 4 * (plan bytes args).pages.length + 1) m.frames) :
    ∃ m' elf, load A mapTo cr3 off bytes args m = .ok (m', some elf) := by
  obtain ⟨l4, m₁, m₂, hnew, hall, -, -⟩ := exists_mapAll_eq_ok hmap hk hdistinct hslots hsup
  obtain ⟨⟨entry, stackTop, argsPtr, argsLen⟩, hres⟩ := Option.isSome_iff_exists.1 hres
  exact ⟨m₂, _, load_of_result hok hnew hall hres⟩

/-- What loading leaves of the frames. -/
theorem supplies_of_load (hmap : MapTo.Documented A mapTo) {n : ℕ} {m' : Machine σ}
    {elf : LoadedElf} (hk : Space S cr3 allEntries noEntries m)
    (h : load A mapTo cr3 off bytes args m = .ok (m', some elf))
    (hsup : A.Supplies (n + 4 * (plan bytes args).pages.length + 1) m.frames) :
    A.Supplies n m'.frames := by
  rcases load_eq_ok h with ⟨-, -, hc⟩ | ⟨-, l4, m₁, m₂, hnew, hall, hend⟩
  · cases hc
  · obtain ⟨hdistinct, hslots⟩ := distinct_of_mapAll hmap hk hnew hall
    obtain ⟨l4', m₁', m₂', hnew', hall', -, hsup₂⟩ :=
      exists_mapAll_eq_ok hmap hk hdistinct hslots hsup
    rw [hnew] at hnew'
    cases hnew'
    rw [hall] at hall'
    cases hall'
    rcases hend with ⟨_, _, _, _, -, rfl, -⟩ | ⟨-, hc, -⟩
    · exact hsup₂
    · cases hc

end Panics

/-! ## A machine and files to load -/

/-- The kernel's tables at boot, in frames 1 and 2: entry 0 of the level-4 table is in use. -/
def bootMemory : PhysMem := fun t i =>
  if t = 1 ∧ i = 0 then PageTableEntry.setFrame 2 3 else 0

/-- One usable region, from 1 MiB to 2 MiB. -/
def bootMap : MemoryMap where
  regions := [⟨0x100, 0x200, .usable, by decide⟩]
  disjoint := List.pairwise_singleton _ _

/-- The machine at boot. -/
def bootMachine : Machine BootInfoFrameAllocator where
  mem := bootMemory
  frames := BootInfoFrameAllocator.init bootMap
  log := []

theorem mem_supply_bootMachine {f : PhysFrame} :
    f ∈ bootMachine.frames.supply ↔ 0x100 ≤ f.val ∧ f.val < 0x200 := by
  rw [bootMachine, BootInfoFrameAllocator.supply_init, List.mem_flatMap]
  simp [bootMap, MemoryRegion.mem_frames]

theorem tableWalk_bootMemory {π : List (Fin 512)} {x : PhysFrame}
    (h : tableWalk bootMemory 1 allEntries π = some x) : (π = [] ∧ x = 1) ∨ (π = [0] ∧ x = 2) := by
  have hzero : ∀ j, bootMemory 2 j = 0 := fun j => if_neg (by simp)
  rw [tableWalk, view_allEntries] at h
  cases π with
  | nil => exact Or.inl ⟨rfl, (Option.some.inj h).symm⟩
  | cons i π =>
    rw [RadixHeap.walk_cons] at h
    by_cases hi : i = 0
    · subst hi
      have hnext : PageTableEntry.next (bootMemory 1 0) = some 2 := by decide
      rw [hnext, Option.bind_some] at h
      cases π with
      | nil => exact Or.inr ⟨rfl, (Option.some.inj h).symm⟩
      | cons j π =>
        rw [RadixHeap.walk_cons, hzero, PageTableEntry.next_zero] at h
        cases h
    · have hnone : bootMemory 1 i = 0 := if_neg (by simp [hi])
      rw [hnone, PageTableEntry.next_zero] at h
      cases h

/-- These tables are in good order, as long as the two frames are not handed out. -/
theorem space_bootMemory {a : BootInfoFrameAllocator} {log : List PhysFrame}
    (hv : a.supply.Nodup) (h₁ : 1 ∉ a.supply) (h₂ : 2 ∉ a.supply) :
    Space bootInfoSpec 1 allEntries noEntries ⟨bootMemory, a, log⟩ where
  valid := hv
  tree := by
    intro π ρ x _ _ h₁ h₂
    rcases tableWalk_bootMemory h₁ with ⟨rfl, rfl⟩ | ⟨rfl, rfl⟩
    · rcases tableWalk_bootMemory h₂ with ⟨rfl, -⟩ | ⟨-, hc⟩
      · rfl
      · exact absurd hc (by decide)
    · rcases tableWalk_bootMemory h₂ with ⟨-, hc⟩ | ⟨rfl, -⟩
      · exact absurd hc (by decide)
      · rfl
  used := by
    rintro x ⟨π, -, hx⟩
    rcases tableWalk_bootMemory hx with ⟨-, rfl⟩ | ⟨-, rfl⟩
    · exact h₁
    · exact h₂
  proper := fun π _ j _ _ hown => absurd hown (not_noEntries π j)

/-- The machine's tables are in good order. -/
theorem space_bootMachine : Space bootInfoSpec 1 allEntries noEntries bootMachine := by
  refine space_bootMemory (BootInfoFrameAllocator.nodup_supply_init bootMap) ?_ ?_
  · intro hc
    exact absurd (mem_supply_bootMachine.1 hc).1 (by decide)
  · intro hc
    exact absurd (mem_supply_bootMachine.1 hc).1 (by decide)

/-- The little-endian bytes of an integer. -/
def toLeBytes (n v : ℕ) : List Byte := (List.range n).map fun i => BitVec.ofNat 8 (v / 256 ^ i)

/-- A file header, with the program headers right behind it. -/
def fileHeader (entry phentsize phnum : ℕ) : List Byte :=
  [0x7f, 0x45, 0x4c, 0x46, 2, 1, 1, 0] ++ toLeBytes 8 0 ++ toLeBytes 2 2 ++ toLeBytes 2 0x3e ++
    toLeBytes 4 1 ++ toLeBytes 8 entry ++ toLeBytes 8 64 ++ toLeBytes 8 0 ++ toLeBytes 4 0 ++
    toLeBytes 2 64 ++ toLeBytes 2 phentsize ++ toLeBytes 2 phnum ++ toLeBytes 6 0

/-- A `PT_LOAD` program header. -/
def loadHeader (flags offset vaddr filesz memsz : ℕ) : List Byte :=
  toLeBytes 4 1 ++ toLeBytes 4 flags ++ toLeBytes 8 offset ++ toLeBytes 8 vaddr ++
    toLeBytes 8 vaddr ++ toLeBytes 8 filesz ++ toLeBytes 8 memsz ++ toLeBytes 8 4096

/-- A file with one segment: a byte of zeros, right above slot 0. -/
def oneSegment : List Byte := fileHeader 0x8000000000 56 1 ++ loadHeader 4 0 0x8000000000 0 1

theorem distinct_oneSegment : (plan oneSegment []).Distinct :=
  ⟨by decide +kernel, by decide +kernel⟩

theorem owned_oneSegment : ∀ q ∈ (plan oneSegment []).pages, owned 3 q.slot = true := by
  decide +kernel

theorem length_pages_oneSegment : (plan oneSegment []).pages.length = 3 := by decide +kernel

theorem load_returns_iff_oneSegment :
    ∃ r, load bootInfo (documentedMapTo bootInfo) 1 3 oneSegment [] bootMachine = .ok r := by
  refine (load_returns_iff (S := bootInfoSpec) (fun _ _ _ _ _ _ => rfl) space_bootMachine ?_).2 ?_
  · intro _
    rw [length_pages_oneSegment]
    exact supplies_bootInfo (n := 13) (by decide +kernel)
  · intro _
    exact ⟨distinct_oneSegment, fun q hq => Or.inl (owned_oneSegment q hq)⟩

/-- The same file with its header counted twice: `e_phentsize` is 0 and `e_phnum` is 2. -/
def repeatedSegment : List Byte := fileHeader 0x8000000000 0 2 ++ loadHeader 4 0 0x8000000000 0 1

/-- **`load` panics on a malformed file**: the second `map_to` of the page fails. -/
theorem load_panics_repeatedSegment :
    load bootInfo (documentedMapTo bootInfo) 1 3 repeatedSegment [] bootMachine =
      .error .mapSegmentFailed ∧ 17 ≤ bootMachine.frames.supply.length := by
  exact ⟨Runs.eq_error_of_failure (by decide +kernel), by decide +kernel⟩
