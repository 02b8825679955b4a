/-
# The kernel's heap

`init_heap` (allocator.rs): the 4 MiB at `HEAP_START` are mapped in the kernel's tables,
page by page, to frames that the allocator hands out.  It runs at boot, before anything
else takes a frame, so from then on a usable frame that the allocator does not have is a
frame of the heap or one of the tables that lead there (`booted_of_initHeap`).

`Booted` is what the rest of the kernel's life starts from.
-/
import Velora.FrameCirculation
import Velora.SpawnUser
import Velora.TableGrowth

/-! ## The code -/

/-- `HEAP_START` -/
def heapStart : ℕ := 0x444444440000

/-- `HEAP_SIZE` -/
def heapSize : ℕ := 4 * 1024 * 1024

/-- The pages of `page_range`, which ends with the page of `HEAP_START + HEAP_SIZE - 1`. -/
def heapPages : List Page :=
  (List.range (heapSize / 4096)).map fun i => pageAt (heapStart + i * 4096)

section InitHeap

variable {σ : Type} (A : FrameAllocator σ) (mapTo : MapTo σ)

/-- The body of the loop of `init_heap`. -/
def mapHeapPage (l4 : PhysFrame) (m : Machine σ) (page : Page) : Except MapToError (Machine σ) :=
  match m.allocate A with
  | none => .error .frameAllocationFailed
  | some (frame, m) => mapTo m l4 page frame kernelFlags

/-- `init_heap`, on the mapper of the level-4 table `l4`. -/
def initHeap (l4 : PhysFrame) (m : Machine σ) : Except MapToError (Machine σ) :=
  heapPages.foldlM (mapHeapPage A mapTo l4) m

end InitHeap

/-! ## The pages of the heap -/

/-- The page lies in the heap. -/
def IsHeapPage (page : Page) : Prop :=
  heapStart ≤ page.start.val ∧ page.start.val < heapStart + heapSize

theorem heapPage_lower {a : ℕ} (h : a < heapStart + heapSize) : a < 0x800000000000 := by
  have hend : heapStart + heapSize = 0x444444840000 := rfl
  omega

theorem mem_heapPages {page : Page} : page ∈ heapPages ↔ IsHeapPage page := by
  have hsize : heapSize / 4096 = 1024 := rfl
  have hsize' : heapSize = 1024 * 4096 := rfl
  have hstart : heapStart % 4096 = 0 := rfl
  rw [heapPages, List.mem_map]
  constructor
  · rintro ⟨i, hi, rfl⟩
    rw [List.mem_range] at hi
    have hlt : heapStart + i * 4096 < heapStart + heapSize := by omega
    rw [pageAt_of_lower (heapPage_lower hlt) (by omega)]
    exact ⟨Nat.le_add_right heapStart (i * 4096), hlt⟩
  · rintro ⟨hlo, hhi⟩
    have ha := page.aligned
    refine ⟨(page.start.val - heapStart) / 4096, List.mem_range.2 (by omega), ?_⟩
    have haddr : heapStart + (page.start.val - heapStart) / 4096 * 4096 = page.start.val := by
      omega
    rw [haddr, pageAt_of_lower (heapPage_lower hhi) ha]
    rfl

theorem nodup_heapPages : heapPages.Nodup := by
  have hstart : heapStart % 4096 = 0 := rfl
  have hsize : heapSize / 4096 = 1024 := rfl
  have hsize' : heapSize = 1024 * 4096 := rfl
  refine List.Nodup.map_on ?_ List.nodup_range
  intro i hi j hj hij
  rw [List.mem_range] at hi hj
  rw [pageAt_of_lower (heapPage_lower (by omega)) (by omega),
    pageAt_of_lower (heapPage_lower (by omega)) (by omega)] at hij
  have hval : heapStart + i * 4096 = heapStart + j * 4096 :=
    congrArg (fun page : Page => page.start.val) hij
  omega

/-- The heap lies below one entry of the level-4 table. -/
theorem p4Index_of_isHeapPage {page : Page} (h : IsHeapPage page) : page.start.p4Index = 136 := by
  obtain ⟨hlo, hhi⟩ := h
  have hstart : heapStart = 0x444444440000 := rfl
  have hend : heapStart + heapSize = 0x444444840000 := rfl
  have hdiv : page.start.val / 0x8000000000 = 136 := by omega
  refine Fin.ext ?_
  show page.start.val / 0x8000000000 % 512 = 136
  rw [hdiv]

/-! ## What `init_heap` does -/

section Spec

variable {σ : Type} {A : FrameAllocator σ} {mapTo : MapTo σ} {S : A.Spec} {cr3 : PhysFrame}
  {own : Fin 512 → Bool} {m m' : Machine σ} {page : Page} {pages : List Page}

/-- Inversion: a frame is taken and mapped. -/
theorem mapHeapPage_eq_ok (hmap : MapTo.Documented A mapTo)
    (h : mapHeapPage A mapTo cr3 m page = .ok m') :
    ∃ f m₁, m.allocate A = some (f, m₁) ∧
      mapPath A kernelFlags (PageTableEntry.setFrame f kernelFlags) m₁ cr3 page.path = .ok m' := by
  rw [mapHeapPage] at h
  cases ha : m.allocate A with
  | none =>
    rw [ha] at h
    cases h
  | some p =>
    rw [ha] at h
    have h' : mapTo p.2 cr3 page p.1 kernelFlags = .ok m' := h
    rw [hmap _ _ _ _ _ plain_kernelFlags, documentedMapTo, plain_and plain_kernelFlags] at h'
    exact ⟨p.1, p.2, rfl, h'⟩

/-- The page is mapped to a frame that is not free and no table. -/
def Backed (S : A.Spec) (cr3 : PhysFrame) (m : Machine σ) (page : Page) : Prop :=
  ∃ f, MapsTo m.mem cr3 allEntries page.path f ∧ f ∉ S.free m.frames ∧
    ¬ IsTable m.mem cr3 allEntries f

theorem Backed.heapPage (h : Backed S cr3 m page) : HeapPage S cr3 m page := by
  obtain ⟨f, hmaps, hfree, htab⟩ := h
  exact ⟨f, hmaps.follow, hfree, htab⟩

/-- Later mappings leave it so. -/
theorem Backed.extends (hs : Space S cr3 allEntries own m) (he : Extends S cr3 allEntries m m')
    (h : Backed S cr3 m page) : Backed S cr3 m' page := by
  obtain ⟨f, hmaps, hfree, htab⟩ := h
  exact ⟨f, hmaps.extends hs he (show page.path.length ≤ 4 from le_rfl),
    fun hc => hfree (he.free hc), he.not_isTable htab hfree⟩

/-- What a stretch of the loop has done: the pages are backed, and all frames taken are on the
way to one of them. -/
structure HeapMapped (S : A.Spec) (cr3 : PhysFrame) (own : Fin 512 → Bool) (pages : List Page)
    (m m' : Machine σ) : Prop where
  space : Space S cr3 allEntries own m'
  ext : Extends S cr3 allEntries m m'
  backed : ∀ page ∈ pages, Backed S cr3 m' page
  taken : ∃ added : List Reached, (∀ p ∈ added, ∃ page ∈ pages, p.1 <+: page.path) ∧
    Adds S cr3 allEntries m m' added (added.map Prod.snd)

/-- One page. -/
theorem mapHeapPage_spec (hexact : S.Exact) (hmap : MapTo.Documented A mapTo)
    (hs : Space S cr3 allEntries own m) (h : mapHeapPage A mapTo cr3 m page = .ok m') :
    HeapMapped S cr3 own [page] m m' ∧ ∀ q : List (Fin 512), q.length = 4 →
      (Mappable m'.mem cr3 allEntries q ↔ Mappable m.mem cr3 allEntries q ∧ q ≠ page.path) := by
  obtain ⟨f, m₁, ha, hto⟩ := mapHeapPage_eq_ok hmap h
  have hmapped : FreshMapped S cr3 allEntries own page.path f m m' :=
    freshMapped hs plain_kernelFlags rfl (fun _ _ => rfl) ha hto (fun _ _ => rfl)
  obtain ⟨added, -, hbelow, hadds⟩ := freshMapped_adds hexact hs plain_kernelFlags
    (show page.path.length = 4 from rfl) (fun _ _ => rfl) ha hto (fun _ _ => rfl)
  refine ⟨⟨hmapped.space, hmapped.ext, ?_, added, ?_, hadds⟩, hmapped.others⟩
  · intro q hq
    rw [List.mem_singleton.1 hq]
    exact ⟨f, hmapped.maps, hmapped.data_used, hmapped.data_not_table⟩
  · intro p hp
    exact ⟨page, List.mem_singleton_self page, (hbelow p hp).2⟩

/-- **The loop.** -/
theorem mapHeapPages_spec (hexact : S.Exact) (hmap : MapTo.Documented A mapTo)
    (hs : Space S cr3 allEntries own m)
    (h : pages.foldlM (mapHeapPage A mapTo cr3) m = .ok m') :
    HeapMapped S cr3 own pages m m' := by
  induction pages generalizing m with
  | nil =>
    cases h
    exact ⟨hs, Extends.refl, by simp, [], by simp, Adds.refl⟩
  | cons page pages ih =>
    rw [List.foldlM_cons] at h
    obtain ⟨m₁, h₁, h⟩ := bind_eq_ok h
    obtain ⟨hone, -⟩ := mapHeapPage_spec hexact hmap hs h₁
    have hrest := ih hone.space h
    obtain ⟨added, hbelow, hadds⟩ := hone.taken
    obtain ⟨added', hbelow', hadds'⟩ := hrest.taken
    refine ⟨hrest.space, hone.ext.trans hrest.ext, ?_, added' ++ added, ?_, ?_⟩
    · rw [List.forall_mem_cons]
      exact ⟨(hone.backed page List.mem_cons_self).extends hone.space hrest.ext, hrest.backed⟩
    · intro p hp
      rcases List.mem_append.1 hp with hp | hp
      · obtain ⟨q, hq, hpre⟩ := hbelow' p hp
        exact ⟨q, List.mem_cons_of_mem page hq, hpre⟩
      · obtain ⟨q, hq, hpre⟩ := hbelow p hp
        exact ⟨q, List.mem_cons.2 (Or.inl (List.mem_singleton.1 hq)), hpre⟩
    · rw [List.map_append]
      exact hadds.trans hadds'

/-- **The loop gets to its end** if the pages can be mapped, given four frames for each. -/
theorem exists_mapHeapPages_eq_ok (hexact : S.Exact) (hmap : MapTo.Documented A mapTo) {n : ℕ}
    (hs : Space S cr3 allEntries own m) (hnodup : pages.Nodup)
    (hmappable : ∀ page ∈ pages, Mappable m.mem cr3 allEntries page.path)
    (hsup : A.Supplies (n + 4 * pages.length) m.frames) :
    ∃ m', pages.foldlM (mapHeapPage A mapTo cr3) m = .ok m' ∧ A.Supplies n m'.frames := by
  induction pages generalizing m with
  | nil => exact ⟨m, rfl, hsup⟩
  | cons page pages ih =>
    rw [List.forall_mem_cons] at hmappable
    rw [List.nodup_cons] at hnodup
    rw [List.length_cons, Nat.mul_succ, ← Nat.add_assoc] at hsup
    obtain ⟨f, m₀, ha, hsup₀⟩ := Machine.exists_allocate_eq_some hsup
    obtain ⟨hs₀, -⟩ := hs.allocate ha
    obtain ⟨-, hmem, -⟩ := Machine.allocate_eq_some ha
    obtain ⟨m₁, hm₁, hsup₁⟩ := exists_mapPath_of_mappable (PageTableEntry.setFrame f kernelFlags)
      plain_kernelFlags (show page.path.length = 4 from rfl) (fun _ _ => rfl) hs₀
      (hmem ▸ hmappable.1) hsup₀
    have hone : mapHeapPage A mapTo cr3 m page = .ok m₁ := by
      rw [mapHeapPage, ha]
      show mapTo _ cr3 page f kernelFlags = _
      rw [hmap _ _ _ _ _ plain_kernelFlags, documentedMapTo, plain_and plain_kernelFlags, hm₁]
    obtain ⟨hmapped, hothers⟩ := mapHeapPage_spec hexact hmap hs hone
    have hrest : ∀ q ∈ pages, Mappable m₁.mem cr3 allEntries q.path := by
      intro q hq
      refine (hothers q.path rfl).2 ⟨hmappable.2 q hq, ?_⟩
      intro hc
      exact hnodup.1 (Page.path_injective hc ▸ hq)
    obtain ⟨m', hm', hsup'⟩ := ih hmapped.space hnodup.2 hrest hsup₁
    refine ⟨m', ?_, hsup'⟩
    rw [List.foldlM_cons, hone]
    exact hm'

/-- **`init_heap` succeeds** if nothing is mapped where the heap goes, given frames enough. -/
theorem exists_initHeap_eq_ok (hexact : S.Exact) (hmap : MapTo.Documented A mapTo) {n : ℕ}
    (hs : Space S cr3 allEntries own m)
    (hmappable : ∀ page, IsHeapPage page → Mappable m.mem cr3 allEntries page.path)
    (hsup : A.Supplies (n + 4 * 1024) m.frames) :
    ∃ m', initHeap A mapTo cr3 m = .ok m' ∧ A.Supplies n m'.frames := by
  have hlen : heapPages.length = 1024 := by
    rw [heapPages, List.length_map, List.length_range]
    rfl
  refine exists_mapHeapPages_eq_ok hexact hmap hs nodup_heapPages
    (fun page hpage => hmappable page (mem_heapPages.1 hpage)) ?_
  rw [hlen]
  exact hsup

end Spec

/-! ## After boot -/

/-- **What the kernel holds**: its tables, and the frames of the heap. -/
def KernelHeld (mem : PhysMem) (cr3 f : PhysFrame) : Prop :=
  IsTable mem cr3 allEntries f ∨
    ∃ page, IsHeapPage page ∧ translatePage mem cr3 page = some f

section Congr

variable {mem mem' : PhysMem} {cr3 f : PhysFrame}
  (h : ∀ x, IsTable mem cr3 allEntries x → mem' x = mem x)
include h

/-- What the kernel's tables lead to depends on these tables only. -/
theorem translatePage_congr (page : Page) :
    translatePage mem' cr3 page = translatePage mem cr3 page := by
  refine RadixHeap.walk_congr (d := 4) ?_ (show page.path.length ≤ 4 from le_rfl)
  intro ρ x hρ hx j
  have hx' : tableWalk mem cr3 allEntries ρ = some x := by
    rw [tableWalk, view_allEntries]
    refine RadixHeap.walk_mono ?_ hx
    intro ρ' j' y z _ _ hz
    exact PageTableEntry.next_of_follow hz
  rw [h x ⟨ρ, by omega, hx'⟩]

theorem isTable_congr : IsTable mem' cr3 allEntries f ↔ IsTable mem cr3 allEntries f := by
  refine exists_congr fun π => and_congr_right fun hπ => ?_
  rw [tableWalk, tableWalk, RadixHeap.walk_congr (d := 3) ?_ hπ]
  intro ρ x hρ hx j
  rw [view, view, h x ⟨ρ, by omega, hx⟩]

theorem kernelHeld_congr : KernelHeld mem' cr3 f ↔ KernelHeld mem cr3 f := by
  rw [KernelHeld, KernelHeld, isTable_congr h]
  simp only [translatePage_congr h]

end Congr

/-- **A machine that has booted** on the memory map: the kernel's tables are in good order, the
heap is there, and every usable frame that the allocator does not have is the kernel's. -/
structure Booted (map : MemoryMap) (cr3 : PhysFrame) (m : Machine BootInfoFrameAllocator) :
    Prop where
  tables : Space bootInfoSpec cr3 allEntries noEntries m
  heap : ∀ page, IsHeapPage page → HeapPage bootInfoSpec cr3 m page
  rest : ∀ f ∈ map.usableFrames, f ∈ m.frames.supply ∨ KernelHeld m.mem cr3 f

/-- The kernel has nothing that can be handed out. -/
theorem Booted.not_mem_supply {map : MemoryMap} {cr3 f : PhysFrame}
    {m : Machine BootInfoFrameAllocator} (h : Booted map cr3 m) (hf : KernelHeld m.mem cr3 f) :
    f ∉ m.frames.supply := by
  rcases hf with hf | ⟨page, hpage, hf⟩
  · exact h.tables.used f hf
  · obtain ⟨f', hf', hfree, -⟩ := h.heap page hpage
    rw [hf] at hf'
    obtain rfl := Option.some.inj hf'
    exact hfree

/-- **After `init_heap`** the kernel is up, if the bootloader's tables are in good order and not
in usable memory. -/
theorem booted_of_initHeap {mapTo : MapTo BootInfoFrameAllocator} {map : MemoryMap}
    {cr3 : PhysFrame} {m m' : Machine BootInfoFrameAllocator}
    (hmap : MapTo.Documented bootInfo mapTo) (hinit : m.frames = BootInfoFrameAllocator.init map)
    (hs : Space bootInfoSpec cr3 allEntries noEntries m)
    (h : initHeap bootInfo mapTo cr3 m = .ok m') : Booted map cr3 m' := by
  have hmapped := mapHeapPages_spec bootInfoSpec_exact hmap hs h
  have hheap : ∀ page, IsHeapPage page → Backed bootInfoSpec cr3 m' page :=
    fun page hpage => hmapped.backed page (mem_heapPages.2 hpage)
  refine ⟨hmapped.space, fun page hpage => (hheap page hpage).heapPage, ?_⟩
  intro f hf
  obtain ⟨added, hbelow, hadds⟩ := hmapped.taken
  have hfree : f ∈ m.frames.supply := by
    rwa [hinit, BootInfoFrameAllocator.supply_init, ← MemoryMap.usableFrames_eq]
  by_cases hsup : f ∈ m'.frames.supply
  · exact Or.inl hsup
  · -- it has been taken, on the way to a page of the heap
    have htaken : f ∈ added.map Prod.snd := by
      by_contra hc
      have hmem : f ∈ bootInfoSpec.free m'.frames := by
        rw [hadds.free]
        exact ⟨hfree, hc⟩
      exact hsup hmem
    obtain ⟨⟨π, f'⟩, hp, rfl⟩ := List.mem_map.1 htaken
    obtain ⟨page, hpage, hpre⟩ := hbelow _ hp
    have hle : π.length ≤ 4 := hpre.length_le
    have hwalk := (hadds.walk π f' hle).2 (Or.inr hp)
    by_cases hshort : π.length ≤ 3
    · exact Or.inr (Or.inl ⟨π, hshort, hwalk⟩)
    · obtain rfl : π = page.path := hpre.eq_of_length (show π.length = 4 by omega)
      obtain ⟨g, hmaps, -, -⟩ := hmapped.backed page hpage
      have hg := hmaps.walk
      rw [hwalk] at hg
      obtain rfl := Option.some.inj hg
      exact Or.inr (Or.inr ⟨page, mem_heapPages.1 hpage, hmaps.follow⟩)
