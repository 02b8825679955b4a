/-
# Starting a loaded program

`spawn_isolated_inner` (scheduler/mod.rs) with what the scheduler's own model leaves
out: the pages of the new thread's kernel stack, which lie in the kernel's heap, are
mapped into the thread's address space too, to the same frames and without
`USER_ACCESSIBLE`.

`effective_permissions` puts loading and starting together: what the program may read
and write from ring 3 is what its file asks for, the stack and the arguments, and
nothing of its kernel stack.
-/
import Velora.ElfIsolation
import Velora.ElfImage
import Velora.Permissions
import Velora.SchedulerSafety

/-! ## The code -/

/-- What starting a thread changes: memory with its allocator, and the scheduler's state. -/
structure System (σ : Type) where
  machine : Machine σ
  sched : SchedulerState

section Code

variable {σ : Type} (mapTo : MapTo σ)

/-- `PRESENT | WRITABLE` -/
def kernelFlags : Word := PageTableFlags.present ||| PageTableFlags.writable

/-- The body of the loop of `spawn_isolated_inner` over the pages of the stack; `kernelL4` is the
table of `kernel_mapper`, `l4` that of `isolated_mapper`. -/
def shareStackPage (kernelL4 l4 : PhysFrame) (firstPage : Page) (m : Machine σ) (i : ℕ) :
    Except Panic (Machine σ) := do
  let page ← firstPage.add i
  let frame ← (translatePage m.mem kernelL4 page).expect .stackPageVanished
  expectOk .shareStackFailed (mapTo m l4 page frame kernelFlags)

/-- The loop. -/
def shareStack (kernelL4 l4 : PhysFrame) (stackBase : ℕ) (m : Machine σ) :
    Except Panic (Machine σ) := do
  let stackStart ← VirtAddr.new stackBase
  (List.range (threadStackSize / 4096)).foldlM
    (shareStackPage mapTo kernelL4 l4 (Page.containing stackStart)) m

/-- `spawn_isolated_inner`, with `stackBase` what the heap returned: null if it is exhausted.
The table of `isolated_mapper` is the one at `page_table`, as for every caller. -/
def System.spawnIsolatedInner (kernelL4 : PhysFrame) (stackBase : ℕ) (entry : Entry)
    (userEntry : Option UserEntry) (pageTable : PhysFrame) (s : System σ) :
    Except Panic (Pid × System σ) := do
  if stackBase = 0 then .error .stackAllocationFailed
  let machine ← shareStack mapTo kernelL4 pageTable stackBase s.machine
  let (pid, sched) ← s.sched.spawnIsolatedInner stackBase entry userEntry pageTable.val
  return (pid, { machine, sched })

/-- `spawn_user`, on the result of `elf::load`. -/
def System.spawnUser (kernelL4 : PhysFrame) (stackBase : ℕ) (elf : LoadedElf) (s : System σ) :
    Except Panic (Pid × System σ) :=
  s.spawnIsolatedInner mapTo kernelL4 stackBase .ring3Trampoline
    (some { entry := elf.entry, stackTop := elf.stackTop, argsPtr := elf.argsPtr,
            argsLen := elf.argsLen }) elf.pageTable

end Code

/-- A page of the kernel stack at `stackBase`. -/
def IsStackPage (stackBase : ℕ) (page : Page) : Prop :=
  ∃ v, VirtAddr.new stackBase = .ok v ∧
    ∃ i < threadStackSize / 4096, (Page.containing v).add i = .ok page

section Share

variable {σ : Type} {A : FrameAllocator σ} {mapTo : MapTo σ} {S : A.Spec} {cr3 l4 : PhysFrame}
  {own : Fin 512 → Bool} {off : Fin 512} {m m' : Machine σ} {mem : PhysMem} {page : Page}
  {stackBase : ℕ}

theorem plain_kernelFlags : PageTableEntry.Plain kernelFlags := by decide

/-! ## The frames of the stack -/

/-- The page belongs to the kernel's heap: it is mapped in the kernel's tables, to a frame that is
neither free nor one of these tables. -/
def HeapPage (S : A.Spec) (cr3 : PhysFrame) (m : Machine σ) (page : Page) : Prop :=
  ∃ f, translatePage m.mem cr3 page = some f ∧ f ∉ S.free m.frames ∧
    ¬ IsTable m.mem cr3 allEntries f

/-- The page was mapped in the kernel's tables when memory was `mem`, and its frame can still be
shared into the space at `l4`. -/
def Shareable (S : A.Spec) (mem : PhysMem) (cr3 l4 : PhysFrame) (m : Machine σ) (page : Page) :
    Prop :=
  ∃ f, translatePage mem cr3 page = some f ∧ WayUsed S mem cr3 page.path m ∧
    f ∉ S.free m.frames ∧ ¬ IsTable m.mem l4 allEntries f

/-- The kernel's tables lead where they led. -/
theorem translatePage_of_wayUsed {f : PhysFrame} (hway : WayUsed S mem cr3 page.path m)
    (h : translatePage mem cr3 page = some f) : translatePage m.mem cr3 page = some f := by
  refine RadixHeap.walk_mono ?_ h
  intro ρ j x y hpre hx hy
  refine ((hway ρ j x hpre ?_).2).follow hy
  refine RadixHeap.walk_mono ?_ hx
  intro ρ' j' x' y' _ _ hy'
  exact PageTableEntry.next_of_follow hy'

theorem Extends.grown (hs : Space S l4 allEntries own m') (he : Extends S l4 allEntries m m') :
    Grown S m m' :=
  ⟨hs.valid, he.free, he.grows⟩

/-- Later mappings leave a page shareable. -/
theorem Shareable.extends (hs' : Space S l4 allEntries own m') (he : Extends S l4 allEntries m m')
    (h : Shareable S mem cr3 l4 m page) : Shareable S mem cr3 l4 m' page := by
  obtain ⟨f, hf, hway, hfree, htab⟩ := h
  exact ⟨f, hf, hway.grown (he.grown hs'), fun hc => hfree (he.free hc),
    he.not_isTable htab hfree⟩

/-- The pages of the heap can be shared into a new space. -/
theorem HeapPage.shareable (hk : Space S cr3 allEntries noEntries m)
    (hnew : newAddressSpace A m cr3 off = .ok (l4, m')) (h : HeapPage S cr3 m page) :
    Shareable S m.mem cr3 l4 m' page := by
  obtain ⟨f, hf, hfree, htab⟩ := h
  obtain ⟨hl4, hvalid, hremoved, -⟩ := newAddressSpace_fresh hk.valid hk.used hnew
  obtain ⟨-, -, -, hkeep, -⟩ := newAddressSpace_eq_ok hnew
  refine ⟨f, hf, ?_, fun hc => hfree (hremoved hc).1, ?_⟩
  · intro ρ j x hpre hx
    have hlt := RadixHeap.length_lt_of_isPrefix_concat hpre
    have hlen : page.path.length = 4 := rfl
    have hx' : tableWalk m.mem cr3 allEntries ρ = some x := by
      rw [tableWalk, view_allEntries]
      exact hx
    have hused := hk.used x ⟨ρ, by omega, hx'⟩
    refine ⟨fun hc => hused (hremoved hc).1, ?_⟩
    rw [hkeep x fun hc => hused (hc ▸ hl4)]
    exact PageTableEntry.Grows.refl _
  · rintro ⟨π, hπ, hx⟩
    cases π with
    | nil =>
      obtain rfl := Option.some.inj hx
      exact hfree hl4
    | cons i π =>
      rw [List.length_cons] at hπ
      refine htab ⟨i :: π, by rw [List.length_cons]; omega, ?_⟩
      exact ((newAddressSpace_walk hk.valid hk.used hnew (by omega)).1 hx).2

/-! ## Sharing the stack -/

/-- Inversion: the page is mapped to the frame it has in the kernel's tables. -/
theorem shareStackPage_eq_ok (hmap : MapTo.Documented A mapTo) {firstPage : Page} {i : ℕ}
    (h : shareStackPage mapTo cr3 l4 firstPage m i = .ok m') :
    ∃ page f, firstPage.add i = .ok page ∧ translatePage m.mem cr3 page = some f ∧
      mapPath A kernelFlags (PageTableEntry.setFrame f kernelFlags) m l4 page.path = .ok m' := by
  rw [shareStackPage] at h
  obtain ⟨page, hpage, h⟩ := bind_eq_ok h
  obtain ⟨f, hf, h⟩ := bind_eq_ok h
  refine ⟨page, f, hpage, Option.expect_eq_ok hf, ?_⟩
  have hto := expectOk_eq_ok h
  rw [hmap _ _ _ _ _ plain_kernelFlags, documentedMapTo, plain_and plain_kernelFlags] at hto
  exact hto

/-- **One page of the stack.** -/
theorem shareStackPage_spec (hmap : MapTo.Documented A mapTo) {firstPage : Page} {i : ℕ}
    (hs : Space S l4 allEntries own m)
    (hshare : ∀ page, firstPage.add i = .ok page → Shareable S mem cr3 l4 m page)
    (h : shareStackPage mapTo cr3 l4 firstPage m i = .ok m') :
    ∃ page f, firstPage.add i = .ok page ∧ ¬ IsTable m.mem l4 allEntries f ∧
      f ∉ S.free m.frames ∧
      mapPath A kernelFlags (PageTableEntry.setFrame f kernelFlags) m l4 page.path = .ok m' ∧
      PageMapped S l4 allEntries own page.path f m m' := by
  obtain ⟨page, f, hpage, hf, hto⟩ := shareStackPage_eq_ok hmap h
  obtain ⟨f', hf', hway, hfree, htab⟩ := hshare page hpage
  rw [translatePage_of_wayUsed hway hf'] at hf
  obtain rfl := Option.some.inj hf
  exact ⟨page, f', hpage, htab, hfree, hto,
    mapPath_spec hs plain_kernelFlags rfl (fun _ _ => rfl) htab hfree hto⟩

/-- The pages of the stack that a list of numbers names, as mappings. -/
def stackMappings (firstPage : Page) (l : List ℕ) : Set Mapping :=
  {p | ∃ i ∈ l, ∃ page, firstPage.add i = .ok page ∧ p = (page.path, kernelFlags)}

theorem stackMappings_cons {firstPage page : Page} {i : ℕ} {l : List ℕ}
    (h : firstPage.add i = .ok page) : stackMappings firstPage (i :: l) =
      insert (page.path, kernelFlags) (stackMappings firstPage l) := by
  ext p
  simp only [stackMappings, Set.mem_ofPred_eq, Set.mem_insert_iff, List.mem_cons,
    exists_eq_or_imp, h, Except.ok.injEq, exists_eq_left']

/-- **Sharing the stack** lets nothing more through than the mappings of its pages. -/
theorem shareStackLoop_permits (hmap : MapTo.Documented A mapTo) {firstPage : Page} {l : List ℕ}
    {P : Set Mapping} (h : Permits S l4 allEntries own m P)
    (hshare : ∀ i ∈ l, ∀ page, firstPage.add i = .ok page → Shareable S mem cr3 l4 m page)
    (hrun : l.foldlM (shareStackPage mapTo cr3 l4 firstPage) m = .ok m') :
    Permits S l4 allEntries own m' (stackMappings firstPage l ∪ P) := by
  induction l generalizing m P with
  | nil =>
    cases hrun
    simpa [stackMappings] using h
  | cons i l ih =>
    rw [List.forall_mem_cons] at hshare
    rw [List.foldlM_cons] at hrun
    obtain ⟨m₁, h₁, hrun⟩ := bind_eq_ok hrun
    obtain ⟨page, f, hpage, htab, hfree, hto, hmapped⟩ :=
      shareStackPage_spec hmap h.space hshare.1 h₁
    have h₁' := h.mapPath plain_kernelFlags rfl (fun _ _ => rfl) htab hfree hto
    have hend := ih h₁' (fun j hj page' hpage' =>
      (hshare.2 j hj page' hpage').extends hmapped.space hmapped.ext) hrun
    rw [stackMappings_cons hpage, Set.insert_union, ← Set.union_insert]
    exact hend

/-- **Sharing the stack**, page by page: the tables stay in order, and every page could be
mapped. -/
theorem shareStackLoop_spec (hmap : MapTo.Documented A mapTo) {firstPage : Page} {l : List ℕ}
    (hs : Space S l4 allEntries own m)
    (hshare : ∀ i ∈ l, ∀ page, firstPage.add i = .ok page → Shareable S mem cr3 l4 m page)
    (hrun : l.foldlM (shareStackPage mapTo cr3 l4 firstPage) m = .ok m') :
    Space S l4 allEntries own m' ∧ Extends S l4 allEntries m m' ∧
      ∀ i ∈ l, ∀ page, firstPage.add i = .ok page → Mappable m.mem l4 allEntries page.path := by
  induction l generalizing m with
  | nil =>
    cases hrun
    exact ⟨hs, Extends.refl, by simp⟩
  | cons i l ih =>
    rw [List.forall_mem_cons] at hshare
    rw [List.foldlM_cons] at hrun
    obtain ⟨m₁, h₁, hrun⟩ := bind_eq_ok hrun
    obtain ⟨page, f, hpage, -, -, -, hmapped⟩ := shareStackPage_spec hmap hs hshare.1 h₁
    obtain ⟨hs', he', hrest⟩ := ih hmapped.space (fun j hj page' hpage' =>
      (hshare.2 j hj page' hpage').extends hmapped.space hmapped.ext) hrun
    refine ⟨hs', hmapped.ext.trans he', ?_⟩
    rw [List.forall_mem_cons]
    constructor
    · intro page' hpage'
      rw [hpage] at hpage'
      obtain rfl := Except.ok.inj hpage'
      exact hmapped.mappable
    · intro j hj page' hpage'
      exact ((hmapped.others _ rfl).1 (hrest j hj page' hpage')).1

/-- **A page of the stack can be shared** if it can be mapped, given three frames for tables. -/
theorem exists_shareStackPage_eq_ok (hmap : MapTo.Documented A mapTo) {firstPage : Page} {i : ℕ}
    (hs : Space S l4 allEntries own m) (hpage : firstPage.add i = .ok page)
    (hshare : Shareable S mem cr3 l4 m page) (hmappable : Mappable m.mem l4 allEntries page.path)
    {n : ℕ} (hsup : A.Supplies (n + 3) m.frames) :
    ∃ m', shareStackPage mapTo cr3 l4 firstPage m i = .ok m' ∧ A.Supplies n m'.frames := by
  obtain ⟨f, hf, hway, -, -⟩ := hshare
  obtain ⟨m', hm', hsup'⟩ := exists_mapPath_of_mappable (PageTableEntry.setFrame f kernelFlags)
    plain_kernelFlags (show page.path.length = 4 from rfl) (fun _ _ => rfl) hs hmappable hsup
  refine ⟨m', ?_, hsup'⟩
  rw [shareStackPage, hpage]
  show (Option.expect _ (translatePage m.mem cr3 page) >>= _) = _
  rw [translatePage_of_wayUsed hway hf]
  show expectOk _ (mapTo m l4 page f kernelFlags) = _
  rw [hmap _ _ _ _ _ plain_kernelFlags, documentedMapTo, plain_and plain_kernelFlags, hm']
  rfl

theorem exists_shareStackLoop_eq_ok (hmap : MapTo.Documented A mapTo) {firstPage : Page}
    {l : List ℕ} {n : ℕ} (hs : Space S l4 allEntries own m) (hnodup : l.Nodup)
    (hl : ∀ i ∈ l, i < 0x100000000) (hpages : ∀ i ∈ l, ∃ page, firstPage.add i = .ok page ∧
      Shareable S mem cr3 l4 m page ∧ Mappable m.mem l4 allEntries page.path)
    (hsup : A.Supplies (n + 3 * l.length) m.frames) :
    ∃ m', l.foldlM (shareStackPage mapTo cr3 l4 firstPage) m = .ok m' ∧
      A.Supplies n m'.frames := by
  induction l generalizing m with
  | nil => exact ⟨m, rfl, hsup⟩
  | cons i l ih =>
    rw [List.forall_mem_cons] at hl hpages
    rw [List.nodup_cons] at hnodup
    rw [List.length_cons, Nat.mul_succ, ← Nat.add_assoc] at hsup
    obtain ⟨⟨page, hpage, hshare, hmappable⟩, hrest⟩ := hpages
    obtain ⟨m₁, h₁, hsup₁⟩ := exists_shareStackPage_eq_ok hmap hs hpage hshare hmappable hsup
    obtain ⟨page', f, hpage', -, -, -, hmapped⟩ := shareStackPage_spec hmap hs
      (fun page' hpage' => Except.ok.inj (hpage.symm.trans hpage') ▸ hshare) h₁
    obtain rfl := Except.ok.inj (hpage.symm.trans hpage')
    have hrest₁ : ∀ j ∈ l, ∃ page', firstPage.add j = .ok page' ∧
        Shareable S mem cr3 l4 m₁ page' ∧ Mappable m₁.mem l4 allEntries page'.path := by
      intro j hj
      obtain ⟨other, hother, hshare', hmappable'⟩ := hrest j hj
      refine ⟨other, hother, hshare'.extends hmapped.space hmapped.ext,
        (hmapped.others _ rfl).2 ⟨hmappable', ?_⟩⟩
      intro hpath
      rw [Page.path_injective hpath] at hother
      exact hnodup.1 (Page.add_inj hl.1 (hl.2 j hj) hpage hother ▸ hj)
    obtain ⟨m', hm', hsup'⟩ := ih hmapped.space hnodup.2 hl.2 hrest₁ hsup₁
    refine ⟨m', ?_, hsup'⟩
    rw [List.foldlM_cons, h₁]
    exact hm'

theorem shareStack_eq_ok (h : shareStack mapTo cr3 l4 stackBase m = .ok m') :
    ∃ v, VirtAddr.new stackBase = .ok v ∧ (List.range (threadStackSize / 4096)).foldlM
      (shareStackPage mapTo cr3 l4 (Page.containing v)) m = .ok m' :=
  bind_eq_ok h

/-- A block of the heap for a kernel stack, below an entry of the level-4 table that is not
shared. -/
structure StackBlock (S : A.Spec) (cr3 : PhysFrame) (off : Fin 512) (m : Machine σ)
    (stackBase : ℕ) : Prop where
  aligned : stackBase % 4096 = 0
  lower : stackBase + threadStackSize ≤ 0x800000000000
  heap : ∀ page, IsStackPage stackBase page → HeapPage S cr3 m page
  apart : ∀ page, IsStackPage stackBase page → owned off page.start.p4Index = true

/-- The pages of a stack in the lower half. -/
theorem exists_stackPages (ha : stackBase % 4096 = 0)
    (hlow : stackBase + threadStackSize ≤ 0x800000000000) :
    ∃ v, VirtAddr.new stackBase = .ok v ∧ ∀ i < threadStackSize / 4096,
      ∃ page, (Page.containing v).add i = .ok page ∧ page.start.val = stackBase + i * 4096 := by
  have hsize : threadStackSize = 65536 := rfl
  have hlt : stackBase < 0x800000000000 := by omega
  refine ⟨⟨stackBase, Or.inl hlt⟩, ?_, ?_⟩
  · rw [VirtAddr.new, VirtAddr.tryNew_of_lower hlt]
    rfl
  · intro i hi
    have hlt' : stackBase + i * 4096 < 0x800000000000 := by omega
    refine ⟨Page.ofLower (stackBase + i * 4096) hlt' (by omega), ?_, rfl⟩
    rw [Page.containing_of_aligned ha]
    exact Page.add_of_lower hlt'

/-- Inversion of a start that returned. -/
theorem System.spawnIsolatedInner_eq_ok {entry : Entry} {userEntry : Option UserEntry}
    {s s' : System σ} {pid : Pid}
    (h : s.spawnIsolatedInner mapTo cr3 stackBase entry userEntry l4 = .ok (pid, s')) :
    stackBase ≠ 0 ∧ shareStack mapTo cr3 l4 stackBase s.machine = .ok s'.machine ∧
      s.sched.spawnIsolatedInner stackBase entry userEntry l4.val = .ok (pid, s'.sched) := by
  rw [System.spawnIsolatedInner] at h
  split_ifs at h with h0
  · cases h
  · obtain ⟨machine, hshare, h⟩ := bind_eq_ok h
    obtain ⟨⟨pid', sched⟩, hsched, h⟩ := bind_eq_ok h
    cases h
    exact ⟨h0, hshare, hsched⟩

/-- **When a thread is started**: the heap had a block for its stack, the stack could be shared
and the thread installed. -/
theorem System.spawnIsolatedInner_returns_iff {entry : Entry} {userEntry : Option UserEntry}
    {s : System σ} :
    (∃ r, s.spawnIsolatedInner mapTo cr3 stackBase entry userEntry l4 = .ok r) ↔
      stackBase ≠ 0 ∧ (∃ m', shareStack mapTo cr3 l4 stackBase s.machine = .ok m') ∧
      ∃ r, s.sched.install (SchedulerState.newThread stackBase entry (some l4.val) userEntry) =
        .ok r := by
  unfold System.spawnIsolatedInner SchedulerState.spawnIsolatedInner
  by_cases h0 : stackBase = 0
  · simp [h0, bind, Except.bind]
  · simp only [h0, if_false, ne_eq, not_false_eq_true, true_and]
    cases shareStack mapTo cr3 l4 stackBase s.machine with
    | error p => simp [bind, Except.bind]
    | ok m₁ =>
      cases s.sched.install (SchedulerState.newThread stackBase entry (some l4.val) userEntry) with
      | error p => simp [bind, Except.bind]
      | ok r => simp [bind, Except.bind, pure, Except.pure]

/-! ## The mappings of a plan -/

/-- A page that can be mapped is not. -/
theorem Mappable.not_mapsTo {r f : PhysFrame} {vis : Fin 512 → Bool} {path : List (Fin 512)}
    (h : Mappable mem r vis path) : ¬ MapsTo mem r vis path f := by
  intro hm
  refine RadixHeap.not_holed_of_walk ?_ hm.walk h
  rintro e rfl
  exact PageTableEntry.next_zero

theorem user_segmentFlags (writable : Bool) :
    PageTableEntry.user (segmentFlags writable) = true := by
  cases writable <;> decide

theorem writable_segmentFlags (writable : Bool) :
    PageTableEntry.writable (segmentFlags writable) = writable := by
  cases writable <;> decide

/-- The page of a request. -/
theorem Request.Ok.path_eq_iff {q : Request} (hq : q.Ok) :
    page.path = pathOf q.addr ↔ page.start.val = q.addr := by
  constructor
  · intro h
    rw [← path_pageAt hq.lower hq.aligned] at h
    rw [Page.path_injective h, pageAt_of_lower hq.lower hq.aligned]
    rfl
  · intro h
    rw [← pathOf_start, h]

/-- **What a plan asks for at a page**: the flags of the segment the page belongs to. -/
theorem exists_mapping_iff {segs : List Segment}
    (hoks : ∀ q ∈ segs.flatMap Segment.requests, q.Ok) {needWrite : Bool} :
    (∃ flags, (page.path, flags) ∈
        {p : Mapping | ∃ q ∈ segs.flatMap Segment.requests, p = q.mapping} ∧
      PageTableEntry.user flags = true ∧
      (needWrite = true → PageTableEntry.writable flags = true)) ↔
    ∃ s ∈ segs, (needWrite = true → s.writable = true) ∧
      page.start.val ∈ s.requests.map Request.addr := by
  constructor
  · rintro ⟨flags, ⟨q, hq, hp⟩, -, hw⟩
    obtain ⟨hpath, rfl⟩ := Prod.mk.inj hp
    have haddr := (hoks q hq).path_eq_iff.1 hpath
    obtain ⟨s, hs, hqs⟩ := List.mem_flatMap.1 hq
    obtain ⟨i, -, rfl⟩ := Segment.mem_requests.1 hqs
    refine ⟨s, hs, ?_, haddr ▸ List.mem_map_of_mem hqs⟩
    intro hneed
    have hwrite := hw hneed
    rwa [show (s.request i).flags = segmentFlags s.writable from rfl,
      writable_segmentFlags] at hwrite
  · rintro ⟨s, hs, hw, haddr⟩
    obtain ⟨q, hq, haddr⟩ := List.mem_map.1 haddr
    have hmem := List.mem_flatMap.2 ⟨s, hs, hq⟩
    obtain ⟨i, -, rfl⟩ := Segment.mem_requests.1 hq
    refine ⟨segmentFlags s.writable, ⟨_, hmem, ?_⟩, user_segmentFlags _, ?_⟩
    · exact Prod.ext ((hoks _ hmem).path_eq_iff.2 haddr.symm) rfl
    · rwa [writable_segmentFlags]

/-- The segments of the headers, by their pages and whether they are writable. -/
theorem exists_segment_iff {bytes : List Byte} {phs : List ProgramHeader} {segs : List Segment}
    (h : List.Forall₂ (fun ph s => segmentOf bytes ph = some s) phs segs) {needWrite : Bool}
    {a : ℕ} :
    (∃ s ∈ segs, (needWrite = true → s.writable = true) ∧ a ∈ s.requests.map Request.addr) ↔
      ∃ ph ∈ phs, (needWrite = true → ph.flags &&& 2 ≠ 0) ∧ a ∈ ph.pages := by
  induction h with
  | nil => simp
  | cons hseg _ ih =>
    obtain ⟨-, -, hwritable, -, -⟩ := segmentOf_eq_some hseg
    simp only [List.mem_cons, exists_eq_or_imp, ih, map_addr_requests hseg, hwritable,
      decide_eq_true_eq]

/-! ## When the stack can be shared -/

section Returns

variable {bytes args : List Byte} {elf : LoadedElf}

/-- After loading, the pages of the stack can still be shared. -/
theorem shareable_of_load (hmap : MapTo.Documented A mapTo)
    (hk : Space S cr3 allEntries noEntries m)
    (hload : load A mapTo cr3 off bytes args m = .ok (m', some elf)) (h : HeapPage S cr3 m page) :
    Shareable S m.mem cr3 elf.pageTable m' page := by
  obtain ⟨m₁, hnew, hlow, hrun, -⟩ := load_eq_some hload
  obtain ⟨hs', he', -⟩ := mapRequests_spec hmap (newAddressSpace_all hk hnew)
    (plan_request_ok hlow) (fun _ _ => rfl) hrun
  exact (h.shareable hk hnew).extends hs' he'

/-- **When the stack can be shared**: if and only if the program has no page in its range. -/
theorem shareStack_returns_iff (hmap : MapTo.Documented A mapTo)
    (hk : Space S cr3 allEntries noEntries m) (hblock : StackBlock S cr3 off m stackBase)
    (hload : load A mapTo cr3 off bytes args m = .ok (m', some elf))
    (hsup : A.Supplies 48 m'.frames) :
    (∃ m'', shareStack mapTo cr3 elf.pageTable stackBase m' = .ok m'') ↔
      ∀ q ∈ (plan bytes args).pages,
        ¬ (stackBase ≤ q.addr ∧ q.addr < stackBase + threadStackSize) := by
  obtain ⟨m₁, hnew, hlow, hrun, -⟩ := load_eq_some hload
  have hoks := plan_request_ok hlow
  have hs₁ := newAddressSpace_all hk hnew
  obtain ⟨hs', -⟩ := mapRequests_spec hmap hs₁ hoks (fun _ _ => rfl) hrun
  have hsize : threadStackSize = 65536 := rfl
  obtain ⟨v, hv, hpages⟩ := exists_stackPages hblock.aligned hblock.lower
  have hshare : ∀ i ∈ List.range (threadStackSize / 4096), ∀ page,
      (Page.containing v).add i = .ok page → Shareable S m.mem cr3 elf.pageTable m' page := by
    intro i hi page hpage
    exact shareable_of_load hmap hk hload
      (hblock.heap page ⟨v, hv, i, List.mem_range.1 hi, hpage⟩)
  -- a page of the stack can be mapped unless the program has it
  have hmappable : ∀ page, IsStackPage stackBase page →
      (Mappable m'.mem elf.pageTable allEntries page.path ↔
        ∀ q ∈ (plan bytes args).pages, page.start.val ≠ q.addr) := by
    intro page hpage
    have hfree : Mappable m₁.mem elf.pageTable allEntries page.path :=
      (newAddressSpace_mappable hk.valid hk.used hnew rfl).2 (Or.inl (hblock.apart page hpage))
    rw [mapRequests_mappable_iff hmap hs₁ hoks (fun _ _ => rfl) hrun rfl, and_iff_right hfree]
    exact forall₂_congr fun q hq => not_congr (hoks q hq).path_eq_iff
  constructor
  · rintro ⟨m'', hrun'⟩ q hq ⟨hle, hlt⟩
    obtain ⟨v', hv', hloop⟩ := shareStack_eq_ok hrun'
    obtain rfl := Except.ok.inj (hv.symm.trans hv')
    have haligned := (hoks q hq).aligned
    have haligned' := hblock.aligned
    have hi : (q.addr - stackBase) / 4096 < threadStackSize / 4096 := by omega
    obtain ⟨page, hpage, hval⟩ := hpages _ hi
    obtain ⟨-, -, hloopMap⟩ := shareStackLoop_spec hmap hs' hshare hloop
    refine (hmappable page ⟨v, hv, _, hi, hpage⟩).1 (hloopMap _ (List.mem_range.2 hi) page hpage)
      q hq ?_
    omega
  · intro hclear
    have hall : ∀ i ∈ List.range (threadStackSize / 4096), ∃ page,
        (Page.containing v).add i = .ok page ∧ Shareable S m.mem cr3 elf.pageTable m' page ∧
          Mappable m'.mem elf.pageTable allEntries page.path := by
      intro i hi
      have hi' := List.mem_range.1 hi
      obtain ⟨page, hpage, hval⟩ := hpages i hi'
      refine ⟨page, hpage, hshare i hi page hpage,
        (hmappable page ⟨v, hv, i, hi', hpage⟩).2 fun q hq hc => hclear q hq ?_⟩
      omega
    have hlt : ∀ i ∈ List.range (threadStackSize / 4096), i < 0x100000000 := by
      intro i hi
      have := List.mem_range.1 hi
      omega
    obtain ⟨m'', hm'', -⟩ := exists_shareStackLoop_eq_ok (n := 0) hmap hs' List.nodup_range hlt hall
      (by rw [List.length_range]; exact hsup)
    exact ⟨m'', by rw [shareStack, hv]; exact hm''⟩

end Returns

/-! ## What a started program may do -/

/-- **No page of the kernel is open to ring 3**: no entry of a last-level table below one of the
two shared entries is user-accessible.  Entries on the way count whether they are present or
not, since `map_to` makes them so. -/
def NoUserLeaves (mem : PhysMem) (cr3 : PhysFrame) (off : Fin 512) : Prop :=
  ∀ i π j t, owned off i = false → π.length = 2 →
    tableWalk mem cr3 allEntries (i :: π) = some t → PageTableEntry.user (mem t j) = false

/-- A new space lets nothing through. -/
theorem newAddressSpace_permits (hk : Space S cr3 allEntries noEntries m)
    (hleaves : NoUserLeaves m.mem cr3 off)
    (hnew : newAddressSpace A m cr3 off = .ok (l4, m')) :
    Permits S l4 allEntries (owned off) m' ∅ := by
  refine ⟨newAddressSpace_all hk hnew, ?_, by simp⟩
  intro ρ j t hρ ht hu
  obtain ⟨i, π, rfl⟩ : ∃ i π, ρ = i :: π := by
    cases ρ with
    | nil => cases hρ
    | cons i π => exact ⟨i, π, rfl⟩
  rw [List.length_cons] at hρ
  obtain ⟨hi, ht'⟩ := (newAddressSpace_walk hk.valid hk.used hnew (by omega)).1 ht
  have hused := hk.used t ⟨i :: π, by rw [List.length_cons]; omega, ht'⟩
  obtain ⟨hl4, -⟩ := newAddressSpace_fresh hk.valid hk.used hnew
  obtain ⟨-, -, -, hkeep, -⟩ := newAddressSpace_eq_ok hnew
  rw [hkeep t fun hc => hused (hc ▸ hl4)] at hu
  rw [hleaves i π j t hi (by omega) ht'] at hu
  cases hu

variable {bytes args : List Byte} {elf : LoadedElf}

/-- **The permissions a file asks for**, with `phs` its `PT_LOAD` headers. -/
structure EffectivePermissions (phs : List ProgramHeader) (elf : LoadedElf) (stackBase : ℕ)
    (mem : PhysMem) : Prop where
  read : ∀ page : Page, pageAccessible mem elf.pageTable page.start false = true ↔
    (∃ ph ∈ phs, page.start.val ∈ ph.pages) ∨ page = Page.containing elf.stackTop ∨
      page = Page.containing elf.argsPtr
  write : ∀ page : Page, pageAccessible mem elf.pageTable page.start true = true ↔
    (∃ ph ∈ phs, ph.flags &&& 2 ≠ 0 ∧ page.start.val ∈ ph.pages) ∨
      page = Page.containing elf.stackTop
  kernelStack : ∀ page, IsStackPage stackBase page →
    ∀ needWrite, pageAccessible mem elf.pageTable page.start needWrite = false

/-- The page of an address that `try_new` leaves alone. -/
theorem eq_containing_iff {a b : ℕ} {v : VirtAddr} (h : VirtAddr.tryNew a = some v)
    (ha : a < 0x800000000000) (hb : a - a % 4096 = b) (p : Page) :
    p = Page.containing v ↔ p.start.val = b := by
  rw [VirtAddr.tryNew_of_lower ha] at h
  obtain rfl := Option.some.inj h
  constructor
  · rintro rfl
    exact hb
  · intro hval
    apply Page.ext
    apply VirtAddr.ext
    rw [hval, Page.containing_val, hb]

/-- **The segments of a plan, page by page**: those of the headers, the stack and the
arguments. -/
theorem exists_plan_segment_iff {fh : FileHeader} {segs : List Segment} {g : ℕ}
    (hforall : List.Forall₂ (fun ph s => segmentOf bytes ph = some s) (loadHeaders bytes fh) segs)
    {needWrite : Bool} {a : ℕ} :
    (∃ s ∈ segs ++ [⟨[], g + pageSize, pageSize, true⟩,
        ⟨args, g + pageSize + pageSize, pageSize, false⟩],
      (needWrite = true → s.writable = true) ∧ a ∈ s.requests.map Request.addr) ↔
    (∃ ph ∈ loadHeaders bytes fh, (needWrite = true → ph.flags &&& 2 ≠ 0) ∧ a ∈ ph.pages) ∨
      a = g + pageSize ∨ (needWrite = false ∧ a = g + pageSize + pageSize) := by
  rw [← exists_segment_iff hforall]
  simp only [List.mem_append, List.mem_cons, List.not_mem_nil, or_false, or_and_right, exists_or,
    exists_eq_left, map_addr_onePage, implies_true, true_and, Bool.false_eq_true, imp_false,
    Bool.not_eq_true]

/-- **Effective permissions are the requested ones.**  After `elf::load` and `spawn_user`, ring 3
may read the pages of the segments, of the stack and of the arguments, write those of writable
segments and of the stack, and touch nothing else; in particular not the thread's kernel
stack. -/
theorem effective_permissions {s' : System σ} {sched : SchedulerState} {pid : Pid}
    (hmap : MapTo.Documented A mapTo) (hk : Space S cr3 allEntries noEntries m)
    (hleaves : NoUserLeaves m.mem cr3 off)
    (hheap : ∀ page, IsStackPage stackBase page → HeapPage S cr3 m page)
    (hload : load A mapTo cr3 off bytes args m = .ok (m', some elf))
    (hspawn : System.spawnUser mapTo cr3 stackBase elf ⟨m', sched⟩ = .ok (pid, s')) :
    ∃ fh, readFileHeader bytes = some fh ∧
      EffectivePermissions (loadHeaders bytes fh) elf stackBase s'.machine.mem := by
  obtain ⟨m₁, hnew, hlow, hrun, hres⟩ := load_eq_some hload
  obtain ⟨fh, segs, g, hfh, hforall, hg, hsegs, htop, -, hptr, -⟩ := plan_eq hres
  obtain ⟨-, hshare, -⟩ := System.spawnIsolatedInner_eq_ok hspawn
  obtain ⟨v, hv, hloop⟩ := shareStack_eq_ok hshare
  refine ⟨fh, hfh, ?_⟩
  have hoks := plan_request_ok hlow
  -- after loading, the requests of the plan and nothing else
  have hnewp := newAddressSpace_permits hk hleaves hnew
  obtain ⟨hs', -, hloaded, -, -⟩ := mapRequests_spec hmap hnewp.space hoks (fun _ _ => rfl) hrun
  have hload' := mapRequests_permits hmap hnewp hoks (fun _ _ => rfl) hrun
  -- after starting, the pages of the stack too
  have hstack : ∀ i ∈ List.range (threadStackSize / 4096), ∀ page,
      (Page.containing v).add i = .ok page → Shareable S m.mem cr3 elf.pageTable m' page := by
    intro i hi page hpage
    exact shareable_of_load hmap hk hload (hheap page ⟨v, hv, i, List.mem_range.1 hi, hpage⟩)
  obtain ⟨-, -, hmappable⟩ := shareStackLoop_spec hmap hs' hstack hloop
  have hend := shareStackLoop_permits hmap hload' hstack hloop
  have huser : ∀ (page : Page) (needWrite : Bool),
      pageAccessible s'.machine.mem elf.pageTable page.start needWrite = true ↔
        ∃ s ∈ (plan bytes args).segments, (needWrite = true → s.writable = true) ∧
          page.start.val ∈ s.requests.map Request.addr := by
    intro page needWrite
    rw [pageAccessible_iff, ← exists_mapping_iff hoks,
      userWalk_iff rfl hend.leaves fun p hp => (hend.granted p hp).2]
    refine exists_congr fun flags => and_congr_left fun hflags => ?_
    rw [Set.union_empty]
    refine or_iff_right ?_
    rintro ⟨i, -, page', -, hp⟩
    rw [(Prod.mk.inj hp).2] at hflags
    exact absurd hflags.1 (by decide)
  -- the stack and the arguments are at the page boundaries above the segments
  have hsize : pageSize = 4096 := rfl
  have hg' : g % 4096 = 0 := by
    rw [← (alignUp_eq_some.1 hg).2]
    exact Nat.mul_mod_left _ _
  have hlower : g + pageSize + pageSize < 0x800000000000 := by
    have haddr := List.mem_singleton_self (g + pageSize + pageSize)
    rw [← map_addr_onePage args _ false] at haddr
    obtain ⟨q, hq, haddr⟩ := List.mem_map.1 haddr
    rw [← haddr]
    exact (hoks q (List.mem_flatMap.2 ⟨_, by simp [hsegs], hq⟩)).lower
  have htop' := eq_containing_iff (b := g + pageSize) htop (by omega) (by omega)
  have hptr' := eq_containing_iff (b := g + pageSize + pageSize) hptr (by omega) (by omega)
  refine ⟨?_, ?_, ?_⟩
  · intro page
    rw [huser, hsegs, exists_plan_segment_iff hforall, htop', hptr']
    simp
  · intro page
    rw [huser, hsegs, exists_plan_segment_iff hforall, htop']
    simp
  · rintro page ⟨v', hv', i, hi, hpage⟩ needWrite
    rw [hv] at hv'
    obtain rfl := Except.ok.inj hv'
    rw [← Bool.not_eq_true, huser]
    rintro ⟨s, hs, -, haddr⟩
    obtain ⟨q, hq, haddr⟩ := List.mem_map.1 haddr
    have hq' := List.mem_flatMap.2 ⟨s, hs, hq⟩
    obtain ⟨f, hmaps, -⟩ := hloaded q hq'
    rw [← (hoks q hq').path_eq_iff.2 haddr.symm] at hmaps
    exact (hmappable i (List.mem_range.2 hi) page hpage).not_mapsTo hmaps

end Share

/-! ## A machine with a heap and a running program -/

/-- The kernel's tables after `init_heap`, in frames 1 to 5: entry 0 of the level-4 table, and the
first 256 pages of the heap at 0x4444_4444_0000, in frames from 0x400 on. -/
def kernelEntries : List (PhysFrame × Fin 512 × Word) :=
  [(1, 0, PageTableEntry.setFrame 2 kernelFlags), (1, 136, PageTableEntry.setFrame 3 kernelFlags),
    (3, 273, PageTableEntry.setFrame 4 kernelFlags), (4, 34, PageTableEntry.setFrame 5 kernelFlags)] ++
  (List.range 256).map fun k => (5, Fin.ofNat 512 (64 + k),
    PageTableEntry.setFrame (Fin.ofNat 0x10000000000 (0x400 + k)) kernelFlags)

/-- The tables of a program, in frames 0x800 to 0x803, and its only page, in the next one. -/
def programEntries : List (PhysFrame × Fin 512 × Word) :=
  [(0x800, 1, PageTableEntry.setFrame 0x801 7), (0x801, 0, PageTableEntry.setFrame 0x802 7),
    (0x802, 0, PageTableEntry.setFrame 0x803 7), (0x803, 0, PageTableEntry.setFrame 0x804 7)]

/-- All words in use: the page of the program holds an `A`. -/
def heapEntries : List (PhysFrame × Fin 512 × Word) :=
  (0x804, 0, 0x41) :: (kernelEntries ++ programEntries)

/-- The machine with the two, and one region of free frames. -/
def heapMachine : Machine BootInfoFrameAllocator where
  mem := memoryOf heapEntries
  frames := BootInfoFrameAllocator.init bootMap
  log := []

/-- The number of steps from a level-4 table to a frame of this machine. -/
def heapDepth (f : PhysFrame) : ℕ :=
  if f.val = 1 ∨ f.val = 0x800 then 0 else if f.val = 2 ∨ f.val = 3 ∨ f.val = 0x801 then 1
  else if f.val = 4 ∨ f.val = 0x802 then 2 else if f.val = 5 ∨ f.val = 0x803 then 3
  else if f.val = 0 then 5 else 4

theorem mem_of_next_heapMachine {t c : PhysFrame} {i : Fin 512}
    (h : PageTableEntry.next (heapMachine.mem t i) = some c) :
    (t, i, heapMachine.mem t i) ∈ heapEntries :=
  mem_of_memoryOf_ne_zero (PageTableEntry.next_eq_some.1 h).1

theorem depth_of_walk_heapMachine {π : List (Fin 512)} {x : PhysFrame}
    (h : tableWalk heapMachine.mem 1 allEntries π = some x) : heapDepth x = π.length := by
  rw [tableWalk, view_allEntries] at h
  have hall : heapEntries.all (fun e =>
      (PageTableEntry.next e.2.2).all fun c => heapDepth c = heapDepth e.1 + 1) = true := by
    decide +kernel
  have hdepth := RadixHeap.depth_of_walk heapDepth (fun t i c hc => ?_) h
  · rw [hdepth]
    simp [heapDepth]
  · have hc' := List.all_eq_true.1 hall _ (mem_of_next_heapMachine hc)
    rw [hc, Option.all_some, decide_eq_true_iff] at hc'
    exact hc'

/-- The kernel's tables are in good order. -/
theorem space_heapMachine : Space bootInfoSpec 1 allEntries noEntries heapMachine where
  valid := BootInfoFrameAllocator.nodup_supply_init bootMap
  tree := by
    rw [view_allEntries]
    -- the frames that the entries name are in increasing order
    exact treeTo_memoryOf PageTableEntry.next_zero (by decide +kernel) (by decide +kernel)
  used := by
    rintro x ⟨π, hπ, hx⟩ hfree
    obtain ⟨hlo, hhi⟩ := mem_supply_bootMachine.1 hfree
    have hdepth := depth_of_walk_heapMachine hx
    rw [heapDepth, if_neg (by omega), if_neg (by omega), if_neg (by omega), if_neg (by omega),
      if_neg (by omega)] at hdepth
    omega
  proper := fun π _ j _ _ hown => absurd hown (not_noEntries π j)

/-- The page is mapped to a frame of the heap, below an entry that is not shared. -/
def inHeap (page : Page) : Bool :=
  owned 3 page.start.p4Index &&
    (translatePage heapMachine.mem 1 page).any fun f : PhysFrame => 0x400 ≤ f.val ∧ f.val < 0x500

/-- The last of sixteen stacks, in the pages of the heap from number 240 on. -/
theorem stackBlock_heapMachine : StackBlock bootInfoSpec 1 3 heapMachine 0x444444530000 := by
  have hpages : ∀ page, IsStackPage 0x444444530000 page →
      HeapPage bootInfoSpec 1 heapMachine page ∧ owned 3 page.start.p4Index = true := by
    rintro page ⟨v, hv, i, hi, hpage⟩
    have hall : (List.range 16).all (fun i => ((VirtAddr.new 0x444444530000).bind fun v =>
        (Page.containing v).add i).toOption.any inHeap) = true := by
      decide +kernel
    have hany := List.all_eq_true.1 hall i (List.mem_range.2 hi)
    have hbind : ((VirtAddr.new 0x444444530000).bind fun v => (Page.containing v).add i) =
        .ok page := by
      rw [hv]
      exact hpage
    rw [hbind] at hany
    obtain ⟨hown, hany⟩ := Bool.and_eq_true_iff.1 hany
    obtain ⟨f, hf, hrange⟩ := (Option.any_eq_true _ _).1 hany
    rw [decide_eq_true_iff] at hrange
    refine ⟨⟨f, hf, ?_, ?_⟩, hown⟩
    · intro hfree
      have hhi := (mem_supply_bootMachine.1 hfree).2
      omega
    · rintro ⟨π, hπ, hx⟩
      have hdepth := depth_of_walk_heapMachine hx
      rw [heapDepth, if_neg (by omega), if_neg (by omega), if_neg (by omega), if_neg (by omega),
        if_neg (by omega)] at hdepth
      omega
  exact ⟨by norm_num, by norm_num, fun page h => (hpages page h).1, fun page h => (hpages page h).2⟩

theorem noUserLeaves_heapMachine : NoUserLeaves heapMachine.mem 1 3 := by
  intro i π j t hi hπ ht
  -- nothing is mapped below the two shared entries
  have hempty : ∀ t i c, PageTableEntry.next (heapMachine.mem t i) = some c →
      t ≠ 2 ∧ (t = 1 → i ≠ 3) := by
    intro t i c hc
    have hall : heapEntries.all (fun e => e.1 ≠ 2 ∧ (e.1 = 1 → e.2.1 ≠ 3)) =
        true := by decide +kernel
    exact of_decide_eq_true (List.all_eq_true.1 hall _ (mem_of_next_heapMachine hc))
  obtain ⟨k, ρ, rfl⟩ : ∃ k ρ, π = k :: ρ := by
    cases π with
    | nil => cases hπ
    | cons k ρ => exact ⟨k, ρ, rfl⟩
  rw [tableWalk, view_allEntries, RadixHeap.walk_cons] at ht
  rcases owned_eq_false.1 hi with rfl | rfl
  · have hnext : PageTableEntry.next (heapMachine.mem 1 0) = some 2 := by decide +kernel
    rw [hnext, Option.bind_some, RadixHeap.walk_cons] at ht
    obtain ⟨c, hc, -⟩ := Option.bind_eq_some_iff.1 ht
    exact absurd rfl (hempty 2 k c hc).1
  · obtain ⟨c, hc, -⟩ := Option.bind_eq_some_iff.1 ht
    exact absurd rfl ((hempty 1 3 c hc).2 rfl)

/-- A file with a read-only segment and a writable one, right above slot 0. -/
def twoSegments : List Byte :=
  fileHeader 0x8000000000 56 2 ++ loadHeader 4 0 0x8000000000 0 1 ++
    loadHeader 6 0 0x8000001000 0 1

/-- It can be loaded, and leaves frames for the tables of the stack. -/
theorem exists_load_twoSegments :
    ∃ m' elf, load bootInfo (documentedMapTo bootInfo) 1 3 twoSegments [0x61] heapMachine =
        .ok (m', some elf) ∧ bootInfo.Supplies 48 m'.frames := by
  have hlow : ∀ s ∈ (plan twoSegments [0x61]).segments, s.Lower := by decide +kernel
  have hnodup : ((plan twoSegments [0x61]).pages.map Request.addr).Nodup := by decide +kernel
  have hslots : ∀ q ∈ (plan twoSegments [0x61]).pages, owned 3 q.slot = true := by decide +kernel
  have hlen : (plan twoSegments [0x61]).pages.length = 4 := by decide +kernel
  have hsup : bootInfo.Supplies (48 + 4 * 4 + 1) heapMachine.frames :=
    supplies_bootInfo (by decide +kernel)
  obtain ⟨m', elf, hload⟩ : ∃ m' elf, load bootInfo (documentedMapTo bootInfo) 1 3 twoSegments
      [0x61] heapMachine = .ok (m', some elf) :=
    exists_load_eq_some (n := 48) (fun _ _ _ _ _ _ => rfl) space_heapMachine (by decide +kernel)
      (by decide +kernel) ⟨hlow, hnodup⟩ (fun q hq => Or.inl (hslots q hq))
      (by rw [hlen]; exact hsup)
  exact ⟨m', elf, hload, supplies_of_load (n := 48) (fun _ _ _ _ _ _ => rfl) space_heapMachine
    hload (by rw [hlen]; exact hsup)⟩

/-- It can be started. -/
theorem exists_spawnUser_twoSegments {m' : Machine BootInfoFrameAllocator} {elf : LoadedElf}
    (hload : load bootInfo (documentedMapTo bootInfo) 1 3 twoSegments [0x61] heapMachine =
      .ok (m', some elf)) (hsup : bootInfo.Supplies 48 m'.frames) :
    ∃ pid s', System.spawnUser (documentedMapTo bootInfo) 1 0x444444530000 elf
      ⟨m', SchedulerState.init 1⟩ = .ok (pid, s') := by
  have hclear : ∀ q ∈ (plan twoSegments [0x61]).pages,
      ¬ (0x444444530000 ≤ q.addr ∧ q.addr < 0x444444530000 + threadStackSize) := by
    decide +kernel
  have hshare := (shareStack_returns_iff (fun _ _ _ _ _ _ => rfl) space_heapMachine
    stackBlock_heapMachine hload hsup).2 hclear
  have hslot : ∃ id, (SchedulerState.init 1).freeSlot = some id ∧
      ((SchedulerState.init 1).slotGenerations id).toNat + 1 < 0x10000000000000000 :=
    ⟨1, by decide, by decide⟩
  obtain ⟨⟨pid, s'⟩, hspawn⟩ : ∃ r, System.spawnUser (documentedMapTo bootInfo) 1 0x444444530000
      elf ⟨m', SchedulerState.init 1⟩ = .ok r :=
    System.spawnIsolatedInner_returns_iff.2 ⟨by norm_num, hshare,
      (SchedulerState.init_safe 1).install_returns_iff.2 hslot⟩
  exact ⟨pid, s', hspawn⟩

theorem effective_permissions_twoSegments :
    ∃ m' elf pid s', load bootInfo (documentedMapTo bootInfo) 1 3 twoSegments [0x61] heapMachine =
        .ok (m', some elf) ∧
      System.spawnUser (documentedMapTo bootInfo) 1 0x444444530000 elf
        ⟨m', SchedulerState.init 1⟩ = .ok (pid, s') ∧
      ∃ fh, readFileHeader twoSegments = some fh ∧
        EffectivePermissions (loadHeaders twoSegments fh) elf 0x444444530000 s'.machine.mem := by
  obtain ⟨m', elf, hload, hsup⟩ := exists_load_twoSegments
  obtain ⟨pid, s', hspawn⟩ := exists_spawnUser_twoSegments hload hsup
  exact ⟨m', elf, pid, s', hload, hspawn, effective_permissions (S := bootInfoSpec)
    (fun _ _ _ _ _ _ => rfl) space_heapMachine noUserLeaves_heapMachine
    stackBlock_heapMachine.heap hload hspawn⟩
