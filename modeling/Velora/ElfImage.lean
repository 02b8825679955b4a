/-
# The memory image of a loaded program

What a program finds in its address space after `elf::load` returned `Some`: the bytes
its file describes, zeros up to the end of the last page of each segment, a page left
out above the highest segment, a zeroed stack page and the argument page
(`load_image`).

The segments that `load` goes through are those of the `PT_LOAD` headers, in order
(`planSegments_eq`, `plan_eq`); every page of them is loaded (ElfPages), and what is
loaded is what the processor reads (`Request.Loaded.imageByte_eq`).
-/
import Velora.ElfPanics

/-! ## What the file describes -/

/-- The `PT_LOAD` headers among `n` program headers, from number `i` on. -/
def loadHeadersFrom (bytes : List Byte) (fh : FileHeader) (i n : ℕ) : List ProgramHeader :=
  (List.range' i n).filterMap fun i => (readProgramHeader bytes fh i).join

/-- The `PT_LOAD` headers of a file. -/
def loadHeaders (bytes : List Byte) (fh : FileHeader) : List ProgramHeader :=
  loadHeadersFrom bytes fh 0 fh.phnum

/-- The size of a segment in whole pages. -/
def ProgramHeader.pageCount (ph : ProgramHeader) : ℕ := (ph.memsz + 4095) / 4096

/-- The addresses of the pages of a segment. -/
def ProgramHeader.pages (ph : ProgramHeader) : List ℕ :=
  (List.range' 0 ph.pageCount).map fun k => ph.vaddr + k * 4096

/-- The end of the highest segment, 0 if there is none. -/
def highestEnd (phs : List ProgramHeader) : ℕ :=
  (phs.map fun ph => ph.vaddr + ph.memsz).foldl max 0

/-- The first page boundary at or above the end of the highest segment. -/
def guardPage (phs : List ProgramHeader) : ℕ := (highestEnd phs + 4095) / 4096 * 4096

/-- The byte at an address. -/
def imageByte (mem : PhysMem) (l4 : PhysFrame) (a : ℕ) : Option Byte :=
  (VirtAddr.tryNew a).bind (readByte mem l4)

/-- All pages of an image: those of the segments, then the stack and the arguments, above a page
that is left out. -/
def imagePages (phs : List ProgramHeader) : List ℕ :=
  phs.flatMap ProgramHeader.pages ++ [guardPage phs + 4096, guardPage phs + 8192]

/-- **The memory image that a file describes**: `phs` are its `PT_LOAD` headers, `e_entry` its
entry point and `args` the arguments. -/
structure Image (bytes args : List Byte) (phs : List ProgramHeader) (eEntry : ℕ) (mem : PhysMem)
    (elf : LoadedElf) : Prop where
  segment : ∀ ph ∈ phs, ∀ o < ph.pageCount * 4096,
    imageByte mem elf.pageTable (ph.vaddr + o) =
      if o < ph.filesz then bytes[ph.offset + o]? else some 0
  lower : ∀ a ∈ imagePages phs, a % 4096 = 0 ∧ a + 4096 ≤ 0x800000000000
  disjoint : (imagePages phs).Nodup
  guard : alignUp (highestEnd phs) 4096 = some (guardPage phs) ∧
    guardPage phs ∉ phs.flatMap ProgramHeader.pages
  stack : ∀ o < 4096, imageByte mem elf.pageTable (guardPage phs + 4096 + o) = some 0
  stackTop : elf.stackTop.val + 16 = guardPage phs + 8192 ∧ elf.stackTop.val % 16 = 0
  argsPage : ∀ o < 4096, imageByte mem elf.pageTable (guardPage phs + 8192 + o) =
    some ((args[o]?).getD 0)
  argsPtr : elf.argsPtr.val = guardPage phs + 8192
  argsLen : elf.argsLen = args.length
  entry : VirtAddr.tryNew eEntry = some elf.entry

/-! ## `align_up` -/

/-- `align_up` to a page rounds up. -/
theorem alignUp_eq_some {a g : ℕ} :
    alignUp a 4096 = some g ↔ a + 4095 < 0x10000000000000000 ∧ (a + 4095) / 4096 * 4096 = g := by
  -- the mask clears the low twelve bits
  have hmask : ∀ x : ℕ, x < 2 ^ 64 → x &&& 0xfffffffffffff000 = x / 4096 * 4096 := by
    intro x hx
    have hshift : x / 4096 * 4096 = (x >>> 12) <<< 12 := by
      rw [Nat.shiftRight_eq_div_pow, Nat.shiftLeft_eq]
    have hconst : 0xfffffffffffff000 = (2 ^ 52 - 1) <<< 12 := by decide
    apply Nat.eq_of_testBit_eq
    intro i
    rw [hshift, hconst, Nat.testBit_and, Nat.testBit_shiftLeft, Nat.testBit_shiftLeft,
      Nat.testBit_two_pow_sub_one, Nat.testBit_shiftRight]
    by_cases hi : 12 ≤ i
    · rw [show 12 + (i - 12) = i by omega]
      by_cases h64 : i < 64
      · simp [hi, show i - 12 < 52 by omega]
      · have hbit : x.testBit i = false :=
          Nat.testBit_lt_two_pow (lt_of_lt_of_le hx (Nat.pow_le_pow_right (by decide) (by omega)))
        simp [hbit]
    · simp [hi]
  rw [alignUp, Option.map_eq_some_iff]
  constructor
  · rintro ⟨x, hx, rfl⟩
    obtain ⟨hlt, rfl⟩ := checkedAdd_eq_some.1 hx
    exact ⟨hlt, (hmask _ hlt).symm⟩
  · rintro ⟨hlt, rfl⟩
    exact ⟨a + 4095, checkedAdd_eq_some.2 ⟨hlt, rfl⟩, hmask _ hlt⟩

/-! ## The segments of a plan are those of the headers -/

/-- The loop over the program headers, when it gets to its end. -/
theorem planSegments_eq {bytes : List Byte} {fh : FileHeader} {n i highest stop : ℕ}
    {segs : List Segment} (h : planSegments bytes fh n i highest = (segs, some stop)) :
    List.Forall₂ (fun ph s => segmentOf bytes ph = some s) (loadHeadersFrom bytes fh i n) segs ∧
      stop = ((loadHeadersFrom bytes fh i n).map fun ph => ph.vaddr + ph.memsz).foldl max
        highest := by
  induction n generalizing i highest segs with
  | zero =>
    cases h
    exact ⟨List.Forall₂.nil, rfl⟩
  | succ n ih =>
    rw [planSegments] at h
    rw [loadHeadersFrom, List.range'_succ, List.filterMap_cons, ← loadHeadersFrom]
    cases hread : readProgramHeader bytes fh i with
    | none =>
      rw [hread] at h
      cases h
    | some oph =>
      rw [hread] at h
      cases oph with
      | none => exact ih h
      | some ph =>
        simp only at h
        cases hseg : segmentOf bytes ph with
        | none =>
          rw [hseg] at h
          cases h
        | some s =>
          rw [hseg] at h
          simp only at h
          split_ifs at h with hacc
          · cases hadd : checkedAdd ph.vaddr ph.memsz with
            | none =>
              rw [hadd] at h
              cases h
            | some stop' =>
              rw [hadd] at h
              obtain ⟨-, rfl⟩ := checkedAdd_eq_some.1 hadd
              simp only [Prod.mk.injEq] at h
              obtain ⟨rfl, hstop⟩ := h
              obtain ⟨hforall, hmax⟩ := ih (Prod.ext rfl hstop)
              exact ⟨List.Forall₂.cons hseg hforall, hmax⟩
          · cases h

theorem placement_eq_some {fh : FileHeader} {bottom : ℕ} {p : VirtAddr × VirtAddr × ℕ}
    (h : placement fh bottom = some p) :
    ∃ stackTop entry, p = (stackTop, entry, bottom + pageSize) ∧
      VirtAddr.tryNew (bottom + pageSize - 16) = some stackTop ∧
      VirtAddr.tryNew fh.entry = some entry := by
  rw [placement] at h
  obtain ⟨top, hadd, h⟩ := Option.bind_eq_some_iff.1 h
  obtain ⟨-, rfl⟩ := checkedAdd_eq_some.1 hadd
  obtain ⟨top', hsub, h⟩ := Option.bind_eq_some_iff.1 h
  obtain ⟨-, rfl⟩ := checkedSub_eq_some.1 hsub
  obtain ⟨stackTop, htop, h⟩ := Option.bind_eq_some_iff.1 h
  obtain ⟨entry, hentry, h⟩ := Option.bind_eq_some_iff.1 h
  obtain ⟨argsBottom, hbottom, h⟩ := Option.bind_eq_some_iff.1 h
  obtain ⟨-, rfl⟩ := checkedAdd_eq_some.1 hbottom
  exact ⟨stackTop, entry, (Option.some.inj h).symm, htop, hentry⟩

theorem planArgs_eq {args : List Byte} {stackTop entry : VirtAddr} {bottom : ℕ}
    {r : VirtAddr × VirtAddr × VirtAddr × ℕ}
    (h : (planArgs args stackTop entry bottom).result = some r) :
    (planArgs args stackTop entry bottom).segments = [⟨args, bottom, pageSize, false⟩] ∧
      ∃ argsPtr, VirtAddr.tryNew bottom = some argsPtr ∧
        r = (entry, stackTop, argsPtr, args.length) := by
  unfold planArgs at h ⊢
  by_cases hacc : Segment.accepted ⟨args, bottom, pageSize, false⟩ = true
  · simp only [hacc, if_true, Option.map_eq_some_iff] at h ⊢
    obtain ⟨argsPtr, hptr, rfl⟩ := h
    exact ⟨trivial, argsPtr, hptr, rfl⟩
  · simp only [hacc] at h
    cases h

theorem planStack_of_result {fh : FileHeader} {args : List Byte} {bottom : ℕ}
    {r : VirtAddr × VirtAddr × VirtAddr × ℕ} (h : (planStack fh args bottom).result = some r) :
    ∃ stackTop entry argsBottom, placement fh bottom = some (stackTop, entry, argsBottom) ∧
      (planStack fh args bottom).segments =
        ⟨[], bottom, pageSize, true⟩ :: (planArgs args stackTop entry argsBottom).segments ∧
      (planStack fh args bottom).result = (planArgs args stackTop entry argsBottom).result := by
  unfold planStack at h ⊢
  by_cases hacc : Segment.accepted ⟨[], bottom, pageSize, true⟩ = true
  · simp only [hacc, if_true] at h ⊢
    cases hplace : placement fh bottom with
    | none =>
      rw [hplace] at h
      cases h
    | some p => exact ⟨p.1, p.2.1, p.2.2, rfl, rfl, rfl⟩
  · simp only [hacc] at h
    cases h

/-- The stack and the argument page, when they are reached. -/
theorem planStack_eq {fh : FileHeader} {args : List Byte} {bottom : ℕ}
    {r : VirtAddr × VirtAddr × VirtAddr × ℕ} (h : (planStack fh args bottom).result = some r) :
    (planStack fh args bottom).segments =
        [⟨[], bottom, pageSize, true⟩, ⟨args, bottom + pageSize, pageSize, false⟩] ∧
      ∃ entry stackTop argsPtr, r = (entry, stackTop, argsPtr, args.length) ∧
        VirtAddr.tryNew (bottom + pageSize - 16) = some stackTop ∧
        VirtAddr.tryNew fh.entry = some entry ∧
        VirtAddr.tryNew (bottom + pageSize) = some argsPtr := by
  obtain ⟨stackTop, entry, argsBottom, hplace, hsegs, hres⟩ := planStack_of_result h
  obtain ⟨_, _, hp, htop, hentry⟩ := placement_eq_some hplace
  cases hp
  rw [hres] at h
  obtain ⟨hargs, argsPtr, hptr, hr⟩ := planArgs_eq h
  rw [hsegs, hargs]
  exact ⟨rfl, entry, stackTop, argsPtr, hr, htop, hentry, hptr⟩

/-- **The plan of a file that is loaded to its end.** -/
theorem plan_eq {bytes args : List Byte} {entry stackTop argsPtr : VirtAddr} {argsLen : ℕ}
    (h : (plan bytes args).result = some (entry, stackTop, argsPtr, argsLen)) :
    ∃ fh segs g, readFileHeader bytes = some fh ∧
      List.Forall₂ (fun ph s => segmentOf bytes ph = some s) (loadHeaders bytes fh) segs ∧
      alignUp (highestEnd (loadHeaders bytes fh)) 4096 = some g ∧
      (plan bytes args).segments = segs ++
        [⟨[], g + pageSize, pageSize, true⟩, ⟨args, g + pageSize + pageSize, pageSize, false⟩] ∧
      VirtAddr.tryNew (g + pageSize + pageSize - 16) = some stackTop ∧
      VirtAddr.tryNew fh.entry = some entry ∧
      VirtAddr.tryNew (g + pageSize + pageSize) = some argsPtr ∧ argsLen = args.length := by
  rw [plan] at h ⊢
  cases hfh : readFileHeader bytes with
  | none =>
    rw [hfh] at h
    cases h
  | some fh =>
    rw [hfh] at h
    simp only at h ⊢
    cases hbottom : (planSegments bytes fh fh.phnum 0 0).2.bind stackBottom with
    | none =>
      rw [hbottom] at h
      cases h
    | some bottom =>
      rw [hbottom] at h
      simp only at h ⊢
      obtain ⟨stop, hstop, hbottom⟩ := Option.bind_eq_some_iff.1 hbottom
      rw [stackBottom] at hbottom
      obtain ⟨g, hg, hbottom⟩ := Option.bind_eq_some_iff.1 hbottom
      obtain ⟨hlt, rfl⟩ := checkedAdd_eq_some.1 hbottom
      obtain ⟨hforall, rfl⟩ := planSegments_eq (Prod.ext rfl hstop)
      obtain ⟨hsegs, _, _, _, hr, htop, hentry, hptr⟩ := planStack_eq h
      cases hr
      exact ⟨fh, _, g, rfl, hforall, hg, by rw [hsegs], htop, hentry, hptr, rfl⟩

/-- What the segment of a header holds. -/
theorem segmentOf_eq_some {bytes : List Byte} {ph : ProgramHeader} {s : Segment}
    (h : segmentOf bytes ph = some s) :
    s.vaddr = ph.vaddr ∧ s.memSize = ph.memsz ∧ s.writable = decide (ph.flags &&& 2 ≠ 0) ∧
      ph.offset + ph.filesz ≤ bytes.length ∧
      s.fileBytes = (bytes.drop ph.offset).take ph.filesz := by
  rw [segmentOf] at h
  obtain ⟨fileEnd, hadd, h⟩ := Option.bind_eq_some_iff.1 h
  obtain ⟨-, rfl⟩ := checkedAdd_eq_some.1 hadd
  obtain ⟨fileBytes, hrange, h⟩ := Option.bind_eq_some_iff.1 h
  obtain rfl := Option.some.inj h
  rw [getRange] at hrange
  split_ifs at hrange with hle
  obtain rfl := Option.some.inj hrange
  refine ⟨rfl, rfl, rfl, hle.2, ?_⟩
  rw [Nat.add_sub_cancel_left]

/-- The bytes of a segment, by offset. -/
theorem getElem?_fileBytes {bytes : List Byte} {ph : ProgramHeader} {s : Segment}
    (h : segmentOf bytes ph = some s) (o : ℕ) :
    some ((s.fileBytes[o]?).getD 0) = if o < ph.filesz then bytes[ph.offset + o]? else some 0 := by
  obtain ⟨-, -, -, hle, hbytes⟩ := segmentOf_eq_some h
  rw [hbytes, List.getElem?_take]
  split_ifs with ho
  · rw [List.getElem?_drop, List.getElem?_eq_getElem (by omega)]
    rfl
  · rfl

/-- The bytes of a page of a segment are those of the segment. -/
theorem Segment.getElem?_request (s : Segment) (k : ℕ) {o : ℕ} (ho : o < 4096) :
    (s.request k).bytes[o]? = s.fileBytes[k * 4096 + o]? := by
  show ((s.fileBytes.drop (k * 4096)).take 4096)[o]? = _
  rw [List.getElem?_take, if_pos ho, List.getElem?_drop]

/-- A page of the stack or of the arguments: a segment of one page. -/
theorem Segment.requests_of_onePage {s : Segment} (h : s.memSize = 4096) :
    s.requests = [s.request 0] := by
  rw [Segment.requests, Segment.pageCount, h]
  rfl

theorem Segment.pageCount_of_onePage {s : Segment} (h : s.memSize = 4096) :
    s.pageCount * 4096 = 4096 := by
  rw [Segment.pageCount, h]

theorem Segment.request_zero_addr (s : Segment) : (s.request 0).addr = s.vaddr := by
  show s.vaddr + 0 * 4096 = s.vaddr
  omega

theorem map_addr_onePage (fileBytes : List Byte) (vaddr : ℕ) (writable : Bool) :
    (Segment.mk fileBytes vaddr pageSize writable).requests.map Request.addr = [vaddr] := by
  rw [Segment.requests_of_onePage rfl, List.map_singleton, Segment.request_zero_addr]

/-- The pages of a segment are those of its header. -/
theorem map_addr_requests {bytes : List Byte} {ph : ProgramHeader} {s : Segment}
    (h : segmentOf bytes ph = some s) : s.requests.map Request.addr = ph.pages := by
  obtain ⟨hvaddr, hmem, -, -, -⟩ := segmentOf_eq_some h
  rw [Segment.requests, ProgramHeader.pages, List.map_map, Segment.pageCount, hmem,
    ProgramHeader.pageCount, ← hvaddr]
  rfl

/-- The pages of the segments are those of the headers. -/
theorem map_addr_flatMap_requests {bytes : List Byte} {phs : List ProgramHeader}
    {segs : List Segment} (h : List.Forall₂ (fun ph s => segmentOf bytes ph = some s) phs segs) :
    (segs.flatMap Segment.requests).map Request.addr = phs.flatMap ProgramHeader.pages := by
  induction h with
  | nil => rfl
  | cons hseg _ ih =>
    rw [List.flatMap_cons, List.flatMap_cons, List.map_append, ih, map_addr_requests hseg]

theorem exists_segment {bytes : List Byte} {phs : List ProgramHeader} {segs : List Segment}
    (h : List.Forall₂ (fun ph s => segmentOf bytes ph = some s) phs segs) {ph : ProgramHeader}
    (hph : ph ∈ phs) : ∃ s ∈ segs, segmentOf bytes ph = some s := by
  induction h with
  | nil => cases hph
  | cons hseg _ ih =>
    rcases List.mem_cons.1 hph with rfl | hph
    · exact ⟨_, List.mem_cons_self, hseg⟩
    · obtain ⟨s, hs, hseg⟩ := ih hph
      exact ⟨s, List.mem_cons_of_mem _ hs, hseg⟩

theorem le_foldl_max (l : List ℕ) (a : ℕ) : a ≤ l.foldl max a ∧ ∀ x ∈ l, x ≤ l.foldl max a := by
  induction l generalizing a with
  | nil => exact ⟨le_rfl, by simp⟩
  | cons y l ih =>
    obtain ⟨hle, hall⟩ := ih (max a y)
    rw [List.foldl_cons, List.forall_mem_cons]
    exact ⟨(le_max_left a y).trans hle, (le_max_right a y).trans hle, hall⟩

/-- The pages of the segments are below the page that is left out. -/
theorem lt_guardPage {phs : List ProgramHeader} {a : ℕ}
    (h : a ∈ phs.flatMap ProgramHeader.pages) : a < guardPage phs := by
  obtain ⟨ph, hph, ha⟩ := List.mem_flatMap.1 h
  obtain ⟨k, hk, rfl⟩ := List.mem_map.1 ha
  rw [List.mem_range'_1, ProgramHeader.pageCount] at hk
  have hend : ph.vaddr + ph.memsz ≤ highestEnd phs :=
    (le_foldl_max _ 0).2 _ (List.mem_map_of_mem hph)
  rw [guardPage]
  omega

/-! ## What the processor reads -/

section Image

variable {σ : Type} {A : FrameAllocator σ} {mapTo : MapTo σ} {S : A.Spec} {l4 cr3 : PhysFrame}
  {vis : Fin 512 → Bool} {off : Fin 512} {bytes args : List Byte} {m m' : Machine σ} {q : Request}

/-- The page that contains an address of a requested page. -/
theorem Request.Ok.containing (hq : q.Ok) {o : ℕ} (ho : o < 4096) :
    ∃ h : q.addr + o < 0x800000000000,
      (Page.containing ⟨q.addr + o, Or.inl h⟩).path = pathOf q.addr := by
  have haligned := hq.aligned
  have hlower := hq.lower
  have hlt : q.addr + o < 0x800000000000 := by omega
  refine ⟨hlt, ?_⟩
  have hpage : Page.containing ⟨q.addr + o, Or.inl hlt⟩ =
      Page.ofLower q.addr hq.lower hq.aligned := by
    apply Page.ext
    apply VirtAddr.ext
    rw [Page.containing_val]
    show q.addr + o - (q.addr + o) % 4096 = q.addr
    omega
  rw [hpage]
  rfl

/-- **A loaded page is what the processor reads.** -/
theorem Request.Loaded.imageByte_eq (hq : q.Ok) (h : q.Loaded S l4 vis m) {o : ℕ} (ho : o < 4096) :
    imageByte m.mem l4 (q.addr + o) = some ((q.bytes[o]?).getD 0) := by
  obtain ⟨f, hmaps, -, -, hbytes⟩ := h
  obtain ⟨hlt, hpath⟩ := hq.containing ho
  have hoff : VirtAddr.pageOffset ⟨q.addr + o, Or.inl hlt⟩ = ⟨o, ho⟩ := by
    have haligned := hq.aligned
    apply Fin.ext
    show (q.addr + o) % 4096 = o
    omega
  rw [imageByte, VirtAddr.tryNew_of_lower hlt, Option.bind_some, readByte, translatePage,
    hpath, hmaps.follow, hoff, Option.map_some, hbytes]

/-- Inversion of a `load` that returned `Some`. -/
theorem load_eq_some {elf : LoadedElf}
    (h : load A mapTo cr3 off bytes args m = .ok (m', some elf)) :
    ∃ m₁, newAddressSpace A m cr3 off = .ok (elf.pageTable, m₁) ∧
      (∀ s ∈ (plan bytes args).segments, s.Lower) ∧
      (plan bytes args).pages.foldlM (mapRequest A mapTo elf.pageTable) m₁ = .ok m' ∧
      (plan bytes args).result = some (elf.entry, elf.stackTop, elf.argsPtr, elf.argsLen) := by
  rcases load_eq_ok h with ⟨-, -, hc⟩ | ⟨-, l4, m₁, m₂, hnew, hall, hend⟩
  · cases hc
  · rcases hend with ⟨entry, stackTop, argsPtr, argsLen, hres, rfl, heq⟩ | ⟨-, hc, -⟩
    · obtain rfl := Option.some.inj heq
      obtain ⟨hlow, hrun⟩ := (mapAll_eq_ok plan_accepted).1 hall
      exact ⟨m₁, hnew, hlow, hrun, hres⟩
    · cases hc

/-- The pages of a plan that is carried out are those of the image. -/
theorem map_addr_pages {phs : List ProgramHeader} {segs : List Segment}
    (hforall : List.Forall₂ (fun ph s => segmentOf bytes ph = some s) phs segs)
    (hsegs : (plan bytes args).segments = segs ++
      [⟨[], guardPage phs + pageSize, pageSize, true⟩,
        ⟨args, guardPage phs + pageSize + pageSize, pageSize, false⟩]) :
    (plan bytes args).pages.map Request.addr = imagePages phs := by
  rw [Plan.pages, hsegs, List.flatMap_append, List.map_append, map_addr_flatMap_requests hforall,
    List.flatMap_cons, List.flatMap_cons, List.flatMap_nil, List.append_nil, List.map_append,
    map_addr_onePage, map_addr_onePage, List.singleton_append, imagePages, Nat.add_assoc]
  rfl

/-- **A loaded program's memory image is the one its file describes.** -/
theorem load_image {elf : LoadedElf} (hmap : MapTo.Documented A mapTo)
    (hk : Space S cr3 allEntries noEntries m)
    (h : load A mapTo cr3 off bytes args m = .ok (m', some elf)) :
    ∃ fh, readFileHeader bytes = some fh ∧
      Image bytes args (loadHeaders bytes fh) fh.entry m'.mem elf := by
  obtain ⟨m₁, hnew, hlow, hrun, hres⟩ := load_eq_some h
  obtain ⟨fh, segs, g, hfh, hforall, hg, hsegs, htop, hentry, hptr, hlen⟩ := plan_eq hres
  obtain rfl : guardPage (loadHeaders bytes fh) = g := (alignUp_eq_some.1 hg).2
  refine ⟨fh, hfh, ?_⟩
  generalize loadHeaders bytes fh = phs at *
  have hguard : guardPage phs % 4096 = 0 := Nat.mul_mod_left _ _
  have hsize : pageSize = 4096 := rfl
  have hoks := plan_request_ok hlow
  obtain ⟨-, -, hloaded, hnodup, -⟩ := mapRequests_spec hmap (newAddressSpace_all hk hnew) hoks
    (fun _ _ => rfl) hrun
  have hpages := map_addr_pages hforall hsegs
  have hlower : ∀ a ∈ imagePages phs, a % 4096 = 0 ∧ a + 4096 ≤ 0x800000000000 := by
    intro a ha
    rw [← hpages] at ha
    obtain ⟨q, hq, rfl⟩ := List.mem_map.1 ha
    have haligned := (hoks q hq).aligned
    have hlt := (hoks q hq).lower
    exact ⟨haligned, by omega⟩
  have hargsPage := (hlower (guardPage phs + 8192) (by simp [imagePages])).2
  -- the bytes of any page of any segment of the plan
  have hbytes : ∀ s ∈ (plan bytes args).segments, ∀ o < s.pageCount * 4096,
      imageByte m'.mem elf.pageTable (s.vaddr + o) = some ((s.fileBytes[o]?).getD 0) := by
    intro s hs o ho
    have hq : s.request (o / 4096) ∈ (plan bytes args).pages :=
      List.mem_flatMap.2 ⟨s, hs, Segment.mem_requests.2 ⟨o / 4096, by omega, rfl⟩⟩
    have hmod : o % 4096 < 4096 := Nat.mod_lt _ (by decide)
    have hbyte := (hloaded _ hq).imageByte_eq (hoks _ hq) hmod
    have haddr : (s.request (o / 4096)).addr + o % 4096 = s.vaddr + o := by
      show s.vaddr + o / 4096 * 4096 + o % 4096 = s.vaddr + o
      omega
    rw [haddr, s.getElem?_request _ hmod] at hbyte
    rw [hbyte, show o / 4096 * 4096 + o % 4096 = o by omega]
  refine ⟨?_, hlower, hpages ▸ hnodup, ⟨hg, fun hc => absurd (lt_guardPage hc) (lt_irrefl _)⟩,
    ?_, ?_, ?_, ?_, hlen, hentry⟩
  · intro ph hph o ho
    obtain ⟨s, hs, hseg⟩ := exists_segment hforall hph
    obtain ⟨hvaddr, hmem, -⟩ := segmentOf_eq_some hseg
    have hbyte := hbytes s (hsegs ▸ List.mem_append_left _ hs) o
      (by rw [Segment.pageCount, hmem]; exact ho)
    rw [hvaddr, getElem?_fileBytes hseg] at hbyte
    exact hbyte
  · intro o ho
    have hbyte := hbytes ⟨[], guardPage phs + pageSize, pageSize, true⟩ (by simp [hsegs]) o
      (by rw [Segment.pageCount_of_onePage rfl]; exact ho)
    simpa using hbyte
  · rw [VirtAddr.tryNew_of_lower (by omega)] at htop
    have hval : guardPage phs + pageSize + pageSize - 16 = elf.stackTop.val :=
      congrArg VirtAddr.val (Option.some.inj htop)
    exact ⟨by omega, by omega⟩
  · intro o ho
    have hbyte := hbytes ⟨args, guardPage phs + pageSize + pageSize, pageSize, false⟩
      (by simp [hsegs]) o (by rw [Segment.pageCount_of_onePage rfl]; exact ho)
    rw [show guardPage phs + 8192 = guardPage phs + pageSize + pageSize by omega]
    exact hbyte
  · rw [VirtAddr.tryNew_of_lower (by omega)] at hptr
    have hval : guardPage phs + pageSize + pageSize = elf.argsPtr.val :=
      congrArg VirtAddr.val (Option.some.inj hptr)
    omega

end Image

/-- A file with one segment of two pages, of which the file has the first three bytes. -/
def dataSegment : List Byte :=
  fileHeader 0x8000000000 56 1 ++ loadHeader 4 120 0x8000000000 3 0x1001 ++ [0x11, 0x22, 0x33]

/-- The bytes of the file are in memory, and zeros behind them. -/
theorem load_image_dataSegment :
    ∃ m' elf, load bootInfo (documentedMapTo bootInfo) 1 3 dataSegment [0x61] bootMachine =
        .ok (m', some elf) ∧
      imageByte m'.mem elf.pageTable 0x8000000002 = some 0x33 ∧
      imageByte m'.mem elf.pageTable 0x8000001000 = some 0 ∧
      ∃ fh, readFileHeader dataSegment = some fh ∧
        Image dataSegment [0x61] (loadHeaders dataSegment fh) fh.entry m'.mem elf := by
  obtain ⟨⟨m', loaded⟩, h, hsome⟩ := Runs.exists_ok_of_any
    (x := load bootInfo (documentedMapTo bootInfo) 1 3 dataSegment [0x61] bootMachine)
    (fun r => r.2.isSome) (by decide +kernel)
  obtain ⟨elf, rfl⟩ := Option.isSome_iff_exists.1 hsome
  obtain ⟨fh, hfh, himage⟩ :=
    load_image (S := bootInfoSpec) (fun _ _ _ _ _ _ => rfl) space_bootMachine h
  have hsegment : (readFileHeader dataSegment).any (fun fh => (loadHeaders dataSegment fh).any
      fun ph => decide (ph.offset = 120 ∧ ph.vaddr = 0x8000000000 ∧ ph.filesz = 3 ∧
        ph.pageCount = 2)) = true := by decide +kernel
  rw [hfh, Option.any_some, List.any_eq_true] at hsegment
  obtain ⟨ph, hph, hvalues⟩ := hsegment
  obtain ⟨hoffset, hvaddr, hfilesz, hcount⟩ := of_decide_eq_true hvalues
  have hbytes := himage.segment ph hph
  rw [hoffset, hvaddr, hfilesz, hcount] at hbytes
  exact ⟨m', elf, h, hbytes 2 (by decide), hbytes 0x1000 (by decide), fh, hfh, himage⟩
