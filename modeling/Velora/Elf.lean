/-
# The ELF loader

`elf::load` with everything it calls: reading the file header and the program headers
(elf.rs), building an address space, mapping the segments, the stack and the argument
page, and freeing the space again when the file turns out to be malformed half-way.

The code reads a header, maps its segment, reads the next, and so on.  `plan` is the
same parse without the mapping: the segments that `load` goes on to map and the result
it has for its caller if no panic stops it.  `load_eq` says that `load` does what the
plan says, so what is proved about loading can speak about the file alone.
-/
import Velora.AddressSpace

/-! ## Reading the file -/

/-- `bytes.get(start..end)` -/
def getRange (bytes : List Byte) (start stop : ℕ) : Option (List Byte) :=
  if start ≤ stop ∧ stop ≤ bytes.length then some ((bytes.drop start).take (stop - start))
  else none

/-- `from_le_bytes` -/
def fromLeBytes : List Byte → ℕ
  | [] => 0
  | b :: bs => b.toNat + 256 * fromLeBytes bs

/-- The little-endian integer of `n` bytes at `base + offset`. -/
def readLe (n : ℕ) (bytes : List Byte) (base offset : ℕ) : Option ℕ := do
  let start ← checkedAdd base offset
  let stop ← checkedAdd start n
  let b ← getRange bytes start stop
  return fromLeBytes b

/-- `read_u16` -/
def readU16 : List Byte → ℕ → ℕ → Option ℕ := readLe 2

/-- `read_u32` -/
def readU32 : List Byte → ℕ → ℕ → Option ℕ := readLe 4

/-- `read_u64` -/
def readU64 : List Byte → ℕ → ℕ → Option ℕ := readLe 8

/-- `PAGE_SIZE`, which is also `STACK_SIZE` and `ARGS_SIZE`. -/
abbrev pageSize : ℕ := 4096

/-- The checks of `load` on the fixed part of the header: length, magic number, class, byte
order, type and machine. -/
def headerOk (bytes : List Byte) : Bool :=
  64 ≤ bytes.length && bytes.take 4 = [0x7f, 0x45, 0x4c, 0x46] && bytes[4]? = some 2 &&
    bytes[5]? = some 1 && readU16 bytes 0 16 = some 2 && readU16 bytes 0 18 = some 0x3e

/-- The fields of the file header that are read once it is accepted. -/
structure FileHeader where
  entry : ℕ
  phoff : ℕ
  phentsize : ℕ
  phnum : ℕ
  deriving DecidableEq

/-- `e_entry`, `e_phoff`, `e_phentsize` and `e_phnum`. -/
def readFileHeader (bytes : List Byte) : Option FileHeader := do
  let entry ← readU64 bytes 0 24
  let phoff ← readU64 bytes 0 32
  let phentsize ← readU16 bytes 0 54
  let phnum ← readU16 bytes 0 56
  return { entry, phoff, phentsize, phnum }

/-- The fields of a `PT_LOAD` program header. -/
structure ProgramHeader where
  flags : ℕ
  offset : ℕ
  vaddr : ℕ
  filesz : ℕ
  memsz : ℕ
  deriving DecidableEq

/-- What `map_segment` is asked to map. -/
structure Segment where
  fileBytes : List Byte
  vaddr : ℕ
  memSize : ℕ
  writable : Bool
  deriving DecidableEq

/-- Program header `i`: `none` if it cannot be read, `some none` if it is not `PT_LOAD`. -/
def readProgramHeader (bytes : List Byte) (fh : FileHeader) (i : ℕ) :
    Option (Option ProgramHeader) := do
  let ph ← checkedAdd fh.phoff (← checkedMul i fh.phentsize)
  let pType ← readU32 bytes ph 0
  if pType ≠ 1 then return none
  let flags ← readU32 bytes ph 4
  let offset ← readU64 bytes ph 8
  let vaddr ← readU64 bytes ph 16
  let filesz ← readU64 bytes ph 32
  let memsz ← readU64 bytes ph 40
  return some { flags, offset, vaddr, filesz, memsz }

/-- The segment of a program header: `none` if its bytes are not all in the file. -/
def segmentOf (bytes : List Byte) (ph : ProgramHeader) : Option Segment := do
  let fileEnd ← checkedAdd ph.offset ph.filesz
  let fileBytes ← getRange bytes ph.offset fileEnd
  return { fileBytes, vaddr := ph.vaddr, memSize := ph.memsz, writable := ph.flags &&& 2 ≠ 0 }

/-- `align_up` -/
def alignUp (addr align : ℕ) : Option ℕ :=
  (checkedAdd addr (align - 1)).map fun a => a &&& (0xffffffffffffffff - (align - 1))

/-! ## Mapping -/

/-- `Result::expect` -/
def expectOk {ε α : Type} (p : Panic) : Except ε α → Except Panic α
  | .ok x => .ok x
  | .error _ => .error p

theorem expectOk_eq_ok {ε α : Type} {p : Panic} {x : Except ε α} {a : α}
    (h : expectOk p x = .ok a) : x = .ok a := by
  cases x with
  | error e => cases h
  | ok b => cases h; rfl

/-- The flags of a segment's pages. -/
def segmentFlags (writable : Bool) : Word :=
  let flags := PageTableFlags.present ||| PageTableFlags.userAccessible
  if writable then flags ||| PageTableFlags.writable else flags

/-- The first and the last page of a segment, if `map_segment` accepts its address and size. -/
def segmentPages (vaddr memSize : ℕ) : Option (Page × Page) := do
  if vaddr % pageSize ≠ 0 ∨ vaddr ≥ 0x800000000000 then none
  let lastByte ← checkedSub (← checkedAdd vaddr memSize) 1
  let startPage := Page.containing (← VirtAddr.tryNew vaddr)
  let endPage := Page.containing (← VirtAddr.tryNew lastByte)
  return (startPage, endPage)

section Load

variable {σ : Type} (A : FrameAllocator σ) (mapTo : MapTo σ)

/-- The body of the loop of `map_segment`: page number `i` of a segment. -/
def mapSegmentPage (l4 : PhysFrame) (fileBytes : List Byte) (flags : Word) (startPage : Page)
    (i : ℕ) (m : Machine σ) : Except Panic (Machine σ) := do
  let page ← startPage.add i
  let (frame, m) ← (m.allocate A).expect .noFramesForSegment
  let m ← expectOk .mapSegmentFailed (mapTo m l4 page frame flags)
  let mem := m.mem.zeroFrame frame
  let pageOffset := i * pageSize
  if pageOffset < fileBytes.length then
    let copyLen := min (fileBytes.length - pageOffset) pageSize
    .ok (m.write (mem.writeBytes frame ((fileBytes.drop pageOffset).take copyLen)))
  else .ok (m.write mem)

/-- The loop of `map_segment`: `n` pages, from number `i` on. -/
def mapSegmentLoop (l4 : PhysFrame) (fileBytes : List Byte) (flags : Word) (startPage : Page) :
    ℕ → ℕ → Machine σ → Except Panic (Machine σ)
  | 0, _, m => .ok m
  | n + 1, i, m => do
    let m ← mapSegmentPage A mapTo l4 fileBytes flags startPage i m
    mapSegmentLoop l4 fileBytes flags startPage n (i + 1) m

/-- `map_segment` -/
def mapSegment (l4 : PhysFrame) (s : Segment) (m : Machine σ) :
    Except Panic (Machine σ × Option Unit) :=
  if s.memSize = 0 then .ok (m, some ())
  else match segmentPages s.vaddr s.memSize with
    | none => .ok (m, none)
    | some (startPage, endPage) => do
      let pageCount := (← endPage.sub startPage) + 1
      let m ← mapSegmentLoop A mapTo l4 s.fileBytes (segmentFlags s.writable) startPage
        pageCount 0 m
      .ok (m, some ())

/-- The loop of `load_segments_and_stack` over the program headers: `n` of them, from number
`i` on; `highest` is `highest_mapped`. -/
def loadSegments (bytes : List Byte) (l4 : PhysFrame) (fh : FileHeader) :
    ℕ → ℕ → ℕ → Machine σ → Except Panic (Machine σ × Option ℕ)
  | 0, _, highest, m => .ok (m, some highest)
  | n + 1, i, highest, m =>
    match readProgramHeader bytes fh i with
    | none => .ok (m, none)
    | some none => loadSegments bytes l4 fh n (i + 1) highest m
    | some (some ph) =>
      match segmentOf bytes ph with
      | none => .ok (m, none)
      | some s => do
        let (m, mapped) ← mapSegment A mapTo l4 s m
        match mapped with
        | none => .ok (m, none)
        | some () =>
          match checkedAdd ph.vaddr ph.memsz with
          | none => .ok (m, none)
          | some stop => loadSegments bytes l4 fh n (i + 1) (max highest stop) m

/-- `LoadedElf`; its `page_table` is the level-4 table of the new space. -/
structure LoadedElf where
  pageTable : PhysFrame
  entry : VirtAddr
  stackTop : VirtAddr
  argsPtr : VirtAddr
  argsLen : ℕ

/-- The stack: one page, a page above the highest segment. -/
def stackBottom (highest : ℕ) : Option ℕ := do checkedAdd (← alignUp highest pageSize) pageSize

/-- `stack_top`, the entry point and the address of the argument page. -/
def placement (fh : FileHeader) (bottom : ℕ) : Option (VirtAddr × VirtAddr × ℕ) := do
  let stackTop ← VirtAddr.tryNew (← checkedSub (← checkedAdd bottom pageSize) 16)
  let entry ← VirtAddr.tryNew fh.entry
  let argsBottom ← checkedAdd bottom pageSize
  return (stackTop, entry, argsBottom)

/-- The end of `load_segments_and_stack`: the argument page. -/
def loadArgs (args : List Byte) (l4 : PhysFrame) (stackTop entry : VirtAddr) (argsBottom : ℕ)
    (m : Machine σ) : Except Panic (Machine σ × Option (VirtAddr × VirtAddr × VirtAddr × ℕ)) := do
  let (m, mapped) ← mapSegment A mapTo l4 ⟨args, argsBottom, pageSize, false⟩ m
  match mapped, VirtAddr.tryNew argsBottom with
  | some (), some argsPtr => .ok (m, some (entry, stackTop, argsPtr, args.length))
  | _, _ => .ok (m, none)

/-- The part of `load_segments_and_stack` after the loop: the stack and the argument page. -/
def loadStack (fh : FileHeader) (args : List Byte) (l4 : PhysFrame) (bottom : ℕ)
    (m : Machine σ) : Except Panic (Machine σ × Option (VirtAddr × VirtAddr × VirtAddr × ℕ)) := do
  let (m, mapped) ← mapSegment A mapTo l4 ⟨[], bottom, pageSize, true⟩ m
  match mapped, placement fh bottom with
  | some (), some (stackTop, entry, argsBottom) =>
    loadArgs A mapTo args l4 stackTop entry argsBottom m
  | _, _ => .ok (m, none)

/-- `load_segments_and_stack` -/
def loadSegmentsAndStack (bytes args : List Byte) (l4 : PhysFrame) (m : Machine σ) :
    Except Panic (Machine σ × Option (VirtAddr × VirtAddr × VirtAddr × ℕ)) :=
  match readFileHeader bytes with
  | none => .ok (m, none)
  | some fh => do
    let (m, highest) ← loadSegments A mapTo bytes l4 fh fh.phnum 0 0 m
    match highest.bind stackBottom with
    | none => .ok (m, none)
    | some bottom => loadStack A mapTo fh args l4 bottom m

/-- `load`; `cr3` is the active level-4 table and `off` the level-4 index of
`physical_memory_offset`. -/
def load (cr3 : PhysFrame) (off : Fin 512) (bytes args : List Byte) (m : Machine σ) :
    Except Panic (Machine σ × Option LoadedElf) :=
  if !headerOk bytes then .ok (m, none)
  else do
    let (l4, m) ← newAddressSpace A m cr3 off
    let (m, loaded) ← loadSegmentsAndStack A mapTo bytes args l4 m
    match loaded with
    | some (entry, stackTop, argsPtr, argsLen) =>
      .ok (m, some { pageTable := l4, entry, stackTop, argsPtr, argsLen })
    | none => do
      let m ← freeAddressSpace A off (0, 0) l4 m
      .ok (m, none)

/-! ## The plan of a file -/

/-- `map_segment` does not reject the segment. -/
def Segment.accepted (s : Segment) : Bool :=
  s.memSize = 0 || (segmentPages s.vaddr s.memSize).isSome

/-- The segments that the loop over the program headers maps, and the value of
`highest_mapped` after it, `none` if it returns early. -/
def planSegments (bytes : List Byte) (fh : FileHeader) : ℕ → ℕ → ℕ → List Segment × Option ℕ
  | 0, _, highest => ([], some highest)
  | n + 1, i, highest =>
    match readProgramHeader bytes fh i with
    | none => ([], none)
    | some none => planSegments bytes fh n (i + 1) highest
    | some (some ph) =>
      match segmentOf bytes ph with
      | none => ([], none)
      | some s =>
        if s.accepted then
          match checkedAdd ph.vaddr ph.memsz with
          | none => ([s], none)
          | some stop =>
            let rest := planSegments bytes fh n (i + 1) (max highest stop)
            (s :: rest.1, rest.2)
        else ([], none)

/-- What `load` does with a file: the segments it maps, in order, and what it returns about
them, `none` if it gives up on the way. -/
structure Plan where
  segments : List Segment
  result : Option (VirtAddr × VirtAddr × VirtAddr × ℕ)

/-- The argument page, last. -/
def planArgs (args : List Byte) (stackTop entry : VirtAddr) (argsBottom : ℕ) : Plan :=
  let argsPage : Segment := ⟨args, argsBottom, pageSize, false⟩
  if argsPage.accepted then
    ⟨[argsPage],
      (VirtAddr.tryNew argsBottom).map fun argsPtr => (entry, stackTop, argsPtr, args.length)⟩
  else ⟨[], none⟩

/-- The stack and the argument page, after the segments. -/
def planStack (fh : FileHeader) (args : List Byte) (bottom : ℕ) : Plan :=
  let stack : Segment := ⟨[], bottom, pageSize, true⟩
  if stack.accepted then
    match placement fh bottom with
    | none => ⟨[stack], none⟩
    | some (stackTop, entry, argsBottom) =>
      let rest := planArgs args stackTop entry argsBottom
      ⟨stack :: rest.segments, rest.result⟩
  else ⟨[], none⟩

/-- The plan of a file whose header is accepted. -/
def plan (bytes args : List Byte) : Plan :=
  match readFileHeader bytes with
  | none => ⟨[], none⟩
  | some fh =>
    let segs := planSegments bytes fh fh.phnum 0 0
    match segs.2.bind stackBottom with
    | none => ⟨segs.1, none⟩
    | some bottom =>
      let rest := planStack fh args bottom
      ⟨segs.1 ++ rest.segments, rest.result⟩

variable {A mapTo} {l4 : PhysFrame}

/-- Map the segments of a plan, in order. -/
def mapAll (A : FrameAllocator σ) (mapTo : MapTo σ) (l4 : PhysFrame) (segs : List Segment)
    (m : Machine σ) : Except Panic (Machine σ) :=
  segs.foldlM (fun m s => (mapSegment A mapTo l4 s m).map Prod.fst) m

theorem mapAll_cons (s : Segment) (segs : List Segment) (m : Machine σ) :
    mapAll A mapTo l4 (s :: segs) m =
      ((mapSegment A mapTo l4 s m).map Prod.fst).bind (mapAll A mapTo l4 segs) :=
  List.foldlM_cons

theorem mapAll_append (segs segs' : List Segment) (m : Machine σ) :
    mapAll A mapTo l4 (segs ++ segs') m =
      (mapAll A mapTo l4 segs m).bind (mapAll A mapTo l4 segs') :=
  List.foldlM_append

/-- `map_segment` rejects a segment without mapping anything, or maps all of it. -/
theorem mapSegment_eq (s : Segment) (m : Machine σ) :
    mapSegment A mapTo l4 s m =
      if s.accepted then ((mapSegment A mapTo l4 s m).map Prod.fst).map fun m => (m, some ())
      else .ok (m, none) := by
  rw [mapSegment, Segment.accepted]
  by_cases h0 : s.memSize = 0
  · simp [h0, Except.map]
  · rw [if_neg h0]
    cases segmentPages s.vaddr s.memSize with
    | none => simp [h0]
    | some p =>
      simp only [h0, decide_false, Option.isSome_some, Bool.or_true, if_true]
      have hstep : ∀ x : Except Panic (Machine σ × Option Unit), (∀ r, x = .ok r → r.2 = some ()) →
          x = (x.map Prod.fst).map fun m => (m, some ()) := by
        intro x hx
        cases x with
        | error e => rfl
        | ok r => exact congrArg Except.ok (Prod.ext rfl (hx r rfl))
      refine hstep _ ?_
      intro r hr
      obtain ⟨n, -, hr⟩ := bind_eq_ok hr
      obtain ⟨m', -, hr⟩ := bind_eq_ok hr
      cases hr
      rfl

theorem loadSegments_eq (bytes : List Byte) (fh : FileHeader) (n i highest : ℕ) (m : Machine σ) :
    loadSegments A mapTo bytes l4 fh n i highest m =
      (mapAll A mapTo l4 (planSegments bytes fh n i highest).1 m).map fun m =>
        (m, (planSegments bytes fh n i highest).2) := by
  induction n generalizing i highest m with
  | zero => rfl
  | succ n ih =>
    rw [loadSegments, planSegments]
    cases readProgramHeader bytes fh i with
    | none => rfl
    | some ph =>
      cases ph with
      | none => exact ih (i + 1) highest m
      | some ph =>
        simp only
        cases segmentOf bytes ph with
        | none => rfl
        | some s =>
          simp only
          rw [mapSegment_eq]
          cases s.accepted with
          | false => rfl
          | true =>
            simp only [if_true]
            cases checkedAdd ph.vaddr ph.memsz with
            | none =>
              simp only [mapAll_cons]
              cases (mapSegment A mapTo l4 s m).map Prod.fst <;> rfl
            | some stop =>
              simp only [mapAll_cons]
              cases (mapSegment A mapTo l4 s m).map Prod.fst with
              | error e => rfl
              | ok m' => exact ih (i + 1) (max highest stop) m'

theorem loadArgs_eq (args : List Byte) (stackTop entry : VirtAddr) (argsBottom : ℕ)
    (m : Machine σ) : loadArgs A mapTo args l4 stackTop entry argsBottom m =
      (mapAll A mapTo l4 (planArgs args stackTop entry argsBottom).segments m).map fun m =>
        (m, (planArgs args stackTop entry argsBottom).result) := by
  rw [loadArgs, planArgs, mapSegment_eq]
  cases Segment.accepted ⟨args, argsBottom, pageSize, false⟩ with
  | false => rfl
  | true =>
    simp only [if_true, mapAll_cons]
    cases (mapSegment A mapTo l4 ⟨args, argsBottom, pageSize, false⟩ m).map Prod.fst with
    | error e => rfl
    | ok m' => cases VirtAddr.tryNew argsBottom <;> rfl

theorem loadStack_eq (fh : FileHeader) (args : List Byte) (bottom : ℕ) (m : Machine σ) :
    loadStack A mapTo fh args l4 bottom m =
      (mapAll A mapTo l4 (planStack fh args bottom).segments m).map fun m =>
        (m, (planStack fh args bottom).result) := by
  rw [loadStack, planStack, mapSegment_eq]
  cases Segment.accepted ⟨[], bottom, pageSize, true⟩ with
  | false => rfl
  | true =>
    cases placement fh bottom with
    | none =>
      simp only [if_true, mapAll_cons]
      cases (mapSegment A mapTo l4 ⟨[], bottom, pageSize, true⟩ m).map Prod.fst <;> rfl
    | some p =>
      simp only [if_true, mapAll_cons]
      cases (mapSegment A mapTo l4 ⟨[], bottom, pageSize, true⟩ m).map Prod.fst with
      | error e => rfl
      | ok m' => exact loadArgs_eq args p.1 p.2.1 p.2.2 m'

/-- The plan is carried out: its segments are mapped, in order, and its result returned. -/
theorem loadSegmentsAndStack_eq (bytes args : List Byte) (m : Machine σ) :
    loadSegmentsAndStack A mapTo bytes args l4 m =
      (mapAll A mapTo l4 (plan bytes args).segments m).map fun m =>
        (m, (plan bytes args).result) := by
  rw [loadSegmentsAndStack, plan]
  cases readFileHeader bytes with
  | none => rfl
  | some fh =>
    simp only [loadSegments_eq]
    cases hbottom : (planSegments bytes fh fh.phnum 0 0).2.bind stackBottom with
    | none =>
      cases mapAll A mapTo l4 (planSegments bytes fh fh.phnum 0 0).1 m with
      | error e => rfl
      | ok m' =>
        show (match (planSegments bytes fh fh.phnum 0 0).2.bind stackBottom with
          | none => _
          | some bottom => _) = _
        rw [hbottom]
        rfl
    | some bottom =>
      simp only [mapAll_append]
      cases mapAll A mapTo l4 (planSegments bytes fh fh.phnum 0 0).1 m with
      | error e => rfl
      | ok m' =>
        show (match (planSegments bytes fh fh.phnum 0 0).2.bind stackBottom with
          | none => _
          | some bottom => _) = _
        rw [hbottom]
        exact loadStack_eq fh args bottom m'

/-- **What `load` does**, said with the plan of the file. -/
theorem load_eq {cr3 : PhysFrame} {off : Fin 512} {bytes args : List Byte} {m : Machine σ}
    (h : headerOk bytes = true) :
    load A mapTo cr3 off bytes args m = (do
      let (l4, m) ← newAddressSpace A m cr3 off
      let m ← mapAll A mapTo l4 (plan bytes args).segments m
      match (plan bytes args).result with
      | some (entry, stackTop, argsPtr, argsLen) =>
        .ok (m, some { pageTable := l4, entry, stackTop, argsPtr, argsLen })
      | none => do
        let m ← freeAddressSpace A off (0, 0) l4 m
        .ok (m, none)) := by
  rw [load, h]
  simp only [Bool.not_true, Bool.false_eq_true, if_false]
  congr 1
  funext p
  simp only [loadSegmentsAndStack_eq]
  cases mapAll A mapTo p.1 (plan bytes args).segments p.2 <;> rfl

/-- A plan that is carried out to its end. -/
theorem load_of_result {cr3 l4 : PhysFrame} {off : Fin 512} {bytes args : List Byte}
    {m m₁ m₂ : Machine σ} {entry stackTop argsPtr : VirtAddr} {argsLen : ℕ}
    (hok : headerOk bytes = true) (hnew : newAddressSpace A m cr3 off = .ok (l4, m₁))
    (hmap : mapAll A mapTo l4 (plan bytes args).segments m₁ = .ok m₂)
    (hres : (plan bytes args).result = some (entry, stackTop, argsPtr, argsLen)) :
    load A mapTo cr3 off bytes args m = .ok (m₂, some ⟨l4, entry, stackTop, argsPtr, argsLen⟩) := by
  rw [load_eq hok]
  simp only [hnew, hmap, hres, bind, Except.bind]

/-- A plan that is given up, and what was built for it freed. -/
theorem load_of_none {cr3 l4 : PhysFrame} {off : Fin 512} {bytes args : List Byte}
    {m m₁ m₂ m₃ : Machine σ} (hok : headerOk bytes = true)
    (hnew : newAddressSpace A m cr3 off = .ok (l4, m₁))
    (hmap : mapAll A mapTo l4 (plan bytes args).segments m₁ = .ok m₂)
    (hres : (plan bytes args).result = none)
    (hfree : freeAddressSpace A off (0, 0) l4 m₂ = .ok m₃) :
    load A mapTo cr3 off bytes args m = .ok (m₃, none) := by
  rw [load_eq hok]
  simp only [hnew, hmap, hres, hfree, bind, Except.bind]

/-- Inversion of a `load` that returned. -/
theorem load_eq_ok {cr3 : PhysFrame} {off : Fin 512} {bytes args : List Byte} {m m' : Machine σ}
    {loaded : Option LoadedElf} (h : load A mapTo cr3 off bytes args m = .ok (m', loaded)) :
    (headerOk bytes = false ∧ m' = m ∧ loaded = none) ∨
      (headerOk bytes = true ∧ ∃ l4 m₁ m₂, newAddressSpace A m cr3 off = .ok (l4, m₁) ∧
        mapAll A mapTo l4 (plan bytes args).segments m₁ = .ok m₂ ∧
        ((∃ entry stackTop argsPtr argsLen,
            (plan bytes args).result = some (entry, stackTop, argsPtr, argsLen) ∧ m' = m₂ ∧
            loaded = some ⟨l4, entry, stackTop, argsPtr, argsLen⟩) ∨
          ((plan bytes args).result = none ∧ loaded = none ∧
            freeAddressSpace A off (0, 0) l4 m₂ = .ok m'))) := by
  cases hok : headerOk bytes with
  | false =>
    rw [load, hok] at h
    cases h
    exact Or.inl ⟨rfl, rfl, rfl⟩
  | true =>
    right
    rw [load_eq hok] at h
    obtain ⟨⟨l4, m₁⟩, hnew, h⟩ := bind_eq_ok h
    obtain ⟨m₂, hmap, h⟩ := bind_eq_ok h
    refine ⟨rfl, l4, m₁, m₂, hnew, hmap, ?_⟩
    cases hres : (plan bytes args).result with
    | some r =>
      obtain ⟨entry, stackTop, argsPtr, argsLen⟩ := r
      rw [hres] at h
      cases h
      exact Or.inl ⟨entry, stackTop, argsPtr, argsLen, rfl, rfl, rfl⟩
    | none =>
      rw [hres] at h
      obtain ⟨m₃, hfree, h⟩ := bind_eq_ok h
      cases h
      exact Or.inr ⟨rfl, rfl, hfree⟩

/-! ## The segments of a plan are accepted -/

theorem planSegments_accepted {bytes : List Byte} {fh : FileHeader} {n i highest : ℕ} :
    ∀ s ∈ (planSegments bytes fh n i highest).1, s.accepted = true := by
  induction n generalizing i highest with
  | zero => simp [planSegments]
  | succ n ih =>
    rw [planSegments]
    cases readProgramHeader bytes fh i with
    | none => simp
    | some ph =>
      cases ph with
      | none => exact ih
      | some ph =>
        simp only
        cases segmentOf bytes ph with
        | none => simp
        | some s =>
          cases hacc : s.accepted with
          | false => simp [hacc]
          | true =>
            simp only [hacc, if_true]
            cases checkedAdd ph.vaddr ph.memsz with
            | none => simpa using hacc
            | some stop => simpa using ⟨hacc, ih⟩

theorem plan_accepted {bytes args : List Byte} :
    ∀ s ∈ (plan bytes args).segments, s.accepted = true := by
  have hargs : ∀ stackTop entry argsBottom,
      ∀ s ∈ (planArgs args stackTop entry argsBottom).segments, s.accepted = true := by
    intro stackTop entry argsBottom
    rw [planArgs]
    split_ifs with hacc
    · simpa using hacc
    · simp
  have hstack : ∀ fh bottom, ∀ s ∈ (planStack fh args bottom).segments, s.accepted = true := by
    intro fh bottom
    rw [planStack]
    split_ifs with hacc
    · cases placement fh bottom with
      | none => simpa using hacc
      | some p =>
        intro s hs
        rcases List.mem_cons.1 hs with rfl | hs
        · exact hacc
        · exact hargs _ _ _ s hs
    · simp
  rw [plan]
  cases readFileHeader bytes with
  | none => simp
  | some fh =>
    simp only
    cases (planSegments bytes fh fh.phnum 0 0).2.bind stackBottom with
    | none => exact planSegments_accepted
    | some bottom =>
      intro s hs
      rcases List.mem_append.1 hs with hs | hs
      · exact planSegments_accepted s hs
      · exact hstack fh bottom s hs

end Load
