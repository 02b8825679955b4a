/-
# Page-table entries and physical memory

Physical memory as the kernel sees it through the window at
`physical_memory_offset`: every frame is 512 words of 64 bits.  The same words are
page-table entries when a frame is used as a table and eight bytes each when it
holds data; nothing in memory says which, as on the machine.

The operations on entries (`flags().contains`, `frame`, `is_unused`, `set_frame`,
`set_flags`) are those of the x86_64 crate, bit by bit.
-/
import Velora.RadixHeap
import Velora.VirtAddr

/-- A 4 KiB physical frame, by number: a `PhysAddr` has 52 bits. -/
abbrev PhysFrame := Fin 0x10000000000

instance neZero_frames : NeZero 0x10000000000 := ⟨by decide⟩

instance neZero_entries : NeZero 512 := ⟨by decide⟩

/-- A 64-bit word of memory. -/
abbrev Word := BitVec 64

/-- A `u8`. -/
abbrev Byte := BitVec 8

/-- Physical memory. -/
abbrev PhysMem := PhysFrame → Fin 512 → Word

/-! ## Flags -/

namespace PageTableFlags

/-- `PRESENT` -/
def present : Word := 0x1#64

/-- `WRITABLE` -/
def writable : Word := 0x2#64

/-- `USER_ACCESSIBLE` -/
def userAccessible : Word := 0x4#64

/-- `HUGE_PAGE` -/
def hugePage : Word := 0x80#64

end PageTableFlags

/-! ## Entries -/

namespace PageTableEntry

/-- `entry.flags().contains(flags)` -/
def contains (e flags : Word) : Bool := e &&& flags = flags

/-- `entry.is_unused()`: the whole word is zero. -/
def isUnused (e : Word) : Bool := e = 0

/-- The frame that `entry.addr()` is the start of (bits 12 to 51). -/
def addrFrame (e : Word) : PhysFrame :=
  ⟨e.toNat / 4096 % 0x10000000000, Nat.mod_lt _ (by decide)⟩

/-- `FrameError` -/
inductive FrameError
  | frameNotPresent
  | hugeFrame
  deriving DecidableEq, Repr

/-- `entry.frame()` -/
def frame (e : Word) : Except FrameError PhysFrame :=
  if !contains e PageTableFlags.present then .error .frameNotPresent
  else if contains e PageTableFlags.hugePage then .error .hugeFrame
  else .ok (addrFrame e)

/-- `entry.set_frame(frame, flags)` -/
def setFrame (f : PhysFrame) (flags : Word) : Word := BitVec.ofNat 64 (f.val * 4096) ||| flags

/-- The present bit. -/
def present (e : Word) : Bool := e.getLsbD 0

/-- The writable bit. -/
def writable (e : Word) : Bool := e.getLsbD 1

/-- The user-accessible bit. -/
def user (e : Word) : Bool := e.getLsbD 2

/-- The huge-page bit. -/
def huge (e : Word) : Bool := e.getLsbD 7

/-- An entry contains the flags whose bits it has. -/
theorem contains_iff {e flags : Word} :
    contains e flags = true ↔ ∀ i, flags.getLsbD i = true → e.getLsbD i = true := by
  rw [contains, decide_eq_true_iff]
  constructor
  · intro h i hi
    rw [← h, BitVec.getLsbD_and, Bool.and_eq_true] at hi
    exact hi.1
  · intro h
    apply BitVec.eq_of_getLsbD_eq
    intro i _
    rw [BitVec.getLsbD_and]
    cases hf : flags.getLsbD i with
    | false => rw [Bool.and_false]
    | true => rw [h i hf, Bool.and_true]

/-- A flag set whose only bits are the listed ones. -/
theorem contains_iff_of_bits {e flags : Word} (bits : List ℕ)
    (hbits : ∀ i < 64, flags.getLsbD i = true ↔ i ∈ bits) (hlt : ∀ i ∈ bits, i < 64) :
    contains e flags = true ↔ ∀ i ∈ bits, e.getLsbD i = true := by
  rw [contains_iff]
  constructor
  · intro h i hi
    exact h i ((hbits i (hlt i hi)).2 hi)
  · intro h i hi
    have hi64 : i < 64 := BitVec.lt_of_getLsbD hi
    exact h i ((hbits i hi64).1 hi)

theorem contains_present {e : Word} : contains e PageTableFlags.present = present e := by
  rw [Bool.eq_iff_iff, contains_iff_of_bits [0] (by decide) (by decide)]
  simp [present]

theorem contains_hugePage {e : Word} : contains e PageTableFlags.hugePage = huge e := by
  rw [Bool.eq_iff_iff, contains_iff_of_bits [7] (by decide) (by decide)]
  simp [huge]

/-- `entry.frame()` succeeds on present entries that are no huge pages. -/
theorem frame_eq_ok {e : Word} {f : PhysFrame} :
    frame e = .ok f ↔ present e = true ∧ huge e = false ∧ addrFrame e = f := by
  rw [frame, contains_present, contains_hugePage]
  cases present e <;> cases huge e <;> simp

theorem isUnused_iff {e : Word} : isUnused e = true ↔ e = 0 := by
  rw [isUnused, decide_eq_true_iff]

theorem isUnused_eq_false {e : Word} : isUnused e = false ↔ e ≠ 0 := by
  rw [isUnused, decide_eq_false_iff_not]

/-- Where `map_to` goes on through an entry: to the table it names, if it is in use and no
huge page. -/
def next (e : Word) : Option PhysFrame :=
  if isUnused e || huge e then none else some (addrFrame e)

/-- Where the processor goes on through an entry. -/
def follow (e : Word) : Option PhysFrame :=
  if present e && !huge e then some (addrFrame e) else none

/-- The mapper goes on through an entry that is in use and maps no huge page. -/
theorem next_eq_some {e : Word} {f : PhysFrame} :
    next e = some f ↔ e ≠ 0 ∧ huge e = false ∧ addrFrame e = f := by
  rw [next, ← isUnused_eq_false]
  cases isUnused e <;> cases huge e <;> simp

theorem next_zero : next 0 = none := by decide

/-- The processor goes on through an entry that is present and maps no huge page. -/
theorem follow_eq_some {e : Word} {f : PhysFrame} :
    follow e = some f ↔ present e = true ∧ huge e = false ∧ addrFrame e = f := by
  rw [follow]
  cases present e <;> cases huge e <;> simp

theorem follow_zero : follow 0 = none := by decide

theorem ne_zero_of_present {e : Word} (h : present e = true) : e ≠ 0 := by
  rintro rfl
  exact absurd h (by decide)

/-- The processor follows only entries that `map_to` follows too. -/
theorem next_of_follow {e : Word} {f : PhysFrame} (h : follow e = some f) : next e = some f := by
  obtain ⟨hp, hh, hf⟩ := follow_eq_some.1 h
  exact next_eq_some.2 ⟨ne_zero_of_present hp, hh, hf⟩

/-! ## Writing entries

`map_to` writes entries with no flags but `PRESENT`, `WRITABLE` and `USER_ACCESSIBLE`: the
lowest three bits. -/

/-- `PRESENT` with or without `WRITABLE` and `USER_ACCESSIBLE`. -/
def Plain (flags : Word) : Prop := flags.toNat < 8 ∧ present flags = true

instance (flags : Word) : Decidable (Plain flags) := by
  unfold Plain
  infer_instance

theorem huge_eq_false_of_lt {flags : Word} (h : flags.toNat < 8) : huge flags = false := by
  rw [huge, BitVec.getLsbD]
  exact Nat.testBit_lt_two_pow (lt_of_lt_of_le h (by norm_num))

/-- Adding low flags leaves the address alone. -/
theorem addrFrame_or {e flags : Word} (h : flags.toNat < 8) :
    addrFrame (e ||| flags) = addrFrame e := by
  apply Fin.ext
  show (e ||| flags).toNat / 4096 % _ = e.toNat / 4096 % _
  have hdiv : (e.toNat ||| flags.toNat) / 2 ^ 12 = e.toNat / 2 ^ 12 := by
    rw [Nat.or_div_two_pow, Nat.div_eq_of_lt (by omega : flags.toNat < 2 ^ 12), Nat.or_zero]
  rw [BitVec.toNat_or]
  exact congrArg (· % 0x10000000000) hdiv

/-- Adding low flags does not make a page huge. -/
theorem huge_or {e flags : Word} (h : flags.toNat < 8) : huge (e ||| flags) = huge e := by
  have hf := huge_eq_false_of_lt h
  rw [huge] at hf ⊢
  rw [BitVec.getLsbD_or, hf, Bool.or_false, huge]

theorem present_or {e flags : Word} : present (e ||| flags) = (present e || present flags) :=
  BitVec.getLsbD_or

theorem or_ne_zero {e flags : Word} (h : e ≠ 0) : e ||| flags ≠ 0 :=
  fun hc => h (BitVec.or_eq_zero_iff.1 hc).1

/-- The word of a frame address alone. -/
theorem toNat_frameWord (f : PhysFrame) :
    (BitVec.ofNat 64 (f.val * 4096)).toNat = f.val * 4096 := by
  rw [BitVec.toNat_ofNat, Nat.mod_eq_of_lt]
  have := f.isLt
  omega

/-- An entry leads to the frame that it has been set to. -/
theorem addrFrame_setFrame {f : PhysFrame} {flags : Word} (h : flags.toNat < 8) :
    addrFrame (setFrame f flags) = f := by
  rw [setFrame, addrFrame_or h]
  apply Fin.ext
  show (BitVec.ofNat 64 (f.val * 4096)).toNat / 4096 % 0x10000000000 = f.val
  rw [toNat_frameWord]
  have := f.isLt
  omega

theorem huge_setFrame {f : PhysFrame} {flags : Word} (h : flags.toNat < 8) :
    huge (setFrame f flags) = false := by
  rw [setFrame, huge_or h, huge, BitVec.getLsbD, toNat_frameWord, Nat.testBit_eq_decide_div_mod_eq]
  simp only [decide_eq_false_iff_not]
  omega

theorem present_setFrame {f : PhysFrame} {flags : Word} (h : Plain flags) :
    present (setFrame f flags) = true := by
  rw [setFrame, present_or, h.2, Bool.or_true]

theorem next_setFrame {f : PhysFrame} {flags : Word} (h : Plain flags) :
    next (setFrame f flags) = some f :=
  next_eq_some.2 ⟨ne_zero_of_present (present_setFrame h), huge_setFrame h.1,
    addrFrame_setFrame h.1⟩

/-- The processor follows an entry that has been set with plain flags. -/
theorem follow_setFrame {f : PhysFrame} {flags : Word} (h : Plain flags) :
    follow (setFrame f flags) = some f :=
  follow_eq_some.2 ⟨present_setFrame h, huge_setFrame h.1, addrFrame_setFrame h.1⟩

/-- Adding flags to an entry in use changes nothing for `map_to`. -/
theorem next_or {e flags : Word} (he : e ≠ 0) (h : flags.toNat < 8) :
    next (e ||| flags) = next e := by
  rw [next, next, huge_or h, addrFrame_or h, isUnused_eq_false.2 he,
    isUnused_eq_false.2 (or_ne_zero he)]

/-- **How entries may change** while their table stays in use: an unused entry may be filled,
an entry in use may get more flags. -/
def Grows (e e' : Word) : Prop := e = 0 ∨ ∃ flags : Word, flags.toNat < 8 ∧ e' = e ||| flags

theorem Grows.refl (e : Word) : Grows e e := Or.inr ⟨0, by decide, by simp⟩

theorem Grows.ne_zero {e e' : Word} (h : Grows e e') (he : e ≠ 0) : e' ≠ 0 := by
  rcases h with rfl | ⟨flags, -, rfl⟩
  · exact absurd rfl he
  · exact or_ne_zero he

/-- An entry that grows twice has grown: it was unused, or the flags add up. -/
theorem Grows.trans {e e' e'' : Word} (h : Grows e e') (h' : Grows e' e'') : Grows e e'' := by
  by_cases he : e = 0
  · exact Or.inl he
  · rcases h' with h0 | ⟨flags', hlt', rfl⟩
    · exact absurd h0 (h.ne_zero he)
    · rcases h with h0 | ⟨flags, hlt, rfl⟩
      · exact absurd h0 he
      · refine Or.inr ⟨flags ||| flags', ?_, BitVec.or_assoc _ _ _⟩
        rw [BitVec.toNat_or]
        exact Nat.or_lt_two_pow (n := 3) hlt hlt'

/-- The mapper finds the same frame behind an entry that has grown. -/
theorem Grows.next {e e' : Word} {f : PhysFrame} (h : Grows e e')
    (he : PageTableEntry.next e = some f) : PageTableEntry.next e' = some f := by
  rcases h with rfl | ⟨flags, hlt, rfl⟩
  · rw [next_zero] at he
    cases he
  · rw [next_or (next_eq_some.1 he).1 hlt]
    exact he

/-- An entry in use leads where it led. -/
theorem Grows.next_eq {e e' : Word} (h : Grows e e') (he : e ≠ 0) :
    PageTableEntry.next e' = PageTableEntry.next e := by
  rcases h with h0 | ⟨flags, hlt, rfl⟩
  · exact absurd h0 he
  · exact next_or he hlt

theorem Grows.present {e e' : Word} (h : Grows e e') (he : PageTableEntry.present e = true) :
    PageTableEntry.present e' = true := by
  rcases h with rfl | ⟨flags, -, rfl⟩
  · exact absurd he (by decide)
  · rw [present_or, he, Bool.true_or]

/-- And so does the processor. -/
theorem Grows.follow {e e' : Word} {f : PhysFrame} (h : Grows e e')
    (he : PageTableEntry.follow e = some f) : PageTableEntry.follow e' = some f := by
  rcases h with rfl | ⟨flags, hlt, rfl⟩
  · rw [follow_zero] at he
    cases he
  · obtain ⟨hp, hh, hf⟩ := follow_eq_some.1 he
    refine follow_eq_some.2 ⟨?_, ?_, ?_⟩
    · rw [present_or, hp, Bool.true_or]
    · rw [huge_or hlt, hh]
    · rw [addrFrame_or hlt, hf]

end PageTableEntry

/-! ## The processor's walk -/

/-- `translate_page`, and the processor's own walk over 4 KiB pages: the frame a page is mapped
to. -/
def translatePage (mem : PhysMem) (l4 : PhysFrame) (page : Page) : Option PhysFrame :=
  RadixHeap.walk PageTableEntry.follow mem l4 page.path

/-! ## Bytes of a frame -/

/-- The bytes of a word, least significant first. -/
def byteOfWord (w : Word) (j : Fin 8) : Byte := w.extractLsb' (8 * j.val) 8

/-- A word from its bytes, least significant first. -/
def wordOfBytes (b : Fin 8 → Byte) : Word :=
  BitVec.ofFnLE fun i : Fin 64 => (b ⟨i.val / 8, by omega⟩).getLsbD (i.val % 8)

/-- A word put together from bytes has these bytes. -/
theorem byteOfWord_wordOfBytes (b : Fin 8 → Byte) (j : Fin 8) :
    byteOfWord (wordOfBytes b) j = b j := by
  apply BitVec.eq_of_getLsbD_eq
  intro i hi
  have hlt : 8 * j.val + i < 64 := by omega
  have hdiv : (8 * j.val + i) / 8 = j.val := by omega
  have hmod : (8 * j.val + i) % 8 = i := by omega
  rw [byteOfWord, BitVec.getLsbD_extractLsb', wordOfBytes, BitVec.getLsbD_ofFnLE, dif_pos hlt]
  simp [hdiv, hmod, hi]

/-- Byte `k` of a frame. -/
def byteAt (mem : PhysMem) (f : PhysFrame) (k : Fin 4096) : Byte :=
  byteOfWord (mem f ⟨k.val / 8, by omega⟩) ⟨k.val % 8, by omega⟩

/-- The byte at a virtual address, if its page is mapped. -/
def readByte (mem : PhysMem) (l4 : PhysFrame) (v : VirtAddr) : Option Byte :=
  (translatePage mem l4 (Page.containing v)).map fun f => byteAt mem f v.pageOffset

namespace PhysMem

/-- Write one word. -/
def setEntry (mem : PhysMem) (t : PhysFrame) (i : Fin 512) (e : Word) : PhysMem :=
  Function.update mem t (Function.update (mem t) i e)

/-- `write_bytes(dst, 0, PAGE_SIZE)`, and what `PageTable::zero` and writing `PageTable::new()`
do to a table. -/
def zeroFrame (mem : PhysMem) (f : PhysFrame) : PhysMem :=
  Function.update mem f fun _ => 0

/-- `copy_nonoverlapping(bytes, dst, bytes.len())` to the start of a frame. -/
def writeBytes (mem : PhysMem) (f : PhysFrame) (bytes : List Byte) : PhysMem :=
  Function.update mem f fun i => wordOfBytes fun j =>
    (bytes[8 * i.val + j.val]?).getD (byteAt mem f ⟨8 * i.val + j.val, by omega⟩)

/-- Writing an entry changes that entry and no other. -/
theorem setEntry_apply (mem : PhysMem) (t : PhysFrame) (i : Fin 512) (e : Word) (x : PhysFrame)
    (j : Fin 512) : mem.setEntry t i e x j = if x = t ∧ j = i then e else mem x j := by
  by_cases hx : x = t
  · subst hx
    by_cases hj : j = i
    · subst hj
      simp [setEntry]
    · simp [setEntry, hj]
  · simp [setEntry, hx]

theorem setEntry_self (mem : PhysMem) (t : PhysFrame) (i : Fin 512) (e : Word) :
    mem.setEntry t i e t i = e := by
  rw [setEntry_apply, if_pos ⟨rfl, rfl⟩]

theorem setEntry_of_ne {mem : PhysMem} {t x : PhysFrame} {i : Fin 512} {e : Word} (h : x ≠ t) :
    mem.setEntry t i e x = mem x :=
  Function.update_of_ne h _ _

theorem zeroFrame_self (mem : PhysMem) (f : PhysFrame) (j : Fin 512) : mem.zeroFrame f f j = 0 := by
  rw [zeroFrame, Function.update_self]

theorem zeroFrame_of_ne {mem : PhysMem} {f x : PhysFrame} (h : x ≠ f) :
    mem.zeroFrame f x = mem x :=
  Function.update_of_ne h _ _

theorem writeBytes_of_ne {mem : PhysMem} {f x : PhysFrame} {bytes : List Byte} (h : x ≠ f) :
    mem.writeBytes f bytes x = mem x :=
  Function.update_of_ne h _ _

theorem writeBytes_zeroFrame_of_ne {mem : PhysMem} {f x : PhysFrame} {bytes : List Byte}
    (h : x ≠ f) : (mem.zeroFrame f).writeBytes f bytes x = mem x := by
  rw [writeBytes_of_ne h, zeroFrame_of_ne h]

end PhysMem

/-- Copied bytes read back; the rest of the frame keeps its bytes. -/
theorem byteAt_writeBytes (mem : PhysMem) (f : PhysFrame) (bytes : List Byte) (k : Fin 4096) :
    byteAt (mem.writeBytes f bytes) f k = (bytes[k.val]?).getD (byteAt mem f k) := by
  have hk : 8 * (k.val / 8) + k.val % 8 = k.val := by omega
  rw [byteAt, PhysMem.writeBytes, Function.update_self, byteOfWord_wordOfBytes]
  simp only [hk]

theorem byteAt_zeroFrame (mem : PhysMem) (f : PhysFrame) (k : Fin 4096) :
    byteAt (mem.zeroFrame f) f k = 0 := by
  rw [byteAt, PhysMem.zeroFrame, Function.update_self, byteOfWord]
  exact BitVec.extractLsb'_zero ..

theorem wordOfBytes_zero : wordOfBytes (fun _ => 0) = 0 := by
  apply BitVec.eq_of_getLsbD_eq
  intro i hi
  rw [wordOfBytes, BitVec.getLsbD_ofFnLE, dif_pos hi]
  simp

/-- Copying nothing into a zeroed frame leaves it zeroed. -/
theorem zeroFrame_writeBytes_nil (mem : PhysMem) (f : PhysFrame) :
    (mem.zeroFrame f).writeBytes f [] = mem.zeroFrame f := by
  rw [PhysMem.writeBytes]
  simp only [List.getElem?_nil, Option.getD_none, byteAt_zeroFrame, wordOfBytes_zero]
  rw [PhysMem.zeroFrame, Function.update_idem]

/-! ## Memory from a list of words -/

/-- Memory with the given words, and zeros elsewhere. -/
def memoryOf (entries : List (PhysFrame × Fin 512 × Word)) : PhysMem := fun t i =>
  ((entries.find? fun e => e.1 = t ∧ e.2.1 = i).map fun e => e.2.2).getD 0

/-- An entry in use is one of those listed. -/
theorem mem_of_memoryOf_ne_zero {entries : List (PhysFrame × Fin 512 × Word)} {t : PhysFrame}
    {i : Fin 512} (h : memoryOf entries t i ≠ 0) : (t, i, memoryOf entries t i) ∈ entries := by
  rw [memoryOf] at h ⊢
  cases he : entries.find? fun e => e.1 = t ∧ e.2.1 = i with
  | none =>
    rw [he] at h
    exact absurd rfl h
  | some e =>
    have hkey := List.find?_some he
    rw [decide_eq_true_iff] at hkey
    obtain ⟨rfl, rfl⟩ := hkey
    exact List.mem_of_find?_eq_some he

/-- Tables whose entries lead to ever higher frames, and none to the root, form a tree. -/
theorem treeTo_memoryOf {next : Word → Option PhysFrame} (hzero : next 0 = none)
    {entries : List (PhysFrame × Fin 512 × Word)} {r : PhysFrame} {d : ℕ}
    (hchain : (entries.map fun e => ((next e.2.2).map Fin.val).getD 0).IsChain (· < ·))
    (hroot : some r ∉ entries.map fun e => next e.2.2) :
    RadixHeap.TreeTo next (memoryOf entries) r d := by
  have hmem : ∀ {t c : PhysFrame} {i : Fin 512}, next (memoryOf entries t i) = some c →
      (t, i, memoryOf entries t i) ∈ entries := by
    intro t c i h
    refine mem_of_memoryOf_ne_zero ?_
    intro h0
    rw [h0, hzero] at h
    cases h
  refine RadixHeap.treeTo_of_parents ?_ ?_
  · intro x j x' j' y h h'
    have hinj := (List.isChain_iff_pairwise.1 hchain).imp fun h => Nat.ne_of_lt h
    have heq := List.inj_on_of_nodup_map hinj (hmem h) (hmem h') (by rw [h, h'])
    exact ⟨congrArg Prod.fst heq, congrArg (fun l => l.2.1) heq⟩
  · intro x j h
    exact hroot (List.mem_map.2 ⟨_, hmem h, h⟩)
