/-
# Validated access to a caller's memory

`user_range_ok` (syscall.rs) with what it calls, `user_range_mapped` and
`page_accessible` (memory.rs).  Every system call that takes a pointer passes it
through this check before the kernel touches the memory behind it.

`user_range_ok_exact` says that the check is exact: it accepts a range if and only
if the processor, at CPL 3, would allow the access to every byte of it.  The two
places where addresses jump need care.  `VirtAddr::try_new` moves a pointer with
only bit 47 set into the upper half, and a range that runs past the lower half
continues, after `VirtAddr::new`, at the bottom of the upper half; in both cases the
page that is checked is one that no user program can reach.
-/
import Velora.PageTable

/-! ## The code -/

/-- The flags that `page_accessible` requires at every level. -/
def requiredFlags (needWrite : Bool) : Word :=
  let required := PageTableFlags.present ||| PageTableFlags.userAccessible
  if needWrite then required ||| PageTableFlags.writable else required

/-- The loop of `page_accessible` over the four table indices. -/
def walkAccessible (mem : PhysMem) (needWrite : Bool) : PhysFrame → List (Fin 512) → Bool
  | _, [] => true
  | t, i :: path =>
    if !PageTableEntry.contains (mem t i) (requiredFlags needWrite) then false
    else match PageTableEntry.frame (mem t i) with
      | .ok f => walkAccessible mem needWrite f path
      | .error .frameNotPresent => false
      | .error .hugeFrame => false

/-- `page_accessible`; `cr3` is the active level-4 table. -/
def pageAccessible (mem : PhysMem) (cr3 : PhysFrame) (addr : VirtAddr) (needWrite : Bool) : Bool :=
  walkAccessible mem needWrite cr3 [addr.p4Index, addr.p3Index, addr.p2Index, addr.p1Index]

/-- The addresses above a page. -/
def Page.above (page : Page) : ℕ := 0x10000000000000000 - page.start.val

/-- The next page is at a higher address. -/
theorem Page.above_lt_of_add_one {page next : Page} (h : page.add 1 = .ok next) :
    next.above < page.above := by
  rw [Page.add, if_pos (by norm_num), VirtAddr.add] at h
  split_ifs at h with hlt
  · unfold VirtAddr.new at h
    cases hv : VirtAddr.tryNew (page.start.val + 1 * 4096) with
    | none => rw [hv] at h; cases h
    | some v =>
      rw [hv] at h
      cases h
      have hval := VirtAddr.tryNew_eq_some hv
      have hal := page.aligned
      unfold above
      rw [containing_val]
      omega
  · cases h

-- The well-founded recursion unfolds addresses of 64 bits.
set_option maxRecDepth 10000 in
/-- The loop of `user_range_mapped`. -/
def userRangeLoop (mem : PhysMem) (cr3 : PhysFrame) (needWrite : Bool) (lastPage page : Page) :
    Except Panic Bool :=
  if !pageAccessible mem cr3 page.start needWrite then .ok false
  else if page = lastPage then .ok true
  else match _h : page.add 1 with
    | .error p => .error p
    | .ok next => userRangeLoop mem cr3 needWrite lastPage next
termination_by page.above
decreasing_by exact Page.above_lt_of_add_one _h

/-- `user_range_mapped` -/
def userRangeMapped (mem : PhysMem) (cr3 : PhysFrame) (addr : VirtAddr) (len : ℕ)
    (needWrite : Bool) : Except Panic Bool :=
  if len = 0 then .ok true
  else match checkedAdd addr.val (len - 1) with
    | none => .ok false
    | some lastByte => do
      let firstPage := Page.containing addr
      let lastPage := Page.containing (← VirtAddr.new lastByte)
      userRangeLoop mem cr3 needWrite lastPage firstPage

/-- `user_range_ok` -/
def userRangeOk (mem : PhysMem) (cr3 : PhysFrame) (ptr len : ℕ) (needWrite : Bool) :
    Except Panic Bool :=
  if ptr = 0 then .ok false
  else match VirtAddr.tryNew ptr with
    | some addr => userRangeMapped mem cr3 addr len needWrite
    | none => .ok false

/-! ## What the processor allows -/

/-- An entry that lets CPL 3 through: present, user-accessible, writable if the access is a
write, and no huge page. -/
def Grants (needWrite : Bool) (e : Word) : Prop :=
  PageTableEntry.present e = true ∧ PageTableEntry.user e = true ∧
    (needWrite = true → PageTableEntry.writable e = true) ∧ PageTableEntry.huge e = false

/-- Every entry on the way lets CPL 3 through. -/
def UserWalk (mem : PhysMem) (needWrite : Bool) : PhysFrame → List (Fin 512) → Prop
  | _, [] => True
  | t, i :: path =>
    Grants needWrite (mem t i) ∧ UserWalk mem needWrite (PageTableEntry.addrFrame (mem t i)) path

/-- CPL 3 may read (or write) the byte at address `a`: it lies in the lower half, and all four
entries on the way to its page allow it. -/
def UserMay (mem : PhysMem) (cr3 : PhysFrame) (needWrite : Bool) (a : ℕ) : Prop :=
  ∃ h : a < 0x800000000000,
    UserWalk mem needWrite cr3 (Page.containing ⟨a, VirtAddr.canonical_of_lower h⟩).path

/-! ## One page -/

/-- The flags `page_accessible` looks for are the bits that let CPL 3 through. -/
theorem contains_requiredFlags {e : Word} {needWrite : Bool} :
    PageTableEntry.contains e (requiredFlags needWrite) = true ↔
      PageTableEntry.present e = true ∧ PageTableEntry.user e = true ∧
        (needWrite = true → PageTableEntry.writable e = true) := by
  cases needWrite with
  | false =>
    rw [PageTableEntry.contains_iff_of_bits [0, 2] (by decide) (by decide)]
    simp [PageTableEntry.present, PageTableEntry.user]
  | true =>
    rw [PageTableEntry.contains_iff_of_bits [0, 1, 2] (by decide) (by decide)]
    simp only [List.mem_cons, List.not_mem_nil, or_false, forall_eq_or_imp, forall_eq,
      PageTableEntry.present, PageTableEntry.user, PageTableEntry.writable, forall_const]
    tauto

/-- `page_accessible` follows exactly the walks that let CPL 3 through. -/
theorem walkAccessible_iff {mem : PhysMem} {needWrite : Bool} {t : PhysFrame}
    {path : List (Fin 512)} :
    walkAccessible mem needWrite t path = true ↔ UserWalk mem needWrite t path := by
  induction path generalizing t with
  | nil => simp [walkAccessible, UserWalk]
  | cons i path ih =>
    rw [walkAccessible, UserWalk, Grants]
    by_cases hreq : PageTableEntry.contains (mem t i) (requiredFlags needWrite) = true
    · obtain ⟨hp, hu, hw⟩ := contains_requiredFlags.1 hreq
      cases hhuge : PageTableEntry.huge (mem t i) with
      | false =>
        rw [PageTableEntry.frame_eq_ok.2 ⟨hp, hhuge, rfl⟩]
        simp only [hreq, hp, hu, ih, Bool.not_true, Bool.false_eq_true, if_false, true_and,
          and_true]
        exact ⟨fun h => ⟨hw, h⟩, fun h => h.2⟩
      | true =>
        have hframe : PageTableEntry.frame (mem t i) = .error .hugeFrame := by
          rw [PageTableEntry.frame, PageTableEntry.contains_present,
            PageTableEntry.contains_hugePage, hp, hhuge]
          rfl
        rw [hframe]
        simp
    · have hnot : ¬ (PageTableEntry.present (mem t i) = true ∧
          PageTableEntry.user (mem t i) = true ∧
          (needWrite = true → PageTableEntry.writable (mem t i) = true)) :=
        fun h => hreq (contains_requiredFlags.2 h)
      simp only [hreq]
      simp only [Bool.not_false, if_true, Bool.false_eq_true, false_iff]
      tauto

theorem pageAccessible_iff {mem : PhysMem} {cr3 : PhysFrame} {needWrite : Bool} {page : Page} :
    pageAccessible mem cr3 page.start needWrite = true ↔ UserWalk mem needWrite cr3 page.path :=
  walkAccessible_iff

/-- A walk that allows writing allows reading. -/
theorem UserWalk.read {mem : PhysMem} {needWrite : Bool} {t : PhysFrame} {path : List (Fin 512)}
    (h : UserWalk mem needWrite t path) : UserWalk mem false t path := by
  induction path generalizing t with
  | nil => trivial
  | cons i path ih =>
    obtain ⟨⟨hp, hu, -, hh⟩, hrest⟩ := h
    exact ⟨⟨hp, hu, (fun hc => by cases hc), hh⟩, ih hrest⟩

/-- What CPL 3 may touch is mapped. -/
theorem UserWalk.mapped {mem : PhysMem} {needWrite : Bool} {t : PhysFrame}
    {path : List (Fin 512)} (h : UserWalk mem needWrite t path) :
    (RadixHeap.walk PageTableEntry.follow mem t path).isSome = true := by
  induction path generalizing t with
  | nil => rfl
  | cons i path ih =>
    obtain ⟨⟨hp, -, -, hh⟩, hrest⟩ := h
    rw [RadixHeap.walk_cons, PageTableEntry.follow_eq_some.2 ⟨hp, hh, rfl⟩]
    exact ih hrest

/-- Reading a byte that CPL 3 may touch does not fault. -/
theorem UserMay.mapped {mem : PhysMem} {cr3 : PhysFrame} {needWrite : Bool} {a : ℕ}
    (h : UserMay mem cr3 needWrite a) :
    ∃ hlow : a < 0x800000000000, (readByte mem cr3 ⟨a, Or.inl hlow⟩).isSome = true := by
  obtain ⟨hlow, hw⟩ := h
  refine ⟨hlow, ?_⟩
  rw [readByte, Option.isSome_map]
  exact hw.mapped

/-! ## The loop over the pages -/

section Loop

variable {mem : PhysMem} {cr3 : PhysFrame} {needWrite : Bool}

theorem userRangeLoop_of_denied {lastPage page : Page}
    (h : pageAccessible mem cr3 page.start needWrite = false) :
    userRangeLoop mem cr3 needWrite lastPage page = .ok false := by
  rw [userRangeLoop, h]
  rfl

theorem userRangeLoop_self (page : Page) :
    userRangeLoop mem cr3 needWrite page page =
      .ok (pageAccessible mem cr3 page.start needWrite) := by
  rw [userRangeLoop]
  cases pageAccessible mem cr3 page.start needWrite <;> simp

/-- A range of two pages is accepted when both are. -/
theorem userRangeLoop_next {lastPage page : Page} (hne : page ≠ lastPage)
    (hnext : page.add 1 = .ok lastPage) :
    userRangeLoop mem cr3 needWrite lastPage page =
      .ok (pageAccessible mem cr3 page.start needWrite &&
        pageAccessible mem cr3 lastPage.start needWrite) := by
  rw [userRangeLoop]
  cases hacc : pageAccessible mem cr3 page.start needWrite with
  | false => rfl
  | true =>
    simp only [Bool.not_true, Bool.false_eq_true, if_false, if_neg hne, Bool.true_and]
    split
    · next p hp => rw [hnext] at hp; cases hp
    · next q hq =>
      rw [hnext] at hq
      cases hq
      exact userRangeLoop_self lastPage

end Loop

/-! ## The whole check -/

/-- A page of the upper half is under one of the upper 256 entries of the level-4 table. -/
theorem Page.p4Index_of_upper {page : Page} (h : 0xffff800000000000 ≤ page.start.val) :
    256 ≤ (page.start.p4Index : ℕ) := by
  have hlt := page.start.lt_u64
  show 256 ≤ page.start.val / 0x8000000000 % 512
  omega

section Exact

variable {mem : PhysMem} {cr3 : PhysFrame} {needWrite : Bool}

/-- Where the upper half is not the user's, its pages are denied. -/
theorem pageAccessible_of_upper
    (hupper : ∀ page : Page, 256 ≤ (page.start.p4Index : ℕ) → ¬ UserWalk mem false cr3 page.path)
    {page : Page} (h : 0xffff800000000000 ≤ page.start.val) :
    pageAccessible mem cr3 page.start needWrite = false := by
  rw [← Bool.not_eq_true, pageAccessible_iff]
  intro hw
  exact hupper page (Page.p4Index_of_upper h) hw.read

/-- A range that starts in the upper half is refused. -/
theorem userRangeMapped_of_upper
    (hupper : ∀ page : Page, 256 ≤ (page.start.p4Index : ℕ) → ¬ UserWalk mem false cr3 page.path)
    {addr : VirtAddr} (h : 0xffff800000000000 ≤ addr.val) {len : ℕ} (hlen : 1 ≤ len) :
    userRangeMapped mem cr3 addr len needWrite = .ok false := by
  rw [userRangeMapped, if_neg (by omega)]
  cases hadd : checkedAdd addr.val (len - 1) with
  | none => rfl
  | some lastByte =>
    rw [checkedAdd_eq_some] at hadd
    have hlast : 0xffff800000000000 ≤ lastByte ∧ lastByte < 0x10000000000000000 := by omega
    simp only [VirtAddr.new, VirtAddr.tryNew_of_upper hlast]
    refine userRangeLoop_of_denied (pageAccessible_of_upper hupper ?_)
    rw [Page.containing_val]
    omega

/-- A range inside the lower half covers one page or two, and is accepted when they are. -/
theorem userRangeMapped_of_lower {ptr len : ℕ} (hlen : 1 ≤ len ∧ len ≤ 1024)
    (h : ptr < 0x800000000000) (hlast : ptr + (len - 1) < 0x800000000000) :
    userRangeMapped mem cr3 ⟨ptr, Or.inl h⟩ len needWrite =
      .ok (pageAccessible mem cr3 (Page.containing ⟨ptr, Or.inl h⟩).start needWrite &&
        pageAccessible mem cr3 (Page.containing ⟨ptr + (len - 1), Or.inl hlast⟩).start
          needWrite) := by
  have hadd : checkedAdd ptr (len - 1) = some (ptr + (len - 1)) :=
    checkedAdd_eq_some.2 ⟨by omega, rfl⟩
  rw [userRangeMapped, if_neg (by omega)]
  simp only [hadd, VirtAddr.new, VirtAddr.tryNew_of_lower hlast]
  show userRangeLoop mem cr3 needWrite (Page.containing ⟨ptr + (len - 1), Or.inl hlast⟩)
    (Page.containing ⟨ptr, Or.inl h⟩) = _
  by_cases heq : Page.containing ⟨ptr, Or.inl h⟩ =
      Page.containing ⟨ptr + (len - 1), Or.inl hlast⟩
  · rw [heq, userRangeLoop_self, Bool.and_self]
  · refine userRangeLoop_next heq ?_
    have hdiff : (Page.containing ⟨ptr, Or.inl h⟩).start.val ≠
        (Page.containing ⟨ptr + (len - 1), Or.inl hlast⟩).start.val :=
      fun hc => heq (Page.ext (VirtAddr.ext hc))
    rw [Page.containing_val, Page.containing_val] at hdiff
    simp only at hdiff
    have hle : (Page.containing ⟨ptr, Or.inl h⟩).start.val + 1 * 4096 < 0x800000000000 := by
      rw [Page.containing_val]
      show ptr - ptr % 4096 + 1 * 4096 < _
      omega
    rw [Page.add_of_lower hle]
    congr 1
    apply Page.ext
    apply VirtAddr.ext
    show ptr - ptr % 4096 + 1 * 4096 = ptr + (len - 1) - (ptr + (len - 1)) % 4096
    omega

/-- A range that runs past the lower half continues at the bottom of the upper half, and is
refused there. -/
theorem userRangeMapped_of_crossing
    (hupper : ∀ page : Page, 256 ≤ (page.start.p4Index : ℕ) → ¬ UserWalk mem false cr3 page.path)
    {ptr len : ℕ} (hlen : 1 ≤ len ∧ len ≤ 1024) (h : ptr < 0x800000000000)
    (hlast : 0x800000000000 ≤ ptr + (len - 1)) :
    userRangeMapped mem cr3 ⟨ptr, Or.inl h⟩ len needWrite = .ok false := by
  have hadd : checkedAdd ptr (len - 1) = some (ptr + (len - 1)) :=
    checkedAdd_eq_some.2 ⟨by omega, rfl⟩
  have hlt : ptr + (len - 1) < 0x1000000000000 := by omega
  rw [userRangeMapped, if_neg (by omega)]
  simp only [hadd, VirtAddr.new, VirtAddr.tryNew_of_bit47 hlast hlt]
  show userRangeLoop mem cr3 needWrite (Page.containing _) (Page.containing ⟨ptr, Or.inl h⟩) = _
  have hfirst : (Page.containing ⟨ptr, Or.inl h⟩).start.val = 0x7ffffffff000 := by
    show ptr - ptr % 4096 = _
    omega
  have hsecond : (Page.containing ⟨ptr + (len - 1) + 0xffff000000000000,
      Or.inr (by omega)⟩).start.val = 0xffff800000000000 := by
    show ptr + (len - 1) + 0xffff000000000000 - (ptr + (len - 1) + 0xffff000000000000) % 4096 = _
    omega
  have hnext : (Page.containing ⟨ptr, Or.inl h⟩).add 1 =
      .ok (Page.containing ⟨ptr + (len - 1) + 0xffff000000000000, Or.inr (by omega)⟩) := by
    obtain ⟨q, hq, hval⟩ := Page.add_of_bit47 (p := Page.containing ⟨ptr, Or.inl h⟩) (n := 1)
      (by omega) (by omega)
    have hpage : q = Page.containing ⟨ptr + (len - 1) + 0xffff000000000000,
        Or.inr (by omega)⟩ := by
      apply Page.ext
      apply VirtAddr.ext
      rw [hsecond]
      omega
    rw [hq, hpage]
  rw [userRangeLoop_next ?_ hnext, pageAccessible_of_upper hupper hsecond.ge, Bool.and_false]
  intro hc
  rw [hc, hsecond] at hfirst
  omega

/-- The check returns, and says whether CPL 3 may access every byte of the range. -/
theorem userRangeOk_iff (needWrite : Bool)
    (hupper : ∀ page : Page, 256 ≤ (page.start.p4Index : ℕ) → ¬ UserWalk mem false cr3 page.path)
    {ptr len : ℕ} (hptr : ptr < 0x10000000000000000) (h0 : ptr ≠ 0)
    (hlen : 1 ≤ len ∧ len ≤ 1024) :
    ∃ b, userRangeOk mem cr3 ptr len needWrite = .ok b ∧
      (b = true ↔ ∀ k < len, UserMay mem cr3 needWrite (ptr + k)) := by
  rw [userRangeOk, if_neg h0]
  by_cases hlow : ptr < 0x800000000000
  · rw [VirtAddr.tryNew_of_lower hlow]
    by_cases hlast : ptr + (len - 1) < 0x800000000000
    · refine ⟨_, userRangeMapped_of_lower hlen hlow hlast, ?_⟩
      rw [Bool.and_eq_true, pageAccessible_iff, pageAccessible_iff]
      constructor
      · rintro ⟨hfirst, hsecond⟩ k hk
        have hklt : ptr + k < 0x800000000000 := by omega
        refine ⟨hklt, ?_⟩
        -- the byte is on the first page or on the last one
        by_cases hsame : (ptr + k) / 4096 = ptr / 4096
        · have hpage : Page.containing ⟨ptr + k, Or.inl hklt⟩ =
              Page.containing ⟨ptr, Or.inl hlow⟩ := Page.containing_eq_of_div hsame
          exact hpage ▸ hfirst
        · have hpage : Page.containing ⟨ptr + k, Or.inl hklt⟩ =
              Page.containing ⟨ptr + (len - 1), Or.inl hlast⟩ :=
            Page.containing_eq_of_div (show (ptr + k) / 4096 = (ptr + (len - 1)) / 4096 by omega)
          exact hpage ▸ hsecond
      · intro hall
        obtain ⟨_, hw⟩ := hall 0 (by omega)
        obtain ⟨_, hw'⟩ := hall (len - 1) (by omega)
        exact ⟨hw, hw'⟩
    · refine ⟨false, userRangeMapped_of_crossing hupper hlen hlow (by omega), ?_⟩
      simp only [Bool.false_eq_true, false_iff]
      intro hall
      obtain ⟨hlt, -⟩ := hall (len - 1) (by omega)
      omega
  · have hnot : ¬ ∀ k < len, UserMay mem cr3 needWrite (ptr + k) := by
      intro hall
      obtain ⟨hlt, -⟩ := hall 0 (by omega)
      omega
    refine ⟨false, ?_, by simpa using hnot⟩
    cases hv : VirtAddr.tryNew ptr with
    | none => rfl
    | some addr =>
      have hval := VirtAddr.tryNew_eq_some hv
      exact userRangeMapped_of_upper hupper (by omega) hlen.1

end Exact

/-- **User-pointer validation is exact.**  If no page of the upper half is the user's, then
for every pointer other than null and every length the system calls allow, `user_range_ok`
returns, and it returns `true` if and only if CPL 3 may access every byte of the range; the
copy that follows then finds every byte mapped. -/
theorem user_range_ok_exact (mem : PhysMem) (cr3 : PhysFrame) (ptr len : ℕ) (needWrite : Bool)
    (hupper : ∀ page : Page, 256 ≤ (page.start.p4Index : ℕ) → ¬ UserWalk mem false cr3 page.path)
    (hptr : ptr < 0x10000000000000000) (h0 : ptr ≠ 0)
    (hlen : 1 ≤ len ∧ len ≤ 1024) :
    ∃ b, userRangeOk mem cr3 ptr len needWrite = .ok b ∧
      (b = true ↔ ∀ k < len, UserMay mem cr3 needWrite (ptr + k)) ∧
      (b = true → ∀ k < len, ∃ h : ptr + k < 0x800000000000,
        (readByte mem cr3 ⟨ptr + k, Or.inl h⟩).isSome = true) := by
  obtain ⟨b, hb, hiff⟩ := userRangeOk_iff needWrite hupper hptr h0 hlen
  exact ⟨b, hb, hiff, fun h k hk => (hiff.1 h k hk).mapped⟩

/-- Tables with two neighbouring user pages, at `0x1000` and `0x2000`. -/
def twoUserPages : PhysMem := fun t i =>
  if t = 1 ∧ i = 0 then PageTableEntry.setFrame 2 7
  else if t = 2 ∧ i = 0 then PageTableEntry.setFrame 3 7
  else if t = 3 ∧ i = 0 then PageTableEntry.setFrame 4 7
  else if t = 4 ∧ i = 1 then PageTableEntry.setFrame 5 7
  else if t = 4 ∧ i = 2 then PageTableEntry.setFrame 6 7
  else 0

/-- They have no page in the upper half. -/
theorem twoUserPages_upper {page : Page} (h4 : 256 ≤ (page.start.p4Index : ℕ)) :
    ¬ UserWalk twoUserPages false 1 page.path := by
  rintro ⟨⟨hp, -⟩, -⟩
  have hne : page.start.p4Index ≠ 0 := by
    intro hc
    rw [hc] at h4
    exact absurd h4 (by decide)
  have hzero : twoUserPages 1 page.start.p4Index = 0 := by
    simp [twoUserPages, hne]
  rw [hzero] at hp
  exact absurd hp (by decide)

theorem user_range_ok_exact_twoUserPages :
    userRangeOk twoUserPages 1 0x1fff 2 true = .ok true := by
  obtain ⟨b, hb, hiff, -⟩ :=
    user_range_ok_exact twoUserPages 1 0x1fff 2 true (fun _ => twoUserPages_upper) (by norm_num)
      (by norm_num) (by norm_num)
  rw [hb, hiff.2]
  intro k hk
  interval_cases k
  · exact ⟨by norm_num, walkAccessible_iff.1 (by decide)⟩
  · exact ⟨by norm_num, walkAccessible_iff.1 (by decide)⟩
