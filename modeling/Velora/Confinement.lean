/-
# Confined address spaces

What the page tables of a space have to be like for a program to stay inside: the entries
that the space shares are exactly the kernel's, and the pages of the kernel stack that it
has borrowed are not the user's (`Confined`).  `map_to` with the flags that the kernel uses
keeps a space so, wherever it maps, because the borrowed pages are mapped already.

`Guarded` adds this to the account of all frames.  Every step keeps it (`Guarded.step`): a
step changes the spaces it is about, and of every other space it leaves even the contents
of the frames alone (`Books.step_spares`).
-/
import Velora.Lifecycle

/-! ## What a mapping leaves alone -/

section Tables

variable {σ : Type} {A : FrameAllocator σ} {S : A.Spec} {r : PhysFrame} {vis own : Fin 512 → Bool}
  {m m' : Machine σ}

/-- Entries of the level-4 table that are not looked at are not written. -/
theorem mapPath_hidden {flags : Word} {path : List (Fin 512)} {f : PhysFrame}
    (hs : Space S r vis own m) (hfl : PageTableEntry.Plain flags) (hlen : path.length = 4)
    (hvis : ∀ h ∈ path.head?, vis h = true) (hf : ¬ IsTable m.mem r vis f)
    (hfree : f ∉ S.free m.frames)
    (h : mapPath A flags (PageTableEntry.setFrame f flags) m r path = .ok m') :
    ∀ j, vis j = false → m'.mem r j = m.mem r j := by
  have hentry : ∀ {m₁ : Machine σ} {t : PhysFrame} {i j : Fin 512} (e : Word),
      (t = r → vis i = true) → vis j = false → m₁.mem.setEntry t i e r j = m₁.mem r j := by
    intro m₁ t i j e hvisible hj
    rw [PhysMem.setEntry_apply, if_neg]
    rintro ⟨rfl, rfl⟩
    rw [hvisible rfl] at hj
    cases hj
  refine mapPath_space_rule (J := fun m₁ _ _ => ∀ j, vis j = false → m₁.mem r j = m.mem r j)
    (Q := fun m₂ => ∀ j, vis j = false → m₂.mem r j = m.mem r j)
    hs hfl hlen hvis hf hfree (fun _ _ => rfl) ?_ ?_ ?_ h
  · rintro m₁ m₂ ρ t i c hw - - - hl hJ j hj
    have hrc : r ≠ c := by
      rintro rfl
      exact Linked.fresh hw.space hl [] (Nat.zero_le _) rfl
    rw [hl.other r j hrc, hJ j hj]
    rintro ⟨rfl, rfl⟩
    rw [hw.visible rfl] at hj
    cases hj
  · rintro m₁ m₂ ρ t i hw - - - rfl hJ j hj
    rw [Machine.write_mem, hentry _ hw.visible hj, hJ j hj]
  · rintro m₁ m₂ ρ t i hw - - - - rfl hJ j hj
    rw [Machine.write_mem, hentry _ hw.visible hj, hJ j hj]

/-- A walk that CPL 3 is let through, up to one of its entries. -/
theorem UserWalk.follow {mem : PhysMem} {needWrite : Bool} {ρ rest : List (Fin 512)} {j : Fin 512}
    (h : UserWalk mem needWrite r (ρ ++ j :: rest)) :
    ∃ t, RadixHeap.walk PageTableEntry.follow mem r ρ = some t ∧ Grants needWrite (mem t j) := by
  induction ρ generalizing r with
  | nil => exact ⟨r, rfl, h.1⟩
  | cons i ρ ih =>
    obtain ⟨⟨hp, -, -, hh⟩, hrest⟩ := h
    obtain ⟨t, ht, hgrants⟩ := ih hrest
    refine ⟨t, ?_, hgrants⟩
    rw [RadixHeap.walk_cons, PageTableEntry.follow_eq_some.2 ⟨hp, hh, rfl⟩]
    exact ht

/-- What CPL 3 may use is mapped. -/
theorem UserWalk.exists_frame {mem : PhysMem} {needWrite : Bool} {page : Page}
    (h : UserWalk mem needWrite r page.path) : ∃ f, translatePage mem r page = some f :=
  Option.isSome_iff_exists.1 h.mapped

/-- A frame that the processor finds on its way is a table. -/
theorem isTable_of_follow {mem : PhysMem} {ρ : List (Fin 512)} {x : PhysFrame} (hlen : ρ.length ≤ 3)
    (h : RadixHeap.walk PageTableEntry.follow mem r ρ = some x) : IsTable mem r allEntries x := by
  refine ⟨ρ, hlen, ?_⟩
  rw [tableWalk, view_allEntries]
  refine RadixHeap.walk_mono ?_ h
  intro ρ' j y z _ _ hz
  exact PageTableEntry.next_of_follow hz

/-- CPL 3 is let through the same way where the entries on the way are the same. -/
theorem UserWalk.congr {mem mem' : PhysMem} {needWrite : Bool} {path : List (Fin 512)}
    (h : UserWalk mem needWrite r path)
    (hentry : ∀ ρ j rest t, path = ρ ++ j :: rest →
      RadixHeap.walk PageTableEntry.follow mem r ρ = some t → mem' t j = mem t j) :
    UserWalk mem' needWrite r path := by
  induction path generalizing r with
  | nil => trivial
  | cons i path ih =>
    have hsame : mem' r i = mem r i := hentry [] i path r rfl rfl
    obtain ⟨hgrants, hrest⟩ := h
    refine ⟨by rw [hsame]; exact hgrants, ?_⟩
    rw [hsame]
    refine ih hrest ?_
    intro ρ j rest t hpath ht
    refine hentry (i :: ρ) j rest t (by rw [hpath, List.cons_append]) ?_
    rw [RadixHeap.walk_cons, PageTableEntry.follow_eq_some.2 ⟨hgrants.1, hgrants.2.2.2, rfl⟩]
    exact ht

end Tables

/-! ## Confined spaces -/

/-- The mappings in the lower half, outside the range that a space has borrowed. -/
def AddrSpace.outside (s : AddrSpace) : Set Mapping :=
  {p | inRange s.borrowed (rebuiltAddr p.1) = false ∧ ∀ i ∈ p.1.head?, (i : ℕ) < 256}

/-- **What keeps a program inside its space**: the entries that are shared are the kernel's, and
what ring 3 can use is in the lower half, and none of what is borrowed. -/
structure Confined (cr3 : PhysFrame) (off : Fin 512) (mem₀ mem : PhysMem) (s : AddrSpace) :
    Prop where
  shared : ∀ i, owned off i = false → mem s.l4 i = mem₀ cr3 i
  leaves : LeavesFrom mem s.l4 (owned off) s.outside

section Confined

variable {σ : Type} {A : FrameAllocator σ} {S : A.Spec} {cr3 : PhysFrame} {off : Fin 512}
  {mem₀ : PhysMem} {m m' : Machine σ} {s : AddrSpace} {page : Page} {f : PhysFrame} {flags : Word}

/-- Where the tables are not written to, a space stays confined. -/
theorem Confined.frame (h : Confined cr3 off mem₀ m.mem s)
    (hmem : ∀ x, IsTable m.mem s.l4 (owned off) x → m'.mem x = m.mem x) :
    Confined cr3 off mem₀ m'.mem s := by
  constructor
  · intro i hi
    rw [hmem s.l4 ⟨[], Nat.zero_le _, rfl⟩]
    exact h.shared i hi
  · intro ρ j t hρ ht hu
    rw [AddrSpace.tableWalk_frame hmem (by omega)] at ht
    rw [hmem t ⟨ρ, hρ.le, ht⟩] at hu ⊢
    exact h.leaves ρ j t hρ ht hu

/-- **Mapping a page**: for the kernel alone, or in the lower half outside what is borrowed. -/
theorem Confined.mapPath (h : Confined cr3 off mem₀ m.mem s) (horder : s.InOrder S off m)
    (hfl : PageTableEntry.Plain flags) (hown : owned off page.start.p4Index = true)
    (hf : ¬ IsTable m.mem s.l4 (owned off) f) (hfree : f ∉ S.free m.frames)
    (hout : PageTableEntry.user flags = true →
      inRange s.borrowed page.start.val = false ∧ (page.start.p4Index : ℕ) < 256)
    (hmap : mapPath A flags (PageTableEntry.setFrame f flags) m s.l4 page.path = .ok m') :
    Confined cr3 off mem₀ m'.mem s := by
  have hvis : ∀ i ∈ page.path.head?, owned off i = true := by
    intro i hi
    obtain rfl := Option.some.inj hi
    exact hown
  constructor
  · intro i hi
    rw [mapPath_hidden horder.space hfl rfl hvis hf hfree hmap i hi]
    exact h.shared i hi
  · intro ρ j t hρ ht hu
    obtain ⟨flags', hmem, huser, hwrite⟩ :=
      (mapPath_permissions horder.space hfl rfl hvis hf hfree h.leaves hmap).1 ρ j t hρ ht hu
    refine ⟨flags', ?_, huser, hwrite⟩
    rcases hmem with heq | hmem
    · obtain ⟨hpath, rfl⟩ := Prod.mk.inj heq
      obtain ⟨hrange, hlow⟩ := hout huser
      show inRange s.borrowed (rebuiltAddr (ρ ++ [j])) = false ∧ ∀ i ∈ (ρ ++ [j]).head?, _
      rw [hpath, inRange_rebuiltAddr horder.lower]
      refine ⟨hrange, fun i hi => ?_⟩
      obtain rfl := Option.some.inj hi
      exact hlow
    · exact hmem

/-- A page of the borrowed range is mapped, so `map_to` does not map it. -/
theorem AddrSpace.Filled.not_mappable {lent : Page → Option PhysFrame}
    (h : s.Filled lent off m.mem) (hmap : Mappable m.mem s.l4 (owned off) page.path) :
    inRange s.borrowed page.start.val = false := by
  by_contra hc
  obtain ⟨g, -, hg⟩ := h page (Bool.eq_true_of_not_eq_false hc)
  refine RadixHeap.not_holed_of_walk ?_ hg hmap
  rintro e rfl
  exact PageTableEntry.next_zero

/-- **Mapping a new page.** -/
theorem Confined.mapFreshPage {mapTo : MapTo σ} (hmap : MapTo.Documented A mapTo)
    (h : Confined cr3 off mem₀ m.mem s) (horder : s.InOrder S off m)
    {lent : Page → Option PhysFrame} (hfilled : s.Filled lent off m.mem) {noFrames failed : Panic}
    {fill : Fill} (hown : owned off page.start.p4Index = true)
    (hlow : (page.start.p4Index : ℕ) < 256) (hfl : PageTableEntry.Plain flags)
    (hr : mapFreshPage A mapTo noFrames failed s.l4 page flags fill m = .ok m') :
    Confined cr3 off mem₀ m'.mem s := by
  obtain ⟨⟨f, m₁⟩, ha, hr⟩ := bind_eq_ok hr
  obtain ⟨m₂, hto, hr⟩ := bind_eq_ok hr
  cases hr
  have ha := Option.expect_eq_ok ha
  have hto := expectOk_eq_ok hto
  rw [hmap _ _ _ _ _ hfl, documentedMapTo, plain_and hfl] at hto
  have hmem : m₁.mem = m.mem := (Machine.allocate_eq_some ha).2.1
  obtain ⟨hspace, -, hfree, hused, -⟩ := horder.space.allocate ha
  have hf : ¬ IsTable m₁.mem s.l4 (owned off) f := hmem ▸ horder.space.not_isTable hfree
  have hvis : ∀ i ∈ page.path.head?, owned off i = true := by
    intro i hi
    obtain rfl := Option.some.inj hi
    exact hown
  have hpage := mapPath_spec hspace hfl rfl hvis hf hused hto
  have horder₁ : s.InOrder S off m₁ := by
    refine (horder.frame (fun x _ => by rw [hmem]) hspace.valid ?_).1
    intro x hx
    exact hspace.used x (hmem ▸ hx)
  have hconf : Confined cr3 off mem₀ m₂.mem s := by
    refine Confined.mapPath (hmem ▸ h) horder₁ hfl hown hf hused (fun _ => ⟨?_, hlow⟩) hto
    exact hfilled.not_mappable (hmem ▸ hpage.mappable)
  have hother : ∀ x, IsTable m₂.mem s.l4 (owned off) x →
      (m₂.write (fill.write m₂.mem f)).mem x = m₂.mem x := by
    intro x hx
    refine fill.other m₂.mem f x ?_
    rintro rfl
    exact hpage.ext.not_isTable hf hused hx
  exact hconf.frame hother

/-- **A new space.** -/
theorem Confined.create {active l4 : PhysFrame} (hv : S.valid m.frames)
    (hactive : active ∉ S.free m.frames)
    (hshared : ∀ i, owned off i = false → m.mem active i = mem₀ cr3 i)
    (hnew : newAddressSpace A m active off = .ok (l4, m')) :
    Confined cr3 off mem₀ m'.mem ⟨l4, (0, 0)⟩ := by
  obtain ⟨-, hl4, -, hlone⟩ := newAddressSpace_own hv hactive (fun _ hi => Or.inl hi) hnew
  obtain ⟨-, -, -, -, hentries⟩ := newAddressSpace_eq_ok hnew
  constructor
  · intro i hi
    rw [hentries (fun hc => hactive (hc ▸ hl4)) i, hi, if_neg Bool.false_ne_true]
    exact hshared i hi
  · intro ρ j t hρ ht
    have hnil : ρ = [] := (hlone ρ t ht).1
    rw [hnil] at hρ
    cases hρ

/-- **A range is borrowed**, in which nothing is mapped yet. -/
theorem Confined.lend {l4 : PhysFrame} {borrowed : ℕ × ℕ}
    (h : Confined cr3 off mem₀ m.mem ⟨l4, (0, 0)⟩) (horder : AddrSpace.InOrder S off m ⟨l4, (0, 0)⟩)
    (hlow : borrowed.2 ≤ 0x800000000000)
    (hnone : ∀ page : Page, inRange borrowed page.start.val = true →
      tableWalk m.mem l4 (owned off) page.path = none) :
    Confined cr3 off mem₀ m.mem ⟨l4, borrowed⟩ := by
  refine ⟨h.shared, ?_⟩
  intro ρ j t hρ ht hu
  obtain ⟨flags, hout, hflags⟩ := h.leaves ρ j t hρ ht hu
  refine ⟨flags, ⟨?_, hout.2⟩, hflags⟩
  show inRange borrowed (rebuiltAddr (ρ ++ [j])) = false
  by_contra hc
  -- the entry is in use, so its page is mapped
  obtain ⟨a, b, c, d, hpath⟩ : ∃ a b c d, ρ ++ [j] = [a, b, c, d] := by
    rw [← List.length_eq_four, List.length_append, hρ, List.length_singleton]
  obtain ⟨page, hpage⟩ := Page.exists_path a b c d
  rw [hpath, ← hpage, inRange_rebuiltAddr hlow, Bool.not_eq_false] at hc
  have hwalk := hnone page hc
  rw [hpage, ← hpath, tableWalk, RadixHeap.walk_concat] at hwalk
  rw [tableWalk] at ht
  have hown : ∀ i ∈ (ρ ++ [j]).head?, owned off i = true := by
    have hρ' := AddrSpace.visible_of_tableWalk ht
    cases ρ with
    | nil => cases hρ
    | cons i ρ => exact hρ'
  have hvis : t = l4 → owned off j = true :=
    horder.space.visible hρ.le ht hown
  rw [ht, Option.bind_some, view_apply hvis] at hwalk
  rcases horder.space.proper ρ t j hρ.le ht hown with hzero | ⟨hp, hh⟩
  · rw [hzero] at hu
    exact absurd hu (by decide)
  · rw [PageTableEntry.next_eq_some.2 ⟨PageTableEntry.ne_zero_of_present hp, hh, rfl⟩] at hwalk
    cases hwalk

/-! ## Sharing the stack -/

section Lend

variable {pool : Set PhysFrame} {mapTo : MapTo σ} {lent : Page → Option PhysFrame} {l4 : PhysFrame}

/-- **Sharing pages of the heap**, one after the other: none of them is the user's. -/
theorem Confined.shareStackLoop (hexact : S.Exact) (hmap : MapTo.Documented A mapTo)
    {firstPage : Page} {l : List ℕ} (h : Confined cr3 off mem₀ m.mem s) (horder : s.InOrder S off m)
    (hw : s.Within S off pool m)
    (hlent : ∀ mem : PhysMem, (∀ x, x ∉ pool → mem x = m.mem x) →
      ∀ page, translatePage mem cr3 page = lent page)
    (hpages : ∀ i ∈ l, ∀ page, firstPage.add i = .ok page →
      owned off page.start.p4Index = true ∧ inRange s.borrowed page.start.val = true ∧
        ∀ f, lent page = some f → f ∉ pool)
    (hrun : l.foldlM (shareStackPage mapTo cr3 s.l4 firstPage) m = .ok m') :
    Confined cr3 off mem₀ m'.mem s := by
  induction l generalizing m with
  | nil =>
    cases hrun
    exact h
  | cons i l ih =>
    rw [List.forall_mem_cons] at hpages
    rw [List.foldlM_cons] at hrun
    obtain ⟨m₁, h₁, hrun⟩ := bind_eq_ok hrun
    obtain ⟨page, f, hpage, hf, hto⟩ := shareStackPage_eq_ok hmap h₁
    rw [hlent m.mem fun _ _ => rfl] at hf
    obtain ⟨hown, hrange, hout⟩ := hpages.1 page hpage
    have hfree : f ∉ S.free m.frames := fun hc => hout f hf (hw.free hc)
    have hframe : f ∉ s.frames off m.mem := fun hc => hout f hf (hw.frames hc)
    obtain ⟨⟨taken, hone⟩, -, -⟩ := horder.mapBorrowed hexact hw.used plain_kernelFlags hown hrange
      hfree hframe hto
    have hconf : Confined cr3 off mem₀ m₁.mem s :=
      h.mapPath horder plain_kernelFlags hown
        (fun hc => hframe (horder.mem_frames_of_isTable hc)) hfree
        (fun huser => absurd huser (by decide)) hto
    exact ih hconf hone.order (hw.grown hone)
      (fun mem hmem => hlent mem fun x hx => (hmem x hx).trans (hw.outside hone x hx))
      hpages.2 hrun

/-- **Lending a stack.** -/
theorem Confined.lendStack (hexact : S.Exact) (hmap : MapTo.Documented A mapTo) {stackBase : ℕ}
    (hc : Confined cr3 off mem₀ m.mem ⟨l4, (0, 0)⟩)
    (h : AddrSpace.InOrder S off m ⟨l4, (0, 0)⟩) (hw : AddrSpace.Within S off pool m ⟨l4, (0, 0)⟩)
    (hlent : ∀ mem : PhysMem, (∀ x, x ∉ pool → mem x = m.mem x) →
      ∀ page, translatePage mem cr3 page = lent page)
    (ha : stackBase % 4096 = 0) (hlow : stackBase + threadStackSize ≤ 0x800000000000)
    (hpages : ∀ page : Page,
      inRange (stackBase, stackBase + threadStackSize) page.start.val = true →
      owned off page.start.p4Index = true ∧ ∀ f, lent page = some f → f ∉ pool)
    (hrun : shareStack mapTo cr3 l4 stackBase m = .ok m') :
    Confined cr3 off mem₀ m'.mem ⟨l4, (stackBase, stackBase + threadStackSize)⟩ := by
  obtain ⟨v, hv, hrun⟩ := shareStack_eq_ok hrun
  have hlow' : (stackBase, stackBase + threadStackSize).2 ≤ 0x800000000000 := hlow
  have hsub := h.frames_lend_subset hlow'
  have hw' : AddrSpace.Within S off pool m ⟨l4, (stackBase, stackBase + threadStackSize)⟩ :=
    ⟨fun f hf => hw.used f (hsub hf), hw.free, hsub.trans hw.frames⟩
  have hloop : ∀ i ∈ List.range (threadStackSize / 4096), ∀ page,
      (Page.containing v).add i = .ok page → owned off page.start.p4Index = true ∧
        inRange (stackBase, stackBase + threadStackSize) page.start.val = true ∧
          ∀ f, lent page = some f → f ∉ pool := by
    intro i hi page hpage
    have hrange := AddrSpace.inRange_of_add ha hlow hv (List.mem_range.1 hi) hpage
    exact ⟨(hpages page hrange).1, hrange, (hpages page hrange).2⟩
  obtain ⟨-, hall⟩ :=
    AddrSpace.shareStackLoop_grown hexact hmap (h.lend hlow') hw' hlent hloop hrun
  refine Confined.shareStackLoop hexact hmap (hc.lend h hlow' ?_) (h.lend hlow') hw' hlent hloop
    hrun
  intro page hrange
  obtain ⟨i, hi, hpage⟩ := AddrSpace.exists_add_of_inRange ha hlow hv hrange
  exact (hall i (List.mem_range.2 hi) page hpage).1

end Lend

end Confined

/-! ## What a step can do to a space -/

namespace World

/-- The action is about the space of this owner: the space is made, changed or freed, or its thread
opens, reads or closes a file. -/
def Concerns (w : World) (id : Owner) : Action → Prop
  | .newAddressSpace _ => w.space id = none
  | .mapPage _ _ l4 _ _ _ => ∃ s, w.space id = some s ∧ s.l4 = l4
  | .spawnIsolatedInner l4 _ _ _ => id = .unspawned l4 ∨ w.space id = none
  | .schedule _ | .exitCurrentThread _ | .reapZombie =>
    ∃ z, w.sched.zombie = some z ∧ id = .thread z
  | .discard l4 => id = .unspawned l4
  | .spawn _ _ => False
  | .store _ _ => False
  | .setFiles _ => id = .thread w.sched.current

section Steps

variable {mapTo : MapTo BootInfoFrameAllocator} {map : MemoryMap} {cr3 : PhysFrame} {off : Fin 512}
  {m₀ m' : Machine BootInfoFrameAllocator} {w w' : World} {system : System BootInfoFrameAllocator}
  {id : Owner} {s : AddrSpace}

theorem Books.stackPages (hmap : MapTo.Documented bootInfo mapTo) (hboot : Booted map cr3 m₀)
    (h : Books cr3 off m₀ w) {l4 : PhysFrame} {stackBase : ℕ} (hl4 : l4 ∈ w.unspawned)
    (hblock : HeapBlock stackBase) (hshare : shareStack mapTo cr3 l4 stackBase w.machine = .ok m')
    (page : Page) (hpage : inRange (stackBase, stackBase + threadStackSize) page.start.val = true) :
    owned off page.start.p4Index = true ∧
      ∀ f, translatePage m₀.mem cr3 page = some f → f ∉ bootInfoSpec.free m₀.frames := by
  have hheap := hblock.isHeapPage hpage
  rw [p4Index_of_isHeapPage hheap]
  exact ⟨h.owned_of_shareStack hmap hl4 hblock hshare,
    fun f hf => hboot.not_mem_supply (Or.inr ⟨page, hheap, hf⟩)⟩

/-- Of memory nothing has changed, and of the threads only the zombie is gone, the stack pointers
apart. -/
def Reaped (w : World) (system : System BootInfoFrameAllocator) : Prop :=
  system.machine.mem = w.machine.mem ∧ ∀ i, (system.sched.threads i).map Thread.frozen =
    if w.sched.zombie = some i then none else (w.sched.threads i).map Thread.frozen

/-- `reap_zombie` does that, -/
theorem reapZombie_effect (hr : w.toSystem.reapZombie bootInfo off = .ok system) :
    Reaped w system := by
  have hthreads : ∀ i, (w.sched.reapTake.2.threads i).map Thread.frozen =
      if w.sched.zombie = some i then none else (w.sched.threads i).map Thread.frozen := by
    intro i
    obtain ⟨-, -, -, -, -, -, htake⟩ := w.sched.reapTake_spec
    rw [htake]
    split_ifs <;> rfl
  rcases w.toSystem.reapZombie_eq bootInfo off with ⟨z, sp, -, -, heq⟩ | ⟨-, heq⟩
  · rw [heq] at hr
    cases hfree : freeAddressSpace bootInfo off sp.borrowed sp.l4 w.machine with
    | error p =>
      rw [hfree] at hr
      cases hr
    | ok machine =>
      rw [hfree] at hr
      cases hr
      exact ⟨(freeAddressSpace_keeps hfree).1, hthreads⟩
  · rw [heq] at hr
    cases hr
    exact ⟨rfl, hthreads⟩

theorem frozen_saveStackPointer (s : SchedulerState) (j : ThreadId) (rsp : ℕ) (i : ThreadId) :
    ((s.saveStackPointer j rsp).threads i).map Thread.frozen =
      (s.threads i).map Thread.frozen := by
  rw [SchedulerState.saveStackPointer, SchedulerState.threads_mapThread_apply]
  split_ifs
  · cases s.threads i with
    | none => rfl
    | some t => rfl
  · rfl

/-- and so do `schedule` and `exit_current_thread`, which reap first. -/
theorem schedule_effect {rsp : ℕ} (hr : w.toSystem.schedule bootInfo off rsp = .ok system) :
    Reaped w system := by
  rw [System.schedule] at hr
  obtain ⟨s₁, h₁, hr⟩ := bind_eq_ok hr
  obtain ⟨⟨switch, sched⟩, hrest, hr⟩ := bind_eq_ok hr
  obtain ⟨hmem, hfrozen⟩ := reapZombie_effect h₁
  have hthreads : sched.threads = s₁.sched.threads := by
    rcases SchedulerState.scheduleRest_spec hrest with ⟨-, rfl, -⟩ | ⟨-, -, -, -, -, -, -, hthr, -⟩
    · rfl
    · exact hthr
  cases switch with
  | none =>
    cases hr
    refine ⟨hmem, fun i => ?_⟩
    rw [← hfrozen i, ← hthreads]
  | some sw =>
    cases hr
    refine ⟨hmem, fun i => ?_⟩
    rw [← hfrozen i, ← hthreads]
    exact frozen_saveStackPointer ..

theorem exitCurrentThread_effect {rsp : ℕ}
    (hr : w.toSystem.exitCurrentThread bootInfo off rsp = .ok system) : Reaped w system := by
  rw [System.exitCurrentThread] at hr
  obtain ⟨s₁, h₁, hr⟩ := bind_eq_ok hr
  obtain ⟨⟨sw, sched⟩, hrest, hr⟩ := bind_eq_ok hr
  cases hr
  obtain ⟨hmem, hfrozen⟩ := reapZombie_effect h₁
  obtain ⟨-, -, -, -, -, -, hthreads, -⟩ := SchedulerState.exitRest_spec hrest
  refine ⟨hmem, fun i => ?_⟩
  rw [← hfrozen i, ← hthreads]
  exact frozen_saveStackPointer ..

/-- What is left of the spaces when one has been reaped. -/
theorem Reaped.space_eq (h : Reaped w system) (j : Owner) :
    ({ w with toSystem := system } : World).space j =
      if ∃ z, w.sched.zombie = some z ∧ j = .thread z then none else w.space j := by
  cases j with
  | unspawned l4 => rw [if_neg (by simp)]; rfl
  | thread i =>
    have hspace : ∀ o : Option Thread, o.bind Thread.space =
        (o.map Thread.frozen).bind Thread.space := by
      intro o
      cases o <;> rfl
    show (system.sched.threads i).bind Thread.space = _
    rw [hspace, h.2 i, apply_ite (Option.bind · Thread.space), ← hspace]
    refine if_congr ?_ rfl rfl
    constructor
    · exact fun h => ⟨i, h, rfl⟩
    · rintro ⟨z, hz, hi⟩
      rw [hz, Owner.thread.inj hi]

/-- Mapping a page writes to what was free and to what the space owns. -/
theorem Books.mapFreshPage_grown (hmap : MapTo.Documented bootInfo mapTo) (h : Books cr3 off m₀ w)
    (hs : w.space id = some s) {noFrames failed : Panic} {page : Page} {flags : Word} {fill : Fill}
    (hown : owned off page.start.p4Index = true) (hfl : PageTableEntry.Plain flags)
    (hr : mapFreshPage bootInfo mapTo noFrames failed s.l4 page flags fill w.machine = .ok m') :
    ∃ taken, AddrSpace.Grown bootInfoSpec off s w.machine m' taken := by
  obtain ⟨⟨f, m₁⟩, ha, hr⟩ := bind_eq_ok hr
  obtain ⟨m₂, hto, hr⟩ := bind_eq_ok hr
  cases hr
  have hto' := expectOk_eq_ok hto
  rw [hmap _ _ _ _ _ hfl, documentedMapTo, plain_and hfl] at hto'
  have hsound := h.spaces id s hs
  exact hsound.order.mapFresh bootInfoSpec_exact (h.within hs).used hfl hown hsound.filled
    (Option.expect_eq_ok ha) hto' (fill.other m₂.mem f)

/-- A step that lets one space grow leaves the frames of the others alone. -/
theorem Books.spares_of_grown (h : Books cr3 off m₀ w) {j : Owner} {s' grown : AddrSpace}
    {taken : Set PhysFrame} (hs : w.space id = some s) (hs' : w.space j = some s') (hne : id ≠ j)
    (hframes : grown.frames off w.machine.mem = s'.frames off w.machine.mem)
    (hg : AddrSpace.Grown bootInfoSpec off grown w.machine m' taken) :
    ∀ x ∈ s.frames off w.machine.mem, m'.mem x = w.machine.mem x := by
  intro x hx
  refine hg.untouched x ((h.within hs).used x hx) ?_
  rw [hframes]
  rw [← held_of_space hs] at hx
  rw [← held_of_space hs']
  exact fun hc => hne (h.divided.apart id j x hx hc)

/-- **A step leaves alone what it does not concern**: a space that it is not about is still there,
and the frames it owns have kept their contents, unless it is a store to one of them. -/
theorem Books.step_spares (hmap : MapTo.Documented bootInfo mapTo) (hboot : Booted map cr3 m₀)
    (h : Books cr3 off m₀ w) {a : Action} (ha : Allowed cr3 off w a)
    (hr : World.step mapTo cr3 off w a = .ok w') (hs : w.space id = some s)
    (hnot : ¬ w.Concerns id a)
    (hstore : ∀ f words, a = .store f words → f ∉ s.frames off w.machine.mem) :
    w'.space id = some s ∧
      ∀ x ∈ s.frames off w.machine.mem, w'.machine.mem x = w.machine.mem x := by
  -- the three ways of scheduling are alike
  have hreaped : ∀ system : System BootInfoFrameAllocator, Reaped w system →
      (¬ ∃ z, w.sched.zombie = some z ∧ id = .thread z) →
      ({ w with toSystem := system } : World).space id = some s ∧
        ∀ x ∈ s.frames off w.machine.mem, system.machine.mem x = w.machine.mem x := by
    intro system hsys hz
    rw [hsys.space_eq, if_neg hz, hsys.1]
    exact ⟨hs, fun _ _ => rfl⟩
  cases a with
  | newAddressSpace active =>
    obtain ⟨⟨l4, machine⟩, hnew, hr⟩ := bind_eq_ok hr
    cases hr
    obtain ⟨-, hl4, -, -⟩ :=
      newAddressSpace_own h.valid (h.active_not_mem hboot ha) (fun _ hi => Or.inl hi) hnew
    obtain ⟨-, -, -, hkeep, -⟩ := newAddressSpace_eq_ok hnew
    constructor
    · cases id with
      | thread i => exact hs
      | unspawned r =>
        have hr : r ∈ w.unspawned := by
          by_contra hc
          rw [space, if_neg hc] at hs
          cases hs
        rw [← hs]
        exact space_unspawned_congr (iff_of_true (Finset.mem_insert_of_mem hr) hr)
    · intro x hx
      exact hkeep x fun hc => (h.within hs).used x hx (hc ▸ hl4)
  | mapPage noFrames failed l4 page flags fill =>
    obtain ⟨machine, hpage, hr⟩ := bind_eq_ok hr
    cases hr
    obtain ⟨⟨j, s', hs', rfl⟩, hown, hfl⟩ := ha
    obtain ⟨taken, hg⟩ := h.mapFreshPage_grown hmap hs' hown hfl hpage
    refine ⟨(space_machine w machine id).trans hs, h.spares_of_grown hs hs' ?_ rfl hg⟩
    rintro rfl
    exact hnot ⟨s', hs', rfl⟩
  | spawnIsolatedInner l4 stackBase entry userEntry =>
    obtain ⟨⟨pid, system⟩, hspawn, hr⟩ := bind_eq_ok hr
    cases hr
    obtain ⟨hl4, hbase⟩ := ha
    obtain ⟨h0, hshare, hsched⟩ := System.spawnIsolatedInner_eq_ok hspawn
    obtain ⟨-, i, hinstall, -⟩ := Kernel.spawnIsolatedInner_eq_ok hsched
    obtain ⟨hfree, hthreads, -⟩ := SchedulerState.install_spec hinstall
    have hblock := hbase.resolve_left h0
    have hs' : w.space (.unspawned l4) = some ⟨l4, (0, 0)⟩ := if_pos hl4
    obtain ⟨⟨taken, hg⟩, hframes, -⟩ := (h.spaces _ _ hs').order.lendStack bootInfoSpec_exact hmap
      (h.within hs') (h.lent hboot) hblock.aligned hblock.lower
      (h.stackPages hmap hboot hl4 hblock hshare) hshare
    have hne : id ≠ .unspawned l4 := fun hc => hnot (Or.inl hc)
    refine ⟨?_, h.spares_of_grown hs hs' hne hframes hg⟩
    rw [← hs]
    cases id with
    | unspawned r =>
      have hr : r ≠ l4 := fun hc => hne (by rw [hc])
      exact space_unspawned_congr (Finset.mem_erase.trans (and_iff_right hr))
    | thread k =>
      have hk : k ≠ i := by
        rintro rfl
        rw [space, hfree] at hs
        cases hs
      show (system.sched.threads k).bind Thread.space = _
      rw [hthreads, Function.update_of_ne hk]
      rfl
  | spawn stackBase entry =>
    obtain ⟨sched, hspawn, hr⟩ := bind_eq_ok hr
    cases hr
    obtain ⟨-, i, hinstall⟩ := Kernel.spawn_eq_ok hspawn
    obtain ⟨hfree, hthreads, -⟩ := SchedulerState.install_spec hinstall
    refine ⟨?_, fun _ _ => rfl⟩
    rw [← hs]
    cases id with
    | unspawned r => rfl
    | thread k =>
      have hk : k ≠ i := by
        rintro rfl
        rw [space, hfree] at hs
        cases hs
      show (sched.threads k).bind Thread.space = _
      rw [hthreads, Function.update_of_ne hk]
      rfl
  | schedule rsp =>
    obtain ⟨system, hsys, hr⟩ := bind_eq_ok hr
    cases hr
    exact hreaped system (schedule_effect hsys) hnot
  | exitCurrentThread rsp =>
    obtain ⟨system, hsys, hr⟩ := bind_eq_ok hr
    cases hr
    exact hreaped system (exitCurrentThread_effect hsys) hnot
  | reapZombie =>
    obtain ⟨system, hsys, hr⟩ := bind_eq_ok hr
    cases hr
    exact hreaped system (reapZombie_effect hsys) hnot
  | discard l4 =>
    obtain ⟨machine, hfree, hr⟩ := bind_eq_ok hr
    cases hr
    constructor
    · rw [← hs]
      cases id with
      | thread i => rfl
      | unspawned r =>
        have hne : r ≠ l4 := fun hc => hnot (by rw [hc]; rfl)
        exact space_unspawned_congr (Finset.mem_erase.trans (and_iff_right hne))
    · intro x _
      rw [(freeAddressSpace_keeps hfree).1]
  | store f words =>
    cases hr
    refine ⟨(space_machine w _ id).trans hs, fun x hx => ?_⟩
    refine Function.update_of_ne ?_ ..
    rintro rfl
    exact hstore x words rfl hx
  | setFiles files =>
    cases hr
    exact ⟨(space_setFiles w files id).trans hs, fun _ _ => rfl⟩

/-! ## Every space stays confined -/

/-- **A guarded world**: the books are in order, and every space is confined. -/
structure Guarded (cr3 : PhysFrame) (off : Fin 512) (m₀ : Machine BootInfoFrameAllocator)
    (w : World) : Prop where
  books : Books cr3 off m₀ w
  confined : ∀ id s, w.space id = some s → Confined cr3 off m₀.mem w.machine.mem s

/-- The entries that a new space shares are the kernel's, whatever table is active. -/
theorem Guarded.active_shared (h : Guarded cr3 off m₀ w) {active : PhysFrame}
    (hactive : active = cr3 ∨ w.Live active) :
    ∀ i, owned off i = false → w.machine.mem active i = m₀.mem cr3 i := by
  rcases hactive with rfl | ⟨id, s, hs, rfl⟩
  · intro i _
    rw [h.books.kernel active ⟨[], Nat.zero_le _, rfl⟩]
  · exact (h.confined id s hs).shared

/-- The rule for a step: only the spaces that it is about have to be looked at. -/
theorem Guarded.of_step (hmap : MapTo.Documented bootInfo mapTo) (hboot : Booted map cr3 m₀)
    (h : Guarded cr3 off m₀ w) {a : Action} (ha : Allowed cr3 off w a)
    (hr : World.step mapTo cr3 off w a = .ok w')
    (hnew : ∀ j s, w'.space j = some s → (w.space j = none ∨ w.Concerns j a) →
      Confined cr3 off m₀.mem w'.machine.mem s) : Guarded cr3 off m₀ w' := by
  refine ⟨h.books.step hmap hboot ha hr, fun j s hs => ?_⟩
  cases hold : w.space j with
  | none => exact hnew j s hs (Or.inl hold)
  | some s₀ =>
    by_cases hc : w.Concerns j a
    · exact hnew j s hs (Or.inr hc)
    · have horder := (h.books.spaces j s₀ hold).order
      by_cases hstore : ∃ f words, a = .store f words
      · -- a store hits no table
        obtain ⟨f, words, rfl⟩ := hstore
        cases hr
        obtain rfl := Option.some.inj (hold.symm.trans ((space_machine w _ j).symm.trans hs))
        have hother : ∀ x, IsTable w.machine.mem s₀.l4 (owned off) x →
            (w.machine.write (Function.update w.machine.mem f words)).mem x = w.machine.mem x := by
          intro x hx
          refine Function.update_of_ne ?_ ..
          rintro rfl
          exact ha.2 j s₀ hold hx
        exact (h.confined j s₀ hold).frame hother
      · obtain ⟨hs', hmem⟩ := h.books.step_spares hmap hboot ha hr hold hc
          fun f words heq => absurd ⟨f, words, heq⟩ hstore
        obtain rfl := Option.some.inj (hs'.symm.trans hs)
        exact (h.confined j s₀ hold).frame fun x hx => hmem x (horder.mem_frames_of_isTable hx)

/-- Pages are mapped in the lower half: `elf::load` refuses others, and the pages of the demos are
there. -/
def Action.Low : Action → Prop
  | .mapPage _ _ _ page _ _ => (page.start.p4Index : ℕ) < 256
  | _ => True

/-- **Every step keeps every space confined.** -/
theorem Guarded.step (hmap : MapTo.Documented bootInfo mapTo) (hboot : Booted map cr3 m₀)
    (h : Guarded cr3 off m₀ w) {a : Action} (ha : Allowed cr3 off w a) (hlow : a.Low)
    (hr : World.step mapTo cr3 off w a = .ok w') : Guarded cr3 off m₀ w' := by
  refine h.of_step hmap hboot ha hr ?_
  have hreaped : ∀ system : System BootInfoFrameAllocator, Reaped w system →
      ∀ j s, ({ w with toSystem := system } : World).space j = some s →
        ¬ (w.space j = none ∨ ∃ z, w.sched.zombie = some z ∧ j = .thread z) := by
    intro system hsys j s hs hj
    rw [hsys.space_eq] at hs
    rcases hj with hj | hj
    · rw [hj, ite_self] at hs
      cases hs
    · rw [if_pos hj] at hs
      cases hs
  cases a with
  | newAddressSpace active =>
    obtain ⟨⟨l4, machine⟩, hnew, hr⟩ := bind_eq_ok hr
    cases hr
    intro j s hs hj
    have hj : w.space j = none := hj.elim id id
    cases j with
    | thread i =>
      rw [show w.space (.thread i) = some s from hs] at hj
      cases hj
    | unspawned r =>
      have hr : r = l4 := by
        by_contra hc
        rw [space_unspawned_congr (Finset.mem_insert.trans (or_iff_right hc)), hj] at hs
        cases hs
      rw [hr] at hs
      obtain rfl := Option.some.inj ((if_pos (Finset.mem_insert_self l4 w.unspawned)).symm.trans hs)
      exact Confined.create h.books.valid (h.books.active_not_mem hboot ha) (h.active_shared ha)
        hnew
  | mapPage noFrames failed l4 page flags fill =>
    obtain ⟨machine, hpage, hr⟩ := bind_eq_ok hr
    cases hr
    intro j s hs hj
    rw [space_machine] at hs
    rcases hj with hj | ⟨s', hs', rfl⟩
    · rw [hs] at hj
      cases hj
    · obtain rfl := Option.some.inj (hs.symm.trans hs')
      have hsound := h.books.spaces j s hs
      exact (h.confined j s hs).mapFreshPage hmap hsound.order hsound.filled ha.2.1 hlow ha.2.2
        hpage
  | spawnIsolatedInner l4 stackBase entry userEntry =>
    obtain ⟨⟨pid, system⟩, hspawn, hr⟩ := bind_eq_ok hr
    cases hr
    obtain ⟨hl4, hbase⟩ := ha
    obtain ⟨h0, hshare, hsched⟩ := System.spawnIsolatedInner_eq_ok hspawn
    obtain ⟨-, i, hinstall, -⟩ := Kernel.spawnIsolatedInner_eq_ok hsched
    obtain ⟨hfree, hthreads, -⟩ := SchedulerState.install_spec hinstall
    have hblock := hbase.resolve_left h0
    have hs' : w.space (.unspawned l4) = some ⟨l4, (0, 0)⟩ := if_pos hl4
    intro j s hs hj
    cases j with
    | unspawned r =>
      -- nobody's spaces have not become more
      have hr : r ∈ w.unspawned.erase l4 := by
        by_contra hc
        rw [space, if_neg hc] at hs
        cases hs
      obtain ⟨hne, hmem⟩ := Finset.mem_erase.1 hr
      rcases hj with hj | hj | hj
      · rw [space, if_pos hmem] at hj
        cases hj
      · exact absurd (Owner.unspawned.inj hj) hne
      · rw [space, if_pos hmem] at hj
        cases hj
    | thread k =>
      have hk : k = i := by
        by_contra hc
        have hold : w.space (.thread k) = some s := by
          rw [← hs]
          show _ = (system.sched.threads k).bind Thread.space
          rw [hthreads, Function.update_of_ne hc]
          rfl
        rcases hj with hj | hj | hj
        · rw [hold] at hj
          cases hj
        · cases hj
        · rw [hold] at hj
          cases hj
      subst hk
      have hsp : s = ⟨l4, (stackBase, stackBase + threadStackSize)⟩ := by
        refine Option.some.inj (hs.symm.trans ?_)
        show (system.sched.threads k).bind Thread.space = _
        rw [hthreads, Function.update_self, Option.bind_some, Thread.space]
        show some (AddrSpace.mk (toPhysFrame l4.val) _) = _
        rw [toPhysFrame, Fin.ofNat_val_eq_self]
        rfl
      rw [hsp]
      exact (h.confined _ _ hs').lendStack bootInfoSpec_exact hmap (h.books.spaces _ _ hs').order
        (h.books.within hs') (h.books.lent hboot) hblock.aligned hblock.lower
        (h.books.stackPages hmap hboot hl4 hblock hshare) hshare
  | spawn stackBase entry =>
    obtain ⟨sched, hspawn, hr⟩ := bind_eq_ok hr
    cases hr
    obtain ⟨-, i, hinstall⟩ := Kernel.spawn_eq_ok hspawn
    obtain ⟨hfree, hthreads, -⟩ := SchedulerState.install_spec hinstall
    intro j s hs hj
    have hj : w.space j = none := hj.resolve_right fun hc => hc
    cases j with
    | unspawned r =>
      rw [show w.space (.unspawned r) = some s from hs] at hj
      cases hj
    | thread k =>
      have hs : (sched.threads k).bind Thread.space = some s := hs
      rw [hthreads] at hs
      by_cases hk : k = i
      · rw [hk, Function.update_self] at hs
        cases hs
      · rw [Function.update_of_ne hk] at hs
        rw [show w.space (.thread k) = some s from hs] at hj
        cases hj
  | schedule rsp =>
    obtain ⟨system, hsys, hr⟩ := bind_eq_ok hr
    cases hr
    exact fun j s hs hj => absurd hj (hreaped system (schedule_effect hsys) j s hs)
  | exitCurrentThread rsp =>
    obtain ⟨system, hsys, hr⟩ := bind_eq_ok hr
    cases hr
    exact fun j s hs hj => absurd hj (hreaped system (exitCurrentThread_effect hsys) j s hs)
  | reapZombie =>
    obtain ⟨system, hsys, hr⟩ := bind_eq_ok hr
    cases hr
    exact fun j s hs hj => absurd hj (hreaped system (reapZombie_effect hsys) j s hs)
  | discard l4 =>
    obtain ⟨machine, hfree, hr⟩ := bind_eq_ok hr
    cases hr
    intro j s hs hj
    cases j with
    | thread i =>
      rcases hj with hj | hj
      · rw [show w.space (.thread i) = some s from hs] at hj
        cases hj
      · cases hj
    | unspawned r =>
      have hr : r ∈ w.unspawned.erase l4 := by
        by_contra hc
        rw [space, if_neg hc] at hs
        cases hs
      obtain ⟨hne, hmem⟩ := Finset.mem_erase.1 hr
      rcases hj with hj | hj
      · rw [space, if_pos hmem] at hj
        cases hj
      · exact absurd (Owner.unspawned.inj hj) hne
  | store f words =>
    cases hr
    intro j s hs hj
    rw [space_machine] at hs
    rcases hj with hj | hj
    · rw [hs] at hj
      cases hj
    · exact hj.elim
  | setFiles files =>
    cases hr
    intro j s hs _
    rw [space_setFiles] at hs
    exact h.confined j s hs

/-- At the start there are no spaces. -/
theorem guarded_start (hboot : Booted map cr3 m₀) : Guarded cr3 off m₀ (start cr3 m₀) := by
  refine ⟨books_start hboot, ?_⟩
  intro j s hs
  cases j with
  | unspawned l4 => cases hs
  | thread i =>
    have hs : ((SchedulerState.init cr3.val).threads i).bind Thread.space = some s := hs
    rw [SchedulerState.init] at hs
    simp only at hs
    split_ifs at hs
    · cases hs
    · cases hs

end Steps

end World
