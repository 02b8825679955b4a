/-
# The frames of one address space

The account of a single space while pages are mapped into it.  A space owns its level-4
table, the tables below the entries that are not shared, and the frames of its pages,
except for those in the range of its kernel stack, which it has borrowed from the heap.

`Grown` says what a mapping does to the account: the frames taken from the allocator are
those that the space owns more than before, and no frame that somebody else has is
written to.  Mapping a new frame is such a step, and so is sharing a page of the stack.
-/
import Velora.FailedLoad
import Velora.SpawnUser

/-- An address space: its level-4 table, and the range of addresses that it has borrowed. -/
structure AddrSpace where
  l4 : PhysFrame
  borrowed : ℕ × ℕ
  deriving DecidableEq

/-! ## Paths to frames -/

section Kept

variable {off : Fin 512} {borrowed : ℕ × ℕ} {π : List (Fin 512)} {f : PhysFrame}

theorem owned_of_kept (h : kept off borrowed (π, f) = true) :
    ∀ i ∈ π.head?, owned off i = true := by
  cases π with
  | nil => simp
  | cons i π =>
    rw [kept, Bool.and_eq_true] at h
    intro j hj
    obtain rfl := Option.some.inj hj
    exact h.1

/-- A path to a table below an owned entry. -/
theorem kept_of_short (hlen : π.length ≤ 3) (hown : ∀ i ∈ π.head?, owned off i = true) :
    kept off borrowed (π, f) = true := by
  cases π with
  | nil => rfl
  | cons i π =>
    rw [List.length_cons] at hlen
    rw [kept, keptBelow, hown i rfl, Bool.true_and, Bool.or_eq_true, decide_eq_true_iff]
    exact Or.inl (show π.length < 3 by omega)

/-- The path to the frame of a page. -/
theorem kept_path {page : Page} (hb : borrowed.2 ≤ 0x800000000000) :
    kept off borrowed (page.path, f) = true ↔
      owned off page.start.p4Index = true ∧ inRange borrowed page.start.val = false := by
  rw [← inRange_rebuiltAddr hb, Page.path, kept, keptBelow, Bool.and_eq_true, Bool.or_eq_true,
    Bool.not_eq_true']
  refine and_congr_right fun _ => or_iff_right ?_
  simp

/-- What leads to a table on the way to a page below an owned entry. -/
theorem owned_of_concat {path : List (Fin 512)} (hpre : π <+: path)
    (hown : ∀ i ∈ path.head?, owned off i = true) : ∀ i ∈ π.head?, owned off i = true := by
  intro i hi
  obtain ⟨rest, rfl⟩ := hpre
  refine hown i ?_
  rw [List.head?_append, Option.mem_def.1 hi]
  rfl

/-- With less borrowed, more is kept. -/
theorem kept_nothing_borrowed (h : kept off borrowed (π, f) = true) :
    kept off (0, 0) (π, f) = true :=
  kept_zero.2 (owned_of_kept h)

end Kept

namespace AddrSpace

/-- **The frames a space owns**: as a table, or as the frame of a page. -/
def frames (off : Fin 512) (mem : PhysMem) (s : AddrSpace) : Set PhysFrame :=
  {f | f = s.l4 ∨ OwnedTable mem off s.l4 f ∨
    ∃ page, OwnedPage mem off s.l4 page f ∧ inRange s.borrowed page.start.val = false}

/-- The path leads to a frame that the space owns. -/
def Leads (off : Fin 512) (mem : PhysMem) (s : AddrSpace) (π : List (Fin 512)) (f : PhysFrame) :
    Prop :=
  kept off s.borrowed (π, f) = true ∧ π.length ≤ 4 ∧ tableWalk mem s.l4 (owned off) π = some f

section Account

variable {σ : Type} {A : FrameAllocator σ} {S : A.Spec} {off : Fin 512} {m m' m'' : Machine σ}
  {s : AddrSpace} {f : PhysFrame} {lent : Page → Option PhysFrame}

/-- **A space in good order**: so are its tables, every frame it owns is reached in one way, and
what it has borrowed lies in the lower half. -/
structure InOrder (S : A.Spec) (off : Fin 512) (m : Machine σ) (s : AddrSpace) : Prop where
  space : Space S s.l4 (owned off) (owned off) m
  once : ∀ π ρ f, s.Leads off m.mem π f → s.Leads off m.mem ρ f → π = ρ
  lower : s.borrowed.2 ≤ 0x800000000000

/-- All pages of the borrowed range are mapped, to the frames lent for them. -/
def Filled (lent : Page → Option PhysFrame) (off : Fin 512) (mem : PhysMem) (s : AddrSpace) : Prop :=
  ∀ page : Page, inRange s.borrowed page.start.val = true →
    ∃ f, lent page = some f ∧ tableWalk mem s.l4 (owned off) page.path = some f

/-- What freeing the space gives back. -/
theorem InOrder.mem_freed (h : s.InOrder S off m) :
    f ∈ freedBySpace m.mem off s.borrowed s.l4 ↔ ∃ π, s.Leads off m.mem π f := by
  rw [mem_freedBySpace (h.space.properOwned fun _ hi => hi)]
  refine exists_congr fun π => and_congr_right fun hkept => and_congr_right fun hlen => ?_
  exact h.space.walk_owned (fun _ hi => hi) hlen (owned_of_kept hkept)

theorem InOrder.mem_frames (h : s.InOrder S off m) :
    f ∈ s.frames off m.mem ↔ ∃ π, s.Leads off m.mem π f := by
  rw [← h.mem_freed, mem_freedBySpace_iff (h.space.properOwned fun _ hi => hi)]
  simp only [inRange_rebuiltAddr h.lower]
  rfl

theorem InOrder.nodup_freed (h : s.InOrder S off m) :
    (freedBySpace m.mem off s.borrowed s.l4).Nodup := by
  refine freedBySpace_nodup (h.space.properOwned fun _ hi => hi) ?_
  intro π ρ f hπ hρ hlen hlen' hf hf'
  rw [h.space.walk_owned (fun _ hi => hi) hlen (owned_of_kept hπ)] at hf
  rw [h.space.walk_owned (fun _ hi => hi) hlen' (owned_of_kept hρ)] at hf'
  exact h.once π ρ f ⟨hπ, hlen, hf⟩ ⟨hρ, hlen', hf'⟩

/-- Only entries that are looked at lead anywhere. -/
theorem visible_of_tableWalk {mem : PhysMem} {r x : PhysFrame} {vis : Fin 512 → Bool}
    {π : List (Fin 512)} (h : tableWalk mem r vis π = some x) : ∀ i ∈ π.head?, vis i = true := by
  cases π with
  | nil => simp
  | cons i π =>
    intro j hj
    obtain rfl := Option.some.inj hj
    by_contra hvis
    rw [tableWalk, RadixHeap.walk_cons, view, if_pos ⟨rfl, Bool.eq_false_of_not_eq_true hvis⟩,
      PageTableEntry.next_zero] at h
    cases h

/-- A space owns its tables. -/
theorem InOrder.mem_frames_of_isTable (h : s.InOrder S off m)
    (ht : IsTable m.mem s.l4 (owned off) f) : f ∈ s.frames off m.mem := by
  obtain ⟨π, hlen, hf⟩ := ht
  exact h.mem_frames.2 ⟨π, kept_of_short hlen (visible_of_tableWalk hf), by omega, hf⟩

/-! ## What others do -/

section Frame

variable (hmem : ∀ x, IsTable m.mem s.l4 (owned off) x → m'.mem x = m.mem x)
include hmem

/-- Where the tables are not written to, they lead where they led. -/
theorem tableWalk_frame {π : List (Fin 512)} (hlen : π.length ≤ 4) :
    tableWalk m'.mem s.l4 (owned off) π = tableWalk m.mem s.l4 (owned off) π := by
  refine RadixHeap.walk_congr (d := 4) ?_ hlen
  intro ρ x hρ hx j
  rw [view, view, hmem x ⟨ρ, by omega, hx⟩]

theorem leads_frame {π : List (Fin 512)} :
    s.Leads off m'.mem π f ↔ s.Leads off m.mem π f := by
  refine and_congr_right fun _ => and_congr_right fun hlen => ?_
  rw [tableWalk_frame hmem hlen]

/-- **The frame rule**: a space whose tables are not written to, and not given away, is as it
was. -/
theorem InOrder.frame (h : s.InOrder S off m) (hvalid : S.valid m'.frames)
    (hused : ∀ x, IsTable m.mem s.l4 (owned off) x → x ∉ S.free m'.frames) :
    s.InOrder S off m' ∧ s.frames off m'.mem = s.frames off m.mem := by
  have hwalk := fun {π : List (Fin 512)} (hlen : π.length ≤ 4) => tableWalk_frame hmem hlen
  have horder : s.InOrder S off m' := by
    refine ⟨⟨hvalid, h.space.tree.congr fun π hπ => hwalk (by omega), ?_, ?_⟩, ?_, h.lower⟩
    · rintro x ⟨π, hπ, hx⟩
      rw [hwalk (by omega)] at hx
      exact hused x ⟨π, hπ, hx⟩
    · intro π x j hπ hx hown
      rw [hwalk (by omega)] at hx
      rw [hmem x ⟨π, hπ, hx⟩]
      exact h.space.proper π x j hπ hx hown
    · intro π ρ f hπ hρ
      rw [leads_frame hmem] at hπ hρ
      exact h.once π ρ f hπ hρ
  refine ⟨horder, Set.ext fun f => ?_⟩
  rw [h.mem_frames, horder.mem_frames]
  exact exists_congr fun π => leads_frame hmem

theorem Filled.frame (h : s.Filled lent off m.mem) : s.Filled lent off m'.mem := by
  intro page hpage
  rw [tableWalk_frame hmem (show page.path.length ≤ 4 from le_rfl)]
  exact h page hpage

end Frame

/-! ## Mapping pages -/

/-- **A space has grown** by the frames `taken`: they were free, and belong to the space now. -/
structure Grown (S : A.Spec) (off : Fin 512) (s : AddrSpace) (m m' : Machine σ)
    (taken : Set PhysFrame) : Prop where
  order : s.InOrder S off m'
  frames : s.frames off m'.mem = s.frames off m.mem ∪ taken
  fresh : taken ⊆ S.free m.frames
  free : S.free m'.frames = S.free m.frames \ taken
  untouched : ∀ x, x ∉ S.free m.frames → x ∉ s.frames off m.mem → m'.mem x = m.mem x
  grows : ∀ x, x ∉ S.free m.frames → ∀ j, PageTableEntry.Grows (m.mem x j) (m'.mem x j)
  walks : ∀ π x, π.length ≤ 4 → tableWalk m.mem s.l4 (owned off) π = some x →
    tableWalk m'.mem s.l4 (owned off) π = some x

theorem Grown.refl (h : s.InOrder S off m) : Grown S off s m m ∅ where
  order := h
  frames := (Set.union_empty _).symm
  fresh := Set.empty_subset _
  free := Set.sdiff_empty.symm
  untouched := fun _ _ _ => rfl
  grows := fun _ _ _ => PageTableEntry.Grows.refl _
  walks := fun _ _ _ h => h

theorem Grown.trans {taken taken' : Set PhysFrame} (h : Grown S off s m m' taken)
    (h' : Grown S off s m' m'' taken') : Grown S off s m m'' (taken ∪ taken') where
  order := h'.order
  frames := by rw [h'.frames, h.frames, Set.union_assoc]
  fresh := by
    refine Set.union_subset h.fresh fun x hx => ?_
    have hfree := h'.fresh hx
    rw [h.free] at hfree
    exact hfree.1
  free := by rw [h'.free, h.free, Set.sdiff_sdiff]
  untouched := by
    intro x hfree hx
    have hfree' : x ∉ S.free m'.frames := by
      rw [h.free]
      exact fun hc => hfree hc.1
    have hx' : x ∉ s.frames off m'.mem := by
      rw [h.frames]
      rintro (hc | hc)
      · exact hx hc
      · exact hfree (h.fresh hc)
    rw [h'.untouched x hfree' hx', h.untouched x hfree hx]
  grows := by
    intro x hfree j
    refine (h.grows x hfree j).trans (h'.grows x ?_ j)
    rw [h.free]
    exact fun hc => hfree hc.1
  walks := fun π x hlen hx => h'.walks π x hlen (h.walks π x hlen hx)

theorem Grown.filled {taken : Set PhysFrame} (h : Grown S off s m m' taken)
    (hf : s.Filled lent off m.mem) : s.Filled lent off m'.mem := by
  intro page hpage
  obtain ⟨f, hlent, hf⟩ := hf page hpage
  exact ⟨f, hlent, h.walks _ f (show page.path.length ≤ 4 from le_rfl) hf⟩

/-- What the space owns is not free, and both lie in the pool. -/
structure Within (S : A.Spec) (off : Fin 512) (pool : Set PhysFrame) (m : Machine σ)
    (s : AddrSpace) : Prop where
  used : ∀ f ∈ s.frames off m.mem, f ∉ S.free m.frames
  free : S.free m.frames ⊆ pool
  frames : s.frames off m.mem ⊆ pool

section Pool

variable {pool taken : Set PhysFrame} (hw : s.Within S off pool m) (h : Grown S off s m m' taken)
include hw h

theorem Within.grown : s.Within S off pool m' where
  used := by
    intro f hf hfree
    rw [h.frames] at hf
    rw [h.free] at hfree
    rcases hf with hf | hf
    · exact hw.used f hf hfree.1
    · exact hfree.2 hf
  free := by
    rw [h.free]
    exact fun x hx => hw.free hx.1
  frames := by
    rw [h.frames]
    exact Set.union_subset hw.frames (h.fresh.trans hw.free)

/-- Outside the pool nothing is written. -/
theorem Within.outside (x : PhysFrame) (hx : x ∉ pool) : m'.mem x = m.mem x :=
  h.untouched x (fun hc => hx (hw.free hc)) (fun hc => hx (hw.frames hc))

end Pool

/-- **What has been added to the tables, as growth**: the paths added that the space owns lead to
the frames taken, one to each. -/
theorem InOrder.grown (h : s.InOrder S off m) {added : List Reached} {taken : List PhysFrame}
    (hused : ∀ f ∈ s.frames off m.mem, f ∉ S.free m.frames)
    (hspace : Space S s.l4 (owned off) (owned off) m') (hext : Extends S s.l4 (owned off) m m')
    (hadds : Adds S s.l4 (owned off) m m' added taken) (hlen : ∀ p ∈ added, p.1.length ≤ 4)
    (hkept : ∀ p ∈ added, kept off s.borrowed p = true → p.2 ∈ taken)
    (htaken : ∀ x ∈ taken, ∃ π, (π, x) ∈ added ∧ kept off s.borrowed (π, x) = true)
    (hinj : ∀ p ∈ added, ∀ q ∈ added, kept off s.borrowed p = true →
      kept off s.borrowed q = true → p.2 = q.2 → p.1 = q.1) :
    Grown S off s m m' {x | x ∈ taken} := by
  have hleads : ∀ π f, s.Leads off m'.mem π f ↔
      s.Leads off m.mem π f ∨ (kept off s.borrowed (π, f) = true ∧ (π, f) ∈ added) := by
    intro π f
    constructor
    · rintro ⟨hk, hl, hw⟩
      rcases (hadds.walk π f hl).1 hw with hw | hw
      · exact Or.inl ⟨hk, hl, hw⟩
      · exact Or.inr ⟨hk, hw⟩
    · rintro (⟨hk, hl, hw⟩ | ⟨hk, hw⟩)
      · exact ⟨hk, hl, (hadds.walk π f hl).2 (Or.inl hw)⟩
      · exact ⟨hk, hlen _ hw, (hadds.walk π f (hlen _ hw)).2 (Or.inr hw)⟩
  -- what was owned before was not free, what is added was
  have hnew : ∀ π ρ f, s.Leads off m.mem π f → kept off s.borrowed (ρ, f) = true →
      (ρ, f) ∉ added := by
    intro π ρ f hπ hk hmem
    exact hused f (h.mem_frames.2 ⟨π, hπ⟩) (hadds.fresh f (hkept _ hmem hk))
  have horder : s.InOrder S off m' := by
    refine ⟨hspace, ?_, h.lower⟩
    intro π ρ f hπ hρ
    rcases (hleads π f).1 hπ with hπ | ⟨hk, hπ⟩
    · rcases (hleads ρ f).1 hρ with hρ | ⟨hk', hρ⟩
      · exact h.once π ρ f hπ hρ
      · exact absurd hρ (hnew π ρ f hπ hk')
    · rcases (hleads ρ f).1 hρ with hρ | ⟨hk', hρ⟩
      · exact absurd hπ (hnew ρ π f hρ hk)
      · exact hinj _ hπ _ hρ hk hk' rfl
  refine ⟨horder, ?_, hadds.fresh, hadds.free, ?_, hext.grows, ?_⟩
  · ext f
    rw [horder.mem_frames, Set.mem_union, h.mem_frames, Set.mem_ofPred_eq]
    simp only [hleads, exists_or]
    refine or_congr_right ⟨?_, ?_⟩
    · rintro ⟨π, hk, hmem⟩
      exact hkept _ hmem hk
    · intro hf
      obtain ⟨π, hmem, hk⟩ := htaken f hf
      exact ⟨π, hk, hmem⟩
  · intro x hfree hx
    exact hext.untouched x (Or.inl hfree) fun ht => hx (h.mem_frames_of_isTable ht)
  · intro π x hl hw
    exact (hadds.walk π x hl).2 (Or.inl hw)

/-- **Mapping a new frame** at a page that is not borrowed. -/
theorem InOrder.mapFresh (hexact : S.Exact) (h : s.InOrder S off m)
    (hused : ∀ f ∈ s.frames off m.mem, f ∉ S.free m.frames) {page : Page} {flags : Word}
    {m₁ m₂ : Machine σ} {mem : PhysMem} (hfl : PageTableEntry.Plain flags)
    (hown : owned off page.start.p4Index = true) (hfilled : s.Filled lent off m.mem)
    (ha : m.allocate A = some (f, m₁))
    (hmap : mapPath A flags (PageTableEntry.setFrame f flags) m₁ s.l4 page.path = .ok m₂)
    (hother : ∀ x, x ≠ f → mem x = m₂.mem x) :
    ∃ taken, Grown S off s m (m₂.write mem) taken := by
  have hvis : ∀ i ∈ page.path.head?, owned off i = true := by
    intro i hi
    obtain rfl := Option.some.inj hi
    exact hown
  have hmapped := freshMapped h.space hfl rfl hvis ha hmap hother
  obtain ⟨added, -, hbelow, hadds⟩ := freshMapped_adds hexact h.space hfl rfl hvis ha hmap hother
  -- the page could be mapped, so it is none of those that are borrowed
  have hrange : inRange s.borrowed page.start.val = false := by
    by_contra hc
    obtain ⟨g, -, hg⟩ := hfilled page (Bool.eq_true_of_not_eq_false hc)
    refine RadixHeap.not_holed_of_walk ?_ hg hmapped.mappable
    rintro e rfl
    exact PageTableEntry.next_zero
  have hkept : ∀ p ∈ added, kept off s.borrowed p = true := by
    rintro ⟨π, x⟩ hp
    obtain ⟨-, hpre⟩ := hbelow _ hp
    have hle : π.length ≤ 4 := hpre.length_le
    by_cases hshort : π.length ≤ 3
    · exact kept_of_short hshort (owned_of_concat hpre hvis)
    · have heq : π = page.path := hpre.eq_of_length (show π.length = 4 by omega)
      rw [heq]
      exact (kept_path h.lower).2 ⟨hown, hrange⟩
  refine ⟨_, h.grown hused hmapped.space hmapped.ext hadds ?_ ?_ ?_ ?_⟩
  · intro p hp
    exact (hbelow p hp).2.length_le
  · intro p hp _
    exact List.mem_map.2 ⟨p, hp, rfl⟩
  · intro x hx
    obtain ⟨⟨π, y⟩, hp, rfl⟩ := List.mem_map.1 hx
    exact ⟨π, hp, hkept _ hp⟩
  · intro p hp q hq _ _ hpq
    exact congrArg Prod.fst (List.inj_on_of_nodup_map hadds.nodup hp hq hpq)

/-- **Mapping a frame of somebody else's** at a page that is borrowed. -/
theorem InOrder.mapBorrowed (hexact : S.Exact) (h : s.InOrder S off m)
    (hused : ∀ f ∈ s.frames off m.mem, f ∉ S.free m.frames) {page : Page} {flags : Word}
    (hfl : PageTableEntry.Plain flags) (hown : owned off page.start.p4Index = true)
    (hrange : inRange s.borrowed page.start.val = true) (hfree : f ∉ S.free m.frames)
    (hf : f ∉ s.frames off m.mem)
    (hmap : mapPath A flags (PageTableEntry.setFrame f flags) m s.l4 page.path = .ok m') :
    (∃ taken, Grown S off s m m' taken) ∧ tableWalk m.mem s.l4 (owned off) page.path = none ∧
      tableWalk m'.mem s.l4 (owned off) page.path = some f := by
  have hvis : ∀ i ∈ page.path.head?, owned off i = true := by
    intro i hi
    obtain rfl := Option.some.inj hi
    exact hown
  have htable : ¬ IsTable m.mem s.l4 (owned off) f := fun hc => hf (h.mem_frames_of_isTable hc)
  have hmapped := mapPath_spec h.space hfl rfl hvis htable hfree hmap
  obtain ⟨tables, htables, hadds⟩ := mapPath_adds hexact h.space hfl rfl hvis htable hfree hmap
  have hnot : kept off s.borrowed (page.path, f) = false := by
    rw [← Bool.not_eq_true, kept_path h.lower, hrange]
    simp
  have hkept : ∀ p ∈ tables, kept off s.borrowed p = true := by
    rintro ⟨π, x⟩ hp
    obtain ⟨-, hpre, hshort⟩ := htables _ hp
    exact kept_of_short hshort (owned_of_concat hpre hvis)
  refine ⟨⟨_, h.grown hused hmapped.space hmapped.ext hadds ?_ ?_ ?_ ?_⟩, ?_, hmapped.maps.walk⟩
  · rw [List.forall_mem_cons]
    refine ⟨le_rfl, fun p hp => ?_⟩
    have := (htables p hp).2.2
    omega
  · rw [List.forall_mem_cons, hnot]
    exact ⟨fun hc => absurd hc Bool.false_ne_true, fun p hp _ => List.mem_map.2 ⟨p, hp, rfl⟩⟩
  · intro x hx
    obtain ⟨⟨π, y⟩, hp, rfl⟩ := List.mem_map.1 hx
    exact ⟨π, List.mem_cons_of_mem _ hp, hkept _ hp⟩
  · intro p hp q hq hkp hkq hpq
    rcases List.mem_cons.1 hp with rfl | hp
    · rw [hnot] at hkp
      cases hkp
    · rcases List.mem_cons.1 hq with rfl | hq
      · rw [hnot] at hkq
        cases hkq
      · exact congrArg Prod.fst (List.inj_on_of_nodup_map hadds.nodup hp hq hpq)
  · cases hw : tableWalk m.mem s.l4 (owned off) page.path with
    | none => rfl
    | some g =>
      refine absurd hmapped.mappable (RadixHeap.not_holed_of_walk ?_ hw)
      rintro e rfl
      exact PageTableEntry.next_zero

/-! ## A new space -/

theorem newAddressSpace_inOrder {cr3 l4 : PhysFrame} (hv : S.valid m.frames)
    (hcr3 : cr3 ∉ S.free m.frames) (h : newAddressSpace A m cr3 off = .ok (l4, m')) :
    InOrder S off m' ⟨l4, (0, 0)⟩ ∧ frames off m'.mem ⟨l4, (0, 0)⟩ = {l4} := by
  obtain ⟨hspace, -, -, hlone⟩ := newAddressSpace_own hv hcr3 (fun _ hi => Or.inl hi) h
  have horder : InOrder S off m' ⟨l4, (0, 0)⟩ := by
    refine ⟨hspace, ?_, Nat.zero_le _⟩
    rintro π ρ f ⟨-, -, hπ⟩ ⟨-, -, hρ⟩
    rw [(hlone π f hπ).1, (hlone ρ f hρ).1]
  refine ⟨horder, Set.ext fun f => ?_⟩
  rw [horder.mem_frames, Set.mem_singleton_iff]
  constructor
  · rintro ⟨π, -, -, hπ⟩
    exact (hlone π f hπ).2
  · rintro rfl
    exact ⟨[], rfl, Nat.zero_le 4, rfl⟩

theorem filled_nothing {l4 : PhysFrame} {mem : PhysMem} :
    Filled lent off mem ⟨l4, (0, 0)⟩ := by
  intro page hpage
  obtain ⟨-, hlt⟩ := inRange_iff.1 hpage
  exact absurd hlt (Nat.not_lt_zero _)

/-! ## Lending a stack -/

section Lend

variable {l4 cr3 : PhysFrame} {borrowed : ℕ × ℕ} {pool : Set PhysFrame} {mapTo : MapTo σ}

/-- To borrow a range leaves a space in order. -/
theorem InOrder.lend (h : InOrder S off m ⟨l4, (0, 0)⟩) (hb : borrowed.2 ≤ 0x800000000000) :
    InOrder S off m ⟨l4, borrowed⟩ := by
  refine ⟨h.space, ?_, hb⟩
  rintro π ρ f ⟨hπ, hlen, hf⟩ ⟨hρ, hlen', hf'⟩
  exact h.once π ρ f ⟨kept_nothing_borrowed hπ, hlen, hf⟩ ⟨kept_nothing_borrowed hρ, hlen', hf'⟩

theorem InOrder.frames_lend_subset (h : InOrder S off m ⟨l4, (0, 0)⟩)
    (hb : borrowed.2 ≤ 0x800000000000) :
    frames off m.mem ⟨l4, borrowed⟩ ⊆ frames off m.mem ⟨l4, (0, 0)⟩ := by
  intro f hf
  obtain ⟨π, hkept, hlen, hf⟩ := (h.lend hb).mem_frames.1 hf
  exact h.mem_frames.2 ⟨π, kept_nothing_borrowed hkept, hlen, hf⟩

/-- It owns no less for it if it had nothing mapped there. -/
theorem InOrder.frames_lend (h : InOrder S off m ⟨l4, (0, 0)⟩)
    (hb : borrowed.2 ≤ 0x800000000000)
    (hnone : ∀ page : Page, inRange borrowed page.start.val = true →
      tableWalk m.mem l4 (owned off) page.path = none) :
    frames off m.mem ⟨l4, borrowed⟩ = frames off m.mem ⟨l4, (0, 0)⟩ := by
  refine Set.Subset.antisymm (h.frames_lend_subset hb) fun f hf => ?_
  obtain ⟨π, hkept, hlen, hf⟩ := h.mem_frames.1 hf
  refine (h.lend hb).mem_frames.2 ⟨π, ?_, hlen, hf⟩
  by_cases hshort : π.length ≤ 3
  · exact kept_of_short hshort (owned_of_kept hkept)
  · -- a path of full length is that of a page
    obtain ⟨i, j, k, l, rfl⟩ : ∃ i j k l, π = [i, j, k, l] := by
      rw [← List.length_eq_four]
      omega
    obtain ⟨page, hpage⟩ := Page.exists_path i j k l
    rw [← hpage] at hkept hf ⊢
    refine (kept_path hb).2 ⟨owned_of_kept hkept _ rfl, ?_⟩
    by_contra hrange
    have hnone' := hnone page (Bool.eq_true_of_not_eq_false hrange)
    have hf' : tableWalk m.mem l4 (owned off) page.path = some f := hf
    rw [hnone'] at hf'
    cases hf'

/-- **Sharing pages of the heap**, one after the other: the space grows by tables only. -/
theorem shareStackLoop_grown (hexact : S.Exact) (hmap : MapTo.Documented A mapTo)
    {firstPage : Page} {l : List ℕ} (h : s.InOrder S off m) (hw : s.Within S off pool m)
    (hlent : ∀ mem : PhysMem, (∀ x, x ∉ pool → mem x = m.mem x) →
      ∀ page, translatePage mem cr3 page = lent page)
    (hpages : ∀ i ∈ l, ∀ page, firstPage.add i = .ok page →
      owned off page.start.p4Index = true ∧ inRange s.borrowed page.start.val = true ∧
        ∀ f, lent page = some f → f ∉ pool)
    (hrun : l.foldlM (shareStackPage mapTo cr3 s.l4 firstPage) m = .ok m') :
    (∃ taken, Grown S off s m m' taken) ∧ ∀ i ∈ l, ∀ page, firstPage.add i = .ok page →
      tableWalk m.mem s.l4 (owned off) page.path = none ∧
        ∃ f, lent page = some f ∧ tableWalk m'.mem s.l4 (owned off) page.path = some f := by
  induction l generalizing m with
  | nil =>
    cases hrun
    exact ⟨⟨∅, Grown.refl h⟩, by simp⟩
  | cons i l ih =>
    rw [List.forall_mem_cons] at hpages
    rw [List.foldlM_cons] at hrun
    obtain ⟨m₁, h₁, hrun⟩ := bind_eq_ok hrun
    obtain ⟨page, f, hpage, hf, hto⟩ := shareStackPage_eq_ok hmap h₁
    rw [hlent m.mem fun _ _ => rfl] at hf
    obtain ⟨hown, hrange, hout⟩ := hpages.1 page hpage
    have hf' := hout f hf
    obtain ⟨⟨taken, hone⟩, hnone, hsome⟩ := h.mapBorrowed hexact hw.used plain_kernelFlags hown
      hrange (fun hc => hf' (hw.free hc)) (fun hc => hf' (hw.frames hc)) hto
    obtain ⟨⟨taken', hrest⟩, hall⟩ := ih hone.order (hw.grown hone)
      (fun mem hmem => hlent mem fun x hx => (hmem x hx).trans (hw.outside hone x hx))
      hpages.2 hrun
    refine ⟨⟨_, hone.trans hrest⟩, ?_⟩
    rw [List.forall_mem_cons]
    constructor
    · intro page' hpage'
      obtain rfl := Except.ok.inj (hpage.symm.trans hpage')
      exact ⟨hnone, f, hf, hrest.walks page.path f le_rfl hsome⟩
    · intro j hj page' hpage'
      obtain ⟨hnone', hsome'⟩ := hall j hj page' hpage'
      refine ⟨?_, hsome'⟩
      -- what is not mapped after the first page was not mapped before
      cases hbefore : tableWalk m.mem s.l4 (owned off) page'.path with
      | none => rfl
      | some g =>
        rw [hone.walks page'.path g le_rfl hbefore] at hnone'
        cases hnone'

/-- The pages of a range as long as a stack. -/
theorem exists_add_of_inRange {stackBase : ℕ} {v : VirtAddr} {page : Page}
    (ha : stackBase % 4096 = 0) (hlow : stackBase + threadStackSize ≤ 0x800000000000)
    (hv : VirtAddr.new stackBase = .ok v)
    (hpage : inRange (stackBase, stackBase + threadStackSize) page.start.val = true) :
    ∃ i < threadStackSize / 4096, (Page.containing v).add i = .ok page := by
  have hsize : threadStackSize = 65536 := rfl
  obtain ⟨v', hv', hpages⟩ := exists_stackPages ha hlow
  obtain rfl := Except.ok.inj (hv.symm.trans hv')
  obtain ⟨hlo, hhi⟩ := inRange_iff.1 hpage
  have haligned := page.aligned
  refine ⟨(page.start.val - stackBase) / 4096, ?_, ?_⟩
  · simp only at hlo hhi
    omega
  · obtain ⟨page', hpage', hstart⟩ := hpages ((page.start.val - stackBase) / 4096) (by
      simp only at hlo hhi
      omega)
    have heq : page' = page := by
      refine Page.ext (VirtAddr.ext ?_)
      rw [hstart]
      simp only at hlo
      omega
    rw [hpage', heq]

/-- And the other way round. -/
theorem inRange_of_add {stackBase i : ℕ} {v : VirtAddr} {page : Page}
    (ha : stackBase % 4096 = 0) (hlow : stackBase + threadStackSize ≤ 0x800000000000)
    (hv : VirtAddr.new stackBase = .ok v) (hi : i < threadStackSize / 4096)
    (hpage : (Page.containing v).add i = .ok page) :
    inRange (stackBase, stackBase + threadStackSize) page.start.val = true := by
  have hsize : threadStackSize = 65536 := rfl
  obtain ⟨v', hv', hpages⟩ := exists_stackPages ha hlow
  obtain rfl := Except.ok.inj (hv.symm.trans hv')
  obtain ⟨page', hpage', hstart⟩ := hpages i hi
  obtain rfl := Except.ok.inj (hpage.symm.trans hpage')
  rw [inRange_iff, hstart]
  exact ⟨Nat.le_add_right _ _, by simp only; omega⟩

/-- **Lending a stack**: a space that had borrowed nothing has the pages of the stack now, and has
grown by tables only. -/
theorem InOrder.lendStack (hexact : S.Exact) (hmap : MapTo.Documented A mapTo) {stackBase : ℕ}
    (h : InOrder S off m ⟨l4, (0, 0)⟩) (hw : Within S off pool m ⟨l4, (0, 0)⟩)
    (hlent : ∀ mem : PhysMem, (∀ x, x ∉ pool → mem x = m.mem x) →
      ∀ page, translatePage mem cr3 page = lent page)
    (ha : stackBase % 4096 = 0) (hlow : stackBase + threadStackSize ≤ 0x800000000000)
    (hpages : ∀ page : Page, inRange (stackBase, stackBase + threadStackSize) page.start.val = true →
      owned off page.start.p4Index = true ∧ ∀ f, lent page = some f → f ∉ pool)
    (hrun : shareStack mapTo cr3 l4 stackBase m = .ok m') :
    (∃ taken, Grown S off ⟨l4, (stackBase, stackBase + threadStackSize)⟩ m m' taken) ∧
      frames off m.mem ⟨l4, (stackBase, stackBase + threadStackSize)⟩ =
        frames off m.mem ⟨l4, (0, 0)⟩ ∧
      Filled lent off m'.mem ⟨l4, (stackBase, stackBase + threadStackSize)⟩ := by
  obtain ⟨v, hv, hrun⟩ := shareStack_eq_ok hrun
  have hlow' : (stackBase, stackBase + threadStackSize).2 ≤ 0x800000000000 := hlow
  have hsub := h.frames_lend_subset hlow'
  have hw' : Within S off pool m ⟨l4, (stackBase, stackBase + threadStackSize)⟩ :=
    ⟨fun f hf => hw.used f (hsub hf), hw.free, hsub.trans hw.frames⟩
  obtain ⟨hgrown, hall⟩ := shareStackLoop_grown hexact hmap (h.lend hlow') hw' hlent (by
    intro i hi page hpage
    have hrange := inRange_of_add ha hlow hv (List.mem_range.1 hi) hpage
    exact ⟨(hpages page hrange).1, hrange, (hpages page hrange).2⟩) hrun
  have hall' : ∀ page : Page,
      inRange (stackBase, stackBase + threadStackSize) page.start.val = true →
      tableWalk m.mem l4 (owned off) page.path = none ∧
        ∃ f, lent page = some f ∧ tableWalk m'.mem l4 (owned off) page.path = some f := by
    intro page hrange
    obtain ⟨i, hi, hpage⟩ := exists_add_of_inRange ha hlow hv hrange
    exact hall i (List.mem_range.2 hi) page hpage
  exact ⟨hgrown, h.frames_lend hlow' fun page hrange => (hall' page hrange).1,
    fun page hrange => (hall' page hrange).2⟩

end Lend

/-! ## Giving a space back -/

/-- **Freeing a space** in good order returns, and gives back what the space owns. -/
theorem InOrder.freed (hexact : S.Exact) (h : s.InOrder S off m)
    (hused : ∀ f ∈ s.frames off m.mem, f ∉ S.free m.frames) :
    freeAddressSpace A off s.borrowed s.l4 m =
        .ok (m.deallocateAll A (freedBySpace m.mem off s.borrowed s.l4)) ∧
      S.valid (m.deallocateAll A (freedBySpace m.mem off s.borrowed s.l4)).frames ∧
      S.free (m.deallocateAll A (freedBySpace m.mem off s.borrowed s.l4)).frames =
        S.free m.frames ∪ s.frames off m.mem := by
  have hmem : {f | f ∈ freedBySpace m.mem off s.borrowed s.l4} = s.frames off m.mem := by
    ext f
    rw [Set.mem_ofPred_eq, h.mem_freed, h.mem_frames]
  obtain ⟨hvalid, hfree⟩ := free_deallocateAll hexact h.space.valid h.nodup_freed (by
    intro f hf
    refine hused f ?_
    rw [← hmem]
    exact hf)
  rw [hmem] at hfree
  exact ⟨h.space.freeAddressSpace fun _ hi => hi, hvalid, hfree⟩

end Account

end AddrSpace
