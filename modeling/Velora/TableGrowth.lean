/-
# What a mapping adds

The account of frames behind an address space.  While pages are mapped, the paths that
lead somewhere become more, and the free frames become fewer; `Adds` keeps both lists.
Linking a table adds one path and takes the frame it leads to, writing the last entry adds
a path and takes nothing, and taking a frame for data does the reverse; the lists of a
whole `map_to` and of a run of them are put together from these (`Adds.trans`).

For this the allocator must be known more exactly than in `FrameAllocator.Spec`: what
is handed out is all that is lost, and what is given back is available again
(`FrameAllocator.Spec.Exact`).
-/
import Velora.BootInfoFrameAllocator
import Velora.FreedFrames

/-! ## Exact allocators -/

/-- Handing out a frame loses that frame only, and a frame that is given back is free again. -/
structure FrameAllocator.Spec.Exact {σ : Type} {A : FrameAllocator σ} (S : A.Spec) : Prop where
  removed : ∀ {s s' f}, S.valid s → A.allocateFrame s = some (f, s') → S.free s' = S.free s \ {f}
  returned : ∀ {s f}, S.valid s → f ∉ S.free s →
    S.valid (A.deallocateFrame s f) ∧ S.free (A.deallocateFrame s f) = insert f (S.free s)

theorem bootInfoSpec_exact : bootInfoSpec.Exact where
  removed := by
    intro a a' f hnodup h
    have hsupply := BootInfoFrameAllocator.supply_of_allocateFrame h
    have hnotin : f ∉ a'.supply := by
      have hnodup' : a.supply.Nodup := hnodup
      rw [hsupply, List.nodup_cons] at hnodup'
      exact hnodup'.1
    ext x
    show x ∈ a'.supply ↔ x ∈ a.supply ∧ x ≠ f
    rw [hsupply, List.mem_cons]
    constructor
    · intro hx
      exact ⟨Or.inr hx, fun hc => hnotin (hc ▸ hx)⟩
    · rintro ⟨hx, hne⟩
      exact hx.resolve_left hne
  returned := by
    intro a f hnodup hf
    refine ⟨List.nodup_cons.2 ⟨hf, hnodup⟩, ?_⟩
    ext x
    exact List.mem_cons

section Growth

variable {σ : Type} {A : FrameAllocator σ} {S : A.Spec} {r : PhysFrame} {vis own : Fin 512 → Bool}
  {m m' m'' : Machine σ}

/-- **Giving frames back**, each once and none of them free. -/
theorem free_deallocateAll (hexact : S.Exact) {fs : List PhysFrame} (hv : S.valid m.frames)
    (hnodup : fs.Nodup) (hused : ∀ f ∈ fs, f ∉ S.free m.frames) :
    S.valid (m.deallocateAll A fs).frames ∧
      S.free (m.deallocateAll A fs).frames = S.free m.frames ∪ {f | f ∈ fs} := by
  induction fs generalizing m with
  | nil =>
    refine ⟨hv, ?_⟩
    simp [Machine.deallocateAll]
  | cons f fs ih =>
    rw [List.nodup_cons] at hnodup
    obtain ⟨hv', hfree⟩ := hexact.returned hv (hused f List.mem_cons_self)
    obtain ⟨hv'', hfree'⟩ := ih (m := m.deallocate A f) hv' hnodup.2 (by
      intro g hg hc
      have hc' : g ∈ S.free (A.deallocateFrame m.frames f) := hc
      rw [hfree, Set.mem_insert_iff] at hc'
      rcases hc' with rfl | hc'
      · exact hnodup.1 hg
      · exact hused g (List.mem_cons_of_mem f hg) hc')
    refine ⟨hv'', ?_⟩
    have hdealloc : S.free (m.deallocate A f).frames = insert f (S.free m.frames) := hfree
    rw [show m.deallocateAll A (f :: fs) = (m.deallocate A f).deallocateAll A fs from rfl, hfree',
      hdealloc]
    ext g
    simp only [Set.mem_union, Set.mem_insert_iff, Set.mem_ofPred_eq, List.mem_cons]
    tauto

/-! ## Paths and frames -/

/-- A path of indices, and the frame it leads to. -/
abbrev Reached := List (Fin 512) × PhysFrame

/-- **Between two machines** the given paths have been added to those that lead somewhere below
`r`, and the given frames have been taken. -/
structure Adds (S : A.Spec) (r : PhysFrame) (vis : Fin 512 → Bool) (m m' : Machine σ)
    (added : List Reached) (taken : List PhysFrame) : Prop where
  walk : ∀ π x, π.length ≤ 4 → (tableWalk m'.mem r vis π = some x ↔
    tableWalk m.mem r vis π = some x ∨ (π, x) ∈ added)
  free : S.free m'.frames = S.free m.frames \ {x | x ∈ taken}
  fresh : ∀ x ∈ taken, x ∈ S.free m.frames
  nodup : taken.Nodup

theorem Adds.refl : Adds S r vis m m [] [] where
  walk := by simp
  free := by simp
  fresh := by simp
  nodup := List.nodup_nil

theorem Adds.trans {added added' : List Reached} {taken taken' : List PhysFrame}
    (h : Adds S r vis m m' added taken) (h' : Adds S r vis m' m'' added' taken') :
    Adds S r vis m m'' (added' ++ added) (taken' ++ taken) where
  walk := by
    intro π x hπ
    rw [h'.walk π x hπ, h.walk π x hπ, List.mem_append]
    tauto
  free := by
    rw [h'.free, h.free]
    ext x
    simp only [Set.mem_sdiff, Set.mem_ofPred_eq, List.mem_append]
    tauto
  fresh := by
    intro x hx
    rcases List.mem_append.1 hx with hx | hx
    · have hfree := h'.fresh x hx
      rw [h.free] at hfree
      exact hfree.1
    · exact h.fresh x hx
  nodup := by
    refine List.Nodup.append h'.nodup h.nodup ?_
    intro x hx hx'
    have hfree := h'.fresh x hx
    rw [h.free] at hfree
    exact hfree.2 hx'

theorem Adds.perm {added : List Reached} {taken taken' : List PhysFrame}
    (h : Adds S r vis m m' added taken) (hperm : taken.Perm taken') :
    Adds S r vis m m' added taken' where
  walk := h.walk
  free := by
    rw [h.free]
    ext x
    simp only [Set.mem_sdiff, Set.mem_ofPred_eq, hperm.mem_iff]
  fresh := fun x hx => h.fresh x (hperm.mem_iff.2 hx)
  nodup := hperm.nodup_iff.1 h.nodup

/-- Taking a frame. -/
theorem Adds.allocate (hexact : S.Exact) (hv : S.valid m.frames) {f : PhysFrame}
    (ha : m.allocate A = some (f, m')) : Adds S r vis m m' [] [f] := by
  obtain ⟨halloc, hmem, -⟩ := Machine.allocate_eq_some ha
  refine ⟨?_, ?_, ?_, List.nodup_singleton f⟩
  · intro π x _
    rw [hmem]
    simp
  · rw [hexact.removed hv halloc]
    ext x
    simp
  · intro x hx
    rw [List.mem_singleton.1 hx]
    exact (S.allocate hv halloc).2.1

/-- A table is at one path only, so an entry of it adds one path. -/
theorem Space.mem_added_iff (hs : Space S r vis own m) {ρ π : List (Fin 512)} {t c x : PhysFrame}
    {i : Fin 512} (hρ : ρ.length ≤ 3) (ht : tableWalk m.mem r vis ρ = some t) (hπ : π.length ≤ 4) :
    (x = c ∧ ∃ ρ', π = ρ' ++ [i] ∧ tableWalk m.mem r vis ρ' = some t) ↔
      (π, x) ∈ [(ρ ++ [i], c)] := by
  rw [List.mem_singleton, Prod.mk.injEq]
  constructor
  · rintro ⟨rfl, ρ', rfl, hρ'⟩
    rw [List.length_append, List.length_singleton] at hπ
    rw [hs.tree ρ' ρ t (by omega) hρ hρ' ht]
    exact ⟨rfl, rfl⟩
  · rintro ⟨rfl, rfl⟩
    exact ⟨rfl, ρ, rfl, ht⟩

/-- Linking a table. -/
theorem Adds.link {ρ : List (Fin 512)} {t c : PhysFrame} {i : Fin 512} {flags : Word}
    (hexact : S.Exact) (hs : Space S r vis own m) (hfl : PageTableEntry.Plain flags)
    (hρ : ρ.length ≤ 2) (ht : MapsTo m.mem r vis ρ t) (hvis : t = r → vis i = true)
    (hzero : m.mem t i = 0) (ha : A.allocateFrame m.frames = some (c, m'.frames))
    (hl : Linked S m m' t i c flags) : Adds S r vis m m' [(ρ ++ [i], c)] [c] where
  walk := by
    intro π x hπ
    rw [Linked.tableWalk_iff hs hfl hvis hzero hl hπ]
    exact or_congr Iff.rfl (hs.mem_added_iff (by omega) ht.walk hπ)
  free := by
    rw [hexact.removed hs.valid ha]
    ext x
    simp
  fresh := by
    intro x hx
    rw [List.mem_singleton.1 hx]
    exact hl.free
  nodup := List.nodup_singleton c

/-- Adding flags to an entry in use. -/
theorem Adds.mark {t : PhysFrame} {i : Fin 512} {flags : Word} (hfl : PageTableEntry.Plain flags)
    (hne : m.mem t i ≠ 0) (hm' : m' = m.write (m.mem.setEntry t i (m.mem t i ||| flags))) :
    Adds S r vis m m' [] [] where
  walk := by
    intro π x _
    rw [mark_tableWalk hfl hne hm']
    simp
  free := by
    rw [hm']
    simp
  fresh := by simp
  nodup := List.nodup_nil

/-- Writing the last entry. -/
theorem Adds.leaf {ρ : List (Fin 512)} {t f : PhysFrame} {i : Fin 512} {flags : Word}
    (hs : Space S r vis own m) (hfl : PageTableEntry.Plain flags) (hρ : ρ.length = 3)
    (ht : MapsTo m.mem r vis ρ t) (hvis : t = r → vis i = true) (hzero : m.mem t i = 0)
    (hf : ¬ IsTable m.mem r vis f)
    (hm' : m' = m.write (m.mem.setEntry t i (PageTableEntry.setFrame f flags))) :
    Adds S r vis m m' [(ρ ++ [i], f)] [] where
  walk := by
    intro π x hπ
    -- the new path is of full length, so nothing behind the frame is reached
    have hend : ∀ ρ', RadixHeap.walk PageTableEntry.next (view m.mem r vis) r ρ' = some t →
        4 ≤ ρ'.length + 1 := by
      intro ρ' hρ'
      by_contra hlt
      rw [hs.tree ρ' ρ t (by omega) hρ.le hρ' ht.walk] at hlt
      omega
    rw [tableWalk, RadixHeap.walk_graft (leaf_graft hfl hvis hzero hm')
      (fun ρ' hlt hc => hf ⟨ρ', by omega, hc⟩) (Or.inr hend) hπ]
    exact or_congr Iff.rfl (hs.mem_added_iff hρ.le ht.walk hπ)
  free := by
    rw [hm']
    simp
  fresh := by simp
  nodup := List.nodup_nil

/-- Writing to a frame that is no table. -/
theorem Adds.fill {f : PhysFrame} {mem : PhysMem} (hf : ¬ IsTable m.mem r vis f)
    (hother : ∀ x, x ≠ f → mem x = m.mem x) : Adds S r vis m (m.write mem) [] [] where
  walk := by
    intro π x hπ
    rw [Machine.write_mem, fill_tableWalk hf hother hπ]
    simp
  free := by simp
  fresh := by simp
  nodup := List.nodup_nil

/-! ## A whole mapping -/

/-- **What `map_to` adds**: the path of the page, which leads to its frame, and paths on the way
to it, which lead to new tables. -/
theorem mapPath_adds (hexact : S.Exact) {flags : Word} {path : List (Fin 512)} {f : PhysFrame}
    (hs : Space S r vis own m) (hfl : PageTableEntry.Plain flags) (hlen : path.length = 4)
    (hvis : ∀ h ∈ path.head?, vis h = true) (hf : ¬ IsTable m.mem r vis f)
    (hfree : f ∉ S.free m.frames)
    (h : mapPath A flags (PageTableEntry.setFrame f flags) m r path = .ok m') :
    ∃ tables : List Reached, (∀ p ∈ tables, p.1 ≠ [] ∧ p.1 <+: path ∧ p.1.length ≤ 3) ∧
      Adds S r vis m m' ((path, f) :: tables) (tables.map Prod.snd) := by
  refine mapPath_space_rule (J := fun m₁ ρ _ => ∃ tables : List Reached,
      (∀ p ∈ tables, p.1 ≠ [] ∧ p.1 <+: ρ ∧ p.1.length ≤ 3) ∧
        Adds S r vis m m₁ tables (tables.map Prod.snd))
    (Q := fun m₁ => ∃ tables : List Reached,
      (∀ p ∈ tables, p.1 ≠ [] ∧ p.1 <+: path ∧ p.1.length ≤ 3) ∧
        Adds S r vis m m₁ ((path, f) :: tables) (tables.map Prod.snd))
    hs hfl hlen hvis hf hfree ⟨[], by simp, Adds.refl⟩ ?_ ?_ ?_ h
  · rintro m₁ m₂ ρ t i c hw hρ hzero ha hl ⟨tables, htables, hadds⟩
    refine ⟨(ρ ++ [i], c) :: tables, ?_,
      hadds.trans (Adds.link hexact hw.space hfl hρ hw.maps hw.visible hzero ha hl)⟩
    rw [List.forall_mem_cons]
    refine ⟨⟨by simp, List.prefix_rfl, ?_⟩, ?_⟩
    · rw [List.length_append, List.length_singleton]
      omega
    · intro p hp
      obtain ⟨hne, hpre, hle⟩ := htables p hp
      exact ⟨hne, hpre.trans (List.prefix_append ρ [i]), hle⟩
  · rintro m₁ m₂ ρ t i hw hρ hne hh hm₂ ⟨tables, htables, hadds⟩
    refine ⟨tables, ?_, hadds.trans (Adds.mark hfl hne hm₂)⟩
    intro p hp
    obtain ⟨hne', hpre, hle⟩ := htables p hp
    exact ⟨hne', hpre.trans (List.prefix_append ρ [i]), hle⟩
  · rintro m₁ m₂ ρ t i hw hρ hpath hzero hf₁ hm₂ ⟨tables, htables, hadds⟩
    refine ⟨tables, ?_, ?_⟩
    · intro p hp
      obtain ⟨hne, hpre, hle⟩ := htables p hp
      exact ⟨hne, hpath ▸ hpre.trans (List.prefix_append ρ [i]), hle⟩
    · rw [hpath]
      exact hadds.trans (Adds.leaf hw.space hfl hρ hw.maps hw.visible hzero hf₁ hm₂)

/-- **Mapping a new frame** adds paths to new frames only. -/
theorem freshMapped_adds (hexact : S.Exact) {flags : Word} {path : List (Fin 512)} {f : PhysFrame}
    {m₁ m₂ : Machine σ} {mem : PhysMem} (hs : Space S r vis own m)
    (hfl : PageTableEntry.Plain flags) (hlen : path.length = 4)
    (hvis : ∀ h ∈ path.head?, vis h = true) (ha : m.allocate A = some (f, m₁))
    (hmap : mapPath A flags (PageTableEntry.setFrame f flags) m₁ r path = .ok m₂)
    (hother : ∀ x, x ≠ f → mem x = m₂.mem x) :
    ∃ added : List Reached, (path, f) ∈ added ∧ (∀ p ∈ added, p.1 ≠ [] ∧ p.1 <+: path) ∧
      Adds S r vis m (m₂.write mem) added (added.map Prod.snd) := by
  obtain ⟨hs₁, -, hfree, hused, -⟩ := hs.allocate ha
  have hmem : m₁.mem = m.mem := (Machine.allocate_eq_some ha).2.1
  have hf₁ : ¬ IsTable m₁.mem r vis f := hmem ▸ hs.not_isTable hfree
  have hext := (mapPath_spec hs₁ hfl hlen hvis hf₁ hused hmap).ext
  obtain ⟨tables, htables, hadds⟩ := mapPath_adds hexact hs₁ hfl hlen hvis hf₁ hused hmap
  refine ⟨(path, f) :: tables, List.mem_cons_self, ?_, ?_⟩
  · rw [List.forall_mem_cons]
    refine ⟨⟨?_, List.prefix_rfl⟩, fun p hp => ⟨(htables p hp).1, (htables p hp).2.1⟩⟩
    rintro rfl
    cases hlen
  · have hall := ((Adds.allocate hexact hs.valid ha).trans hadds).trans
      (Adds.fill (hext.not_isTable hf₁ hused) hother)
    rw [List.nil_append, List.append_nil, List.nil_append] at hall
    exact hall.perm (List.perm_append_singleton f _)

end Growth
