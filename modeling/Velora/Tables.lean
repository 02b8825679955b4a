/-
# The tables of an address space

What `map_to` does to the tables below one level-4 table, said once for every use
made of it.

* `Space`: the tables are in good order.  They form a tree, none of them is free, and
  the entries the space owns are unused, or present and no huge pages.
* `Extends`: how memory and allocator may change while pages are mapped.
* `MapsTo`: a page is mapped, through present entries at every level.
* `Mappable`: a page can be mapped, its walk meets an unused entry.

Linking a table, going on through an entry in use and writing the last entry are
looked at one by one (`Linked`, then the sections `Mark` and `Leaf`); `mapPath_spec`
and `exists_mapPath_eq_ok` put them together.
-/
import Velora.Mapping

/-! ## The tables below a level-4 table

`vis` says which entries of the level-4 table are looked at: all of them, or only those that
the address space does not share with the kernel. -/

/-- Memory with the entries of `r` that are not looked at blanked out. -/
def view (mem : PhysMem) (r : PhysFrame) (vis : Fin 512 → Bool) : PhysMem := fun x j =>
  if x = r ∧ vis j = false then 0 else mem x j

theorem view_apply {mem : PhysMem} {r x : PhysFrame} {vis : Fin 512 → Bool} {j : Fin 512}
    (h : x = r → vis j = true) : view mem r vis x j = mem x j := by
  refine if_neg ?_
  rintro ⟨hx, hv⟩
  rw [h hx] at hv
  cases hv

/-- An entry that is seen to be in use is one that is looked at. -/
theorem view_of_ne_zero {mem : PhysMem} {r x : PhysFrame} {vis : Fin 512 → Bool} {j : Fin 512}
    (h : view mem r vis x j ≠ 0) : view mem r vis x j = mem x j := by
  by_cases hc : x = r ∧ vis j = false
  · exact absurd (if_pos hc) h
  · exact if_neg hc

/-- Following the tables along a path. -/
def tableWalk (mem : PhysMem) (r : PhysFrame) (vis : Fin 512 → Bool) (path : List (Fin 512)) :
    Option PhysFrame :=
  RadixHeap.walk PageTableEntry.next (view mem r vis) r path

/-- Frame `x` is one of the tables below `r`, or `r` itself. -/
def IsTable (mem : PhysMem) (r : PhysFrame) (vis : Fin 512 → Bool) (x : PhysFrame) : Prop :=
  ∃ path : List (Fin 512), path.length ≤ 3 ∧ tableWalk mem r vis path = some x

/-- A page can be mapped: its walk meets an unused entry. -/
def Mappable (mem : PhysMem) (r : PhysFrame) (vis : Fin 512 → Bool) (path : List (Fin 512)) :
    Prop :=
  RadixHeap.Holed (· = 0) PageTableEntry.next (view mem r vis) r path

/-- The tables along `path` lead to `f`, through present entries only. -/
structure MapsTo (mem : PhysMem) (r : PhysFrame) (vis : Fin 512 → Bool) (path : List (Fin 512))
    (f : PhysFrame) : Prop where
  walk : tableWalk mem r vis path = some f
  present : ∀ ρ j x, ρ ++ [j] <+: path → tableWalk mem r vis ρ = some x →
    PageTableEntry.present (mem x j) = true

theorem MapsTo.nil (mem : PhysMem) (r : PhysFrame) (vis : Fin 512 → Bool) :
    MapsTo mem r vis [] r := by
  refine ⟨rfl, ?_⟩
  intro ρ j x hpre
  exact absurd (List.prefix_nil.1 hpre) (by simp)

/-- What is mapped this way is what the processor finds. -/
theorem MapsTo.follow {mem : PhysMem} {r f : PhysFrame} {vis : Fin 512 → Bool}
    {path : List (Fin 512)} (h : MapsTo mem r vis path f) :
    RadixHeap.walk PageTableEntry.follow mem r path = some f := by
  refine RadixHeap.walk_mono ?_ h.walk
  intro ρ j x y hpre hx hy
  obtain ⟨hne, hh, hf⟩ := PageTableEntry.next_eq_some.1 hy
  have hp := h.present ρ j x hpre hx
  rw [view_of_ne_zero hne] at hh hf
  exact PageTableEntry.follow_eq_some.2 ⟨hp, hh, hf⟩

/-- One step further. -/
theorem MapsTo.concat {mem : PhysMem} {r t c : PhysFrame} {vis : Fin 512 → Bool}
    {ρ : List (Fin 512)} {i : Fin 512} (h : MapsTo mem r vis ρ t) (hvis : t = r → vis i = true)
    (hi : PageTableEntry.follow (mem t i) = some c) : MapsTo mem r vis (ρ ++ [i]) c where
  walk := by
    refine RadixHeap.walk_concat_eq_some.2 ⟨t, h.walk, ?_⟩
    rw [view_apply hvis]
    exact PageTableEntry.next_of_follow hi
  present := by
    intro ρ' j x hpre hx
    rcases List.prefix_concat_iff.1 hpre with heq | hpre
    · obtain ⟨rfl, hj⟩ := List.append_inj' heq rfl
      obtain rfl := (List.cons.inj hj).1
      rw [h.walk] at hx
      obtain rfl := Option.some.inj hx
      exact (PageTableEntry.follow_eq_some.1 hi).1
    · exact h.present ρ' j x hpre hx

section Tables

variable {σ : Type} {A : FrameAllocator σ}

/-- **The tables of an address space in good order**: no table is reached in two ways, none is
free, and in the part the space owns every entry is unused or present and no huge page. -/
structure Space (S : A.Spec) (r : PhysFrame) (vis own : Fin 512 → Bool) (m : Machine σ) :
    Prop where
  valid : S.valid m.frames
  tree : RadixHeap.TreeTo PageTableEntry.next (view m.mem r vis) r 3
  used : ∀ x, IsTable m.mem r vis x → x ∉ S.free m.frames
  proper : ∀ (path : List (Fin 512)) x j, path.length ≤ 3 →
    tableWalk m.mem r vis path = some x → (∀ h ∈ (path ++ [j]).head?, own h = true) →
    m.mem x j = 0 ∨ (PageTableEntry.present (m.mem x j) = true ∧
      PageTableEntry.huge (m.mem x j) = false)

/-- **What mapping may do**: take free frames; fill unused entries and add flags to others, in
tables; nothing else to a frame that was not free, or that was not handed out. -/
structure Extends (S : A.Spec) (r : PhysFrame) (vis : Fin 512 → Bool) (m m' : Machine σ) :
    Prop where
  free : S.free m'.frames ⊆ S.free m.frames
  log : m.log ⊆ m'.log
  tables : ∀ x, IsTable m'.mem r vis x →
    IsTable m.mem r vis x ∨ (x ∈ S.free m.frames ∧ x ∈ m'.log)
  grows : ∀ x, x ∉ S.free m.frames → ∀ j, PageTableEntry.Grows (m.mem x j) (m'.mem x j)
  untouched : ∀ x, x ∉ S.free m.frames ∨ x ∉ m'.log → ¬ IsTable m.mem r vis x →
    m'.mem x = m.mem x

variable {S : A.Spec} {r : PhysFrame} {vis own : Fin 512 → Bool} {m m' m'' : Machine σ}

theorem Extends.refl : Extends S r vis m m where
  free := Set.Subset.refl _
  log := List.Subset.refl _
  tables := fun _ h => Or.inl h
  grows := fun _ _ _ => PageTableEntry.Grows.refl _
  untouched := fun _ _ _ => rfl

/-- What extends an extension extends. -/
theorem Extends.trans (h : Extends S r vis m m') (h' : Extends S r vis m' m'') :
    Extends S r vis m m'' where
  free := h'.free.trans h.free
  log := List.Subset.trans h.log h'.log
  tables := by
    intro x hx
    rcases h'.tables x hx with hx | ⟨hx, hlog⟩
    · rcases h.tables x hx with hx | ⟨hx, hlog⟩
      · exact Or.inl hx
      · exact Or.inr ⟨hx, h'.log hlog⟩
    · exact Or.inr ⟨h.free hx, hlog⟩
  grows := by
    intro x hx j
    exact (h.grows x hx j).trans (h'.grows x (fun hc => hx (h.free hc)) j)
  untouched := by
    intro x hx ht
    have hx' : x ∉ S.free m.frames ∨ x ∉ m'.log := hx.imp_right fun hc hl => hc (h'.log hl)
    have hx'' : x ∉ S.free m'.frames ∨ x ∉ m''.log := hx.imp_left fun hc hf => hc (h.free hf)
    have ht' : ¬ IsTable m'.mem r vis x := by
      intro hc
      rcases h.tables x hc with hc | ⟨hfree, hlog⟩
      · exact ht hc
      · exact hx'.elim (· hfree) (· hlog)
    rw [h'.untouched x hx'' ht', h.untouched x hx' ht]

/-- Mapping keeps what is mapped. -/
theorem MapsTo.extends (hs : Space S r vis own m) (he : Extends S r vis m m')
    {path : List (Fin 512)} {f : PhysFrame} (hlen : path.length ≤ 4)
    (h : MapsTo m.mem r vis path f) : MapsTo m'.mem r vis path f := by
  -- the entries on the way are in tables, and tables are not free
  have hgrow : ∀ ρ j x, ρ ++ [j] <+: path → tableWalk m.mem r vis ρ = some x →
      PageTableEntry.Grows (m.mem x j) (m'.mem x j) := by
    intro ρ j x hpre hx
    have hlt := RadixHeap.length_lt_of_isPrefix_concat hpre
    exact he.grows x (hs.used x ⟨ρ, by omega, hx⟩) j
  have hstep : ∀ ρ j x y, ρ ++ [j] <+: path → tableWalk m.mem r vis ρ = some x →
      PageTableEntry.next (view m.mem r vis x j) = some y →
      PageTableEntry.next (view m'.mem r vis x j) = some y := by
    intro ρ j x y hpre hx hy
    have hmem := view_of_ne_zero (PageTableEntry.next_eq_some.1 hy).1
    have hy' := (hgrow ρ j x hpre hx).next (hmem ▸ hy)
    rw [view_apply fun hxr => ?_]
    · exact hy'
    · by_contra hvis
      exact (PageTableEntry.next_eq_some.1 hy).1 (if_pos ⟨hxr, Bool.not_eq_true _ ▸ hvis⟩)
  refine ⟨RadixHeap.walk_mono hstep h.walk, ?_⟩
  intro ρ j x hpre hx
  obtain ⟨rest, hrest⟩ := hpre
  have hwalk := h.walk
  rw [← hrest, tableWalk, List.append_assoc] at hwalk
  obtain ⟨x₀, hx₀, -⟩ := RadixHeap.exists_of_walk_append hwalk
  have hpre' : ∀ ρ' j', ρ' ++ [j'] <+: ρ → ρ' ++ [j'] <+: path := by
    intro ρ' j' hp
    rw [← hrest, List.append_assoc]
    exact hp.trans (List.prefix_append _ _)
  have hx₀' : tableWalk m'.mem r vis ρ = some x₀ :=
    RadixHeap.walk_mono (fun ρ' j' y z hp => hstep ρ' j' y z (hpre' ρ' j' hp)) hx₀
  rw [hx] at hx₀'
  obtain rfl := Option.some.inj hx₀'
  exact (hgrow ρ j x ⟨rest, hrest⟩ hx₀).present (h.present ρ j x ⟨rest, hrest⟩ hx₀)

/-! ## One step of `map_to` -/

/-- An entry of a table on a visible path is looked at. -/
theorem Space.visible (hs : Space S r vis own m) {ρ rest : List (Fin 512)} {t : PhysFrame}
    {i : Fin 512} (hρ : ρ.length ≤ 3) (ht : tableWalk m.mem r vis ρ = some t)
    (hvis : ∀ h ∈ (ρ ++ i :: rest).head?, vis h = true) : t = r → vis i = true := by
  rintro rfl
  have hnil : ρ = [] := hs.tree ρ [] t hρ (by simp) ht rfl
  subst hnil
  exact hvis i (by simp)

/-- A frame that is free is no table. -/
theorem Space.not_isTable (hs : Space S r vis own m) {x : PhysFrame}
    (hx : x ∈ S.free m.frames) : ¬ IsTable m.mem r vis x :=
  fun ht => hs.used x ht hx

/-- Filling an unused entry that is looked at, whatever happens to the frame it names. -/
theorem graft_view {mem mem' : PhysMem} {t c : PhysFrame} {i : Fin 512} {flags : Word}
    (hfl : PageTableEntry.Plain flags) (hvis : t = r → vis i = true) (hzero : mem t i = 0)
    (hself : mem' t i = PageTableEntry.setFrame c flags)
    (hother : ∀ x j, x ≠ c → ¬ (x = t ∧ j = i) → mem' x j = mem x j) :
    RadixHeap.Graft PageTableEntry.next (view mem r vis) (view mem' r vis) t i c where
  hole := by
    rw [view_apply hvis, hzero]
    exact PageTableEntry.next_zero
  link := by
    rw [view_apply hvis, hself]
    exact PageTableEntry.next_setFrame hfl
  other := by
    intro x j hx hne
    rw [view, view, hother x j hx hne]

/-- Memory and allocator after a new table `c` has been linked into entry `i` of `t`. -/
structure Linked (S : A.Spec) (m m' : Machine σ) (t : PhysFrame) (i : Fin 512) (c : PhysFrame)
    (flags : Word) : Prop where
  free : c ∈ S.free m.frames
  valid : S.valid m'.frames
  removed : S.free m'.frames ⊆ S.free m.frames \ {c}
  log : m'.log = c :: m.log
  self : m'.mem t i = PageTableEntry.setFrame c flags
  zero : ∀ j, m'.mem c j = 0
  other : ∀ x j, x ≠ c → ¬ (x = t ∧ j = i) → m'.mem x j = m.mem x j

/-- A new table, as `map_to` makes it: allocated, linked, and zeroed. -/
theorem linked_of_allocate {t c : PhysFrame} {m₁ : Machine σ} (i : Fin 512) (flags : Word)
    (hv : S.valid m.frames) (ht : t ∉ S.free m.frames) (ha : m.allocate A = some (c, m₁)) :
    Linked S m (m₁.write ((m₁.mem.setEntry t i (PageTableEntry.setFrame c flags)).zeroFrame c))
      t i c flags := by
  obtain ⟨halloc, hmem, hlog⟩ := Machine.allocate_eq_some ha
  obtain ⟨hvalid, hfree, hremoved⟩ := S.allocate hv halloc
  have htc : t ≠ c := fun hc => ht (hc ▸ hfree)
  refine ⟨hfree, hvalid, hremoved, hlog, ?_, ?_, ?_⟩
  · rw [Machine.write_mem, PhysMem.zeroFrame_of_ne htc, PhysMem.setEntry_self]
  · intro j
    rw [Machine.write_mem, PhysMem.zeroFrame_self]
  · intro x j hx hne
    rw [Machine.write_mem, PhysMem.zeroFrame_of_ne hx, PhysMem.setEntry_apply, if_neg hne, hmem]

section Link

variable {ρ : List (Fin 512)} {t c : PhysFrame} {i : Fin 512} {flags : Word}
  (hs : Space S r vis own m) (hfl : PageTableEntry.Plain flags) (hρ : ρ.length ≤ 2)
  (ht : MapsTo m.mem r vis ρ t) (hvis : t = r → vis i = true) (hzero : m.mem t i = 0)
  (hl : Linked S m m' t i c flags)
include hs hfl hvis hzero hl

omit hs in
/-- Linking a table is a graft. -/
theorem Linked.graft : RadixHeap.Graft PageTableEntry.next (view m.mem r vis)
    (view m'.mem r vis) t i c :=
  graft_view hfl hvis hzero hl.self hl.other

omit hfl hvis hzero in
/-- No path has led to the new table before. -/
theorem Linked.fresh (π : List (Fin 512)) (hπ : π.length ≤ 3) :
    RadixHeap.walk PageTableEntry.next (view m.mem r vis) r π ≠ some c :=
  fun hc => hs.not_isTable hl.free ⟨π, hπ, hc⟩

omit hfl hvis hzero in
/-- The new table is not the level-4 table, so all of it is looked at. -/
theorem Linked.view_zero (j : Fin 512) : view m'.mem r vis c j = 0 := by
  rw [view_apply, hl.zero]
  rintro rfl
  exact absurd rfl (Linked.fresh hs hl [] (by simp))

/-- Linking adds one path to a table. -/
theorem Linked.tableWalk_iff {π : List (Fin 512)} {x : PhysFrame} (hπ : π.length ≤ 4) :
    tableWalk m'.mem r vis π = some x ↔ tableWalk m.mem r vis π = some x ∨
      (x = c ∧ ∃ ρ, π = ρ ++ [i] ∧ tableWalk m.mem r vis ρ = some t) := by
  refine RadixHeap.walk_graft (Linked.graft hfl hvis hzero hl)
    (fun ρ hlt => Linked.fresh hs hl ρ (by omega)) (Or.inl ?_) hπ
  intro j
  rw [Linked.view_zero hs hl]
  exact PageTableEntry.next_zero

/-- **Linking a table** keeps the tables in order. -/
theorem Space.link : Space S r vis own m' where
  valid := hl.valid
  tree := by
    refine hs.tree.graft (Linked.graft hfl hvis hzero hl)
      (fun ρ hlt => Linked.fresh hs hl ρ hlt) ?_
    intro j
    rw [Linked.view_zero hs hl]
    exact PageTableEntry.next_zero
  used := by
    rintro x ⟨π, hπ, hx⟩ hfree
    have hx' := hl.removed hfree
    rcases (Linked.tableWalk_iff hs hfl hvis hzero hl (by omega)).1 hx with hx | ⟨rfl, -⟩
    · exact hs.used x ⟨π, hπ, hx⟩ hx'.1
    · exact hx'.2 rfl
  proper := by
    intro π x j hπ hx hown
    rcases (Linked.tableWalk_iff hs hfl hvis hzero hl (by omega)).1 hx with hx | ⟨rfl, -⟩
    · have hxc : x ≠ c := fun hc => Linked.fresh hs hl π hπ (hc ▸ hx)
      by_cases hxt : x = t ∧ j = i
      · obtain ⟨rfl, rfl⟩ := hxt
        rw [hl.self]
        exact Or.inr ⟨PageTableEntry.present_setFrame hfl, PageTableEntry.huge_setFrame hfl.1⟩
      · rw [hl.other x j hxc hxt]
        exact hs.proper π x j hπ hx hown
    · exact Or.inl (hl.zero j)

include ht hρ

/-- It adds a table and leaves the others as they were, but for an entry that was unused. -/
theorem Extends.link : Extends S r vis m m' where
  free := fun x hx => (hl.removed hx).1
  log := by
    rw [hl.log]
    exact List.subset_cons_self c m.log
  tables := by
    rintro x ⟨π, hπ, hx⟩
    rcases (Linked.tableWalk_iff hs hfl hvis hzero hl (by omega)).1 hx with hx | ⟨rfl, -⟩
    · exact Or.inl ⟨π, hπ, hx⟩
    · refine Or.inr ⟨hl.free, ?_⟩
      rw [hl.log]
      exact List.mem_cons_self
  grows := by
    intro x hx j
    have hxc : x ≠ c := fun hc => hx (hc ▸ hl.free)
    by_cases hxt : x = t ∧ j = i
    · obtain ⟨rfl, rfl⟩ := hxt
      exact Or.inl hzero
    · rw [hl.other x j hxc hxt]
      exact PageTableEntry.Grows.refl _
  untouched := by
    intro x hx htab
    have hxc : x ≠ c := by
      rintro rfl
      refine hx.elim (fun hc => hc hl.free) (fun hc => hc ?_)
      rw [hl.log]
      exact List.mem_cons_self
    funext j
    refine hl.other x j hxc ?_
    rintro ⟨rfl, -⟩
    exact htab ⟨ρ, by omega, ht.walk⟩

/-- The new table is reached through the new entry. -/
theorem MapsTo.link : MapsTo m'.mem r vis (ρ ++ [i]) c := by
  have hkeep := ht.extends hs (Extends.link hs hfl hρ ht hvis hzero hl) (by omega)
  refine hkeep.concat hvis ?_
  rw [hl.self]
  exact PageTableEntry.follow_setFrame hfl

/-- It takes no page away from those that can be mapped: its own entries are unused. -/
theorem mappable_link_iff {q : List (Fin 512)} (hq : q.length = 4) :
    Mappable m'.mem r vis q ↔ Mappable m.mem r vis q := by
  refine RadixHeap.holed_graft_iff (d := 3) ?_ (Linked.graft hfl hvis hzero hl)
    (fun ρ hlt => Linked.fresh hs hl ρ hlt) ?_ (Linked.view_zero hs hl) ?_ hq
  · rintro e rfl
    exact PageTableEntry.next_zero
  · rw [view_apply hvis, hzero]
  · intro π hπ hw
    rw [hs.tree π ρ t hπ (by omega) hw ht.walk]
    omega

end Link

/-- Writing one entry of a table, if no new table is reached by it. -/
theorem Extends.setEntry {t : PhysFrame} {i : Fin 512} {e : Word}
    (hm' : m' = m.write (m.mem.setEntry t i e)) (ht : IsTable m.mem r vis t)
    (hgrows : PageTableEntry.Grows (m.mem t i) e)
    (htables : ∀ x, IsTable m'.mem r vis x → IsTable m.mem r vis x) : Extends S r vis m m' where
  free := by
    rw [hm']
    exact Set.Subset.refl _
  log := by
    rw [hm']
    exact List.Subset.refl _
  tables := fun x hx => Or.inl (htables x hx)
  grows := by
    intro x _ j
    rw [hm', Machine.write_mem, PhysMem.setEntry_apply]
    split_ifs with hxt
    · obtain ⟨rfl, rfl⟩ := hxt
      exact hgrows
    · exact PageTableEntry.Grows.refl _
  untouched := by
    intro x _ htab
    have hxt : x ≠ t := by
      rintro rfl
      exact htab ht
    rw [hm', Machine.write_mem, PhysMem.setEntry_of_ne hxt]

section Mark

variable {ρ : List (Fin 512)} {t : PhysFrame} {i : Fin 512} {flags : Word}
  (hs : Space S r vis own m) (hfl : PageTableEntry.Plain flags) (hρ : ρ.length ≤ 3)
  (ht : MapsTo m.mem r vis ρ t) (hvis : t = r → vis i = true) (hne : m.mem t i ≠ 0)
  (hm' : m' = m.write (m.mem.setEntry t i (m.mem t i ||| flags)))
include hfl hne hm'

/-- Adding flags to an entry in use leads nowhere else and makes no entry used or unused. -/
theorem mark_entry (x : PhysFrame) (j : Fin 512) :
    PageTableEntry.next (view m'.mem r vis x j) = PageTableEntry.next (view m.mem r vis x j) ∧
      (view m'.mem r vis x j = 0 ↔ view m.mem r vis x j = 0) := by
  subst hm'
  by_cases hxt : x = t ∧ j = i
  · obtain ⟨rfl, rfl⟩ := hxt
    rw [view, view, Machine.write_mem, PhysMem.setEntry_self]
    split_ifs
    · exact ⟨rfl, Iff.rfl⟩
    · exact ⟨PageTableEntry.next_or hne hfl.1,
        iff_of_false (PageTableEntry.or_ne_zero hne) hne⟩
  · rw [view, view, Machine.write_mem, PhysMem.setEntry_apply, if_neg hxt]
    exact ⟨rfl, Iff.rfl⟩

theorem mark_tableWalk (π : List (Fin 512)) :
    tableWalk m'.mem r vis π = tableWalk m.mem r vis π :=
  RadixHeap.walk_congr (d := π.length) (fun _ x _ _ j => (mark_entry hfl hne hm' x j).1) le_rfl

include hs

/-- **Adding flags to an entry in use** keeps the tables in order. -/
theorem Space.mark : Space S r vis own m' where
  valid := by
    rw [hm']
    exact hs.valid
  tree := hs.tree.congr fun π _ => mark_tableWalk hfl hne hm' π
  used := by
    rintro x ⟨π, hπ, hx⟩
    rw [mark_tableWalk hfl hne hm'] at hx
    rw [hm']
    exact hs.used x ⟨π, hπ, hx⟩
  proper := by
    intro π x j hπ hx hown
    rw [mark_tableWalk hfl hne hm'] at hx
    have hold := hs.proper π x j hπ hx hown
    subst hm'
    rw [Machine.write_mem, PhysMem.setEntry_apply]
    split_ifs with hxt
    · obtain ⟨rfl, rfl⟩ := hxt
      rcases hold with h0 | ⟨hp, hh⟩
      · exact absurd h0 hne
      · rw [PageTableEntry.present_or, hp, PageTableEntry.huge_or hfl.1]
        exact Or.inr ⟨Bool.true_or _, hh⟩
    · exact hold

omit hs in
/-- The same pages can be mapped as before. -/
theorem mappable_mark_iff {q : List (Fin 512)} :
    Mappable m'.mem r vis q ↔ Mappable m.mem r vis q :=
  RadixHeap.Holed.congr (fun π _ => mark_tableWalk hfl hne hm' π)
    (fun _ x j _ _ => (mark_entry hfl hne hm' x j).2)

include hρ ht

omit hs in
/-- It adds no table. -/
theorem Extends.mark : Extends S r vis m m' := by
  refine Extends.setEntry hm' ⟨ρ, hρ, ht.walk⟩ (Or.inr ⟨flags, hfl.1, rfl⟩) ?_
  rintro x ⟨π, hπ, hx⟩
  rw [mark_tableWalk hfl hne hm'] at hx
  exact ⟨π, hπ, hx⟩

include hvis in
/-- The table behind the entry is reached through it, now present. -/
theorem MapsTo.mark (hh : PageTableEntry.huge (m.mem t i) = false) :
    MapsTo m'.mem r vis (ρ ++ [i]) (PageTableEntry.addrFrame (m.mem t i)) := by
  have hkeep := ht.extends hs (Extends.mark hfl hρ ht hne hm') (by omega)
  refine hkeep.concat hvis ?_
  rw [hm', Machine.write_mem, PhysMem.setEntry_self]
  refine PageTableEntry.follow_eq_some.2 ⟨?_, ?_, ?_⟩
  · rw [PageTableEntry.present_or, hfl.2, Bool.or_true]
  · rw [PageTableEntry.huge_or hfl.1, hh]
  · rw [PageTableEntry.addrFrame_or hfl.1]

end Mark

section Leaf

variable {ρ : List (Fin 512)} {t f : PhysFrame} {i : Fin 512} {flags : Word}
  (hs : Space S r vis own m) (hfl : PageTableEntry.Plain flags) (hρ : ρ.length = 3)
  (ht : MapsTo m.mem r vis ρ t) (hvis : t = r → vis i = true) (hzero : m.mem t i = 0)
  (hf : ¬ IsTable m.mem r vis f)
  (hm' : m' = m.write (m.mem.setEntry t i (PageTableEntry.setFrame f flags)))
include hfl hvis hzero hm'

/-- Mapping a frame is a graft at the last level. -/
theorem leaf_graft : RadixHeap.Graft PageTableEntry.next (view m.mem r vis)
    (view m'.mem r vis) t i f := by
  subst hm'
  refine graft_view hfl hvis hzero (PhysMem.setEntry_self _ _ _ _) ?_
  intro x j _ hne
  rw [Machine.write_mem, PhysMem.setEntry_apply, if_neg hne]

include hs hρ ht hf

/-- Mapping a frame changes no walk to a table. -/
theorem leaf_tableWalk {π : List (Fin 512)} (hπ : π.length ≤ 3) :
    tableWalk m'.mem r vis π = tableWalk m.mem r vis π :=
  hs.tree.walk_leaf (leaf_graft hfl hvis hzero hm') (fun ρ hlt hc => hf ⟨ρ, hlt, hc⟩) ht.walk hρ hπ

/-- The frame becomes no table: it is below the last level. -/
theorem leaf_isTable {x : PhysFrame} : IsTable m'.mem r vis x ↔ IsTable m.mem r vis x := by
  constructor
  · rintro ⟨π, hπ, hx⟩
    rw [leaf_tableWalk hs hfl hρ ht hvis hzero hf hm' hπ] at hx
    exact ⟨π, hπ, hx⟩
  · rintro ⟨π, hπ, hx⟩
    refine ⟨π, hπ, ?_⟩
    rw [leaf_tableWalk hs hfl hρ ht hvis hzero hf hm' hπ]
    exact hx

/-- **Mapping a frame** keeps the tables in order. -/
theorem Space.leaf : Space S r vis own m' where
  valid := by
    rw [hm']
    exact hs.valid
  tree := hs.tree.congr fun π hπ => leaf_tableWalk hs hfl hρ ht hvis hzero hf hm' hπ
  used := by
    intro x hx
    rw [leaf_isTable hs hfl hρ ht hvis hzero hf hm'] at hx
    rw [hm']
    exact hs.used x hx
  proper := by
    intro π x j hπ hx hown
    rw [leaf_tableWalk hs hfl hρ ht hvis hzero hf hm' hπ] at hx
    have hold := hs.proper π x j hπ hx hown
    rw [hm', Machine.write_mem, PhysMem.setEntry_apply]
    split_ifs
    · exact Or.inr ⟨PageTableEntry.present_setFrame hfl, PageTableEntry.huge_setFrame hfl.1⟩
    · exact hold

theorem Extends.leaf : Extends S r vis m m' :=
  Extends.setEntry hm' ⟨ρ, hρ.le, ht.walk⟩ (Or.inl hzero)
    fun _ hx => (leaf_isTable hs hfl hρ ht hvis hzero hf hm').1 hx

/-- The page is mapped to the frame. -/
theorem MapsTo.leaf : MapsTo m'.mem r vis (ρ ++ [i]) f := by
  have hkeep := ht.extends hs (Extends.leaf hs hfl hρ ht hvis hzero hf hm') (by omega)
  refine hkeep.concat hvis ?_
  rw [hm', Machine.write_mem, PhysMem.setEntry_self]
  exact PageTableEntry.follow_setFrame hfl

/-- One page less can be mapped. -/
theorem mappable_leaf_iff {q : List (Fin 512)} (hq : q.length = 4) :
    Mappable m'.mem r vis q ↔ Mappable m.mem r vis q ∧ q ≠ ρ ++ [i] := by
  refine RadixHeap.holed_leaf_iff (d := 3) ?_ (leaf_graft hfl hvis hzero hm')
    (fun π hlt hc => hf ⟨π, hlt, hc⟩) hs.tree ht.walk hρ hq
  rintro e rfl
  exact PageTableEntry.next_zero

end Leaf

/-! ## A whole `map_to` -/

/-- **What `map_to` does**: the page at `path` could be mapped, is mapped to `f` now, and every
other page can be mapped as before. -/
structure PageMapped (S : A.Spec) (r : PhysFrame) (vis own : Fin 512 → Bool)
    (path : List (Fin 512)) (f : PhysFrame) (m m' : Machine σ) : Prop where
  space : Space S r vis own m'
  ext : Extends S r vis m m'
  maps : MapsTo m'.mem r vis path f
  mappable : Mappable m.mem r vis path
  others : ∀ q : List (Fin 512), q.length = 4 →
    (Mappable m'.mem r vis q ↔ Mappable m.mem r vis q ∧ q ≠ path)

/-- What was in use and no table does not become one. -/
theorem Extends.not_isTable (h : Extends S r vis m m') {f : PhysFrame}
    (hf : ¬ IsTable m.mem r vis f) (hfree : f ∉ S.free m.frames) : ¬ IsTable m'.mem r vis f :=
  fun hc => (h.tables f hc).elim hf fun hc => hfree hc.1

/-- The head of a visible path is looked at, wherever the walk along it stands. -/
theorem visible_of_append {path ρ rest : List (Fin 512)} {i : Fin 512}
    (hvis : ∀ h ∈ path.head?, vis h = true) (hpath : path = ρ ++ i :: rest) :
    ∀ h ∈ (ρ ++ i :: rest).head?, vis h = true :=
  hpath ▸ hvis

/-- `map_to` on its way: the tables along `ρ` have led from `r` to `t`, entry `i` of `t` is next,
and all that was done since `m` is in order. -/
structure OnWay (S : A.Spec) (r : PhysFrame) (vis own : Fin 512 → Bool) (m m₁ : Machine σ)
    (ρ : List (Fin 512)) (t : PhysFrame) (i : Fin 512) : Prop where
  space : Space S r vis own m₁
  ext : Extends S r vis m m₁
  maps : MapsTo m₁.mem r vis ρ t
  visible : t = r → vis i = true

/-- **The rule for `map_to` in a space.**  If `J` holds at the start, is kept by linking a table
and by adding flags to an entry in use, and gives `Q` when the last entry is written, then a
completed `map_to` establishes `Q`. -/
theorem mapPath_space_rule {flags : Word} {path : List (Fin 512)} {f : PhysFrame}
    {J : Machine σ → List (Fin 512) → PhysFrame → Prop} {Q : Machine σ → Prop}
    (hs : Space S r vis own m) (hfl : PageTableEntry.Plain flags) (hlen : path.length = 4)
    (hvis : ∀ h ∈ path.head?, vis h = true) (hf : ¬ IsTable m.mem r vis f)
    (hfree : f ∉ S.free m.frames) (hstart : J m [] r)
    (hlink : ∀ m₁ m₂ ρ t i c, OnWay S r vis own m m₁ ρ t i → ρ.length ≤ 2 → m₁.mem t i = 0 →
      A.allocateFrame m₁.frames = some (c, m₂.frames) → Linked S m₁ m₂ t i c flags → J m₁ ρ t →
      J m₂ (ρ ++ [i]) c)
    (hmark : ∀ m₁ m₂ ρ t i, OnWay S r vis own m m₁ ρ t i → ρ.length ≤ 2 → m₁.mem t i ≠ 0 →
      PageTableEntry.huge (m₁.mem t i) = false →
      m₂ = m₁.write (m₁.mem.setEntry t i (m₁.mem t i ||| flags)) → J m₁ ρ t →
      J m₂ (ρ ++ [i]) (PageTableEntry.addrFrame (m₁.mem t i)))
    (hleaf : ∀ m₁ m₂ ρ t i, OnWay S r vis own m m₁ ρ t i → ρ.length = 3 → path = ρ ++ [i] →
      m₁.mem t i = 0 → ¬ IsTable m₁.mem r vis f →
      m₂ = m₁.write (m₁.mem.setEntry t i (PageTableEntry.setFrame f flags)) → J m₁ ρ t → Q m₂)
    (h : mapPath A flags (PageTableEntry.setFrame f flags) m r path = .ok m') : Q m' := by
  obtain ⟨i, rest, hpath⟩ : ∃ i rest, path = i :: rest := by
    cases path with
    | nil => cases hlen
    | cons i rest => exact ⟨i, rest, rfl⟩
  rw [hpath] at h
  refine mapPath_rule (I := fun m₁ t rest => ∃ ρ, path = ρ ++ rest ∧ Space S r vis own m₁ ∧
    Extends S r vis m m₁ ∧ MapsTo m₁.mem r vis ρ t ∧ J m₁ ρ t) ?_ ?_ ?_ ?_ h
  · rintro m₁ t i j rest c m₂ ⟨ρ, hρ, hs₁, he₁, ht, hJ⟩ hzero ha
    have hlρ : ρ.length ≤ 2 := by
      rw [hρ, List.length_append, List.length_cons, List.length_cons] at hlen
      omega
    have hv := hs₁.visible (by omega) ht.walk (visible_of_append hvis hρ)
    have hl := linked_of_allocate i flags hs₁.valid
      (hs₁.used t ⟨ρ, by omega, ht.walk⟩) ha
    refine ⟨ρ ++ [i], ?_, Space.link hs₁ hfl hv hzero hl,
      he₁.trans (Extends.link hs₁ hfl hlρ ht hv hzero hl),
      MapsTo.link hs₁ hfl hlρ ht hv hzero hl,
      hlink m₁ _ ρ t i c ⟨hs₁, he₁, ht, hv⟩ hlρ hzero (Machine.allocate_eq_some ha).1 hl hJ⟩
    rw [hρ, List.append_assoc, List.singleton_append]
  · rintro m₁ t i j rest ⟨ρ, hρ, hs₁, he₁, ht, hJ⟩ hne hh
    have hlρ : ρ.length ≤ 2 := by
      rw [hρ, List.length_append, List.length_cons, List.length_cons] at hlen
      omega
    have hv := hs₁.visible (by omega) ht.walk (visible_of_append hvis hρ)
    refine ⟨ρ ++ [i], ?_, Space.mark hs₁ hfl hne rfl,
      he₁.trans (Extends.mark hfl (by omega) ht hne rfl),
      MapsTo.mark hs₁ hfl (by omega) ht hv hne rfl hh,
      hmark m₁ _ ρ t i ⟨hs₁, he₁, ht, hv⟩ hlρ hne hh rfl hJ⟩
    rw [hρ, List.append_assoc, List.singleton_append]
  · rintro m₁ t i ⟨ρ, hρ, hs₁, he₁, ht, hJ⟩ hzero
    have hlρ : ρ.length = 3 := by
      rw [hρ, List.length_append, List.length_singleton] at hlen
      omega
    have hv := hs₁.visible hlρ.le ht.walk (visible_of_append hvis hρ)
    exact hleaf m₁ _ ρ t i ⟨hs₁, he₁, ht, hv⟩ hlρ hρ hzero (he₁.not_isTable hf hfree) rfl hJ
  · exact ⟨[], hpath, hs, Extends.refl, MapsTo.nil m.mem r vis, hstart⟩

/-- **What `map_to` does**: from the rule, with the pages that can still be mapped as the property
carried along the path. -/
theorem mapPath_spec {flags : Word} {path : List (Fin 512)} {f : PhysFrame}
    (hs : Space S r vis own m) (hfl : PageTableEntry.Plain flags) (hlen : path.length = 4)
    (hvis : ∀ h ∈ path.head?, vis h = true) (hf : ¬ IsTable m.mem r vis f)
    (hfree : f ∉ S.free m.frames)
    (h : mapPath A flags (PageTableEntry.setFrame f flags) m r path = .ok m') :
    PageMapped S r vis own path f m m' := by
  refine mapPath_space_rule (J := fun m₁ _ _ => ∀ q : List (Fin 512), q.length = 4 →
      (Mappable m₁.mem r vis q ↔ Mappable m.mem r vis q)) hs hfl hlen hvis hf hfree
    (fun _ _ => Iff.rfl) ?_ ?_ ?_ h
  · intro m₁ m₂ ρ t i c hw hρ hzero _ hl hq₁ q hq
    rw [mappable_link_iff hw.space hfl hρ hw.maps hw.visible hzero hl hq, hq₁ q hq]
  · intro m₁ m₂ ρ t i hw hρ hne hh hm₂ hq₁ q hq
    rw [mappable_mark_iff hfl hne hm₂, hq₁ q hq]
  · intro m₁ m₂ ρ t i hw hρ hpath hzero hf₁ hm₂ hq₁
    refine ⟨Space.leaf hw.space hfl hρ hw.maps hw.visible hzero hf₁ hm₂,
      hw.ext.trans (Extends.leaf hw.space hfl hρ hw.maps hw.visible hzero hf₁ hm₂), ?_, ?_, ?_⟩
    · rw [hpath]
      exact MapsTo.leaf hw.space hfl hρ hw.maps hw.visible hzero hf₁ hm₂
    · rw [← hq₁ path hlen]
      refine ⟨ρ, i, [], t, hpath, hw.maps.walk, ?_⟩
      rw [view_apply hw.visible, hzero]
    · intro q hq
      rw [mappable_leaf_iff hw.space hfl hρ hw.maps hw.visible hzero hf₁ hm₂ hq, hq₁ q hq, hpath]

/-! ## Mapping a new frame

A frame is taken from the allocator, mapped, and then written to. -/

/-- A page mapped to a frame that was free. -/
structure FreshMapped (S : A.Spec) (r : PhysFrame) (vis own : Fin 512 → Bool)
    (path : List (Fin 512)) (f : PhysFrame) (m m' : Machine σ) : Prop
    extends PageMapped S r vis own path f m m' where
  data_free : f ∈ S.free m.frames
  data_used : f ∉ S.free m'.frames
  data_not_table : ¬ IsTable m'.mem r vis f

/-- Taking a frame from the allocator touches no table. -/
theorem Space.allocate (hs : Space S r vis own m) {f : PhysFrame}
    (ha : m.allocate A = some (f, m')) :
    Space S r vis own m' ∧ Extends S r vis m m' ∧ f ∈ S.free m.frames ∧
      f ∉ S.free m'.frames ∧ f ∈ m'.log := by
  obtain ⟨halloc, hmem, hlog⟩ := Machine.allocate_eq_some ha
  obtain ⟨hvalid, hfree, hremoved⟩ := S.allocate hs.valid halloc
  have hsub : S.free m'.frames ⊆ S.free m.frames := fun x hx => (hremoved hx).1
  have hlog' : m.log ⊆ m'.log := hlog ▸ List.subset_cons_self f m.log
  refine ⟨⟨hvalid, ?_, ?_, ?_⟩, ⟨hsub, hlog', ?_, ?_, ?_⟩, hfree,
    fun hc => (hremoved hc).2 rfl, hlog ▸ List.mem_cons_self⟩
  · rw [hmem]
    exact hs.tree
  · intro x hx hc
    rw [hmem] at hx
    exact hs.used x hx (hsub hc)
  · rw [hmem]
    exact hs.proper
  · intro x hx
    rw [hmem] at hx
    exact Or.inl hx
  · intro x _ j
    rw [hmem]
    exact PageTableEntry.Grows.refl _
  · intro x _ _
    rw [hmem]

section Fill

variable {f : PhysFrame} {mem : PhysMem} (hf : ¬ IsTable m.mem r vis f)
  (hother : ∀ x, x ≠ f → mem x = m.mem x)
include hf hother

/-- A frame that is no table is not on the way to any. -/
theorem fill_entry {ρ : List (Fin 512)} {x : PhysFrame} (hρ : ρ.length ≤ 3)
    (hx : tableWalk m.mem r vis ρ = some x) (j : Fin 512) :
    mem x j = m.mem x j ∧ view mem r vis x j = view m.mem r vis x j := by
  have hxf : x ≠ f := fun hc => hf ⟨ρ, hρ, hc ▸ hx⟩
  rw [view, view, hother x hxf]
  exact ⟨rfl, rfl⟩

theorem fill_tableWalk {π : List (Fin 512)} (hπ : π.length ≤ 4) :
    tableWalk mem r vis π = tableWalk m.mem r vis π := by
  refine RadixHeap.walk_congr (d := 4) ?_ hπ
  intro ρ x hρ hx j
  rw [(fill_entry hf hother (by omega) hx j).2]

theorem fill_isTable {x : PhysFrame} : IsTable mem r vis x ↔ IsTable m.mem r vis x := by
  constructor
  · rintro ⟨π, hπ, hx⟩
    rw [fill_tableWalk hf hother (by omega)] at hx
    exact ⟨π, hπ, hx⟩
  · rintro ⟨π, hπ, hx⟩
    refine ⟨π, hπ, ?_⟩
    rw [fill_tableWalk hf hother (by omega)]
    exact hx

/-- Writing to a frame that is no table keeps the tables in order. -/
theorem Space.fill (hs : Space S r vis own m) : Space S r vis own (m.write mem) where
  valid := hs.valid
  tree := hs.tree.congr fun π hπ => fill_tableWalk hf hother (by omega)
  used := by
    intro x hx
    exact hs.used x ((fill_isTable hf hother).1 hx)
  proper := by
    intro π x j hπ hx hown
    rw [Machine.write_mem, fill_tableWalk hf hother (by omega)] at hx
    rw [Machine.write_mem, (fill_entry hf hother hπ hx j).1]
    exact hs.proper π x j hπ hx hown

/-- What has been mapped stays mapped. -/
theorem MapsTo.fill {path : List (Fin 512)} {g : PhysFrame} (hlen : path.length ≤ 4)
    (h : MapsTo m.mem r vis path g) : MapsTo mem r vis path g where
  walk := by
    rw [fill_tableWalk hf hother hlen]
    exact h.walk
  present := by
    intro ρ j x hpre hx
    have hlt := RadixHeap.length_lt_of_isPrefix_concat hpre
    rw [fill_tableWalk hf hother (by omega)] at hx
    rw [(fill_entry hf hother (by omega) hx j).1]
    exact h.present ρ j x hpre hx

/-- What can be mapped can still be mapped. -/
theorem mappable_fill_iff {q : List (Fin 512)} (hq : q.length = 4) :
    Mappable mem r vis q ↔ Mappable m.mem r vis q := by
  refine RadixHeap.Holed.congr ?_ ?_
  · intro ρ hρ
    exact fill_tableWalk hf hother (by omega)
  · intro ρ x j hρ hx
    rw [(fill_entry hf hother (by omega) hx j).2]

end Fill

/-- **Mapping a new frame**: what `map_segment` and `map_shellcode_page` do to one page. -/
theorem freshMapped {flags : Word} {path : List (Fin 512)} {f : PhysFrame} {m₁ m₂ : Machine σ}
    {mem : PhysMem} (hs : Space S r vis own m) (hfl : PageTableEntry.Plain flags)
    (hlen : path.length = 4) (hvis : ∀ h ∈ path.head?, vis h = true)
    (ha : m.allocate A = some (f, m₁))
    (hmap : mapPath A flags (PageTableEntry.setFrame f flags) m₁ r path = .ok m₂)
    (hother : ∀ x, x ≠ f → mem x = m₂.mem x) :
    FreshMapped S r vis own path f m (m₂.write mem) := by
  obtain ⟨hs₁, he₁, hfree, hused, hlog⟩ := hs.allocate ha
  have hmem : m₁.mem = m.mem := (Machine.allocate_eq_some ha).2.1
  have hf₁ : ¬ IsTable m₁.mem r vis f := hmem ▸ hs.not_isTable hfree
  obtain ⟨hs₂, he₂, hmaps, hmappable, hothers⟩ := mapPath_spec hs₁ hfl hlen hvis hf₁ hused hmap
  have hf₂ := he₂.not_isTable hf₁ hused
  have he := he₁.trans he₂
  refine ⟨⟨hs₂.fill hf₂ hother, ⟨he.free, he.log, ?_, ?_, ?_⟩, hmaps.fill hf₂ hother hlen.le, ?_, ?_⟩,
    hfree, fun hc => hused (he₂.free hc), fun hc => hf₂ ((fill_isTable hf₂ hother).1 hc)⟩
  · intro x hx
    exact he.tables x ((fill_isTable hf₂ hother).1 hx)
  · intro x hx j
    have hxf : x ≠ f := fun hc => hx (hc ▸ hfree)
    rw [Machine.write_mem, hother x hxf]
    exact he.grows x hx j
  · intro x hx ht
    have hxf : x ≠ f := by
      rintro rfl
      exact hx.elim (fun hc => hc hfree) (fun hc => hc (he₂.log hlog))
    rw [Machine.write_mem, hother x hxf]
    exact he.untouched x hx ht
  · rw [← hmem]
    exact hmappable
  · intro q hq
    rw [Machine.write_mem, mappable_fill_iff hf₂ hother hq, hothers q hq, hmem]

/-- `map_to` gets from the table it is at to the entry of the page, given frames for the tables
below. -/
theorem exists_mapPath_eq_ok {flags leaf : Word} {path : List (Fin 512)} {n : ℕ}
    (hfl : PageTableEntry.Plain flags) (hlen : path.length = 4)
    (hvis : ∀ h ∈ path.head?, vis h = true) :
    ∀ (rest : List (Fin 512)) (i : Fin 512) (ρ : List (Fin 512)) (t : PhysFrame) (m : Machine σ),
      Space S r vis own m → path = ρ ++ i :: rest → MapsTo m.mem r vis ρ t →
      Mappable m.mem r vis path → A.Supplies (n + rest.length) m.frames →
      ∃ m', mapPath A flags leaf m t (i :: rest) = .ok m' ∧ A.Supplies n m'.frames := by
  have hnext : ∀ e : Word, e = 0 → PageTableEntry.next e = none := by
    rintro e rfl
    exact PageTableEntry.next_zero
  intro rest
  induction rest with
  | nil =>
    intro i ρ t m hs hpath ht hmap hsup
    have hρ : ρ.length = 3 := by
      rw [hpath, List.length_append, List.length_singleton] at hlen
      omega
    have hv := hs.visible hρ.le ht.walk (visible_of_append hvis hpath)
    rw [hpath] at hmap
    have hzero : m.mem t i = 0 := by
      rcases hmap.of_walk hnext ht.walk with h0 | ⟨c, hc⟩
      · rwa [view_apply hv] at h0
      · exact absurd hmap
          (RadixHeap.not_holed_of_walk hnext (RadixHeap.walk_concat_eq_some.2 ⟨t, ht.walk, hc⟩))
    refine ⟨m.write (m.mem.setEntry t i leaf), ?_, hsup⟩
    rw [mapPath, if_pos (PageTableEntry.isUnused_iff.2 hzero)]
  | cons j rest ih =>
    intro i ρ t m hs hpath ht hmap hsup
    have hρ : ρ.length ≤ 2 := by
      rw [hpath, List.length_append, List.length_cons, List.length_cons] at hlen
      omega
    have hpath' : path = (ρ ++ [i]) ++ j :: rest := by
      rw [hpath, List.append_assoc, List.singleton_append]
    have hv := hs.visible (by omega) ht.walk (visible_of_append hvis hpath)
    have hstop := hpath ▸ hmap
    rcases hstop.of_walk hnext ht.walk with h0 | ⟨c, hc⟩
    · -- the table is missing: a new one is linked
      rw [view_apply hv] at h0
      obtain ⟨c, m₁, ha, hsup'⟩ := Machine.exists_allocate_eq_some hsup
      have hl := linked_of_allocate i flags hs.valid (hs.used t ⟨ρ, by omega, ht.walk⟩) ha
      obtain ⟨m', hm', hrest⟩ := ih j (ρ ++ [i]) c _ (Space.link hs hfl hv h0 hl) hpath'
        (MapsTo.link hs hfl hρ ht hv h0 hl)
        ((mappable_link_iff hs hfl hρ ht hv h0 hl hlen).2 hmap) hsup'
      refine ⟨m', ?_, hrest⟩
      rw [mapPath, createNextTable, if_pos (PageTableEntry.isUnused_iff.2 h0), ha]
      exact hm'
    · -- the table is there
      obtain ⟨hne, hh, hf⟩ := PageTableEntry.next_eq_some.1 hc
      rw [view_apply hv] at hne hh
      obtain ⟨m', hm', hrest⟩ := ih j (ρ ++ [i]) _ _ (Space.mark hs hfl hne rfl) hpath'
        (MapsTo.mark hs hfl (by omega) ht hv hne rfl hh)
        ((mappable_mark_iff hfl hne rfl).2 hmap)
        (hsup.mono (by rw [List.length_cons]; omega))
      refine ⟨m', ?_, hrest⟩
      rw [mapPath, createNextTable, PageTableEntry.isUnused_eq_false.2 hne, hh]
      exact hm'

/-- **`map_to` succeeds** on a page that can be mapped, given three frames for tables. -/
theorem exists_mapPath_of_mappable {flags : Word} (leaf : Word) {path : List (Fin 512)} {n : ℕ}
    (hfl : PageTableEntry.Plain flags) (hlen : path.length = 4)
    (hvis : ∀ h ∈ path.head?, vis h = true) (hs : Space S r vis own m)
    (hmappable : Mappable m.mem r vis path) (hsup : A.Supplies (n + 3) m.frames) :
    ∃ m', mapPath A flags leaf m r path = .ok m' ∧ A.Supplies n m'.frames := by
  match path, hlen with
  | i :: rest, hlen =>
    have hrest : rest.length = 3 := Nat.succ.inj hlen
    exact exists_mapPath_eq_ok hfl hlen hvis rest i [] r m hs rfl (MapsTo.nil m.mem r vis)
      hmappable (hrest ▸ hsup)

end Tables
