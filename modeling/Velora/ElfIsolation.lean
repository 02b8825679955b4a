/-
# What loading does to shared tables

A new address space shares two entries of the kernel's level-4 table, entry 0 among
them, and with them all the tables below.  Programs are linked above entry 0
(disk/link.ld), but nothing in `elf::load` checks that a file does so, and the stack of
a file without segments is placed at 0x1000.

`load_isolated_iff`: loading leaves alone every frame it was not given, and every table
of the kernel, exactly when no page is asked for below a shared entry that is in use.
-/
import Velora.ElfPanics

/-! ## Mapping into tables that are shared

Nothing is known here about the tables below the level-4 table: they may be anything.
Entries outside free frames only grow (`mapPath_grows`), and a mapping fills the first
unused entry on its way (`mapPath_fills`). -/

section Shared

variable {σ : Type} {A : FrameAllocator σ} {S : A.Spec} {m m' : Machine σ}

/-- Between two machines, frames are only taken, and entries outside free frames only grow. -/
structure Grown (S : A.Spec) (m m' : Machine σ) : Prop where
  valid : S.valid m'.frames
  free : S.free m'.frames ⊆ S.free m.frames
  grows : ∀ x, x ∉ S.free m.frames → ∀ j, PageTableEntry.Grows (m.mem x j) (m'.mem x j)

theorem Grown.refl (h : S.valid m.frames) : Grown S m m where
  valid := h
  free := Set.Subset.refl _
  grows := fun _ _ _ => PageTableEntry.Grows.refl _

theorem Grown.trans {m'' : Machine σ} (h : Grown S m m') (h' : Grown S m' m'') :
    Grown S m m'' where
  valid := h'.valid
  free := fun _ hx => h.free (h'.free hx)
  grows := fun x hx j => (h.grows x hx j).trans (h'.grows x (fun hc => hx (h.free hc)) j)

theorem Grown.allocate {f : PhysFrame} (hv : S.valid m.frames)
    (ha : m.allocate A = some (f, m')) : Grown S m m' := by
  obtain ⟨halloc, hmem, -⟩ := Machine.allocate_eq_some ha
  obtain ⟨hvalid, -, hremoved⟩ := S.allocate hv halloc
  refine ⟨hvalid, fun x hx => (hremoved hx).1, ?_⟩
  intro x _ j
  rw [hmem]
  exact PageTableEntry.Grows.refl _

/-- Linking a new table into an unused entry. -/
theorem Grown.link {t c : PhysFrame} {i : Fin 512} {e : Word} {m₁ : Machine σ}
    (hv : S.valid m.frames) (hzero : m.mem t i = 0) (ha : m.allocate A = some (c, m₁)) :
    Grown S m (m₁.write ((m₁.mem.setEntry t i e).zeroFrame c)) := by
  obtain ⟨halloc, hmem, -⟩ := Machine.allocate_eq_some ha
  obtain ⟨hvalid, hfree, hremoved⟩ := S.allocate hv halloc
  refine ⟨hvalid, fun x hx => (hremoved hx).1, ?_⟩
  intro x hx j
  have hxc : x ≠ c := fun hc => hx (hc ▸ hfree)
  rw [Machine.write_mem, PhysMem.zeroFrame_of_ne hxc, PhysMem.setEntry_apply, hmem]
  split_ifs with hxt
  · obtain ⟨rfl, rfl⟩ := hxt
    exact Or.inl hzero
  · exact PageTableEntry.Grows.refl _

/-- Writing an entry that grows. -/
theorem Grown.setEntry {t : PhysFrame} {i : Fin 512} {e : Word} (hv : S.valid m.frames)
    (he : PageTableEntry.Grows (m.mem t i) e) : Grown S m (m.write (m.mem.setEntry t i e)) := by
  refine ⟨hv, Set.Subset.refl _, ?_⟩
  intro x _ j
  rw [Machine.write_mem, PhysMem.setEntry_apply]
  split_ifs with hxt
  · obtain ⟨rfl, rfl⟩ := hxt
    exact he
  · exact PageTableEntry.Grows.refl _

theorem mapPath_grown {flags leaf : Word} {t : PhysFrame} {i : Fin 512} {path : List (Fin 512)}
    (hv : S.valid m.frames) (hfl : PageTableEntry.Plain flags)
    (h : mapPath A flags leaf m t (i :: path) = .ok m') : Grown S m m' := by
  refine mapPath_rule (I := fun m₁ _ _ => Grown S m m₁) ?_ ?_ ?_ (Grown.refl hv) h
  · intro m₁ t i j path c m₂ hg hzero ha
    exact hg.trans (Grown.link hg.valid hzero ha)
  · intro m₁ t i j path hg _ _
    exact hg.trans (Grown.setEntry hg.valid (Or.inr ⟨flags, hfl.1, rfl⟩))
  · intro m₁ t i hg hzero
    exact hg.trans (Grown.setEntry hg.valid (Or.inl hzero))

/-- An entry on the way along `path`, as it was in memory `mem`, was unused there and is in use
in `mem'`. -/
def Filled (mem mem' : PhysMem) (r : PhysFrame) (path : List (Fin 512)) : Prop :=
  ∃ ρ j x, ρ ++ [j] <+: path ∧ RadixHeap.walk PageTableEntry.next mem r ρ = some x ∧
    mem x j = 0 ∧ mem' x j ≠ 0

/-- The tables on the way along `path`, as it was in memory `mem`, are not free, and their entries
on the way have only grown since. -/
def WayUsed (S : A.Spec) (mem : PhysMem) (r : PhysFrame) (path : List (Fin 512))
    (m : Machine σ) : Prop :=
  ∀ ρ j x, ρ ++ [j] <+: path → RadixHeap.walk PageTableEntry.next mem r ρ = some x →
    x ∉ S.free m.frames ∧ PageTableEntry.Grows (mem x j) (m.mem x j)

theorem WayUsed.grown {mem : PhysMem} {r : PhysFrame} {path : List (Fin 512)}
    (h : WayUsed S mem r path m) (hg : Grown S m m') : WayUsed S mem r path m' := by
  intro ρ j x hpre hx
  obtain ⟨hfree, hgr⟩ := h ρ j x hpre hx
  exact ⟨fun hc => hfree (hg.free hc), hgr.trans (hg.grows x hfree j)⟩

/-- A filled entry stays filled. -/
theorem Filled.grown {mem : PhysMem} {r : PhysFrame} {path : List (Fin 512)}
    (h : Filled mem m.mem r path) (hway : WayUsed S mem r path m) (hg : Grown S m m') :
    Filled mem m'.mem r path := by
  obtain ⟨ρ, j, x, hpre, hx, h0, hne⟩ := h
  exact ⟨ρ, j, x, hpre, hx, h0, (hg.grows x (hway ρ j x hpre hx).1 j).ne_zero hne⟩

/-- An entry on the way that is unused now was unused before. -/
theorem WayUsed.zero {mem : PhysMem} {r t : PhysFrame} {path ρ : List (Fin 512)} {k : Fin 512}
    (h : WayUsed S mem r path m) (hpre : ρ ++ [k] <+: path)
    (ht : RadixHeap.walk PageTableEntry.next mem r ρ = some t) (hzero : m.mem t k = 0) :
    mem t k = 0 := by
  by_contra hne
  exact (h ρ k t hpre ht).2.ne_zero hne hzero

/-- **A mapping fills an unused entry**: the first one on its way, as the way was in an earlier
memory that has grown into the present one. -/
theorem mapPath_fills {flags leaf : Word} {r : PhysFrame} {i : Fin 512} {path : List (Fin 512)}
    {mem : PhysMem} (hv : S.valid m.frames) (hfl : PageTableEntry.Plain flags) (hleaf : leaf ≠ 0)
    (hway : WayUsed S mem r (i :: path) m)
    (h : mapPath A flags leaf m r (i :: path) = .ok m') : Filled mem m'.mem r (i :: path) := by
  -- either the entry has been filled, or the walk is still where it went in `mem`
  refine mapPath_rule (Q := fun m₁ => Filled mem m₁.mem r (i :: path))
    (I := fun m₁ t rest => S.valid m₁.frames ∧ WayUsed S mem r (i :: path) m₁ ∧
      (Filled mem m₁.mem r (i :: path) ∨
        ∃ ρ, i :: path = ρ ++ rest ∧ RadixHeap.walk PageTableEntry.next mem r ρ = some t))
    ?_ ?_ ?_ ⟨hv, hway, Or.inr ⟨[], rfl, rfl⟩⟩ h
  · rintro m₁ t k j rest c m₂ ⟨hv, hway, hI⟩ hzero ha
    have hg := Grown.link (e := PageTableEntry.setFrame c flags) hv hzero ha
    refine ⟨hg.valid, hway.grown hg, Or.inl ?_⟩
    rcases hI with hfilled | ⟨ρ, hρ, ht⟩
    · exact hfilled.grown hway hg
    · have hpre : ρ ++ [k] <+: i :: path := ⟨j :: rest, by rw [hρ]; simp⟩
      have htc : t ≠ c := by
        rintro rfl
        obtain ⟨halloc, -, -⟩ := Machine.allocate_eq_some ha
        exact (hway ρ k t hpre ht).1 (S.allocate hv halloc).2.1
      refine ⟨ρ, k, t, hpre, ht, hway.zero hpre ht hzero, ?_⟩
      rw [Machine.write_mem, PhysMem.zeroFrame_of_ne htc, PhysMem.setEntry_self]
      exact PageTableEntry.ne_zero_of_present (PageTableEntry.present_setFrame hfl)
  · rintro m₁ t k j rest ⟨hv, hway, hI⟩ hne hh
    have hg := Grown.setEntry (S := S) (t := t) (i := k) hv (Or.inr ⟨flags, hfl.1, rfl⟩)
    refine ⟨hg.valid, hway.grown hg, ?_⟩
    rcases hI with hfilled | ⟨ρ, hρ, ht⟩
    · exact Or.inl (hfilled.grown hway hg)
    · have hpre : ρ ++ [k] <+: i :: path := ⟨j :: rest, by rw [hρ]; simp⟩
      obtain ⟨hfree, hgr⟩ := hway ρ k t hpre ht
      by_cases h0 : mem t k = 0
      · exact Or.inl ⟨ρ, k, t, hpre, ht, h0, (hg.grows t hfree k).ne_zero hne⟩
      · refine Or.inr ⟨ρ ++ [k], by rw [hρ]; simp, ?_⟩
        refine RadixHeap.walk_concat_eq_some.2 ⟨t, ht, ?_⟩
        rw [← hgr.next_eq h0]
        exact PageTableEntry.next_eq_some.2 ⟨hne, hh, rfl⟩
  · rintro m₁ t k ⟨hv, hway, hI⟩ hzero
    rcases hI with hfilled | ⟨ρ, hρ, ht⟩
    · exact hfilled.grown hway (Grown.setEntry hv (Or.inl hzero))
    · have hpre : ρ ++ [k] <+: i :: path := ⟨[], by rw [hρ]; simp⟩
      refine ⟨ρ, k, t, hpre, ht, hway.zero hpre ht hzero, ?_⟩
      rw [Machine.write_mem, PhysMem.setEntry_self]
      exact hleaf

/-! ## Loading -/

variable {mapTo : MapTo σ} {l4 : PhysFrame} {q : Request} {qs : List Request}

theorem mapRequest_grown (hmap : MapTo.Documented A mapTo) (hv : S.valid m.frames) (hq : q.Ok)
    (h : mapRequest A mapTo l4 m q = .ok m') : Grown S m m' := by
  obtain ⟨f, m₁, m₂, ha, hto, rfl⟩ := mapRequest_eq_ok hmap hq h
  have hg₁ := Grown.allocate hv ha
  have hg₂ := hg₁.trans (mapPath_grown hg₁.valid hq.plain hto)
  refine ⟨hg₂.valid, hg₂.free, ?_⟩
  intro x hx j
  have hxf : x ≠ f := by
    rintro rfl
    exact hx (S.allocate hv (Machine.allocate_eq_some ha).1).2.1
  rw [Machine.write_mem, PhysMem.writeBytes_zeroFrame_of_ne hxf]
  exact hg₂.grows x hx j

theorem mapRequests_grown (hmap : MapTo.Documented A mapTo) (hv : S.valid m.frames)
    (hqs : ∀ q ∈ qs, q.Ok) (h : qs.foldlM (mapRequest A mapTo l4) m = .ok m') :
    Grown S m m' := by
  induction qs generalizing m with
  | nil =>
    cases h
    exact Grown.refl hv
  | cons q qs ih =>
    rw [List.forall_mem_cons] at hqs
    rw [List.foldlM_cons] at h
    obtain ⟨m₁, h₁, h⟩ := bind_eq_ok h
    have hg := mapRequest_grown hmap hv hqs.1 h₁
    exact hg.trans (ih hg.valid hqs.2 h)

theorem mapRequest_fills {mem : PhysMem} (hmap : MapTo.Documented A mapTo)
    (hv : S.valid m.frames) (hq : q.Ok) (hway : WayUsed S mem l4 (pathOf q.addr) m)
    (h : mapRequest A mapTo l4 m q = .ok m') : Filled mem m'.mem l4 (pathOf q.addr) := by
  obtain ⟨f, m₁, m₂, ha, hto, rfl⟩ := mapRequest_eq_ok hmap hq h
  have hg₁ := Grown.allocate hv ha
  have hleaf : PageTableEntry.setFrame f q.flags ≠ 0 :=
    PageTableEntry.ne_zero_of_present (PageTableEntry.present_setFrame hq.plain)
  obtain ⟨ρ, j, x, hpre, hx, h0, hne⟩ :=
    mapPath_fills hg₁.valid hq.plain hleaf (hway.grown hg₁) hto
  refine ⟨ρ, j, x, hpre, hx, h0, ?_⟩
  have hxf : x ≠ f := by
    rintro rfl
    exact (hway ρ j x hpre hx).1 (S.allocate hv (Machine.allocate_eq_some ha).1).2.1
  rw [Machine.write_mem, PhysMem.writeBytes_zeroFrame_of_ne hxf]
  exact hne

/-- The page of one request among many has an entry filled on its way. -/
theorem mapRequests_fills {mem : PhysMem} (hmap : MapTo.Documented A mapTo)
    (hv : S.valid m.frames) (hqs : ∀ q ∈ qs, q.Ok) (hmem : q ∈ qs)
    (hway : WayUsed S mem l4 (pathOf q.addr) m)
    (h : qs.foldlM (mapRequest A mapTo l4) m = .ok m') : Filled mem m'.mem l4 (pathOf q.addr) := by
  induction qs generalizing m with
  | nil => cases hmem
  | cons q' qs ih =>
    rw [List.forall_mem_cons] at hqs
    rw [List.foldlM_cons] at h
    obtain ⟨m₁, h₁, hrest⟩ := bind_eq_ok h
    have hg := mapRequest_grown hmap hv hqs.1 h₁
    rcases List.mem_cons.1 hmem with rfl | hmem
    · exact (mapRequest_fills hmap hv hqs.1 hway h₁).grown (hway.grown hg)
        (mapRequests_grown hmap hg.valid hqs.2 hrest)
    · exact ih hg.valid hqs.2 hmem (hway.grown hg) hrest

variable {cr3 : PhysFrame} {off : Fin 512} {m₁ : Machine σ} (hv : S.valid m.frames)
  (hk : ∀ x, IsTable m.mem cr3 allEntries x → x ∉ S.free m.frames)
include hv hk

/-- The tables below a new level-4 table are the kernel's. -/
theorem isTable_of_walk (hnew : newAddressSpace A m cr3 off = .ok (l4, m₁)) {ρ : List (Fin 512)}
    {x : PhysFrame} (hρ : ρ.length ≤ 3)
    (hx : RadixHeap.walk PageTableEntry.next m₁.mem l4 ρ = some x) :
    (ρ = [] ∧ x = l4) ∨ IsTable m.mem cr3 allEntries x := by
  cases ρ with
  | nil => exact Or.inl ⟨rfl, (Option.some.inj hx).symm⟩
  | cons i ρ =>
    have hlen := hρ
    rw [List.length_cons] at hlen
    refine Or.inr ⟨i :: ρ, hρ, ((newAddressSpace_walk hv hk hnew (by omega)).1 ?_).2⟩
    rw [tableWalk, view_allEntries]
    exact hx

/-- **A page below a shared entry in use** changes one of the kernel's tables. -/
theorem kernel_table_changed (hmap : MapTo.Documented A mapTo) (hqs : ∀ q ∈ qs, q.Ok)
    (hnew : newAddressSpace A m cr3 off = .ok (l4, m₁)) (hmem : q ∈ qs)
    (hshared : shared off q.slot = true) (hne : m.mem cr3 q.slot ≠ 0)
    (h : qs.foldlM (mapRequest A mapTo l4) m₁ = .ok m') :
    ∃ x, IsTable m.mem cr3 allEntries x ∧ m'.mem x ≠ m.mem x := by
  obtain ⟨-, hv₁, hremoved, hl4⟩ := newAddressSpace_fresh hv hk hnew
  obtain ⟨-, -, -, hkeep, -⟩ := newAddressSpace_eq_ok hnew
  have hshort : ∀ {ρ : List (Fin 512)} {j}, ρ ++ [j] <+: pathOf q.addr → ρ.length ≤ 3 := by
    intro ρ j hpre
    have hlt := RadixHeap.length_lt_of_isPrefix_concat hpre
    rw [length_pathOf] at hlt
    omega
  have hway : WayUsed S m₁.mem l4 (pathOf q.addr) m₁ := by
    intro ρ j x hpre hx
    refine ⟨?_, PageTableEntry.Grows.refl _⟩
    rcases isTable_of_walk hv hk hnew (hshort hpre) hx with ⟨-, rfl⟩ | hx
    · exact fun hc => (hremoved hc).2 rfl
    · exact fun hc => hk x hx (hremoved hc).1
  obtain ⟨ρ, j, x, hpre, hx, h0, hne'⟩ := mapRequests_fills hmap hv₁ hqs hmem hway h
  have hxk : IsTable m.mem cr3 allEntries x := by
    rcases isTable_of_walk hv hk hnew (hshort hpre) hx with ⟨rfl, rfl⟩ | hx
    · -- the entry filled is not the cloned one, which is in use
      obtain ⟨π, -, hpath⟩ := q.pathOf_addr
      rw [hpath, List.nil_append, List.cons_prefix_cons] at hpre
      have howned : owned off q.slot = false := by
        rw [owned, hshared]
        rfl
      rw [hpre.1, newAddressSpace_entry hv hk hnew, howned] at h0
      exact absurd h0 hne
    · exact hx
  refine ⟨x, hxk, ?_⟩
  intro hc
  rw [hc, ← hkeep x fun hc => hl4 (hc ▸ hxk)] at hne'
  exact hne' h0

/-- **Without such a page** no frame changes but those that were handed out. -/
theorem untouched_of_unshared (hmap : MapTo.Documented A mapTo) (hqs : ∀ q ∈ qs, q.Ok)
    (hnew : newAddressSpace A m cr3 off = .ok (l4, m₁))
    (hcond : ∀ q ∈ qs, shared off q.slot = true → m.mem cr3 q.slot = 0)
    (h : qs.foldlM (mapRequest A mapTo l4) m₁ = .ok m') {x : PhysFrame}
    (hx : x ∉ m'.log ∨ IsTable m.mem cr3 allEntries x) : m'.mem x = m.mem x := by
  -- the new space without the cloned entries that are in use
  let vis : Fin 512 → Bool := fun i => owned off i || decide (m.mem cr3 i = 0)
  have hvis : ∀ i, vis i = true → owned off i = true ∨ m.mem cr3 i = 0 := by
    intro i hi
    simpa [vis] using hi
  have hcr3 : cr3 ∉ S.free m.frames := hk cr3 ⟨[], by simp, rfl⟩
  obtain ⟨hs, hfree, hremoved, hlone⟩ := newAddressSpace_own hv hcr3 hvis hnew
  obtain ⟨m₀, ha, hm₁, hkeep, -⟩ := newAddressSpace_eq_ok hnew
  have hslots : ∀ q ∈ qs, vis q.slot = true := by
    intro q hq
    cases hshared : shared off q.slot with
    | false => simp [vis, owned, hshared]
    | true => simp [vis, hcond q hq hshared]
  obtain ⟨-, he, -⟩ := mapRequests_spec hmap hs hqs hslots h
  have hlog : l4 ∈ m'.log := by
    refine he.log ?_
    rw [hm₁, Machine.write_log, (Machine.allocate_eq_some ha).2.2]
    exact List.mem_cons_self
  have hxl4 : x ≠ l4 := by
    rintro rfl
    exact hx.elim (fun hc => hc hlog) (fun hc => hk x hc hfree)
  have htab : ¬ IsTable m₁.mem l4 vis x := by
    rintro ⟨π, -, hπ⟩
    exact hxl4 (hlone π x hπ).2
  rw [he.untouched x ?_ htab, hkeep x hxl4]
  exact hx.symm.imp_left fun hc hf => hk x hc (hremoved hf).1

end Shared

section Isolation

variable {σ : Type} {A : FrameAllocator σ} {mapTo : MapTo σ} {S : A.Spec} {cr3 : PhysFrame}
  {off : Fin 512} {bytes args : List Byte} {m m' : Machine σ} {loaded : Option LoadedElf}

/-- The same machine with nothing on record: what `log` holds later was handed out since. -/
def Machine.clearLog (m : Machine σ) : Machine σ := { m with log := [] }

/-- **What loading leaves alone.**  `load` changes no frame but those it was given, and no table
of the kernel, if and only if no page that the file asks for lies below a shared entry that is
in use. -/
theorem load_isolated_iff (hmap : MapTo.Documented A mapTo) (hv : S.valid m.frames)
    (hk : ∀ x, IsTable m.mem cr3 allEntries x → x ∉ S.free m.frames)
    (h : load A mapTo cr3 off bytes args m.clearLog = .ok (m', loaded)) :
    ((∀ x, x ∉ m'.log → m'.mem x = m.mem x) ∧
        ∀ x, IsTable m.mem cr3 allEntries x → m'.mem x = m.mem x) ↔
      (headerOk bytes = true → ∀ q ∈ (plan bytes args).pages, shared off q.slot = true →
        m.mem cr3 q.slot = 0) := by
  rcases load_eq_ok h with ⟨hbad, rfl, -⟩ | ⟨hok, l4, m₁, m₂, hnew, hall, hend⟩
  · rw [hbad]
    simp [Machine.clearLog]
  have hm' : m'.mem = m₂.mem ∧ m'.log = m₂.log := by
    rcases hend with ⟨_, _, _, _, -, rfl, -⟩ | ⟨-, -, hfree⟩
    · exact ⟨rfl, rfl⟩
    · exact freeAddressSpace_keeps hfree
  obtain ⟨hlow, hrun⟩ := (mapAll_eq_ok plan_accepted).1 hall
  have hqs := plan_request_ok hlow
  rw [hm'.1, hm'.2]
  constructor
  · rintro ⟨-, hkernel⟩ _ q hq hshared
    by_contra hne
    obtain ⟨x, hx, hchanged⟩ := kernel_table_changed (m := m.clearLog) hv hk hmap hqs hnew hq
      hshared hne hrun
    exact hchanged (hkernel x hx)
  · intro hcond
    have hall := fun x => untouched_of_unshared (x := x) (m := m.clearLog) hv hk hmap hqs hnew
      (hcond hok) hrun
    exact ⟨fun x hx => hall x (Or.inl hx), fun x hx => hall x (Or.inr hx)⟩

end Isolation

theorem load_isolated_iff_oneSegment :
    ∃ m' loaded, load bootInfo (documentedMapTo bootInfo) 1 3 oneSegment [] bootMachine.clearLog =
        .ok (m', some loaded) ∧
      (∀ x, x ∉ m'.log → m'.mem x = bootMemory x) ∧
        ∀ x, IsTable bootMemory 1 allEntries x → m'.mem x = bootMemory x := by
  obtain ⟨⟨m', loaded⟩, h, hsome⟩ := Runs.exists_ok_of_any
    (x := load bootInfo (documentedMapTo bootInfo) 1 3 oneSegment [] bootMachine.clearLog)
    (fun r => r.2.isSome) (by decide +kernel)
  obtain ⟨elf, rfl⟩ := Option.isSome_iff_exists.1 hsome
  have hslots : ∀ q ∈ (plan oneSegment []).pages, shared 3 q.slot = false := by decide +kernel
  refine ⟨m', elf, h, (load_isolated_iff (S := bootInfoSpec) (m := bootMachine)
    (fun _ _ _ _ _ _ => rfl) space_bootMachine.valid space_bootMachine.used h).2 ?_⟩
  intro _ q hq hshared
  rw [hslots q hq] at hshared
  cases hshared

/-- A file without program headers: `load` puts its stack at 0x1000. -/
def noSegments : List Byte := fileHeader 0 56 0

/-- **Loading reaches into the kernel's tables**: frame 2, the level-3 table behind entry 0, was
not handed out, and an entry of it is changed. -/
theorem load_changes_kernel_table :
    ∃ m' loaded, load bootInfo (documentedMapTo bootInfo) 1 3 noSegments [] bootMachine.clearLog =
        .ok (m', some loaded) ∧
      IsTable bootMachine.mem 1 allEntries 2 ∧ 2 ∉ m'.log ∧ m'.mem 2 0 ≠ bootMachine.mem 2 0 := by
  obtain ⟨⟨m', loaded⟩, h, htest⟩ := Runs.exists_ok_of_any
    (x := load bootInfo (documentedMapTo bootInfo) 1 3 noSegments [] bootMachine.clearLog)
    (fun r => r.2.isSome && !r.1.log.contains 2 && r.1.mem 2 0 != bootMemory 2 0)
    (by decide +kernel)
  simp only [Bool.and_eq_true, Bool.not_eq_true', bne_iff_ne] at htest
  obtain ⟨⟨hsome, hlog⟩, hne⟩ := htest
  obtain ⟨elf, rfl⟩ := Option.isSome_iff_exists.1 hsome
  refine ⟨m', elf, h, ⟨[0], by simp, by decide⟩, ?_, hne⟩
  intro hc
  rw [List.contains_iff_mem.2 hc] at hlog
  cases hlog
