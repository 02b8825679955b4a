/-
# What a mapping lets through

A page can be used from ring 3 if all four entries on the way to it say so.  Mappings
with different flags share tables, and `map_to` only ever adds flags to the entries of
a table on its way, so two things have to be followed at once.

* From below: the last entry on the way is written once, with the flags of its mapping.
  `LeavesFrom` says that whatever a last-level table lets through was written for one
  of a given set of mappings.
* From above: every entry on the way to a page has the flags the page was mapped with
  (`Granted`), whatever was mapped before or after.

Together they say what the whole walk lets through (`userWalk_iff`).
-/
import Velora.ElfPages
import Velora.UserRange

/-! ## Bits of an entry -/

namespace PageTableEntry

/-- The low bits of an entry are its flags. -/
theorem getLsbD_setFrame {f : PhysFrame} {flags : Word} {i : ℕ} (hi : i < 12) :
    (setFrame f flags).getLsbD i = flags.getLsbD i := by
  have hlow : (BitVec.ofNat 64 (f.val * 4096)).getLsbD i = false := by
    rw [BitVec.getLsbD, toNat_frameWord, show 4096 = 2 ^ 12 from rfl, Nat.testBit_mul_two_pow]
    simp [hi]
  rw [setFrame, BitVec.getLsbD_or, hlow, Bool.false_or]

theorem user_setFrame {f : PhysFrame} {flags : Word} : user (setFrame f flags) = user flags :=
  getLsbD_setFrame (by norm_num)

theorem writable_setFrame {f : PhysFrame} {flags : Word} :
    writable (setFrame f flags) = writable flags :=
  getLsbD_setFrame (by norm_num)

theorem contains_setFrame {f : PhysFrame} {flags : Word} :
    contains (setFrame f flags) flags = true := by
  refine contains_iff.2 fun i hi => ?_
  rw [setFrame, BitVec.getLsbD_or, hi, Bool.or_true]

theorem contains_or_left {e flags flags' : Word} (h : contains e flags = true) :
    contains (e ||| flags') flags = true := by
  refine contains_iff.2 fun i hi => ?_
  rw [BitVec.getLsbD_or, contains_iff.1 h i hi, Bool.true_or]

theorem contains_or_right {e flags : Word} : contains (e ||| flags) flags = true := by
  refine contains_iff.2 fun i hi => ?_
  rw [BitVec.getLsbD_or, hi, Bool.or_true]

/-- An entry in use keeps the flags it has. -/
theorem Grows.contains {e e' flags : Word} (h : Grows e e') (he : e ≠ 0)
    (hc : PageTableEntry.contains e flags = true) : PageTableEntry.contains e' flags = true := by
  rcases h with h0 | ⟨flags', -, rfl⟩
  · exact absurd h0 he
  · exact contains_or_left hc

end PageTableEntry

/-! ## Mappings and what they leave in the tables -/

/-- The path of a page and the flags it is mapped with. -/
abbrev Mapping := List (Fin 512) × Word

/-- Every entry on the way along `path` has the given flags. -/
def Granted (mem : PhysMem) (r : PhysFrame) (vis : Fin 512 → Bool) (path : List (Fin 512))
    (flags : Word) : Prop :=
  ∀ ρ j x, ρ ++ [j] <+: path → tableWalk mem r vis ρ = some x →
    PageTableEntry.contains (mem x j) flags = true

/-- **What the last-level tables let through** was written for one of the mappings `P`, and is
writable only if the mapping is. -/
def LeavesFrom (mem : PhysMem) (r : PhysFrame) (vis : Fin 512 → Bool) (P : Set Mapping) : Prop :=
  ∀ ρ j t, ρ.length = 3 → tableWalk mem r vis ρ = some t →
    PageTableEntry.user (mem t j) = true →
    ∃ flags, (ρ ++ [j], flags) ∈ P ∧ PageTableEntry.user flags = true ∧
      (PageTableEntry.writable (mem t j) = true → PageTableEntry.writable flags = true)

theorem LeavesFrom.mono {mem : PhysMem} {r : PhysFrame} {vis : Fin 512 → Bool} {P P' : Set Mapping}
    (h : LeavesFrom mem r vis P) (hP : P ⊆ P') : LeavesFrom mem r vis P' := by
  intro ρ j t hρ ht hu
  obtain ⟨flags, hmem, hflags⟩ := h ρ j t hρ ht hu
  exact ⟨flags, hP hmem, hflags⟩

theorem Granted.nil (mem : PhysMem) (r : PhysFrame) (vis : Fin 512 → Bool) (flags : Word) :
    Granted mem r vis [] flags := by
  intro ρ j x hpre
  exact absurd (List.prefix_nil.1 hpre) (by simp)

/-- One step further. -/
theorem Granted.concat {mem : PhysMem} {r t : PhysFrame} {vis : Fin 512 → Bool}
    {ρ : List (Fin 512)} {i : Fin 512} {flags : Word} (h : Granted mem r vis ρ flags)
    (ht : tableWalk mem r vis ρ = some t) (hi : PageTableEntry.contains (mem t i) flags = true) :
    Granted mem r vis (ρ ++ [i]) flags := by
  intro ρ' j x hpre hx
  rcases List.prefix_concat_iff.1 hpre with heq | hpre
  · obtain ⟨rfl, hj⟩ := List.append_inj' heq rfl
    obtain rfl := (List.cons.inj hj).1
    rw [ht] at hx
    obtain rfl := Option.some.inj hx
    exact hi
  · exact h ρ' j x hpre hx

/-- The way to a page leads through the way to every table on it. -/
theorem MapsTo.take {mem : PhysMem} {r f : PhysFrame} {vis : Fin 512 → Bool}
    {path ρ : List (Fin 512)} (h : MapsTo mem r vis path f) (hpre : ρ <+: path) :
    ∃ x, MapsTo mem r vis ρ x := by
  obtain ⟨rest, rfl⟩ := hpre
  obtain ⟨x, hx, -⟩ := RadixHeap.exists_of_walk_append h.walk
  refine ⟨x, hx, ?_⟩
  intro ρ' j y hpre
  exact h.present ρ' j y (hpre.trans (List.prefix_append _ _))

/-! ## What ring 3 may use -/

section Walk

variable {mem : PhysMem} {r : PhysFrame} {needWrite : Bool}

/-- Along entries that have the flags, CPL 3 is let through. -/
theorem UserWalk.of_granted {path : List (Fin 512)} {f : PhysFrame} {flags : Word}
    (hm : MapsTo mem r allEntries path f) (hg : Granted mem r allEntries path flags)
    (hu : PageTableEntry.user flags = true)
    (hw : needWrite = true → PageTableEntry.writable flags = true) :
    UserWalk mem needWrite r path := by
  -- from any table on the way, by induction on what is left of it
  suffices hsuff : ∀ rest ρ t, path = ρ ++ rest → tableWalk mem r allEntries ρ = some t →
      UserWalk mem needWrite t rest from hsuff path [] r rfl rfl
  intro rest
  induction rest with
  | nil => intro ρ t _ _; trivial
  | cons i rest ih =>
    intro ρ t hpath ht
    have hpre : ρ ++ [i] <+: path := by
      rw [hpath]
      exact ⟨rest, by rw [List.append_assoc, List.singleton_append]⟩
    obtain ⟨c, hc, -⟩ := hm.take hpre
    obtain ⟨t', ht', hnext⟩ := RadixHeap.walk_concat_eq_some.1 hc
    rw [tableWalk] at ht
    rw [ht] at ht'
    obtain rfl := Option.some.inj ht'
    rw [view_allEntries] at hnext
    obtain ⟨-, hh, hframe⟩ := PageTableEntry.next_eq_some.1 hnext
    have hbits := PageTableEntry.contains_iff.1 (hg ρ i t hpre ht)
    refine ⟨⟨hm.present ρ i t hpre ht, hbits 2 hu, fun h => hbits 1 (hw h), hh⟩, ?_⟩
    rw [hframe]
    exact ih (ρ ++ [i]) c (by rw [hpath, List.append_assoc, List.singleton_append]) hc

/-- A walk that CPL 3 is let through ends in an entry of a table, which lets it through. -/
theorem UserWalk.leaf {path ρ : List (Fin 512)} {j : Fin 512}
    (h : UserWalk mem needWrite r path) (hpath : path = ρ ++ [j]) :
    ∃ t, tableWalk mem r allEntries ρ = some t ∧ Grants needWrite (mem t j) := by
  rw [tableWalk, view_allEntries]
  induction ρ generalizing r path with
  | nil =>
    rw [hpath] at h
    exact ⟨r, rfl, h.1⟩
  | cons i ρ ih =>
    rw [hpath] at h
    obtain ⟨⟨hp, -, -, hh⟩, hrest⟩ := h
    obtain ⟨t, ht, hgrants⟩ := ih hrest rfl
    refine ⟨t, ?_, hgrants⟩
    rw [RadixHeap.walk_cons,
      PageTableEntry.next_eq_some.2 ⟨PageTableEntry.ne_zero_of_present hp, hh, rfl⟩]
    exact ht

/-- **What CPL 3 may use** is what was mapped for it. -/
theorem userWalk_iff {P : Set Mapping} {path : List (Fin 512)} (hlen : path.length = 4)
    (hleaves : LeavesFrom mem r allEntries P)
    (hgranted : ∀ p ∈ P, (∃ f, MapsTo mem r allEntries p.1 f) ∧
      Granted mem r allEntries p.1 p.2) :
    UserWalk mem needWrite r path ↔ ∃ flags, (path, flags) ∈ P ∧
      PageTableEntry.user flags = true ∧
      (needWrite = true → PageTableEntry.writable flags = true) := by
  constructor
  · intro h
    obtain ⟨ρ, j, hpath⟩ := List.eq_nil_or_concat path |>.resolve_left (by rintro rfl; cases hlen)
    rw [List.concat_eq_append] at hpath
    obtain ⟨t, ht, -, hu, hw, -⟩ := h.leaf hpath
    have hρ : ρ.length = 3 := by
      rw [hpath, List.length_append, List.length_singleton] at hlen
      omega
    obtain ⟨flags, hmem, huser, hwrite⟩ := hleaves ρ j t hρ ht hu
    exact ⟨flags, hpath ▸ hmem, huser, fun h => hwrite (hw h)⟩
  · rintro ⟨flags, hmem, hu, hw⟩
    obtain ⟨⟨f, hm⟩, hg⟩ := hgranted _ hmem
    exact UserWalk.of_granted hm hg hu hw

end Walk

/-! ## One `map_to` -/

section Tables

variable {σ : Type} {A : FrameAllocator σ} {S : A.Spec} {r : PhysFrame} {vis own : Fin 512 → Bool}
  {m m' m₁ : Machine σ}

/-- Later mappings leave the flags on the way to a page. -/
theorem Granted.extends (hs : Space S r vis own m) (he : Extends S r vis m m')
    {path : List (Fin 512)} {f : PhysFrame} {flags : Word} (hlen : path.length ≤ 4)
    (hm : MapsTo m.mem r vis path f) (h : Granted m.mem r vis path flags) :
    Granted m'.mem r vis path flags := by
  intro ρ j x hpre hx
  have hlt := RadixHeap.length_lt_of_isPrefix_concat hpre
  obtain ⟨x₀, hx₀⟩ := hm.take ((List.prefix_append ρ [j]).trans hpre)
  have hx₀' := (hx₀.extends hs he (by omega)).walk
  rw [hx] at hx₀'
  obtain rfl := Option.some.inj hx₀'
  have hgrow := he.grows x (hs.used x ⟨ρ, by omega, hx₀.walk⟩) j
  exact hgrow.contains (PageTableEntry.ne_zero_of_present (hm.present ρ j x hpre hx₀.walk))
    (h ρ j x hpre hx₀.walk)

section Way

variable {P : Set Mapping} {ρ : List (Fin 512)} {t c f : PhysFrame} {i : Fin 512} {flags : Word}
  (hw : OnWay S r vis own m m₁ ρ t i) (hfl : PageTableEntry.Plain flags)
  (hP : LeavesFrom m₁.mem r vis P) (hg : Granted m₁.mem r vis ρ flags)
include hw hfl hP

omit hfl hP in
/-- An entry on the way to a last-level table is no entry of one. -/
theorem OnWay.not_leaf (hρ : ρ.length ≤ 2) {π : List (Fin 512)} (hπ : π.length = 3) :
    tableWalk m₁.mem r vis π ≠ some t := by
  intro hx
  have := hw.space.tree π ρ t (by omega) (by omega) hx hw.maps.walk
  subst this
  omega

/-- A new table lets nothing through. -/
theorem LeavesFrom.link (hρ : ρ.length ≤ 2) (hzero : m₁.mem t i = 0)
    (hl : Linked S m₁ m' t i c flags) : LeavesFrom m'.mem r vis P := by
  intro π j x hπ hx hu
  rcases (Linked.tableWalk_iff hw.space hfl hw.visible hzero hl (by omega)).1 hx with hx | ⟨rfl, -⟩
  · have hxc : x ≠ c := fun hc => Linked.fresh hw.space hl π (by omega) (hc ▸ hx)
    have hxt : ¬ (x = t ∧ j = i) := by
      rintro ⟨rfl, -⟩
      exact hw.not_leaf hρ hπ hx
    rw [hl.other x j hxc hxt] at hu ⊢
    exact hP π j x hπ hx hu
  · rw [hl.zero] at hu
    exact absurd hu (by decide)

theorem LeavesFrom.mark (hρ : ρ.length ≤ 2) (hne : m₁.mem t i ≠ 0)
    (hm' : m' = m₁.write (m₁.mem.setEntry t i (m₁.mem t i ||| flags))) :
    LeavesFrom m'.mem r vis P := by
  intro π j x hπ hx hu
  rw [mark_tableWalk hfl hne hm'] at hx
  have hxt : x ≠ t := by
    rintro rfl
    exact hw.not_leaf hρ hπ hx
  rw [hm', Machine.write_mem, PhysMem.setEntry_of_ne hxt] at hu ⊢
  exact hP π j x hπ hx hu

/-- The last entry lets through what the mapping does. -/
theorem LeavesFrom.leaf (hρ : ρ.length = 3) (hzero : m₁.mem t i = 0)
    (hf : ¬ IsTable m₁.mem r vis f)
    (hm' : m' = m₁.write (m₁.mem.setEntry t i (PageTableEntry.setFrame f flags))) :
    LeavesFrom m'.mem r vis (insert (ρ ++ [i], flags) P) := by
  intro π j x hπ hx hu
  rw [leaf_tableWalk hw.space hfl hρ hw.maps hw.visible hzero hf hm' hπ.le] at hx
  rw [hm', Machine.write_mem, PhysMem.setEntry_apply] at hu ⊢
  by_cases hxt : x = t ∧ j = i
  · obtain ⟨rfl, rfl⟩ := hxt
    obtain rfl := hw.space.tree π ρ x hπ.le hρ.le hx hw.maps.walk
    rw [if_pos ⟨rfl, rfl⟩, PageTableEntry.user_setFrame] at hu
    refine ⟨flags, Set.mem_insert _ _, hu, ?_⟩
    rw [if_pos ⟨rfl, rfl⟩, PageTableEntry.writable_setFrame]
    exact id
  · rw [if_neg hxt] at hu ⊢
    obtain ⟨flags', hmem, hflags⟩ := hP π j x hπ hx hu
    exact ⟨flags', Set.mem_insert_of_mem _ hmem, hflags⟩

end Way

/-- **What `map_to` lets through**: one mapping more, and that one at every level. -/
theorem mapPath_permissions {flags : Word} {path : List (Fin 512)} {f : PhysFrame}
    {P : Set Mapping} (hs : Space S r vis own m) (hfl : PageTableEntry.Plain flags)
    (hlen : path.length = 4) (hvis : ∀ h ∈ path.head?, vis h = true)
    (hf : ¬ IsTable m.mem r vis f) (hfree : f ∉ S.free m.frames)
    (hP : LeavesFrom m.mem r vis P)
    (h : mapPath A flags (PageTableEntry.setFrame f flags) m r path = .ok m') :
    LeavesFrom m'.mem r vis (insert (path, flags) P) ∧ Granted m'.mem r vis path flags := by
  refine mapPath_space_rule
    (J := fun m₁ ρ _ => LeavesFrom m₁.mem r vis P ∧ Granted m₁.mem r vis ρ flags)
    (Q := fun m₂ => LeavesFrom m₂.mem r vis (insert (path, flags) P) ∧
      Granted m₂.mem r vis path flags)
    hs hfl hlen hvis hf hfree ⟨hP, Granted.nil m.mem r vis flags⟩ ?_ ?_ ?_ h
  · rintro m₁ m₂ ρ t i c hw hρ hzero - hl ⟨hP₁, hg₁⟩
    have he := Extends.link hw.space hfl hρ hw.maps hw.visible hzero hl
    refine ⟨hP₁.link hw hfl hρ hzero hl, (hg₁.extends hw.space he (by omega) hw.maps).concat
      (hw.maps.extends hw.space he (by omega)).walk ?_⟩
    rw [hl.self]
    exact PageTableEntry.contains_setFrame
  · rintro m₁ m₂ ρ t i hw hρ hne hh hm₂ ⟨hP₁, hg₁⟩
    have he : Extends S r vis m₁ m₂ := Extends.mark hfl (by omega) hw.maps hne hm₂
    refine ⟨hP₁.mark hw hfl hρ hne hm₂, (hg₁.extends hw.space he (by omega) hw.maps).concat
      (hw.maps.extends hw.space he (by omega)).walk ?_⟩
    rw [hm₂, Machine.write_mem, PhysMem.setEntry_self]
    exact PageTableEntry.contains_or_right
  · rintro m₁ m₂ ρ t i hw hρ hpath hzero hf₁ hm₂ ⟨hP₁, hg₁⟩
    have he := Extends.leaf hw.space hfl hρ hw.maps hw.visible hzero hf₁ hm₂
    rw [hpath]
    refine ⟨hP₁.leaf hw hfl hρ hzero hf₁ hm₂, (hg₁.extends hw.space he (by omega) hw.maps).concat
      (hw.maps.extends hw.space he (by omega)).walk ?_⟩
    rw [hm₂, Machine.write_mem, PhysMem.setEntry_self]
    exact PageTableEntry.contains_setFrame

/-! ## A space and its mappings -/

/-- **The tables let through the mappings `P`**: each of them at every level, and nothing else. -/
structure Permits (S : A.Spec) (r : PhysFrame) (vis own : Fin 512 → Bool) (m : Machine σ)
    (P : Set Mapping) : Prop where
  space : Space S r vis own m
  leaves : LeavesFrom m.mem r vis P
  granted : ∀ p ∈ P, p.1.length = 4 ∧ (∃ f, MapsTo m.mem r vis p.1 f) ∧
    Granted m.mem r vis p.1 p.2

variable {P : Set Mapping}

theorem Permits.allocate (h : Permits S r vis own m P) {f : PhysFrame}
    (ha : m.allocate A = some (f, m')) : Permits S r vis own m' P := by
  have hmem : m'.mem = m.mem := (Machine.allocate_eq_some ha).2.1
  refine ⟨(h.space.allocate ha).1, ?_, ?_⟩
  · rw [hmem]
    exact h.leaves
  · rw [hmem]
    exact h.granted

/-- **One more mapping.** -/
theorem Permits.mapPath {flags : Word} {path : List (Fin 512)} {f : PhysFrame}
    (h : Permits S r vis own m P) (hfl : PageTableEntry.Plain flags) (hlen : path.length = 4)
    (hvis : ∀ h ∈ path.head?, vis h = true) (hf : ¬ IsTable m.mem r vis f)
    (hfree : f ∉ S.free m.frames)
    (hmap : mapPath A flags (PageTableEntry.setFrame f flags) m r path = .ok m') :
    Permits S r vis own m' (insert (path, flags) P) := by
  have hpage := mapPath_spec h.space hfl hlen hvis hf hfree hmap
  obtain ⟨hleaves, hgranted⟩ := mapPath_permissions h.space hfl hlen hvis hf hfree h.leaves hmap
  refine ⟨hpage.space, hleaves, ?_⟩
  rintro p (rfl | hp)
  · exact ⟨hlen, ⟨f, hpage.maps⟩, hgranted⟩
  · obtain ⟨hlen', ⟨g, hg⟩, hgr⟩ := h.granted p hp
    exact ⟨hlen', ⟨g, hg.extends h.space hpage.ext hlen'.le⟩,
      hgr.extends h.space hpage.ext hlen'.le hg⟩

/-- Writing to a frame that is no table changes nothing here. -/
theorem Permits.fill {f : PhysFrame} {mem : PhysMem} (h : Permits S r vis own m P)
    (hf : ¬ IsTable m.mem r vis f) (hother : ∀ x, x ≠ f → mem x = m.mem x) :
    Permits S r vis own (m.write mem) P := by
  refine ⟨h.space.fill hf hother, ?_, ?_⟩
  · intro ρ j t hρ ht hu
    rw [Machine.write_mem, fill_tableWalk hf hother (by omega)] at ht
    rw [Machine.write_mem, (fill_entry hf hother hρ.le ht j).1] at hu ⊢
    exact h.leaves ρ j t hρ ht hu
  · intro p hp
    obtain ⟨hlen, ⟨g, hg⟩, hgr⟩ := h.granted p hp
    refine ⟨hlen, ⟨g, hg.fill hf hother hlen.le⟩, ?_⟩
    intro ρ j x hpre hx
    have hlt := RadixHeap.length_lt_of_isPrefix_concat hpre
    rw [Machine.write_mem, fill_tableWalk hf hother (by omega)] at hx
    rw [Machine.write_mem, (fill_entry hf hother (by omega) hx j).1]
    exact hgr ρ j x hpre hx

section Requests

variable {mapTo : MapTo σ} {q : Request}

/-- What a request asks for. -/
def Request.mapping (q : Request) : Mapping := (pathOf q.addr, q.flags)

theorem mapRequest_permits (hmap : MapTo.Documented A mapTo) (h : Permits S r vis own m P)
    (hq : q.Ok) (hvis : vis q.slot = true) (hreq : mapRequest A mapTo r m q = .ok m') :
    Permits S r vis own m' (insert q.mapping P) := by
  obtain ⟨f, m₁, m₂, ha, hto, rfl⟩ := mapRequest_eq_ok hmap hq hreq
  have hmem : m₁.mem = m.mem := (Machine.allocate_eq_some ha).2.1
  obtain ⟨hs₁, -, hfree, hused, -⟩ := h.space.allocate ha
  have hf₁ : ¬ IsTable m₁.mem r vis f := hmem ▸ h.space.not_isTable hfree
  have hlen := length_pathOf q.addr
  have hhead := Request.head_pathOf hvis
  have hf₂ := (mapPath_spec hs₁ hq.plain hlen hhead hf₁ hused hto).ext.not_isTable hf₁ hused
  refine ((h.allocate ha).mapPath hq.plain hlen hhead hf₁ hused hto).fill hf₂ ?_
  intro x hx
  exact PhysMem.writeBytes_zeroFrame_of_ne hx

/-- **The requests of a plan** are let through, and nothing else is. -/
theorem mapRequests_permits (hmap : MapTo.Documented A mapTo) {qs : List Request}
    (h : Permits S r vis own m P) (hqs : ∀ q ∈ qs, q.Ok) (hvis : ∀ q ∈ qs, vis q.slot = true)
    (hreqs : qs.foldlM (mapRequest A mapTo r) m = .ok m') :
    Permits S r vis own m' ({p | ∃ q ∈ qs, p = q.mapping} ∪ P) := by
  induction qs generalizing m P with
  | nil =>
    cases hreqs
    simpa using h
  | cons q qs ih =>
    rw [List.forall_mem_cons] at hqs hvis
    rw [List.foldlM_cons] at hreqs
    obtain ⟨m₁, h₁, hreqs⟩ := bind_eq_ok hreqs
    have hset : {p | ∃ q' ∈ q :: qs, p = q'.mapping} ∪ P =
        {p | ∃ q' ∈ qs, p = q'.mapping} ∪ insert q.mapping P := by
      ext p
      simp only [List.mem_cons, Set.mem_union, Set.mem_ofPred_eq, Set.mem_insert_iff,
        exists_eq_or_imp]
      rw [or_comm (a := p = q.mapping), or_assoc]
    rw [hset]
    exact ih (mapRequest_permits hmap h hqs.1 hvis.1 h₁) hqs.2 hvis.2 hreqs

end Requests

end Tables
