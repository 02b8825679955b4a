/-
# A load that fails

`elf::load` may give up at any program header, at the stack or at the argument page.  Its
documentation says that whatever the call has allocated by then is freed again.  It calls
`free_address_space`, which skips the two entries that every space shares with the
kernel; but nothing keeps a file from asking for pages below them.

`failed_load_frees_iff`: after a load that fails, the frames available are those that
were available before exactly when no page was mapped below a shared entry.
-/
import Velora.ElfPanics
import Velora.TableGrowth

section FailedLoad

variable {σ : Type} {A : FrameAllocator σ} {mapTo : MapTo σ} {S : A.Spec} {l4 : PhysFrame}
  {vis own : Fin 512 → Bool} {off : Fin 512} {m m' : Machine σ} {q : Request} {qs : List Request}

/-! ## What loading adds -/

theorem mapRequest_adds (hexact : S.Exact) (hmap : MapTo.Documented A mapTo)
    (hs : Space S l4 vis own m) (hq : q.Ok) (hvis : vis q.slot = true)
    (h : mapRequest A mapTo l4 m q = .ok m') :
    ∃ added : List Reached, (∃ f, (pathOf q.addr, f) ∈ added) ∧
      (∀ p ∈ added, p.1 ≠ [] ∧ p.1 <+: pathOf q.addr) ∧
      Adds S l4 vis m m' added (added.map Prod.snd) := by
  obtain ⟨f, m₁, m₂, ha, hto, rfl⟩ := mapRequest_eq_ok hmap hq h
  have hother : ∀ x, x ≠ f → (m₂.mem.zeroFrame f).writeBytes f q.bytes x = m₂.mem x :=
    fun _ hx => PhysMem.writeBytes_zeroFrame_of_ne hx
  obtain ⟨added, hmem, hbelow, hadds⟩ := freshMapped_adds hexact hs hq.plain
    (length_pathOf q.addr) (Request.head_pathOf hvis) ha hto hother
  exact ⟨added, ⟨f, hmem⟩, hbelow, hadds⟩

/-- **What a run of requests adds**: the path of each page, and paths on the way to them, all to
new frames. -/
theorem mapRequests_adds (hexact : S.Exact) (hmap : MapTo.Documented A mapTo)
    (hs : Space S l4 vis own m) (hqs : ∀ q ∈ qs, q.Ok) (hvis : ∀ q ∈ qs, vis q.slot = true)
    (h : qs.foldlM (mapRequest A mapTo l4) m = .ok m') :
    ∃ added : List Reached, (∀ q ∈ qs, ∃ f, (pathOf q.addr, f) ∈ added) ∧
      (∀ p ∈ added, p.1 ≠ [] ∧ ∃ q ∈ qs, p.1 <+: pathOf q.addr) ∧
      Adds S l4 vis m m' added (added.map Prod.snd) := by
  induction qs generalizing m with
  | nil =>
    cases h
    exact ⟨[], by simp, by simp, Adds.refl⟩
  | cons q qs ih =>
    rw [List.forall_mem_cons] at hqs hvis
    rw [List.foldlM_cons] at h
    obtain ⟨m₁, h₁, h⟩ := bind_eq_ok h
    obtain ⟨⟨f, hf⟩, -⟩ := mapRequest_spec hmap hs hqs.1 hvis.1 h₁
    obtain ⟨added, ⟨g, hg⟩, hbelow, hadds⟩ := mapRequest_adds hexact hmap hs hqs.1 hvis.1 h₁
    obtain ⟨added', hall', hbelow', hadds'⟩ := ih hf.space hqs.2 hvis.2 h
    refine ⟨added' ++ added, ?_, ?_, ?_⟩
    · rw [List.forall_mem_cons]
      refine ⟨⟨g, List.mem_append_right _ hg⟩, ?_⟩
      intro q' hq'
      obtain ⟨f', hf'⟩ := hall' q' hq'
      exact ⟨f', List.mem_append_left _ hf'⟩
    · intro p hp
      rcases List.mem_append.1 hp with hp | hp
      · obtain ⟨hne, q', hq', hpre⟩ := hbelow' p hp
        exact ⟨hne, q', List.mem_cons_of_mem q hq', hpre⟩
      · exact ⟨(hbelow p hp).1, q, List.mem_cons_self, (hbelow p hp).2⟩
    · rw [List.map_append]
      exact hadds.trans hadds'

/-! ## What freeing takes away -/

/-- Below the entries a space owns, its tables are what the processor finds. -/
theorem Space.walk_owned (hs : Space S l4 vis (owned off) m)
    (hvis : ∀ i, owned off i = true → vis i = true) {π : List (Fin 512)} {x : PhysFrame}
    (hlen : π.length ≤ 4) (hown : ∀ i ∈ π.head?, owned off i = true) :
    RadixHeap.walk PageTableEntry.follow m.mem l4 π = some x ↔
      tableWalk m.mem l4 vis π = some x := by
  induction π using List.reverseRecOn generalizing x with
  | nil => exact Iff.rfl
  | append_singleton ρ j ih =>
    rw [List.length_append, List.length_singleton] at hlen
    have hown' : ∀ i ∈ ρ.head?, owned off i = true := by
      intro i hi
      refine hown i ?_
      rw [List.head?_append, Option.mem_def.1 hi]
      rfl
    rw [tableWalk, RadixHeap.walk_concat_eq_some, RadixHeap.walk_concat_eq_some]
    refine exists_congr fun y => ?_
    rw [ih (by omega) hown']
    refine and_congr_right fun hy => ?_
    have hhead : ∀ i ∈ (ρ ++ j :: []).head?, vis i = true := fun i hi => hvis i (hown i hi)
    rw [view_apply (hs.visible (by omega) hy hhead)]
    constructor
    · exact PageTableEntry.next_of_follow
    · intro hnext
      obtain ⟨hne, hh, hf⟩ := PageTableEntry.next_eq_some.1 hnext
      rcases hs.proper ρ y j (by omega) hy hown with h0 | ⟨hp, -⟩
      · exact absurd h0 hne
      · exact PageTableEntry.follow_eq_some.2 ⟨hp, hh, hf⟩

/-- With nothing borrowed, everything below an owned entry is given back. -/
theorem kept_zero {π : List (Fin 512)} {x : PhysFrame} :
    kept off (0, 0) (π, x) = true ↔ ∀ i ∈ π.head?, owned off i = true := by
  cases π with
  | nil => simp [kept]
  | cons i π => simp [kept, keptBelow, inRange]

variable {cr3 : PhysFrame} {m₁ m₂ : Machine σ} {added : List Reached}

theorem newAddressSpace_free (hexact : S.Exact) (hv : S.valid m.frames)
    (h : newAddressSpace A m cr3 off = .ok (l4, m₁)) :
    S.free m₁.frames = S.free m.frames \ {l4} := by
  obtain ⟨m₀, ha, hm₁, -, -⟩ := newAddressSpace_eq_ok h
  rw [hm₁, Machine.write_frames]
  exact hexact.removed hv (Machine.allocate_eq_some ha).1

section Freed

variable (hk : Space S cr3 allEntries noEntries m)
  (hnew : newAddressSpace A m cr3 off = .ok (l4, m₁))
  (hs₂ : Space S l4 allEntries (owned off) m₂)
  (hadds : Adds S l4 allEntries m₁ m₂ added (added.map Prod.snd))
include hk hnew hs₂ hadds

/-- Below the owned entries of a new space there is what has been added. -/
theorem walk_added {i : Fin 512} {π : List (Fin 512)} {x : PhysFrame} (hi : owned off i = true)
    (hlen : (i :: π).length ≤ 4) :
    RadixHeap.walk PageTableEntry.follow m₂.mem l4 (i :: π) = some x ↔ (i :: π, x) ∈ added := by
  have hown : ∀ j ∈ (i :: π).head?, owned off j = true := by
    intro j hj
    obtain rfl := Option.some.inj hj
    exact hi
  have hlen' := hlen
  rw [List.length_cons] at hlen'
  rw [hs₂.walk_owned (fun _ _ => rfl) hlen hown, hadds.walk _ _ hlen,
    newAddressSpace_walk hk.valid hk.used hnew (by omega), hi]
  simp

/-- **The frames given back**: the level-4 table, and what was added below owned entries. -/
theorem mem_freed_added {x : PhysFrame} : x ∈ freedBySpace m₂.mem off (0, 0) l4 ↔
    x = l4 ∨ ∃ i π, owned off i = true ∧ (i :: π, x) ∈ added ∧ (i :: π).length ≤ 4 := by
  rw [mem_freedBySpace (hs₂.properOwned fun _ _ => rfl)]
  constructor
  · rintro ⟨π, hkept, hlen, hx⟩
    rw [kept_zero] at hkept
    cases π with
    | nil => exact Or.inl (Option.some.inj hx).symm
    | cons i π =>
      have hi := hkept i rfl
      exact Or.inr ⟨i, π, hi, (walk_added hk hnew hs₂ hadds hi hlen).1 hx, hlen⟩
  · rintro (rfl | ⟨i, π, hi, hx, hlen⟩)
    · exact ⟨[], rfl, by simp, rfl⟩
    · refine ⟨i :: π, kept_zero.2 ?_, hlen, (walk_added hk hnew hs₂ hadds hi hlen).2 hx⟩
      intro j hj
      obtain rfl := Option.some.inj hj
      exact hi

omit hs₂ in
/-- The level-4 table is none of the frames added. -/
theorem not_mem_added {π : List (Fin 512)} : (π, l4) ∉ added := by
  intro hmem
  have hfresh := hadds.fresh l4 (List.mem_map_of_mem hmem)
  exact ((newAddressSpace_fresh hk.valid hk.used hnew).2.2.1 hfresh).2 rfl

omit hk hnew hs₂ in
/-- One path has been added for each frame. -/
theorem added_inj {π ρ : List (Fin 512)} {x : PhysFrame} (hπ : (π, x) ∈ added)
    (hρ : (ρ, x) ∈ added) : π = ρ :=
  congrArg Prod.fst (List.inj_on_of_nodup_map hadds.nodup hπ hρ rfl)

theorem nodup_freed : (freedBySpace m₂.mem off (0, 0) l4).Nodup := by
  refine freedBySpace_nodup (hs₂.properOwned fun _ _ => rfl) ?_
  intro π ρ f hkept hkept' hlen hlen' hf hf'
  rw [kept_zero] at hkept hkept'
  cases π with
  | nil =>
    obtain rfl := Option.some.inj hf
    cases ρ with
    | nil => rfl
    | cons j ρ =>
      exact absurd ((walk_added hk hnew hs₂ hadds (hkept' j rfl) hlen').1 hf')
        (not_mem_added hk hnew hadds)
  | cons i π =>
    have hmem := (walk_added hk hnew hs₂ hadds (hkept i rfl) hlen).1 hf
    cases ρ with
    | nil =>
      obtain rfl := Option.some.inj hf'
      exact absurd hmem (not_mem_added hk hnew hadds)
    | cons j ρ =>
      exact added_inj hadds hmem ((walk_added hk hnew hs₂ hadds (hkept' j rfl) hlen').1 hf')

/-- **What is available after freeing**: all but the frames added below shared entries. -/
theorem free_after (hexact : S.Exact) (hlens : ∀ p ∈ added, p.1 ≠ [] ∧ p.1.length ≤ 4)
    (hfree : freeAddressSpace A off (0, 0) l4 m₂ = .ok m') :
    S.valid m'.frames ∧ ∀ x, x ∈ S.free m'.frames ↔ x ∈ S.free m.frames ∧
      ∀ i π, (i :: π, x) ∈ added → owned off i = true := by
  rw [hs₂.freeAddressSpace fun _ _ => rfl] at hfree
  obtain rfl := Except.ok.inj hfree
  have hfree₁ := newAddressSpace_free hexact hk.valid hnew
  have hl4 := (newAddressSpace_fresh hk.valid hk.used hnew).1
  have hmem := fun {x} => mem_freed_added (x := x) hk hnew hs₂ hadds
  have hsub : ∀ p ∈ added, p.2 ∈ S.free m.frames ∧ p.2 ≠ l4 := by
    intro p hp
    have hfresh := hadds.fresh p.2 (List.mem_map_of_mem hp)
    rw [hfree₁] at hfresh
    exact hfresh
  have hsnd : ∀ {π x}, (π, x) ∈ added → x ∈ added.map Prod.snd :=
    fun hp => List.mem_map.2 ⟨_, hp, rfl⟩
  -- nothing on the list is available before
  have hused : ∀ x ∈ freedBySpace m₂.mem off (0, 0) l4, x ∉ S.free m₂.frames := by
    intro x hx hc
    rw [hadds.free, hfree₁] at hc
    rcases hmem.1 hx with rfl | ⟨i, π, -, hadded, -⟩
    · exact hc.1.2 rfl
    · exact hc.2 (hsnd hadded)
  obtain ⟨hv, hfree'⟩ := free_deallocateAll hexact hs₂.valid
    (nodup_freed hk hnew hs₂ hadds) hused
  refine ⟨hv, fun x => ?_⟩
  rw [hfree', Set.mem_union, Set.mem_ofPred_eq, hmem, hadds.free, hfree₁]
  constructor
  · rintro (⟨⟨hx, -⟩, hnot⟩ | rfl | ⟨i, π, hi, hx, -⟩)
    · exact ⟨hx, fun i π hadded => absurd (hsnd hadded) hnot⟩
    · exact ⟨hl4, fun i π hadded => absurd hadded (not_mem_added hk hnew hadds)⟩
    · refine ⟨(hsub _ hx).1, fun j ρ hadded => ?_⟩
      obtain ⟨rfl, -⟩ := List.cons.inj (added_inj hadds hadded hx)
      exact hi
  · rintro ⟨hx, hown⟩
    by_cases hadded : x ∈ added.map Prod.snd
    · obtain ⟨⟨π, y⟩, hp, rfl⟩ := List.mem_map.1 hadded
      obtain ⟨hne, hlen⟩ := hlens _ hp
      cases π with
      | nil => exact absurd rfl hne
      | cons i π => exact Or.inr (Or.inr ⟨i, π, hown i π hp, hp, hlen⟩)
    · by_cases hxl4 : x = l4
      · exact Or.inr (Or.inl hxl4)
      · exact Or.inl ⟨⟨hx, hxl4⟩, hadded⟩

end Freed

/-- A load that fails leaves all frames available if and only if no page was asked for below a
shared entry. -/
theorem free_of_failed_load {bytes args : List Byte} (hexact : S.Exact)
    (hmap : MapTo.Documented A mapTo) (hk : Space S cr3 allEntries noEntries m)
    (h : load A mapTo cr3 off bytes args m = .ok (m', none)) :
    S.valid m'.frames ∧ (S.free m'.frames = S.free m.frames ↔
      (headerOk bytes = true → ∀ q ∈ (plan bytes args).pages, owned off q.slot = true)) := by
  rcases load_eq_ok h with ⟨hbad, rfl, -⟩ | ⟨hok, l4, m₁, m₂, hnew, hall, hend⟩
  · refine ⟨hk.valid, iff_of_true rfl ?_⟩
    intro hok
    rw [hbad] at hok
    cases hok
  obtain ⟨-, -, hfree⟩ := hend.resolve_left fun ⟨_, _, _, _, _, _, hc⟩ => by cases hc
  obtain ⟨hlow, hrun⟩ := (mapAll_eq_ok plan_accepted).1 hall
  have hs₁ := newAddressSpace_all hk hnew
  have hqs := plan_request_ok hlow
  obtain ⟨hs₂, -⟩ := mapRequests_spec hmap hs₁ hqs (fun _ _ => rfl) hrun
  obtain ⟨added, hpages, hbelow, hadds⟩ :=
    mapRequests_adds hexact hmap hs₁ hqs (fun _ _ => rfl) hrun
  obtain ⟨hv, hafter⟩ := free_after hk hnew hs₂ hadds hexact (fun p hp => by
    obtain ⟨hne, q, -, hpre⟩ := hbelow p hp
    exact ⟨hne, hpre.length_le⟩) hfree
  refine ⟨hv, ?_⟩
  rw [forall_prop_of_true hok, Set.ext_iff]
  constructor
  · intro heq q hq
    obtain ⟨f, hf⟩ := hpages q hq
    obtain ⟨π, -, hpath⟩ := q.pathOf_addr
    rw [hpath] at hf
    have hfresh := hadds.fresh f (List.mem_map_of_mem hf)
    rw [newAddressSpace_free hexact hk.valid hnew] at hfresh
    exact ((hafter f).1 ((heq f).2 hfresh.1)).2 _ π hf
  · intro hown x
    rw [hafter x, and_iff_left_iff_imp]
    intro _ i π hadded
    obtain ⟨-, q, hq, hpre⟩ := hbelow _ hadded
    obtain ⟨ρ, -, hpath⟩ := q.pathOf_addr
    rw [hpath] at hpre
    rw [(List.cons_prefix_cons.1 hpre).1]
    exact hown q hq

end FailedLoad

/-- **A failed load leaks nothing if it stays out of what is shared.**  For every file, arguments
and state of the kernel's allocator: after `load` has returned `None`, the frames available are
those that were available before, each once, if and only if no page that the file asks for, up to
where loading stops, lies below a level-4 entry that is shared with the kernel. -/
theorem failed_load_frees_iff {mapTo : MapTo BootInfoFrameAllocator} {cr3 : PhysFrame}
    {off : Fin 512} {m m' : Machine BootInfoFrameAllocator} (bytes args : List Byte)
    (hmap : MapTo.Documented bootInfo mapTo) (hk : Space bootInfoSpec cr3 allEntries noEntries m)
    (h : load bootInfo mapTo cr3 off bytes args m = .ok (m', none)) :
    (m'.frames.supply.Nodup ∧ ∀ f, f ∈ m'.frames.supply ↔ f ∈ m.frames.supply) ↔
      (headerOk bytes = true → ∀ q ∈ (plan bytes args).pages, owned off q.slot = true) := by
  obtain ⟨hv, hiff⟩ := free_of_failed_load bootInfoSpec_exact hmap hk h
  rw [← hiff, Set.ext_iff]
  exact and_iff_right hv

/-- A file whose second program header is outside the file, after a segment at the given
address. -/
def truncatedFile (vaddr : ℕ) : List Byte := fileHeader 0 56 2 ++ loadHeader 4 0 vaddr 0 1

theorem failed_load_frees_iff_truncatedFile :
    ∃ m', load bootInfo (documentedMapTo bootInfo) 1 3 (truncatedFile 0x8000000000) []
        bootMachine = .ok (m', none) ∧
      m'.frames.supply.Nodup ∧ ∀ f, f ∈ m'.frames.supply ↔ f ∈ bootMachine.frames.supply := by
  have hdistinct : (plan (truncatedFile 0x8000000000) []).Distinct :=
    ⟨by decide +kernel, by decide +kernel⟩
  have hslots : ∀ q ∈ (plan (truncatedFile 0x8000000000) []).pages, owned 3 q.slot = true := by
    decide +kernel
  have hlen : (plan (truncatedFile 0x8000000000) []).pages.length = 1 := by decide +kernel
  have hsup : bootInfo.Supplies (0 + 4 * 1 + 1) bootMachine.frames :=
    supplies_bootInfo (by decide +kernel)
  have hmap : MapTo.Documented bootInfo (documentedMapTo bootInfo) := fun _ _ _ _ _ _ => rfl
  obtain ⟨l4, m₁, m₂, hnew, hall, hs₂, -⟩ := exists_mapAll_eq_ok (n := 0) hmap space_bootMachine
    hdistinct (fun q hq => Or.inl (hslots q hq)) (by rw [hlen]; exact hsup)
  have hok : headerOk (truncatedFile 0x8000000000) = true := by decide +kernel
  have hnone : (plan (truncatedFile 0x8000000000) []).result = none := by decide +kernel
  have hload := load_of_none hok hnew hall hnone (hs₂.freeAddressSpace fun _ _ => rfl)
  refine ⟨_, hload, ?_⟩
  rw [failed_load_frees_iff (truncatedFile 0x8000000000) [] hmap space_bootMachine hload]
  intro _
  exact hslots

/-- **A failed load leaks frames**: the segment at 0x1000 is mapped below entry 0, which the kernel
uses too, and freeing skips it. -/
theorem failed_load_leaks :
    ∃ m', load bootInfo (documentedMapTo bootInfo) 1 3 (truncatedFile 0x1000) [] bootMachine =
        .ok (m', none) ∧
      0x101 ∈ bootMachine.frames.supply ∧ 0x101 ∉ m'.frames.supply := by
  obtain ⟨⟨m', loaded⟩, h, htest⟩ := Runs.exists_ok_of_any
    (x := load bootInfo (documentedMapTo bootInfo) 1 3 (truncatedFile 0x1000) [] bootMachine)
    (fun r => r.2.isNone && !r.1.frames.supply.contains 0x101) (by decide +kernel)
  rw [Bool.and_eq_true, Option.isNone_iff_eq_none, Bool.not_eq_true'] at htest
  obtain ⟨rfl, hnot⟩ := htest
  refine ⟨m', h, by decide +kernel, ?_⟩
  intro hc
  rw [List.contains_iff_mem.2 hc] at hnot
  cases hnot
