/-
# Loading, page by page

A segment that ends in the lower half is mapped page by page, from its first page to
its last (`mapSegment_of_lower`).  One that does not, but that `map_segment` accepts
because `VirtAddr::try_new` accepts the address of its last byte, ends in a panic: its
pages run through the hole between the two halves, where there is no page
(`mapSegment_ne_ok_of_crossing`).  So a plan that is carried out is a list of pages, each
with the bytes it is filled with.
-/
import Velora.Elf

/-! ## Requests -/

/-- The four table indices of an address. -/
def pathOf (a : ℕ) : List (Fin 512) :=
  [⟨a / 0x8000000000 % 512, Nat.mod_lt _ (by decide)⟩,
    ⟨a / 0x40000000 % 512, Nat.mod_lt _ (by decide)⟩,
    ⟨a / 0x200000 % 512, Nat.mod_lt _ (by decide)⟩,
    ⟨a / 0x1000 % 512, Nat.mod_lt _ (by decide)⟩]

theorem pathOf_start (p : Page) : pathOf p.start.val = p.path := rfl

theorem length_pathOf (a : ℕ) : (pathOf a).length = 4 := rfl

/-- The page at an address of the lower half (any page for other addresses). -/
def pageAt (a : ℕ) : Page :=
  if h : a < 0x800000000000 then Page.containing ⟨a, VirtAddr.canonical_of_lower h⟩
  else Page.containing ⟨0, Or.inl (by norm_num)⟩

theorem pageAt_of_lower {a : ℕ} (h : a < 0x800000000000) (ha : a % 4096 = 0) :
    pageAt a = Page.ofLower a h ha := by
  rw [pageAt, dif_pos h, Page.containing_of_aligned ha]
  rfl

theorem path_pageAt {a : ℕ} (h : a < 0x800000000000) (ha : a % 4096 = 0) :
    (pageAt a).path = pathOf a := by
  rw [pageAt_of_lower h ha]
  rfl

/-- Page addresses with the same indices are the same. -/
theorem pathOf_inj {a b : ℕ} (ha : a < 0x800000000000) (ha' : a % 4096 = 0)
    (hb : b < 0x800000000000) (hb' : b % 4096 = 0) (h : pathOf a = pathOf b) : a = b := by
  rw [← path_pageAt ha ha', ← path_pageAt hb hb'] at h
  have hpage := Page.path_injective h
  rw [pageAt_of_lower ha ha', pageAt_of_lower hb hb'] at hpage
  exact congrArg (fun p : Page => p.start.val) hpage

/-- A page to be mapped, with its flags and the bytes it is filled with, zeros after them. -/
structure Request where
  addr : ℕ
  flags : Word
  bytes : List Byte

/-- The index of its entry in the level-4 table. -/
def Request.slot (q : Request) : Fin 512 := ⟨q.addr / 0x8000000000 % 512, Nat.mod_lt _ (by decide)⟩

theorem Request.pathOf_addr (q : Request) :
    ∃ π, π.length = 3 ∧ pathOf q.addr = q.slot :: π :=
  ⟨_, rfl, rfl⟩

theorem Request.head_pathOf {q : Request} {vis : Fin 512 → Bool} (h : vis q.slot = true) :
    ∀ i ∈ (pathOf q.addr).head?, vis i = true := by
  rintro i hi
  obtain rfl := Option.some.inj hi
  exact h

/-- Page number `i` of a segment. -/
def Segment.request (s : Segment) (i : ℕ) : Request where
  addr := s.vaddr + i * pageSize
  flags := segmentFlags s.writable
  bytes := (s.fileBytes.drop (i * pageSize)).take pageSize

/-- The number of pages of a segment. -/
def Segment.pageCount (s : Segment) : ℕ := (s.memSize + 4095) / 4096

/-- The pages of a segment, in order. -/
def Segment.requests (s : Segment) : List Request :=
  (List.range' 0 s.pageCount).map s.request

theorem Segment.mem_requests {s : Segment} {q : Request} :
    q ∈ s.requests ↔ ∃ i < s.pageCount, q = s.request i := by
  rw [Segment.requests, List.mem_map]
  constructor
  · rintro ⟨i, hi, rfl⟩
    rw [List.mem_range'_1] at hi
    exact ⟨i, by omega, rfl⟩
  · rintro ⟨i, hi, rfl⟩
    exact ⟨i, by rw [List.mem_range'_1]; omega, rfl⟩

/-- The segment ends in the lower half. -/
def Segment.Lower (s : Segment) : Prop :=
  s.memSize = 0 ∨ s.vaddr + s.memSize ≤ 0x800000000000

instance (s : Segment) : Decidable s.Lower := by
  unfold Segment.Lower
  infer_instance

/-- The pages that a plan asks for, in order. -/
def Plan.pages (p : Plan) : List Request := p.segments.flatMap Segment.requests

/-- The segments of a plan end in the lower half, and no page is asked for twice. -/
structure Plan.Distinct (p : Plan) : Prop where
  lower : ∀ s ∈ p.segments, s.Lower
  nodup : (p.pages.map Request.addr).Nodup

section Pages

variable {σ : Type} {A : FrameAllocator σ} {mapTo : MapTo σ} {l4 : PhysFrame}

/-- Take a frame, map it, fill it. -/
def mapRequest (A : FrameAllocator σ) (mapTo : MapTo σ) (l4 : PhysFrame) (m : Machine σ)
    (q : Request) : Except Panic (Machine σ) := do
  let (frame, m) ← (m.allocate A).expect .noFramesForSegment
  let m ← expectOk .mapSegmentFailed (mapTo m l4 (pageAt q.addr) frame q.flags)
  .ok (m.write ((m.mem.zeroFrame frame).writeBytes frame q.bytes))

theorem mapSegmentPage_eq {s : Segment} {startPage : Page} {i : ℕ} {m : Machine σ}
    (h : startPage.add i = .ok (pageAt (s.vaddr + i * pageSize))) :
    mapSegmentPage A mapTo l4 s.fileBytes (segmentFlags s.writable) startPage i m =
      mapRequest A mapTo l4 m (s.request i) := by
  have hcopy : (s.fileBytes.drop (i * pageSize)).take
      (min (s.fileBytes.length - i * pageSize) pageSize) = (s.request i).bytes := by
    show _ = (s.fileBytes.drop (i * pageSize)).take pageSize
    rw [← List.length_drop, List.take_eq_take_iff]
    omega
  have hnone : ¬ i * pageSize < s.fileBytes.length → (s.request i).bytes = [] := by
    intro hge
    show (s.fileBytes.drop (i * pageSize)).take pageSize = []
    rw [List.drop_eq_nil_of_le (by omega), List.take_nil]
  rw [mapSegmentPage, mapRequest, h]
  show (Option.expect _ _ >>= _) = _
  cases m.allocate A with
  | none => rfl
  | some p =>
    simp only [Option.expect_some]
    show (expectOk _ (mapTo p.2 l4 _ p.1 _) >>= _) = (expectOk _ (mapTo p.2 l4 _ p.1 _) >>= _)
    congr 1
    funext m'
    by_cases hlt : i * pageSize < s.fileBytes.length
    · simp only [hlt, if_true, hcopy]
    · simp only [hlt, if_false, hnone hlt, zeroFrame_writeBytes_nil]

/-- The loop of `map_segment` is a run through requests. -/
theorem mapSegmentLoop_eq {s : Segment} {startPage : Page} {n i : ℕ} {m : Machine σ}
    (h : ∀ k, i ≤ k → k < i + n → startPage.add k = .ok (pageAt (s.vaddr + k * pageSize))) :
    mapSegmentLoop A mapTo l4 s.fileBytes (segmentFlags s.writable) startPage n i m =
      ((List.range' i n).map s.request).foldlM (mapRequest A mapTo l4) m := by
  induction n generalizing i m with
  | zero => rfl
  | succ n ih =>
    rw [mapSegmentLoop, mapSegmentPage_eq (h i le_rfl (by omega)), List.range'_succ, List.map_cons,
      List.foldlM_cons]
    congr 1
    funext m'
    exact ih fun k hk hk' => h k (by omega) (by omega)

/-- Every page the loop got past exists. -/
theorem add_of_mapSegmentLoop {fileBytes : List Byte} {flags : Word} {startPage : Page} {n i : ℕ}
    {m m' : Machine σ}
    (h : mapSegmentLoop A mapTo l4 fileBytes flags startPage n i m = .ok m') :
    ∀ k, i ≤ k → k < i + n → ∃ p, startPage.add k = .ok p := by
  induction n generalizing i m with
  | zero => intro k hk hk'; omega
  | succ n ih =>
    intro k hk hk'
    rw [mapSegmentLoop] at h
    obtain ⟨m₁, h₁, hrest⟩ := bind_eq_ok h
    by_cases hki : k = i
    · subst hki
      obtain ⟨p, hp, -⟩ := bind_eq_ok h₁
      exact ⟨p, hp⟩
    · exact ih hrest k (by omega) (by omega)

/-- What `map_segment` knows of a segment it accepts. -/
theorem segmentPages_eq_some {vaddr memSize : ℕ} {startPage endPage : Page}
    (h : segmentPages vaddr memSize = some (startPage, endPage)) :
    ∃ (ha : vaddr % 4096 = 0) (hlow : vaddr < 0x800000000000) (v : VirtAddr),
      vaddr + memSize < 0x10000000000000000 ∧ 1 ≤ vaddr + memSize ∧
      startPage = Page.ofLower vaddr hlow ha ∧
      VirtAddr.tryNew (vaddr + memSize - 1) = some v ∧ endPage = Page.containing v := by
  rw [segmentPages] at h
  split_ifs at h with hbad
  · cases h
  · push Not at hbad
    obtain ⟨ha, hlow⟩ := hbad
    obtain ⟨stop, hadd, h⟩ := Option.bind_eq_some_iff.1 h
    obtain ⟨hlt, rfl⟩ := checkedAdd_eq_some.1 hadd
    obtain ⟨last, hsub, h⟩ := Option.bind_eq_some_iff.1 h
    obtain ⟨hle, rfl⟩ := checkedSub_eq_some.1 hsub
    rw [VirtAddr.tryNew_of_lower hlow, Option.bind_eq_bind, Option.bind_some] at h
    obtain ⟨v, hv, h⟩ := Option.bind_eq_some_iff.1 h
    simp only [Option.pure_def, Option.some.injEq, Prod.mk.injEq] at h
    refine ⟨ha, hlow, v, hlt, hle, ?_, hv, h.2.symm⟩
    rw [← h.1, Page.containing_of_aligned ha]
    rfl

/-- Accepted segments, unless empty, are aligned, start in the lower half and do not overflow. -/
theorem Segment.of_accepted {s : Segment} (h : s.accepted = true) (h0 : s.memSize ≠ 0) :
    ∃ (ha : s.vaddr % 4096 = 0) (hlow : s.vaddr < 0x800000000000) (v : VirtAddr),
      s.vaddr + s.memSize < 0x10000000000000000 ∧
      VirtAddr.tryNew (s.vaddr + s.memSize - 1) = some v ∧
      segmentPages s.vaddr s.memSize = some (Page.ofLower s.vaddr hlow ha, Page.containing v) := by
  rw [Segment.accepted, Bool.or_eq_true, decide_eq_true_iff] at h
  obtain ⟨⟨startPage, endPage⟩, hp⟩ := Option.isSome_iff_exists.1 (h.resolve_left h0)
  obtain ⟨ha, hlow, v, hlt, -, rfl, hv, rfl⟩ := segmentPages_eq_some hp
  exact ⟨ha, hlow, v, hlt, hv, hp⟩

/-- **A segment in the lower half** is mapped page by page. -/
theorem mapSegment_of_lower {s : Segment} (h : s.accepted = true) (hlow : s.Lower)
    (m : Machine σ) : (mapSegment A mapTo l4 s m).map Prod.fst =
      s.requests.foldlM (mapRequest A mapTo l4) m := by
  by_cases h0 : s.memSize = 0
  · rw [mapSegment, if_pos h0, Segment.requests, Segment.pageCount, h0]
    rfl
  obtain ⟨ha, hstart, v, -, hv, hpages⟩ := Segment.of_accepted h h0
  have hend := hlow.resolve_left h0
  rw [VirtAddr.tryNew_of_lower (by omega)] at hv
  cases hv
  have hcount : (Page.containing ⟨s.vaddr + s.memSize - 1, Or.inl (by omega)⟩).sub
      (Page.ofLower s.vaddr hstart ha) = .ok (s.pageCount - 1) := by
    rw [Page.sub, Page.containing_val, if_pos (by simp only [Page.ofLower]; omega)]
    refine congrArg Except.ok ?_
    simp only [Page.ofLower, Segment.pageCount]
    omega
  have hpos : s.pageCount - 1 + 1 = s.pageCount := by
    rw [Segment.pageCount]
    omega
  rw [mapSegment, if_neg h0, hpages]
  simp only [hcount]
  show Except.map Prod.fst (mapSegmentLoop A mapTo l4 s.fileBytes (segmentFlags s.writable) _
    (s.pageCount - 1 + 1) 0 m >>= _) = _
  rw [hpos, mapSegmentLoop_eq, ← Segment.requests]
  · cases s.requests.foldlM (mapRequest A mapTo l4) m <;> rfl
  · intro k _ hk
    have hk' : s.vaddr + k * 4096 < 0x800000000000 := by
      rw [Segment.pageCount] at hk
      omega
    rw [pageAt_of_lower hk' (by omega)]
    exact Page.add_of_lower hk'

/-- **A segment that runs past the lower half** is never mapped to its end: there is no page at
2⁴⁸. -/
theorem mapSegment_ne_ok_of_crossing {s : Segment} (h : s.accepted = true) (hlow : ¬ s.Lower)
    {m : Machine σ} {r : Machine σ × Option Unit} : mapSegment A mapTo l4 s m ≠ .ok r := by
  intro hr
  rw [Segment.Lower, not_or] at hlow
  obtain ⟨h0, hend⟩ := hlow
  obtain ⟨ha, hstart, v, -, hv, hpages⟩ := Segment.of_accepted h h0
  rw [mapSegment, if_neg h0, hpages] at hr
  obtain ⟨n, hn, hr⟩ := bind_eq_ok hr
  obtain ⟨m', hloop, -⟩ := bind_eq_ok hr
  -- the last byte's page is in the upper half
  have hv' : 0xffff800000000000 ≤ v.val := by
    rcases VirtAddr.tryNew_eq_some hv with hv | hv
    · omega
    · omega
  have hn' : (v.val - v.val % 4096 - s.vaddr) / 4096 = n := by
    rw [Page.sub, Page.containing_val] at hn
    split_ifs at hn with hle
    exact Except.ok.inj hn
  obtain ⟨p, hp⟩ := add_of_mapSegmentLoop hloop ((0x1000000000000 - s.vaddr) / 4096) (by omega)
    (by omega)
  have hk : s.vaddr + (0x1000000000000 - s.vaddr) / 4096 * 4096 = 0x1000000000000 := by omega
  have hnone : VirtAddr.tryNew 0x1000000000000 = none := by decide
  rw [Page.add, if_pos (by omega), VirtAddr.add] at hp
  simp only [Page.ofLower, hk, VirtAddr.new, hnone] at hp
  cases hp

/-- **A plan that is carried out** has its segments in the lower half, and their pages are mapped
one after the other. -/
theorem mapAll_eq_ok {segs : List Segment} (hacc : ∀ s ∈ segs, s.accepted = true)
    {m m' : Machine σ} : mapAll A mapTo l4 segs m = .ok m' ↔
      (∀ s ∈ segs, s.Lower) ∧
        (segs.flatMap Segment.requests).foldlM (mapRequest A mapTo l4) m = .ok m' := by
  induction segs generalizing m with
  | nil => simp [mapAll]
  | cons s segs ih =>
    rw [List.forall_mem_cons] at hacc
    rw [mapAll_cons, List.forall_mem_cons, List.flatMap_cons, List.foldlM_append]
    by_cases hlow : s.Lower
    · rw [mapSegment_of_lower hacc.1 hlow]
      constructor
      · intro h
        obtain ⟨m₁, h₁, h⟩ := bind_eq_ok h
        obtain ⟨hall, hrest⟩ := (ih hacc.2).1 h
        refine ⟨⟨hlow, hall⟩, ?_⟩
        rw [h₁]
        exact hrest
      · rintro ⟨⟨-, hall⟩, h⟩
        obtain ⟨m₁, h₁, h⟩ := bind_eq_ok h
        rw [h₁]
        exact (ih hacc.2).2 ⟨hall, h⟩
    · constructor
      · intro h
        obtain ⟨m₁, h₁, -⟩ := bind_eq_ok h
        cases hs : mapSegment A mapTo l4 s m with
        | error e => rw [hs] at h₁; cases h₁
        | ok r => exact absurd hs (mapSegment_ne_ok_of_crossing hacc.1 hlow)
      · rintro ⟨⟨hc, -⟩, -⟩
        exact absurd hc hlow

/-! ## What becomes of a request -/

/-- A request that can be made: a page of the lower half, with flags that `map_to` knows. -/
structure Request.Ok (q : Request) : Prop where
  aligned : q.addr % 4096 = 0
  lower : q.addr < 0x800000000000
  plain : PageTableEntry.Plain q.flags

theorem plain_segmentFlags (writable : Bool) : PageTableEntry.Plain (segmentFlags writable) := by
  cases writable <;> decide

theorem Segment.request_ok {s : Segment} (h : s.accepted = true) (hlow : s.Lower) :
    ∀ q ∈ s.requests, q.Ok := by
  intro q hq
  obtain ⟨i, hi, rfl⟩ := Segment.mem_requests.1 hq
  rw [Segment.pageCount] at hi
  have h0 : s.memSize ≠ 0 := by
    intro h0
    rw [h0] at hi
    omega
  obtain ⟨ha, -, -, -, -, -⟩ := Segment.of_accepted h h0
  have hend := hlow.resolve_left h0
  refine ⟨?_, ?_, plain_segmentFlags s.writable⟩
  · show (s.vaddr + i * 4096) % 4096 = 0
    omega
  · show s.vaddr + i * 4096 < 0x800000000000
    omega

theorem plan_request_ok {bytes args : List Byte} (h : ∀ s ∈ (plan bytes args).segments, s.Lower) :
    ∀ q ∈ (plan bytes args).pages, q.Ok := by
  intro q hq
  obtain ⟨s, hs, hq⟩ := List.mem_flatMap.1 hq
  exact Segment.request_ok (plan_accepted s hs) (h s hs) q hq

variable {S : A.Spec} {vis own : Fin 512 → Bool} {m m' : Machine σ} {q : Request}

/-- The page of a request is mapped to a frame of its own that holds what was asked for. -/
def Request.Loaded (S : A.Spec) (l4 : PhysFrame) (vis : Fin 512 → Bool) (m : Machine σ)
    (q : Request) : Prop :=
  ∃ f, MapsTo m.mem l4 vis (pathOf q.addr) f ∧ f ∉ S.free m.frames ∧
    ¬ IsTable m.mem l4 vis f ∧ ∀ o : Fin 4096, byteAt m.mem f o = (q.bytes[o.val]?).getD 0

/-- Inversion: a frame is taken, mapped as the documentation says, and filled. -/
theorem mapRequest_eq_ok (hmap : MapTo.Documented A mapTo) (hq : q.Ok)
    (h : mapRequest A mapTo l4 m q = .ok m') :
    ∃ f m₁ m₂, m.allocate A = some (f, m₁) ∧
      mapPath A q.flags (PageTableEntry.setFrame f q.flags) m₁ l4 (pathOf q.addr) = .ok m₂ ∧
      m' = m₂.write ((m₂.mem.zeroFrame f).writeBytes f q.bytes) := by
  rw [mapRequest] at h
  obtain ⟨⟨f, m₁⟩, ha, h⟩ := bind_eq_ok h
  obtain ⟨m₂, hm₂, h⟩ := bind_eq_ok h
  refine ⟨f, m₁, m₂, Option.expect_eq_ok ha, ?_, (Except.ok.inj h).symm⟩
  have hto := expectOk_eq_ok hm₂
  rw [hmap _ _ _ _ _ hq.plain, documentedMapTo, plain_and hq.plain,
    path_pageAt hq.lower hq.aligned] at hto
  exact hto

/-- **One request.** -/
theorem mapRequest_spec (hmap : MapTo.Documented A mapTo) (hs : Space S l4 vis own m) (hq : q.Ok)
    (hvis : vis q.slot = true)
    (h : mapRequest A mapTo l4 m q = .ok m') :
    (∃ f, FreshMapped S l4 vis own (pathOf q.addr) f m m') ∧ q.Loaded S l4 vis m' := by
  obtain ⟨f, m₁, m₂, ha, hto, rfl⟩ := mapRequest_eq_ok hmap hq h
  have hother : ∀ x, x ≠ f → (m₂.mem.zeroFrame f).writeBytes f q.bytes x = m₂.mem x :=
    fun _ hx => PhysMem.writeBytes_zeroFrame_of_ne hx
  have hfresh := freshMapped hs hq.plain (length_pathOf q.addr) (Request.head_pathOf hvis) ha hto
    hother
  refine ⟨⟨f, hfresh⟩, f, hfresh.maps, hfresh.data_used, hfresh.data_not_table, ?_⟩
  intro o
  rw [Machine.write_mem, byteAt_writeBytes, byteAt_zeroFrame]

/-- Later mappings leave a loaded page alone. -/
theorem Request.Loaded.extends (hs : Space S l4 vis own m) (he : Extends S l4 vis m m')
    (h : q.Loaded S l4 vis m) : q.Loaded S l4 vis m' := by
  obtain ⟨f, hmaps, hfree, htab, hbytes⟩ := h
  refine ⟨f, hmaps.extends hs he (length_pathOf q.addr).le, fun hc => hfree (he.free hc),
    he.not_isTable htab hfree, ?_⟩
  intro o
  rw [byteAt, he.untouched f (Or.inl hfree) htab]
  exact hbytes o

/-- **All requests of a plan**: the pages are distinct, could all be mapped, and are all loaded
in the end. -/
theorem mapRequests_spec (hmap : MapTo.Documented A mapTo) {qs : List Request}
    (hs : Space S l4 vis own m) (hqs : ∀ q ∈ qs, q.Ok)
    (hvis : ∀ q ∈ qs, vis q.slot = true)
    (h : qs.foldlM (mapRequest A mapTo l4) m = .ok m') :
    Space S l4 vis own m' ∧ Extends S l4 vis m m' ∧ (∀ q ∈ qs, q.Loaded S l4 vis m') ∧
      (qs.map Request.addr).Nodup ∧ ∀ q ∈ qs, Mappable m.mem l4 vis (pathOf q.addr) := by
  induction qs generalizing m with
  | nil =>
    cases h
    exact ⟨hs, Extends.refl, by simp, by simp, by simp⟩
  | cons q qs ih =>
    rw [List.forall_mem_cons] at hqs hvis
    rw [List.foldlM_cons] at h
    obtain ⟨m₁, h₁, h⟩ := bind_eq_ok h
    obtain ⟨⟨f, hf⟩, hloaded⟩ := mapRequest_spec hmap hs hqs.1 hvis.1 h₁
    obtain ⟨hs', he', hall, hnodup, hmappable⟩ := ih hf.space hqs.2 hvis.2 h
    have hrest : ∀ q' ∈ qs, Mappable m.mem l4 vis (pathOf q'.addr) ∧
        pathOf q'.addr ≠ pathOf q.addr :=
      fun q' hq' => (hf.others _ (length_pathOf q'.addr)).1 (hmappable q' hq')
    refine ⟨hs', hf.ext.trans he', ?_, ?_, ?_⟩
    · rw [List.forall_mem_cons]
      exact ⟨hloaded.extends hf.space he', hall⟩
    · rw [List.map_cons, List.nodup_cons]
      refine ⟨?_, hnodup⟩
      intro hmem
      obtain ⟨q', hq', haddr⟩ := List.mem_map.1 hmem
      exact (hrest q' hq').2 (by rw [haddr])
    · rw [List.forall_mem_cons]
      exact ⟨hf.mappable, fun q' hq' => (hrest q' hq').1⟩

/-- **A request succeeds** on a page that can be mapped, given a frame for it and three for
tables. -/
theorem exists_mapRequest_eq_ok (hmap : MapTo.Documented A mapTo) (hs : Space S l4 vis own m)
    (hq : q.Ok) (hvis : vis q.slot = true)
    (hmappable : Mappable m.mem l4 vis (pathOf q.addr)) {n : ℕ}
    (hsup : A.Supplies (n + 4) m.frames) :
    ∃ m', mapRequest A mapTo l4 m q = .ok m' ∧ A.Supplies n m'.frames := by
  obtain ⟨f, m₁, ha, hsup₁⟩ := Machine.exists_allocate_eq_some hsup
  obtain ⟨hs₁, -⟩ := hs.allocate ha
  obtain ⟨-, hmem, -⟩ := Machine.allocate_eq_some ha
  obtain ⟨m₂, hm₂, hsup₂⟩ := exists_mapPath_of_mappable (PageTableEntry.setFrame f q.flags) hq.plain
    (length_pathOf q.addr) (Request.head_pathOf hvis) hs₁ (hmem ▸ hmappable) hsup₁
  refine ⟨m₂.write ((m₂.mem.zeroFrame f).writeBytes f q.bytes), ?_, hsup₂⟩
  rw [mapRequest, ha]
  show (expectOk _ (mapTo _ l4 (pageAt q.addr) f q.flags) >>= _) = _
  rw [hmap _ _ _ _ _ hq.plain, documentedMapTo, plain_and hq.plain,
    path_pageAt hq.lower hq.aligned, hm₂]
  rfl

/-- **All requests succeed**, given distinct pages that can be mapped and enough frames. -/
theorem exists_mapRequests_eq_ok (hmap : MapTo.Documented A mapTo) {qs : List Request} {n : ℕ}
    (hs : Space S l4 vis own m) (hqs : ∀ q ∈ qs, q.Ok)
    (hvis : ∀ q ∈ qs, vis q.slot = true)
    (hnodup : (qs.map Request.addr).Nodup)
    (hmappable : ∀ q ∈ qs, Mappable m.mem l4 vis (pathOf q.addr))
    (hsup : A.Supplies (n + 4 * qs.length) m.frames) :
    ∃ m', qs.foldlM (mapRequest A mapTo l4) m = .ok m' ∧ A.Supplies n m'.frames := by
  induction qs generalizing m with
  | nil => exact ⟨m, rfl, hsup⟩
  | cons q qs ih =>
    rw [List.forall_mem_cons] at hqs hvis hmappable
    rw [List.map_cons, List.nodup_cons] at hnodup
    rw [List.length_cons, Nat.mul_succ, ← Nat.add_assoc] at hsup
    obtain ⟨m₁, h₁, hsup₁⟩ := exists_mapRequest_eq_ok hmap hs hqs.1 hvis.1 hmappable.1 hsup
    obtain ⟨⟨f, hf⟩, -⟩ := mapRequest_spec hmap hs hqs.1 hvis.1 h₁
    have hrest : ∀ q' ∈ qs, Mappable m₁.mem l4 vis (pathOf q'.addr) := by
      intro q' hq'
      refine (hf.others _ (length_pathOf q'.addr)).2 ⟨hmappable.2 q' hq', ?_⟩
      intro hpath
      have haddr := pathOf_inj (hqs.2 q' hq').lower (hqs.2 q' hq').aligned hqs.1.lower
        hqs.1.aligned hpath
      exact hnodup.1 (haddr ▸ List.mem_map_of_mem hq')
    obtain ⟨m', hm', hsup'⟩ := ih hf.space hqs.2 hvis.2 hnodup.2 hrest hsup₁
    refine ⟨m', ?_, hsup'⟩
    rw [List.foldlM_cons, h₁]
    exact hm'

/-- What can be mapped afterwards: what could be before, but for the pages asked for. -/
theorem mapRequests_mappable_iff (hmap : MapTo.Documented A mapTo) {qs : List Request}
    (hs : Space S l4 vis own m) (hqs : ∀ q ∈ qs, q.Ok) (hvis : ∀ q ∈ qs, vis q.slot = true)
    (h : qs.foldlM (mapRequest A mapTo l4) m = .ok m') {path : List (Fin 512)}
    (hlen : path.length = 4) :
    Mappable m'.mem l4 vis path ↔ Mappable m.mem l4 vis path ∧ ∀ q ∈ qs, path ≠ pathOf q.addr := by
  induction qs generalizing m with
  | nil =>
    cases h
    simp
  | cons q qs ih =>
    rw [List.forall_mem_cons] at hqs hvis
    rw [List.foldlM_cons] at h
    obtain ⟨m₁, h₁, h⟩ := bind_eq_ok h
    obtain ⟨⟨f, hf⟩, -⟩ := mapRequest_spec hmap hs hqs.1 hvis.1 h₁
    rw [ih hf.space hqs.2 hvis.2 h, hf.others path hlen, List.forall_mem_cons, and_assoc]

end Pages
