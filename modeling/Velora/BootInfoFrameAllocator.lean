/-
# The frame allocator

`BootInfoFrameAllocator` (memory.rs).  Fresh frames come from the usable regions of the
bootloader's memory map, through a cursor; frames that were given back go on
`free_list` and are handed out again, the last one first, before any fresh frame.

All of this is one list (`supply`): the frames on `free_list`, then the fresh ones.
`allocate_frame` takes the head of it and `deallocate_frame` puts a frame in front
(`supply_of_allocateFrame`, `supply_deallocateFrame`).  As long as no frame is on the list
twice, callers get what they rely on (`bootInfoSpec`).
-/
import Velora.Mapping

/-! ## The memory map -/

/-- `MemoryRegionType`: usable memory, or one of the other kinds. -/
inductive MemoryRegionType
  | usable
  | other
  deriving DecidableEq

/-- `MemoryRegion`: frames by number, from `startFrame` up to `endFrame`.  A physical address
has 52 bits. -/
structure MemoryRegion where
  startFrame : ℕ
  endFrame : ℕ
  regionType : MemoryRegionType
  bound : endFrame ≤ 0x10000000000

namespace MemoryRegion

/-- `range.start_addr()` -/
def startAddr (r : MemoryRegion) : ℕ := r.startFrame * 4096

/-- `range.end_addr()` -/
def endAddr (r : MemoryRegion) : ℕ := r.endFrame * 4096

/-- The test of `skip_to_next_usable_region`. -/
def hasFrames (r : MemoryRegion) : Bool :=
  r.regionType = .usable && r.startAddr < r.endAddr

end MemoryRegion

/-- The memory map.  What the caller of `BootInfoFrameAllocator::init` has to guarantee is that
usable frames are unused; in particular no two usable regions have a frame in common. -/
structure MemoryMap where
  regions : List MemoryRegion
  disjoint : regions.Pairwise fun r s => r.regionType = .usable → s.regionType = .usable →
    min r.endFrame s.endFrame ≤ max r.startFrame s.startFrame

/-- `PhysFrame::containing_address(PhysAddr::new(addr))`, for addresses of 52 bits. -/
def frameContaining (addr : ℕ) : PhysFrame := Fin.ofNat 0x10000000000 (addr / 4096)

/-- The frames from number `a` up to `b`. -/
def framesBetween (a b : ℕ) : List PhysFrame :=
  (List.range' a (b - a)).map (Fin.ofNat 0x10000000000)

/-- The frames of a region that can be handed out. -/
def MemoryRegion.frames (r : MemoryRegion) : List PhysFrame :=
  if r.regionType = .usable then framesBetween r.startFrame r.endFrame else []

theorem mem_framesBetween {a b : ℕ} (hb : b ≤ 0x10000000000) {f : PhysFrame} :
    f ∈ framesBetween a b ↔ a ≤ f.val ∧ f.val < b := by
  rw [framesBetween, List.mem_map]
  constructor
  · rintro ⟨k, hk, rfl⟩
    rw [List.mem_range'_1] at hk
    rw [Fin.val_ofNat, Nat.mod_eq_of_lt (by omega)]
    omega
  · rintro ⟨ha, hlt⟩
    refine ⟨f.val, ?_, ?_⟩
    · rw [List.mem_range'_1]
      omega
    · exact Fin.ofNat_val_eq_self f

theorem nodup_framesBetween {a b : ℕ} (hb : b ≤ 0x10000000000) : (framesBetween a b).Nodup := by
  refine List.Nodup.map_on ?_ (List.nodup_range' ..)
  intro x hx y hy hxy
  rw [List.mem_range'_1] at hx hy
  have hval := congrArg Fin.val hxy
  rw [Fin.val_ofNat, Fin.val_ofNat, Nat.mod_eq_of_lt (by omega), Nat.mod_eq_of_lt (by omega)]
    at hval
  exact hval

namespace MemoryRegion

theorem mem_frames {r : MemoryRegion} {f : PhysFrame} :
    f ∈ r.frames ↔ r.regionType = .usable ∧ r.startFrame ≤ f.val ∧ f.val < r.endFrame := by
  rw [frames]
  split_ifs with hu
  · rw [mem_framesBetween r.bound]
    exact (and_iff_right hu).symm
  · exact iff_of_false List.not_mem_nil fun h => hu h.1

theorem nodup_frames (r : MemoryRegion) : r.frames.Nodup := by
  rw [frames]
  split_ifs
  · exact nodup_framesBetween r.bound
  · exact List.nodup_nil

end MemoryRegion

/-! ## The allocator -/

/-- The cursor stands in a usable region, on a frame of it, or past the last region. -/
def CursorOk (map : MemoryMap) (regionIndex nextFrameAddr : ℕ) : Prop :=
  ∀ r, map.regions[regionIndex]? = some r → r.regionType = .usable ∧
    ∃ k, nextFrameAddr = k * 4096 ∧ k < r.endFrame

/-- `BootInfoFrameAllocator`.  The last element of the source's `free_list` vector comes first
here. -/
structure BootInfoFrameAllocator where
  memoryMap : MemoryMap
  regionIndex : ℕ
  nextFrameAddr : ℕ
  freeList : Option (List PhysFrame)
  cursor : CursorOk memoryMap regionIndex nextFrameAddr

/-- The loop of `skip_to_next_usable_region` over the regions that are left, the first of which
has index `regionIndex`. -/
def skipRegions : List MemoryRegion → ℕ → ℕ → ℕ × ℕ
  | [], regionIndex, nextFrameAddr => (regionIndex, nextFrameAddr)
  | r :: rest, regionIndex, nextFrameAddr =>
    if r.hasFrames then (regionIndex, r.startAddr)
    else skipRegions rest (regionIndex + 1) nextFrameAddr

/-- Where the loop stops: at the first region with frames, or at the end. -/
theorem skipRegions_spec (rs : List MemoryRegion) (i a : ℕ) :
    (∃ skipped r rest, rs = skipped ++ r :: rest ∧ r.hasFrames = true ∧
        (∀ s ∈ skipped, s.hasFrames = false) ∧
        skipRegions rs i a = (i + skipped.length, r.startAddr)) ∨
      ((∀ s ∈ rs, s.hasFrames = false) ∧ skipRegions rs i a = (i + rs.length, a)) := by
  induction rs generalizing i with
  | nil => exact Or.inr ⟨by simp, rfl⟩
  | cons r rest ih =>
    rw [skipRegions]
    cases hr : r.hasFrames with
    | true => exact Or.inl ⟨[], r, rest, rfl, hr, by simp, rfl⟩
    | false =>
      rw [if_neg Bool.false_ne_true]
      rcases ih (i + 1) with ⟨skipped, r', rest', rfl, hr', hskip, heq⟩ | ⟨hskip, heq⟩
      · refine Or.inl ⟨r :: skipped, r', rest', rfl, hr', ?_, ?_⟩
        · rw [List.forall_mem_cons]
          exact ⟨hr, hskip⟩
        · rw [heq, List.length_cons]
          congr 1
          omega
      · refine Or.inr ⟨?_, ?_⟩
        · rw [List.forall_mem_cons]
          exact ⟨hr, hskip⟩
        · rw [heq, List.length_cons]
          congr 1
          omega

theorem MemoryRegion.hasFrames_eq_true {r : MemoryRegion} :
    r.hasFrames = true ↔ r.regionType = .usable ∧ r.startFrame < r.endFrame := by
  rw [hasFrames, Bool.and_eq_true, decide_eq_true_iff, decide_eq_true_iff, startAddr, endAddr]
  constructor
  · rintro ⟨hu, hlt⟩
    exact ⟨hu, by omega⟩
  · rintro ⟨hu, hlt⟩
    exact ⟨hu, by omega⟩

/-- A region without frames adds nothing to the supply. -/
theorem MemoryRegion.frames_eq_nil {r : MemoryRegion} (h : r.hasFrames = false) :
    r.frames = [] := by
  rw [frames]
  split_ifs with hu
  · have hle : r.endFrame - r.startFrame = 0 := by
      by_contra hlt
      rw [hasFrames_eq_true.2 ⟨hu, by omega⟩] at h
      cases h
    rw [framesBetween, hle]
    rfl
  · rfl

/-- The region at which the loop stops, by its index. -/
theorem getElem?_of_drop {rs skipped rest : List MemoryRegion} {r : MemoryRegion} {i : ℕ}
    (h : rs.drop i = skipped ++ r :: rest) : rs[i + skipped.length]? = some r := by
  rw [← List.getElem?_drop, h, List.getElem?_append_right le_rfl, Nat.sub_self]
  rfl

theorem cursorOk_skip (map : MemoryMap) (i a : ℕ) :
    CursorOk map (skipRegions (map.regions.drop i) i a).1
      (skipRegions (map.regions.drop i) i a).2 := by
  intro r hr
  rcases skipRegions_spec (map.regions.drop i) i a with
    ⟨skipped, r', rest, hdrop, hr', -, heq⟩ | ⟨-, heq⟩
  · rw [heq] at hr ⊢
    have hget := getElem?_of_drop hdrop
    rw [hget] at hr
    obtain rfl := Option.some.inj hr
    obtain ⟨hu, hlt⟩ := MemoryRegion.hasFrames_eq_true.1 hr'
    exact ⟨hu, r'.startFrame, rfl, hlt⟩
  · rw [heq, List.length_drop, List.getElem?_eq_none (by omega)] at hr
    cases hr

namespace BootInfoFrameAllocator

/-- `skip_to_next_usable_region` -/
def skipToNextUsableRegion (map : MemoryMap) (regionIndex nextFrameAddr : ℕ)
    (freeList : Option (List PhysFrame)) : BootInfoFrameAllocator where
  memoryMap := map
  regionIndex := (skipRegions (map.regions.drop regionIndex) regionIndex nextFrameAddr).1
  nextFrameAddr := (skipRegions (map.regions.drop regionIndex) regionIndex nextFrameAddr).2
  freeList := freeList
  cursor := cursorOk_skip map regionIndex nextFrameAddr

/-- `BootInfoFrameAllocator::init` -/
def init (map : MemoryMap) : BootInfoFrameAllocator := skipToNextUsableRegion map 0 0 none

/-- The next frame of the current region, if it is not the last. -/
def advance (a : BootInfoFrameAllocator) (r : MemoryRegion)
    (hr : a.memoryMap.regions[a.regionIndex]? = some r)
    (h : ¬ a.nextFrameAddr + 4096 ≥ r.endAddr) : BootInfoFrameAllocator where
  memoryMap := a.memoryMap
  regionIndex := a.regionIndex
  nextFrameAddr := a.nextFrameAddr + 4096
  freeList := a.freeList
  cursor := by
    intro r' hr'
    rw [hr] at hr'
    cases hr'
    obtain ⟨hu, k, hk, -⟩ := a.cursor r hr
    rw [MemoryRegion.endAddr] at h
    exact ⟨hu, k + 1, by omega, by omega⟩

/-- The part of `allocate_frame` that hands out a fresh frame. -/
def allocateFresh (a : BootInfoFrameAllocator) : Option (PhysFrame × BootInfoFrameAllocator) :=
  match hr : a.memoryMap.regions[a.regionIndex]? with
  | none => none
  | some r =>
    let frame := frameContaining a.nextFrameAddr
    if h : a.nextFrameAddr + 4096 ≥ r.endAddr then
      some (frame, skipToNextUsableRegion a.memoryMap (a.regionIndex + 1)
        (a.nextFrameAddr + 4096) a.freeList)
    else some (frame, a.advance r hr h)

/-- `allocate_frame` -/
def allocateFrame (a : BootInfoFrameAllocator) : Option (PhysFrame × BootInfoFrameAllocator) :=
  match a.freeList with
  | some (f :: fs) => some (f, { a with freeList := some fs })
  | _ => a.allocateFresh

/-- `deallocate_frame` -/
def deallocateFrame (a : BootInfoFrameAllocator) (f : PhysFrame) : BootInfoFrameAllocator :=
  { a with freeList := some (f :: a.freeList.getD []) }

/-! ## The supply -/

/-- The frames that were never handed out, in the order in which they will be. -/
def fresh (a : BootInfoFrameAllocator) : List PhysFrame :=
  match a.memoryMap.regions[a.regionIndex]? with
  | none => []
  | some r => framesBetween (a.nextFrameAddr / 4096) r.endFrame ++
      (a.memoryMap.regions.drop (a.regionIndex + 1)).flatMap MemoryRegion.frames

/-- The frames that were given back, the last one first. -/
def freed (a : BootInfoFrameAllocator) : List PhysFrame := a.freeList.getD []

/-- **All frames the allocator has**, in the order in which it hands them out. -/
def supply (a : BootInfoFrameAllocator) : List PhysFrame := a.freed ++ a.fresh

/-- After skipping, what is fresh are the frames of the regions that were left. -/
theorem fresh_skipToNextUsableRegion (map : MemoryMap) (i addr : ℕ)
    (fl : Option (List PhysFrame)) : (skipToNextUsableRegion map i addr fl).fresh =
      (map.regions.drop i).flatMap MemoryRegion.frames := by
  have hnil : ∀ rs : List MemoryRegion, (∀ s ∈ rs, s.hasFrames = false) →
      rs.flatMap MemoryRegion.frames = [] := by
    intro rs hrs
    rw [List.flatMap_eq_nil_iff]
    exact fun s hs => MemoryRegion.frames_eq_nil (hrs s hs)
  rw [fresh]
  simp only [skipToNextUsableRegion]
  rcases skipRegions_spec (map.regions.drop i) i addr with
    ⟨skipped, r, rest, hdrop, hr, hskip, heq⟩ | ⟨hskip, heq⟩
  · have hget := getElem?_of_drop hdrop
    have hrest : map.regions.drop (i + skipped.length + 1) = rest := by
      rw [Nat.add_assoc, ← List.drop_drop, hdrop, ← List.drop_drop, List.drop_left]
      rfl
    simp only [heq, hget, hrest]
    rw [hdrop, List.flatMap_append, hnil skipped hskip, List.nil_append, List.flatMap_cons,
      MemoryRegion.frames, if_pos (MemoryRegion.hasFrames_eq_true.1 hr).1,
      MemoryRegion.startAddr, Nat.mul_div_cancel _ (by decide)]
  · have hget : map.regions[i + (map.regions.drop i).length]? = none := by
      rw [List.length_drop]
      exact List.getElem?_eq_none (by omega)
    simp only [heq, hget]
    rw [hnil _ hskip]

theorem framesBetween_cons {a b : ℕ} (h : a < b) :
    framesBetween a b = frameContaining (a * 4096) :: framesBetween (a + 1) b := by
  have hlen : b - a = (b - (a + 1)) + 1 := by omega
  rw [framesBetween, hlen, List.range'_succ, List.map_cons, frameContaining,
    Nat.mul_div_cancel _ (by decide), framesBetween]

/-- A fresh frame is the first of the fresh frames. -/
theorem fresh_of_allocateFresh {a a' : BootInfoFrameAllocator} {f : PhysFrame}
    (h : a.allocateFresh = some (f, a')) : a.fresh = f :: a'.fresh ∧ a'.freed = a.freed := by
  unfold allocateFresh at h
  split at h
  · cases h
  · next r hr =>
    obtain ⟨-, k, hk, hlt⟩ := a.cursor r hr
    have hfresh : a.fresh = frameContaining a.nextFrameAddr :: (framesBetween (k + 1) r.endFrame ++
        (a.memoryMap.regions.drop (a.regionIndex + 1)).flatMap MemoryRegion.frames) := by
      rw [fresh, hr]
      simp only
      rw [hk, Nat.mul_div_cancel _ (by decide), framesBetween_cons hlt, List.cons_append]
    simp only at h
    split_ifs at h with hend
    · cases h
      refine ⟨?_, rfl⟩
      have hlast : framesBetween (k + 1) r.endFrame = [] := by
        rw [MemoryRegion.endAddr] at hend
        rw [framesBetween, show r.endFrame - (k + 1) = 0 by omega]
        rfl
      rw [hfresh, hlast, List.nil_append, fresh_skipToNextUsableRegion]
    · cases h
      refine ⟨?_, rfl⟩
      rw [hfresh]
      congr 1
      rw [fresh]
      simp only [advance, hr]
      rw [hk, show k * 4096 + 4096 = (k + 1) * 4096 by omega, Nat.mul_div_cancel _ (by decide)]

/-- Nothing fresh is left when no fresh frame is handed out. -/
theorem fresh_eq_nil {a : BootInfoFrameAllocator} (h : a.allocateFresh = none) :
    a.fresh = [] := by
  unfold allocateFresh at h
  split at h
  · next hr => rw [fresh, hr]
  · simp only at h
    split_ifs at h

theorem freed_eq_nil {a : BootInfoFrameAllocator}
    (h : ∀ f fs, a.freeList = some (f :: fs) → False) : a.freed = [] := by
  rw [freed]
  cases hfl : a.freeList with
  | none => rfl
  | some l =>
    cases l with
    | nil => rfl
    | cons f fs => exact absurd hfl (h f fs)

/-- `allocate_frame` takes a frame that was given back, or, if there is none, a fresh one. -/
theorem allocateFrame_eq_some {a a' : BootInfoFrameAllocator} {f : PhysFrame}
    (h : a.allocateFrame = some (f, a')) :
    (a.freed = f :: a'.freed ∧ a'.fresh = a.fresh) ∨
      (a.freed = [] ∧ a'.freed = [] ∧ a.fresh = f :: a'.fresh) := by
  rw [allocateFrame] at h
  split at h
  · next g fs hfl =>
    cases h
    exact Or.inl ⟨by rw [freed, hfl]; rfl, rfl⟩
  · next hfl =>
    obtain ⟨hfresh, hfreed⟩ := fresh_of_allocateFresh h
    have hnil := freed_eq_nil hfl
    exact Or.inr ⟨hnil, hfreed.trans hnil, hfresh⟩

/-- **`allocate_frame`** takes the head of the supply. -/
theorem supply_of_allocateFrame {a a' : BootInfoFrameAllocator} {f : PhysFrame}
    (h : a.allocateFrame = some (f, a')) : a.supply = f :: a'.supply := by
  rcases allocateFrame_eq_some h with ⟨hfreed, hfresh⟩ | ⟨hnil, hnil', hfresh⟩
  · rw [supply, supply, hfreed, hfresh, List.cons_append]
  · rw [supply, supply, hnil, hnil', hfresh, List.nil_append, List.nil_append]

/-- `allocate_frame` fails only when the supply is exhausted. -/
theorem supply_eq_nil {a : BootInfoFrameAllocator} (h : a.allocateFrame = none) :
    a.supply = [] := by
  rw [allocateFrame] at h
  split at h
  · cases h
  · next hfl =>
    rw [supply, fresh_eq_nil h, List.append_nil, freed_eq_nil hfl]

/-- **`deallocate_frame`** puts a frame in front of the supply. -/
theorem supply_deallocateFrame (a : BootInfoFrameAllocator) (f : PhysFrame) :
    (a.deallocateFrame f).supply = f :: a.supply := rfl

/-! ## The frames at boot -/

/-- A new allocator has every frame of every usable region. -/
theorem supply_init (map : MemoryMap) :
    (init map).supply = map.regions.flatMap MemoryRegion.frames := by
  rw [supply, init, fresh_skipToNextUsableRegion]
  rfl

/-- No frame is in the supply of a new allocator twice. -/
theorem nodup_supply_init (map : MemoryMap) : (init map).supply.Nodup := by
  rw [supply_init, List.nodup_flatMap]
  refine ⟨fun r _ => r.nodup_frames, map.disjoint.imp ?_⟩
  intro r s hdisj f hf hf'
  rw [MemoryRegion.mem_frames] at hf hf'
  have := hdisj hf.1 hf'.1
  omega

end BootInfoFrameAllocator

/-! ## What callers get -/

/-- The kernel's allocator, as the interface that its memory functions use. -/
def bootInfo : FrameAllocator BootInfoFrameAllocator where
  allocateFrame := BootInfoFrameAllocator.allocateFrame
  deallocateFrame := BootInfoFrameAllocator.deallocateFrame

/-- **The kernel's allocator does what callers rely on** as long as no frame is in its supply
twice. -/
def bootInfoSpec : bootInfo.Spec where
  valid := fun a => a.supply.Nodup
  free := fun a => {f | f ∈ a.supply}
  allocate := by
    intro a a' f hnodup h
    have hsupply := BootInfoFrameAllocator.supply_of_allocateFrame h
    rw [hsupply, List.nodup_cons] at hnodup
    refine ⟨hnodup.2, ?_, ?_⟩
    · show f ∈ a.supply
      rw [hsupply]
      exact List.mem_cons_self
    · intro x hx
      have hx' : x ∈ a'.supply := hx
      refine ⟨?_, ?_⟩
      · show x ∈ a.supply
        rw [hsupply]
        exact List.mem_cons_of_mem f hx'
      · rintro rfl
        exact hnodup.1 hx'

/-- It grants as many requests as it has frames. -/
theorem supplies_bootInfo {n : ℕ} {a : BootInfoFrameAllocator} (h : n ≤ a.supply.length) :
    bootInfo.Supplies n a := by
  induction n generalizing a with
  | zero => trivial
  | succ n ih =>
    cases ha : a.allocateFrame with
    | none =>
      rw [BootInfoFrameAllocator.supply_eq_nil ha] at h
      exact absurd h (by simp)
    | some p =>
      rw [BootInfoFrameAllocator.supply_of_allocateFrame ha, List.length_cons] at h
      exact ⟨p.1, p.2, ha, ih (by omega)⟩
