/-
# Frames in circulation

What a client of the frame allocator sees over a whole run.  Frames are handed out and
given back in any order; the only rule is that a frame is given back by someone who
holds it.  `Circulation` is the allocator together with the frames that are held
(`live`) and the frames that were ever handed out (`issued`).

`frames_circulate` is the law of the allocator: no frame is issued while it is live,
none gets lost, and the fresh ones come out in the order of the memory map.  It follows
from one invariant, `Balanced`: what was ever issued is live or was given back, and what
was not is fresh.
-/
import Velora.BootInfoFrameAllocator
import Velora.Runs

/-! ## The order of the memory map -/

/-- The addresses of the frames of a region: `(start_addr()..end_addr()).step_by(4096)`. -/
def MemoryRegion.frameAddrs (r : MemoryRegion) : List ℕ :=
  List.range' r.startAddr ((r.endAddr - r.startAddr + 4095) / 4096) 4096

/-- **The iterator-based version** of the allocator took the frames of the usable regions one
after the other. -/
def MemoryMap.usableFrames (map : MemoryMap) : List PhysFrame :=
  ((map.regions.filter fun r => r.regionType = .usable).flatMap MemoryRegion.frameAddrs).map
    frameContaining

theorem MemoryRegion.map_frameAddrs (r : MemoryRegion) :
    r.frameAddrs.map frameContaining = framesBetween r.startFrame r.endFrame := by
  have hlen : (r.endAddr - r.startAddr + 4095) / 4096 = r.endFrame - r.startFrame := by
    rw [endAddr, startAddr]
    omega
  rw [frameAddrs, hlen, framesBetween, startAddr]
  generalize r.endFrame - r.startFrame = n
  generalize r.startFrame = a
  induction n generalizing a with
  | zero => rfl
  | succ n ih =>
    rw [List.range'_succ, List.range'_succ, List.map_cons, List.map_cons, frameContaining,
      Nat.mul_div_cancel _ (by decide), ← ih (a + 1), Nat.succ_mul]

/-- A new allocator has the frames in this order. -/
theorem MemoryMap.usableFrames_eq (map : MemoryMap) :
    map.usableFrames = map.regions.flatMap MemoryRegion.frames := by
  rw [usableFrames]
  induction map.regions with
  | nil => rfl
  | cons r rest ih =>
    rw [List.flatMap_cons, MemoryRegion.frames, ← ih]
    by_cases hu : r.regionType = .usable
    · rw [List.filter_cons_of_pos (by simpa using hu), List.flatMap_cons, List.map_append,
        r.map_frameAddrs, if_pos hu]
    · rw [List.filter_cons_of_neg (by simpa using hu), if_neg hu, List.nil_append]

theorem MemoryMap.mem_usableFrames {map : MemoryMap} {f : PhysFrame} :
    f ∈ map.usableFrames ↔ ∃ r ∈ map.regions, r.regionType = .usable ∧
      r.startFrame ≤ f.val ∧ f.val < r.endFrame := by
  rw [usableFrames_eq, List.mem_flatMap]
  simp only [MemoryRegion.mem_frames]

/-! ## The clients -/

/-- What a client may ask for. -/
inductive FrameRequest
  | allocate
  | deallocate (frame : PhysFrame)

/-- The allocator, the frames that are held, and the frames that were ever handed out, newest
first. -/
structure Circulation where
  allocator : BootInfoFrameAllocator
  live : Finset PhysFrame
  issued : List PhysFrame

namespace Circulation

/-- One request.  A frame that nobody holds is not given back. -/
def step (c : Circulation) : FrameRequest → Except Unit Circulation
  | .allocate =>
    match c.allocator.allocateFrame with
    | none => .ok c
    | some (f, a) => .ok ⟨a, insert f c.live, f :: c.issued⟩
  | .deallocate f =>
    if f ∈ c.live then .ok ⟨c.allocator.deallocateFrame f, c.live.erase f, c.issued⟩
    else .error ()

/-- At boot nothing has been handed out. -/
def start (map : MemoryMap) : Circulation := ⟨.init map, ∅, []⟩

/-- The frames that were handed out, each where it came out for the first time, oldest first. -/
def firstIssued (c : Circulation) : List PhysFrame := c.issued.dedup.reverse

/-! ## The invariant -/

/-- **The balance**: the usable frames are those that were issued, in this order, and those that
are fresh; of the ones that were issued, each is live or was given back, once. -/
structure Balanced (map : MemoryMap) (c : Circulation) : Prop where
  order : map.usableFrames = c.firstIssued ++ c.allocator.fresh
  live : ∀ f ∈ c.live, f ∈ c.issued
  freed : ∀ f, f ∈ c.allocator.freed ↔ f ∈ c.issued ∧ f ∉ c.live
  once : c.allocator.freed.Nodup

variable {map : MemoryMap} {c c' : Circulation}

theorem mem_firstIssued {f : PhysFrame} : f ∈ c.firstIssued ↔ f ∈ c.issued := by
  rw [firstIssued, List.mem_reverse, List.mem_dedup]

theorem nodup_usableFrames (map : MemoryMap) : map.usableFrames.Nodup := by
  rw [MemoryMap.usableFrames_eq, ← BootInfoFrameAllocator.supply_init]
  exact BootInfoFrameAllocator.nodup_supply_init map

theorem Balanced.start (map : MemoryMap) : Balanced map (start map) where
  order := by
    show map.usableFrames = [] ++ (BootInfoFrameAllocator.init map).fresh
    rw [MemoryMap.usableFrames_eq, ← BootInfoFrameAllocator.supply_init]
    rfl
  live := by
    intro f hf
    exact absurd hf (Finset.notMem_empty f)
  freed := by
    intro f
    show f ∈ [] ↔ f ∈ [] ∧ _
    simp
  once := List.nodup_nil

/-- A fresh frame was never issued. -/
theorem Balanced.not_issued (h : Balanced map c) {f : PhysFrame} (hf : f ∈ c.allocator.fresh) :
    f ∉ c.issued := by
  intro hi
  have hnodup := nodup_usableFrames map
  rw [h.order, List.nodup_append'] at hnodup
  exact hnodup.2.2 (mem_firstIssued.2 hi) hf

/-- A frame that is handed out is usable, not live, and recycled exactly if it was issued before. -/
theorem Balanced.allocate (h : Balanced map c) {f : PhysFrame} {a : BootInfoFrameAllocator}
    (ha : c.allocator.allocateFrame = some (f, a)) : f ∈ map.usableFrames ∧ f ∉ c.live := by
  rw [h.order, List.mem_append, mem_firstIssued]
  rcases BootInfoFrameAllocator.allocateFrame_eq_some ha with ⟨hfreed, -⟩ | ⟨-, -, hfresh⟩
  · have hf : f ∈ c.allocator.freed := by
      rw [hfreed]
      exact List.mem_cons_self
    exact ⟨Or.inl ((h.freed f).1 hf).1, ((h.freed f).1 hf).2⟩
  · have hf : f ∈ c.allocator.fresh := by
      rw [hfresh]
      exact List.mem_cons_self
    exact ⟨Or.inr hf, fun hl => h.not_issued hf (h.live f hl)⟩

/-- Handing out a frame that was given back. -/
theorem Balanced.recycle (h : Balanced map c) {f : PhysFrame} {a : BootInfoFrameAllocator}
    (hfreed : c.allocator.freed = f :: a.freed) (hfresh : a.fresh = c.allocator.fresh) :
    Balanced map ⟨a, insert f c.live, f :: c.issued⟩ := by
  have hmem : f ∈ c.issued := ((h.freed f).1 (by rw [hfreed]; exact List.mem_cons_self)).1
  have honce := h.once
  rw [hfreed, List.nodup_cons] at honce
  refine ⟨?_, ?_, ?_, honce.2⟩
  · rw [h.order, hfresh, firstIssued, firstIssued, List.dedup_cons_of_mem hmem]
  · intro g hg
    rcases Finset.mem_insert.1 hg with rfl | hg
    · exact List.mem_cons_self
    · exact List.mem_cons_of_mem f (h.live g hg)
  · intro g
    have hg := h.freed g
    rw [hfreed, List.mem_cons] at hg
    rw [List.mem_cons, Finset.mem_insert, not_or]
    constructor
    · intro hin
      refine ⟨Or.inr (hg.1 (Or.inr hin)).1, ?_, (hg.1 (Or.inr hin)).2⟩
      rintro rfl
      exact honce.1 hin
    · rintro ⟨hor, hne, hl⟩
      exact (hg.2 ⟨hor.resolve_left hne, hl⟩).resolve_left hne

/-- Handing out a fresh frame. -/
theorem Balanced.issue (h : Balanced map c) {f : PhysFrame} {a : BootInfoFrameAllocator}
    (hnil : c.allocator.freed = []) (hnil' : a.freed = [])
    (hfresh : c.allocator.fresh = f :: a.fresh) :
    Balanced map ⟨a, insert f c.live, f :: c.issued⟩ := by
  have hnot : f ∉ c.issued := h.not_issued (by rw [hfresh]; exact List.mem_cons_self)
  refine ⟨?_, ?_, ?_, ?_⟩
  · rw [h.order, hfresh, firstIssued, firstIssued, List.dedup_cons_of_notMem hnot,
      List.reverse_cons, List.append_assoc]
    rfl
  · intro g hg
    rcases Finset.mem_insert.1 hg with rfl | hg
    · exact List.mem_cons_self
    · exact List.mem_cons_of_mem f (h.live g hg)
  · intro g
    have hg := h.freed g
    rw [hnil] at hg
    simp only [hnil', List.mem_cons, Finset.mem_insert, List.not_mem_nil, false_iff, not_and,
      not_not] at hg ⊢
    rintro (rfl | hi)
    · exact Or.inl rfl
    · exact Or.inr (hg hi)
  · simp only [hnil', List.nodup_nil]

/-- Giving back a frame that is held. -/
theorem Balanced.release (h : Balanced map c) {f : PhysFrame} (hf : f ∈ c.live) :
    Balanced map ⟨c.allocator.deallocateFrame f, c.live.erase f, c.issued⟩ := by
  refine ⟨h.order, ?_, ?_, ?_⟩
  · intro g hg
    exact h.live g (Finset.mem_of_mem_erase hg)
  · intro g
    show g ∈ f :: c.allocator.freed ↔ _
    rw [List.mem_cons, h.freed g, Finset.mem_erase, not_and_or, not_not]
    constructor
    · rintro (rfl | ⟨hi, hl⟩)
      · exact ⟨h.live g hf, Or.inl rfl⟩
      · exact ⟨hi, Or.inr hl⟩
    · rintro ⟨hi, rfl | hl⟩
      · exact Or.inl rfl
      · exact Or.inr ⟨hi, hl⟩
  · show (f :: c.allocator.freed).Nodup
    rw [List.nodup_cons]
    exact ⟨fun hin => ((h.freed f).1 hin).2 hf, h.once⟩

theorem Balanced.step (h : Balanced map c) {r : FrameRequest} (hs : c.step r = .ok c') :
    Balanced map c' := by
  cases r with
  | allocate =>
    rw [Circulation.step] at hs
    cases ha : c.allocator.allocateFrame with
    | none =>
      rw [ha] at hs
      cases hs
      exact h
    | some p =>
      rw [ha] at hs
      cases hs
      rcases BootInfoFrameAllocator.allocateFrame_eq_some ha with
        ⟨hfreed, hfresh⟩ | ⟨hnil, hnil', hfresh⟩
      · exact h.recycle hfreed hfresh
      · exact h.issue hnil hnil' hfresh
  | deallocate f =>
    rw [Circulation.step] at hs
    split_ifs at hs with hf
    cases hs
    exact h.release hf

theorem balanced_of_reachable (h : Runs.Reachable step (start map) c) : Balanced map c :=
  h.invariant (Balanced.start map) fun _ _ _ hb _ hs => hb.step hs

/-- Nothing is left exactly when every usable frame is live. -/
theorem Balanced.allocateFrame_eq_none_iff (h : Balanced map c) :
    c.allocator.allocateFrame = none ↔ ∀ f ∈ map.usableFrames, f ∈ c.live := by
  constructor
  · intro hnone f hf
    have hnil := BootInfoFrameAllocator.supply_eq_nil hnone
    rw [BootInfoFrameAllocator.supply, List.append_eq_nil_iff] at hnil
    rw [h.order, hnil.2, List.append_nil, mem_firstIssued] at hf
    by_contra hl
    have hfreed := (h.freed f).2 ⟨hf, hl⟩
    rw [hnil.1] at hfreed
    cases hfreed
  · intro hall
    by_contra hsome
    obtain ⟨⟨f, a⟩, ha⟩ := Option.ne_none_iff_exists'.1 hsome
    obtain ⟨husable, hdead⟩ := h.allocate ha
    exact hdead (hall f husable)

/-! ## The law -/

/-- **Frames circulate**, in every run of requests on every memory map.  A frame that is handed
out is usable and not live; the frames that come out for the first time, which are the ones taken
when none was given back, do so in the order of the usable regions, each once; and
nothing is handed out exactly when every frame of every usable region is live. -/
theorem frames_circulate (map : MemoryMap) (c : Circulation)
    (h : Runs.Reachable step (start map) c) :
    (∀ f a, c.allocator.allocateFrame = some (f, a) →
      (∃ r ∈ map.regions, r.regionType = .usable ∧ r.startFrame ≤ f.val ∧ f.val < r.endFrame) ∧
      f ∉ c.live ∧ (f ∉ c.issued ↔ c.allocator.freed = [])) ∧
    (c.firstIssued <+: map.usableFrames ∧ map.usableFrames.Nodup) ∧
    (c.allocator.allocateFrame = none ↔ ∀ r ∈ map.regions, r.regionType = .usable →
      ∀ f : PhysFrame, r.startFrame ≤ f.val → f.val < r.endFrame → f ∈ c.live) := by
  have hb := balanced_of_reachable h
  refine ⟨?_, ⟨?_, nodup_usableFrames map⟩, ?_⟩
  · intro f a ha
    obtain ⟨husable, hdead⟩ := hb.allocate ha
    refine ⟨MemoryMap.mem_usableFrames.1 husable, hdead, ?_⟩
    rcases BootInfoFrameAllocator.allocateFrame_eq_some ha with ⟨hfreed, -⟩ | ⟨hnil, -, hfresh⟩
    · have hi : f ∈ c.issued := ((hb.freed f).1 (by rw [hfreed]; exact List.mem_cons_self)).1
      rw [hfreed]
      exact iff_of_false (not_not.2 hi) (List.cons_ne_nil _ _)
    · exact iff_of_true (hb.not_issued (by rw [hfresh]; exact List.mem_cons_self)) hnil
  · rw [hb.order]
    exact List.prefix_append _ _
  · rw [hb.allocateFrame_eq_none_iff]
    constructor
    · intro hall r hr hu f hle hlt
      exact hall f (MemoryMap.mem_usableFrames.2 ⟨r, hr, hu, hle, hlt⟩)
    · intro hall f hf
      obtain ⟨r, hr, hu, hle, hlt⟩ := MemoryMap.mem_usableFrames.1 hf
      exact hall r hr hu f hle hlt

/-- Two usable regions with frames, one that is empty, and one that is not usable. -/
def patchyMap : MemoryMap where
  regions := [⟨2, 2, .usable, by decide⟩, ⟨2, 4, .usable, by decide⟩, ⟨0, 9, .other, by decide⟩,
    ⟨7, 8, .usable, by decide⟩]
  disjoint := by decide

/-- All three frames are handed out, the second one twice. -/
theorem frames_circulate_patchyMap : ∃ c, Runs.Reachable step (start patchyMap) c ∧
    c.firstIssued = [2, 3, 7] ∧ c.firstIssued <+: patchyMap.usableFrames := by
  obtain ⟨c, hc, htest⟩ := Runs.exists_reach_of_any step (fun _ _ => True) (start patchyMap)
    [.allocate, .allocate, .deallocate 3, .allocate, .allocate]
    (fun c => c.firstIssued = [2, 3, 7]) (by decide +kernel)
  exact ⟨c, hc, of_decide_eq_true htest, (frames_circulate patchyMap c hc).2.1.1⟩

end Circulation
