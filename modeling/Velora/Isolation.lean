/-
# Programs stay in their address spaces

`Allowed` takes it for granted that nobody but the mapper writes to page tables.  Of the
kernel this can be read off its code; of a program it cannot, since a program may store
wherever the processor lets it.  Here the processor's check takes the place of that
assumption.

In a guarded world all that ring 3 can reach through a space is owned by that space
(`Guarded.userFrame`).  So the stores of a program, whatever it does, are among those that
`Allowed` admits, and a program finds its memory as it left it, whatever others do.
-/
import Velora.Confinement

namespace World

section Steps

variable {mapTo : MapTo BootInfoFrameAllocator} {map : MemoryMap} {cr3 : PhysFrame} {off : Fin 512}
  {m₀ : Machine BootInfoFrameAllocator} {w w' : World} {id : Owner} {s : AddrSpace}

/-! ## What ring 3 can reach -/

/-- Nothing below the two entries that are shared is the user's. -/
def KernelOnly (off : Fin 512) (mem₀ : PhysMem) (cr3 : PhysFrame) : Prop :=
  ∀ page : Page, owned off page.start.p4Index = false → ¬ UserWalk mem₀ false cr3 page.path

variable {page : Page} {needWrite : Bool} {f : PhysFrame}

/-- Ring 3 gets nowhere through an entry that is shared. -/
theorem Guarded.owned_of_userWalk (h : Guarded cr3 off m₀ w) (hk : KernelOnly off m₀.mem cr3)
    (hs : w.space id = some s) (hu : UserWalk w.machine.mem needWrite s.l4 page.path) :
    owned off page.start.p4Index = true := by
  by_contra hc
  rw [Bool.not_eq_true] at hc
  refine hk page hc ?_
  have hread := hu.read
  have hcr3 := h.books.kernel cr3 ⟨[], Nat.zero_le _, rfl⟩
  -- the first entry is the kernel's, and so is all that is below it
  have hentry : w.machine.mem cr3 page.start.p4Index = w.machine.mem s.l4 page.start.p4Index := by
    rw [hcr3, (h.confined id s hs).shared _ hc]
  have hkernel : UserWalk w.machine.mem false cr3 page.path := by
    constructor
    · rw [hentry]
      exact hread.1
    · rw [hentry]
      exact hread.2
  refine hkernel.congr fun ρ j rest t hpath ht => ?_
  have hlen : ρ.length ≤ 3 := by
    have hfour := congrArg List.length hpath
    rw [List.length_append, List.length_cons, show page.path.length = 4 from rfl] at hfour
    omega
  have htable := (isTable_congr h.books.kernel).1 (isTable_of_follow hlen ht)
  rw [h.books.kernel t htable]

/-- **Ring 3 stays in its space**: a page that it can use is below an entry of the space itself,
none of those borrowed, and its frame is the space's own. -/
theorem Guarded.userFrame (h : Guarded cr3 off m₀ w) (hk : KernelOnly off m₀.mem cr3)
    (hs : w.space id = some s) (hu : UserWalk w.machine.mem needWrite s.l4 page.path)
    (hf : translatePage w.machine.mem s.l4 page = some f) :
    s.Leads off w.machine.mem page.path f ∧ f ∈ s.frames off w.machine.mem := by
  have hown := h.owned_of_userWalk hk hs hu
  have horder := (h.books.spaces id s hs).order
  have hhead : ∀ i ∈ page.path.head?, owned off i = true := by
    intro i hi
    obtain rfl := Option.some.inj hi
    exact hown
  have hrange : inRange s.borrowed page.start.val = false := by
    obtain ⟨t, ht, -, huser, -⟩ := UserWalk.follow
      (ρ := [page.start.p4Index, page.start.p3Index, page.start.p2Index]) hu
    have hwalk := horder.space.walk_owned (x := t) (fun _ hi => hi)
      (π := [page.start.p4Index, page.start.p3Index, page.start.p2Index]) (by simp) hhead
    obtain ⟨flags, hmem, -⟩ := (h.confined id s hs).leaves _ _ t rfl (hwalk.1 ht) huser
    rw [← inRange_rebuiltAddr horder.lower]
    exact hmem.1
  refine ⟨⟨(kept_path horder.lower).2 ⟨hown, hrange⟩, le_rfl, ?_⟩,
    Or.inr (Or.inr ⟨page, ⟨hown, hf⟩, hrange⟩)⟩
  exact (horder.space.walk_owned (fun _ hi => hi) le_rfl hhead).1 hf

/-- No table is among the frames that ring 3 can reach. -/
theorem Guarded.userFrame_not_table (h : Guarded cr3 off m₀ w) (hk : KernelOnly off m₀.mem cr3)
    (hs : w.space id = some s) (hu : UserWalk w.machine.mem needWrite s.l4 page.path)
    (hf : translatePage w.machine.mem s.l4 page = some f) {j : Owner} {t : AddrSpace}
    (ht : w.space j = some t) : ¬ IsTable w.machine.mem t.l4 (owned off) f := by
  intro htable
  obtain ⟨hleads, hframe⟩ := h.userFrame hk hs hu hf
  have hj : id = j := by
    refine h.books.divided.apart id j f ?_ (h.books.table_mem_held ht htable)
    rw [held_of_space hs]
    exact hframe
  subst hj
  obtain rfl := Option.some.inj (hs.symm.trans ht)
  -- a table and a page would be two ways to one frame
  obtain ⟨π, hlen, hπ⟩ := htable
  have hkept : kept off s.borrowed (π, f) = true :=
    kept_of_short hlen (AddrSpace.visible_of_tableWalk hπ)
  have hpath := (h.books.spaces id s hs).order.once page.path π f hleads ⟨hkept, by omega, hπ⟩
  have hfour : page.path.length = 4 := rfl
  rw [hpath] at hfour
  omega

/-- **The upper half is the kernel's.** -/
theorem Guarded.not_userWalk_of_upper (h : Guarded cr3 off m₀ w) (hk : KernelOnly off m₀.mem cr3)
    (hs : w.space id = some s) (hup : 256 ≤ (page.start.p4Index : ℕ)) :
    ¬ UserWalk w.machine.mem needWrite s.l4 page.path := by
  intro hu
  obtain ⟨t, ht, -, huser, -⟩ := UserWalk.follow
    (ρ := [page.start.p4Index, page.start.p3Index, page.start.p2Index]) hu
  have hwalk := (h.books.spaces id s hs).order.space.walk_owned (x := t) (fun _ hi => hi)
    (π := [page.start.p4Index, page.start.p3Index, page.start.p2Index]) (by simp) fun i hi => by
      obtain rfl := Option.some.inj hi
      exact h.owned_of_userWalk hk hs hu
  obtain ⟨flags, hmem, -⟩ := (h.confined id s hs).leaves _ _ t rfl (hwalk.1 ht) huser
  have hlow := hmem.2 page.start.p4Index rfl
  omega

/-- The tables on the way to a page that ring 3 can use are the space's own. -/
theorem Guarded.onWay_isTable (h : Guarded cr3 off m₀ w) (hk : KernelOnly off m₀.mem cr3)
    (hs : w.space id = some s) (hu : UserWalk w.machine.mem needWrite s.l4 page.path)
    {ρ rest : List (Fin 512)} {j : Fin 512} {t : PhysFrame} (hpath : page.path = ρ ++ j :: rest)
    (ht : RadixHeap.walk PageTableEntry.follow w.machine.mem s.l4 ρ = some t) :
    IsTable w.machine.mem s.l4 (owned off) t := by
  have horder := (h.books.spaces id s hs).order
  have hlen : ρ.length ≤ 3 := by
    have hfour := congrArg List.length hpath
    rw [List.length_append, List.length_cons, show page.path.length = 4 from rfl] at hfour
    omega
  have hhead : ∀ i ∈ ρ.head?, owned off i = true := by
    refine owned_of_concat ⟨j :: rest, hpath.symm⟩ ?_
    intro i hi
    obtain rfl := Option.some.inj hi
    exact h.owned_of_userWalk hk hs hu
  rw [horder.space.walk_owned (fun _ hi => hi) (by omega) hhead] at ht
  exact ⟨ρ, hlen, ht⟩

theorem Guarded.onWay_mem_frames (h : Guarded cr3 off m₀ w) (hk : KernelOnly off m₀.mem cr3)
    (hs : w.space id = some s) (hu : UserWalk w.machine.mem needWrite s.l4 page.path)
    {ρ rest : List (Fin 512)} {j : Fin 512} {t : PhysFrame} (hpath : page.path = ρ ++ j :: rest)
    (ht : RadixHeap.walk PageTableEntry.follow w.machine.mem s.l4 ρ = some t) :
    t ∈ s.frames off w.machine.mem :=
  (h.books.spaces id s hs).order.mem_frames_of_isTable (h.onWay_isTable hk hs hu hpath ht)

/-! ## Steps as the processor sees them -/

/-- The kernel does something, or a program that runs under the table `l4` stores to a page: it
leaves the words given in the page's frame. -/
inductive Event
  | kernel (a : Action)
  | userStore (l4 : PhysFrame) (page : Page) (words : Fin 512 → Word)

/-- What stops the machine; `page_fault_handler` panics. -/
inductive Fault
  | panic (p : Panic)
  | pageFault

/-- A program stores where the processor lets it.  The check is that of `page_accessible`. -/
def Event.step (mapTo : MapTo BootInfoFrameAllocator) (cr3 : PhysFrame) (off : Fin 512)
    (w : World) : Event → Except Fault World
  | .kernel a => (World.step mapTo cr3 off w a).mapError .panic
  | .userStore l4 page words =>
    if !pageAccessible w.machine.mem l4 page.start true then .error .pageFault
    else match translatePage w.machine.mem l4 page with
      | none => .error .pageFault
      | some f => .ok { w with machine := w.machine.write (Function.update w.machine.mem f words) }

/-- What is asked of an event: of a program, that it runs in a space that has not been freed; of a
store by the kernel, that it is to data of its own; of all else, what `Allowed` asks, and of a page
to be mapped, that it is in the lower half. -/
def Admitted (cr3 : PhysFrame) (off : Fin 512) (m₀ : Machine BootInfoFrameAllocator) (w : World) :
    Event → Prop
  | .kernel (.store f _) =>
    f ∉ bootInfoSpec.free m₀.frames ∧ ¬ IsTable m₀.mem cr3 allEntries f
  | .kernel a => Allowed cr3 off w a ∧ a.Low
  | .userStore l4 _ _ => w.Live l4

/-- The event is about the space of this owner, or by the program that runs in it. -/
def Event.About (w : World) (id : Owner) : Event → Prop
  | .kernel a => w.Concerns id a
  | .userStore l4 _ _ => ∃ s, w.space id = some s ∧ s.l4 = l4

/-- **An event is an action that is allowed**, and one that leaves alone the frames of every space
that the event is not about. -/
theorem Guarded.exists_action (hboot : Booted map cr3 m₀) (h : Guarded cr3 off m₀ w)
    (hk : KernelOnly off m₀.mem cr3) {e : Event} (ha : Admitted cr3 off m₀ w e)
    (hr : e.step mapTo cr3 off w = .ok w') :
    ∃ a, Allowed cr3 off w a ∧ a.Low ∧ World.step mapTo cr3 off w a = .ok w' ∧
      ∀ id s, w.space id = some s → ¬ e.About w id → ¬ w.Concerns id a ∧
        ∀ f words, a = .store f words → f ∉ s.frames off w.machine.mem := by
  cases e with
  | kernel a =>
    have hstep : World.step mapTo cr3 off w a = .ok w' := by
      cases hstep : World.step mapTo cr3 off w a with
      | error p =>
        rw [Event.step, hstep] at hr
        cases hr
      | ok u =>
        rw [Event.step, hstep] at hr
        cases hr
        rfl
    by_cases hstore : ∃ f words, a = .store f words
    · obtain ⟨f, words, rfl⟩ := hstore
      obtain ⟨hfree, htable⟩ := ha
      refine ⟨.store f words, ⟨fun hc => htable ((isTable_congr h.books.kernel).1 hc), ?_⟩,
        trivial, hstep, ?_⟩
      · intro j t ht hc
        exact hfree (h.books.divided.held_subset j (h.books.table_mem_held ht hc))
      · rintro j t ht -
        refine ⟨fun hc => hc, ?_⟩
        rintro _ _ heq hc
        obtain ⟨rfl, -⟩ := Action.store.inj heq
        rw [← held_of_space ht] at hc
        exact hfree (h.books.divided.held_subset j hc)
    · have ha : Allowed cr3 off w a ∧ a.Low := by
        cases a with
        | store f words => exact absurd ⟨f, words, rfl⟩ hstore
        | _ => exact ha
      exact ⟨a, ha.1, ha.2, hstep, fun j t _ hnot =>
        ⟨hnot, fun f words heq => absurd ⟨f, words, heq⟩ hstore⟩⟩
  | userStore l4 page words =>
    obtain ⟨id, s, hs, rfl⟩ := ha
    rw [Event.step] at hr
    by_cases hmay : pageAccessible w.machine.mem s.l4 page.start true = true
    · have hu := pageAccessible_iff.1 hmay
      obtain ⟨f, hf⟩ := hu.exists_frame
      simp only [hmay, Bool.not_true, Bool.false_eq_true, if_false, hf] at hr
      obtain ⟨-, hframe⟩ := h.userFrame hk hs hu hf
      refine ⟨.store f words, ⟨?_, fun j t ht => h.userFrame_not_table hk hs hu hf ht⟩, trivial,
        congrArg Except.ok (Except.ok.inj hr), ?_⟩
      · intro hc
        rw [← held_of_space hs] at hframe
        exact (h.books.kernel_not_mem hboot ((isTable_congr h.books.kernel).1 hc)).2 id hframe
      · intro j t ht hnot
        refine ⟨fun hc => hc, ?_⟩
        rintro _ _ heq hc
        obtain ⟨rfl, -⟩ := Action.store.inj heq
        rw [← held_of_space hs] at hframe
        rw [← held_of_space ht] at hc
        obtain rfl := h.books.divided.apart id j f hframe hc
        exact hnot ⟨s, hs, rfl⟩
    · simp only [Bool.eq_false_of_not_eq_true hmay, Bool.not_false, if_true] at hr
      cases hr

/-- So the world stays guarded. -/
theorem Guarded.event (hmap : MapTo.Documented bootInfo mapTo) (hboot : Booted map cr3 m₀)
    (h : Guarded cr3 off m₀ w) (hk : KernelOnly off m₀.mem cr3) {e : Event}
    (ha : Admitted cr3 off m₀ w e) (hr : e.step mapTo cr3 off w = .ok w') :
    Guarded cr3 off m₀ w' := by
  obtain ⟨a, hallowed, hlow, hstep, -⟩ := h.exists_action hboot hk ha hr
  exact h.step hmap hboot hallowed hlow hstep

theorem guarded_of_events (hmap : MapTo.Documented bootInfo mapTo) (hboot : Booted map cr3 m₀)
    (hk : KernelOnly off m₀.mem cr3)
    (hrun : Runs.Reach (Event.step mapTo cr3 off) (Admitted cr3 off m₀) (start cr3 m₀) w) :
    Guarded cr3 off m₀ w :=
  hrun.invariant (guarded_start hboot) fun _ _ _ h ha hr => h.event hmap hboot hk ha hr

/-- **Page tables are safe from programs.**  Whatever the programs store, and wherever they try to,
every world that is reached is reached by allowed actions only: the processor's check keeps each
program from writing to a page table, so this need not be assumed. -/
theorem programs_need_no_trust (hmap : MapTo.Documented bootInfo mapTo) (hboot : Booted map cr3 m₀)
    (hk : KernelOnly off m₀.mem cr3)
    (hrun : Runs.Reach (Event.step mapTo cr3 off) (Admitted cr3 off m₀) (start cr3 m₀) w) :
    Runs.Reach (World.step mapTo cr3 off) (Allowed cr3 off) (start cr3 m₀) w := by
  induction hrun with
  | refl => exact .refl
  | tail hrun ha hr ih =>
    obtain ⟨a, hallowed, -, hstep, -⟩ :=
      (guarded_of_events hmap hboot hk hrun).exists_action hboot hk ha hr
    exact ih.tail hallowed hstep

/-- **What ring 3 can reach is its own.**  Take any world that is reached, and a page that CPL 3 can
use in some space.  The frame of the page is owned by that space.  It is not free, it is neither a
table nor a page of the kernel, it is no table of any space, and ring 3 can reach it in no other
space and at no other page. -/
theorem user_frames_private (hmap : MapTo.Documented bootInfo mapTo) (hboot : Booted map cr3 m₀)
    (hk : KernelOnly off m₀.mem cr3)
    (hrun : Runs.Reach (Event.step mapTo cr3 off) (Admitted cr3 off m₀) (start cr3 m₀) w)
    (hs : w.space id = some s) (hu : UserWalk w.machine.mem needWrite s.l4 page.path)
    (hf : translatePage w.machine.mem s.l4 page = some f) :
    Place.Holds cr3 off w f (.space id) ∧ f ∉ bootInfoSpec.free w.machine.frames ∧
      ¬ KernelHeld w.machine.mem cr3 f ∧
      (∀ j t, w.space j = some t → ¬ IsTable w.machine.mem t.l4 (owned off) f) ∧
      ∀ j t page' needWrite', w.space j = some t →
        UserWalk w.machine.mem needWrite' t.l4 page'.path →
        translatePage w.machine.mem t.l4 page' = some f → j = id ∧ page' = page := by
  have h := guarded_of_events hmap hboot hk hrun
  obtain ⟨hleads, hframe⟩ := h.userFrame hk hs hu hf
  have hheld : f ∈ w.held off id := by
    rw [held_of_space hs]
    exact hframe
  refine ⟨hheld, h.books.divided.used id f hheld, ?_,
    fun j t ht => h.userFrame_not_table hk hs hu hf ht, ?_⟩
  · intro hkernel
    exact hboot.not_mem_supply (h.books.kernelHeld_iff.1 hkernel)
      (h.books.divided.held_subset id hheld)
  · intro j t page' needWrite' ht hu' hf'
    obtain ⟨hleads', hframe'⟩ := h.userFrame hk ht hu' hf'
    have hj : j = id := by
      refine h.books.divided.apart j id f ?_ hheld
      rw [held_of_space ht]
      exact hframe'
    subst hj
    obtain rfl := Option.some.inj (hs.symm.trans ht)
    exact ⟨rfl, Page.path_injective ((h.books.spaces j s hs).order.once _ _ f hleads' hleads)⟩

/-! ## What others do -/

/-- The byte that a program finds at an address, if the processor lets it read there. -/
def userByte (mem : PhysMem) (l4 : PhysFrame) (v : VirtAddr) : Option Byte :=
  if pageAccessible mem l4 (Page.containing v).start false then readByte mem l4 v else none

/-- The space is there, and owns the same frames with the same contents. -/
def Kept (off : Fin 512) (w w' : World) (id : Owner) (s : AddrSpace) : Prop :=
  w'.space id = some s ∧ s.frames off w'.machine.mem = s.frames off w.machine.mem ∧
    ∀ x ∈ s.frames off w.machine.mem, w'.machine.mem x = w.machine.mem x

/-- An event keeps the spaces that it is not about. -/
theorem Guarded.kept (hmap : MapTo.Documented bootInfo mapTo) (hboot : Booted map cr3 m₀)
    (h : Guarded cr3 off m₀ w) (hk : KernelOnly off m₀.mem cr3) {e : Event}
    (ha : Admitted cr3 off m₀ w e) (hr : e.step mapTo cr3 off w = .ok w')
    (hs : w.space id = some s) (hnot : ¬ e.About w id) : Kept off w w' id s := by
  obtain ⟨a, hallowed, -, hstep, hother⟩ := h.exists_action hboot hk ha hr
  obtain ⟨hconcerns, hstore⟩ := hother id s hs hnot
  obtain ⟨hs', hmem⟩ := h.books.step_spares hmap hboot hallowed hstep hs hconcerns hstore
  have horder := (h.books.spaces id s hs).order
  have horder' := ((h.event hmap hboot hk ha hr).books.spaces id s hs').order
  refine ⟨hs', ?_, hmem⟩
  ext f
  rw [horder.mem_frames, horder'.mem_frames]
  exact exists_congr fun π =>
    AddrSpace.leads_frame fun x hx => hmem x (horder.mem_frames_of_isTable hx)

theorem Kept.trans {w'' : World} (h : Kept off w w' id s) (h' : Kept off w' w'' id s) :
    Kept off w w'' id s := by
  obtain ⟨-, hframes, hmem⟩ := h
  obtain ⟨hs'', hframes', hmem'⟩ := h'
  refine ⟨hs'', hframes'.trans hframes, fun x hx => ?_⟩
  rw [hmem' x (hframes ▸ hx), hmem x hx]

/-- **A run keeps the spaces** that none of its events is about. -/
theorem Guarded.kept_run (hmap : MapTo.Documented bootInfo mapTo) (hboot : Booted map cr3 m₀)
    (h : Guarded cr3 off m₀ w) (hk : KernelOnly off m₀.mem cr3) (hs : w.space id = some s)
    (hrest : Runs.Reach (Event.step mapTo cr3 off)
      (fun u e => Admitted cr3 off m₀ u e ∧ ¬ e.About u id) w w') :
    Guarded cr3 off m₀ w' ∧ Kept off w w' id s := by
  refine hrest.invariant (I := fun u => Guarded cr3 off m₀ u ∧ Kept off w u id s)
    ⟨h, hs, rfl, fun _ _ => rfl⟩ ?_
  rintro u e v ⟨hu, hkept⟩ ⟨ha, hnot⟩ hr
  exact ⟨hu.event hmap hboot hk ha hr, hkept.trans (hu.kept hmap hboot hk ha hr hkept.1 hnot)⟩

section Kept

variable (h : Guarded cr3 off m₀ w) (hk : KernelOnly off m₀.mem cr3) (hs : w.space id = some s)
  (hkept : Kept off w w' id s)
include h hk hs hkept

/-- What ring 3 could use it can still use, -/
theorem Kept.userWalk (hu : UserWalk w.machine.mem needWrite s.l4 page.path) :
    UserWalk w'.machine.mem needWrite s.l4 page.path := by
  refine hu.congr fun ρ j rest t hpath ht => ?_
  rw [hkept.2.2 t (h.onWay_mem_frames hk hs hu hpath ht)]

/-- at the same place, -/
theorem Kept.sameFrame (hu : UserWalk w.machine.mem needWrite s.l4 page.path)
    (hf : translatePage w.machine.mem s.l4 page = some f) :
    translatePage w'.machine.mem s.l4 page = some f := by
  refine RadixHeap.walk_mono ?_ hf
  rintro ρ j y z ⟨rest, hpath⟩ hy hz
  rw [List.append_assoc, List.singleton_append] at hpath
  rw [hkept.2.2 y (h.onWay_mem_frames hk hs hu hpath.symm hy)]
  exact hz

/-- and finds the same bytes there. -/
theorem Kept.userByte_eq {v : VirtAddr}
    (hmay : pageAccessible w.machine.mem s.l4 (Page.containing v).start false = true) :
    userByte w'.machine.mem s.l4 v = userByte w.machine.mem s.l4 v := by
  have hu := pageAccessible_iff.1 hmay
  have hu' := hkept.userWalk h hk hs hu
  obtain ⟨f, hf⟩ := hu.exists_frame
  rw [userByte, userByte, if_pos hmay, if_pos (pageAccessible_iff.2 hu'), readByte, readByte, hf,
    hkept.sameFrame h hk hs hu hf, Option.map_some, Option.map_some, byteAt, byteAt,
    hkept.2.2 f (h.userFrame hk hs hu hf).2]

end Kept

theorem Kept.symm (hs : w.space id = some s) (h : Kept off w w' id s) : Kept off w' w id s := by
  obtain ⟨-, hframes, hmem⟩ := h
  exact ⟨hs, hframes.symm, fun x hx => (hmem x (hframes ▸ hx)).symm⟩

/-- Ring 3 can do what it could, and sees what it saw. -/
theorem Kept.sees (h : Guarded cr3 off m₀ w) (h' : Guarded cr3 off m₀ w')
    (hk : KernelOnly off m₀.mem cr3) (hs : w.space id = some s) (hkept : Kept off w w' id s) :
    (∀ (page : Page) needWrite, pageAccessible w'.machine.mem s.l4 page.start needWrite =
      pageAccessible w.machine.mem s.l4 page.start needWrite) ∧
      ∀ v, userByte w'.machine.mem s.l4 v = userByte w.machine.mem s.l4 v := by
  have hback := hkept.symm hs
  have hmay : ∀ (page : Page) needWrite, pageAccessible w'.machine.mem s.l4 page.start needWrite =
      pageAccessible w.machine.mem s.l4 page.start needWrite := by
    intro page needWrite
    rw [Bool.eq_iff_iff, pageAccessible_iff, pageAccessible_iff]
    exact ⟨hback.userWalk h' hk hkept.1, hkept.userWalk h hk hs⟩
  refine ⟨hmay, fun v => ?_⟩
  by_cases hv : pageAccessible w.machine.mem s.l4 (Page.containing v).start false = true
  · exact hkept.userByte_eq h hk hs hv
  · rw [userByte, userByte, hmay, if_neg hv, if_neg hv]

/-- **A program finds its memory as it left it.**  Take any world that is reached and any run from
it on, with any number of other programs that store what they like and whatever the kernel does for
them, in which no event is about the space of one program: then the space is still there, the
program can read and write the same pages as before, and every byte it can read is the same. -/
theorem others_leave_no_trace (hmap : MapTo.Documented bootInfo mapTo) (hboot : Booted map cr3 m₀)
    (hk : KernelOnly off m₀.mem cr3)
    (hrun : Runs.Reach (Event.step mapTo cr3 off) (Admitted cr3 off m₀) (start cr3 m₀) w)
    (hs : w.space id = some s)
    (hrest : Runs.Reach (Event.step mapTo cr3 off)
      (fun u e => Admitted cr3 off m₀ u e ∧ ¬ e.About u id) w w') :
    w'.space id = some s ∧
      (∀ (page : Page) needWrite, pageAccessible w'.machine.mem s.l4 page.start needWrite =
        pageAccessible w.machine.mem s.l4 page.start needWrite) ∧
      ∀ v, userByte w'.machine.mem s.l4 v = userByte w.machine.mem s.l4 v := by
  have h := guarded_of_events hmap hboot hk hrun
  obtain ⟨h', hkept⟩ := h.kept_run hmap hboot hk hs hrest
  exact ⟨hkept.1, hkept.sees h h' hk hs⟩

end Steps

/-! ## Two programs -/

section Boot

variable {σ : Type} {A : FrameAllocator σ} {mapTo : MapTo σ} {S : A.Spec} {cr3 : PhysFrame}
  {own : Fin 512 → Bool} {m m' : Machine σ} {pages : List Page}

/-- Without an entry for it in a last-level table, ring 3 can use nothing. -/
theorem not_userWalk_of_leaves {mem : PhysMem} {r : PhysFrame} (h : LeavesFrom mem r allEntries ∅)
    (page : Page) : ¬ UserWalk mem false r page.path := by
  intro hu
  obtain ⟨t, ht, -, huser, -⟩ := hu.leaf
    (ρ := [page.start.p4Index, page.start.p3Index, page.start.p2Index]) rfl
  obtain ⟨flags, hmem, -⟩ := h _ _ t rfl ht huser
  exact hmem

/-- **`init_heap` maps nothing for ring 3.** -/
theorem mapHeapPages_leaves (hexact : S.Exact) (hmap : MapTo.Documented A mapTo)
    (hs : Space S cr3 allEntries own m) (h : pages.foldlM (mapHeapPage A mapTo cr3) m = .ok m')
    (hleaves : LeavesFrom m.mem cr3 allEntries ∅) : LeavesFrom m'.mem cr3 allEntries ∅ := by
  induction pages generalizing m with
  | nil =>
    cases h
    exact hleaves
  | cons page pages ih =>
    rw [List.foldlM_cons] at h
    obtain ⟨m₁, h₁, h⟩ := bind_eq_ok h
    obtain ⟨hone, -⟩ := mapHeapPage_spec hexact hmap hs h₁
    refine ih hone.space h ?_
    obtain ⟨f, m₂, ha, hto⟩ := mapHeapPage_eq_ok hmap h₁
    have hmem : m₂.mem = m.mem := (Machine.allocate_eq_some ha).2.1
    obtain ⟨hs₂, -, hfree, hused, -⟩ := hs.allocate ha
    intro ρ j t hρ ht hu
    obtain ⟨flags, hflags, huser, -⟩ := (mapPath_permissions hs₂ plain_kernelFlags
      (show page.path.length = 4 from rfl) (fun _ _ => rfl) (hmem ▸ hs.not_isTable hfree) hused
      (hmem ▸ hleaves) hto).1 ρ j t hρ ht hu
    -- the page just mapped is not the user's
    rcases hflags with heq | hflags
    · rw [(Prod.mk.inj heq).2] at huser
      exact absurd huser (by decide)
    · exact hflags.elim

end Boot

section Programs

variable {m₀ : Machine BootInfoFrameAllocator} {w : World}

/-- The machine boots, with nothing mapped for ring 3. -/
theorem exists_booted_kernelOnly {n : ℕ} (hn : n ≤ 4096) : ∃ m₀, Booted heapMap 1 m₀ ∧
    KernelOnly 3 m₀.mem 1 ∧ bootInfo.Supplies n m₀.frames := by
  have hmap : MapTo.Documented bootInfo (documentedMapTo bootInfo) := fun _ _ _ _ _ _ => rfl
  obtain ⟨m₀, hheap, hsup⟩ := exists_initHeap_bootloaderMachine hn
  refine ⟨m₀, booted_of_initHeap hmap rfl space_bootloaderMachine hheap, ?_, hsup⟩
  have hnone : LeavesFrom bootMemory 1 allEntries ∅ := by
    intro ρ j t hρ ht
    rcases tableWalk_bootMemory ht with ⟨rfl, -⟩ | ⟨rfl, -⟩
    · cases hρ
    · cases hρ
  exact fun page _ => not_userWalk_of_leaves
    (mapHeapPages_leaves bootInfoSpec_exact hmap space_bootloaderMachine hheap hnone) page

/-- Along entries that have the flags, whichever of them are looked at, CPL 3 is let through. -/
theorem userWalk_of_mapped {mem : PhysMem} {r f : PhysFrame} {vis : Fin 512 → Bool}
    {path : List (Fin 512)} {flags : Word} (hm : MapsTo mem r vis path f)
    (hg : Granted mem r vis path flags) (hu : PageTableEntry.user flags = true) {needWrite : Bool}
    (hw : needWrite = true → PageTableEntry.writable flags = true) :
    UserWalk mem needWrite r path := by
  suffices hsuff : ∀ rest ρ t, path = ρ ++ rest → tableWalk mem r vis ρ = some t →
      UserWalk mem needWrite t rest from hsuff path [] r rfl rfl
  intro rest
  induction rest with
  | nil => intro ρ t _ _; trivial
  | cons i rest ih =>
    intro ρ t hpath ht
    have hpre : ρ ++ [i] <+: path := ⟨rest, by rw [hpath, List.append_assoc, List.singleton_append]⟩
    obtain ⟨c, hc, -⟩ := hm.take hpre
    obtain ⟨t', ht', hnext⟩ := RadixHeap.walk_concat_eq_some.1 hc
    obtain rfl := Option.some.inj (ht.symm.trans ht')
    obtain ⟨hne, -⟩ := PageTableEntry.next_eq_some.1 hnext
    rw [view_of_ne_zero hne] at hnext
    obtain ⟨-, hh, hframe⟩ := PageTableEntry.next_eq_some.1 hnext
    have hbits := PageTableEntry.contains_iff.1 (hg ρ i t hpre ht)
    refine ⟨⟨hm.present ρ i t hpre ht, hbits 2 hu, fun hneed => hbits 1 (hw hneed), hh⟩, ?_⟩
    rw [hframe]
    exact ih (ρ ++ [i]) c (by rw [hpath, List.append_assoc, List.singleton_append]) hc

/-- A page for ring 3 can be mapped into a new space. -/
theorem exists_mapDemoPage {m m₁ : Machine BootInfoFrameAllocator} {cr3 l4 : PhysFrame} {n : ℕ}
    (hv : bootInfoSpec.valid m.frames) (hcr3 : cr3 ∉ bootInfoSpec.free m.frames)
    (hnew : newAddressSpace bootInfo m cr3 3 = .ok (l4, m₁))
    (hsup : bootInfo.Supplies (n + 4) m₁.frames) :
    ∃ m₂, mapFreshPage bootInfo (documentedMapTo bootInfo) .noFramesForDemoPage .mapDemoPageFailed
        l4 isolatedUserPage demoFlags (Fill.code []) m₁ = .ok m₂ ∧
      (∀ needWrite, UserWalk m₂.mem needWrite l4 isolatedUserPage.path) ∧
      bootInfo.Supplies n m₂.frames := by
  have hfl : PageTableEntry.Plain demoFlags := by decide
  obtain ⟨hspace, hl4, -, -⟩ := newAddressSpace_own hv hcr3 (fun _ hi => Or.inl hi) hnew
  obtain ⟨-, -, -, -, hentries⟩ := newAddressSpace_eq_ok hnew
  have hconf : Confined cr3 3 m.mem m₁.mem ⟨l4, (0, 0)⟩ :=
    Confined.create hv hcr3 (fun _ _ => rfl) hnew
  have hown : owned 3 isolatedUserPage.start.p4Index = true := by decide
  have hvis : ∀ i ∈ isolatedUserPage.path.head?, owned 3 i = true := by
    intro i hi
    obtain rfl := Option.some.inj hi
    exact hown
  obtain ⟨f, m₂, ha, hsup₂⟩ := Machine.exists_allocate_eq_some hsup
  have hmem : m₂.mem = m₁.mem := (Machine.allocate_eq_some ha).2.1
  obtain ⟨hspace₂, -, hfree, hused, -⟩ := hspace.allocate ha
  have hf : ¬ IsTable m₂.mem l4 (owned 3) f := hmem ▸ hspace.not_isTable hfree
  have hmappable : Mappable m₂.mem l4 (owned 3) isolatedUserPage.path := by
    refine RadixHeap.holed_cons_iff.2 (Or.inl ?_)
    rw [view_apply fun _ => hown, hmem, hentries (fun hc => hcr3 (hc ▸ hl4)), if_pos hown]
  obtain ⟨m₃, hto, hsup₃⟩ := exists_mapPath_of_mappable (PageTableEntry.setFrame f demoFlags) hfl
    (show isolatedUserPage.path.length = 4 from rfl) hvis hspace₂ hmappable hsup₂
  have hpage := mapPath_spec hspace₂ hfl rfl hvis hf hused hto
  obtain ⟨-, hgranted⟩ :=
    mapPath_permissions hspace₂ hfl rfl hvis hf hused (hmem ▸ hconf.leaves) hto
  refine ⟨m₃.write (m₃.mem.writeBytes f []), ?_, fun needWrite => ?_, hsup₃⟩
  · rw [mapFreshPage, ha]
    show (expectOk _ (documentedMapTo bootInfo m₂ l4 isolatedUserPage f demoFlags) >>= _) = _
    rw [documentedMapTo, plain_and hfl, hto]
    rfl
  · -- the frame that is filled is none of the tables
    refine (userWalk_of_mapped hpage.maps hgranted (by decide) fun _ => by decide).congr ?_
    intro ρ j rest t hpath ht
    have hlen : ρ.length ≤ 3 := by
      have hfour := congrArg List.length hpath
      rw [List.length_append, List.length_cons,
        show isolatedUserPage.path.length = 4 from rfl] at hfour
      omega
    have htable : IsTable m₃.mem l4 (owned 3) t := ⟨ρ, hlen, (hpage.space.walk_owned
      (fun _ hi => hi) (by omega) (owned_of_concat ⟨j :: rest, hpath.symm⟩ hvis)).1 ht⟩
    rw [Machine.write_mem, PhysMem.writeBytes_of_ne]
    rintro rfl
    exact hpage.ext.not_isTable hf hused htable

/-- A program can be set up in every world with five frames left. -/
theorem exists_program {n : ℕ} (hboot : Booted heapMap 1 m₀) (h : Guarded 1 3 m₀ w)
    (hsup : bootInfo.Supplies (n + 5) w.machine.frames) :
    ∃ w' l4, Runs.Reach (Event.step (documentedMapTo bootInfo) 1 3)
        (fun u e => Admitted 1 3 m₀ u e ∧ ∀ id, w.space id ≠ none → ¬ e.About u id) w w' ∧
      w'.space (.unspawned l4) = some ⟨l4, (0, 0)⟩ ∧ w.space (.unspawned l4) = none ∧
      (∀ needWrite, UserWalk w'.machine.mem needWrite l4 isolatedUserPage.path) ∧
      bootInfo.Supplies n w'.machine.frames := by
  obtain ⟨l4, m₁, hnew, hsup₁⟩ := exists_newAddressSpace 1 3 hsup
  have hactive := h.books.active_not_mem hboot (Or.inl rfl)
  obtain ⟨-, hl4, -, -⟩ := newAddressSpace_own h.books.valid hactive (fun _ hi => Or.inl hi) hnew
  obtain ⟨m₂, hpage, hu, hsup₂⟩ := exists_mapDemoPage h.books.valid hactive hnew hsup₁
  have hfresh : ∀ id s, w.space id = some s → s.l4 ≠ l4 := by
    rintro id s hs rfl
    exact (h.books.within hs).used s.l4 (Or.inl rfl) hl4
  have hnone : w.space (.unspawned l4) = none := by
    refine if_neg fun hmem => ?_
    exact hfresh (.unspawned l4) _ (if_pos hmem) rfl
  have hmake : Event.step (documentedMapTo bootInfo) 1 3 w (.kernel (.newAddressSpace 1)) =
      .ok { w with machine := m₁, unspawned := insert l4 w.unspawned } := by
    rw [Event.step, step, hnew]
    rfl
  have hmap : Event.step (documentedMapTo bootInfo) 1 3
      { w with machine := m₁, unspawned := insert l4 w.unspawned }
      (.kernel (.mapPage .noFramesForDemoPage .mapDemoPageFailed l4 isolatedUserPage demoFlags
        (Fill.code []))) =
      .ok { w with machine := m₂, unspawned := insert l4 w.unspawned } := by
    rw [Event.step, step, hpage]
    rfl
  have hs : ∀ m : Machine BootInfoFrameAllocator, ({ w with
      machine := m, unspawned := insert l4 w.unspawned } : World).space (.unspawned l4) =
        some ⟨l4, (0, 0)⟩ := fun _ => if_pos (Finset.mem_insert_self l4 w.unspawned)
  have hother : ∀ id s, w.space id = some s → ({ w with
      machine := m₁, unspawned := insert l4 w.unspawned } : World).space id = some s := by
    intro id s hold
    rw [← hold]
    cases id with
    | thread i => rfl
    | unspawned r =>
      have hr : r ≠ l4 := by
        rintro rfl
        rw [hnone] at hold
        cases hold
      exact space_unspawned_congr (Finset.mem_insert.trans (or_iff_right hr))
  have hlive : Admitted 1 3 m₀ { w with machine := m₁, unspawned := insert l4 w.unspawned }
      (.kernel (.mapPage .noFramesForDemoPage .mapDemoPageFailed l4 isolatedUserPage demoFlags
        (Fill.code []))) :=
    ⟨⟨⟨_, _, hs m₁, rfl⟩, by decide, by decide⟩,
      show (isolatedUserPage.start.p4Index : ℕ) < 256 by decide⟩
  refine ⟨_, l4, (Runs.Reach.refl.tail ⟨⟨Or.inl rfl, trivial⟩, fun id hid => hid⟩ hmake).tail
    ⟨hlive, ?_⟩ hmap, hs m₂, hnone, hu, hsup₂⟩
  rintro id hid ⟨s, hs', hl⟩
  obtain ⟨s', hs''⟩ := Option.ne_none_iff_exists'.1 hid
  obtain rfl := Option.some.inj ((hother id s' hs'').symm.trans hs')
  exact hfresh id s' hs'' hl

/-- A program can store to its page. -/
theorem exists_userStore (mapTo : MapTo BootInfoFrameAllocator) (cr3 : PhysFrame) (off : Fin 512)
    {l4 : PhysFrame} {page : Page} (hu : UserWalk w.machine.mem true l4 page.path)
    (words : Fin 512 → Word) :
    ∃ w', Event.step mapTo cr3 off w (.userStore l4 page words) = .ok w' := by
  obtain ⟨f, hf⟩ := hu.exists_frame
  refine ⟨{ w with machine := w.machine.write (Function.update w.machine.mem f words) }, ?_⟩
  rw [Event.step, pageAccessible_iff.2 hu]
  simp only [Bool.not_true, Bool.false_eq_true, if_false, hf]

/-- The words that the second program stores. -/
def ones : Fin 512 → Word := fun _ => 0xffffffffffffffff

/-- One program has been set up, then another one, which overwrites its page. -/
theorem exists_two_programs : ∃ (m₀ : Machine BootInfoFrameAllocator) (w u w' : World)
    (l4 l4' : PhysFrame), Booted heapMap 1 m₀ ∧ KernelOnly 3 m₀.mem 1 ∧
    Runs.Reach (Event.step (documentedMapTo bootInfo) 1 3) (Admitted 1 3 m₀) (start 1 m₀) w ∧
    w.space (.unspawned l4) = some ⟨l4, (0, 0)⟩ ∧
    (∀ needWrite, UserWalk w.machine.mem needWrite l4 isolatedUserPage.path) ∧
    Event.step (documentedMapTo bootInfo) 1 3 u (.userStore l4' isolatedUserPage ones) = .ok w' ∧
    Runs.Reach (Event.step (documentedMapTo bootInfo) 1 3)
      (fun u e => Admitted 1 3 m₀ u e ∧ ¬ e.About u (.unspawned l4)) w w' := by
  have hmap : MapTo.Documented bootInfo (documentedMapTo bootInfo) := fun _ _ _ _ _ _ => rfl
  obtain ⟨m₀, hboot, hk, hsup⟩ := exists_booted_kernelOnly (n := 49) (by decide)
  obtain ⟨w, l4, hrun, hs, -, hu, hsup'⟩ :=
    exists_program (n := 44) hboot (guarded_start hboot) hsup
  have hrun : Runs.Reach (Event.step (documentedMapTo bootInfo) 1 3) (Admitted 1 3 m₀)
      (start 1 m₀) w := hrun.mono fun _ _ h => h.1
  have hguard := guarded_of_events hmap hboot hk hrun
  obtain ⟨u, l4', hrun', hs', hnone, hu', -⟩ := exists_program (n := 39) hboot hguard hsup'
  have hrest : Runs.Reach (Event.step (documentedMapTo bootInfo) 1 3)
      (fun u e => Admitted 1 3 m₀ u e ∧ ¬ e.About u (.unspawned l4)) w u :=
    hrun'.mono fun _ _ h => ⟨h.1, h.2 (.unspawned l4) (by rw [hs]; exact Option.some_ne_none _)⟩
  obtain ⟨w', hstore⟩ := exists_userStore (documentedMapTo bootInfo) 1 3 (hu' true) ones
  have hlive : Admitted 1 3 m₀ u (.userStore l4' isolatedUserPage ones) := ⟨_, _, hs', rfl⟩
  refine ⟨m₀, w, u, w', l4, l4', hboot, hk, hrun, hs, hu, hstore, hrest.tail ⟨hlive, ?_⟩ hstore⟩
  rintro ⟨s, hs'', hl⟩
  -- the first program has another table
  obtain ⟨-, hkept⟩ := hguard.kept_run hmap hboot hk hs hrest
  obtain rfl := Option.some.inj (hkept.1.symm.trans hs'')
  obtain rfl : l4 = l4' := hl
  rw [hnone] at hs
  cases hs

theorem user_frames_private_program : ∃ (w : World) (l4 f : PhysFrame),
    UserWalk w.machine.mem true l4 isolatedUserPage.path ∧
    translatePage w.machine.mem l4 isolatedUserPage = some f ∧
    Place.Holds 1 3 w f (.space (.unspawned l4)) ∧ ¬ KernelHeld w.machine.mem 1 f := by
  obtain ⟨m₀, w, -, -, l4, -, hboot, hk, hrun, hs, hu, -⟩ := exists_two_programs
  obtain ⟨f, hf⟩ := (hu true).exists_frame
  obtain ⟨hplace, -, hkernel, -⟩ :=
    user_frames_private (fun _ _ _ _ _ _ => rfl) hboot hk hrun hs (hu true) hf
  exact ⟨w, l4, f, hu true, hf, hplace, hkernel⟩

theorem programs_need_no_trust_store : ∃ (m₀ : Machine BootInfoFrameAllocator) (u w : World)
    (l4 : PhysFrame),
    Event.step (documentedMapTo bootInfo) 1 3 u (.userStore l4 isolatedUserPage ones) = .ok w ∧
    Runs.Reach (World.step (documentedMapTo bootInfo) 1 3) (Allowed 1 3) (start 1 m₀) w := by
  obtain ⟨m₀, w, u, w', l4, l4', hboot, hk, hrun, -, -, hstore, hrest⟩ := exists_two_programs
  exact ⟨m₀, u, w', l4', hstore, programs_need_no_trust (fun _ _ _ _ _ _ => rfl) hboot hk
    (hrun.trans (hrest.mono fun _ _ h => h.1))⟩

theorem others_leave_no_trace_store : ∃ (w u w' : World) (l4 l4' : PhysFrame),
    UserWalk w.machine.mem true l4 isolatedUserPage.path ∧
    Event.step (documentedMapTo bootInfo) 1 3 u (.userStore l4' isolatedUserPage ones) = .ok w' ∧
    ∀ v, userByte w'.machine.mem l4 v = userByte w.machine.mem l4 v := by
  obtain ⟨m₀, w, u, w', l4, l4', hboot, hk, hrun, hs, hu, hstore, hrest⟩ := exists_two_programs
  exact ⟨w, u, w', l4, l4', hu true, hstore,
    (others_leave_no_trace (fun _ _ _ _ _ _ => rfl) hboot hk hrun hs hrest).2.2⟩

end Programs

end World
