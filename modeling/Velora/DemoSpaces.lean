/-
# Starting the demos

`spawn_isolated_demo`, `spawn_open_read_demo`, `spawn_bad_pointer_demo` and
`spawn_spawn_wait_demo` make a new address space, map a page there with the machine code of the
demo, and start a thread that drops to ring 3 at the start of the page.

The thread finds the code at the address for which it has been assembled, may write to all of the
page, and has no open files (`World.Guarded.started`).  The pages of its kernel stack, which are
shared with its space after the code has been put there, change nothing of that.
-/
import Velora.Shellcode
import Velora.UserMode

open MachineCode hiding Word

/-! ## The code -/

/-- A panic of the kernel while a demo is set up. -/
def orKernelPanic {α : Type} (x : Except Panic α) : Except BuildPanic α := x.mapError .kernel

section Code

variable {σ : Type} (A : FrameAllocator σ) (mapTo : MapTo σ)

/-- What the functions that start a demo have in common.  The heap gives `stackBase` for the stack
of the thread, which starts in the function `entry`. -/
def System.spawnDemo (cr3 : PhysFrame) (off : Fin 512) (stackBase : ℕ) (entry : Entry)
    (addr : Word) (build : Except BuildPanic (List Byte)) (run : Bool) (s : System σ) :
    Except BuildPanic (Option Pid × System σ) := do
  let (l4, machine) ← orKernelPanic (newAddressSpace A s.machine cr3 off)
  let code ← build
  let machine ← orKernelPanic (mapShellcodePage A mapTo l4 addr.toNat code machine)
  if run then
    let (pid, s) ← orKernelPanic
      (System.spawnIsolatedInner mapTo cr3 stackBase entry none l4 { s with machine })
    return (some pid, s)
  else
    return (none, { s with machine })

/-- `ISOLATED_USER_PAGE_ADDR` -/
def isolatedUserPageAddr : Word := 0x600000000000

/-- `spawn_isolated_demo` -/
def System.spawnIsolatedDemo (cr3 : PhysFrame) (off : Fin 512) (stackBase : ℕ) (entry : Entry)
    (run : Bool) (s : System σ) : Except BuildPanic (System σ) := do
  let (_, s) ← s.spawnDemo A mapTo cr3 off stackBase entry isolatedUserPageAddr
    (buildEchoShellcode isolatedUserPageAddr) run
  return s

/-- `OPEN_READ_DEMO_ADDR` -/
def openReadDemoAddr : Word := 0x750000000000

/-- `spawn_open_read_demo` -/
def System.spawnOpenReadDemo (cr3 : PhysFrame) (off : Fin 512) (stackBase : ℕ) (entry : Entry)
    (run : Bool) (s : System σ) : Except BuildPanic (Option Pid × System σ) :=
  s.spawnDemo A mapTo cr3 off stackBase entry openReadDemoAddr
    (buildOpenReadShellcode openReadDemoAddr) run

/-- `BAD_POINTER_DEMO_ADDR` -/
def badPointerDemoAddr : Word := 0x7a0000000000

/-- `spawn_bad_pointer_demo` -/
def System.spawnBadPointerDemo (cr3 : PhysFrame) (off : Fin 512) (stackBase : ℕ) (entry : Entry)
    (run : Bool) (s : System σ) : Except BuildPanic (Option Pid × System σ) :=
  s.spawnDemo A mapTo cr3 off stackBase entry badPointerDemoAddr (.ok buildBadPointerShellcode) run

/-- `SPAWN_WAIT_DEMO_ADDR` -/
def spawnWaitDemoAddr : Word := 0x7c0000000000

/-- `spawn_spawn_wait_demo` -/
def System.spawnSpawnWaitDemo (cr3 : PhysFrame) (off : Fin 512) (stackBase : ℕ) (entry : Entry)
    (run : Bool) (s : System σ) : Except BuildPanic (Option Pid × System σ) :=
  s.spawnDemo A mapTo cr3 off stackBase entry spawnWaitDemoAddr
    (buildSpawnWaitShellcode spawnWaitDemoAddr) run

/-- `enter_ring3`: the registers with which a program starts.  Nothing is said about the others. -/
def EntersRing3 (entry stackTop argsPtr argsLen : Word) (c : Core) : Prop :=
  c.rip = entry ∧ c.reg rsp = stackTop ∧ c.reg rdi = argsPtr ∧ c.reg rsi = argsLen

/-- What `run_isolated_demo`, `run_open_read_demo`, `run_bad_pointer_demo` and
`run_spawn_wait_demo` do, each with the address of its page. -/
def RunsDemo (addr : Word) (c : Core) : Prop := EntersRing3 addr (addr + 4096 - 16) 0 0 c

/-- Inversion of a demo that has been started. -/
theorem System.spawnDemo_eq_ok {cr3 : PhysFrame} {off : Fin 512} {stackBase : ℕ} {entry : Entry}
    {addr : Word} {build : Except BuildPanic (List Byte)} {s s' : System σ} {pid : Option Pid}
    (h : s.spawnDemo A mapTo cr3 off stackBase entry addr build true = .ok (pid, s')) :
    ∃ l4 m₁ code m₂ pid', newAddressSpace A s.machine cr3 off = .ok (l4, m₁) ∧ build = .ok code ∧
      mapShellcodePage A mapTo l4 addr.toNat code m₁ = .ok m₂ ∧
      System.spawnIsolatedInner mapTo cr3 stackBase entry none l4 { s with machine := m₂ } =
        .ok (pid', s') ∧ pid = some pid' := by
  have hlift : ∀ {α : Type} {x : Except Panic α} {a : α}, orKernelPanic x = .ok a → x = .ok a := by
    intro α x a hx
    cases x with
    | error p => cases hx
    | ok b => exact congrArg Except.ok (Except.ok.inj hx)
  obtain ⟨⟨l4, m₁⟩, hnew, h⟩ := bind_eq_ok h
  obtain ⟨code, hbuild, h⟩ := bind_eq_ok h
  obtain ⟨m₂, hpage, h⟩ := bind_eq_ok h
  obtain ⟨⟨pid', s''⟩, hspawn, h⟩ := bind_eq_ok h
  cases h
  exact ⟨l4, m₁, code, m₂, pid', hlift hnew, hbuild, hlift hpage, hlift hspawn, rfl⟩

end Code

/-! ## A page with code -/

/-- An entry that lets CPL 3 through still does so when it gets more flags, to the same place. -/
theorem Grants.grows {needWrite : Bool} {e e' : Word} (h : Grants needWrite e)
    (hgrows : PageTableEntry.Grows e e') :
    Grants needWrite e' ∧ PageTableEntry.addrFrame e' = PageTableEntry.addrFrame e := by
  obtain ⟨hp, hu, hw, hh⟩ := h
  have hflags := contains_requiredFlags.2 ⟨hp, hu, hw⟩
  obtain ⟨hp', hu', hw'⟩ := contains_requiredFlags.1
    (hgrows.contains (PageTableEntry.ne_zero_of_present hp) hflags)
  obtain ⟨-, hh', haddr⟩ := PageTableEntry.follow_eq_some.1
    (hgrows.follow (PageTableEntry.follow_eq_some.2 ⟨hp, hh, rfl⟩))
  exact ⟨⟨hp', hu', hw', hh'⟩, haddr⟩

/-- **Where the entries on its way only get more flags**, CPL 3 is let through to the same frame. -/
theorem UserWalk.grows {mem : PhysMem} {needWrite : Bool} {r : PhysFrame}
    {path : List (Fin 512)} (h : UserWalk mem needWrite r path) (mem' : PhysMem)
    (hentry : ∀ ρ j rest t, path = ρ ++ j :: rest →
      RadixHeap.walk PageTableEntry.follow mem r ρ = some t →
        PageTableEntry.Grows (mem t j) (mem' t j)) :
    UserWalk mem' needWrite r path ∧ RadixHeap.walk PageTableEntry.follow mem' r path =
      RadixHeap.walk PageTableEntry.follow mem r path := by
  induction path generalizing r with
  | nil => exact ⟨trivial, rfl⟩
  | cons i path ih =>
    obtain ⟨hgrants, hrest⟩ := h
    obtain ⟨hgrants', haddr⟩ := hgrants.grows (hentry [] i path r rfl rfl)
    have hfollow : PageTableEntry.follow (mem r i) = some (PageTableEntry.addrFrame (mem r i)) :=
      PageTableEntry.follow_eq_some.2 ⟨hgrants.1, hgrants.2.2.2, rfl⟩
    have hfollow' : PageTableEntry.follow (mem' r i) = some (PageTableEntry.addrFrame (mem r i)) :=
      PageTableEntry.follow_eq_some.2 ⟨hgrants'.1, hgrants'.2.2.2, haddr⟩
    obtain ⟨hwalk, heq⟩ := ih hrest fun ρ j rest t hpath ht => by
      refine hentry (i :: ρ) j rest t (by rw [hpath]; rfl) ?_
      rw [RadixHeap.walk_cons, hfollow]
      exact ht
    refine ⟨⟨hgrants', haddr ▸ hwalk⟩, ?_⟩
    rw [RadixHeap.walk_cons, RadixHeap.walk_cons, hfollow, hfollow']
    exact heq

section Pages

variable {σ : Type} {A : FrameAllocator σ} {S : A.Spec} {mapTo : MapTo σ} {cr3 : PhysFrame}
  {off : Fin 512} {m m' : Machine σ} {s : AddrSpace} {page : Page} {flags : Word}

/-- **A page that is mapped for ring 3** can be read and written there, and is filled. -/
theorem mapFreshPage_user (hmap : MapTo.Documented A mapTo) (horder : s.InOrder S off m)
    {P : Set Mapping} (hleaves : LeavesFrom m.mem s.l4 (owned off) P) {noFrames failed : Panic}
    {fill : Fill} (hown : owned off page.start.p4Index = true) (hfl : PageTableEntry.Plain flags)
    (hu : PageTableEntry.user flags = true) (hw : PageTableEntry.writable flags = true)
    (hr : mapFreshPage A mapTo noFrames failed s.l4 page flags fill m = .ok m') :
    ∃ f mem, UserWalk m'.mem true s.l4 page.path ∧ translatePage m'.mem s.l4 page = some f ∧
      m'.mem f = fill.write mem f f := by
  obtain ⟨⟨f, m₁⟩, ha, hr⟩ := bind_eq_ok hr
  obtain ⟨m₂, hto, hr⟩ := bind_eq_ok hr
  cases hr
  have ha := Option.expect_eq_ok ha
  have hto := expectOk_eq_ok hto
  rw [hmap _ _ _ _ _ hfl, documentedMapTo, plain_and hfl] at hto
  have hmem : m₁.mem = m.mem := (Machine.allocate_eq_some ha).2.1
  obtain ⟨hspace, -, hfree, hused, -⟩ := horder.space.allocate ha
  have hf : ¬ IsTable m₁.mem s.l4 (owned off) f := hmem ▸ horder.space.not_isTable hfree
  have hvis : ∀ i ∈ page.path.head?, owned off i = true := by
    intro i hi
    obtain rfl := Option.some.inj hi
    exact hown
  have hpage := mapPath_spec hspace hfl rfl hvis hf hused hto
  obtain ⟨-, hgranted⟩ := mapPath_permissions hspace hfl rfl hvis hf hused (hmem ▸ hleaves) hto
  have hwalk : UserWalk m₂.mem true s.l4 page.path :=
    World.userWalk_of_mapped hpage.maps hgranted hu fun _ => hw
  have hfollow := (hpage.space.walk_owned (fun _ hi => hi) (le_refl 4) hvis).2 hpage.maps.walk
  -- the frame that is filled is none of the tables
  obtain ⟨hwalk', hsame⟩ := hwalk.grows (fill.write m₂.mem f) fun ρ j rest t hpath ht => by
    have hlen : ρ.length ≤ 3 := by
      have hfour := congrArg List.length hpath
      rw [List.length_append, List.length_cons, show page.path.length = 4 from rfl] at hfour
      omega
    have htable : IsTable m₂.mem s.l4 (owned off) t := ⟨ρ, hlen, (hpage.space.walk_owned
      (fun _ hi => hi) (by omega) (owned_of_concat ⟨j :: rest, hpath.symm⟩ hvis)).1 ht⟩
    rw [fill.other]
    · exact .refl _
    · rintro rfl
      exact hpage.ext.not_isTable hf hused htable
  exact ⟨f, m₂.mem, hwalk', hsame.trans hfollow, rfl⟩

/-- **Sharing pages of the heap** extends the tables of the space, lets nothing more through to ring
3, and does nothing else. -/
theorem shareStackLoop_extends {pool : Set PhysFrame} {lent : Page → Option PhysFrame}
    (hexact : S.Exact) (hmap : MapTo.Documented A mapTo) {firstPage : Page} {l : List ℕ}
    (horder : s.InOrder S off m) (hw : s.Within S off pool m)
    (hlent : ∀ mem : PhysMem, (∀ x, x ∉ pool → mem x = m.mem x) →
      ∀ page, translatePage mem cr3 page = lent page)
    (hpages : ∀ i ∈ l, ∀ page, firstPage.add i = .ok page →
      owned off page.start.p4Index = true ∧ inRange s.borrowed page.start.val = true ∧
        ∀ f, lent page = some f → f ∉ pool)
    (hrun : l.foldlM (shareStackPage mapTo cr3 s.l4 firstPage) m = .ok m') :
    Extends S s.l4 (owned off) m m' ∧ ∀ P, LeavesFrom m.mem s.l4 (owned off) P →
      LeavesFrom m'.mem s.l4 (owned off) P := by
  induction l generalizing m with
  | nil =>
    cases hrun
    exact ⟨.refl, fun _ hP => hP⟩
  | cons i l ih =>
    rw [List.forall_mem_cons] at hpages
    rw [List.foldlM_cons] at hrun
    obtain ⟨m₁, h₁, hrun⟩ := bind_eq_ok hrun
    obtain ⟨page, f, hpage, hf, hto⟩ := shareStackPage_eq_ok hmap h₁
    rw [hlent m.mem fun _ _ => rfl] at hf
    obtain ⟨hown, hrange, hout⟩ := hpages.1 page hpage
    have hfree : f ∉ S.free m.frames := fun hc => hout f hf (hw.free hc)
    have hframe : f ∉ s.frames off m.mem := fun hc => hout f hf (hw.frames hc)
    obtain ⟨⟨taken, hone⟩, -, -⟩ := horder.mapBorrowed hexact hw.used plain_kernelFlags hown hrange
      hfree hframe hto
    have hvis : ∀ i ∈ page.path.head?, owned off i = true := by
      intro i hi
      obtain rfl := Option.some.inj hi
      exact hown
    have htable : ¬ IsTable m.mem s.l4 (owned off) f :=
      fun hc => hframe (horder.mem_frames_of_isTable hc)
    have hmapped := mapPath_spec horder.space plain_kernelFlags rfl hvis htable hfree hto
    obtain ⟨hext, hleaves⟩ := ih hone.order (hw.grown hone)
      (fun mem hmem => hlent mem fun x hx => (hmem x hx).trans (hw.outside hone x hx))
      hpages.2 hrun
    refine ⟨hmapped.ext.trans hext, fun P hP => hleaves P fun ρ j t hρ ht hu => ?_⟩
    -- the entry that is new is not the user's
    obtain ⟨flags, hmem, hflags⟩ := (mapPath_permissions horder.space plain_kernelFlags rfl hvis
      htable hfree hP hto).1 ρ j t hρ ht hu
    rcases Set.mem_insert_iff.1 hmem with heq | hmem
    · rw [(Prod.mk.inj heq).2] at hflags
      exact absurd hflags.1 (by decide)
    · exact ⟨flags, hmem, hflags⟩

end Pages

namespace World

variable {mapTo : MapTo BootInfoFrameAllocator} {map : MemoryMap} {cr3 : PhysFrame} {off : Fin 512}
  {m₀ m' : Machine BootInfoFrameAllocator} {w w' : World} {s : AddrSpace}

/-- The same for a thread that is started. -/
theorem Books.shareStack_extends (hmap : MapTo.Documented bootInfo mapTo)
    (hboot : Booted map cr3 m₀) (h : Books cr3 off m₀ w) {l4 : PhysFrame} {stackBase : ℕ}
    (hl4 : l4 ∈ w.unspawned) (hblock : HeapBlock stackBase)
    (hshare : shareStack mapTo cr3 l4 stackBase w.machine = .ok m') :
    Extends bootInfoSpec l4 (owned off) w.machine m' ∧
      ∀ P, LeavesFrom w.machine.mem l4 (owned off) P → LeavesFrom m'.mem l4 (owned off) P := by
  obtain ⟨v, hv, hrun⟩ := shareStack_eq_ok hshare
  have hs : w.space (.unspawned l4) = some ⟨l4, (0, 0)⟩ := if_pos hl4
  have horder := (h.spaces _ _ hs).order
  have hlow : (stackBase, stackBase + threadStackSize).2 ≤ 0x800000000000 := hblock.lower
  have hsub := horder.frames_lend_subset hlow
  have hw := h.within hs
  refine shareStackLoop_extends (s := ⟨l4, (stackBase, stackBase + threadStackSize)⟩)
    bootInfoSpec_exact hmap (horder.lend hlow)
    ⟨fun f hf => hw.used f (hsub hf), hw.free, hsub.trans hw.frames⟩ (h.lent hboot) ?_ hrun
  intro i hi page hpage
  have hrange := AddrSpace.inRange_of_add hblock.aligned hblock.lower hv (List.mem_range.1 hi) hpage
  obtain ⟨hown, hout⟩ := h.stackPages hmap hboot hl4 hblock hshare page hrange
  exact ⟨hown, hrange, hout⟩

/-- What ring 3 can use stays as it is while the tables of the space are extended. -/
theorem Guarded.sees_of_extends (h : Guarded cr3 off m₀ w) (hk : KernelOnly off m₀.mem cr3)
    {id : Owner} (hs : w.space id = some s)
    (hext : Extends bootInfoSpec s.l4 (owned off) w.machine m') {page : Page} {needWrite : Bool}
    {f : PhysFrame} (hu : UserWalk w.machine.mem needWrite s.l4 page.path)
    (hf : translatePage w.machine.mem s.l4 page = some f) :
    UserWalk m'.mem needWrite s.l4 page.path ∧ translatePage m'.mem s.l4 page = some f ∧
      m'.mem f = w.machine.mem f := by
  have hused := (h.books.within hs).used
  obtain ⟨hu', hsame⟩ := hu.grows m'.mem fun ρ j rest t hpath ht =>
    hext.grows t (hused t (h.onWay_mem_frames hk hs hu hpath ht)) j
  refine ⟨hu', hsame.trans hf, hext.untouched f (Or.inl ?_) ?_⟩
  · exact hused f (h.userFrame hk hs hu hf).2
  · exact h.userFrame_not_table hk hs hu hf hs

/-! ## A demo that has been started -/

/-- The page of a demo: in the lower half, below an entry of the level-4 table that is not
shared. -/
structure DemoPage (off : Fin 512) (addr : Word) : Prop where
  aligned : addr.toNat % 4096 = 0
  lower : addr.toNat < 0x800000000000
  apart : owned off ⟨addr.toNat / 0x8000000000 % 512, Nat.mod_lt _ (by decide)⟩ = true

/-- An address below an entry that is neither the first one nor that of the window on physical
memory. -/
theorem DemoPage.of_entry {addr : Word} {n : Fin 512} (haligned : addr.toNat % 4096 = 0)
    (hlower : addr.toNat < 0x800000000000) (hentry : addr.toNat / 0x8000000000 = n) (hn : n ≠ 0)
    (hoff : off ≠ n) : DemoPage off addr := by
  refine ⟨haligned, hlower, owned_eq_true.2 ?_⟩
  have hslot : (⟨addr.toNat / 0x8000000000 % 512, Nat.mod_lt _ (by decide)⟩ : Fin 512) = n :=
    Fin.ext (by rw [hentry]; exact Nat.mod_eq_of_lt n.isLt)
  rw [hslot]
  rintro (h | h)
  · exact hn h
  · exact hoff h.symm

/-- The page, as `map_shellcode_page` finds it. -/
def DemoPage.page {addr : Word} (h : DemoPage off addr) : Page :=
  Page.ofLower addr.toNat h.lower h.aligned

theorem DemoPage.containing {addr : Word} (h : DemoPage off addr) :
    Page.containing ⟨addr.toNat, Or.inl h.lower⟩ = h.page :=
  Page.containing_of_aligned h.aligned

/-- The addresses of the page. -/
theorem DemoPage.containing_add {addr : Word} (h : DemoPage off addr) {k : ℕ} (hk : k < 4096)
    (hlow : addr.toNat + k < 0x800000000000) :
    Page.containing ⟨addr.toNat + k, Or.inl hlow⟩ = h.page := by
  have haligned := h.aligned
  refine Page.ext (VirtAddr.ext ?_)
  rw [Page.containing_val]
  show addr.toNat + k - (addr.toNat + k) % 4096 = addr.toNat
  omega

theorem DemoPage.add_lt {addr : Word} (h : DemoPage off addr) {k : ℕ} (hk : k < 4096) :
    addr.toNat + k < 0x800000000000 := by
  have haligned := h.aligned
  have hlower := h.lower
  omega

/-- What CPL 3 finds on the page is what is in its frame. -/
theorem DemoPage.seenByte_eq {addr : Word} (h : DemoPage off addr) {mem : PhysMem}
    {l4 f : PhysFrame} (hu : UserWalk mem true l4 h.page.path)
    (hf : translatePage mem l4 h.page = some f) {k : ℕ} (hk : k < 4096) :
    seenByte mem l4 (addr.toNat + k) = some (byteAt mem f ⟨k, hk⟩) := by
  have hpage := h.containing_add hk (h.add_lt hk)
  have haligned := h.aligned
  rw [seenByte, dif_pos (h.add_lt hk), userByte, hpage, if_pos (pageAccessible_iff.2 hu.read),
    readByte, hpage, hf, Option.map_some]
  congr 2
  refine Fin.ext ?_
  show (addr.toNat + k) % 4096 = k
  omega

theorem DemoPage.mayStore_eq {addr : Word} (h : DemoPage off addr) {mem : PhysMem}
    {l4 : PhysFrame} (hu : UserWalk mem true l4 h.page.path) {k : ℕ} (hk : k < 4096) :
    mayStore mem l4 (addr.toNat + k) = true := by
  rw [mayStore, dif_pos (h.add_lt hk), h.containing_add hk (h.add_lt hk)]
  exact pageAccessible_iff.2 hu

/-- **A program that has been started**: its thread has a space, in which the page at `addr` begins
with the code and may be written to, and has no open files. -/
structure Started (w : World) (i : ThreadId) (s : AddrSpace) (addr : Word) (code : List Byte) :
    Prop where
  space : w.space (.thread i) = some s
  files : Kernel.filesOf w.sched i = some fun _ => none
  code : ∀ k b, code[k]? = some b → seenByte w.machine.mem s.l4 (addr.toNat + k) = some b
  writable : ∀ k < 4096, mayStore w.machine.mem s.l4 (addr.toNat + k) = true

/-- **Starting a thread** changes nothing that ring 3 sees in its space. -/
theorem Guarded.sees_of_spawn (hmap : MapTo.Documented bootInfo mapTo) (hboot : Booted map cr3 m₀)
    (hk : KernelOnly off m₀.mem cr3) (h : Guarded cr3 off m₀ w) {l4 : PhysFrame} {stackBase : ℕ}
    {entry : Entry} {userEntry : Option UserEntry} {pid : Pid}
    {system : System BootInfoFrameAllocator} (hl4 : l4 ∈ w.unspawned) (hblock : HeapBlock stackBase)
    (hspawn : w.toSystem.spawnIsolatedInner mapTo cr3 stackBase entry userEntry l4 =
      .ok (pid, system)) {page : Page} {needWrite : Bool} {f : PhysFrame}
    (hu : UserWalk w.machine.mem needWrite l4 page.path)
    (hf : translatePage w.machine.mem l4 page = some f) :
    UserWalk system.machine.mem needWrite l4 page.path ∧
      translatePage system.machine.mem l4 page = some f ∧
      system.machine.mem f = w.machine.mem f := by
  obtain ⟨-, hshare, -⟩ := System.spawnIsolatedInner_eq_ok hspawn
  have hs : w.space (.unspawned l4) = some ⟨l4, (0, 0)⟩ := if_pos hl4
  exact h.sees_of_extends hk hs (h.books.shareStack_extends hmap hboot hl4 hblock hshare).1 hu hf

/-- The thread that is started has the space, no open files, and the place where it starts. -/
theorem space_of_spawn {l4 : PhysFrame} {stackBase : ℕ} {entry : Entry}
    {userEntry : Option UserEntry} {pid : Pid} {system : System BootInfoFrameAllocator}
    (hspawn : w.toSystem.spawnIsolatedInner mapTo cr3 stackBase entry userEntry l4 =
      .ok (pid, system)) :
    ∃ i, pid = packPid i (system.sched.slotGenerations i) ∧
      (system.sched.threads i).bind Thread.space =
        some ⟨l4, (stackBase, stackBase + threadStackSize)⟩ ∧
      (Kernel.filesOf system.sched i = some fun _ => none) ∧
      (system.sched.threads i).bind Thread.userEntry = userEntry := by
  obtain ⟨-, -, hsched⟩ := System.spawnIsolatedInner_eq_ok hspawn
  obtain ⟨-, i, hinstall, hpid⟩ := Kernel.spawnIsolatedInner_eq_ok hsched
  obtain ⟨-, hthreads, -⟩ := SchedulerState.install_spec hinstall
  refine ⟨i, hpid, ?_, ?_, ?_⟩
  · rw [hthreads, Function.update_self, Option.bind_some, Thread.space]
    show some (AddrSpace.mk (toPhysFrame l4.val) _) = _
    rw [toPhysFrame, Fin.ofNat_val_eq_self]
    rfl
  · rw [Kernel.filesOf, hthreads, Function.update_self]
    rfl
  · rw [hthreads, Function.update_self]
    rfl

/-- A new table is none that a space has. -/
theorem Guarded.new_not_space (hboot : Booted map cr3 m₀) (h : Guarded cr3 off m₀ w)
    {l4 : PhysFrame} {m₁ : Machine BootInfoFrameAllocator}
    (hnew : newAddressSpace bootInfo w.machine cr3 off = .ok (l4, m₁)) {id : Owner}
    (hs : w.space id = some s) : s.l4 ≠ l4 := by
  rintro rfl
  obtain ⟨-, hfree, -, -⟩ := newAddressSpace_own h.books.valid
    (h.books.active_not_mem hboot (Or.inl rfl)) (fun _ hi => Or.inl hi) hnew
  exact (h.books.within hs).used s.l4 (Or.inl rfl) hfree

theorem Guarded.new_not_unspawned (hboot : Booted map cr3 m₀) (h : Guarded cr3 off m₀ w)
    {l4 : PhysFrame} {m₁ : Machine BootInfoFrameAllocator}
    (hnew : newAddressSpace bootInfo w.machine cr3 off = .ok (l4, m₁)) : l4 ∉ w.unspawned := by
  intro hmem
  have hs : w.space (.unspawned l4) = some ⟨l4, (0, 0)⟩ := if_pos hmem
  exact h.new_not_space hboot hnew hs rfl

/-- The events that make a space and start a thread in it. -/
theorem step_newAddressSpace {l4 : PhysFrame} {m₁ : Machine BootInfoFrameAllocator}
    (hnew : newAddressSpace bootInfo w.machine cr3 off = .ok (l4, m₁)) :
    Event.step mapTo cr3 off w (.kernel (.newAddressSpace cr3)) =
      .ok { w with machine := m₁, unspawned := insert l4 w.unspawned } := by
  rw [Event.step, World.step, hnew]
  rfl

theorem step_spawnIsolatedInner {l4 : PhysFrame} {m₂ : Machine BootInfoFrameAllocator}
    {stackBase : ℕ} {entry : Entry} {userEntry : Option UserEntry} {pid : Pid}
    {system : System BootInfoFrameAllocator} (hl4 : l4 ∉ w.unspawned)
    (hspawn : System.spawnIsolatedInner mapTo cr3 stackBase entry userEntry l4
      { machine := m₂, sched := w.sched } = .ok (pid, system)) :
    Event.step mapTo cr3 off { w with machine := m₂, unspawned := insert l4 w.unspawned }
      (.kernel (.spawnIsolatedInner l4 stackBase entry userEntry)) =
      .ok { w with toSystem := system } := by
  rw [Event.step, World.step, hspawn]
  show Except.ok (World.mk system ((insert l4 w.unspawned).erase l4)) = _
  rw [Finset.erase_insert hl4]

/-- **A space with a page of code**: it is made by two events, after which the page can be used by
ring 3 and begins with the code. -/
theorem Guarded.setUp (hmap : MapTo.Documented bootInfo mapTo) (hboot : Booted map cr3 m₀)
    (hk : KernelOnly off m₀.mem cr3) (h : Guarded cr3 off m₀ w) {addr : Word}
    (hpage : DemoPage off addr) {l4 : PhysFrame} {m₁ m₂ : Machine BootInfoFrameAllocator}
    {code : List Byte} (hnew : newAddressSpace bootInfo w.machine cr3 off = .ok (l4, m₁))
    (hcode : mapShellcodePage bootInfo mapTo l4 addr.toNat code m₁ = .ok m₂) :
    l4 ∉ w.unspawned ∧ Runs.Reach (Event.step mapTo cr3 off) (Admitted cr3 off m₀) w
        { w with machine := m₂, unspawned := insert l4 w.unspawned } ∧
      ∃ f, UserWalk m₂.mem true l4 hpage.page.path ∧ translatePage m₂.mem l4 hpage.page = some f ∧
        ∀ k b, code[k]? = some b → ∀ hk : k < 4096, byteAt m₂.mem f ⟨k, hk⟩ = b := by
  have hunspawned := h.new_not_unspawned hboot hnew
  have hmake : Event.step mapTo cr3 off w (.kernel (.newAddressSpace cr3)) = .ok _ :=
    step_newAddressSpace hnew
  have hfirst : Admitted cr3 off m₀ w (.kernel (.newAddressSpace cr3)) := ⟨Or.inl rfl, trivial⟩
  have h₁ := h.event hmap hboot hk hfirst hmake
  have hs₁ : ({ w with machine := m₁, unspawned := insert l4 w.unspawned } : World).space
      (.unspawned l4) = some ⟨l4, (0, 0)⟩ := if_pos (Finset.mem_insert_self l4 w.unspawned)
  obtain ⟨v, hv, hmapped⟩ := bind_eq_ok hcode
  rw [VirtAddr.new, VirtAddr.tryNew_of_lower hpage.lower] at hv
  obtain rfl := Except.ok.inj hv
  rw [hpage.containing] at hmapped
  have hapart : owned off hpage.page.start.p4Index = true := hpage.apart
  have hlow : (hpage.page.start.p4Index : ℕ) < 256 := by
    have hlower := hpage.lower
    show addr.toNat / 0x8000000000 % 512 < 256
    omega
  have hput : Event.step mapTo cr3 off
      { w with machine := m₁, unspawned := insert l4 w.unspawned }
      (.kernel (.mapPage .noFramesForDemoPage .mapDemoPageFailed l4 hpage.page demoFlags
        (Fill.code code))) =
      .ok { w with machine := m₂, unspawned := insert l4 w.unspawned } := by
    rw [Event.step, World.step, demoFlags, hmapped]
    rfl
  have hsecond : Admitted cr3 off m₀ { w with machine := m₁, unspawned := insert l4 w.unspawned }
      (.kernel (.mapPage .noFramesForDemoPage .mapDemoPageFailed l4 hpage.page demoFlags
        (Fill.code code))) := ⟨⟨⟨_, _, hs₁, rfl⟩, hapart, by decide⟩, hlow⟩
  refine ⟨hunspawned, (Runs.Reach.refl.tail hfirst hmake).tail hsecond hput, ?_⟩
  obtain ⟨f, mem, hu, hf, hfill⟩ := mapFreshPage_user (s := ⟨l4, (0, 0)⟩) hmap
    (h₁.books.spaces _ _ hs₁).order (h₁.confined _ _ hs₁).leaves hapart
    (by decide) (by decide) (by decide) hmapped
  refine ⟨f, hu, hf, fun k b hb hk => ?_⟩
  have hbyte := byteAt_writeBytes mem f code ⟨k, hk⟩
  rw [hb, Option.getD_some] at hbyte
  rw [← hbyte, byteAt, byteAt, hfill]
  rfl

/-- **A demo that has been started is there**: its thread finds its code. -/
theorem Guarded.started (hmap : MapTo.Documented bootInfo mapTo) (hboot : Booted map cr3 m₀)
    (hk : KernelOnly off m₀.mem cr3) (h : Guarded cr3 off m₀ w) {stackBase : ℕ} {entry : Entry}
    {addr : Word} {build : Except BuildPanic (List Byte)} {pid : Option Pid}
    {system : System BootInfoFrameAllocator} (hblock : HeapBlock stackBase)
    (hpage : DemoPage off addr) (hfits : ∀ code, build = .ok code → code.length ≤ 4096)
    (hspawn : w.toSystem.spawnDemo bootInfo mapTo cr3 off stackBase entry addr build true =
      .ok (pid, system)) :
    ∃ code i s, build = .ok code ∧ pid = some (packPid i (system.sched.slotGenerations i)) ∧
      Runs.Reach (Event.step mapTo cr3 off) (Admitted cr3 off m₀) w { w with toSystem := system } ∧
      Started { w with toSystem := system } i s addr code := by
  obtain ⟨l4, m₁, code, m₂, pid', hnew, hbuild, hcode, hthread, rfl⟩ :=
    System.spawnDemo_eq_ok bootInfo mapTo hspawn
  obtain ⟨hunspawned, hreach, f, hu, hf, hbytes⟩ := h.setUp hmap hboot hk hpage hnew hcode
  have h₂ := hreach.invariant h fun u e u' hu ha hr => hu.event hmap hboot hk ha hr
  obtain ⟨i, hpid, hspace, hfiles, -⟩ := space_of_spawn
    (w := { w with machine := m₂, unspawned := insert l4 w.unspawned }) hthread
  have hl4 := Finset.mem_insert_self l4 w.unspawned
  obtain ⟨hu', hf', hsame⟩ := h₂.sees_of_spawn hmap hboot hk hl4 hblock hthread hu hf
  have hadmitted : Admitted cr3 off m₀ { w with
      machine := m₂, unspawned := insert l4 w.unspawned }
      (.kernel (.spawnIsolatedInner l4 stackBase entry none)) := ⟨⟨hl4, Or.inr hblock⟩, trivial⟩
  refine ⟨code, i, _, hbuild, congrArg some hpid, hreach.tail hadmitted
    (step_spawnIsolatedInner hunspawned hthread), hspace, hfiles, fun k b hb => ?_, ?_⟩
  · have hk' : k < 4096 := (List.getElem?_eq_some_iff.1 hb).1.trans_le (hfits code hbuild)
    rw [hpage.seenByte_eq hu' hf' hk', byteAt, hsame]
    exact congrArg some (hbytes k b hb hk')
  · exact fun k hk' => hpage.mayStore_eq hu' hk'

/-! ## Enough for a demo -/

/-- **A space with a page of code can be made** where there are five frames. -/
theorem Books.exists_setUp (hmap : MapTo.Documented bootInfo mapTo) (hboot : Booted map cr3 m₀)
    (h : Books cr3 off m₀ w) {addr : Word} (code : List Byte) (hpage : DemoPage off addr) {n : ℕ}
    (hsup : bootInfo.Supplies (n + 5) w.machine.frames) :
    ∃ l4 m₁ m₂ f, newAddressSpace bootInfo w.machine cr3 off = .ok (l4, m₁) ∧
      mapShellcodePage bootInfo mapTo l4 addr.toNat code m₁ = .ok m₂ ∧
      FreshMapped bootInfoSpec l4 allEntries (owned off) hpage.page.path f m₁ m₂ ∧
      bootInfo.Supplies n m₂.frames := by
  have htables := h.kernelSpace hboot
  obtain ⟨l4, m₁, hnew, hsup₁⟩ := exists_newAddressSpace cr3 off hsup
  have hmappable : Mappable m₁.mem l4 allEntries hpage.page.path :=
    h.mappable hboot hnew hpage.apart
  obtain ⟨m₂, f, hcode, hfresh, hsup₂⟩ := exists_mapFreshPage_eq_ok (n := n) hmap
    (newAddressSpace_all htables hnew) (show PageTableEntry.Plain demoFlags by decide) rfl
    hmappable hsup₁ .noFramesForDemoPage .mapDemoPageFailed (Fill.code code)
  refine ⟨l4, m₁, m₂, f, hnew, ?_, hfresh, hsup₂⟩
  rw [mapShellcodePage, VirtAddr.new, VirtAddr.tryNew_of_lower hpage.lower]
  show mapFreshPage bootInfo mapTo _ _ l4 (Page.containing _) _ _ m₁ = _
  rw [hpage.containing]
  exact hcode

/-- **A demo can be started** where there are 53 frames, a block of the heap and room in the
scheduler. -/
theorem Books.exists_spawnDemo (hmap : MapTo.Documented bootInfo mapTo) (hboot : Booted map cr3 m₀)
    (h : Books cr3 off m₀ w) {stackBase : ℕ} {addr : Word} (code : List Byte)
    (hblock : HeapBlock stackBase) (hheap : owned off 136 = true) (hpage : DemoPage off addr)
    (hout : inRange (stackBase, stackBase + threadStackSize) addr.toNat = false) (entry : Entry)
    (hroom : ∀ t, ∃ r, w.sched.install t = .ok r)
    (hsup : bootInfo.Supplies 53 w.machine.frames) :
    ∃ pid system, w.toSystem.spawnDemo bootInfo mapTo cr3 off stackBase entry addr (.ok code) true =
      .ok (some pid, system) := by
  obtain ⟨l4, m₁, m₂, f, hnew, hput, hfresh, hsup₂⟩ :=
    h.exists_setUp (n := 48) hmap hboot code hpage hsup
  have hbase : stackBase ≠ 0 := by
    have habove := hblock.above
    have hstart : heapStart = 0x444444440000 := rfl
    omega
  have hshare := h.exists_shareStack hboot hnew hmap hblock hheap hfresh hout hsup₂
  have hthread : ∃ r, System.spawnIsolatedInner mapTo cr3 stackBase entry none l4
      { w.toSystem with machine := m₂ } = .ok r :=
    System.spawnIsolatedInner_returns_iff.2
      ⟨hbase, hshare.imp fun _ hm => hm.1, hroom _⟩
  obtain ⟨⟨pid, system⟩, hthread⟩ := hthread
  refine ⟨pid, system, ?_⟩
  rw [System.spawnDemo, hnew]
  show (orKernelPanic (mapShellcodePage bootInfo mapTo l4 addr.toNat code m₁) >>= _) = _
  rw [hput]
  show (orKernelPanic (System.spawnIsolatedInner mapTo cr3 stackBase entry none l4
    { w.toSystem with machine := m₂ }) >>= _) = _
  rw [hthread]
  rfl

/-- A program that has been started stays as it is until it runs. -/
theorem Started.of_event (hmap : MapTo.Documented bootInfo mapTo) (hboot : Booted map cr3 m₀)
    (hk : KernelOnly off m₀.mem cr3) (h : Guarded cr3 off m₀ w) {w' : World} {i : ThreadId}
    {s : AddrSpace} {addr : Word} {code : List Byte} (hstarted : Started w i s addr code)
    {e : Event} (ha : Admitted cr3 off m₀ w e) (hr : e.step mapTo cr3 off w = .ok w')
    (hnot : ¬ e.About w (.thread i)) : Started w' i s addr code := by
  have hkept := h.kept hmap hboot hk ha hr hstarted.space hnot
  obtain ⟨hseen, hstore⟩ := hkept.sameView h (h.event hmap hboot hk ha hr) hk hstarted.space
  obtain ⟨a, -, -, haction, hothers⟩ := h.exists_action hboot hk ha hr
  refine ⟨hkept.1, ?_, ?_, ?_⟩
  · rw [filesOf_of_step haction hstarted.space (hothers _ _ hstarted.space hnot).1]
    exact hstarted.files
  · rw [hseen]
    exact hstarted.code
  · rw [hstore]
    exact hstarted.writable

/-- A program that has been started is in a system, whatever its registers are, and whatever has
been typed and printed. -/
theorem Started.hosted (env : SpawnEnv) (rooms : Set ℕ) (hmap : MapTo.Documented bootInfo mapTo)
    (hboot : Booted map cr3 m₀) (hk : KernelOnly env.off m₀.mem cr3)
    (hreach : Runs.Reach (Event.step mapTo cr3 env.off) (Admitted cr3 env.off m₀) (start cr3 m₀) w)
    {i : ThreadId} {s : AddrSpace} {addr : Word} {code : List Byte}
    (hstarted : Started w i s addr code) {r : Running} (hr : r.world = w) :
    r.Hosted mapTo env rooms map cr3 m₀ i s := by
  subst hr
  exact ⟨hmap, hboot, hk, r, [], hreach, hstarted.space, hstarted.files, .refl⟩

/-- It can fetch its code. -/
theorem Started.codeAt {i : ThreadId} {s : AddrSpace} {addr : Word} {code : List Byte}
    (hstarted : Started w i s addr code) (hend : addr.toNat + code.length ≤ 0x10000000000000000)
    {r : Running} (hr : r.world = w) : CodeAt (r.view i s.l4).fetch addr code := by
  subst hr
  rw [codeAt_iff]
  intro k b hb
  have hlt := (List.getElem?_eq_some_iff.1 hb).1
  have haddr : (addr + BitVec.ofNat 64 k).toNat = addr.toNat + k := by
    rw [BitVec.toNat_add, BitVec.toNat_ofNat, Nat.mod_eq_of_lt (by omega),
      Nat.mod_eq_of_lt (by omega)]
  show seenByte r.world.machine.mem s.l4 (addr + BitVec.ofNat 64 k).toNat = some b
  rw [haddr]
  exact hstarted.code k b hb

/-- The first thread that is started is the next to run, and then a kernel thread can be started. -/
theorem exists_switch (l4 : Frame) : ∃ pid s₁ sw s₂ s₃,
    (SchedulerState.init (1 : PhysFrame).val).spawnIsolatedInner 0x444444530000 (.function 0) none
      l4 = .ok (pid, s₁) ∧ (∀ i, (s₁.threads i).bind Thread.space ≠ none → i = 1) ∧
    s₁.zombie = none ∧ s₁.scheduleRest = .ok (some sw, s₂) ∧ s₂.current = 1 ∧
    (s₂.saveStackPointer sw.previous 0).spawn 0x444444560000 (.function 0) = .ok s₃ ∧
    s₃.current = 1 ∧ (s₂.saveStackPointer sw.previous 0).threads 2 = none ∧
    (s₃.threads 2).isSome = true := by
  refine ⟨_, _, _, _, _, rfl, fun i hi => ?_, rfl, rfl, rfl, rfl, rfl, rfl, rfl⟩
  by_contra hne
  refine hi ?_
  show ((Function.update (SchedulerState.init (1 : PhysFrame).val).threads 1 _) i).bind _ = none
  rw [Function.update_of_ne hne, SchedulerState.init]
  simp only
  split_ifs
  · rfl
  · rfl

/-- **A demo is switched to** when it is the first that was started, and after that a kernel thread
is started. -/
theorem exists_switched {m₀ : Machine BootInfoFrameAllocator} {addr : Word}
    {build : Except BuildPanic (List Byte)} {pid : Option Pid}
    {system : System BootInfoFrameAllocator}
    (hspawn : (start 1 m₀).toSystem.spawnDemo bootInfo (documentedMapTo bootInfo) 1 3
      0x444444530000 (.function 0) addr build true = .ok (pid, system))
    {i : ThreadId} {s : AddrSpace}
    (hspace : ({ start 1 m₀ with toSystem := system } : World).space (.thread i) = some s) :
    i = 1 ∧
    ¬ (Event.kernel (.schedule 0)).About { start 1 m₀ with toSystem := system } (.thread 1) ∧
      ∃ w w', Event.step (documentedMapTo bootInfo) 1 3 { start 1 m₀ with toSystem := system }
          (.kernel (.schedule 0)) = .ok w ∧ w.sched.current = 1 ∧
        Event.step (documentedMapTo bootInfo) 1 3 w
          (.kernel (.spawn 0x444444560000 (.function 0))) = .ok w' ∧ w'.sched.current = 1 ∧
        w.sched.threads 2 = none ∧ (w'.sched.threads 2).isSome = true := by
  obtain ⟨l4, m₁, _, m₂, pid', -, -, -, hthread, -⟩ := System.spawnDemo_eq_ok _ _ hspawn
  obtain ⟨-, -, hsched⟩ := System.spawnIsolatedInner_eq_ok hthread
  obtain ⟨pid'', s₁, sw, s₂, s₃, hspawn', hone, hz, hnext, hcurrent, hmore, hsame, hfree,
    htaken⟩ := exists_switch l4.val
  obtain ⟨-, rfl⟩ := Prod.mk.inj (Except.ok.inj (hspawn'.symm.trans hsched))
  refine ⟨hone i fun hnone => ?_, ?_, { start 1 m₀ with
    machine := system.machine, sched := s₂.saveStackPointer sw.previous 0 }, { start 1 m₀ with
    machine := system.machine, sched := s₃ }, ?_, hcurrent, ?_, hsame, hfree, htaken⟩
  · rw [World.space, hnone] at hspace
    cases hspace
  · rintro ⟨z, hz', -⟩
    rw [show system.sched.zombie = some z from hz'] at hz
    cases hz
  · rw [Event.step, World.step, System.schedule, System.reapZombie_of_none hz]
    show Except.mapError _ ((system.sched.scheduleRest >>= _) >>= _) = _
    rw [hnext]
    rfl
  · show Except.mapError _ ((s₂.saveStackPointer sw.previous 0).spawn 0x444444560000 _ >>= _) = _
    rw [hmore]
    rfl

/-- **A run** at the end of which a program has been started and is running; and a world in which
there is one thread more. -/
theorem exists_running {off : Fin 512} (hoff : off = 3) {addr : Word} (hpage : DemoPage off addr)
    (code : List Byte) (hfits : code.length ≤ 4096)
    (hout : inRange (0x444444530000, 0x444444530000 + threadStackSize) addr.toNat = false) :
    ∃ (m₀ : Machine BootInfoFrameAllocator) (w w' : World) (s : AddrSpace), Booted heapMap 1 m₀ ∧
      KernelOnly off m₀.mem 1 ∧ Runs.Reach (Event.step (documentedMapTo bootInfo) 1 off)
        (Admitted 1 off m₀) (start 1 m₀) w ∧
      w.sched.current = 1 ∧ Started w 1 s addr code ∧
      Event.step (documentedMapTo bootInfo) 1 off w
        (.kernel (.spawn 0x444444560000 (.function 0))) = .ok w' ∧ w'.sched.current = 1 ∧
      w.sched.threads 2 = none ∧ (w'.sched.threads 2).isSome = true := by
  subst hoff
  have hmap : MapTo.Documented bootInfo (documentedMapTo bootInfo) := fun _ _ _ _ _ _ => rfl
  have hblock : HeapBlock 0x444444530000 := ⟨by decide, by decide, by decide⟩
  obtain ⟨m₀, hboot, hk, hsup⟩ := exists_booted_kernelOnly (n := 53) (by decide)
  have hguard : Guarded 1 3 m₀ (start 1 m₀) := guarded_start hboot
  obtain ⟨pid, system, hspawn⟩ := hguard.books.exists_spawnDemo hmap hboot code hblock rfl hpage
    hout (.function 0) (fun t => ⟨_, rfl⟩) hsup
  obtain ⟨_, i, s, hcode, -, hreach, hstarted⟩ := hguard.started hmap hboot hk hblock hpage
    (fun c hc => Except.ok.inj hc ▸ hfits) hspawn
  obtain rfl := Except.ok.inj hcode
  obtain ⟨rfl, hnot, w, w', hswitch, hcurrent, hmore⟩ := exists_switched hspawn hstarted.space
  have hadmitted : Admitted 1 3 m₀ { start 1 m₀ with toSystem := system } (.kernel (.schedule 0)) :=
    ⟨trivial, trivial⟩
  have hguard' := hreach.invariant hguard fun u e u' hu ha hr => hu.event hmap hboot hk ha hr
  exact ⟨m₀, w, w', s, hboot, hk, hreach.tail hadmitted hswitch, hcurrent,
    hstarted.of_event hmap hboot hk hguard' hadmitted hswitch hnot, hmore⟩

end World
