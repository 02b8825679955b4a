/-
# System calls stay in the caller's space

The kernel reads and writes the memory of programs, at addresses that the programs choose.  In
every world that is reached the check of such an address is exact, and what it accepts leads to
frames of the caller's own space (`accepted_pointers_stay_home`).  What a call other than
`SYS_SPAWN` does to memory is a run of stores that the caller could have made itself, and of the
scheduler it changes the caller's open files only (`calls_are_stores`).  So the call of a program is
a run of events (`Guarded.reach_of_call`), and all that holds of programs which only store holds of
programs that make system calls.
-/
import Velora.Dispatch
import Velora.Isolation

/-- A byte that CPL 3 may access is in a page, and where it is and what may be done with it depends
on the tables of the page only. -/
theorem UserMay.exists_page {mem : PhysMem} {cr3 : PhysFrame} {needWrite : Bool} {a : ℕ}
    (h : UserMay mem cr3 needWrite a) :
    ∃ (page : Page) (f : PhysFrame) (o : Fin 4096), UserWalk mem needWrite cr3 page.path ∧
      translatePage mem cr3 page = some f ∧
      (∀ mem', translatePage mem' cr3 page = some f → location mem' cr3 a = some (f, o)) ∧
      ∀ mem' needWrite', UserWalk mem' needWrite' cr3 page.path →
        UserMay mem' cr3 needWrite' a := by
  obtain ⟨hlow, hu⟩ := h
  obtain ⟨f, hf⟩ := hu.exists_frame
  refine ⟨_, f, (⟨a, Or.inl hlow⟩ : VirtAddr).pageOffset, hu, hf, ?_,
    fun mem' needWrite' hu' => ⟨hlow, hu'⟩⟩
  intro mem' hf'
  rw [location, VirtAddr.tryNew_of_lower hlow, Option.bind_some, hf']
  rfl

namespace World

variable {mapTo : MapTo BootInfoFrameAllocator} {map : MemoryMap} {cr3 : PhysFrame} {off : Fin 512}
  {m₀ : Machine BootInfoFrameAllocator} {w w' : World} {id : Owner} {s : AddrSpace}

/-! ## Pointers -/

/-- **What the kernel accepts is the caller's.**  Take any world that is reached, the space of any
program, and any address and length: `user_range_ok` returns, accepts the range if and only if
CPL 3 may access all of it, and then every byte is in a frame that is owned by the caller's space,
that is neither a table nor a page of the kernel, and that is no table of any space. -/
theorem accepted_pointers_stay_home (hmap : MapTo.Documented bootInfo mapTo)
    (hboot : Booted map cr3 m₀) (hk : KernelOnly off m₀.mem cr3)
    (hrun : Runs.Reach (Event.step mapTo cr3 off) (Admitted cr3 off m₀) (start cr3 m₀) w)
    (hs : w.space id = some s) (needWrite : Bool) {ptr len : ℕ}
    (hptr : ptr < 0x10000000000000000) (h0 : ptr ≠ 0) (hlen : 1 ≤ len ∧ len ≤ 1024) :
    ∃ b, userRangeOk w.machine.mem s.l4 ptr len needWrite = .ok b ∧
      (b = true ↔ ∀ k < len, UserMay w.machine.mem s.l4 needWrite (ptr + k)) ∧
      (b = true → ∀ k < len, ∃ l, location w.machine.mem s.l4 (ptr + k) = some l ∧
        Place.Holds cr3 off w l.1 (.space id) ∧ ¬ KernelHeld w.machine.mem cr3 l.1 ∧
        ∀ j t, w.space j = some t → ¬ IsTable w.machine.mem t.l4 (owned off) l.1) := by
  have h := guarded_of_events hmap hboot hk hrun
  obtain ⟨b, hb, hiff⟩ := userRangeOk_iff needWrite
    (fun page hup => h.not_userWalk_of_upper hk hs hup) hptr h0 hlen
  refine ⟨b, hb, hiff, fun htrue k hlt => ?_⟩
  obtain ⟨page, f, o, hu, hf, hloc, -⟩ := (hiff.1 htrue k hlt).exists_page
  have hframe : f ∈ w.held off id := by
    rw [held_of_space hs]
    exact (h.userFrame hk hs hu hf).2
  refine ⟨(f, o), hloc _ hf, hframe, fun hkernel => ?_,
    fun j t ht => h.userFrame_not_table hk hs hu hf ht⟩
  exact hboot.not_mem_supply (h.books.kernelHeld_iff.1 hkernel)
    (h.books.divided.held_subset id hframe)

/-! ## Stores -/

/-- A store to a page changes neither what ring 3 may use in the space nor where it is. -/
theorem Guarded.userStore_keeps (h : Guarded cr3 off m₀ w) (hk : KernelOnly off m₀.mem cr3)
    (hs : w.space id = some s) {page page' : Page} {needWrite needWrite' : Bool} {f : PhysFrame}
    (hu : UserWalk w.machine.mem needWrite s.l4 page.path)
    (hf : translatePage w.machine.mem s.l4 page = some f)
    (hu' : UserWalk w.machine.mem needWrite' s.l4 page'.path) (words : Fin 512 → Word) :
    UserWalk (Function.update w.machine.mem f words) needWrite' s.l4 page'.path ∧
      translatePage (Function.update w.machine.mem f words) s.l4 page' =
        translatePage w.machine.mem s.l4 page' := by
  -- the tables on the way are not the frame that is written
  have hway : ∀ ρ j rest t, page'.path = ρ ++ j :: rest →
      RadixHeap.walk PageTableEntry.follow w.machine.mem s.l4 ρ = some t →
      Function.update w.machine.mem f words t j = w.machine.mem t j := by
    intro ρ j rest t hpath ht
    have htable := h.onWay_isTable hk hs hu' hpath ht
    rw [Function.update_of_ne]
    rintro rfl
    exact h.userFrame_not_table hk hs hu hf hs htable
  refine ⟨hu'.congr hway, ?_⟩
  obtain ⟨g, hg⟩ := hu'.exists_frame
  rw [hg]
  refine RadixHeap.walk_mono ?_ hg
  rintro ρ j y z ⟨rest, hpath⟩ hy hz
  rw [List.append_assoc, List.singleton_append] at hpath
  rw [hway ρ j rest y hpath.symm hy]
  exact hz

/-- The events of a program that stores. -/
def Event.StoreBy (l4 : PhysFrame) (e : Event) : Prop := ∃ page words, e = .userStore l4 page words

/-- **Storing bytes is storing to pages**, one byte after another; `loc` is where they were at the
start. -/
theorem Guarded.reach_of_storeBytes (hmap : MapTo.Documented bootInfo mapTo)
    (hboot : Booted map cr3 m₀) (h : Guarded cr3 off m₀ w) (hk : KernelOnly off m₀.mem cr3)
    (hs : w.space id = some s) {loc : ℕ → Option Location} {ptr : ℕ} {data : List UInt8}
    {mem : PhysMem} (hmay : ∀ k < data.length, UserMay w.machine.mem s.l4 true (ptr + k) ∧
      location w.machine.mem s.l4 (ptr + k) = loc (ptr + k))
    (hstore : storeBytes loc w.machine.mem ptr data = some mem) :
    Runs.Reach (Event.step mapTo cr3 off)
      (fun u e => Admitted cr3 off m₀ u e ∧ e.StoreBy s.l4) w
      { w with machine := w.machine.write mem } := by
  induction data generalizing w ptr with
  | nil =>
    cases hstore
    exact .refl
  | cons b data ih =>
    have hfirst := hmay 0 (Nat.succ_pos _)
    rw [Nat.add_zero] at hfirst
    obtain ⟨page, f, o, hu, hf, hloc, -⟩ := hfirst.1.exists_page
    rw [storeBytes, ← hfirst.2, hloc _ hf] at hstore
    have hstore : storeBytes loc (w.machine.mem.setByte (f, o) b.toBitVec) (ptr + 1) data =
      some mem := hstore
    set words : Fin 512 → Word := w.machine.mem.setByte (f, o) b.toBitVec f with hwords
    have hmem : Function.update w.machine.mem f words =
        w.machine.mem.setByte (f, o) b.toBitVec := by
      rw [hwords, PhysMem.setByte, PhysMem.setEntry, Function.update_self]
    have hstep : Event.step mapTo cr3 off w (.userStore s.l4 page words) =
        .ok { w with machine := w.machine.write (Function.update w.machine.mem f words) } := by
      rw [Event.step, pageAccessible_iff.2 hu]
      simp only [Bool.not_true, Bool.false_eq_true, if_false, hf]
    have hlive : Admitted cr3 off m₀ w (.userStore s.l4 page words) := ⟨id, s, hs, rfl⟩
    -- the other bytes are where they were
    have hrest : ∀ k < data.length,
        UserMay (Function.update w.machine.mem f words) s.l4 true (ptr + 1 + k) ∧
          location (Function.update w.machine.mem f words) s.l4 (ptr + 1 + k) =
            loc (ptr + 1 + k) := by
      intro k hlt
      rw [Nat.add_assoc, Nat.add_comm 1 k]
      obtain ⟨hmay', hloc'⟩ := hmay (k + 1) (Nat.succ_lt_succ hlt)
      obtain ⟨page', f', o', hu', hf', hat, hback⟩ := hmay'.exists_page
      obtain ⟨hu'', hf''⟩ := h.userStore_keeps hk hs hu hf hu' words
      exact ⟨hback _ _ hu'', by rw [hat _ (hf''.trans hf'), ← hloc', hat _ hf']⟩
    have hreach := ih (w := { w with
      machine := w.machine.write (Function.update w.machine.mem f words) })
      (h.event hmap hboot hk hlive hstep) hs hrest (by rw [← hmem] at hstore; exact hstore)
    exact (Runs.Reach.refl.tail ⟨hlive, page, words, rfl⟩ hstep).trans hreach

/-- What a call leaves of memory, its caller could have stored. -/
theorem Guarded.reach_of_serves (hmap : MapTo.Documented bootInfo mapTo) (hboot : Booted map cr3 m₀)
    (h : Guarded cr3 off m₀ w) (hk : KernelOnly off m₀.mem cr3) (hs : w.space id = some s)
    {c c' : CallState BootInfoFrameAllocator} (hmachine : c.machine = w.machine)
    (hcr3 : c.cr3 = s.l4) {ptr len : ℕ} (hserves : c.Serves ptr len c') :
    Runs.Reach (Event.step mapTo cr3 off) (fun u e => Admitted cr3 off m₀ u e ∧ e.StoreBy s.l4) w
      { w with machine := c'.machine } := by
  obtain ⟨data, -, hmay, hstore⟩ := hserves.stores
  rw [hmachine, hcr3] at hmay hstore
  rw [hserves.machine, hmachine]
  exact h.reach_of_storeBytes hmap hboot hk hs (fun k hlt => ⟨hmay k hlt, rfl⟩) hstore

/-- No two owners have the same table. -/
theorem Guarded.owner_unique (h : Guarded cr3 off m₀ w) (hs : w.space id = some s) {j : Owner}
    {t : AddrSpace} (ht : w.space j = some t) (hl4 : t.l4 = s.l4) : j = id := by
  have hroot : ∀ u : AddrSpace, IsTable w.machine.mem u.l4 (owned off) u.l4 :=
    fun u => ⟨[], Nat.zero_le _, rfl⟩
  have hheld := h.books.table_mem_held ht (hroot t)
  rw [hl4] at hheld
  exact h.books.divided.apart j id _ hheld (h.books.table_mem_held hs (hroot s))

/-- So the stores of one program are not about another one. -/
theorem Guarded.reach_aside (hmap : MapTo.Documented bootInfo mapTo) (hboot : Booted map cr3 m₀)
    (h : Guarded cr3 off m₀ w) (hk : KernelOnly off m₀.mem cr3) (hs : w.space id = some s)
    {j : Owner} (hne : j ≠ id) (hreach : Runs.Reach (Event.step mapTo cr3 off)
      (fun u e => Admitted cr3 off m₀ u e ∧ e.StoreBy s.l4) w w') :
    (Guarded cr3 off m₀ w' ∧ w'.space id = some s) ∧
      Runs.Reach (Event.step mapTo cr3 off)
        (fun u e => Admitted cr3 off m₀ u e ∧ ¬ e.About u j) w w' := by
  induction hreach with
  | refl => exact ⟨⟨h, hs⟩, .refl⟩
  | @tail u u' e _ ha hr ih =>
    obtain ⟨⟨hu, hspace⟩, hreach⟩ := ih
    obtain ⟨hadmitted, page, words, rfl⟩ := ha
    refine ⟨⟨hu.event hmap hboot hk hadmitted hr, ?_⟩, hreach.tail ⟨hadmitted, ?_⟩ hr⟩
    · rw [Event.step] at hr
      split_ifs at hr
      split at hr
      · cases hr
      · cases hr
        exact hspace
    · rintro ⟨t, ht, hl4⟩
      exact hne (hu.owner_unique hspace ht hl4)

/-- **The call of a program is a run of events** that are not about any other program: it stores,
and then its open files may change. -/
theorem Guarded.reach_of_call (hmap : MapTo.Documented bootInfo mapTo) (hboot : Booted map cr3 m₀)
    (h : Guarded cr3 off m₀ w) (hk : KernelOnly off m₀.mem cr3)
    (hs : w.space (.thread w.sched.current) = some s) {c c' : CallState BootInfoFrameAllocator}
    (hsystem : c.toSystem = w.toSystem) (hcr3 : c.cr3 = s.l4) {ptr len : ℕ}
    (hserves : c.Serves ptr len c') {j : Owner} (hne : j ≠ .thread w.sched.current) :
    ∃ u files, Runs.Reach (Event.step mapTo cr3 off)
        (fun u e => Admitted cr3 off m₀ u e ∧ ¬ e.About u j) w u ∧
      Admitted cr3 off m₀ u (.kernel (.setFiles files)) ∧
      ¬ (Event.kernel (.setFiles files)).About u j ∧
      Event.step mapTo cr3 off u (.kernel (.setFiles files)) =
        .ok { w with toSystem := c'.toSystem } := by
  have hstores := h.reach_of_serves hmap hboot hk hs (congrArg System.machine hsystem) hcr3 hserves
  have hsched := hserves.sched
  rw [congrArg System.sched hsystem] at hsched
  obtain ⟨t, ht, -⟩ := Option.bind_eq_some_iff.1 hs
  obtain ⟨files, hfiles⟩ := hsched.exists_setFiles ht
  refine ⟨_, files, (h.reach_aside hmap hboot hk hs hne hstores).2, ⟨trivial, trivial⟩, hne, ?_⟩
  show Except.ok { w with machine := c'.machine, sched := Kernel.setFiles w.sched files } = _
  rw [← hfiles]

/-- **A system call does to memory what its caller could have done.**  Take any world that is
reached and a program in it that makes any system call but `SYS_SPAWN`, with any arguments: if the
kernel gets to the end of the call, it has taken no page fault, memory is as some stores of the
program itself would have left it, and of the scheduler at most the open files of the running thread
have changed. -/
theorem calls_are_stores {A : FrameAllocator BootInfoFrameAllocator}
    (hmap : MapTo.Documented bootInfo mapTo) (hboot : Booted map cr3 m₀)
    (hk : KernelOnly off m₀.mem cr3)
    (hrun : Runs.Reach (Event.step mapTo cr3 off) (Admitted cr3 off m₀) (start cr3 m₀) w)
    (hs : w.space id = some s) {c : CallState BootInfoFrameAllocator}
    (hmachine : c.machine = w.machine) (hcr3 : c.cr3 = s.l4) {env : SpawnEnv}
    {number arg1 arg2 arg3 arg4 : UInt64} (hnumber : number ≠ sysSpawnNumber)
    {e : CallEnd BootInfoFrameAllocator}
    (hcall : c.dispatch A mapTo env number arg1 arg2 arg3 arg4 = some (.ok e)) :
    ∃ c', e.state = some c' ∧ c'.cr3 = c.cr3 ∧
      Runs.Reach (Event.step mapTo cr3 off)
        (fun u e => Admitted cr3 off m₀ u e ∧ e.StoreBy s.l4) w
        { w with machine := c'.machine } ∧ c.sched.SameButFiles c'.sched := by
  have h := guarded_of_events hmap hboot hk hrun
  obtain ⟨c', hstate, hserves⟩ := CallState.dispatch_serves
    (fun page hup => by rw [hmachine, hcr3]; exact h.not_userWalk_of_upper hk hs hup) hnumber hcall
  exact ⟨c', hstate, hserves.cr3, h.reach_of_serves hmap hboot hk hs hmachine hcr3 hserves,
    hserves.sched⟩

/-! ## A program that reads a key -/

/-- CPL 3 may write to the page of the demo. -/
theorem userMay_isolatedUserPage {mem : PhysMem} {l4 : PhysFrame} {needWrite : Bool}
    (hu : UserWalk mem needWrite l4 isolatedUserPage.path) :
    ∀ k < 1, UserMay mem l4 needWrite (0x600000000000 + k) := by
  intro k hlt
  obtain rfl : k = 0 := by omega
  exact ⟨by norm_num, hu⟩

theorem accepted_pointers_stay_home_demo : ∃ (w : World) (l4 : PhysFrame) (l : Location),
    userRangeOk w.machine.mem l4 0x600000000000 1 true = .ok true ∧
    location w.machine.mem l4 0x600000000000 = some l ∧
    Place.Holds 1 3 w l.1 (.space (.unspawned l4)) ∧ ¬ KernelHeld w.machine.mem 1 l.1 := by
  obtain ⟨m₀, w, -, -, l4, -, hboot, hk, hrun, hs, hu, -⟩ := exists_two_programs
  have h0 : (0x600000000000 : ℕ) ≠ 0 := by norm_num
  have hlen : 1 ≤ 1 ∧ 1 ≤ 1024 := by norm_num
  obtain ⟨b, hb, hiff, hhome⟩ := accepted_pointers_stay_home (fun _ _ _ _ _ _ => rfl) hboot hk hrun
    hs true (by norm_num) h0 hlen
  obtain rfl : b = true := hiff.2 (userMay_isolatedUserPage (hu true))
  obtain ⟨l, hloc, hplace, hkernel, -⟩ := hhome rfl 0 (by norm_num)
  exact ⟨w, l4, l, hb, hloc, hplace, hkernel⟩

/-- The program calls the kernel when a key has been typed. -/
def keyTyped (w : World) (l4 : PhysFrame) : CallState BootInfoFrameAllocator where
  machine := w.machine
  sched := w.sched
  blocks := []
  cr3 := l4
  inputQueue := InputQueue.new.push 0x61
  printed := []

theorem calls_are_stores_keyTyped : ∃ (w : World) (l4 : PhysFrame)
    (c' : CallState BootInfoFrameAllocator) (m₀ : Machine BootInfoFrameAllocator),
    (keyTyped w l4).dispatch bootInfo (documentedMapTo bootInfo) shellEnv sysReadNumber 0
        0x600000000000 1 0 = some (.ok (.returns 1 c')) ∧
      Runs.Reach (Event.step (documentedMapTo bootInfo) 1 3)
        (fun u e => Admitted 1 3 m₀ u e ∧ e.StoreBy l4) w { w with machine := c'.machine } := by
  obtain ⟨m₀, w, -, -, l4, -, hboot, hk, hrun, hs, hu, -⟩ := exists_two_programs
  have hmap : MapTo.Documented bootInfo (documentedMapTo bootInfo) := fun _ _ _ _ _ _ => rfl
  have hguard := guarded_of_events hmap hboot hk hrun
  have h0 : (0x600000000000 : UInt64) ≠ 0 := by decide
  obtain ⟨mem, hread, -⟩ := CallState.sysRead_of_key (s := keyTyped w l4) (b := 0x61)
    (fun page hup => hguard.not_userWalk_of_upper hk hs hup) h0
    (userMay_isolatedUserPage (hu true) 0 Nat.one_pos) rfl
  have hcall : (keyTyped w l4).dispatch bootInfo (documentedMapTo bootInfo) shellEnv sysReadNumber 0
      0x600000000000 1 0 = some _ := congrArg some hread
  obtain ⟨c', hstate, -, hreach, -⟩ :=
    calls_are_stores hmap hboot hk hrun hs rfl rfl (by decide) hcall
  obtain rfl := Option.some.inj hstate
  exact ⟨w, l4, _, m₀, hcall, hreach⟩

end World
