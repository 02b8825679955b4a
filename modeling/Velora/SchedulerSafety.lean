/-
# The rotation and the scheduler's safety invariant

The current thread followed by the ready queue is the **rotation**.  Seen through
it every critical section of `Scheduler.lean` is a list operation: a schedule
rotates by one, an exit drops the head, a spawn appends, a reap leaves it alone.

`Safe` is the invariant that carries the scheduler: the rotation has no duplicates
and lists occupied slots only, it contains the boot thread, and the recorded
zombie is an occupied slot outside it.  Each section gets one specification lemma
(`install_spec`, `scheduleRest_spec`, ...) and keeps `Safe`; in a safe state the
assertions of `schedule` and `exit_current_thread` cannot fire.
-/
import Velora.Scheduler

namespace ReadyQueue

theorem popFront_eq_none {q : ReadyQueue} (h : popFront q = none) : q.toList = [] := by
  unfold popFront at h
  split_ifs at h with hlen
  exact q.toList_eq_nil_iff.mpr hlen

theorem popFront_eq_some {q q' : ReadyQueue} {id : ThreadId} (h : popFront q = some (id, q')) :
    q.toList = id :: q'.toList := by
  unfold popFront at h
  split_ifs at h with hlen
  cases h
  exact q.toList_eq_cons_pop hlen

theorem pushBack_eq_ok {q q' : ReadyQueue} {id : ThreadId} (h : pushBack q id = .ok q') :
    q'.toList = q.toList ++ [id] := by
  unfold pushBack at h
  split_ifs at h with hlen
  cases h
  exact q.toList_push id hlen

/-- A queue with a free cell takes another id. -/
theorem exists_pushBack {q : ReadyQueue} (id : ThreadId) (h : q.toList.length < maxThreads) :
    ∃ q', pushBack q id = .ok q' := by
  rw [RingBuffer.length_toList] at h
  exact ⟨q.push id h, by rw [pushBack, dif_pos h]⟩

end ReadyQueue

/-- A record without its stack pointer. -/
def Thread.frozen (t : Thread) : Thread := { t with stackPointer := 0 }

namespace SchedulerState

/-- The current thread, then the queued ones in order. -/
def rotation (s : SchedulerState) : List ThreadId :=
  s.current :: s.readyQueue.toList

/-- Slot `i` holds a thread. -/
def Occupied (s : SchedulerState) (i : ThreadId) : Prop := (s.threads i).isSome

/-! ## What each critical section does -/

theorem freeSlot_eq_some {s : SchedulerState} {id : ThreadId} (h : s.freeSlot = some id) :
    s.threads id = none := by
  have := List.find?_some h
  simpa using this

/-- **`install`**: a free slot gets the thread, its generation goes up by one, and the slot
joins the end of the rotation. -/
theorem install_spec {s s' : SchedulerState} {t : Thread} {id : ThreadId}
    (h : s.install t = .ok (id, s')) :
    s.threads id = none ∧ s'.threads = Function.update s.threads id (some t) ∧
      s'.rotation = s.rotation ++ [id] ∧ s'.zombie = s.zombie ∧
      s'.current = s.current ∧ s'.kernelPageTable = s.kernelPageTable ∧
      (s.slotGenerations id).toNat + 1 < 0x10000000000000000 ∧
      s'.slotGenerations = Function.update s.slotGenerations id (s.slotGenerations id + 1) := by
  unfold install at h
  obtain ⟨i, hslot, h⟩ := bind_eq_ok h
  obtain ⟨g, hgen, h⟩ := bind_eq_ok h
  obtain ⟨q, hq, h⟩ := bind_eq_ok h
  cases h
  have hfree := freeSlot_eq_some (Option.expect_eq_ok hslot)
  unfold nextGeneration at hgen
  split_ifs at hgen with hlt
  cases hgen
  refine ⟨hfree, rfl, ?_, rfl, rfl, rfl, hlt, rfl⟩
  show s.current :: q.toList = _
  rw [ReadyQueue.pushBack_eq_ok hq]
  rfl

theorem freeSlot_of_install {s s' : SchedulerState} {t : Thread} {id : ThreadId}
    (h : s.install t = .ok (id, s')) : s.freeSlot = some id := by
  unfold install at h
  obtain ⟨i, hslot, h⟩ := bind_eq_ok h
  obtain ⟨g, -, h⟩ := bind_eq_ok h
  obtain ⟨q, -, h⟩ := bind_eq_ok h
  cases h
  exact Option.expect_eq_ok hslot

/-- Generations only grow. -/
theorem install_generation {s s' : SchedulerState} {t : Thread} {id : ThreadId}
    (hi : s.install t = .ok (id, s')) (i : ThreadId) :
    s.slotGenerations i ≤ s'.slotGenerations i ∧
      (i = id → s.slotGenerations i < s'.slotGenerations i) := by
  obtain ⟨-, -, -, -, -, -, hlt, hgen⟩ := install_spec hi
  have hsucc : s.slotGenerations id < s.slotGenerations id + 1 := by
    rw [UInt64.lt_iff_toNat_lt, UInt64.toNat_add]
    have h1 : (1 : UInt64).toNat = 1 := rfl
    rw [h1, Nat.mod_eq_of_lt hlt]
    omega
  rw [hgen]
  by_cases h : i = id
  · subst h
    rw [Function.update_self]
    exact ⟨UInt64.le_of_lt hsucc, fun _ => hsucc⟩
  · rw [Function.update_of_ne h]
    exact ⟨UInt64.le_refl _, fun hc => absurd hc h⟩

/-- The locked half of `reap_zombie` forgets the zombie and empties its slot, and touches
nothing else. -/
theorem reapTake_spec (s : SchedulerState) :
    s.reapTake.2.zombie = none ∧ s.reapTake.2.rotation = s.rotation ∧
      s.reapTake.2.current = s.current ∧
      s.reapTake.2.kernelPageTable = s.kernelPageTable ∧
      s.reapTake.2.slotGenerations = s.slotGenerations ∧
      s.reapTake.1 = s.zombie.bind s.threads ∧
      (∀ i, s.reapTake.2.threads i = if s.zombie = some i then none else s.threads i) := by
  cases hz : s.zombie with
  | none =>
    have hs : s.reapTake = (none, s) := by rw [reapTake, hz]
    simp [hs, hz]
  | some z =>
    cases hd : s.threads z with
    | none =>
      have hs : s.reapTake = (none, { s with zombie := none }) := by rw [reapTake, hz]; simp [hd]
      rw [hs]
      refine ⟨rfl, rfl, rfl, rfl, rfl, by simp [hd], fun i => ?_⟩
      by_cases hi : z = i
      · subst hi; simp [hd]
      · simp [hi]
    | some dead =>
      have hs : s.reapTake = (some dead, { s with
          zombie := none, threads := Function.update s.threads z none }) := by
        rw [reapTake, hz]; simp [hd]
      rw [hs]
      refine ⟨rfl, rfl, rfl, rfl, rfl, by simp [hd], fun i => ?_⟩
      by_cases hi : z = i
      · subst hi; simp
      · simp [hi, Function.update_of_ne (Ne.symm hi)]

theorem prepareSwitch_spec {s : SchedulerState} {previous next : ThreadId} {sw : Switch}
    (h : s.prepareSwitch previous next = .ok sw) :
    ∃ t, s.threads next = some t ∧ s.Occupied previous ∧
      sw = { previous := previous, next := next, newStack := t.stackPointer,
             newPageTable := t.pageTable.getD s.kernelPageTable,
             newRsp0 := t.kernelStackTop } := by
  unfold prepareSwitch at h
  obtain ⟨p, hp, h⟩ := bind_eq_ok h
  obtain ⟨t, ht, h⟩ := bind_eq_ok h
  cases h
  exact ⟨t, Option.expect_eq_ok ht, by simp [Occupied, Option.expect_eq_ok hp], rfl⟩

/-- **`schedule` past `interrupts::disable()`**: an empty queue changes nothing; otherwise
the rotation turns by one and the switch describes the new head. -/
theorem scheduleRest_spec {s s' : SchedulerState} {o : Option Switch}
    (h : s.scheduleRest = .ok (o, s')) :
    (o = none ∧ s' = s ∧ s.readyQueue.toList = []) ∨
    (∃ sw t rest, o = some sw ∧ s.rotation = s.current :: sw.next :: rest ∧
      s'.rotation = sw.next :: (rest ++ [s.current]) ∧ s'.current = sw.next ∧
      s'.threads = s.threads ∧ s'.zombie = s.zombie ∧
      s'.kernelPageTable = s.kernelPageTable ∧ s'.slotGenerations = s.slotGenerations ∧
      sw.previous = s.current ∧ s.threads sw.next = some t ∧ sw.newStack = t.stackPointer ∧
      sw.newPageTable = t.pageTable.getD s.kernelPageTable ∧
      sw.newRsp0 = t.kernelStackTop) := by
  unfold scheduleRest at h
  cases hpop : ReadyQueue.popFront s.readyQueue with
  | none =>
    rw [hpop] at h
    cases h
    exact Or.inl ⟨rfl, rfl, ReadyQueue.popFront_eq_none hpop⟩
  | some pair =>
    obtain ⟨next, queue⟩ := pair
    rw [hpop] at h
    obtain ⟨q, hpush, h⟩ := bind_eq_ok h
    obtain ⟨sw, hsw, h⟩ := bind_eq_ok h
    cases h
    obtain ⟨t, ht, -, rfl⟩ := prepareSwitch_spec hsw
    refine Or.inr ⟨_, t, queue.toList, rfl, ?_, ?_, rfl, rfl, rfl, rfl, rfl, rfl, ht,
      rfl, rfl, rfl⟩
    · rw [rotation, ReadyQueue.popFront_eq_some hpop]
    · show next :: q.toList = _
      rw [ReadyQueue.pushBack_eq_ok hpush]

/-- `schedule` without a switch changes nothing. -/
theorem scheduleRest_none {s s' : SchedulerState} (h : s.scheduleRest = .ok (none, s')) :
    s' = s := by
  rcases scheduleRest_spec h with ⟨-, hs, -⟩ | ⟨sw, t, rest, hsw, -⟩
  · exact hs
  · cases hsw

/-- **`exit_current_thread` past `interrupts::disable()`**: the head of the rotation leaves it
and becomes the zombie. -/
theorem exitRest_spec {s s' : SchedulerState} {sw : Switch}
    (h : s.exitRest = .ok (sw, s')) :
    ∃ t rest, s.current ≠ 0 ∧ s.rotation = s.current :: sw.next :: rest ∧
      s'.rotation = sw.next :: rest ∧ s'.current = sw.next ∧
      s'.threads = s.threads ∧ s'.zombie = some s.current ∧
      s'.kernelPageTable = s.kernelPageTable ∧ s'.slotGenerations = s.slotGenerations ∧
      sw.previous = s.current ∧ s.threads sw.next = some t ∧ sw.newStack = t.stackPointer ∧
      sw.newPageTable = t.pageTable.getD s.kernelPageTable ∧
      sw.newRsp0 = t.kernelStackTop := by
  unfold exitRest at h
  by_cases hid : s.current = 0
  · rw [if_pos hid] at h
    cases h
  · rw [if_neg hid] at h
    obtain ⟨⟨next, queue⟩, hpop, h⟩ := bind_eq_ok h
    obtain ⟨sw', hsw, h⟩ := bind_eq_ok h
    cases h
    obtain ⟨t, ht, -, rfl⟩ := prepareSwitch_spec hsw
    refine ⟨t, queue.toList, hid, ?_, rfl, rfl, rfl, rfl, rfl, rfl, rfl, ht, rfl, rfl, rfl⟩
    rw [rotation, ReadyQueue.popFront_eq_some (Option.expect_eq_ok hpop)]

/-- Changing a record in place touches its slot only. -/
theorem threads_mapThread_apply (s : SchedulerState) (j : ThreadId) (f : Thread → Thread)
    (i : ThreadId) :
    (s.mapThread j f).threads i = if i = j then (s.threads i).map f else s.threads i := by
  show Function.update s.threads j _ i = _
  rw [Function.update_apply]
  split_ifs with h
  · rw [h]
  · rfl

/-- Changing a record in place empties no slot. -/
theorem isSome_mapThread (s : SchedulerState) (j : ThreadId) (f : Thread → Thread) (i : ThreadId) :
    ((s.mapThread j f).threads i).isSome = (s.threads i).isSome := by
  rw [threads_mapThread_apply]
  split_ifs
  · exact Option.isSome_map
  · rfl

/-- What `switch_to` leaves of a record: everything but the stack pointer. -/
theorem frozen_saveStackPointer (s : SchedulerState) (j : ThreadId) (rsp : ℕ) (i : ThreadId) :
    ((s.saveStackPointer j rsp).threads i).map Thread.frozen =
      (s.threads i).map Thread.frozen := by
  rw [saveStackPointer, threads_mapThread_apply]
  split_ifs with h
  · rw [Option.map_map]
    rfl
  · rfl

/-! ## The safety invariant -/

/-- **The scheduler's invariant.** -/
structure Safe (s : SchedulerState) : Prop where
  nodup : s.rotation.Nodup
  occupied : ∀ i ∈ s.rotation, s.Occupied i
  boot : 0 ∈ s.rotation
  zombie_out : ∀ z, s.zombie = some z → z ∉ s.rotation
  zombie_occupied : ∀ z, s.zombie = some z → s.Occupied z

theorem current_mem_rotation (s : SchedulerState) : s.current ∈ s.rotation :=
  List.mem_cons_self

/-- A rotation that only grows at its end has the same head. -/
theorem current_of_rotation_grows {s s' : SchedulerState} (h : s.rotation <+: s'.rotation) :
    s'.current = s.current := by
  obtain ⟨new, hnew⟩ := h
  exact (List.cons.inj hnew).1.symm

theorem init_safe (kernelPageTable : Frame) : (init kernelPageTable).Safe where
  nodup := by simp [rotation, init, ReadyQueue.new, RingBuffer.toList]
  occupied := by
    intro i hi
    have : i = 0 := by simpa [rotation, init, ReadyQueue.new, RingBuffer.toList] using hi
    subst this
    rfl
  boot := List.mem_cons_self
  zombie_out := by intro z hz; cases hz
  zombie_occupied := by intro z hz; cases hz

/-- `Safe` reads the records only through which slots are occupied. -/
theorem Safe.congr {s s' : SchedulerState} (h : s.Safe) (hrot : s'.rotation = s.rotation)
    (hzom : s'.zombie = s.zombie) (hocc : ∀ i, s.Occupied i → s'.Occupied i) : s'.Safe where
  nodup := hrot ▸ h.nodup
  occupied := fun i hi => hocc i (h.occupied i (hrot ▸ hi))
  boot := hrot ▸ h.boot
  zombie_out := fun z hz => hrot ▸ h.zombie_out z (hzom ▸ hz)
  zombie_occupied := fun z hz => hocc z (h.zombie_occupied z (hzom ▸ hz))

/-- Replacing a record by another keeps `Safe`. -/
theorem Safe.update {s : SchedulerState} (h : s.Safe) (i : ThreadId) (o : Option Thread)
    (ho : s.Occupied i → o.isSome) :
    Safe { s with threads := Function.update s.threads i o } := by
  refine h.congr rfl rfl (fun j hj => ?_)
  by_cases hji : j = i
  · subst hji
    simpa [Occupied] using ho hj
  · simpa [Occupied, Function.update_of_ne hji] using hj

theorem Safe.install {s s' : SchedulerState} {t : Thread} {id : ThreadId} (h : s.Safe)
    (hi : s.install t = .ok (id, s')) : s'.Safe := by
  obtain ⟨hfree, hthr, hrot, hzom, -⟩ := install_spec hi
  have hnot : id ∉ s.rotation := by
    intro hmem
    have := h.occupied id hmem
    rw [Occupied, hfree] at this
    cases this
  have hocc : ∀ i, s.Occupied i ∨ i = id → s'.Occupied i := by
    intro i hi
    rw [Occupied, hthr]
    by_cases hid : i = id
    · subst hid; simp
    · rw [Function.update_of_ne hid]
      exact hi.resolve_right hid
  refine ⟨?_, ?_, ?_, ?_, ?_⟩
  · rw [hrot, List.nodup_append]
    refine ⟨h.nodup, List.nodup_singleton _, ?_⟩
    rintro a ha b hb rfl
    exact hnot (List.mem_singleton.mp hb ▸ ha)
  · intro i hi
    rw [hrot, List.mem_append, List.mem_singleton] at hi
    exact hocc i (hi.imp_left (h.occupied i))
  · rw [hrot]
    exact List.mem_append_left _ h.boot
  · intro z hz hmem
    rw [hzom] at hz
    rw [hrot, List.mem_append, List.mem_singleton] at hmem
    rcases hmem with hmem | rfl
    · exact h.zombie_out z hz hmem
    · have := h.zombie_occupied z hz
      rw [Occupied, hfree] at this
      cases this
  · intro z hz
    exact hocc z (Or.inl (h.zombie_occupied z (hzom ▸ hz)))

theorem Safe.reapTake {s : SchedulerState} (h : s.Safe) : s.reapTake.2.Safe := by
  obtain ⟨hz, hrot, -, -, -, -, hthr⟩ := s.reapTake_spec
  refine ⟨hrot ▸ h.nodup, ?_, hrot ▸ h.boot, ?_, ?_⟩
  · intro i hi
    rw [hrot] at hi
    rw [Occupied, hthr, if_neg (fun hzi => h.zombie_out i hzi hi)]
    exact h.occupied i hi
  · intro z hz'
    rw [hz] at hz'
    cases hz'
  · intro z hz'
    rw [hz] at hz'
    cases hz'

theorem Safe.scheduleRest {s s' : SchedulerState} {o : Option Switch} (h : s.Safe)
    (hs : s.scheduleRest = .ok (o, s')) : s'.Safe := by
  rcases scheduleRest_spec hs with ⟨-, rfl, -⟩ | ⟨sw, t, rest, -, hrot, hrot', -, hthr, hzom, -⟩
  · exact h
  · have hperm : s'.rotation.Perm s.rotation := by
      rw [hrot, hrot', ← List.cons_append]
      exact List.perm_append_singleton _ _
    refine ⟨hperm.nodup_iff.mpr h.nodup, ?_, hperm.mem_iff.mpr h.boot, ?_, ?_⟩
    · intro i hi
      rw [Occupied, hthr]
      exact h.occupied i (hperm.mem_iff.mp hi)
    · intro z hz hmem
      exact h.zombie_out z (hzom ▸ hz) (hperm.mem_iff.mp hmem)
    · intro z hz
      rw [Occupied, hthr]
      exact h.zombie_occupied z (hzom ▸ hz)

theorem Safe.exitRest {s s' : SchedulerState} {sw : Switch} (h : s.Safe)
    (hs : s.exitRest = .ok (sw, s')) : s'.Safe := by
  obtain ⟨t, rest, hid, hrot, hrot', -, hthr, hzom, -⟩ := exitRest_spec hs
  have hnd := h.nodup
  rw [hrot, List.nodup_cons] at hnd
  have hsub : ∀ i ∈ s'.rotation, i ∈ s.rotation := by
    intro i hi
    rw [hrot' ] at hi
    rw [hrot]
    exact List.mem_cons_of_mem _ hi
  refine ⟨hrot' ▸ hnd.2, ?_, ?_, ?_, ?_⟩
  · intro i hi
    rw [Occupied, hthr]
    exact h.occupied i (hsub i hi)
  · -- the boot thread is in the rotation and is not the one that left
    have hboot := h.boot
    rw [hrot, List.mem_cons] at hboot
    rw [hrot']
    exact hboot.resolve_left (fun h0 => hid h0.symm)
  · intro z hz
    rw [hzom] at hz
    cases hz
    rw [hrot']
    exact hnd.1
  · intro z hz
    rw [hzom] at hz
    cases hz
    rw [Occupied, hthr]
    exact h.occupied _ s.current_mem_rotation

/-! ## The assertions hold -/

/-- The ready queue of a safe state has at least one free cell. -/
theorem Safe.queue_length_lt {s : SchedulerState} (h : s.Safe) :
    s.readyQueue.toList.length < maxThreads := by
  have := h.nodup.length_le_card
  rw [rotation, List.length_cons, Fintype.card_fin] at this
  omega

/-- In a safe state the lookups of a switch between threads of the rotation succeed. -/
theorem exists_prepareSwitch {s : SchedulerState} {previous next : ThreadId}
    (hp : s.Occupied previous) (hn : s.Occupied next) :
    ∃ sw, s.prepareSwitch previous next = .ok sw := by
  obtain ⟨p, hp⟩ := Option.isSome_iff_exists.mp hp
  obtain ⟨n, hn⟩ := Option.isSome_iff_exists.mp hn
  rw [prepareSwitch, hp, hn]
  exact ⟨_, rfl⟩

/-- **`schedule` does not panic in a safe state.** -/
theorem Safe.exists_scheduleRest {s : SchedulerState} (h : s.Safe) :
    ∃ r, s.scheduleRest = .ok r := by
  unfold SchedulerState.scheduleRest
  cases hpop : ReadyQueue.popFront s.readyQueue with
  | none => exact ⟨_, rfl⟩
  | some pair =>
    obtain ⟨next, queue⟩ := pair
    have hq := ReadyQueue.popFront_eq_some hpop
    have hlt := h.queue_length_lt
    rw [hq, List.length_cons] at hlt
    obtain ⟨q, hpush⟩ := ReadyQueue.exists_pushBack (q := queue) s.current (by omega)
    have hnext : s.Occupied next := by
      apply h.occupied
      rw [rotation, hq]
      simp
    obtain ⟨sw, hsw⟩ := exists_prepareSwitch
      (s := { s with readyQueue := q, current := next })
      (h.occupied _ s.current_mem_rotation) hnext
    refine ⟨(some sw, { s with readyQueue := q, current := next }), ?_⟩
    simp only [hpush, hsw, bind, Except.bind, pure, Except.pure]

/-- **`exit_current_thread` does not panic in a safe state**, unless the boot thread calls it. -/
theorem Safe.exists_exitRest {s : SchedulerState} (h : s.Safe) (hid : s.current ≠ 0) :
    ∃ r, s.exitRest = .ok r := by
  cases hpop : ReadyQueue.popFront s.readyQueue with
  | none =>
    -- the boot thread is queued, so the queue is not empty
    have hboot := h.boot
    rw [rotation, ReadyQueue.popFront_eq_none hpop, List.mem_singleton] at hboot
    exact absurd hboot.symm hid
  | some pair =>
    obtain ⟨next, queue⟩ := pair
    have hnext : s.Occupied next := by
      apply h.occupied
      rw [rotation, ReadyQueue.popFront_eq_some hpop]
      simp
    obtain ⟨sw, hsw⟩ := exists_prepareSwitch
      (s := { s with readyQueue := queue, current := next, zombie := some s.current })
      (h.occupied _ s.current_mem_rotation) hnext
    refine ⟨(sw, { s with readyQueue := queue, current := next, zombie := some s.current }), ?_⟩
    simp only [SchedulerState.exitRest, hid, if_false, hpop, Option.expect_some, hsw, bind,
      Except.bind, pure, Except.pure]

/-- In a safe state `install` fails only for want of a slot or of a generation. -/
theorem Safe.install_error {s : SchedulerState} {t : Thread} {p : Panic} (h : s.Safe)
    (hi : s.install t = .error p) : p = .threadTableFull ∨ p = .arithmeticOverflow := by
  unfold SchedulerState.install at hi
  cases hslot : s.freeSlot with
  | none =>
    rw [hslot] at hi
    cases hi
    exact Or.inl rfl
  | some id =>
    by_cases hgen : (s.slotGenerations id).toNat + 1 < 0x10000000000000000
    · obtain ⟨q, hq⟩ := ReadyQueue.exists_pushBack id h.queue_length_lt
      simp [hslot, nextGeneration, hgen, hq, bind, Except.bind, pure, Except.pure] at hi
    · simp [hslot, nextGeneration, hgen, bind, Except.bind] at hi
      exact Or.inr hi.symm

/-- **When a thread can be installed** in a safe state: there is a slot, and its generation can be
counted up. -/
theorem Safe.install_returns_iff {s : SchedulerState} {t : Thread} (h : s.Safe) :
    (∃ r, s.install t = .ok r) ↔ ∃ id, s.freeSlot = some id ∧
      (s.slotGenerations id).toNat + 1 < 0x10000000000000000 := by
  unfold SchedulerState.install
  cases hslot : s.freeSlot with
  | none => simp [bind, Except.bind]
  | some id =>
    obtain ⟨q, hq⟩ := ReadyQueue.exists_pushBack id h.queue_length_lt
    by_cases hgen : (s.slotGenerations id).toNat + 1 < 0x10000000000000000
    · simp [nextGeneration, hgen, hq, bind, Except.bind, pure, Except.pure]
    · simp [nextGeneration, hgen, bind, Except.bind]

end SchedulerState
