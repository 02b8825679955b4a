/-
# Open files

`open_file`, `read_open_file` and `close_file` (scheduler/mod.rs) work on the record of
`state.current`.  A file is buffered in full when it is opened, a read slices out of
the buffer and advances the offset, and the descriptor is the index of the slot plus
`FIRST_FILE_FD`.

The machine here is the one of `Preemption.lean` with these three calls added: a
thread makes them from its own code, between any two steps of the scheduler.  Each
thread's open files are the streams of `Streams.lean`, with the thread as the owner and
the descriptor as the handle (`streams`), and every step is an event of that table
(`fileStep_trace`).  The law of a session then holds of every run
(`open_files_are_streams`).
-/
import Velora.Launch
import Velora.Streams

/-- `FIRST_FILE_FD` -/
def firstFileFd : UInt64 := 2

/-! ## The three calls -/

/-- The slot of a descriptor: `fd.checked_sub(FIRST_FILE_FD)`, then `get_mut` with it. -/
def fileSlot (fd : UInt64) : Option (Fin maxOpenFiles) :=
  if fd < firstFileFd then none
  else if h : (fd - firstFileFd).toNat < maxOpenFiles then some ⟨(fd - firstFileFd).toNat, h⟩
  else none

/-- `slot as u64 + FIRST_FILE_FD` -/
def slotFd (slot : Fin maxOpenFiles) : UInt64 :=
  UInt64.ofNat slot.val + firstFileFd

namespace Thread

/-- `open_file` on the caller's record. -/
def openFile (data : List UInt8) (t : Thread) : Option UInt64 × Thread :=
  match (List.finRange maxOpenFiles).find? (fun slot => (t.openFiles slot).isNone) with
  | none => (none, t)
  | some slot =>
    (some (slotFd slot),
      { t with openFiles := Function.update t.openFiles slot (some ⟨data, 0⟩) })

/-- `read_open_file` on the caller's record, for a buffer of `len` bytes: what is copied into
the buffer.  The slice `data[offset..]` panics if the offset is past the end. -/
def readOpenFile (fd : UInt64) (len : ℕ) (t : Thread) :
    Except Panic (Option (List UInt8) × Thread) :=
  match fileSlot fd with
  | none => .ok (none, t)
  | some slot =>
    match t.openFiles slot with
    | none => .ok (none, t)
    | some file =>
      if file.offset ≤ file.data.length then
        let remaining := file.data.drop file.offset
        let count := min remaining.length len
        let file := { file with offset := file.offset + count }
        .ok (some (remaining.take count),
          { t with openFiles := Function.update t.openFiles slot (some file) })
      else .error .indexOutOfBounds

/-- `close_file` on the caller's record. -/
def closeFile (fd : UInt64) (t : Thread) : Bool × Thread :=
  match fileSlot fd with
  | none => (false, t)
  | some slot =>
    match t.openFiles slot with
    | none => (false, t)
    | some _ => (true, { t with openFiles := Function.update t.openFiles slot none })

end Thread

namespace SchedulerState

/-- `with_current_thread`: run `f` on the record of the current thread.  `CR3` is written and
put back around it. -/
def withCurrentThread {α : Type} (s : SchedulerState) (f : Thread → Except Panic (α × Thread)) :
    Except Panic (α × SchedulerState) := do
  let thread ← (s.threads s.current).expect .currentThreadMissing
  let (result, thread) ← f thread
  return (result, { s with threads := Function.update s.threads s.current (some thread) })

/-- `open_file` -/
def openFile (s : SchedulerState) (data : List UInt8) :
    Except Panic (Option UInt64 × SchedulerState) :=
  s.withCurrentThread (fun t => .ok (t.openFile data))

/-- `read_open_file` -/
def readOpenFile (s : SchedulerState) (fd : UInt64) (len : ℕ) :
    Except Panic (Option (List UInt8) × SchedulerState) :=
  s.withCurrentThread (Thread.readOpenFile fd len)

/-- `close_file` -/
def closeFile (s : SchedulerState) (fd : UInt64) : Except Panic (Bool × SchedulerState) :=
  s.withCurrentThread (fun t => .ok (t.closeFile fd))

end SchedulerState

/-! ## The machine with files -/

namespace Kernel

open SchedulerState

/-- A step of the scheduler, or a call about files by the running thread. -/
inductive FileAction
  | kernel (a : Action)
  | openFile (data : List UInt8)
  | readOpenFile (fd : UInt64) (len : ℕ)
  | closeFile (fd : UInt64)

/-- The running thread is in its own code, or in a system call it made. -/
def inOwnCode (k : Kernel) : Bool :=
  match k.point k.running with
  | .body | .ring3 => true
  | _ => false

/-- A call about files, by the running thread. -/
def fileCall {α : Type} (k : Kernel) (x : Except Panic (α × SchedulerState)) :
    Except Halt Kernel :=
  if k.inOwnCode then do
    let (_, s) ← orPanic x
    return { k with sched := s }
  else .error .refused

/-- One step of the machine with files. -/
def fileStep (k : Kernel) : FileAction → Except Halt Kernel
  | .kernel a => k.step a
  | .openFile data => k.fileCall (k.sched.openFile data)
  | .readOpenFile fd len => k.fileCall (k.sched.readOpenFile fd len)
  | .closeFile fd => k.fileCall (k.sched.closeFile fd)

/-! ## The streams behind it -/

/-- A thread, by its slot and the slot's generation. -/
abbrev Owner := ThreadId × UInt64

/-- The open files of the thread in a slot. -/
def filesOf (s : SchedulerState) (i : ThreadId) : Option (Fin maxOpenFiles → Option OpenFile) :=
  (s.threads i).map Thread.openFiles

/-- What is left of an open file. -/
def unread (f : OpenFile) : List UInt8 := f.data.drop f.offset

/-- What is left of the file that is open as `fd`. -/
def restOf (files : Fin maxOpenFiles → Option OpenFile) (fd : UInt64) : Option (List UInt8) :=
  ((fileSlot fd).bind files).map unread

/-- The open files of all threads as streams. -/
def streams (k : Kernel) : Streams.Table Owner UInt64 UInt8 := fun o fd =>
  if k.sched.slotGenerations o.1 = o.2 then (filesOf k.sched o.1).bind (restOf · fd) else none

/-- The running thread. -/
def caller (k : Kernel) : Owner :=
  (k.running, k.sched.slotGenerations k.running)

/-- The actions that run the locked half of `reap_zombie`. -/
def Action.reaps : Action → Bool
  | .yieldCall | .exitCall | .tick _ | .sysYield _ | .sysExit _ => true
  | _ => false

/-- What one step records: the outcome of a call, or the thread whose record is dropped. -/
def fileEvents (k : Kernel) (a : FileAction) (_ : Kernel) :
    List (Streams.Event Owner UInt64 UInt8) :=
  match a with
  | .kernel a =>
    match k.sched.zombie with
    | some z => if a.reaps then [.left (z, k.sched.slotGenerations z)] else []
    | none => []
  | .openFile data =>
    match k.sched.openFile data with
    | .ok (some fd, _) => [.opened k.caller fd data]
    | _ => []
  | .readOpenFile fd len =>
    match k.sched.readOpenFile fd len with
    | .ok (result, _) => [.read k.caller fd len result]
    | .error _ => []
  | .closeFile fd =>
    match k.sched.closeFile fd with
    | .ok (result, _) => [.closed k.caller fd result]
    | .error _ => []

/-- The history of a run. -/
def fileHistory (k : Kernel) (as : List FileAction) : List (Streams.Event Owner UInt64 UInt8) :=
  Runs.events fileStep fileEvents k as

/-! ## Descriptors and slots -/

theorem fileSlot_slotFd (slot : Fin maxOpenFiles) : fileSlot (slotFd slot) = some slot := by
  revert slot
  decide

theorem eq_slotFd_of_fileSlot {fd : UInt64} {slot : Fin maxOpenFiles}
    (h : fileSlot fd = some slot) : fd = slotFd slot := by
  unfold fileSlot at h
  split_ifs at h with hlt hslot
  cases h
  unfold slotFd
  rw [UInt64.ofNat_toNat, UInt64.sub_add_cancel]

/-- Replacing the file in a slot changes what its descriptor names and nothing else. -/
theorem restOf_update (files : Fin maxOpenFiles → Option OpenFile) (slot : Fin maxOpenFiles)
    (x : Option OpenFile) (fd : UInt64) :
    restOf (Function.update files slot x) fd =
      if fd = slotFd slot then x.map unread else restOf files fd := by
  unfold restOf
  split_ifs with hfd
  · rw [hfd, fileSlot_slotFd, Option.bind_some, Function.update_self]
  · cases hslot : fileSlot fd with
    | none => rfl
    | some slot' =>
      rw [Option.bind_some, Option.bind_some, Function.update_of_ne]
      rintro rfl
      exact hfd (eq_slotFd_of_fileSlot hslot)

/-! ## The calls on one record -/

/-- `open_file` takes a free slot, or finds none. -/
theorem openFile_spec {t t' : Thread} {data : List UInt8} {r : Option UInt64}
    (h : t.openFile data = (r, t')) :
    (r = none ∧ t' = t) ∨ ∃ slot, r = some (slotFd slot) ∧ t.openFiles slot = none ∧
      t' = { t with openFiles := Function.update t.openFiles slot (some ⟨data, 0⟩) } := by
  unfold Thread.openFile at h
  cases hfind : (List.finRange maxOpenFiles).find? (fun slot => (t.openFiles slot).isNone) with
  | none =>
    rw [hfind] at h
    cases h
    exact Or.inl ⟨rfl, rfl⟩
  | some slot =>
    rw [hfind] at h
    cases h
    refine Or.inr ⟨slot, rfl, ?_, rfl⟩
    simpa using List.find?_some hfind

/-- `read_open_file` of a descriptor that is not open. -/
theorem readOpenFile_of_none {t : Thread} {fd : UInt64} (h : restOf t.openFiles fd = none)
    (len : ℕ) : t.readOpenFile fd len = .ok (none, t) := by
  unfold Thread.readOpenFile
  cases hslot : fileSlot fd with
  | none => rfl
  | some slot =>
    have hnone : t.openFiles slot = none := by simpa [restOf, hslot] using h
    simp only [hnone]

/-- `read_open_file` of an open descriptor returns the front of what is left. -/
theorem readOpenFile_of_some {t : Thread} {fd : UInt64} {rest : List UInt8}
    (h : restOf t.openFiles fd = some rest)
    (hok : ∀ slot f, t.openFiles slot = some f → f.offset ≤ f.data.length) (len : ℕ) :
    ∃ slot f, fd = slotFd slot ∧ f.offset ≤ f.data.length ∧ unread f = rest.drop len ∧
      t.readOpenFile fd len = .ok (some (rest.take len),
        { t with openFiles := Function.update t.openFiles slot (some f) }) := by
  cases hslot : fileSlot fd with
  | none => simp [restOf, hslot] at h
  | some slot =>
    obtain ⟨f, hf, rfl⟩ : ∃ f, t.openFiles slot = some f ∧ unread f = rest := by
      simpa [restOf, hslot] using h
    have hle := hok slot f hf
    have hlen : (f.data.drop f.offset).length = f.data.length - f.offset := List.length_drop
    refine ⟨slot, { f with offset := f.offset + min (f.data.drop f.offset).length len },
      eq_slotFd_of_fileSlot hslot, ?_, ?_, ?_⟩
    · show f.offset + min (f.data.drop f.offset).length len ≤ f.data.length
      omega
    · show f.data.drop (f.offset + min (f.data.drop f.offset).length len) =
        (f.data.drop f.offset).drop len
      rw [← List.drop_drop]
      rcases Nat.le_total (f.data.drop f.offset).length len with hl | hl
      · rw [Nat.min_eq_left hl, List.drop_length, List.drop_of_length_le hl]
      · rw [Nat.min_eq_right hl]
    · have htake : (f.data.drop f.offset).take (min (f.data.drop f.offset).length len) =
          (f.data.drop f.offset).take len := by
        rcases Nat.le_total (f.data.drop f.offset).length len with hl | hl
        · rw [Nat.min_eq_left hl, List.take_length, List.take_of_length_le hl]
        · rw [Nat.min_eq_right hl]
      simp only [Thread.readOpenFile, hslot, hf, if_pos hle, htake]
      rfl

theorem closeFile_of_none {t : Thread} {fd : UInt64} (h : restOf t.openFiles fd = none) :
    t.closeFile fd = (false, t) := by
  unfold Thread.closeFile
  cases hslot : fileSlot fd with
  | none => rfl
  | some slot =>
    have hnone : t.openFiles slot = none := by simpa [restOf, hslot] using h
    simp only [hnone]

theorem closeFile_of_some {t : Thread} {fd : UInt64} {rest : List UInt8}
    (h : restOf t.openFiles fd = some rest) :
    ∃ slot, fd = slotFd slot ∧ t.closeFile fd =
      (true, { t with openFiles := Function.update t.openFiles slot none }) := by
  cases hslot : fileSlot fd with
  | none => simp [restOf, hslot] at h
  | some slot =>
    obtain ⟨f, hf, -⟩ : ∃ f, t.openFiles slot = some f ∧ unread f = rest := by
      simpa [restOf, hslot] using h
    refine ⟨slot, eq_slotFd_of_fileSlot hslot, ?_⟩
    simp only [Thread.closeFile, hslot, hf]

/-! ## Steps of the scheduler -/

theorem filesOf_of_frozen {s s' : SchedulerState} {i : ThreadId}
    (h : (s'.threads i).map Thread.frozen = (s.threads i).map Thread.frozen) :
    filesOf s' i = filesOf s i := by
  have hmap : ∀ o : Option Thread, o.map Thread.openFiles =
      (o.map Thread.frozen).map Thread.openFiles := by
    intro o
    cases o <;> rfl
  rw [filesOf, hmap, h, ← hmap]
  rfl

theorem filesOf_mapThread (s : SchedulerState) (j : ThreadId) {f : Thread → Thread}
    (hf : ∀ t, (f t).openFiles = t.openFiles) (i : ThreadId) :
    filesOf (s.mapThread j f) i = filesOf s i := by
  unfold filesOf
  rw [threads_mapThread_apply]
  split_ifs
  · cases s.threads i with
    | none => rfl
    | some t => exact congrArg some (hf t)
  · rfl

theorem filesOf_reapTake (s : SchedulerState) (i : ThreadId) :
    filesOf s.reapTake.2 i = if s.zombie = some i then none else filesOf s i := by
  unfold filesOf
  rw [s.reapTake_spec.2.2.2.2.2.2 i]
  split_ifs <;> rfl

/-- What a step of the scheduler does to the open files. -/
inductive FilesMove (k : Kernel) (a : Action) (k' : Kernel) : Prop
  | kept (ha : a.reaps = false)
      (hgen : k'.sched.slotGenerations = k.sched.slotGenerations)
      (hfiles : ∀ i, filesOf k'.sched i = filesOf k.sched i)
  /-- The record of the zombie, if there is one, is dropped. -/
  | reaped (ha : a.reaps = true)
      (hgen : k'.sched.slotGenerations = k.sched.slotGenerations)
      (hfiles : ∀ i, filesOf k'.sched i =
        if k.sched.zombie = some i then none else filesOf k.sched i)
  /-- A slot is populated with a thread that has no file open. -/
  | spawned (ha : a.reaps = false) (id : ThreadId) (hfree : filesOf k.sched id = none)
      (hnew : filesOf k'.sched id = some (fun _ => none))
      (hgen : ∀ i, i ≠ id → k'.sched.slotGenerations i = k.sched.slotGenerations i)
      (hfiles : ∀ i, i ≠ id → filesOf k'.sched i = filesOf k.sched i)

theorem filesMove_of_install {k k' : Kernel} {a : Action} {base : ℕ} {e : Entry}
    {u : Option UserEntry} {pt : Option Frame} {id : ThreadId} (ha : a.reaps = false)
    (hi : k.sched.install (newThread base e pt u) = .ok (id, k'.sched)) : FilesMove k a k' := by
  obtain ⟨hfree, hthr, -, -, -, -, -, hgen⟩ := install_spec hi
  refine .spawned ha id (by rw [filesOf, hfree]; rfl) ?_ ?_ ?_
  · rw [filesOf, hthr, Function.update_self]
    rfl
  · intro i hne
    rw [hgen, Function.update_of_ne hne]
  · intro i hne
    rw [filesOf, hthr, Function.update_of_ne hne]
    rfl

/-- **One step of the scheduler.** -/
theorem filesMove_of_step {k k' : Kernel} {a : Action} (hstep : k.step a = .ok k') :
    FilesMove k a k' := by
  obtain ⟨-, hperf⟩ := step_eq_ok hstep
  have hgen₁ : k.sched.reapTake.2.slotGenerations = k.sched.slotGenerations :=
    k.sched.reapTake_spec.2.2.2.2.1
  -- a decision with `reap_zombie` in front
  have hreap : ∀ {b : Action}, b.reaps = true →
      (k'.sched.slotGenerations = k.reapZombie.sched.slotGenerations ∧
        ∀ i, (k'.sched.threads i).map Thread.frozen =
          (k.reapZombie.sched.threads i).map Thread.frozen) → FilesMove k b k' := by
    rintro b hb ⟨hgen, hrec⟩
    rw [reapZombie_sched] at hgen
    refine .reaped hb (hgen.trans hgen₁) (fun i => ?_)
    rw [← filesOf_reapTake, ← reapZombie_sched]
    exact filesOf_of_frozen (hrec i)
  cases a with
  | spawn base e =>
    obtain ⟨-, -, id, s, hi, rfl⟩ := perform_spawn_eq_ok hperf
    exact filesMove_of_install rfl hi
  | spawnIsolated base e pt =>
    obtain ⟨-, -, -, id, s, hi, rfl⟩ := perform_spawnIsolated_eq_ok hperf
    exact filesMove_of_install rfl hi
  | spawnUser base u pt =>
    obtain ⟨-, -, -, id, s, hi, rfl⟩ := perform_spawnUser_eq_ok hperf
    exact filesMove_of_install rfl hi
  | trampoline =>
    obtain ⟨⟨e, s⟩, htake, hperf⟩ := bind_eq_ok hperf
    cases hperf
    obtain rfl := takeEntry_eq_ok (orPanic_eq_ok htake)
    exact .kept rfl rfl (filesOf_mapThread k.sched k.sched.current (fun _ => rfl))
  | ring3Trampoline =>
    obtain ⟨⟨u, s⟩, htake, hperf⟩ := bind_eq_ok hperf
    cases hperf
    obtain rfl := takeUserEntry_eq_ok (orPanic_eq_ok htake)
    exact .kept rfl rfl (filesOf_mapThread k.sched k.sched.current (fun _ => rfl))
  | enterRing3 =>
    cases hperf
    exact .kept rfl rfl (fun _ => rfl)
  | yieldCall =>
    cases hperf
    refine .reaped rfl (by rw [reapCall_sched]; exact hgen₁) (fun i => ?_)
    rw [reapCall_sched, filesOf_reapTake]
  | exitCall =>
    cases hperf
    refine .reaped rfl (by rw [reapCall_sched]; exact hgen₁) (fun i => ?_)
    rw [reapCall_sched, filesOf_reapTake]
  | reapStep =>
    obtain ⟨c, dead, stage, -, rfl⟩ := perform_reapStep_eq_ok hperf
    refine .kept rfl ?_ (fun i => ?_)
    · rw [goto_sched, reapEffect_sched]
    · rw [goto_sched, reapEffect_sched]
  | yieldRest rsp =>
    obtain ⟨-, -, hgen, hrec⟩ := records_of_scheduleRest (orPanic_eq_ok hperf)
    exact .kept rfl hgen (fun i => filesOf_of_frozen (hrec i))
  | exitRest rsp =>
    obtain ⟨-, -, hgen, hrec⟩ := records_of_exitRest (orPanic_eq_ok hperf)
    exact .kept rfl hgen (fun i => filesOf_of_frozen (hrec i))
  | tick rsp => exact hreap rfl (records_of_scheduleRest (orPanic_eq_ok hperf)).2.2
  | sysYield rsp => exact hreap rfl (records_of_scheduleRest (orPanic_eq_ok hperf)).2.2
  | sysExit rsp => exact hreap rfl (records_of_exitRest (orPanic_eq_ok hperf)).2.2

/-- A step of the scheduler is an event of the table, or none. -/
theorem FilesMove.trace {k k' : Kernel} {a : Action} (h : FilesMove k a k') :
    Streams.Trace k.streams (k.fileEvents (.kernel a) k') k'.streams := by
  have hquiet : a.reaps = false → k'.streams = k.streams →
      Streams.Trace k.streams (k.fileEvents (.kernel a) k') k'.streams := by
    intro ha heq
    have hnil : k.fileEvents (.kernel a) k' = [] := by
      unfold fileEvents
      cases k.sched.zombie with
      | none => rfl
      | some z => simp [ha]
    rw [hnil, heq]
    exact .nil
  cases h with
  | kept ha hgen hfiles =>
    refine hquiet ha ?_
    funext o fd
    rw [streams, streams, hgen, hfiles]
  | spawned ha id hfree hnew hgen hfiles =>
    refine hquiet ha ?_
    funext o fd
    unfold streams
    by_cases hid : o.1 = id
    · rw [hid, hfree, hnew]
      simp [restOf]
    · rw [hgen _ hid, hfiles _ hid]
  | reaped ha hgen hfiles =>
    unfold fileEvents
    cases hz : k.sched.zombie with
    | none =>
      have heq : k'.streams = k.streams := by
        funext o fd
        rw [streams, streams, hgen, hfiles, hz]
        rfl
      rw [heq]
      exact .nil
    | some z =>
      simp only [ha, if_true]
      have heq : k'.streams = k.streams.drop (z, k.sched.slotGenerations z) := by
        funext o fd
        rw [streams, hgen, hfiles, hz]
        by_cases ho : o = (z, k.sched.slotGenerations z)
        · rw [ho, Streams.Table.drop, Function.update_self, if_pos rfl]
          simp
        · rw [Streams.Table.drop_of_ne _ ho, streams]
          by_cases hg : k.sched.slotGenerations o.1 = o.2
          · have hne : ¬ (some z = some o.1) := by
              intro hc
              refine ho (Prod.ext (Option.some.inj hc).symm ?_)
              rw [← hg, Option.some.inj hc]
            rw [if_neg hne]
          · rw [if_neg hg, if_neg hg]
      rw [heq]
      exact .single (.left _)

/-! ## Steps of the threads -/

/-- Every offset is inside its buffer. -/
def FilesOk (s : SchedulerState) : Prop :=
  ∀ i files, filesOf s i = some files → ∀ slot f, files slot = some f →
    f.offset ≤ f.data.length

/-- The record of the current thread with other open files. -/
def setFiles (s : SchedulerState) (files : Fin maxOpenFiles → Option OpenFile) : SchedulerState :=
  s.mapThread s.current (fun t => { t with openFiles := files })

theorem setFiles_eq {s : SchedulerState} {t : Thread} (ht : s.threads s.current = some t)
    (files : Fin maxOpenFiles → Option OpenFile) :
    { s with
      threads := Function.update s.threads s.current (some { t with openFiles := files }) } =
      setFiles s files := by
  rw [setFiles, mapThread, ht]
  rfl

theorem setFiles_self {s : SchedulerState} {t : Thread} (ht : s.threads s.current = some t) :
    setFiles s t.openFiles = s := by
  rw [← setFiles_eq ht, ← ht, Function.update_eq_self]

theorem filesOf_setFiles {s : SchedulerState} {t : Thread} (ht : s.threads s.current = some t)
    (files : Fin maxOpenFiles → Option OpenFile) (i : ThreadId) :
    filesOf (setFiles s files) i = if i = s.current then some files else filesOf s i := by
  unfold filesOf setFiles
  rw [threads_mapThread_apply]
  split_ifs with hi
  · rw [hi, ht]
    rfl
  · rfl

theorem withCurrentThread_eq {α : Type} {s : SchedulerState} {t : Thread}
    (ht : s.threads s.current = some t) (f : Thread → Except Panic (α × Thread)) {r : α}
    {files : Fin maxOpenFiles → Option OpenFile}
    (hf : f t = .ok (r, { t with openFiles := files })) :
    s.withCurrentThread f = .ok (r, setFiles s files) := by
  rw [← setFiles_eq ht]
  simp only [withCurrentThread, ht, Option.expect_some, bind, Except.bind, hf]
  rfl

/-- One call by the running thread: it changes the caller's open files, keeps the offsets
inside the buffers, and is the given history of the table. -/
structure Called (k : Kernel) (s : SchedulerState) (es : List (Streams.Event Owner UInt64 UInt8)) :
    Prop where
  files : ∃ files, s = setFiles k.sched files ∧
    ∀ slot f, files slot = some f → f.offset ≤ f.data.length
  trace : Streams.Trace k.streams es { k with sched := s }.streams

section Calls

variable {k : Kernel} {t : Thread}

/-- The table after a file of the caller has been replaced. -/
theorem streams_setFiles (hrun : k.running = k.sched.current)
    (ht : k.sched.threads k.sched.current = some t) (slot : Fin maxOpenFiles)
    (x : Option OpenFile) :
    { k with sched := setFiles k.sched (Function.update t.openFiles slot x) }.streams =
      k.streams.set k.caller (slotFd slot) (x.map unread) := by
  funext o fd
  show (if k.sched.slotGenerations o.1 = o.2 then
    (filesOf (setFiles k.sched (Function.update t.openFiles slot x)) o.1).bind (restOf · fd)
    else none) = _
  rw [filesOf_setFiles ht]
  by_cases hself : o = k.caller ∧ fd = slotFd slot
  · obtain ⟨rfl, rfl⟩ := hself
    have hcur : k.caller.1 = k.sched.current := hrun
    have hgen : k.sched.slotGenerations k.caller.1 = k.caller.2 := rfl
    rw [Streams.Table.set_self, if_pos hgen, if_pos hcur, Option.bind_some, restOf_update,
      if_pos rfl]
  · rw [Streams.Table.set_of_ne _ _ hself, streams]
    by_cases hg : k.sched.slotGenerations o.1 = o.2
    · rw [if_pos hg, if_pos hg]
      split_ifs with hcur
      · have ho : o = k.caller := by
          refine Prod.ext (hcur.trans hrun.symm) ?_
          rw [← hg, hcur, ← hrun]
          rfl
        have hfd : fd ≠ slotFd slot := fun hc => hself ⟨ho, hc⟩
        rw [Option.bind_some, restOf_update, if_neg hfd, hcur, filesOf, ht]
        rfl
      · rfl
    · rw [if_neg hg, if_neg hg]

/-- The caller's streams are its open files. -/
theorem streams_caller (hrun : k.running = k.sched.current)
    (ht : k.sched.threads k.sched.current = some t) (fd : UInt64) :
    k.streams k.caller fd = restOf t.openFiles fd := by
  have hcur : k.caller.1 = k.sched.current := hrun
  have hgen : k.sched.slotGenerations k.caller.1 = k.caller.2 := rfl
  rw [streams, if_pos hgen, hcur, filesOf, ht]
  rfl

theorem filesOk_caller (hok : FilesOk k.sched) (ht : k.sched.threads k.sched.current = some t) :
    ∀ slot f, t.openFiles slot = some f → f.offset ≤ f.data.length :=
  hok k.sched.current t.openFiles (by rw [filesOf, ht]; rfl)

theorem filesOk_update {files : Fin maxOpenFiles → Option OpenFile}
    (hok : ∀ slot f, files slot = some f → f.offset ≤ f.data.length) (slot : Fin maxOpenFiles)
    {x : Option OpenFile} (hx : ∀ f, x = some f → f.offset ≤ f.data.length) :
    ∀ slot' f, Function.update files slot x slot' = some f → f.offset ≤ f.data.length := by
  intro slot' f hf
  rw [Function.update_apply] at hf
  split_ifs at hf
  · exact hx f hf
  · exact hok slot' f hf

theorem called_unchanged (ht : k.sched.threads k.sched.current = some t) (hok : FilesOk k.sched)
    {es : List (Streams.Event Owner UInt64 UInt8)} (htrace : Streams.Trace k.streams es k.streams) :
    Called k k.sched es :=
  ⟨⟨t.openFiles, (setFiles_self ht).symm, filesOk_caller hok ht⟩, htrace⟩

/-- **`open_file`.** -/
theorem openFile_called (hrun : k.running = k.sched.current)
    (ht : k.sched.threads k.sched.current = some t) (hok : FilesOk k.sched) (data : List UInt8) :
    (k.sched.openFile data = .ok (none, k.sched) ∧ Called k k.sched []) ∨
    ∃ slot s, k.sched.openFile data = .ok (some (slotFd slot), s) ∧
      k.streams k.caller (slotFd slot) = none ∧
      Called k s [.opened k.caller (slotFd slot) data] := by
  rcases hcall : t.openFile data with ⟨r, t'⟩
  rcases openFile_spec hcall with ⟨rfl, rfl⟩ | ⟨slot, rfl, hfree, rfl⟩
  · refine Or.inl ⟨?_, called_unchanged ht hok .nil⟩
    rw [SchedulerState.openFile, withCurrentThread_eq ht _ (congrArg Except.ok hcall),
      setFiles_self ht]
  · have hnone : k.streams k.caller (slotFd slot) = none := by
      rw [streams_caller hrun ht, restOf, fileSlot_slotFd, Option.bind_some, hfree]
      rfl
    refine Or.inr ⟨slot, _, withCurrentThread_eq ht _ (congrArg Except.ok hcall), hnone,
      ⟨_, rfl, ?_⟩, ?_⟩
    · refine filesOk_update (filesOk_caller hok ht) slot (fun f hf => ?_)
      cases hf
      exact Nat.zero_le _
    · rw [streams_setFiles hrun ht]
      exact .single (.opened data hnone)

/-- **`read_open_file`.** -/
theorem readOpenFile_called (hrun : k.running = k.sched.current)
    (ht : k.sched.threads k.sched.current = some t) (hok : FilesOk k.sched) (fd : UInt64)
    (len : ℕ) :
    ∃ r s, k.sched.readOpenFile fd len = .ok (r, s) ∧
      (k.streams k.caller fd = none → r = none ∧ s = k.sched) ∧
      Called k s [.read k.caller fd len r] := by
  have hcaller := streams_caller hrun ht fd
  cases hrest : restOf t.openFiles fd with
  | none =>
    rw [hrest] at hcaller
    refine ⟨none, k.sched, ?_, fun _ => ⟨rfl, rfl⟩,
      called_unchanged ht hok (.single (.readNothing len hcaller))⟩
    rw [SchedulerState.readOpenFile,
      withCurrentThread_eq ht _ (readOpenFile_of_none hrest len), setFiles_self ht]
  | some rest =>
    rw [hrest] at hcaller
    obtain ⟨slot, f, rfl, hf, hunread, hread⟩ :=
      readOpenFile_of_some hrest (filesOk_caller hok ht) len
    refine ⟨_, _, withCurrentThread_eq ht _ hread, ?_, ⟨_, rfl, ?_⟩, ?_⟩
    · intro hc
      rw [hcaller] at hc
      cases hc
    · refine filesOk_update (filesOk_caller hok ht) slot (fun f' hf' => ?_)
      cases hf'
      exact hf
    · rw [streams_setFiles hrun ht, Option.map_some, hunread]
      exact .single (.read len hcaller)

/-- **`close_file`.** -/
theorem closeFile_called (hrun : k.running = k.sched.current)
    (ht : k.sched.threads k.sched.current = some t) (hok : FilesOk k.sched) (fd : UInt64) :
    ∃ r s, k.sched.closeFile fd = .ok (r, s) ∧
      (k.streams k.caller fd = none → r = false ∧ s = k.sched) ∧
      Called k s [.closed k.caller fd r] := by
  have hcaller := streams_caller hrun ht fd
  cases hrest : restOf t.openFiles fd with
  | none =>
    rw [hrest] at hcaller
    refine ⟨false, k.sched, ?_, fun _ => ⟨rfl, rfl⟩,
      called_unchanged ht hok (.single (.closedNothing hcaller))⟩
    rw [SchedulerState.closeFile,
      withCurrentThread_eq ht _ (congrArg Except.ok (closeFile_of_none hrest)), setFiles_self ht]
  | some rest =>
    rw [hrest] at hcaller
    obtain ⟨slot, rfl, hclose⟩ := closeFile_of_some hrest
    refine ⟨_, _, withCurrentThread_eq ht _ (congrArg Except.ok hclose), ?_, ⟨_, rfl, ?_⟩, ?_⟩
    · intro hc
      rw [hcaller] at hc
      cases hc
    · exact filesOk_update (filesOk_caller hok ht) slot (fun f hf => by cases hf)
    · rw [streams_setFiles hrun ht]
      exact .single (.closed hcaller)

end Calls

/-! ## Runs -/

/-- What holds between any two steps. -/
structure Filed (k : Kernel) : Prop where
  safe : k.sched.Safe
  context : k.InContext
  files : FilesOk k.sched

/-- At boot no file is open. -/
theorem filesOf_init {pt : Frame} {i : ThreadId} {files : Fin maxOpenFiles → Option OpenFile}
    (h : filesOf (init pt) i = some files) : files = fun _ => none := by
  have hthr : (init pt).threads i = if i = 0 then _ else none := rfl
  rw [filesOf, hthr] at h
  split_ifs at h
  · cases h
    rfl
  · cases h

theorem boot_filed (pt : Frame) (rsp rsp0 : ℕ) : (Kernel.boot pt rsp rsp0).Filed where
  safe := init_safe pt
  context := boot_inContext pt rsp rsp0
  files := by
    intro i files hfiles slot f hf
    rw [filesOf_init hfiles] at hf
    cases hf

theorem Filed.thread {k : Kernel} (h : k.Filed) :
    ∃ t, k.sched.threads k.sched.current = some t :=
  Option.isSome_iff_exists.mp (h.safe.occupied _ k.sched.current_mem_rotation)

/-- A call keeps the invariant: it touches nothing but the caller's open files. -/
theorem Called.filed {k : Kernel} {s : SchedulerState}
    {es : List (Streams.Event Owner UInt64 UInt8)} (h : Called k s es) (hk : k.Filed) :
    { k with sched := s }.Filed := by
  obtain ⟨files, rfl, hok⟩ := h.files
  obtain ⟨t, ht⟩ := hk.thread
  refine ⟨?_, ?_, ?_⟩
  · have hsec : CritSection (fun _ => True) k.sched (setFiles k.sched files) :=
      .touch _ _ (fun _ => ⟨rfl, rfl, rfl, rfl⟩)
    exact hsec.safe hk.safe
  · refine hk.context.congr rfl rfl rfl rfl rfl (Or.inl rfl) rfl ?_
    intro i t' ht'
    have ht'' : (setFiles k.sched files).threads i = some t' := ht'
    rw [setFiles, threads_mapThread_apply] at ht''
    split_ifs at ht''
    · obtain ⟨t₀, ht₀, rfl⟩ := Option.map_eq_some_iff.mp ht''
      exact ⟨t₀, ht₀, ⟨rfl, rfl, rfl, rfl⟩, rfl⟩
    · exact ⟨t', ht'', ⟨rfl, rfl, rfl, rfl⟩, rfl⟩
  · intro i files' hfiles' slot f hf
    have hfiles'' : filesOf (setFiles k.sched files) i = some files' := hfiles'
    rw [filesOf_setFiles ht] at hfiles''
    split_ifs at hfiles''
    · cases hfiles''
      exact hok slot f hf
    · exact hk.files i files' hfiles'' slot f hf

theorem FilesMove.filesOk {k k' : Kernel} {a : Action} (h : FilesMove k a k')
    (hok : FilesOk k.sched) : FilesOk k'.sched := by
  intro i files hfiles
  cases h with
  | kept _ _ hsame => exact hok i files (hsame i ▸ hfiles)
  | reaped _ _ hsame =>
    rw [hsame] at hfiles
    split_ifs at hfiles
    exact hok i files hfiles
  | spawned _ id _ hnew _ hsame =>
    by_cases hid : i = id
    · rw [hid, hnew] at hfiles
      cases hfiles
      intro slot f hf
      cases hf
    · exact hok i files (hsame i hid ▸ hfiles)

theorem fileCall_eq_ok {α : Type} {k k' : Kernel} {x : Except Panic (α × SchedulerState)}
    (h : k.fileCall x = .ok k') : ∃ r s, x = .ok (r, s) ∧ k' = { k with sched := s } := by
  unfold fileCall at h
  split_ifs at h
  obtain ⟨⟨r, s⟩, hx, h⟩ := bind_eq_ok h
  cases h
  exact ⟨r, s, orPanic_eq_ok hx, rfl⟩

/-- **One step is one event of the table.** -/
theorem fileStep_trace {k k' : Kernel} {a : FileAction} (hk : k.Filed)
    (hstep : k.fileStep a = .ok k') :
    k'.Filed ∧ Streams.Trace k.streams (k.fileEvents a k') k'.streams := by
  obtain ⟨t, ht⟩ := hk.thread
  have hrun := hk.context.running
  cases a with
  | kernel a =>
    have hmove := filesMove_of_step hstep
    obtain ⟨hs, hc⟩ := step_inContext hk.safe hk.context hstep
    exact ⟨⟨hs, hc, hmove.filesOk hk.files⟩, hmove.trace⟩
  | openFile data =>
    obtain ⟨r, s, hx, rfl⟩ := fileCall_eq_ok hstep
    rcases openFile_called hrun ht hk.files data with ⟨hcall, hc⟩ | ⟨slot, s', hcall, -, hc⟩
    · obtain ⟨rfl, rfl⟩ := Prod.mk.inj (Except.ok.inj (hx.symm.trans hcall))
      refine ⟨hc.filed hk, ?_⟩
      simp only [fileEvents, hcall]
      exact hc.trace
    · obtain ⟨rfl, rfl⟩ := Prod.mk.inj (Except.ok.inj (hx.symm.trans hcall))
      refine ⟨hc.filed hk, ?_⟩
      simp only [fileEvents, hcall]
      exact hc.trace
  | readOpenFile fd len =>
    obtain ⟨r, s, hx, rfl⟩ := fileCall_eq_ok hstep
    obtain ⟨r', s', hcall, -, hc⟩ := readOpenFile_called hrun ht hk.files fd len
    obtain ⟨rfl, rfl⟩ := Prod.mk.inj (Except.ok.inj (hx.symm.trans hcall))
    refine ⟨hc.filed hk, ?_⟩
    simp only [fileEvents, hcall]
    exact hc.trace
  | closeFile fd =>
    obtain ⟨r, s, hx, rfl⟩ := fileCall_eq_ok hstep
    obtain ⟨r', s', hcall, -, hc⟩ := closeFile_called hrun ht hk.files fd
    obtain ⟨rfl, rfl⟩ := Prod.mk.inj (Except.ok.inj (hx.symm.trans hcall))
    refine ⟨hc.filed hk, ?_⟩
    simp only [fileEvents, hcall]
    exact hc.trace

/-- **A whole run is a history of the table.** -/
theorem fileHistory_trace {pt : Frame} {rsp rsp0 : ℕ} {k : Kernel} {as : List FileAction}
    (h : Runs.run fileStep (Kernel.boot pt rsp rsp0) as = .ok k) :
    k.Filed ∧ Streams.Trace (fun _ _ => none)
      ((Kernel.boot pt rsp rsp0).fileHistory as) k.streams := by
  refine Runs.events_invariant
    (J := fun k log => k.Filed ∧ Streams.Trace (fun _ _ => none) log k.streams) h
    ⟨boot_filed pt rsp rsp0, ?_⟩ ?_
  · have hempty : (Kernel.boot pt rsp rsp0).streams = fun _ _ => none := by
      funext o fd
      rw [streams]
      split_ifs
      · show (filesOf (init pt) o.1).bind (restOf · fd) = none
        cases hf : filesOf (init pt) o.1 with
        | none => rfl
        | some files =>
          rw [filesOf_init hf]
          simp [restOf]
      · rfl
    rw [hempty]
    exact .nil
  · rintro u a v log ⟨hu, hlog⟩ - hstep
    obtain ⟨hv, ht⟩ := fileStep_trace hu hstep
    exact ⟨hv, hlog.append ht⟩

/-- The descriptors a record has open. -/
def openFds (t : Thread) : List UInt64 :=
  ((List.finRange maxOpenFiles).filter (fun slot => (t.openFiles slot).isSome)).map slotFd

theorem slotFd_injective : Function.Injective slotFd := by
  decide

theorem mem_openFds {t : Thread} {fd : UInt64} :
    fd ∈ openFds t ↔ (restOf t.openFiles fd).isSome = true := by
  rw [openFds, List.mem_map, restOf, Option.isSome_map]
  constructor
  · rintro ⟨slot, hslot, rfl⟩
    rw [fileSlot_slotFd]
    exact (List.mem_filter.mp hslot).2
  · intro hsome
    cases hslot : fileSlot fd with
    | none => simp [hslot] at hsome
    | some slot =>
      rw [hslot] at hsome
      exact ⟨slot, List.mem_filter.mpr ⟨List.mem_finRange slot, hsome⟩,
        (eq_slotFd_of_fileSlot hslot).symm⟩

theorem openFds_nodup (t : Thread) : (openFds t).Nodup :=
  ((List.nodup_finRange _).filter _).map slotFd_injective

theorem length_openFds (t : Thread) : (openFds t).length ≤ maxOpenFiles := by
  rw [openFds, List.length_map]
  exact (List.length_filter_le _ _).trans (List.length_finRange).le

/-- The descriptor a call is about. -/
def FileAction.fd (k : Kernel) : FileAction → Option UInt64
  | .kernel _ => none
  | .openFile data => (k.sched.openFile data).toOption.bind Prod.fst
  | .readOpenFile fd _ => some fd
  | .closeFile fd => some fd

/-- A call changes no stream but the one it is about. -/
theorem fileStep_frame {k k' : Kernel} {a : FileAction} (hk : k.Filed)
    (hstep : k.fileStep a = .ok k') (ha : ∀ b, a ≠ .kernel b) {o : Owner} {fd : UInt64}
    (hne : ¬ (o = k.caller ∧ a.fd k = some fd)) : k'.streams o fd = k.streams o fd := by
  have hstep' := (fileStep_trace hk hstep).2
  have hset : ∀ {fd' x}, a.fd k = some fd' →
      k.streams.set k.caller fd' x o fd = k.streams o fd := by
    intro fd' x hfd
    refine Streams.Table.set_of_ne _ _ ?_
    rintro ⟨ho, rfl⟩
    exact hne ⟨ho, hfd⟩
  cases a with
  | kernel b => exact absurd rfl (ha b)
  | openFile data =>
    obtain ⟨r, s, hx, -⟩ := fileCall_eq_ok hstep
    simp only [fileEvents, hx] at hstep'
    cases r with
    | none =>
      generalize k'.streams = U at hstep'
      cases hstep'
      rfl
    | some fd' =>
      have hfd : (FileAction.openFile data).fd k = some fd' := by simp [FileAction.fd, hx,
        Except.toOption]
      generalize k'.streams = U at hstep'
      cases hstep' with
      | cons hs ht =>
        cases ht
        cases hs
        exact hset hfd
  | readOpenFile fd' len =>
    obtain ⟨r, s, hx, -⟩ := fileCall_eq_ok hstep
    simp only [fileEvents, hx] at hstep'
    generalize k'.streams = U at hstep'
    cases hstep' with
    | cons hs ht =>
      cases ht
      cases hs with
      | read => exact hset rfl
      | readNothing => rfl
  | closeFile fd' =>
    obtain ⟨r, s, hx, -⟩ := fileCall_eq_ok hstep
    simp only [fileEvents, hx] at hstep'
    generalize k'.streams = U at hstep'
    cases hstep' with
    | cons hs ht =>
      cases ht
      cases hs with
      | closed => exact hset rfl
      | closedNothing => rfl

/-- **File descriptors are independent sequential streams.**  Along every run from boot:

* the history of the calls is one of the table of streams;
* between an `open_file` that returns `fd` and the close of `fd` or the end of the thread, every
  read of `fd` by that thread succeeds, and the reads together return the prefix of the data of
  the length they ask for, or all of it;
* a read or close of a descriptor that is not open in the caller reports so and changes nothing;
* a call changes no stream of another thread and none of another descriptor;
* `open_file` never returns 0, 1 or a descriptor that is open;
* the open descriptors of a thread are distinct and at most `MAX_OPEN_FILES`;
* no read panics: `data[offset..]` is in range. -/
theorem open_files_are_streams {pt : Frame} {rsp rsp0 : ℕ} {k : Kernel} {as : List FileAction}
    (h : Runs.run fileStep (Kernel.boot pt rsp rsp0) as = .ok k) :
    Streams.Trace (fun _ _ => none) ((Kernel.boot pt rsp rsp0).fileHistory as) k.streams ∧
    (∀ before o fd data mid after, (Kernel.boot pt rsp rsp0).fileHistory as =
        before ++ .opened o fd data :: (mid ++ after) →
      (∀ e ∈ mid, e.ends o fd = false) →
      (∀ n r, .read o fd n r ∈ mid → r.isSome = true) ∧
        Streams.delivered o fd mid = data.take (Streams.requested o fd mid)) ∧
    (∀ fd, k.streams k.caller fd = none →
      (∀ len, k.sched.readOpenFile fd len = .ok (none, k.sched)) ∧
        k.sched.closeFile fd = .ok (false, k.sched)) ∧
    (∀ a k', k.fileStep a = .ok k' → (∀ b, a ≠ .kernel b) →
      ∀ o fd, ¬ (o = k.caller ∧ a.fd k = some fd) → k'.streams o fd = k.streams o fd) ∧
    (∀ data fd s, k.sched.openFile data = .ok (some fd, s) →
      fd ≠ 0 ∧ fd ≠ 1 ∧ k.streams k.caller fd = none) ∧
    (∀ i t, k.sched.threads i = some t → (openFds t).Nodup ∧
      (openFds t).length ≤ maxOpenFiles ∧
      ∀ fd, fd ∈ openFds t ↔ (k.streams (i, k.sched.slotGenerations i) fd).isSome = true) ∧
    (∀ fd len p, k.sched.readOpenFile fd len ≠ .error p) := by
  obtain ⟨hk, htrace⟩ := fileHistory_trace h
  obtain ⟨t, ht⟩ := hk.thread
  have hrun := hk.context.running
  refine ⟨htrace, ?_, ?_, fun a k' hstep ha o fd hne => fileStep_frame hk hstep ha hne, ?_, ?_, ?_⟩
  · intro before o fd data mid after heq hends
    rw [heq] at htrace
    obtain ⟨T, -, htrace⟩ := htrace.split
    cases htrace with
    | cons hopen hrest =>
      obtain ⟨U, hmid, -⟩ := hrest.split
      cases hopen with
      | opened _ hfree =>
        obtain ⟨hreads, hdel, -⟩ := hmid.session (Streams.Table.set_self _ _ _ _) hends
        exact ⟨hreads, hdel⟩
  · intro fd hnone
    refine ⟨fun len => ?_, ?_⟩
    · obtain ⟨r, s, hcall, hr, -⟩ := readOpenFile_called hrun ht hk.files fd len
      obtain ⟨rfl, rfl⟩ := hr hnone
      exact hcall
    · obtain ⟨r, s, hcall, hr, -⟩ := closeFile_called hrun ht hk.files fd
      obtain ⟨rfl, rfl⟩ := hr hnone
      exact hcall
  · intro data fd s hcall
    rcases openFile_called hrun ht hk.files data with ⟨hc, -⟩ | ⟨slot, s', hc, hnone, -⟩
    · rw [hcall] at hc
      cases hc
    · rw [hcall] at hc
      cases hc
      have hfds : ∀ slot : Fin maxOpenFiles, slotFd slot ≠ 0 ∧ slotFd slot ≠ 1 := by decide
      exact ⟨(hfds slot).1, (hfds slot).2, hnone⟩
  · intro i t' ht'
    refine ⟨openFds_nodup t', length_openFds t', fun fd => ?_⟩
    rw [mem_openFds, streams, if_pos rfl, filesOf, ht']
    rfl
  · intro fd len p hc
    obtain ⟨r, s, hcall, -⟩ := readOpenFile_called hrun ht hk.files fd len
    rw [hcall] at hc
    cases hc

/-- Two threads open a file each under the same descriptor and read them in turns; the first
closes its file and opens another one. -/
def twoReadersRun : List FileAction :=
  [.openFile [1, 2, 3, 4, 5], .kernel (.spawn 0x10000 (.function 1)), .readOpenFile 2 2,
   .kernel (.tick 100), .kernel .trampoline, .openFile [7, 8, 9], .readOpenFile 2 1,
   .kernel (.tick 200), .readOpenFile 2 2, .readOpenFile 3 8, .kernel (.tick 300),
   .readOpenFile 2 8, .kernel (.tick 400), .readOpenFile 2 2, .closeFile 2, .openFile [6]]

theorem open_files_are_streams_twoReadersRun :
    ∃ k, Runs.run fileStep (Kernel.boot 1 0 0) twoReadersRun = .ok k ∧
      Streams.delivered (0, 1) 2 (((Kernel.boot 1 0 0).fileHistory twoReadersRun).take 8 |>.drop 1) =
        [1, 2, 3, 4, 5] ∧
      Streams.delivered (1, 1) 2 ((Kernel.boot 1 0 0).fileHistory twoReadersRun) = [7, 8, 9] ∧
      ∀ fd len p, k.sched.readOpenFile fd len ≠ .error p := by
  obtain ⟨k, hk, -⟩ := Runs.exists_ok_of_any
    (x := Runs.run fileStep (Kernel.boot 1 0 0) twoReadersRun) (fun _ => true) (by decide)
  have hstreams := open_files_are_streams hk
  have hsession := hstreams.2.1 [] (0, 1) 2 [1, 2, 3, 4, 5]
    (((Kernel.boot 1 0 0).fileHistory twoReadersRun).take 8 |>.drop 1)
    (((Kernel.boot 1 0 0).fileHistory twoReadersRun).drop 8) (by decide) (by decide)
  refine ⟨k, hk, ?_, by decide, hstreams.2.2.2.2.2.2⟩
  rw [hsession.2]
  decide

end Kernel
