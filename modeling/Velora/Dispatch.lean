/-
# `int 0x80`

`dispatch` (syscall.rs) with the calls behind it: `sys_write`, `sys_open`, `sys_close` and
`sys_wait` are modelled here, `sys_read` and `sys_spawn` come from their own modules.  The
handler runs with interrupts disabled.

`sys_write` shows the caller's bytes and no others (`sysWrite_exact`), and no call but `SYS_SPAWN`
changes memory other than where its caller could have written itself (`dispatch_serves`).
-/
import Velora.SysSpawn

/-! ## The code -/

/-- `SYS_WRITE` -/
def sysWriteNumber : UInt64 := 0

/-- `SYS_READ` -/
def sysReadNumber : UInt64 := 1

/-- `SYS_EXIT` -/
def sysExitNumber : UInt64 := 2

/-- `SYS_OPEN` -/
def sysOpenNumber : UInt64 := 3

/-- `SYS_CLOSE` -/
def sysCloseNumber : UInt64 := 4

/-- `SYS_SPAWN` -/
def sysSpawnNumber : UInt64 := 5

/-- `SYS_WAIT` -/
def sysWaitNumber : UInt64 := 6

/-- What the handler finds: besides what `sys_spawn` uses, the queue of decoded keystrokes and what
has been printed so far.  Of the heap, `blocks` lists the kernel stacks; the buffers of open files
are with the threads. -/
structure CallState (σ : Type) extends SyscallState σ where
  inputQueue : InputQueue
  printed : List UInt8

/-- How `dispatch` ends. -/
inductive CallEnd (σ : Type)
  | returns (rax : UInt64) (s : CallState σ)
  /-- `exit_current_thread` -/
  | exits (s : CallState σ)
  /-- in the loop of `sys_wait`, at `yield_now` -/
  | waits (pid : Pid) (s : CallState σ)
  /-- the kernel itself takes a page fault -/
  | faulted

/-- The state that a call leaves. -/
def CallEnd.state {σ : Type} : CallEnd σ → Option (CallState σ)
  | .returns _ s | .exits s | .waits _ s => some s
  | .faulted => none

namespace CallState

variable {σ : Type}

/-- `print!` -/
def print (text : List UInt8) (s : CallState σ) : CallState σ :=
  { s with printed := s.printed ++ text }

/-- `kill_current_thread` -/
def killCurrentThread (reason : String) (s : CallState σ) : CallEnd σ :=
  .exits (s.print ("[proc]  thread killed: " ++ reason ++ "\n").toUTF8.toList)

/-- What `sys_write` prints. -/
def shown (staged : List UInt8) : List UInt8 :=
  if validUtf8 staged then staged else "<sys_write: invalid utf-8>".toUTF8.toList

/-- `sys_write` -/
def sysWrite (fd ptr len : UInt64) (s : CallState σ) : Except Panic (CallEnd σ) := do
  if fd ≠ 1 then return .returns u64Max s
  let len := min len.toNat 1024
  match ← copyFromUser s.machine.mem s.cr3 ptr.toNat len with
  | none => return s.killCurrentThread "syscall argument pointer not mapped for read"
  | some staged => return .returns (UInt64.ofNat len) (s.print (shown staged))

/-- What `sys_read` uses. -/
def readState (s : CallState σ) : ReadState where
  mem := s.machine.mem
  cr3 := s.cr3
  inputQueue := s.inputQueue
  sched := s.sched

/-- The state after `sys_read`. -/
def afterRead (s : CallState σ) (r : ReadState) : CallState σ :=
  { s with machine := s.machine.write r.mem, sched := r.sched, inputQueue := r.inputQueue }

/-- `sys_read`; the two checks of the destination give different reasons. -/
def sysRead (fd ptr len : UInt64) (s : CallState σ) : Except Panic (CallEnd σ) := do
  match ← s.readState.sysRead fd ptr len with
  | .returns rax r => return .returns rax (s.afterRead r)
  | .killed r =>
    if ← userRangeOk s.machine.mem s.cr3 ptr.toNat (min len.toNat 256) true then
      return (s.afterRead r).killCurrentThread "syscall argument pointer not mapped for write"
    else
      return (s.afterRead r).killCurrentThread
        "sys_read: destination pointer not mapped for write"
  | .faulted => return .faulted

/-- `sys_open`.  `CR3` is written and put back around `read_file`. -/
def sysOpen (env : SpawnEnv) (pathPtr pathLen : UInt64) (s : CallState σ) :
    Option (Except Panic (CallEnd σ)) :=
  if pathLen.toNat = 0 ∨ pathLen.toNat > 255 then some (.ok (.returns u64Max s))
  else
    match copyFromUser s.machine.mem s.cr3 pathPtr.toNat pathLen.toNat with
    | .error p => some (.error p)
    | .ok none =>
      some (.ok (s.killCurrentThread "syscall argument pointer not mapped for read"))
    | .ok (some path) =>
      if !validUtf8 path then some (.ok (.returns u64Max s))
      else
        (Fs.readFile env.heapRoom env.disk env.rounds path).map fun data => do
          match ← data with
          | none => return .returns u64Max s
          | some data =>
            let (fd, sched) ← s.sched.openFile data
            return .returns (fd.getD u64Max) { s with sched }

/-- `sys_close` -/
def sysClose (fd : UInt64) (s : CallState σ) : Except Panic (CallEnd σ) := do
  let (closed, sched) ← s.sched.closeFile fd
  return .returns (if closed then 0 else u64Max) { s with sched }

/-- `sys_wait`, up to its first `yield_now`. -/
def sysWait (pid : UInt64) (s : CallState σ) : Except Panic (CallEnd σ) := do
  if ← s.sched.threadAlive pid then return .waits pid s else return .returns u64Max s

variable (A : FrameAllocator σ) (mapTo : MapTo σ) (env : SpawnEnv)

/-- `sys_spawn` -/
def sysSpawn (pathPtr pathLen argsPtr argsLen : UInt64) (s : CallState σ) :
    Option (Except Panic (CallEnd σ)) :=
  (s.toSyscallState.sysSpawn A mapTo env pathPtr.toNat pathLen.toNat argsPtr.toNat
    argsLen.toNat).map fun r => r.map fun
      | .returns rax t => .returns rax { s with toSyscallState := t }
      | .killed => s.killCurrentThread "syscall argument pointer not mapped for read"

/-- `dispatch`; `none` if the loop over the clusters of a file has not ended. -/
def dispatch (number arg1 arg2 arg3 arg4 : UInt64) (s : CallState σ) :
    Option (Except Panic (CallEnd σ)) :=
  if number = sysWriteNumber then some (s.sysWrite arg1 arg2 arg3)
  else if number = sysReadNumber then some (s.sysRead arg1 arg2 arg3)
  else if number = sysOpenNumber then s.sysOpen env arg1 arg2
  else if number = sysCloseNumber then some (s.sysClose arg1)
  else if number = sysSpawnNumber then s.sysSpawn A mapTo env arg1 arg2 arg3 arg4
  else if number = sysWaitNumber then some (s.sysWait arg1)
  else if number = sysExitNumber then some (.ok (.exits s))
  else some (.ok (.returns u64Max s))

end CallState

/-! ## Copying in -/

section Copy

variable {mem : PhysMem} {cr3 : PhysFrame} {ptr len : ℕ}

/-- The pointer is one, and CPL 3 may read the bytes behind it. -/
def Readable (mem : PhysMem) (cr3 : PhysFrame) (ptr len : ℕ) : Prop :=
  ptr ≠ 0 ∧ (VirtAddr.tryNew ptr).isSome = true ∧ ∀ k < len, UserMay mem cr3 false (ptr + k)

/-- The bytes are in memory, from an address on. -/
def BytesAt (mem : PhysMem) (cr3 : PhysFrame) (ptr : ℕ) (bytes : List UInt8) : Prop :=
  ∀ k b, bytes[k]? = some b → imageByte mem cr3 (ptr + k) = some b.toBitVec

/-- The check is exact also for an empty range. -/
theorem userRangeOk_read
    (hupper : ∀ page : Page, 256 ≤ (page.start.p4Index : ℕ) → ¬ UserWalk mem false cr3 page.path)
    (hptr : ptr < 0x10000000000000000) (hlen : len ≤ 1024) :
    ∃ b, userRangeOk mem cr3 ptr len false = .ok b ∧ (b = true ↔ Readable mem cr3 ptr len) := by
  by_cases h0 : ptr = 0
  · exact ⟨false, by rw [userRangeOk, if_pos h0],
      iff_of_false Bool.false_ne_true fun h => h.1 h0⟩
  by_cases hl : len = 0
  · -- nothing is walked: the pointer only has to be an address
    subst hl
    rw [userRangeOk, if_neg h0]
    cases hv : VirtAddr.tryNew ptr with
    | none =>
      refine ⟨false, rfl, iff_of_false Bool.false_ne_true ?_⟩
      rintro ⟨-, hsome, -⟩
      rw [hv] at hsome
      cases hsome
    | some v =>
      exact ⟨true, rfl, iff_of_true rfl
        ⟨h0, by rw [hv]; rfl, fun k hk => absurd hk (Nat.not_lt_zero k)⟩⟩
  · obtain ⟨b, hb, hiff⟩ := userRangeOk_iff false hupper hptr h0 ⟨Nat.one_le_iff_ne_zero.2 hl, hlen⟩
    refine ⟨b, hb, hiff.trans ⟨fun h => ⟨h0, ?_, h⟩, fun h => h.2.2⟩⟩
    obtain ⟨hlow, -⟩ := h 0 (Nat.pos_of_ne_zero hl)
    rw [Nat.add_zero] at hlow
    rw [VirtAddr.tryNew_of_lower hlow]
    rfl

/-- What CPL 3 may read is there. -/
theorem UserMay.exists_imageByte {needWrite : Bool} {a : ℕ} (h : UserMay mem cr3 needWrite a) :
    ∃ b, imageByte mem cr3 a = some b := by
  obtain ⟨hlow, hsome⟩ := h.mapped
  rw [imageByte, VirtAddr.tryNew_of_lower hlow]
  exact Option.isSome_iff_exists.1 hsome

/-- **`copy_from_user`** copies the caller's bytes, or there are some it may not read. -/
theorem copyFromUser_cases
    (hupper : ∀ page : Page, 256 ≤ (page.start.p4Index : ℕ) → ¬ UserWalk mem false cr3 page.path)
    (hptr : ptr < 0x10000000000000000) (hlen : len ≤ 1024) :
    (¬ Readable mem cr3 ptr len ∧ copyFromUser mem cr3 ptr len = .ok none) ∨
      (Readable mem cr3 ptr len ∧ ∃ bytes, bytes.length = len ∧ BytesAt mem cr3 ptr bytes ∧
        copyFromUser mem cr3 ptr len = .ok (some bytes)) := by
  obtain ⟨b, hb, hiff⟩ := userRangeOk_read hupper hptr hlen
  rw [copyFromUser, hb]
  cases b with
  | false => exact Or.inl ⟨fun h => Bool.false_ne_true (hiff.2 h), rfl⟩
  | true =>
    have hread := hiff.1 rfl
    refine Or.inr ⟨hread, _, ?_, ?_, rfl⟩
    · rw [List.length_map, List.length_range]
    · intro k b hk
      rw [List.getElem?_map, Option.map_eq_some_iff] at hk
      obtain ⟨i, hi, rfl⟩ := hk
      obtain ⟨hlt, rfl⟩ := List.getElem?_eq_some_iff.1 hi
      rw [List.length_range] at hlt
      obtain ⟨x, hx⟩ := (hread.2.2 k hlt).exists_imageByte
      rw [List.getElem_range, hx]
      rfl

end Copy

/-! ## Copying out -/

/-- Bytes have been stored, at most `len` from an address on, all of them where CPL 3 may write. -/
def UserStores (mem : PhysMem) (cr3 : PhysFrame) (ptr len : ℕ) (mem' : PhysMem) : Prop :=
  ∃ data : List UInt8, data.length ≤ len ∧ (∀ k < data.length, UserMay mem cr3 true (ptr + k)) ∧
    storeBytes (location mem cr3) mem ptr data = some mem'

theorem UserStores.refl (mem : PhysMem) (cr3 : PhysFrame) (ptr len : ℕ) :
    UserStores mem cr3 ptr len mem :=
  ⟨[], Nat.zero_le len, fun k hk => absurd hk (Nat.not_lt_zero k), rfl⟩

/-- The state that `sys_read` leaves. -/
def ReadEnd.state : ReadEnd → Option ReadState
  | .returns _ s | .killed s => some s
  | .faulted => none

/-- Nothing but the open files of the running thread has changed. -/
def SchedulerState.SameButFiles (s s' : SchedulerState) : Prop :=
  s' = s ∨ ∃ files, s' = Kernel.setFiles s files

theorem SchedulerState.SameButFiles.exists_setFiles {s s' : SchedulerState} {t : Thread}
    (h : s.SameButFiles s') (ht : s.threads s.current = some t) :
    ∃ files, s' = Kernel.setFiles s files := by
  rcases h with rfl | hfiles
  · exact ⟨t.openFiles, (Kernel.setFiles_self ht).symm⟩
  · exact hfiles

/-- What is done with the open files of the running thread. -/
theorem SchedulerState.SameButFiles.of_withCurrentThread {α : Type} {s s' : SchedulerState}
    {f : Thread → Except Panic (α × Thread)} {x : α}
    (hf : ∀ t x t', f t = .ok (x, t') → ∃ files, t' = { t with openFiles := files })
    (h : s.withCurrentThread f = .ok (x, s')) : s.SameButFiles s' := by
  rw [SchedulerState.withCurrentThread] at h
  obtain ⟨t, ht, h⟩ := bind_eq_ok h
  obtain ⟨⟨x', t'⟩, hrun, h⟩ := bind_eq_ok h
  cases h
  obtain ⟨files, rfl⟩ := hf t _ _ hrun
  exact Or.inr ⟨files, Kernel.setFiles_eq (Option.expect_eq_ok ht) files⟩

theorem SchedulerState.sameButFiles_openFile {s s' : SchedulerState} {data : List UInt8}
    {fd : Option UInt64} (h : s.openFile data = .ok (fd, s')) : s.SameButFiles s' := by
  refine .of_withCurrentThread (fun t x t' ht => ?_) h
  rw [Thread.openFile] at ht
  split at ht
  · cases ht
    exact ⟨_, rfl⟩
  · cases ht
    exact ⟨_, rfl⟩

theorem SchedulerState.sameButFiles_closeFile {s s' : SchedulerState} {fd : UInt64} {closed : Bool}
    (h : s.closeFile fd = .ok (closed, s')) : s.SameButFiles s' := by
  refine .of_withCurrentThread (fun t x t' ht => ?_) h
  rw [Thread.closeFile] at ht
  split at ht
  · cases ht
    exact ⟨_, rfl⟩
  · split at ht
    · cases ht
      exact ⟨_, rfl⟩
    · cases ht
      exact ⟨_, rfl⟩

theorem SchedulerState.sameButFiles_readOpenFile {s s' : SchedulerState} {fd : UInt64} {len : ℕ}
    {staged : Option (List UInt8)} (h : s.readOpenFile fd len = .ok (staged, s')) :
    s.SameButFiles s' := by
  refine .of_withCurrentThread (fun t x t' ht => ?_) h
  rw [Thread.readOpenFile] at ht
  split at ht
  · cases ht
    exact ⟨_, rfl⟩
  · split at ht
    · cases ht
      exact ⟨_, rfl⟩
    · split_ifs at ht
      cases ht
      exact ⟨_, rfl⟩

namespace ReadState

variable {s : ReadState} {ptr len : ℕ} {e : ReadEnd}

/-- `copy_to_user` stores where CPL 3 may write, and does not fault. -/
theorem copyToUser_stores
    (hupper : ∀ page : Page, 256 ≤ (page.start.p4Index : ℕ) →
      ¬ UserWalk s.mem false s.cr3 page.path)
    (hptr : ptr < 0x10000000000000000) {data : List UInt8} (hle : data.length ≤ len)
    (hlen : len ≤ 256) (h : s.copyToUser ptr data = .ok e) :
    ∃ r, e.state = some r ∧ r.cr3 = s.cr3 ∧ r.sched = s.sched ∧
      UserStores s.mem s.cr3 ptr len r.mem := by
  rw [copyToUser] at h
  by_cases h0 : data.length = 0
  · rw [if_pos h0] at h
    cases h
    exact ⟨s, rfl, rfl, rfl, .refl _ _ _ _⟩
  rw [if_neg h0] at h
  have hrange : 1 ≤ data.length ∧ data.length ≤ 256 :=
    ⟨Nat.one_le_iff_ne_zero.2 h0, hle.trans hlen⟩
  obtain hdenied | ⟨hok, -, hmay⟩ := userRangeOk_write hupper hptr hrange
  · rw [hdenied] at h
    cases h
    exact ⟨s, rfl, rfl, rfl, .refl _ _ _ _⟩
  · obtain ⟨mem, hstore, -⟩ := storeBytes_spec (location s.mem s.cr3) s.mem ptr data
      (fun k hk => (hmay k hk).exists_location.imp' _ fun f hf => hf)
      (fun j hj k hk heq => location_inj hmay (hle.trans hlen) hj hk heq)
    rw [hok] at h
    simp only [hstore] at h
    cases h
    exact ⟨{ s with mem }, rfl, rfl, rfl, data, hle, hmay, hstore⟩

/-- What is read from a file fits the buffer. -/
theorem length_readOpenFile {sched sched' : SchedulerState} {fd : UInt64} {staged : List UInt8}
    (h : sched.readOpenFile fd len = .ok (some staged, sched')) : staged.length ≤ len := by
  rw [SchedulerState.readOpenFile, SchedulerState.withCurrentThread] at h
  obtain ⟨t, -, h⟩ := bind_eq_ok h
  obtain ⟨⟨r, t'⟩, hread, h⟩ := bind_eq_ok h
  cases h
  rw [Thread.readOpenFile] at hread
  split at hread
  · cases hread
  · split at hread
    · cases hread
    · split_ifs at hread
      cases hread
      rw [List.length_take]
      omega

/-- **`sys_read`** stores where CPL 3 may write, does not fault, and changes nothing else but the
caller's place in a file. -/
theorem sysRead_stores {fd ptr len : UInt64}
    (hupper : ∀ page : Page, 256 ≤ (page.start.p4Index : ℕ) →
      ¬ UserWalk s.mem false s.cr3 page.path)
    (h : s.sysRead fd ptr len = .ok e) :
    ∃ r, e.state = some r ∧ r.cr3 = s.cr3 ∧ s.sched.SameButFiles r.sched ∧
      UserStores s.mem s.cr3 ptr.toNat (min len.toNat 256) r.mem := by
  have hkeep : ∀ sched, s.sched.SameButFiles sched →
      ∃ r, some { s with sched } = some r ∧ r.cr3 = s.cr3 ∧ s.sched.SameButFiles r.sched ∧
        UserStores s.mem s.cr3 ptr.toNat (min len.toNat 256) r.mem :=
    fun sched hsched => ⟨{ s with sched }, rfl, rfl, hsched, .refl _ _ _ _⟩
  have hcap : min len.toNat 256 ≤ 256 := Nat.min_le_right _ _
  rw [sysRead] at h
  split_ifs at h
  · cases h
    exact hkeep s.sched (Or.inl rfl)
  · rw [sysReadStdin] at h
    obtain ⟨b, -, h⟩ := bind_eq_ok h
    cases b with
    | false =>
      cases h
      exact hkeep s.sched (Or.inl rfl)
    | true =>
      obtain ⟨r, hstate, hcr3, hsched, hstores⟩ := copyToUser_stores
        (s := { s with inputQueue := (popInput (min len.toNat 256) s.inputQueue).2 })
        hupper ptr.toNat_lt (popInput_spec _ s.inputQueue).1 hcap h
      exact ⟨r, hstate, hcr3, Or.inl hsched, hstores⟩
  · rw [sysReadFile] at h
    obtain ⟨b, -, h⟩ := bind_eq_ok h
    cases b with
    | false =>
      cases h
      exact hkeep s.sched (Or.inl rfl)
    | true =>
      obtain ⟨⟨staged, sched⟩, hread, h⟩ := bind_eq_ok h
      have hfiles := SchedulerState.sameButFiles_readOpenFile hread
      cases staged with
      | none =>
        cases h
        exact hkeep sched hfiles
      | some staged =>
        obtain ⟨r, hstate, hcr3, hsched, hstores⟩ := copyToUser_stores (s := { s with sched })
          hupper ptr.toNat_lt (length_readOpenFile hread) hcap h
        exact ⟨r, hstate, hcr3, by rw [hsched]; exact hfiles, hstores⟩
  · cases h
    exact hkeep s.sched (Or.inl rfl)

end ReadState

/-! ## `sys_write` -/

namespace CallState

variable {σ : Type} {A : FrameAllocator σ} {mapTo : MapTo σ} {env : SpawnEnv} {s s' : CallState σ}

/-- **`sys_write` is exact.**  If no page of the upper half is the user's, then for all arguments:
a descriptor other than 1 is refused; otherwise the caller is killed, and nothing but the notice is
printed, if and only if the pointer is none or there is a byte among the first 1024 that CPL 3 may
not read; and if it is not, the call returns their number and has printed just these bytes, or a
fixed notice if they are no text. -/
theorem sysWrite_exact (s : CallState σ) (fd ptr len : UInt64)
    (hupper : ∀ page : Page, 256 ≤ (page.start.p4Index : ℕ) →
      ¬ UserWalk s.machine.mem false s.cr3 page.path) :
    (fd ≠ 1 → s.sysWrite fd ptr len = .ok (.returns u64Max s)) ∧
      (fd = 1 → ¬ Readable s.machine.mem s.cr3 ptr.toNat (min len.toNat 1024) →
        s.sysWrite fd ptr len =
          .ok (s.killCurrentThread "syscall argument pointer not mapped for read")) ∧
      (fd = 1 → Readable s.machine.mem s.cr3 ptr.toNat (min len.toNat 1024) →
        ∃ bytes, bytes.length = min len.toNat 1024 ∧
          BytesAt s.machine.mem s.cr3 ptr.toNat bytes ∧
          s.sysWrite fd ptr len =
            .ok (.returns (UInt64.ofNat bytes.length) (s.print (shown bytes)))) := by
  have hcases := copyFromUser_cases hupper ptr.toNat_lt (Nat.min_le_right len.toNat 1024)
  refine ⟨fun hfd => ?_, ?_, ?_⟩
  · rw [sysWrite, if_pos hfd]
    rfl
  · rintro rfl hnot
    obtain ⟨-, hcopy⟩ | ⟨hread, -⟩ := hcases
    · rw [sysWrite, if_neg (fun h => h rfl)]
      simp only [hcopy]
      rfl
    · exact absurd hread hnot
  · rintro rfl hread
    obtain ⟨hnot, -⟩ | ⟨-, bytes, hlen, hbytes, hcopy⟩ := hcases
    · exact absurd hread hnot
    · refine ⟨bytes, hlen, hbytes, ?_⟩
      rw [sysWrite, if_neg (fun h => h rfl), hlen]
      simp only [hcopy]
      rfl

/-- A program with the two pages of `twoUserPages` makes a call. -/
def twoPagesCall : CallState Unit where
  machine := ⟨twoUserPages, (), []⟩
  sched := .init 1
  blocks := []
  cr3 := 1
  inputQueue := .new
  printed := []

theorem sysWrite_exact_twoPagesCall :
    ∃ bytes, BytesAt twoUserPages 1 0x1fff bytes ∧ twoPagesCall.sysWrite 1 0x1fff 2 =
      .ok (.returns (UInt64.ofNat bytes.length) (twoPagesCall.print (shown bytes))) := by
  obtain ⟨-, -, hread⟩ := sysWrite_exact twoPagesCall 1 0x1fff 2 fun _ => twoUserPages_upper
  obtain ⟨bytes, -, hbytes, hcall⟩ := hread rfl ⟨by decide, by decide, fun k hk => by
    change k < 2 at hk
    interval_cases k
    · exact ⟨by decide, walkAccessible_iff.1 (by decide)⟩
    · exact ⟨by decide, walkAccessible_iff.1 (by decide)⟩⟩
  exact ⟨bytes, hbytes, hcall⟩

/-! ## Reading a key -/

section ReadKey

variable {ptr : UInt64}
  (hupper : ∀ page : Page, 256 ≤ (page.start.p4Index : ℕ) →
    ¬ UserWalk s.machine.mem false s.cr3 page.path)
  (h0 : ptr ≠ 0) (hmay : UserMay s.machine.mem s.cr3 true ptr.toNat)
include hupper h0 hmay

/-- The destination of one byte is accepted. -/
theorem userRangeOk_one : userRangeOk s.machine.mem s.cr3 ptr.toNat 1 true = .ok true := by
  have hne : ptr.toNat ≠ 0 := fun hc => h0 (UInt64.toNat_inj.1 hc)
  have hone : 1 ≤ 1 ∧ 1 ≤ 1024 := by norm_num
  obtain ⟨b, hb, hiff⟩ := userRangeOk_iff true hupper ptr.toNat_lt hne hone
  obtain rfl : b = true := hiff.2 fun k hk => by
    obtain rfl : k = 0 := by omega
    exact hmay
  exact hb

/-- With a key the call stores it, and returns 1. -/
theorem sysRead_of_key {b : UInt8} {q : InputQueue} (hpop : s.inputQueue.pop = some (b, q)) :
    ∃ mem, s.sysRead 0 ptr 1 =
        .ok (.returns 1 { s with machine := s.machine.write mem, inputQueue := q }) ∧
      Stored (location s.machine.mem s.cr3) ptr.toNat [b] s.machine.mem mem := by
  have hne : ptr.toNat ≠ 0 := fun hc => h0 (UInt64.toNat_inj.1 hc)
  have hall : ∀ k < 1, UserMay s.machine.mem s.cr3 true (ptr.toNat + k) := by
    intro k hk
    obtain rfl : k = 0 := by omega
    exact hmay
  have hdata : 0 < [b].length := Nat.one_pos
  obtain ⟨mem, hcopy, hstored⟩ := copyToUser_eq (s := { s.readState with inputQueue := q })
    hupper ptr.toNat_lt hne hall (by norm_num) hdata le_rfl
  refine ⟨mem, ?_, hstored⟩
  have hone : popInput 1 s.readState.inputQueue = ([b], q) := by
    rw [popInput, show s.readState.inputQueue.pop = some (b, q) from hpop]
    rfl
  have hread : s.readState.sysRead 0 ptr 1 =
      .ok (.returns 1 { s.readState with inputQueue := q, mem := mem }) := by
    show s.readState.sysReadStdin ptr.toNat 1 = _
    rw [ReadState.sysReadStdin, show userRangeOk s.readState.mem s.readState.cr3 _ _ _ = _ from
      userRangeOk_one hupper h0 hmay]
    simp only [hone]
    exact hcopy
  rw [sysRead, hread]
  rfl

end ReadKey

/-! ## What a call can change -/

/-- What a call that serves its caller can have done: the page table and the frames are as they
were, of memory only bytes have changed that CPL 3 may write, of the scheduler only the open files
of the caller, and nothing that was printed is gone. -/
structure Serves (s : CallState σ) (ptr len : ℕ) (s' : CallState σ) : Prop where
  cr3 : s'.cr3 = s.cr3
  machine : s'.machine = s.machine.write s'.machine.mem
  stores : UserStores s.machine.mem s.cr3 ptr len s'.machine.mem
  sched : s.sched.SameButFiles s'.sched
  printed : s.printed <+: s'.printed

theorem Serves.refl (s : CallState σ) (ptr len : ℕ) : s.Serves ptr len s :=
  ⟨rfl, rfl, .refl _ _ _ _, Or.inl rfl, List.prefix_rfl⟩

/-- More may be printed at the end. -/
theorem Serves.print {ptr len : ℕ} (h : s.Serves ptr len s') (text : List UInt8) :
    s.Serves ptr len (s'.print text) :=
  ⟨h.cr3, h.machine, h.stores, h.sched, h.printed.trans (List.prefix_append _ _)⟩

/-- Only the open files change. -/
theorem Serves.of_sched {sched : SchedulerState} (h : s.sched.SameButFiles sched) (ptr len : ℕ) :
    s.Serves ptr len { s with sched } :=
  ⟨rfl, rfl, .refl _ _ _ _, h, List.prefix_rfl⟩

section Serves

variable {e : CallEnd σ}

theorem sysWrite_serves {fd ptr len : UInt64} (p n : ℕ) (h : s.sysWrite fd ptr len = .ok e) :
    ∃ s', e.state = some s' ∧ s.Serves p n s' := by
  have hrefl := Serves.refl s p n
  rw [sysWrite] at h
  split_ifs at h
  · cases h
    exact ⟨s, rfl, hrefl⟩
  · obtain ⟨staged, -, h⟩ := bind_eq_ok h
    cases staged with
    | none =>
      cases h
      exact ⟨_, rfl, hrefl.print _⟩
    | some staged =>
      cases h
      exact ⟨_, rfl, hrefl.print _⟩

/-- `sys_read` stores to the range that it has been given. -/
theorem sysRead_serves {fd ptr len : UInt64}
    (hupper : ∀ page : Page, 256 ≤ (page.start.p4Index : ℕ) →
      ¬ UserWalk s.machine.mem false s.cr3 page.path) (h : s.sysRead fd ptr len = .ok e) :
    ∃ s', e.state = some s' ∧ s.Serves ptr.toNat (min len.toNat 256) s' := by
  obtain ⟨r, hread, h⟩ := bind_eq_ok h
  obtain ⟨t, hstate, -, hsched, hstores⟩ :=
    ReadState.sysRead_stores (s := s.readState) hupper hread
  have hserves : s.Serves ptr.toNat (min len.toNat 256) (s.afterRead t) :=
    ⟨rfl, rfl, hstores, hsched, List.prefix_rfl⟩
  cases r with
  | returns rax t' =>
    cases hstate
    cases h
    exact ⟨_, rfl, hserves⟩
  | killed t' =>
    -- which of the two checks has failed is only seen in the notice
    cases hstate
    obtain ⟨b, -, h⟩ := bind_eq_ok h
    cases b with
    | false =>
      cases h
      exact ⟨_, rfl, hserves.print _⟩
    | true =>
      cases h
      exact ⟨_, rfl, hserves.print _⟩
  | faulted => cases hstate

theorem sysOpen_serves {pathPtr pathLen : UInt64} (p n : ℕ)
    (h : s.sysOpen env pathPtr pathLen = some (.ok e)) :
    ∃ s', e.state = some s' ∧ s.Serves p n s' := by
  have hrefl := Serves.refl s p n
  rw [sysOpen] at h
  split_ifs at h
  · cases h
    exact ⟨s, rfl, hrefl⟩
  · split at h
    · cases h
    · cases h
      exact ⟨_, rfl, hrefl.print _⟩
    · split_ifs at h
      · cases h
        exact ⟨s, rfl, hrefl⟩
      · obtain ⟨data, -, h⟩ := Option.map_eq_some_iff.1 h
        obtain ⟨data, -, h⟩ := bind_eq_ok h
        cases data with
        | none =>
          cases h
          exact ⟨s, rfl, hrefl⟩
        | some data =>
          obtain ⟨⟨fd, sched⟩, hopen, h⟩ := bind_eq_ok h
          cases h
          exact ⟨_, rfl, .of_sched (SchedulerState.sameButFiles_openFile hopen) _ _⟩

theorem sysClose_serves {fd : UInt64} (p n : ℕ) (h : s.sysClose fd = .ok e) :
    ∃ s', e.state = some s' ∧ s.Serves p n s' := by
  obtain ⟨⟨closed, sched⟩, hclose, h⟩ := bind_eq_ok h
  cases h
  exact ⟨_, rfl, .of_sched (SchedulerState.sameButFiles_closeFile hclose) _ _⟩

/-- `sys_wait` changes nothing, whether it returns or waits. -/
theorem sysWait_state {pid : UInt64} (h : s.sysWait pid = .ok e) : e.state = some s := by
  obtain ⟨b, -, h⟩ := bind_eq_ok h
  cases b with
  | false =>
    cases h
    rfl
  | true =>
    cases h
    rfl

/-- **No call but `SYS_SPAWN` writes where its caller could not.**  Whatever the number and the
arguments, the kernel takes no page fault and serves its caller. -/
theorem dispatch_serves {number arg1 arg2 arg3 arg4 : UInt64}
    (hupper : ∀ page : Page, 256 ≤ (page.start.p4Index : ℕ) →
      ¬ UserWalk s.machine.mem false s.cr3 page.path)
    (hnumber : number ≠ sysSpawnNumber)
    (h : s.dispatch A mapTo env number arg1 arg2 arg3 arg4 = some (.ok e)) :
    ∃ s', e.state = some s' ∧ s.Serves arg2.toNat (min arg3.toNat 256) s' := by
  have hrefl := Serves.refl s arg2.toNat (min arg3.toNat 256)
  rw [dispatch, if_neg hnumber] at h
  split_ifs at h
  · exact sysWrite_serves _ _ (Option.some.inj h)
  · exact sysRead_serves hupper (Option.some.inj h)
  · exact sysOpen_serves _ _ h
  · exact sysClose_serves _ _ (Option.some.inj h)
  · exact ⟨s, sysWait_state (Option.some.inj h), hrefl⟩
  · -- `SYS_EXIT`
    cases h
    exact ⟨s, rfl, hrefl⟩
  · -- no such call
    cases h
    exact ⟨s, rfl, hrefl⟩

end Serves

end CallState
