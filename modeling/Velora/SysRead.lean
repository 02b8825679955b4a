/-
# `SYS_READ`

`sys_read` with `sys_read_stdin`, `sys_read_file` and `copy_to_user` (syscall.rs).  The
destination is checked, bytes are taken from the input queue or from an open file, and
`copy_to_user` checks the destination again, for as many bytes as there are, before it
stores them.  Bytes that are taken cannot be put back, so the second check must not
fail once the first has passed: a part of a range is accepted if the range is
(`userRangeOk_of_le`).

`sysRead_delivers`: a call kills its caller, or returns an error or zero, and leaves
everything as it was, or it takes the next bytes and stores exactly those.
-/
import Velora.Keyboard
import Velora.OpenFiles
import Velora.UserRange

/-! ## Storing bytes -/

/-- A byte of physical memory: its frame and its offset there. -/
abbrev Location := PhysFrame × Fin 4096

/-- Where the byte at an address is, if its page is mapped. -/
def location (mem : PhysMem) (cr3 : PhysFrame) (a : ℕ) : Option Location :=
  (VirtAddr.tryNew a).bind fun v =>
    (translatePage mem cr3 (Page.containing v)).map fun f => (f, v.pageOffset)

namespace PhysMem

/-- Write one byte. -/
def setByte (mem : PhysMem) (l : Location) (b : Byte) : PhysMem :=
  mem.setEntry l.1 ⟨l.2.val / 8, by omega⟩ (wordOfBytes fun j =>
    if j.val = l.2.val % 8 then b else byteOfWord (mem l.1 ⟨l.2.val / 8, by omega⟩) j)

theorem byteAt_setByte (mem : PhysMem) (l l' : Location) (b : Byte) :
    byteAt (mem.setByte l b) l'.1 l'.2 = if l' = l then b else byteAt mem l'.1 l'.2 := by
  rw [byteAt, setByte, setEntry_apply]
  by_cases hword : l'.1 = l.1 ∧ l'.2.val / 8 = l.2.val / 8
  · obtain ⟨hf, hk⟩ := hword
    rw [if_pos ⟨hf, Fin.ext hk⟩, byteOfWord_wordOfBytes]
    by_cases hj : l'.2.val % 8 = l.2.val % 8
    · have heq : l' = l := Prod.ext hf (Fin.ext (by omega))
      rw [if_pos hj, if_pos heq]
    · have hne : l' ≠ l := fun h => hj (by rw [h])
      rw [if_neg hj, if_neg hne, byteAt, hf]
      simp only [hk]
  · have hne : l' ≠ l := fun h => hword ⟨by rw [h], by rw [h]⟩
    rw [if_neg (fun h => hword ⟨h.1, congrArg Fin.val h.2⟩), if_neg hne]
    rfl

end PhysMem

/-- `copy_nonoverlapping` to the addresses from `a` on; `none` is a page fault.  The pages are
looked up in the tables as they are before the copy. -/
def storeBytes (loc : ℕ → Option Location) : PhysMem → ℕ → List UInt8 → Option PhysMem
  | mem, _, [] => some mem
  | mem, a, b :: bytes =>
    match loc a with
    | none => none
    | some l => storeBytes loc (mem.setByte l b.toBitVec) (a + 1) bytes

/-- **What a copy leaves behind**: the bytes, in order, and everything else as it was. -/
structure Stored (loc : ℕ → Option Location) (a : ℕ) (bytes : List UInt8) (mem mem' : PhysMem) :
    Prop where
  stored : ∀ k b, bytes[k]? = some b →
    ∃ l, loc (a + k) = some l ∧ byteAt mem' l.1 l.2 = b.toBitVec
  others : ∀ l : Location, (∀ k < bytes.length, loc (a + k) ≠ some l) →
    byteAt mem' l.1 l.2 = byteAt mem l.1 l.2

/-- A copy to bytes that are mapped, each at a place of its own. -/
theorem storeBytes_spec (loc : ℕ → Option Location) (mem : PhysMem) (a : ℕ) (bytes : List UInt8)
    (hmapped : ∀ k < bytes.length, ∃ l, loc (a + k) = some l)
    (hinj : ∀ j < bytes.length, ∀ k < bytes.length, loc (a + j) = loc (a + k) → j = k) :
    ∃ mem', storeBytes loc mem a bytes = some mem' ∧ Stored loc a bytes mem mem' := by
  induction bytes generalizing mem a with
  | nil =>
    refine ⟨mem, rfl, ?_, fun l _ => rfl⟩
    intro k b hb
    cases hb
  | cons b bytes ih =>
    obtain ⟨l, hl⟩ := hmapped 0 (Nat.succ_pos _)
    rw [Nat.add_zero] at hl
    have hshift : ∀ k, a + 1 + k = a + (k + 1) := fun k => by omega
    obtain ⟨mem', hstore, hbytes, hothers⟩ := ih (mem.setByte l b.toBitVec) (a + 1)
      (fun k hk => by rw [hshift]; exact hmapped (k + 1) (Nat.succ_lt_succ hk))
      (fun j hj k hk h => by
        rw [hshift, hshift] at h
        have := hinj (j + 1) (Nat.succ_lt_succ hj) (k + 1) (Nat.succ_lt_succ hk) h
        omega)
    -- the first byte is not stored over
    have hfirst : ∀ k < bytes.length, loc (a + 1 + k) ≠ some l := by
      intro k hk h
      rw [hshift] at h
      have := hinj (k + 1) (Nat.succ_lt_succ hk) 0 (Nat.succ_pos _) (by rw [h, Nat.add_zero, hl])
      omega
    refine ⟨mem', by rw [storeBytes, hl]; exact hstore, ?_, ?_⟩
    · intro k b' hb'
      cases k with
      | zero =>
        obtain rfl := Option.some.inj hb'
        refine ⟨l, hl, ?_⟩
        rw [hothers l hfirst, PhysMem.byteAt_setByte, if_pos rfl]
      | succ k =>
        rw [← hshift]
        exact hbytes k b' hb'
    · intro l' hl'
      have hne : l' ≠ l := by
        rintro rfl
        exact hl' 0 (Nat.succ_pos _) hl
      rw [hothers l' fun k hk => by rw [hshift]; exact hl' (k + 1) (Nat.succ_lt_succ hk),
        PhysMem.byteAt_setByte, if_neg hne]

/-! ## The code -/

/-- `u64::MAX`, the error value of a system call. -/
def u64Max : UInt64 := 0xffffffffffffffff

/-- What `sys_read` works with: memory and the active page table, the queue of decoded
keystrokes, and the scheduler with the caller's open files. -/
structure ReadState where
  mem : PhysMem
  cr3 : PhysFrame
  inputQueue : InputQueue
  sched : SchedulerState

/-- How a call ends. -/
inductive ReadEnd
  | returns (rax : UInt64) (s : ReadState)
  /-- `kill_current_thread` -/
  | killed (s : ReadState)
  /-- the kernel itself takes a page fault -/
  | faulted

/-- The loop around `try_pop_input_byte`: at most `len` bytes, as long as there are any. -/
def popInput : ℕ → InputQueue → List UInt8 × InputQueue
  | 0, q => ([], q)
  | len + 1, q =>
    match q.pop with
    | none => ([], q)
    | some (byte, q) =>
      let (staged, q) := popInput len q
      (byte :: staged, q)

namespace ReadState

/-- `copy_to_user`, if there is anything to copy, and the number of bytes as the result. -/
def copyToUser (ptr : ℕ) (data : List UInt8) (s : ReadState) : Except Panic ReadEnd := do
  if data.length = 0 then return .returns 0 s
  if ← userRangeOk s.mem s.cr3 ptr data.length true then
    match storeBytes (location s.mem s.cr3) s.mem ptr data with
    | none => return .faulted
    | some mem => return .returns (UInt64.ofNat data.length) { s with mem }
  else return .killed s

/-- `sys_read_stdin`.  The kernel's page table is active while the queue is used, and the
caller's again before the copy. -/
def sysReadStdin (ptr len : ℕ) (s : ReadState) : Except Panic ReadEnd := do
  if ← userRangeOk s.mem s.cr3 ptr len true then
    let (staged, inputQueue) := popInput len s.inputQueue
    copyToUser ptr staged { s with inputQueue }
  else return .killed s

/-- `sys_read_file` -/
def sysReadFile (fd : UInt64) (ptr len : ℕ) (s : ReadState) : Except Panic ReadEnd := do
  if ← userRangeOk s.mem s.cr3 ptr len true then
    match ← s.sched.readOpenFile fd len with
    | (some staged, sched) => copyToUser ptr staged { s with sched }
    | (none, sched) => return .returns u64Max { s with sched }
  else return .killed s

/-- `sys_read` -/
def sysRead (fd ptr len : UInt64) (s : ReadState) : Except Panic ReadEnd :=
  let len := min len.toNat 256
  if len = 0 then .ok (.returns 0 s)
  else if fd = 0 then s.sysReadStdin ptr.toNat len
  else if fd ≥ firstFileFd then s.sysReadFile fd ptr.toNat len
  else .ok (.returns u64Max s)

end ReadState

/-! ## The destination -/

section Destination

variable {mem : PhysMem} {cr3 : PhysFrame} {ptr len : ℕ}

/-- **The first check**: it returns, and what it accepts CPL 3 may write. -/
theorem userRangeOk_write
    (hupper : ∀ page : Page, 256 ≤ (page.start.p4Index : ℕ) → ¬ UserWalk mem false cr3 page.path)
    (hptr : ptr < 0x10000000000000000) (hlen : 1 ≤ len ∧ len ≤ 256) :
    userRangeOk mem cr3 ptr len true = .ok false ∨
      (userRangeOk mem cr3 ptr len true = .ok true ∧ ptr ≠ 0 ∧
        ∀ k < len, UserMay mem cr3 true (ptr + k)) := by
  by_cases h0 : ptr = 0
  · left
    rw [userRangeOk, if_pos h0]
  · obtain ⟨b, hb, hiff⟩ := userRangeOk_iff true hupper hptr h0 ⟨hlen.1, by omega⟩
    cases b with
    | false => exact Or.inl hb
    | true => exact Or.inr ⟨hb, h0, hiff.1 rfl⟩

/-- **The second check**: a shorter range at the same place passes too. -/
theorem userRangeOk_of_le
    (hupper : ∀ page : Page, 256 ≤ (page.start.p4Index : ℕ) → ¬ UserWalk mem false cr3 page.path)
    (hptr : ptr < 0x10000000000000000) (h0 : ptr ≠ 0)
    (hmay : ∀ k < len, UserMay mem cr3 true (ptr + k)) {n : ℕ} (hn : 1 ≤ n) (hle : n ≤ len)
    (hlen : len ≤ 256) : userRangeOk mem cr3 ptr n true = .ok true := by
  obtain ⟨b, hb, hiff⟩ := userRangeOk_iff true hupper hptr h0 ⟨hn, by omega⟩
  rw [hb, hiff.2 fun k hk => hmay k (by omega)]

/-- The bytes of the range are mapped, -/
theorem UserMay.exists_location {a : ℕ} (h : UserMay mem cr3 true a) :
    ∃ f, location mem cr3 a = some (f, ⟨a % 4096, Nat.mod_lt _ (by decide)⟩) := by
  obtain ⟨hlow, hwalk⟩ := h
  obtain ⟨f, hf⟩ := Option.isSome_iff_exists.1 hwalk.mapped
  refine ⟨f, ?_⟩
  unfold location
  rw [VirtAddr.tryNew_of_lower hlow, Option.bind_some, translatePage, hf]
  rfl

/-- and each is at a place of its own, because they are fewer than a page has. -/
theorem location_inj (hmay : ∀ k < len, UserMay mem cr3 true (ptr + k)) (hlen : len ≤ 256) {j k : ℕ}
    (hj : j < len) (hk : k < len)
    (h : location mem cr3 (ptr + j) = location mem cr3 (ptr + k)) : j = k := by
  obtain ⟨f, hf⟩ := (hmay j hj).exists_location
  obtain ⟨g, hg⟩ := (hmay k hk).exists_location
  rw [hf, hg] at h
  have hmod : (ptr + j) % 4096 = (ptr + k) % 4096 :=
    congrArg (fun l : Location => l.2.val) (Option.some.inj h)
  omega

end Destination

/-! ## The bytes -/

/-- The loop takes the front of the queue. -/
theorem popInput_spec (len : ℕ) (q : InputQueue) :
    (popInput len q).1.length ≤ len ∧
      q.toList = (popInput len q).1 ++ (popInput len q).2.toList := by
  induction len generalizing q with
  | zero => exact ⟨le_rfl, rfl⟩
  | succ len ih =>
    rw [popInput]
    cases hpop : q.pop with
    | none => exact ⟨Nat.zero_le _, rfl⟩
    | some r =>
      obtain ⟨byte, q'⟩ := r
      obtain ⟨hlen, hlist⟩ := ih q'
      refine ⟨Nat.succ_le_succ hlen, ?_⟩
      rw [InputQueue.pop_eq_some hpop, hlist]
      rfl

/-- If it takes nothing, the queue is as it was. -/
theorem popInput_eq_nil {len : ℕ} {q : InputQueue} (h : (popInput len q).1 = []) :
    (popInput len q).2 = q := by
  cases len with
  | zero => rfl
  | succ len =>
    rw [popInput] at h ⊢
    cases hpop : q.pop with
    | none => rfl
    | some r =>
      rw [hpop] at h
      cases h

/-- **The bytes are taken**: they were the next ones of the queue, or of the caller's open file, and
nothing else has been taken from anywhere. -/
def Taken (fd : UInt64) (bytes : List UInt8) (s s' : ReadState) : Prop :=
  if fd = 0 then s.inputQueue.toList = bytes ++ s'.inputQueue.toList ∧ s'.sched = s.sched
  else s'.inputQueue = s.inputQueue ∧ ∃ t slot file, fd = slotFd slot ∧
    s.sched.threads s.sched.current = some t ∧ t.openFiles slot = some file ∧
    bytes <+: file.data.drop file.offset ∧
    s'.sched = Kernel.setFiles s.sched (Function.update t.openFiles slot
      (some { file with offset := file.offset + bytes.length }))

/-- `read_open_file` for the caller: the descriptor is not open, or the next bytes are read. -/
theorem readOpenFile_cases {s : SchedulerState} {t : Thread} (ht : s.threads s.current = some t)
    (hfiles : ∀ slot f, t.openFiles slot = some f → f.offset ≤ f.data.length) (fd : UInt64)
    (len : ℕ) :
    s.readOpenFile fd len = .ok (none, s) ∨
      ∃ slot file, fd = slotFd slot ∧ t.openFiles slot = some file ∧
        s.readOpenFile fd len = .ok (some ((file.data.drop file.offset).take len),
          Kernel.setFiles s (Function.update t.openFiles slot (some { file with
            offset := file.offset + ((file.data.drop file.offset).take len).length }))) := by
  cases hslot : fileSlot fd with
  | none =>
    left
    have hread : t.readOpenFile fd len = .ok (none, { t with openFiles := t.openFiles }) := by
      rw [Thread.readOpenFile, hslot]
    rw [SchedulerState.readOpenFile, Kernel.withCurrentThread_eq ht _ hread, Kernel.setFiles_self ht]
  | some slot =>
    cases hfile : t.openFiles slot with
    | none =>
      left
      have hread : t.readOpenFile fd len = .ok (none, { t with openFiles := t.openFiles }) := by
        simp only [Thread.readOpenFile, hslot, hfile]
      rw [SchedulerState.readOpenFile, Kernel.withCurrentThread_eq ht _ hread,
        Kernel.setFiles_self ht]
    | some file =>
      right
      refine ⟨slot, file, Kernel.eq_slotFd_of_fileSlot hslot, hfile, ?_⟩
      have htake : (file.data.drop file.offset).take
          (min (file.data.drop file.offset).length len) = (file.data.drop file.offset).take len := by
        rw [List.take_eq_take_iff]
        omega
      refine Kernel.withCurrentThread_eq ht _ ?_
      simp only [Thread.readOpenFile, hslot, hfile, if_pos (hfiles slot file hfile), htake,
        List.length_take, Nat.min_comm len]

/-! ## The call -/

section Call

variable {s : ReadState} {ptr len : ℕ}

/-- The copy after bytes have been taken: it neither kills the caller nor faults. -/
theorem copyToUser_eq
    (hupper : ∀ page : Page, 256 ≤ (page.start.p4Index : ℕ) →
      ¬ UserWalk s.mem false s.cr3 page.path)
    (hptr : ptr < 0x10000000000000000) (h0 : ptr ≠ 0)
    (hmay : ∀ k < len, UserMay s.mem s.cr3 true (ptr + k)) (hlen : len ≤ 256) {data : List UInt8}
    (hdata : 0 < data.length) (hle : data.length ≤ len) :
    ∃ mem, s.copyToUser ptr data = .ok (.returns (UInt64.ofNat data.length) { s with mem }) ∧
      Stored (location s.mem s.cr3) ptr data s.mem mem := by
  obtain ⟨mem, hstore, hstored⟩ := storeBytes_spec (location s.mem s.cr3) s.mem ptr data
    (fun k hk => (hmay k (by omega)).exists_location.imp' _ fun f hf => hf)
    (fun j hj k hk h => location_inj hmay hlen (by omega) (by omega) h)
  refine ⟨mem, ?_, hstored⟩
  rw [ReadState.copyToUser, if_neg hdata.ne',
    userRangeOk_of_le hupper hptr h0 hmay hdata hle hlen]
  simp only [hstore]
  rfl

/-- **How a call should end**: it kills the caller, or returns an error or zero, and changes
nothing, or it delivers the next bytes. -/
inductive Delivers (fd : UInt64) (ptr len : ℕ) (s : ReadState) : ReadEnd → Prop
  | killed : Delivers fd ptr len s (.killed s)
  | error : Delivers fd ptr len s (.returns u64Max s)
  | nothing : Delivers fd ptr len s (.returns 0 s)
  | bytes {bytes : List UInt8} {s' : ReadState} (pos : 0 < bytes.length)
      (le : bytes.length ≤ min len 256) (taken : Taken fd bytes s s')
      (stored : Stored (location s.mem s.cr3) ptr bytes s.mem s'.mem) (cr3 : s'.cr3 = s.cr3) :
      Delivers fd ptr len s (.returns (UInt64.ofNat bytes.length) s')

/-- The end of a call that has taken bytes, or none. -/
theorem copyToUser_delivers (queue : InputQueue) (sched : SchedulerState)
    (hupper : ∀ page : Page, 256 ≤ (page.start.p4Index : ℕ) →
      ¬ UserWalk s.mem false s.cr3 page.path)
    (hptr : ptr < 0x10000000000000000) (h0 : ptr ≠ 0)
    (hmay : ∀ k < min len 256, UserMay s.mem s.cr3 true (ptr + k)) {fd : UInt64}
    {data : List UInt8} (hle : data.length ≤ min len 256)
    (hnone : data = [] → queue = s.inputQueue ∧ sched = s.sched)
    (htaken : ∀ mem, Taken fd data s { s with mem, inputQueue := queue, sched }) :
    ∃ e, { s with inputQueue := queue, sched }.copyToUser ptr data = .ok e ∧
      Delivers fd ptr len s e := by
  by_cases hdata : data = []
  · obtain ⟨rfl, rfl⟩ := hnone hdata
    subst hdata
    exact ⟨_, rfl, .nothing⟩
  · have hpos : 0 < data.length := List.length_pos_iff.2 hdata
    obtain ⟨mem, hcopy, hstored⟩ := copyToUser_eq (s := { s with inputQueue := queue, sched })
      hupper hptr h0 hmay (Nat.min_le_right _ _) hpos hle
    exact ⟨_, hcopy, .bytes hpos hle (htaken mem) hstored rfl⟩

end Call

/-- **`sys_read` neither loses nor invents bytes.**  If no page of the upper half is the user's,
every call, for every descriptor, pointer and length, ends in one of the four ways of `Delivers`. -/
theorem sysRead_delivers (s : ReadState) (fd ptr len : UInt64) {t : Thread}
    (hupper : ∀ page : Page, 256 ≤ (page.start.p4Index : ℕ) →
      ¬ UserWalk s.mem false s.cr3 page.path)
    (ht : s.sched.threads s.sched.current = some t)
    (hfiles : ∀ slot f, t.openFiles slot = some f → f.offset ≤ f.data.length) :
    ∃ e, s.sysRead fd ptr len = .ok e ∧ Delivers fd ptr.toNat len.toNat s e := by
  have hptr : ptr.toNat < 0x10000000000000000 := ptr.toNat_lt
  rw [ReadState.sysRead]
  by_cases hlen : min len.toNat 256 = 0
  · rw [if_pos hlen]
    exact ⟨_, rfl, .nothing⟩
  rw [if_neg hlen]
  have hrange : 1 ≤ min len.toNat 256 ∧ min len.toNat 256 ≤ 256 :=
    ⟨Nat.pos_of_ne_zero hlen, Nat.min_le_right _ _⟩
  by_cases hstdin : fd = 0
  · rw [if_pos hstdin, ReadState.sysReadStdin]
    rcases userRangeOk_write hupper hptr hrange with hno | ⟨hyes, h0, hmay⟩
    · rw [hno]
      exact ⟨_, rfl, .killed⟩
    · rw [hyes]
      obtain ⟨hle, hlist⟩ := popInput_spec (min len.toNat 256) s.inputQueue
      refine copyToUser_delivers _ s.sched hupper hptr h0 hmay hle
        (fun hnil => ⟨popInput_eq_nil hnil, rfl⟩) fun mem => ?_
      rw [Taken, if_pos hstdin]
      exact ⟨hlist, rfl⟩
  rw [if_neg hstdin]
  by_cases hfile : fd ≥ firstFileFd
  · rw [if_pos hfile, ReadState.sysReadFile]
    rcases userRangeOk_write hupper hptr hrange with hno | ⟨hyes, h0, hmay⟩
    · rw [hno]
      exact ⟨_, rfl, .killed⟩
    · rw [hyes]
      rcases readOpenFile_cases ht hfiles fd (min len.toNat 256) with
        hnone | ⟨slot, file, hfd, hslot, hread⟩
      · rw [hnone]
        exact ⟨_, rfl, .error⟩
      · rw [hread]
        refine copyToUser_delivers s.inputQueue _ hupper hptr h0 hmay (List.length_take_le _ _)
          ?_ fun mem => ?_
        · intro hnil
          rw [hnil, List.length_nil, Nat.add_zero, ← hslot, Function.update_eq_self]
          exact ⟨rfl, Kernel.setFiles_self ht⟩
        · rw [Taken, if_neg hstdin]
          exact ⟨rfl, t, slot, file, hfd, ht, hslot, List.take_prefix _ _, rfl⟩
  · rw [if_neg hfile]
    exact ⟨_, rfl, .error⟩

/-- Two keys have been typed, and the destination is the end of one page and the start of the
next. -/
def twoKeysTyped : ReadState where
  mem := twoUserPages
  cr3 := 1
  inputQueue := (InputQueue.new.push 0x6c).push 0x73
  sched := .init 1

/-- Both are delivered, and none waits any more. -/
theorem sysRead_delivers_twoKeysTyped :
    twoKeysTyped.inputQueue.toList = [0x6c, 0x73] ∧
      ∃ s', twoKeysTyped.sysRead 0 0x1fff 5 = .ok (.returns 2 s') ∧ s'.inputQueue.toList = [] ∧
        Stored (location twoUserPages 1) 0x1fff [0x6c, 0x73] twoUserPages s'.mem := by
  obtain ⟨e, he, hdelivers⟩ := sysRead_delivers twoKeysTyped 0 0x1fff 5
    (fun _ => twoUserPages_upper) rfl (fun _ _ h => by cases h)
  have htest : (twoKeysTyped.sysRead 0 0x1fff 5).toOption.any (fun
      | .returns rax s' => rax == 2 && s'.inputQueue.toList == []
      | _ => false) = true := by decide +kernel
  rw [he] at htest
  cases hdelivers with
  | killed => cases htest
  | error => cases htest
  | nothing => cases htest
  | @bytes bytes s' pos le taken stored cr3 =>
    obtain ⟨-, hempty⟩ := Bool.and_eq_true_iff.1 htest
    replace hempty := eq_of_beq hempty
    rw [Taken, if_pos rfl] at taken
    have hbytes : [0x6c, 0x73] = bytes ++ s'.inputQueue.toList := taken.1
    rw [hempty, List.append_nil] at hbytes
    subst hbytes
    exact ⟨by decide, s', he, hempty, stored⟩
