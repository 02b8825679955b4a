/-
# Reading sectors

`read_sector` (ata.rs) at the level of its port accesses.  The two drives of the bus share
one set of registers: the drive and the four parts of the sector number are written one
after the other, the read command takes whatever the registers hold then, and the data
comes word by word from a single port.

Any number of contexts may be in `read_sector`, and the accesses of one may come between
any two of another: nothing in the driver prevents it, although the documentation of its
polling functions asks for exclusive access to the ports.  `exclusive_reads_are_correct`
says that with exclusive access, from the first write of a call to its last read, every
call returns its own sector; `mixed_sectors` is a run without it.
-/
import Velora.Fat16
import Velora.Runs

namespace Ata

/-! ## The device -/

/-- `Drive` -/
inductive Drive
  | primary
  | secondary
  deriving DecidableEq, Repr

/-- `Drive::select_bit` -/
def Drive.selectBit : Drive → UInt8
  | .primary => 0x00
  | .secondary => 0x10

/-- The registers that both drives share. -/
structure Registers where
  driveHead : UInt8
  sectorCount : UInt8
  lbaLow : UInt8
  lbaMid : UInt8
  lbaHigh : UInt8
  deriving DecidableEq

namespace Registers

/-- The drive that is selected. -/
def drive (r : Registers) : Drive := if r.driveHead &&& 0x10 = 0 then .primary else .secondary

/-- The sector number, 28 bits of it. -/
def lba (r : Registers) : ℕ :=
  (r.driveHead &&& 0x0F).toNat * 0x1000000 + r.lbaHigh.toNat * 0x10000 + r.lbaMid.toNat * 0x100 +
    r.lbaLow.toNat

/-- The number of sectors; zero stands for 256. -/
def count (r : Registers) : ℕ := if r.sectorCount = 0 then 256 else r.sectorCount.toNat

end Registers

/-- What the device is at. -/
inductive Engine
  | idle
  /-- fetching a sector, with `count` of them to go -/
  | busy (drive : Drive) (lba count : ℕ)
  /-- handing out the words that are left of it -/
  | transfer (drive : Drive) (lba count : ℕ) (fifo : List UInt16)
  | failed
  deriving DecidableEq

/-- The bus: its registers and the device behind them. -/
structure Bus where
  regs : Registers
  engine : Engine
  deriving DecidableEq

/-- The disks of the two drives. -/
abbrev Disks := Drive → Disk

/-- Word `k` of a sector, its first byte in the low half. -/
def sectorWord (s : Sector) (k : ℕ) : UInt16 :=
  UInt16.ofNat ((Buffer.get s (2 * k)).toNat + 256 * (Buffer.get s (2 * k + 1)).toNat)

/-- The 256 words of a sector. -/
def sectorWords (s : Sector) : List UInt16 := (List.range 256).map (sectorWord s)

/-- The 512 bytes of a sector. -/
def sectorBytes (s : Sector) : List UInt8 := Buffer.slice s 0 512

namespace Bus

/-- Reading `COMMAND_STATUS`. -/
def status (b : Bus) : UInt8 :=
  match b.engine with
  | .idle => 0x40
  | .busy .. => 0x80
  | .transfer .. => 0x48
  | .failed => 0x41

/-- Writing `COMMAND_STATUS`: the read command takes what the registers hold. -/
def command (b : Bus) (c : UInt8) : Bus :=
  if c = 0x20 then { b with engine := .busy b.regs.drive b.regs.lba b.regs.count } else b

/-- Reading `DATA`.  After the last word of a sector the next one is fetched, if there is one. -/
def readData (b : Bus) : UInt16 × Bus :=
  match b.engine with
  | .transfer drive lba count [word] =>
    (word, { b with engine := if count ≤ 1 then .idle else .busy drive (lba + 1) (count - 1) })
  | .transfer drive lba count (word :: fifo) =>
    (word, { b with engine := .transfer drive lba count fifo })
  | _ => (0, b)

/-- The device has fetched the sector, or failed to. -/
def complete (disks : Disks) (ok : Bool) (b : Bus) : Option Bus :=
  match b.engine with
  | .busy drive lba count =>
    some { b with engine :=
      if ok then .transfer drive lba count (sectorWords (disks drive lba)) else .failed }
  | _ => none

end Bus

/-! ## The code -/

/-- `POLL_ATTEMPTS` -/
def pollAttempts : ℕ := 10000000

/-- Where a call stands: the port access that is next. -/
inductive Stage
  /-- the loop of `wait_until_not_busy`, with `left` attempts to go -/
  | notBusy (left : ℕ)
  | driveHead
  | sectorCount
  | lbaLow
  | lbaMid
  | lbaHigh
  | command
  /-- the loop of `wait_for_data` -/
  | forData (left : ℕ)
  /-- the loop over the words, with `buf` filled so far -/
  | data (buf : List UInt8)
  | returned (buf : List UInt8)
  deriving DecidableEq

/-- A call of `read_sector`. -/
structure Call where
  drive : Drive
  lba : ℕ
  stage : Stage
  deriving DecidableEq

/-- Why the machine stops: one of the panics of the driver, or an action that cannot be taken. -/
inductive Stop
  /-- "LBA28 only supports 28-bit sector addresses" -/
  | lbaTooLarge
  /-- "ATA: drive stayed busy for too long" -/
  | stayedBusy
  /-- "ATA: drive reported an error" -/
  | reportedError
  /-- "ATA: drive never became ready to transfer data" -/
  | neverReady
  | refused
  deriving DecidableEq

namespace Call

/-- The value written to `DRIVE_HEAD`. -/
def headByte (c : Call) : UInt8 :=
  (0xE0 : UInt8) ||| c.drive.selectBit ||| UInt8.ofNat ((c.lba >>> 24) &&& 0x0F)

/-- The call goes on with another access. -/
def goTo (c : Call) (stage : Stage) : Call := { c with stage := stage }

/-- The bytes of a word, in the order in which they are put into the buffer. -/
def wordBytes (word : UInt16) : List UInt8 := [(word &&& 0xFF).toUInt8, (word >>> 8).toUInt8]

/-- The next port access of a call. -/
def access (c : Call) (b : Bus) : Except Stop (Call × Bus) :=
  match c.stage with
  | .notBusy 0 => .error .stayedBusy
  | .notBusy (left + 1) =>
    if b.status &&& 0x80 = 0 then .ok (c.goTo .driveHead, b) else .ok (c.goTo (.notBusy left), b)
  | .driveHead => .ok (c.goTo .sectorCount, { b with regs.driveHead := c.headByte })
  | .sectorCount => .ok (c.goTo .lbaLow, { b with regs.sectorCount := 1 })
  | .lbaLow => .ok (c.goTo .lbaMid, { b with regs.lbaLow := UInt8.ofNat (c.lba &&& 0xFF) })
  | .lbaMid =>
    .ok (c.goTo .lbaHigh, { b with regs.lbaMid := UInt8.ofNat ((c.lba >>> 8) &&& 0xFF) })
  | .lbaHigh =>
    .ok (c.goTo .command, { b with regs.lbaHigh := UInt8.ofNat ((c.lba >>> 16) &&& 0xFF) })
  | .command => .ok (c.goTo (.forData pollAttempts), b.command 0x20)
  | .forData 0 => .error .neverReady
  | .forData (left + 1) =>
    let status := b.status
    if status &&& 0x01 ≠ 0 then .error .reportedError
    else if status &&& 0x80 = 0 ∧ status &&& 0x08 ≠ 0 then .ok (c.goTo (.data []), b)
    else .ok (c.goTo (.forData left), b)
  | .data buf =>
    let (word, b) := b.readData
    let buf := buf ++ wordBytes word
    .ok (c.goTo (if buf.length = 512 then .returned buf else .data buf), b)
  | .returned _ => .error .refused

/-- The call has begun to write to the registers and has not read its last word yet. -/
def critical (c : Call) : Bool :=
  match c.stage with
  | .notBusy _ | .driveHead | .returned _ => false
  | _ => true

end Call

/-! ## The machine -/

/-- The bus and the contexts, each with its last call if it has made one. -/
structure Host (κ : Type) where
  bus : Bus
  calls : κ → Option Call

/-- A context calls `read_sector`, or makes its next port access, or the device finishes. -/
inductive Action (κ : Type)
  | call (i : κ) (drive : Drive) (lba : ℕ)
  | access (i : κ)
  | complete (ok : Bool)

namespace Host

variable {κ : Type} [DecidableEq κ]

/-- The context is not inside a call. -/
def free (s : Host κ) (i : κ) : Bool :=
  match s.calls i with
  | none => true
  | some { stage := .returned _, .. } => true
  | _ => false

/-- The context is in `wait_until_not_busy`. -/
def polling (s : Host κ) (i : κ) : Bool :=
  match s.calls i with
  | some { stage := .notBusy _, .. } => true
  | _ => false

/-- The context is between its first write and its last read. -/
def critical (s : Host κ) (i : κ) : Bool := (s.calls i).any Call.critical

/-- One step. -/
def step (disks : Disks) (s : Host κ) : Action κ → Except Stop (Host κ)
  | .call i drive lba =>
    if s.free i then
      if lba < 0x10000000 then
        .ok { s with calls := Function.update s.calls i (some ⟨drive, lba, .notBusy pollAttempts⟩) }
      else .error .lbaTooLarge
    else .error .refused
  | .access i =>
    match s.calls i with
    | none => .error .refused
    | some c =>
      match c.access s.bus with
      | .error e => .error e
      | .ok (c', bus) => .ok { bus, calls := Function.update s.calls i (some c') }
  | .complete ok =>
    match s.bus.complete disks ok with
    | none => .error .refused
    | some bus => .ok { s with bus }

/-- At the start the device is idle, whatever the registers hold, and nobody has called. -/
def start (regs : Registers) : Host κ where
  bus := { regs, engine := .idle }
  calls := fun _ => none

/-- **Exclusive access**: a context that does more than poll before its first write finds no other
one between its first write and its last read. -/
def Exclusive (s : Host κ) : Action κ → Prop
  | .access i => s.polling i = true ∨ ∀ j, j ≠ i → s.critical j = false
  | _ => True

end Host

/-! ## Words and bytes -/

theorem wordBytes_sectorWord (s : Sector) (k : ℕ) :
    Call.wordBytes (sectorWord s k) = [Buffer.get s (2 * k), Buffer.get s (2 * k + 1)] := by
  have hlo := (Buffer.get s (2 * k)).toNat_lt
  have hhi := (Buffer.get s (2 * k + 1)).toNat_lt
  have hword : (sectorWord s k).toNat =
      (Buffer.get s (2 * k)).toNat + 256 * (Buffer.get s (2 * k + 1)).toNat := by
    rw [sectorWord, UInt16.toNat_ofNat']
    omega
  rw [Call.wordBytes]
  refine congrArg₂ (fun a b => [a, b]) (UInt8.toNat_inj.1 ?_) (UInt8.toNat_inj.1 ?_)
  · rw [UInt16.toNat_toUInt8, UInt16.toNat_and, hword]
    show (_ &&& (2 ^ 8 - 1)) % 256 = _
    rw [Nat.and_two_pow_sub_one_eq_mod]
    omega
  · rw [UInt16.toNat_toUInt8, UInt16.toNat_shiftRight, hword]
    show (_ >>> 8) % 256 = _
    rw [Nat.shiftRight_eq_div_pow]
    omega

/-- The words of a sector are its bytes. -/
theorem flatMap_sectorWords (s : Sector) :
    (sectorWords s).flatMap Call.wordBytes = sectorBytes s := by
  have hall : ∀ n, ((List.range n).map (sectorWord s)).flatMap Call.wordBytes =
      (List.range (2 * n)).map (Buffer.get s) := by
    intro n
    induction n with
    | zero => rfl
    | succ n ih =>
      rw [List.range_succ, List.map_append, List.flatMap_append, ih, List.map_singleton,
        List.flatMap_singleton, wordBytes_sectorWord, Nat.mul_succ, List.range_succ,
        List.range_succ, List.map_append, List.map_append, List.append_assoc]
      rfl
  rw [sectorWords, hall, sectorBytes, Buffer.slice]
  simp only [Nat.zero_add]

theorem length_sectorBytes (s : Sector) : (sectorBytes s).length = 512 := by
  rw [sectorBytes, Buffer.slice, List.length_map, List.length_range]

theorem sectorWords_ne_nil (s : Sector) : sectorWords s ≠ [] := by
  rw [sectorWords, ne_eq, List.map_eq_nil_iff, List.range_eq_nil]
  decide

/-- **The registers hold the sector number** once all five have been written. -/
theorem lba_of_registers {c : Call} (h : c.lba < 0x10000000) {r : Registers}
    (hhead : r.driveHead = c.headByte) (hlow : r.lbaLow = UInt8.ofNat (c.lba &&& 0xFF))
    (hmid : r.lbaMid = UInt8.ofNat ((c.lba >>> 8) &&& 0xFF))
    (hhigh : r.lbaHigh = UInt8.ofNat ((c.lba >>> 16) &&& 0xFF)) :
    r.drive = c.drive ∧ r.lba = c.lba := by
  have hbyte : ∀ n, (UInt8.ofNat (n &&& 0xFF)).toNat = n % 256 := by
    intro n
    rw [UInt8.toNat_ofNat', show (0xFF : ℕ) = 2 ^ 8 - 1 from rfl, Nat.and_two_pow_sub_one_eq_mod]
    omega
  have htop : (c.lba >>> 24) &&& 0x0F < 16 := by
    rw [show (0x0F : ℕ) = 2 ^ 4 - 1 from rfl, Nat.and_two_pow_sub_one_eq_mod]
    omega
  have htop' : (c.lba >>> 24) &&& 0x0F = c.lba / 0x1000000 := by
    rw [show (0x0F : ℕ) = 2 ^ 4 - 1 from rfl, Nat.and_two_pow_sub_one_eq_mod,
      Nat.shiftRight_eq_div_pow]
    omega
  have hnibble : ∀ d : Drive, ∀ n : Fin 16,
      ((0xE0 ||| d.selectBit ||| UInt8.ofNat n.val) &&& 0x0F).toNat = n.val ∧
        (((0xE0 : UInt8) ||| d.selectBit ||| UInt8.ofNat n.val) &&& 0x10 = 0 ↔ d = .primary) := by
    rintro (_ | _) <;> decide
  obtain ⟨hn, hd⟩ := hnibble c.drive ⟨_, htop⟩
  constructor
  · rw [Registers.drive, hhead, Call.headByte]
    by_cases hp : c.drive = .primary
    · rw [if_pos (hd.2 hp), hp]
    · rw [if_neg fun hc => hp (hd.1 hc)]
      cases hdrive : c.drive with
      | primary => exact absurd hdrive hp
      | secondary => rfl
  · rw [Registers.lba, hhead, Call.headByte, hn.trans htop', hlow, hmid, hhigh, hbyte, hbyte,
      hbyte, Nat.shiftRight_eq_div_pow, Nat.shiftRight_eq_div_pow]
    omega

/-! ## One context at a time -/

/-- **How far a call has come**, in the registers and in the device. -/
def Progress (disks : Disks) (c : Call) (b : Bus) : Prop :=
  match c.stage with
  | .sectorCount => b.engine = .idle ∧ b.regs.driveHead = c.headByte
  | .lbaLow => b.engine = .idle ∧ b.regs.driveHead = c.headByte ∧ b.regs.sectorCount = 1
  | .lbaMid => b.engine = .idle ∧ b.regs.driveHead = c.headByte ∧ b.regs.sectorCount = 1 ∧
      b.regs.lbaLow = UInt8.ofNat (c.lba &&& 0xFF)
  | .lbaHigh => b.engine = .idle ∧ b.regs.driveHead = c.headByte ∧ b.regs.sectorCount = 1 ∧
      b.regs.lbaLow = UInt8.ofNat (c.lba &&& 0xFF) ∧
      b.regs.lbaMid = UInt8.ofNat ((c.lba >>> 8) &&& 0xFF)
  | .command => b.engine = .idle ∧ b.regs.driveHead = c.headByte ∧ b.regs.sectorCount = 1 ∧
      b.regs.lbaLow = UInt8.ofNat (c.lba &&& 0xFF) ∧
      b.regs.lbaMid = UInt8.ofNat ((c.lba >>> 8) &&& 0xFF) ∧
      b.regs.lbaHigh = UInt8.ofNat ((c.lba >>> 16) &&& 0xFF)
  | .forData _ => b.engine = .busy c.drive c.lba 1 ∨ b.engine = .failed ∨
      b.engine = .transfer c.drive c.lba 1 (sectorWords (disks c.drive c.lba))
  | .data buf => ∃ fifo, fifo ≠ [] ∧ b.engine = .transfer c.drive c.lba 1 fifo ∧
      buf ++ fifo.flatMap Call.wordBytes = sectorBytes (disks c.drive c.lba)
  | _ => False

/-- A call that has returned has its own sector. -/
def Call.Correct (disks : Disks) (c : Call) : Prop :=
  ∀ buf, c.stage = .returned buf → buf = sectorBytes (disks c.drive c.lba)

/-- What a call leaves behind at its next access: it goes on, in the registers and in the
device, or it is done, and the device idle. -/
def GoesOn (disks : Disks) (c : Call) (b : Bus) : Prop :=
  (c.critical = true ∧ Progress disks c b) ∨ (c.critical = false ∧ b.engine = .idle)

section Access

variable {disks : Disks} {c c' : Call} {b b' : Bus}

/-- Reading a word of the sector. -/
theorem readData_transfer {drive : Drive} {lba : ℕ} {word : UInt16} {fifo : List UInt16}
    (h : b.engine = .transfer drive lba 1 (word :: fifo)) :
    b.readData = (word, ⟨b.regs, if fifo = [] then .idle else .transfer drive lba 1 fifo⟩) := by
  rw [Bus.readData, h]
  cases fifo with
  | nil => rfl
  | cons word' fifo => rfl

/-- As long as there is a word to come the buffer is not full. -/
theorem length_ne_of_cons {buf : List UInt8} {word : UInt16} {fifo : List UInt16}
    (h : (buf ++ (word :: fifo).flatMap Call.wordBytes).length = 512) : buf.length ≠ 512 := by
  have htwo : (Call.wordBytes word).length = 2 := rfl
  rw [List.flatMap_cons, List.length_append, List.length_append] at h
  omega

/-- The access to the data port. -/
theorem access_data {buf : List UInt8} (hstage : c.stage = .data buf) (hp : Progress disks c b)
    (h : c.access b = .ok (c', b')) : GoesOn disks c' b' ∧ c'.Correct disks := by
  rw [Progress, hstage] at hp
  obtain ⟨fifo, hne, hengine, hbytes⟩ := hp
  obtain ⟨word, fifo, rfl⟩ := List.exists_cons_of_ne_nil hne
  rw [Call.access, hstage] at h
  simp only [readData_transfer hengine, Except.ok.injEq, Prod.mk.injEq] at h
  obtain ⟨rfl, rfl⟩ := h
  rw [List.flatMap_cons, ← List.append_assoc] at hbytes
  have hlen := congrArg List.length hbytes
  rw [length_sectorBytes] at hlen
  cases fifo with
  | nil =>
    rw [List.flatMap_nil, List.append_nil] at hbytes hlen
    rw [if_pos hlen, if_pos rfl]
    refine ⟨Or.inr ⟨rfl, rfl⟩, ?_⟩
    intro buf' hbuf'
    obtain rfl := Stage.returned.inj hbuf'
    exact hbytes
  | cons word' fifo =>
    rw [if_neg (length_ne_of_cons hlen), if_neg (List.cons_ne_nil _ _)]
    refine ⟨Or.inl ⟨rfl, word' :: fifo, List.cons_ne_nil _ _, rfl, hbytes⟩, ?_⟩
    intro buf' hbuf'
    cases hbuf'

/-- A round of `wait_for_data`. -/
theorem access_forData {left : ℕ} (hstage : c.stage = .forData (left + 1)) :
    c.access b = if b.status &&& 0x01 ≠ 0 then .error .reportedError
      else if b.status &&& 0x80 = 0 ∧ b.status &&& 0x08 ≠ 0 then .ok (c.goTo (.data []), b)
      else .ok (c.goTo (.forData left), b) := by
  rw [Call.access, hstage]

/-- **An access inside the critical part.** -/
theorem access_critical (hlba : c.lba < 0x10000000) (hcrit : c.critical = true)
    (hp : Progress disks c b) (h : c.access b = .ok (c', b')) :
    GoesOn disks c' b' ∧ c'.Correct disks := by
  have hgo : ∀ {stage}, (∀ buf, stage ≠ .returned buf) → (c.goTo stage).Correct disks := by
    intro stage hstage buf hbuf
    exact absurd hbuf (hstage buf)
  cases hstage : c.stage with
  | notBusy left => rw [Call.critical, hstage] at hcrit; cases hcrit
  | driveHead => rw [Call.critical, hstage] at hcrit; cases hcrit
  | returned buf => rw [Call.critical, hstage] at hcrit; cases hcrit
  | data buf => exact access_data hstage hp h
  | sectorCount =>
    rw [Progress, hstage] at hp
    rw [Call.access, hstage] at h
    obtain ⟨rfl, rfl⟩ := Prod.mk.inj (Except.ok.inj h)
    exact ⟨Or.inl ⟨rfl, hp.1, hp.2, rfl⟩, hgo fun _ hc => by cases hc⟩
  | lbaLow =>
    rw [Progress, hstage] at hp
    rw [Call.access, hstage] at h
    obtain ⟨rfl, rfl⟩ := Prod.mk.inj (Except.ok.inj h)
    exact ⟨Or.inl ⟨rfl, hp.1, hp.2.1, hp.2.2, rfl⟩, hgo fun _ hc => by cases hc⟩
  | lbaMid =>
    rw [Progress, hstage] at hp
    rw [Call.access, hstage] at h
    obtain ⟨rfl, rfl⟩ := Prod.mk.inj (Except.ok.inj h)
    obtain ⟨hidle, hhead, hcount, hlow⟩ := hp
    exact ⟨Or.inl ⟨rfl, hidle, hhead, hcount, hlow, rfl⟩, hgo fun _ hc => by cases hc⟩
  | lbaHigh =>
    rw [Progress, hstage] at hp
    rw [Call.access, hstage] at h
    obtain ⟨rfl, rfl⟩ := Prod.mk.inj (Except.ok.inj h)
    obtain ⟨hidle, hhead, hcount, hlow, hmid⟩ := hp
    exact ⟨Or.inl ⟨rfl, hidle, hhead, hcount, hlow, hmid, rfl⟩, hgo fun _ hc => by cases hc⟩
  | command =>
    rw [Progress, hstage] at hp
    rw [Call.access, hstage] at h
    obtain ⟨rfl, rfl⟩ := Prod.mk.inj (Except.ok.inj h)
    obtain ⟨-, hhead, hcount, hlow, hmid, hhigh⟩ := hp
    obtain ⟨hdrive, hlba'⟩ := lba_of_registers hlba hhead hlow hmid hhigh
    refine ⟨Or.inl ⟨rfl, Or.inl ?_⟩, hgo fun _ hc => by cases hc⟩
    show Engine.busy b.regs.drive b.regs.lba b.regs.count = _
    rw [hdrive, hlba', Registers.count, hcount]
    rfl
  | forData left =>
    rw [Progress, hstage] at hp
    cases left with
    | zero =>
      rw [Call.access, hstage] at h
      cases h
    | succ left =>
      rw [access_forData hstage] at h
      rcases hp with hbusy | hfailed | htransfer
      · have hstatus : b.status = 0x80 := by rw [Bus.status, hbusy]
        rw [hstatus, if_neg (by decide), if_neg (by decide)] at h
        obtain ⟨rfl, rfl⟩ := Prod.mk.inj (Except.ok.inj h)
        exact ⟨Or.inl ⟨rfl, Or.inl hbusy⟩, hgo fun _ hc => by cases hc⟩
      · have hstatus : b.status = 0x41 := by rw [Bus.status, hfailed]
        rw [hstatus, if_pos (by decide)] at h
        cases h
      · have hstatus : b.status = 0x48 := by rw [Bus.status, htransfer]
        rw [hstatus, if_neg (by decide), if_pos (by decide)] at h
        obtain ⟨rfl, rfl⟩ := Prod.mk.inj (Except.ok.inj h)
        refine ⟨Or.inl ⟨rfl, _, sectorWords_ne_nil _, htransfer, ?_⟩, hgo fun _ hc => by cases hc⟩
        rw [List.nil_append, flatMap_sectorWords]
        rfl

/-- The write to `DRIVE_HEAD`, the first of a call. -/
theorem access_driveHead (hstage : c.stage = .driveHead) (hidle : b.engine = .idle)
    (h : c.access b = .ok (c', b')) : GoesOn disks c' b' ∧ c'.Correct disks := by
  rw [Call.access, hstage] at h
  obtain ⟨rfl, rfl⟩ := Prod.mk.inj (Except.ok.inj h)
  exact ⟨Or.inl ⟨rfl, hidle, rfl⟩, fun buf hbuf => by cases hbuf⟩

/-- A round of `wait_until_not_busy`. -/
theorem access_notBusy {left : ℕ} (hstage : c.stage = .notBusy left)
    (h : c.access b = .ok (c', b')) : b' = b ∧ c'.critical = false ∧ c'.Correct disks := by
  cases left with
  | zero =>
    rw [Call.access, hstage] at h
    cases h
  | succ left =>
    rw [Call.access, hstage] at h
    simp only at h
    split_ifs at h with hbusy
    · obtain ⟨rfl, rfl⟩ := Prod.mk.inj (Except.ok.inj h)
      exact ⟨rfl, rfl, fun buf hbuf => by cases hbuf⟩
    · obtain ⟨rfl, rfl⟩ := Prod.mk.inj (Except.ok.inj h)
      exact ⟨rfl, rfl, fun buf hbuf => by cases hbuf⟩

/-- A call stays a call for the same sector. -/
theorem access_lba (h : c.access b = .ok (c', b')) : c'.lba = c.lba := by
  rw [Call.access] at h
  -- every stage either panics or goes on with `goTo`
  simp only at h
  split at h
  all_goals try split_ifs at h
  all_goals first | (cases h; rfl) | cases h

end Access

namespace Host

variable {κ : Type} {disks : Disks} {s s' : Host κ}

/-- **At most one context is critical**, the bus is as far as that context, and idle if there is
none; what has been returned is correct. -/
structure Orderly (disks : Disks) (s : Host κ) : Prop where
  sound : ∀ i c, s.calls i = some c → c.lba < 0x10000000 ∧ c.Correct disks
  progress : ∀ i c, s.calls i = some c → c.critical = true → Progress disks c s.bus
  alone : ∀ i j, s.critical i = true → s.critical j = true → i = j
  idle : (∀ i, s.critical i = false) → s.bus.engine = .idle

theorem critical_of_calls {i : κ} {c : Call} (h : s.calls i = some c) :
    s.critical i = c.critical := by
  rw [critical, h]
  rfl

theorem critical_of_free {i : κ} (h : s.free i = true) : s.critical i = false := by
  rw [free] at h
  split at h
  · next hnone => rw [critical, hnone, Option.any_none]
  · next hsome => rw [critical, hsome, Option.any_some]; rfl
  · cases h

theorem orderly_start (disks : Disks) (regs : Registers) : (start regs : Host κ).Orderly disks where
  sound := fun _ _ h => by cases h
  progress := fun _ _ h => by cases h
  alone := fun _ _ h => by cases h
  idle := fun _ => rfl

variable [DecidableEq κ]

/-- A context goes on to `c`, and leaves the bus in the state `bus`. -/
theorem critical_update (s : Host κ) (bus : Bus) (i : κ) (c : Call) (j : κ) :
    critical { bus, calls := Function.update s.calls i (some c) } j =
      if j = i then c.critical else s.critical j := by
  show (Function.update s.calls i (some c) j).any Call.critical = _
  rw [Function.update_apply]
  split_ifs with hj
  · rfl
  · rfl

theorem calls_update {bus : Bus} {i j : κ} {c c' : Call}
    (h : ({ bus, calls := Function.update s.calls i (some c) } : Host κ).calls j = some c') :
    (j = i ∧ c' = c) ∨ (j ≠ i ∧ s.calls j = some c') := by
  rw [show ({ bus, calls := Function.update s.calls i (some c) } : Host κ).calls j =
    if j = i then some c else s.calls j from Function.update_apply ..] at h
  split_ifs at h with hj
  · exact Or.inl ⟨hj, (Option.some.inj h).symm⟩
  · exact Or.inr ⟨hj, h⟩

theorem Orderly.sound_update (h : s.Orderly disks) {bus : Bus} {i j : κ} {c c' : Call}
    (hlba : c.lba < 0x10000000) (hcorrect : c.Correct disks)
    (hj : ({ bus, calls := Function.update s.calls i (some c) } : Host κ).calls j = some c') :
    c'.lba < 0x10000000 ∧ c'.Correct disks := by
  obtain ⟨-, rfl⟩ | ⟨-, hj⟩ := calls_update hj
  · exact ⟨hlba, hcorrect⟩
  · exact h.sound j c' hj

/-- A context that is not critical starts a call, or polls: the others do not notice. -/
theorem Orderly.outside (h : s.Orderly disks) {i : κ} {c : Call} (hcrit : s.critical i = false)
    (hc : c.critical = false) (hlba : c.lba < 0x10000000) (hcorrect : c.Correct disks) :
    Orderly disks { s with calls := Function.update s.calls i (some c) } := by
  have hsame : ∀ j, critical { s with calls := Function.update s.calls i (some c) } j =
      s.critical j := by
    intro j
    rw [critical_update]
    split_ifs with hj
    · rw [hc, hj, hcrit]
    · rfl
  refine ⟨fun j c' hj => h.sound_update hlba hcorrect hj, ?_, ?_, ?_⟩
  · intro j c' hj hcrit'
    obtain ⟨-, rfl⟩ | ⟨-, hj⟩ := calls_update hj
    · rw [hc] at hcrit'
      cases hcrit'
    · exact h.progress j c' hj hcrit'
  · intro j k hj hk
    rw [hsame] at hj hk
    exact h.alone j k hj hk
  · intro hnone
    exact h.idle fun j => (hsame j).symm.trans (hnone j)

/-- The only context that may be critical makes an access. -/
theorem Orderly.inside (h : s.Orderly disks) {i : κ} {c : Call} {bus : Bus}
    (hothers : ∀ j, j ≠ i → s.critical j = false) (hlba : c.lba < 0x10000000)
    (hgoes : GoesOn disks c bus) (hcorrect : c.Correct disks) :
    Orderly disks { bus, calls := Function.update s.calls i (some c) } := by
  have hcrit : ∀ j, critical { bus, calls := Function.update s.calls i (some c) } j = true →
      j = i := by
    intro j hj
    by_contra hne
    rw [critical_update, if_neg hne, hothers j hne] at hj
    cases hj
  refine ⟨fun j c' hj => h.sound_update hlba hcorrect hj, ?_, ?_, ?_⟩
  · intro j c' hj hcrit'
    obtain rfl := hcrit j ((critical_of_calls hj).trans hcrit')
    obtain ⟨-, rfl⟩ | ⟨hne, -⟩ := calls_update hj
    · rcases hgoes with ⟨-, hp⟩ | ⟨hno, -⟩
      · exact hp
      · rw [hno] at hcrit'
        cases hcrit'
    · exact absurd rfl hne
  · intro j k hj hk
    rw [hcrit j hj, hcrit k hk]
  · intro hnone
    rcases hgoes with ⟨hyes, -⟩ | ⟨-, hidle⟩
    · have hi := hnone i
      rw [critical_update, if_pos rfl, hyes] at hi
      cases hi
    · exact hidle

omit [DecidableEq κ] in
/-- The device finishes: only a context that waits for data is there to notice. -/
theorem Orderly.complete (h : s.Orderly disks) {ok : Bool} {bus : Bus}
    (hbus : s.bus.complete disks ok = some bus) : Orderly disks { s with bus } := by
  cases hengine : s.bus.engine with
  | idle => simp only [Bus.complete, hengine, reduceCtorEq] at hbus
  | transfer drive lba count fifo => simp only [Bus.complete, hengine, reduceCtorEq] at hbus
  | failed => simp only [Bus.complete, hengine, reduceCtorEq] at hbus
  | busy drive lba count =>
    rw [Bus.complete, hengine] at hbus
    obtain rfl := Option.some.inj hbus
    refine ⟨h.sound, ?_, h.alone, ?_⟩
    · intro i c hi hcrit
      have hp := h.progress i c hi hcrit
      -- in every other stage the device is not busy
      cases hstage : c.stage with
      | forData left =>
        simp only [Progress, hstage, hengine, reduceCtorEq, or_false] at hp
        simp only [Progress, hstage]
        cases hp
        cases ok with
        | true => exact Or.inr (Or.inr rfl)
        | false => exact Or.inr (Or.inl rfl)
      | _ => simp [Progress, hstage, hengine] at hp
    · intro hnone
      rw [h.idle hnone] at hengine
      cases hengine

/-- **A port access keeps order**, if it is exclusive or a poll. -/
theorem Orderly.access (h : s.Orderly disks) {i : κ} {c c' : Call} {bus : Bus}
    (hc : s.calls i = some c) (hex : s.Exclusive (.access i))
    (hacc : c.access s.bus = .ok (c', bus)) :
    Orderly disks { bus, calls := Function.update s.calls i (some c') } := by
  obtain ⟨hlba, -⟩ := h.sound i c hc
  have hothers : (∀ left, c.stage ≠ .notBusy left) → ∀ j, j ≠ i → s.critical j = false := by
    intro hstage
    rcases hex with hpoll | hothers
    · rw [polling, hc] at hpoll
      split at hpoll
      · next left heq =>
        cases heq
        exact absurd rfl (hstage _)
      · cases hpoll
    · exact hothers
  by_cases hcrit : c.critical = true
  · -- between the first write and the last read
    have halone : ∀ j, j ≠ i → s.critical j = false := by
      intro j hne
      by_contra hj
      exact hne (h.alone j i (Bool.eq_true_of_not_eq_false hj)
        ((critical_of_calls hc).trans hcrit))
    obtain ⟨hgoes, hcorrect⟩ := access_critical hlba hcrit (h.progress i c hc hcrit) hacc
    exact h.inside halone ((access_lba hacc).symm ▸ hlba) hgoes hcorrect
  · have hno : s.critical i = false := by
      rw [critical_of_calls hc]
      exact Bool.eq_false_of_not_eq_true hcrit
    cases hstage : c.stage with
    | notBusy left =>
      obtain ⟨rfl, hnext, hcorrect⟩ := access_notBusy hstage hacc
      exact h.outside hno hnext ((access_lba hacc).symm ▸ hlba) hcorrect
    | driveHead =>
      have hnone : ∀ j, s.critical j = false := by
        intro j
        by_cases hj : j = i
        · rw [hj, hno]
        · exact hothers (fun left hl => by rw [hstage] at hl; cases hl) j hj
      obtain ⟨hgoes, hcorrect⟩ := access_driveHead hstage (h.idle hnone) hacc
      exact h.inside (fun j _ => hnone j) ((access_lba hacc).symm ▸ hlba) hgoes hcorrect
    | returned buf =>
      rw [Call.access, hstage] at hacc
      cases hacc
    | _ => exact absurd (by rw [Call.critical, hstage]) hcrit

/-- **Every step keeps order**, if the port accesses are exclusive. -/
theorem Orderly.step (h : s.Orderly disks) {a : Action κ} (hex : s.Exclusive a)
    (hstep : s.step disks a = .ok s') : s'.Orderly disks := by
  cases a with
  | call i drive lba =>
    rw [Host.step] at hstep
    split_ifs at hstep with hfree hlba
    cases hstep
    refine h.outside ?_ rfl hlba (fun buf hbuf => by cases hbuf)
    exact critical_of_free hfree
  | access i =>
    rw [Host.step] at hstep
    split at hstep
    · cases hstep
    · next c hc =>
      split at hstep
      · cases hstep
      · next c' bus hacc =>
        cases hstep
        exact h.access hc hex hacc
  | complete ok =>
    rw [Host.step] at hstep
    split at hstep
    · cases hstep
    · next bus hbus =>
      cases hstep
      exact h.complete hbus

/-- **Exclusive reads are correct**: in every run in which the port accesses are exclusive, a call
that has returned has filled the buffer with its own sector. -/
theorem exclusive_reads_are_correct (disks : Disks) (regs : Registers) {s : Host κ}
    (h : Runs.Reach (Host.step disks) Exclusive (start regs) s) {i : κ} {drive : Drive} {lba : ℕ}
    {buf : List UInt8} (hret : s.calls i = some ⟨drive, lba, .returned buf⟩) :
    buf = sectorBytes (disks drive lba) := by
  have horderly : s.Orderly disks :=
    h.invariant (orderly_start disks regs) fun _ _ _ hi hex hs => hi.step hex hs
  exact (horderly.sound i _ hret).2 buf rfl

/-! ## Two contexts -/

/-- A step of the loop over the words. -/
theorem step_data (disks : Disks) {i : κ} {c : Call} {buf : List UInt8} {drive : Drive} {lba : ℕ}
    {word : UInt16} {fifo : List UInt16} (hc : s.calls i = some c) (hstage : c.stage = .data buf)
    (hengine : s.bus.engine = .transfer drive lba 1 (word :: fifo)) :
    s.step disks (.access i) = .ok
      { bus := ⟨s.bus.regs, if fifo = [] then .idle else .transfer drive lba 1 fifo⟩
        calls := Function.update s.calls i (some (c.goTo
          (if (buf ++ Call.wordBytes word).length = 512 then .returned (buf ++ Call.wordBytes word)
            else .data (buf ++ Call.wordBytes word)))) } := by
  rw [Host.step, hc]
  simp only [Call.access, hstage, readData_transfer hengine]

/-- **The loop over the words reads the sector to its end**, whatever the other contexts are at, if
they leave it alone. -/
theorem reach_returned (disks : Disks) {cond : Host κ → Action κ → Prop} {i : κ} {c : Call}
    {buf : List UInt8}
    {drive : Drive} {lba : ℕ} {fifo : List UInt16}
    (hcond : ∀ t : Host κ, (∀ j, j ≠ i → t.calls j = s.calls j) → cond t (.access i))
    (hc : s.calls i = some c) (hstage : c.stage = .data buf)
    (hengine : s.bus.engine = .transfer drive lba 1 fifo) (hne : fifo ≠ [])
    (hlen : (buf ++ fifo.flatMap Call.wordBytes).length = 512) :
    Runs.Reach (Host.step disks) cond s
      { bus := ⟨s.bus.regs, .idle⟩
        calls := Function.update s.calls i
          (some (c.goTo (.returned (buf ++ fifo.flatMap Call.wordBytes)))) } := by
  induction fifo generalizing s c buf with
  | nil => exact absurd rfl hne
  | cons word fifo ih =>
    have hfirst := step_data disks hc hstage hengine
    rw [List.flatMap_cons, ← List.append_assoc] at hlen ⊢
    cases fifo with
    | nil =>
      rw [List.flatMap_nil, List.append_nil] at hlen ⊢
      rw [if_pos rfl, if_pos hlen] at hfirst
      exact Runs.Reach.refl.tail (hcond s fun _ _ => rfl) hfirst
    | cons word' fifo =>
      rw [if_neg (List.cons_ne_nil _ _), if_neg (length_ne_of_cons hlen)] at hfirst
      refine (Runs.Reach.refl.tail (hcond s fun _ _ => rfl) hfirst).trans ?_
      have hrest := ih (s := ⟨⟨s.bus.regs, .transfer drive lba 1 (word' :: fifo)⟩,
          Function.update s.calls i (some (c.goTo (.data (buf ++ Call.wordBytes word))))⟩)
        (fun t ht => hcond t fun j hj => (ht j hj).trans (Function.update_of_ne hj _ _))
        (Function.update_self ..) rfl rfl (List.cons_ne_nil _ _) hlen
      rwa [Function.update_idem] at hrest

/-- **A sector that is ready is read**: from the end of `wait_for_data` on. -/
theorem reach_sector (i : κ) {cond : Host κ → Action κ → Prop} {drive drive' : Drive} {lba lba' : ℕ}
    (hcond : ∀ t : Host κ, (∀ j, j ≠ i → t.calls j = s.calls j) → cond t (.access i))
    (hc : s.calls i = some ⟨drive', lba', .data []⟩)
    (hengine : s.bus.engine = .transfer drive lba 1 (sectorWords (disks drive lba)))
    (hbus : s'.bus = ⟨s.bus.regs, .idle⟩)
    (hc' : s'.calls i = some ⟨drive', lba', .returned (sectorBytes (disks drive lba))⟩)
    (hothers : ∀ j, j ≠ i → s'.calls j = s.calls j) :
    Runs.Reach (Host.step disks) cond s s' := by
  have hbytes := flatMap_sectorWords (disks drive lba)
  have hread := reach_returned disks hcond hc rfl hengine (sectorWords_ne_nil _)
    (by rw [List.nil_append, hbytes, length_sectorBytes])
  have hcalls : s'.calls = Function.update s.calls i (some ⟨drive', lba', .returned
      (sectorBytes (disks drive lba))⟩) := Function.eq_update_iff.2 ⟨hc', hothers⟩
  rw [List.nil_append, hbytes, ← hbus] at hread
  have hs' : s' = ⟨s'.bus, s'.calls⟩ := rfl
  rw [hs', hcalls]
  exact hread

instance [Fintype κ] (s : Host κ) (a : Action κ) : Decidable (s.Exclusive a) :=
  match a with
  | .access i =>
    inferInstanceAs (Decidable (s.polling i = true ∨ ∀ j, j ≠ i → s.critical j = false))
  | .call .. => inferInstanceAs (Decidable True)
  | .complete _ => inferInstanceAs (Decidable True)

/-- Two contexts. -/
def pair (bus : Bus) (first second : Option Call) : Host Bool where
  bus := bus
  calls := fun i => if i then second else first

/-- A run of two contexts, from its evaluated end. -/
theorem reach_pair {disks : Disks} {cond : Host Bool → Action Bool → Prop}
    [∀ s a, Decidable (cond s a)] {s : Host Bool} (as : List (Action Bool)) (bus : Bus)
    (first second : Option Call)
    (h : (Runs.runWhile (Host.step disks) cond s as).any (fun t =>
      decide (t.bus = bus ∧ t.calls false = first ∧ t.calls true = second)) = true) :
    Runs.Reach (Host.step disks) cond s (pair bus first second) := by
  obtain ⟨t, ht, htest⟩ := Runs.exists_reach_of_any _ _ _ _ _ h
  obtain ⟨rfl, rfl, rfl⟩ := of_decide_eq_true htest
  have hpair : pair t.bus (t.calls false) (t.calls true) = t := by
    refine congrArg (Host.mk t.bus) (funext fun i => ?_)
    cases i with
    | false => rfl
    | true => rfl
  rwa [hpair]

section Pair

variable {cond : Host Bool → Action Bool → Prop} {regs : Registers} {drive' : Drive} {lba' : ℕ}
  {c : Option Call}

/-- The first of two contexts reads a sector that is ready. -/
theorem reach_first (disks : Disks) (drive : Drive) (lba : ℕ)
    (hcond : ∀ t : Host Bool, t.calls true = c → cond t (.access false)) :
    Runs.Reach (Host.step disks) cond
      (pair ⟨regs, .transfer drive lba 1 (sectorWords (disks drive lba))⟩
        (some ⟨drive', lba', .data []⟩) c)
      (pair ⟨regs, .idle⟩ (some ⟨drive', lba', .returned (sectorBytes (disks drive lba))⟩) c) :=
  reach_sector false (fun t ht => hcond t (ht true Bool.noConfusion)) rfl rfl rfl rfl
    (Bool.forall_bool.2 ⟨fun h => absurd rfl h, fun _ => rfl⟩)

/-- The second of two contexts reads a sector that is ready. -/
theorem reach_second (disks : Disks) (drive : Drive) (lba : ℕ)
    (hcond : ∀ t : Host Bool, t.calls false = c → cond t (.access true)) :
    Runs.Reach (Host.step disks) cond
      (pair ⟨regs, .transfer drive lba 1 (sectorWords (disks drive lba))⟩ c
        (some ⟨drive', lba', .data []⟩))
      (pair ⟨regs, .idle⟩ c (some ⟨drive', lba', .returned (sectorBytes (disks drive lba))⟩)) :=
  reach_sector true (fun t ht => hcond t (ht false Bool.noConfusion)) rfl rfl rfl rfl
    (Bool.forall_bool.2 ⟨fun _ => rfl, fun h => absurd rfl h⟩)

end Pair

/-- Two disks whose sectors hold their own number. -/
def numberedDisks : Disks := fun _ lba _ => UInt8.ofNat lba

/-- One context reads sector 1 of one disk while the other one waits, to read sector 2 of the
other disk then. -/
theorem exclusive_reads_are_correct_inTurn : ∃ s : Host Bool, ∃ buf buf',
    Runs.Reach (Host.step numberedDisks) Exclusive (start ⟨0, 0, 0, 0, 0⟩) s ∧
      s.calls false = some ⟨.primary, 1, .returned buf⟩ ∧
      s.calls true = some ⟨.secondary, 2, .returned buf'⟩ ∧
      buf = sectorBytes (numberedDisks .primary 1) ∧
      buf' = sectorBytes (numberedDisks .secondary 2) := by
  have hready : Runs.Reach (Host.step numberedDisks) Exclusive (start ⟨0, 0, 0, 0, 0⟩)
      (pair ⟨⟨0xE0, 1, 1, 0, 0⟩, .transfer .primary 1 1 (sectorWords (numberedDisks .primary 1))⟩
        (some ⟨.primary, 1, .data []⟩) (some ⟨.secondary, 2, .notBusy (pollAttempts - 1)⟩)) :=
    reach_pair ([Action.call false .primary 1, Action.call true .secondary 2] ++
      List.replicate 7 (Action.access false) ++
      [Action.access true, Action.complete true, Action.access false]) _ _ _ (by decide +kernel)
  have hfirst := hready.trans (reach_first numberedDisks .primary 1 fun t ht => Or.inr
    (Bool.forall_bool.2 ⟨fun h => absurd rfl h, fun _ => by rw [critical, ht]; rfl⟩))
  have hready' := hfirst.trans (reach_pair
    (List.replicate 7 (Action.access true) ++ [Action.complete true, Action.access true])
    ⟨⟨0xF0, 1, 2, 0, 0⟩, .transfer .secondary 2 1 (sectorWords (numberedDisks .secondary 2))⟩
    (some ⟨.primary, 1, .returned (sectorBytes (numberedDisks .primary 1))⟩)
    (some ⟨.secondary, 2, .data []⟩) (by decide +kernel))
  have hs := hready'.trans (reach_second numberedDisks .secondary 2 fun t ht => Or.inr
    (Bool.forall_bool.2 ⟨fun _ => by rw [critical, ht]; rfl, fun h => absurd rfl h⟩))
  exact ⟨_, _, _, hs, rfl, rfl, exclusive_reads_are_correct (i := false) _ _ hs rfl,
    exclusive_reads_are_correct (i := true) _ _ hs rfl⟩

/-- **Two calls mix**: the first context, which asked for sector 1, is preempted after the write to
`LBA_LOW` by a whole call of the second, and gets sector 2 as well. -/
theorem mixed_sectors : ∃ s : Host Bool,
    Runs.Reachable (Host.step numberedDisks) (start ⟨0, 0, 0, 0, 0⟩) s ∧
      s.calls false = some ⟨.secondary, 1, .returned (sectorBytes (numberedDisks .secondary 2))⟩ ∧
      sectorBytes (numberedDisks .secondary 2) ≠ sectorBytes (numberedDisks .secondary 1) := by
  have hpreempted : Runs.Reachable (Host.step numberedDisks) (start ⟨0, 0, 0, 0, 0⟩)
      (pair
        ⟨⟨0xF0, 1, 2, 0, 0⟩, .transfer .secondary 2 1 (sectorWords (numberedDisks .secondary 2))⟩
        (some ⟨.secondary, 1, .lbaMid⟩) (some ⟨.secondary, 2, .data []⟩)) :=
    reach_pair (Action.call false .secondary 1 :: List.replicate 4 (Action.access false) ++
      Action.call true .secondary 2 :: List.replicate 7 (Action.access true) ++
      [Action.complete true, Action.access true]) _ _ _ (by decide +kernel)
  have hsecond := hpreempted.trans (reach_second numberedDisks .secondary 2 fun _ _ => trivial)
  have hresumed := hsecond.trans (reach_pair
    (List.replicate 3 (Action.access false) ++ [Action.complete true, Action.access false])
    ⟨⟨0xF0, 1, 2, 0, 0⟩, .transfer .secondary 2 1 (sectorWords (numberedDisks .secondary 2))⟩
    (some ⟨.secondary, 1, .data []⟩)
    (some ⟨.secondary, 2, .returned (sectorBytes (numberedDisks .secondary 2))⟩)
    (by decide +kernel))
  have hfirst := hresumed.trans (reach_first numberedDisks .secondary 2 fun _ _ => trivial)
  refine ⟨_, hfirst, rfl, fun h => ?_⟩
  have hhead := congrArg List.head? h
  revert hhead
  decide +kernel

end Host

end Ata
