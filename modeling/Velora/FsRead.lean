/-
# `read_file` reads FAT16

The sector arithmetic of fs.rs against the format of `Fat16.lean`, where everything is
an offset into one string of bytes.  Each routine of the driver gets its meaning there:
`parse_eq`, `findInRootDir_eq`, `nextCluster_eq`, `readSectors_eq`; the loop over the
clusters follows by induction on the chain.
-/
import Velora.Fs

open Fat16

/-- The boot sector declares 512-byte sectors, at least one of them in a cluster, and a root
directory of whole sectors. -/
structure Fat16.Volume (d : Disk) : Prop where
  sector : sectorSize d = 512
  cluster : 1 ≤ sectorsPerCluster d
  root : rootEntries d % 16 = 0

namespace Buffer

variable {α : Type*} [Inhabited α] {n : ℕ}

/-- A part of a slice is a slice. -/
theorem take_drop_slice (b : Buffer α n) (lo : ℕ) {len k j : ℕ} (h : k + j ≤ len) :
    ((slice b lo len).drop k).take j = slice b (lo + k) j := by
  obtain ⟨r, rfl⟩ := Nat.exists_eq_add_of_le h
  rw [Nat.add_assoc, slice_add, List.drop_left' (length_slice b lo k), slice_add,
    List.take_left' (length_slice b (lo + k) j)]

theorem getD_slice (b : Buffer α n) (lo : ℕ) {len k : ℕ} (h : k < len) (x : α) :
    (slice b lo len).getD k x = get b (lo + k) := by
  simp [slice, List.getD_eq_getElem?_getD, h]

end Buffer

namespace Fs

variable {d : Disk}

/-! ## The boot sector and the areas -/

/-- The fields of the boot sector. -/
def bpbOf (d : Disk) : BiosParameterBlock where
  reservedSectorCount := reserved d
  numFats := fats d
  rootEntryCount := rootEntries d
  fatSizeSectors := fatSize d
  sectorsPerCluster := Fat16.sectorsPerCluster d

/-- A number in a sector is the number at that place of the disk. -/
theorem readLe_slice (l : ℕ) {n off : ℕ} (h : off + n ≤ 512) :
    readLe n (Buffer.slice (d l) 0 512) off = .ok (le (bytesAt d (l * 512 + off) n)) := by
  rw [readLe, if_pos (by rw [Buffer.length_slice]; exact h), Buffer.take_drop_slice _ _ h,
    Nat.zero_add, bytesAt_sector h]

/-- A byte of the boot sector is the byte at that place of the disk. -/
theorem byteOf_slice {off : ℕ} (h : off < 512) :
    byteOf (Buffer.slice (d 0) 0 512) off = .ok (byteAt d off) := by
  rw [byteOf, if_pos (by rw [Buffer.length_slice]; exact h), Buffer.getD_slice _ _ h, Nat.zero_add,
    byteAt, Nat.div_eq_of_lt h, Nat.mod_eq_of_lt h]

/-- `BiosParameterBlock::parse` reads the fields. -/
theorem parse_eq (h : sectorSize d = 512) :
    BiosParameterBlock.parse (Buffer.slice (d 0) 0 512) = .ok (some (bpbOf d)) := by
  have hu16 : ∀ off, off + 2 ≤ 512 →
      readU16 (Buffer.slice (d 0) 0 512) off = .ok (u16At d off) := by
    intro off hoff
    have := readLe_slice (d := d) 0 hoff
    rwa [Nat.zero_mul, Nat.zero_add] at this
  unfold sectorSize at h
  unfold BiosParameterBlock.parse
  rw [hu16 0x0B (by decide), hu16 0x0E (by decide), hu16 0x11 (by decide), hu16 0x16 (by decide),
    byteOf_slice (by decide), byteOf_slice (by decide)]
  show (if u16At d 0x0B ≠ 512 then _ else _) = _
  rw [if_neg (not_not.mpr h)]
  rfl

theorem ok_bind {α β : Type} (x : α) (f : α → Except Panic β) : (Except.ok x >>= f) = f x := rfl

theorem addU32_eq {a b : ℕ} (h : a + b < 0x100000000) : addU32 a b = .ok (a + b) := if_pos h

theorem mulU32_eq {a b : ℕ} (h : a * b < 0x100000000) : mulU32 a b = .ok (a * b) := if_pos h

theorem subUnsigned_eq {a b : ℕ} (h : b ≤ a) : subUnsigned a b = .ok (a - b) := if_pos h

/-- A sector number below 2^28 passes the assertion of `ata::read_sector`. -/
theorem readSector_eq (d : Disk) {lba : ℕ} (h : lba < 0x10000000) :
    readSector d lba = .ok (Buffer.slice (d lba) 0 512) := if_pos h

/-- The sector in which the root directory starts. -/
def rootSector (d : Disk) : ℕ := reserved d + fats d * fatSize d

/-- The sector in which the data area starts. -/
def dataSector (d : Disk) : ℕ := rootSector d + rootEntries d / 16

theorem fats_lt (d : Disk) : fats d < 256 := (byteAt d 16).toNat_lt

theorem sectorsPerCluster_lt (d : Disk) : Fat16.sectorsPerCluster d < 256 := (byteAt d 13).toNat_lt

/-- The FATs together, in sectors: a byte times a 16-bit number. -/
theorem fats_mul_fatSize_lt (d : Disk) : fats d * fatSize d < 0x1000000 := by
  have h₁ := fats_lt d
  have h₂ : fatSize d < 0x10000 := u16At_lt 22
  nlinarith

/-- The root directory begins before sector 2^24 + 2^16. -/
theorem rootSector_lt (d : Disk) : rootSector d < 0x1010000 := by
  have h₁ := fats_mul_fatSize_lt d
  have h₂ : reserved d < 0x10000 := u16At_lt 14
  unfold rootSector
  omega

/-- `first_root_dir_sector` does not overflow on any disk. -/
theorem firstRootDirSector_eq (d : Disk) : (bpbOf d).firstRootDirSector = .ok (rootSector d) := by
  have h₁ := fats_mul_fatSize_lt d
  have h₂ := rootSector_lt d
  unfold rootSector at h₂
  unfold BiosParameterBlock.firstRootDirSector
  show mulU32 (fats d) (fatSize d) >>= _ = _
  rw [mulU32_eq (by omega)]
  exact addU32_eq (a := reserved d) (by omega)

/-- The sectors in which the driver looks for root entries. -/
def rootSectors (d : Disk) : ℕ := (rootEntries d * 32 + 511) / 512

/-- The root directory has at most 2^12 sectors. -/
theorem rootSectors_lt (d : Disk) : rootSectors d ≤ 0x1000 := by
  have h : rootEntries d < 0x10000 := u16At_lt 17
  unfold rootSectors
  omega

/-- On a volume, the last sector is full. -/
theorem rootSectors_eq (h : Volume d) : rootSectors d = rootEntries d / 16 := by
  have h₁ := h.root
  unfold rootSectors
  omega

/-- `root_dir_sector_count` does not overflow on any disk. -/
theorem rootDirSectorCount_eq (d : Disk) : (bpbOf d).rootDirSectorCount = .ok (rootSectors d) := by
  have h : rootEntries d < 0x10000 := u16At_lt 17
  unfold BiosParameterBlock.rootDirSectorCount
  show mulU32 (rootEntries d) 32 >>= _ = _
  rw [mulU32_eq (by omega)]
  rfl

/-- The sector in which the driver looks for a cluster. -/
def lbaOf (d : Disk) (c : ℕ) : ℕ :=
  rootSector d + rootSectors d + (c - 2) * Fat16.sectorsPerCluster d

/-- **Sector numbers are in range**: whatever the boot sector says, a cluster with a 16-bit number
ends below sector 2^28. -/
theorem lbaOf_lt (d : Disk) {c : ℕ} (h : c < 0x10000) :
    lbaOf d c + Fat16.sectorsPerCluster d < 0x10000000 := by
  have h₁ := rootSector_lt d
  have h₂ := rootSectors_lt d
  have h₃ := sectorsPerCluster_lt d
  have h₄ : (c - 2) * Fat16.sectorsPerCluster d ≤ 0x10000 * 256 :=
    Nat.mul_le_mul (by omega) (by omega)
  unfold lbaOf
  omega

/-- `first_data_sector` does not overflow on any disk. -/
theorem firstDataSector_eq (d : Disk) :
    (bpbOf d).firstDataSector = .ok (rootSector d + rootSectors d) := by
  have h₁ := rootSector_lt d
  have h₂ := rootSectors_lt d
  unfold BiosParameterBlock.firstDataSector
  rw [firstRootDirSector_eq, rootDirSectorCount_eq]
  exact addU32_eq (a := rootSector d) (b := rootSectors d) (by omega)

/-- `cluster_to_lba` does not overflow either, from cluster 2 on. -/
theorem clusterToLba_eq (d : Disk) {c : ℕ} (hlo : 2 ≤ c) (hhi : c < 0x10000) :
    (bpbOf d).clusterToLba c = .ok (lbaOf d c) := by
  have h := lbaOf_lt d hhi
  unfold lbaOf at h
  unfold BiosParameterBlock.clusterToLba
  rw [firstDataSector_eq, subUnsigned_eq hlo]
  show mulU32 (c - 2) (Fat16.sectorsPerCluster d) >>= _ = _
  rw [mulU32_eq (by omega)]
  exact addU32_eq (a := rootSector d + rootSectors d) (by omega)

/-- The first sector of a cluster. -/
def clusterSector (d : Disk) (c : ℕ) : ℕ := dataSector d + (c - 2) * Fat16.sectorsPerCluster d

/-- On a volume, the driver looks for a cluster where it is. -/
theorem lbaOf_eq (h : Volume d) (c : ℕ) : lbaOf d c = clusterSector d c := by
  rw [lbaOf, rootSectors_eq h, clusterSector, dataSector]

/-! ## The root directory -/

/-- The fields of an entry that the driver keeps. -/
def dirEntry (entry : List UInt8) : DirEntry where
  firstCluster := Fat16.firstCluster entry
  fileSize := Fat16.fileSize entry

theorem byteOf_marker {entry : List UInt8} (h : entry.length = 32) :
    byteOf entry 0 = .ok (marker entry) := by
  rw [byteOf, if_pos (by omega)]
  cases entry with
  | nil => cases h
  | cons b bs => rfl

/-- The scan of a list of entries finds what the format says. -/
theorem scanEntries_eq (name : List UInt8) {entries : List (List UInt8)}
    (h : ∀ entry ∈ entries, entry.length = 32) :
    scanEntries name entries = .ok (match lookupIn name entries with
      | some entry => .found (dirEntry entry)
      | none => if entries.any (fun e => marker e = 0x00) then .stop else .more) := by
  induction entries with
  | nil => rfl
  | cons entry entries ih =>
    have hlen : entry.length = 32 := h entry List.mem_cons_self
    have hattr : byteOf entry 0x0B = .ok (attributes entry) := if_pos (by omega)
    have hih := ih (fun e he => h e (List.mem_cons_of_mem _ he))
    have hskip : ¬ marker entry = 0x00 → ¬ (Regular entry ∧ entry.take 11 = name) →
        scanEntries name entries = .ok (match lookupIn name (entry :: entries) with
          | some entry => .found (dirEntry entry)
          | none =>
            if (entry :: entries).any (fun e => marker e = 0x00) then .stop else .more) := by
      intro hmark hno
      rw [hih, lookupIn_cons, if_neg hmark, if_neg hno, List.any_cons, decide_eq_false hmark,
        Bool.false_or]
    rw [scanEntries, byteOf_marker hlen]
    show (if marker entry = 0x00 then _ else _) = _
    by_cases hmark : marker entry = 0x00
    · rw [if_pos hmark, lookupIn_cons, if_pos hmark, List.any_cons, decide_eq_true hmark]
      rfl
    rw [if_neg hmark]
    by_cases hfree : marker entry = 0xE5
    · rw [if_pos hfree]
      exact hskip hmark (fun hr => hr.1.1 hfree)
    rw [if_neg hfree, hattr]
    show (if attributes entry = 0x0F ∨ attributes entry &&& 0x08 ≠ 0 then _ else _) = _
    by_cases hlong : attributes entry = 0x0F ∨ attributes entry &&& 0x08 ≠ 0
    · rw [if_pos hlong]
      exact hskip hmark (fun hr => hlong.elim hr.1.2.1 (fun hv => hv hr.1.2.2.1))
    rw [if_neg hlong]
    by_cases hdir : attributes entry &&& 0x10 ≠ 0
    · rw [if_pos hdir]
      exact hskip hmark (fun hr => hdir hr.1.2.2.2)
    rw [if_neg hdir]
    by_cases hname : entry.take 11 = name
    · have hregular : Regular entry ∧ entry.take 11 = name :=
        ⟨⟨hfree, fun hl => hlong (Or.inl hl), not_not.mp (fun hv => hlong (Or.inr hv)),
          not_not.mp hdir⟩, hname⟩
      rw [if_pos hname, lookupIn_cons, if_neg hmark, if_pos hregular]
      have hcluster : readU16 entry 0x1A = .ok (Fat16.firstCluster entry) := if_pos (by omega)
      have hsize : readU32 entry 0x1C = .ok (Fat16.fileSize entry) := if_pos (by omega)
      rw [hcluster, hsize]
      rfl
    · rw [if_neg hname]
      exact hskip hmark (fun hr => hname hr.2)

/-- The search goes on in the second list unless it has found the name, or the end marker, in the
first. -/
theorem lookupIn_append (name : List UInt8) (es es' : List (List UInt8)) :
    lookupIn name (es ++ es') = match lookupIn name es with
      | some entry => some entry
      | none => if es.any (fun e => marker e = 0x00) then none else lookupIn name es' := by
  induction es with
  | nil => rfl
  | cons entry es ih =>
    rw [List.cons_append, lookupIn_cons, lookupIn_cons, List.any_cons]
    by_cases hmark : marker entry = 0x00
    · rw [if_pos hmark, if_pos hmark, decide_eq_true hmark]
      rfl
    · rw [if_neg hmark, if_neg hmark, decide_eq_false hmark, Bool.false_or]
      by_cases hmatch : Regular entry ∧ entry.take 11 = name
      · rw [if_pos hmatch, if_pos hmatch]
      · rw [if_neg hmatch, if_neg hmatch, ih]

/-- A sector of the root directory holds sixteen entries. -/
theorem chunksExact_root (d : Disk) (i : ℕ) :
    chunksExact 32 (Buffer.slice (d (rootSector d + i)) 0 512) =
      (List.range' (16 * i) 16).map (entryAt d) := by
  unfold chunksExact
  rw [Buffer.length_slice, List.range'_eq_map_range, List.map_map]
  refine List.map_congr_left (fun k hk => ?_)
  have hk' : k < 16 := List.mem_range.mp hk
  have hoff : rootStart d + 32 * (16 * i + k) = (rootSector d + i) * 512 + k * 32 := by
    unfold rootStart fatStart rootSector
    ring
  show ((Buffer.slice _ 0 512).drop (k * 32)).take 32 = entryAt d (16 * i + k)
  rw [Buffer.take_drop_slice _ _ (by omega), Nat.zero_add, entryAt, hoff,
    bytesAt_sector (by omega)]

/-- The loop over the sectors of the root directory searches their entries in order: by induction
on the sectors, each of which has 16 entries. -/
theorem scanSectors_eq (d : Disk) (name : List UInt8) {i k : ℕ}
    (h : rootSector d + i + k < 0x10000000) :
    scanSectors d name (rootSector d) i k =
      .ok ((lookupIn name ((List.range' (16 * i) (16 * k)).map (entryAt d))).map dirEntry) := by
  induction k generalizing i with
  | zero => rfl
  | succ k ih =>
    have hrange : List.range' (16 * i) (16 * (k + 1)) =
        List.range' (16 * i) 16 ++ List.range' (16 * (i + 1)) (16 * k) := by
      rw [Nat.mul_add 16 i 1, Nat.mul_add 16 k 1, Nat.add_comm (16 * k)]
      exact (List.range'_append_1 ..).symm
    have hlen : ∀ entry ∈ (List.range' (16 * i) 16).map (entryAt d), entry.length = 32 := by
      intro entry hentry
      obtain ⟨j, -, rfl⟩ := List.mem_map.mp hentry
      exact length_bytesAt _ _
    rw [scanSectors, addU32_eq (by omega)]
    show readSector d (rootSector d + i) >>= _ = _
    rw [readSector_eq d (by omega)]
    show scanEntries name (chunksExact 32 (Buffer.slice (d (rootSector d + i)) 0 512)) >>= _ = _
    rw [chunksExact_root, scanEntries_eq name hlen, hrange, List.map_append, lookupIn_append]
    cases lookupIn name ((List.range' (16 * i) 16).map (entryAt d)) with
    | some entry => rfl
    | none =>
      by_cases hend : ((List.range' (16 * i) 16).map (entryAt d)).any (fun e => marker e = 0x00)
      · rw [if_pos hend, if_pos hend]
        rfl
      · rw [if_neg hend, if_neg hend]
        exact ih (by omega)

/-- The entries the driver looks through. -/
def scannedEntries (d : Disk) : List (List UInt8) :=
  (List.range (16 * rootSectors d)).map (entryAt d)

/-- `find_in_root_dir` searches all entries of the sectors of the root directory. -/
theorem findInRootDir_eq (d : Disk) (name : List UInt8) :
    findInRootDir d (bpbOf d) name = .ok ((lookupIn name (scannedEntries d)).map dirEntry) := by
  have h₁ := rootSector_lt d
  have h₂ := rootSectors_lt d
  unfold findInRootDir
  rw [firstRootDirSector_eq, rootDirSectorCount_eq]
  show scanSectors d name (rootSector d) 0 (rootSectors d) = _
  rw [scanSectors_eq d name (by omega), scannedEntries, Nat.mul_zero, List.range_eq_range']

/-- On a volume these are the root directory. -/
theorem lookupIn_scannedEntries (h : Volume d) (name : List UInt8) :
    lookupIn name (scannedEntries d) = lookup d name := by
  have hcount : 16 * (rootEntries d / 16) = rootEntries d :=
    Nat.mul_div_cancel' (Nat.dvd_of_mod_eq_zero h.root)
  rw [scannedEntries, rootSectors_eq h, hcount, lookup]

/-! ## The clusters -/

/-- `next_cluster` reads the FAT entry of the cluster, and stops at an end mark or a bad cluster. -/
theorem nextCluster_eq (d : Disk) {c : ℕ} (h : c < 0x10000) :
    nextCluster d (bpbOf d) c =
      .ok (if 0xFFF8 ≤ fatEntry d c ∨ fatEntry d c = 0xFFF7 then none
        else some (fatEntry d c)) := by
  have hreserved : reserved d < 0x10000 := u16At_lt 14
  have hoff : (reserved d + c * 2 / 512) * 512 + c * 2 % 512 = fatStart d + 2 * c := by
    unfold fatStart
    omega
  have hentry : readU16 (Buffer.slice (d (reserved d + c * 2 / 512)) 0 512) (c * 2 % 512) =
      .ok (fatEntry d c) := by
    rw [readU16, readLe_slice _ (by omega), hoff, fatEntry, u16At]
  have hfirst : (bpbOf d).firstFatSector = reserved d := rfl
  rw [nextCluster, mulU32_eq (by omega), ok_bind, hfirst, addU32_eq (by omega), ok_bind,
    readSector_eq d (by omega), ok_bind, hentry, ok_bind]
  split_ifs <;> rfl

/-- The sectors of a cluster are appended up to the size of the file. -/
theorem readSectors_eq (d : Disk) {size lba i k : ℕ} {data : List UInt8}
    (hdata : data.length < size) (hlba : lba + i + k < 0x10000000) :
    readSectors d size lba i k data =
      .ok (decide (size ≤ data.length + k * 512),
        (data ++ bytesAt d ((lba + i) * 512) (k * 512)).take size) := by
  induction k generalizing i data with
  | zero =>
    have htake : (data ++ bytesAt d ((lba + i) * 512) (0 * 512)).take size = data := by
      rw [Nat.zero_mul]
      show (data ++ []).take size = data
      rw [List.append_nil, List.take_of_length_le hdata.le]
    rw [htake, decide_eq_false (by omega)]
    rfl
  | succ k ih =>
    have hsplit : bytesAt d ((lba + i) * 512) ((k + 1) * 512) =
        Buffer.slice (d (lba + i)) 0 512 ++ bytesAt d ((lba + (i + 1)) * 512) (k * 512) := by
      rw [Nat.add_mul k 1, Nat.add_comm (k * 512), bytesAt_add, Nat.one_mul]
      have hfirst : bytesAt d ((lba + i) * 512 + 0) 512 = Buffer.slice (d (lba + i)) 0 512 :=
        bytesAt_sector (by omega)
      have hnext : (lba + i) * 512 + 512 = (lba + (i + 1)) * 512 := by ring
      rw [Nat.add_zero] at hfirst
      rw [hfirst, hnext]
    rw [readSectors, addU32_eq (by omega)]
    show readSector d (lba + i) >>= _ = _
    rw [readSector_eq d (by omega)]
    show subUnsigned size data.length >>= _ = _
    rw [subUnsigned_eq hdata.le]
    show (if size ≤ (data ++ (Buffer.slice (d (lba + i)) 0 512).take
      (min (size - data.length) 512)).length then _ else _) = _
    have hlen : (data ++ (Buffer.slice (d (lba + i)) 0 512).take
        (min (size - data.length) 512)).length = data.length + min (size - data.length) 512 := by
      rw [List.length_append, List.length_take, Buffer.length_slice]
      omega
    rw [hlen, hsplit]
    by_cases hdone : size - data.length ≤ 512
    · -- the file ends in this sector
      rw [Nat.min_eq_left hdone, if_pos (by omega), decide_eq_true (by omega), List.take_append,
        List.take_of_length_le hdata.le, List.take_append, Buffer.length_slice,
        Nat.sub_eq_zero_of_le hdone, List.take_zero, List.append_nil]
      rfl
    · rw [Nat.min_eq_right (by omega), if_neg (by omega),
        List.take_of_length_le (by rw [Buffer.length_slice])]
      refine (ih ?_ (by omega)).trans ?_
      · rw [List.length_append, Buffer.length_slice]
        omega
      · rw [List.length_append, Buffer.length_slice, List.append_assoc]
        congr 3
        exact propext ⟨fun _ => by omega, fun _ => by omega⟩

/-- The bytes of a cluster are those of its sectors. -/
theorem cluster_eq (h : Volume d) (c : ℕ) :
    cluster d c = bytesAt d (clusterSector d c * 512) (Fat16.sectorsPerCluster d * 512) := by
  have hroot : rootEntries d / 16 * 16 = rootEntries d :=
    Nat.div_mul_cancel (Nat.dvd_of_mod_eq_zero h.root)
  have hoff : dataStart d + (c - 2) * (Fat16.sectorsPerCluster d * 512) =
      clusterSector d c * 512 := by
    unfold dataStart rootStart fatStart clusterSector dataSector rootSector
    calc reserved d * 512 + fats d * fatSize d * 512 + rootEntries d * 32 +
          (c - 2) * (Fat16.sectorsPerCluster d * 512)
        = reserved d * 512 + fats d * fatSize d * 512 + rootEntries d / 16 * 16 * 32 +
          (c - 2) * (Fat16.sectorsPerCluster d * 512) := by rw [hroot]
      _ = _ := by ring
  rw [cluster, hoff]

/-- The cluster after `c` in its chain, if `c` is not the last. -/
def nextInChain (d : Disk) (c : ℕ) : Option ℕ :=
  if 0xFFF8 ≤ fatEntry d c ∨ fatEntry d c = 0xFFF7 then none else some (fatEntry d c)

/-- **One round of the loop**, on any disk: the sectors of the cluster are appended, and the loop
goes on with the next cluster if the file is not complete. -/
theorem readCluster_ok (d : Disk) {size c : ℕ} {data : List UInt8} (hlo : 2 ≤ c)
    (hhi : c < 0x10000) (hdata : data.length < size) :
    readCluster d (bpbOf d) size c data =
      .ok (if size ≤ data.length + Fat16.sectorsPerCluster d * 512 then none else nextInChain d c,
        (data ++ bytesAt d (lbaOf d c * 512) (Fat16.sectorsPerCluster d * 512)).take size) := by
  have hlba := lbaOf_lt d hhi
  unfold readCluster
  rw [clusterToLba_eq d hlo hhi]
  show readSectors d size (lbaOf d c) 0 (Fat16.sectorsPerCluster d) data >>= _ = _
  rw [readSectors_eq d hdata (by omega), Nat.add_zero, nextCluster_eq d hhi]
  by_cases hdone : size ≤ data.length + Fat16.sectorsPerCluster d * 512
  · rw [decide_eq_true hdone, if_pos hdone]
    rfl
  · rw [decide_eq_false hdone, if_neg hdone]
    rfl

/-- One round of the loop of `read_file`: the cluster is appended, cut at the size of the file, and
the loop goes on unless the file is complete or the chain ends. -/
theorem readCluster_eq (h : Volume d) {size c : ℕ} {data : List UInt8} (hlo : 2 ≤ c)
    (hhi : c ≤ 0xFFEF) (hdata : data.length < size) :
    readCluster d (bpbOf d) size c data =
      .ok (if size ≤ data.length + (cluster d c).length ∨ 0xFFF8 ≤ fatEntry d c ∨
          fatEntry d c = 0xFFF7 then none else some (fatEntry d c),
        (data ++ cluster d c).take size) := by
  have hlen : (cluster d c).length = Fat16.sectorsPerCluster d * 512 := length_bytesAt _ _
  rw [readCluster_ok d hlo (by omega) hdata, lbaOf_eq h, ← cluster_eq h, hlen, nextInChain]
  by_cases hdone : size ≤ data.length + Fat16.sectorsPerCluster d * 512
  · rw [if_pos hdone, if_pos (Or.inl hdone)]
  · rw [if_neg hdone]
    simp only [hdone, false_or]

/-- The clusters of a chain are data clusters. -/
theorem Chain.bounds {c : ℕ} {cs : List ℕ} (h : Chain d c cs) : 2 ≤ c ∧ c ≤ 0xFFEF := by
  cases h with
  | last hlo hhi => exact ⟨hlo, hhi⟩
  | next hlo hhi => exact ⟨hlo, hhi⟩

/-- **The loop over a chain** reads the clusters one after another, up to the size of the file. -/
theorem readClusters_eq (h : Volume d) {size c rounds : ℕ} {cs : List ℕ} {data : List UInt8}
    (hchain : Chain d c cs) (hdata : data.length < size) (hrounds : cs.length ≤ rounds) :
    readClusters d (bpbOf d) size rounds c data =
      some (.ok ((data ++ cs.flatMap (cluster d)).take size)) := by
  induction hchain generalizing rounds data with
  | @last c hlo hhi hend =>
    obtain ⟨rounds, rfl⟩ := Nat.exists_eq_add_of_le' hrounds
    have hstop : size ≤ data.length + (cluster d c).length ∨ 0xFFF8 ≤ fatEntry d c ∨
        fatEntry d c = 0xFFF7 := Or.inr hend.symm
    rw [List.length_singleton, readClusters, readCluster_eq h hlo hhi hdata, if_pos hstop,
      List.flatMap_singleton]
  | @next c cs hlo hhi hrest ih =>
    obtain ⟨rounds, rfl⟩ := Nat.exists_eq_add_of_le' (Nat.succ_le_of_lt
      (Nat.lt_of_lt_of_le (Nat.zero_lt_succ cs.length) hrounds))
    have hbounds := Chain.bounds hrest
    rw [readClusters, readCluster_eq h hlo hhi hdata, List.flatMap_cons, ← List.append_assoc]
    by_cases hdone : size ≤ data.length + (cluster d c).length
    · have htake : (data ++ cluster d c ++ cs.flatMap (cluster d)).take size =
          (data ++ cluster d c).take size :=
        List.take_append_of_le_length (by rw [List.length_append]; exact hdone)
      rw [if_pos (Or.inl hdone), htake]
    · have hgo : ¬ (size ≤ data.length + (cluster d c).length ∨ 0xFFF8 ≤ fatEntry d c ∨
          fatEntry d c = 0xFFF7) := by omega
      rw [if_neg hgo]
      have hmore : (data ++ cluster d c).length < size := by
        rw [List.length_append]
        omega
      rw [List.take_of_length_le hmore.le]
      exact ih hmore (by rw [List.length_cons] at hrounds; omega)

/-! ## Names -/

/-- Only the dot becomes a dot. -/
theorem toAsciiUppercase_eq_dot (b : UInt8) : toAsciiUppercase b = 0x2E ↔ b = 0x2E := by
  revert b
  decide +kernel

/-- A name is cut at its first dot, if there is one. -/
theorem toFat83_eq (name : List UInt8) :
    toFat83 name =
      if name.takeWhile (· ≠ 0x2E) = [] ∨ 8 < (name.takeWhile (· ≠ 0x2E)).length ∨
        3 < (name.dropWhile (· ≠ 0x2E)).tail.length then none
      else some (((name.takeWhile (· ≠ 0x2E)).map toAsciiUppercase).rightpad 8 0x20 ++
        ((name.dropWhile (· ≠ 0x2E)).tail.map toAsciiUppercase).rightpad 3 0x20) := by
  unfold toFat83 splitOnce
  by_cases hdot : 0x2E ∈ name
  · rw [if_pos hdot]
  · have hall : ∀ b ∈ name, decide (b ≠ 0x2E) = true := by
      intro b hb
      rw [decide_eq_true_iff]
      rintro rfl
      exact hdot hb
    rw [if_neg hdot, List.takeWhile_eq_self_iff.mpr hall, List.dropWhile_eq_nil_iff.mpr hall]
    rfl

/-- The 8.3 form of a name only depends on its letters up to case. -/
theorem toFat83_congr {name name' : List UInt8}
    (h : name'.map toAsciiUppercase = name.map toAsciiUppercase) :
    toFat83 name' = toFat83 name := by
  have hdot : (fun b : UInt8 => decide (b ≠ 0x2E)) ∘ toAsciiUppercase =
      fun b => decide (b ≠ 0x2E) := by
    funext b
    simp only [Function.comp_apply, ne_eq, toAsciiUppercase_eq_dot]
  have hbase : (name'.takeWhile (· ≠ 0x2E)).map toAsciiUppercase =
      (name.takeWhile (· ≠ 0x2E)).map toAsciiUppercase := by
    have hcut := congrArg (List.takeWhile (fun b : UInt8 => decide (b ≠ 0x2E))) h
    rwa [List.takeWhile_map, List.takeWhile_map, hdot] at hcut
  have hext : (name'.dropWhile (· ≠ 0x2E)).tail.map toAsciiUppercase =
      (name.dropWhile (· ≠ 0x2E)).tail.map toAsciiUppercase := by
    have hcut := congrArg (fun l => (List.dropWhile (fun b : UInt8 => decide (b ≠ 0x2E)) l).tail) h
    simp only [List.dropWhile_map, hdot] at hcut
    rwa [List.map_tail, List.map_tail]
  have hlen := congrArg List.length hbase
  have hlen' := congrArg List.length hext
  simp only [List.length_map] at hlen hlen'
  have hempty : name'.takeWhile (· ≠ 0x2E) = [] ↔ name.takeWhile (· ≠ 0x2E) = [] := by
    rw [← List.length_eq_zero_iff, ← List.length_eq_zero_iff, hlen]
  simp only [toFat83_eq, hbase, hext, hempty, hlen, hlen']

/-! ## The file -/

/-- Up to the directory entry, `read_file` is the lookup of the 8.3 name on a volume. -/
theorem openEntry_eq (h : Volume d) {name fatName : List UInt8}
    (hname : toFat83 name = some fatName) :
    openEntry d name = .ok ((lookup d fatName).map (fun entry => (bpbOf d, dirEntry entry))) := by
  unfold openEntry
  rw [hname]
  show readSector d 0 >>= _ = _
  rw [readSector_eq d (by decide), ok_bind, parse_eq h.sector, ok_bind]
  show findInRootDir d (bpbOf d) fatName >>= _ = _
  rw [findInRootDir_eq, lookupIn_scannedEntries h, ok_bind]
  cases lookup d fatName <;> rfl

/-- **`read_file` reads FAT16.**  On a volume whose boot sector is as the driver expects, a name
without an 8.3 form or without an entry gives `None`; otherwise the first entry of that name
decides: an empty file is empty, and for a file whose size the heap can provide the result is
the content of its cluster chain, cut off at the size of the file.  The case of letters does
not matter. -/
theorem readFile_correct (h : Volume d) (heap : ℕ) (name : List UInt8) :
    (toFat83 name = none → ∀ rounds, readFile heap d rounds name = some (.ok none)) ∧
    (∀ fatName, toFat83 name = some fatName →
      (lookup d fatName = none → ∀ rounds, readFile heap d rounds name = some (.ok none)) ∧
      ∀ entry, lookup d fatName = some entry →
        (fileSize entry = 0 → ∀ rounds, readFile heap d rounds name = some (.ok (some []))) ∧
        (0 < fileSize entry → fileSize entry ≤ heap →
          ∀ cs, Chain d (firstCluster entry) cs → ∀ rounds ≥ cs.length,
            readFile heap d rounds name =
              some (.ok (some ((cs.flatMap (cluster d)).take (fileSize entry)))))) ∧
    (∀ name', name'.map toAsciiUppercase = name.map toAsciiUppercase →
      ∀ rounds, readFile heap d rounds name' = readFile heap d rounds name) := by
  refine ⟨?_, ?_, ?_⟩
  · intro hnone rounds
    unfold readFile openEntry
    rw [hnone]
  · intro fatName hname
    refine ⟨?_, ?_⟩
    · intro hlookup rounds
      rw [readFile, openEntry_eq h hname, hlookup]
      rfl
    · intro entry hlookup
      have hopen : openEntry d name = .ok (some (bpbOf d, dirEntry entry)) := by
        rw [openEntry_eq h hname, hlookup]
        rfl
      refine ⟨?_, ?_⟩
      · intro hsize rounds
        rw [readFile, hopen]
        show (if heap < fileSize entry then _ else _) = _
        rw [hsize, if_neg (Nat.not_lt_zero heap)]
        exact if_pos hsize
      · intro hpos hheap cs hchain rounds hrounds
        have hread := readClusters_eq h hchain (List.length_nil.trans_lt hpos) hrounds
        rw [readFile, hopen]
        show (if heap < fileSize entry then _ else if fileSize entry = 0 then _ else
          (readClusters d (bpbOf d) (fileSize entry) rounds (firstCluster entry) []).map _) = _
        rw [if_neg (by omega), if_neg (by omega), hread]
        rfl
  · intro name' hname' rounds
    unfold readFile openEntry
    rw [toFat83_congr hname']

/-! ### A volume with one file -/

/-- Sector 0 is the boot sector, sector 1 the table, sector 2 the root directory with the file
`A`, whose only cluster is sector 3; `hi` and `lo` are the highest and the lowest byte of its
size. -/
def oneFile (hi lo : UInt8) : Disk
  | 0 => fun i => match i.val with
    | 12 => 2
    | 13 => 1
    | 14 => 1
    | 16 => 1
    | 17 => 16
    | 22 => 1
    | _ => 0
  | 1 => fun i => if i.val = 4 ∨ i.val = 5 then 0xFF else 0
  | 2 => fun i =>
    if i.val = 0 then 0x41
    else if i.val ≤ 11 then 0x20
    else if i.val = 26 then 2
    else if i.val = 28 then lo
    else if i.val = 31 then hi
    else 0
  | _ => fun i => UInt8.ofNat i.val

/-- The 8.3 form of `A`. -/
def fatNameA : List UInt8 := 0x41 :: List.replicate 10 0x20

/-- The same file with 514 bytes: a second cluster, in sector 4, follows the first. -/
def twoClusters : Disk
  | 1 => fun i => if i.val = 4 then 3 else if i.val = 6 ∨ i.val = 7 then 0xFF else 0
  | 2 => fun i => if i.val = 29 then 2 else oneFile 0 2 2 i
  | 4 => fun i => UInt8.ofNat (0x80 + i.val)
  | n => oneFile 0 2 n

/-- The bytes come from both clusters, in order. -/
theorem readFile_correct_twoClusters :
    readFile 0x400000 twoClusters 2 [0x61] =
      some (.ok (some ((List.range 512).map UInt8.ofNat ++ [0x80, 0x81]))) := by
  have hlookup : lookup twoClusters fatNameA = some (entryAt twoClusters 0) := by decide +kernel
  have hlast : Chain twoClusters (fatEntry twoClusters 2) [3] := by
    rw [show fatEntry twoClusters 2 = 3 by decide]
    exact .last (by decide) (by decide) (by decide)
  have hchain : Chain twoClusters 2 [2, 3] := .next (by decide) (by decide) hlast
  have hvolume : Volume twoClusters := ⟨by decide, by decide, by decide⟩
  have hread := ((readFile_correct hvolume 0x400000 [0x61]).2.1 fatNameA (by decide)).2 _ hlookup
  refine (hread.2 (by decide) (by decide) [2, 3] hchain 2 (by decide)).trans ?_
  decide +kernel

/-- A file of 16 MiB, by its directory entry: the buffer does not fit into the 4 MiB heap, and the
kernel panics, although one cluster is all there is to read. -/
theorem readFile_panics_oneFile :
    Volume (oneFile 1 0) ∧ toFat83 [0x41] = some fatNameA ∧
      (∃ entry, lookup (oneFile 1 0) fatNameA = some entry ∧ fileSize entry = 0x1000000 ∧
        Chain (oneFile 1 0) (firstCluster entry) [2]) ∧
      ∀ rounds, readFile 0x400000 (oneFile 1 0) rounds [0x41] =
        some (.error .allocationFailed) := by
  have hvolume : Volume (oneFile 1 0) := ⟨by decide, by decide, by decide⟩
  have hname : toFat83 [0x41] = some fatNameA := by decide
  have hlookup : lookup (oneFile 1 0) fatNameA = some (entryAt (oneFile 1 0) 0) := by
    decide +kernel
  have hopen : openEntry (oneFile 1 0) [0x41] =
      .ok (some (bpbOf (oneFile 1 0), dirEntry (entryAt (oneFile 1 0) 0))) := by
    rw [openEntry_eq hvolume hname, hlookup]
    rfl
  refine ⟨hvolume, hname, ⟨_, hlookup, by decide, ?_⟩, fun rounds => ?_⟩
  · exact .last (by decide) (by decide) (by decide)
  · rw [readFile, hopen]
    exact if_pos (by decide)

end Fs
