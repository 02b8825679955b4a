/-
# Reading a file

fs.rs: the FAT16 driver, on a disk that `ata::read_sector` reads correctly.  Every
unchecked operation on machine integers is a checked one here, an index outside its
slice is a panic, and `heap` is the largest block the allocator can hand out.

The loop over the clusters of a file need not end on a damaged volume, so it runs for
a given number of rounds; `none` is a loop that has not ended by then.
-/
import Velora.Fat16
import Velora.VirtAddr

namespace Fs

/-! ## Integers and slices -/

/-- `a + b` on `u32` -/
def addU32 (a b : ℕ) : Except Panic ℕ :=
  if a + b < 0x100000000 then .ok (a + b) else .error .arithmeticOverflow

/-- `a * b` on `u32` -/
def mulU32 (a b : ℕ) : Except Panic ℕ :=
  if a * b < 0x100000000 then .ok (a * b) else .error .arithmeticOverflow

/-- `a - b` on an unsigned type -/
def subUnsigned (a b : ℕ) : Except Panic ℕ :=
  if b ≤ a then .ok (a - b) else .error .arithmeticOverflow

/-- `bytes[offset]` -/
def byteOf (bytes : List UInt8) (offset : ℕ) : Except Panic UInt8 :=
  if offset < bytes.length then .ok (bytes.getD offset 0) else .error .indexOutOfBounds

/-- `from_le_bytes(bytes[offset..offset + n])` -/
def readLe (n : ℕ) (bytes : List UInt8) (offset : ℕ) : Except Panic ℕ :=
  if offset + n ≤ bytes.length then .ok (Fat16.le ((bytes.drop offset).take n))
  else .error .indexOutOfBounds

/-- `read_u16` -/
def readU16 : List UInt8 → ℕ → Except Panic ℕ := readLe 2

/-- `read_u32` -/
def readU32 : List UInt8 → ℕ → Except Panic ℕ := readLe 4

/-- `chunks_exact` -/
def chunksExact (n : ℕ) (bytes : List UInt8) : List (List UInt8) :=
  (List.range (bytes.length / n)).map (fun k => (bytes.drop (k * n)).take n)

/-- `read_sector`, with the assertion of `ata::read_sector`. -/
def readSector (disk : Disk) (lba : ℕ) : Except Panic (List UInt8) :=
  if lba < 0x10000000 then .ok (Buffer.slice (disk lba) 0 512) else .error .lbaTooLarge

/-! ## The boot sector -/

/-- `BiosParameterBlock` -/
structure BiosParameterBlock where
  reservedSectorCount : ℕ
  numFats : ℕ
  rootEntryCount : ℕ
  fatSizeSectors : ℕ
  sectorsPerCluster : ℕ

namespace BiosParameterBlock

/-- `BiosParameterBlock::parse` -/
def parse (bootSector : List UInt8) : Except Panic (Option BiosParameterBlock) := do
  let bytesPerSector ← readU16 bootSector 0x0B
  if bytesPerSector ≠ 512 then return none
  let reservedSectorCount ← readU16 bootSector 0x0E
  let numFats ← byteOf bootSector 0x10
  let rootEntryCount ← readU16 bootSector 0x11
  let fatSizeSectors ← readU16 bootSector 0x16
  let sectorsPerCluster ← byteOf bootSector 0x0D
  return some
    { reservedSectorCount := reservedSectorCount
      numFats := numFats.toNat
      rootEntryCount := rootEntryCount
      fatSizeSectors := fatSizeSectors
      sectorsPerCluster := sectorsPerCluster.toNat }

variable (bpb : BiosParameterBlock)

/-- `first_fat_sector` -/
def firstFatSector : ℕ := bpb.reservedSectorCount

/-- `root_dir_sector_count` -/
def rootDirSectorCount : Except Panic ℕ := do
  let rootDirBytes ← mulU32 bpb.rootEntryCount 32
  -- `div_ceil`
  return (rootDirBytes + 511) / 512

/-- `first_root_dir_sector` -/
def firstRootDirSector : Except Panic ℕ := do
  let fats ← mulU32 bpb.numFats bpb.fatSizeSectors
  addU32 bpb.firstFatSector fats

/-- `first_data_sector` -/
def firstDataSector : Except Panic ℕ := do
  let root ← bpb.firstRootDirSector
  let count ← bpb.rootDirSectorCount
  addU32 root count

/-- `cluster_to_lba` -/
def clusterToLba (cluster : ℕ) : Except Panic ℕ := do
  let data ← bpb.firstDataSector
  let index ← subUnsigned cluster 2
  let offset ← mulU32 index bpb.sectorsPerCluster
  addU32 data offset

end BiosParameterBlock

/-! ## Names and directory entries -/

/-- `u8::to_ascii_uppercase` -/
def toAsciiUppercase (b : UInt8) : UInt8 := if 0x61 ≤ b ∧ b ≤ 0x7A then b - 0x20 else b

/-- `split_once` -/
def splitOnce (c : UInt8) (name : List UInt8) : Option (List UInt8 × List UInt8) :=
  if c ∈ name then some (name.takeWhile (· ≠ c), (name.dropWhile (· ≠ c)).tail) else none

/-- `to_fat_83`, on the bytes of the name. -/
def toFat83 (name : List UInt8) : Option (List UInt8) :=
  let (base, ext) :=
    match splitOnce 0x2E name with
    | some (base, ext) => (base, ext)
    | none => (name, [])
  if base = [] ∨ 8 < base.length ∨ 3 < ext.length then none
  else some ((base.map toAsciiUppercase).rightpad 8 0x20 ++
    (ext.map toAsciiUppercase).rightpad 3 0x20)

/-- `DirEntry` -/
structure DirEntry where
  firstCluster : ℕ
  fileSize : ℕ
  deriving DecidableEq

/-- How the scan of a sector's entries ends. -/
inductive Scan
  | found (entry : DirEntry)
  /-- the end marker: `break 'sectors` -/
  | stop
  /-- no more entries in this sector -/
  | more

/-- The inner loop of `find_in_root_dir`. -/
def scanEntries (name : List UInt8) : List (List UInt8) → Except Panic Scan
  | [] => .ok .more
  | entry :: entries => do
    let first ← byteOf entry 0
    if first = 0x00 then return .stop
    else if first = 0xE5 then scanEntries name entries
    else
      let attributes ← byteOf entry 0x0B
      if attributes = 0x0F ∨ attributes &&& 0x08 ≠ 0 then scanEntries name entries
      else if attributes &&& 0x10 ≠ 0 then scanEntries name entries
      else if entry.take 11 = name then
        let firstCluster ← readU16 entry 0x1A
        let fileSize ← readU32 entry 0x1C
        return .found { firstCluster := firstCluster, fileSize := fileSize }
      else scanEntries name entries

/-- The outer loop, from sector `i` on with `k` to go. -/
def scanSectors (disk : Disk) (name : List UInt8) (firstSector : ℕ) :
    ℕ → ℕ → Except Panic (Option DirEntry)
  | _, 0 => .ok none
  | i, k + 1 => do
    let lba ← addU32 firstSector i
    let sector ← readSector disk lba
    match ← scanEntries name (chunksExact 32 sector) with
    | .found entry => return some entry
    | .stop => return none
    | .more => scanSectors disk name firstSector (i + 1) k

/-- `find_in_root_dir` -/
def findInRootDir (disk : Disk) (bpb : BiosParameterBlock) (name : List UInt8) :
    Except Panic (Option DirEntry) := do
  let firstSector ← bpb.firstRootDirSector
  let sectorCount ← bpb.rootDirSectorCount
  scanSectors disk name firstSector 0 sectorCount

/-! ## Following a chain -/

/-- `next_cluster` -/
def nextCluster (disk : Disk) (bpb : BiosParameterBlock) (cluster : ℕ) :
    Except Panic (Option ℕ) := do
  let fatByteOffset ← mulU32 cluster 2
  let sector ← addU32 bpb.firstFatSector (fatByteOffset / 512)
  let fatSector ← readSector disk sector
  let entry ← readU16 fatSector (fatByteOffset % 512)
  if 0xFFF8 ≤ entry ∨ entry = 0xFFF7 then return none else return some entry

/-- The loop over the sectors of a cluster, from sector `i` on with `k` to go; `true` is the
`return` in it. -/
def readSectors (disk : Disk) (fileSize firstLba : ℕ) :
    ℕ → ℕ → List UInt8 → Except Panic (Bool × List UInt8)
  | _, 0, data => .ok (false, data)
  | i, k + 1, data => do
    let lba ← addU32 firstLba i
    let sector ← readSector disk lba
    let remaining ← subUnsigned fileSize data.length
    let take := min remaining 512
    let data := data ++ sector.take take
    if fileSize ≤ data.length then return (true, data)
    else readSectors disk fileSize firstLba (i + 1) k data

/-- One round of the loop of `read_file`: it returns, or goes on with the next cluster. -/
def readCluster (disk : Disk) (bpb : BiosParameterBlock) (fileSize cluster : ℕ)
    (data : List UInt8) : Except Panic (Option ℕ × List UInt8) := do
  let firstLba ← bpb.clusterToLba cluster
  let (done, data) ← readSectors disk fileSize firstLba 0 bpb.sectorsPerCluster data
  if done then return (none, data)
  else
    let next ← nextCluster disk bpb cluster
    return (next, data)

/-- The loop of `read_file`, for some rounds. -/
def readClusters (disk : Disk) (bpb : BiosParameterBlock) (fileSize : ℕ) :
    ℕ → ℕ → List UInt8 → Option (Except Panic (List UInt8))
  | 0, _, _ => none
  | rounds + 1, cluster, data =>
    match readCluster disk bpb fileSize cluster data with
    | .error p => some (.error p)
    | .ok (none, data) => some (.ok data)
    | .ok (some next, data) => readClusters disk bpb fileSize rounds next data

/-- `read_file` up to its loop: the entry, if the file exists. -/
def openEntry (disk : Disk) (name : List UInt8) :
    Except Panic (Option (BiosParameterBlock × DirEntry)) :=
  match toFat83 name with
  | none => .ok none
  | some fatName => do
    let bootSector ← readSector disk 0
    match ← BiosParameterBlock.parse bootSector with
    | none => return none
    | some bpb =>
      match ← findInRootDir disk bpb fatName with
      | none => return none
      | some entry => return some (bpb, entry)

/-- `read_file`.  The buffer of `file_size` bytes is reserved first. -/
def readFile (heap : ℕ) (disk : Disk) (rounds : ℕ) (name : List UInt8) :
    Option (Except Panic (Option (List UInt8))) :=
  match openEntry disk name with
  | .error p => some (.error p)
  | .ok none => some (.ok none)
  | .ok (some (bpb, entry)) =>
    if heap < entry.fileSize then some (.error .allocationFailed)
    else if entry.fileSize = 0 then some (.ok (some []))
    else (readClusters disk bpb entry.fileSize rounds entry.firstCluster []).map (·.map some)

end Fs
