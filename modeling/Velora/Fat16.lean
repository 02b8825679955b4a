/-
# The FAT16 format

What a FAT16 volume holds, read off the image as one long string of bytes: the
fields of the boot sector, the table of cluster numbers, the directory entries of the
root, and the clusters of the data area.  Nothing here knows about sectors beyond the
declared sizes, which are given in units of 512 bytes.
-/
import Velora.Buffers

/-- A sector of 512 bytes. -/
abbrev Sector := Buffer UInt8 512

/-- A disk image, by sectors. -/
abbrev Disk := ℕ → Sector

namespace Fat16

/-- The integer of some bytes, lowest first. -/
def le : List UInt8 → ℕ
  | [] => 0
  | b :: bs => b.toNat + 256 * le bs

variable (d : Disk)

/-- A byte of the image. -/
def byteAt (i : ℕ) : UInt8 := Buffer.get (d (i / 512)) (i % 512)

/-- Some bytes of the image. -/
def bytesAt (off len : ℕ) : List UInt8 := (List.range len).map (fun i => byteAt d (off + i))

/-- A 16-bit field. -/
def u16At (off : ℕ) : ℕ := le (bytesAt d off 2)

/-! ## The boot sector -/

/-- Bytes per sector. -/
def sectorSize : ℕ := u16At d 11

/-- Sectors per cluster. -/
def sectorsPerCluster : ℕ := (byteAt d 13).toNat

/-- Sectors before the first table. -/
def reserved : ℕ := u16At d 14

/-- The number of tables. -/
def fats : ℕ := (byteAt d 16).toNat

/-- Entries of the root directory. -/
def rootEntries : ℕ := u16At d 17

/-- Sectors of one table. -/
def fatSize : ℕ := u16At d 22

/-! ## The areas -/

/-- Where the first table starts. -/
def fatStart : ℕ := reserved d * 512

/-- Where the root directory starts. -/
def rootStart : ℕ := fatStart d + fats d * fatSize d * 512

/-- Where cluster 2 starts. -/
def dataStart : ℕ := rootStart d + rootEntries d * 32

/-- The entry of a cluster in the first table. -/
def fatEntry (c : ℕ) : ℕ := u16At d (fatStart d + 2 * c)

/-- The content of a cluster. -/
def cluster (c : ℕ) : List UInt8 :=
  bytesAt d (dataStart d + (c - 2) * (sectorsPerCluster d * 512)) (sectorsPerCluster d * 512)

/-- A chain of clusters from `c` on, up to one that is marked as the last or as bad. -/
inductive Chain : ℕ → List ℕ → Prop
  | last {c : ℕ} (hlo : 2 ≤ c) (hhi : c ≤ 0xFFEF)
      (hend : fatEntry d c = 0xFFF7 ∨ 0xFFF8 ≤ fatEntry d c) : Chain c [c]
  | next {c : ℕ} {cs : List ℕ} (hlo : 2 ≤ c) (hhi : c ≤ 0xFFEF)
      (hrest : Chain (fatEntry d c) cs) : Chain c (c :: cs)

/-! ## The root directory -/

/-- Entry `k` of the root directory. -/
def entryAt (k : ℕ) : List UInt8 := bytesAt d (rootStart d + 32 * k) 32

/-- The first byte of an entry, which may mark it. -/
def marker (entry : List UInt8) : UInt8 := entry.headD 0

/-- The attributes of an entry. -/
def attributes (entry : List UInt8) : UInt8 := entry.getD 11 0

/-- The first cluster of an entry. -/
def firstCluster (entry : List UInt8) : ℕ := le ((entry.drop 26).take 2)

/-- The size of an entry's file. -/
def fileSize (entry : List UInt8) : ℕ := le ((entry.drop 28).take 4)

/-- The entry is not deleted, part of a long name, a volume label or a directory. -/
def Regular (entry : List UInt8) : Prop :=
  marker entry ≠ 0xE5 ∧ attributes entry ≠ 0x0F ∧ attributes entry &&& 0x08 = 0 ∧
    attributes entry &&& 0x10 = 0

instance (entry : List UInt8) : Decidable (Regular entry) :=
  inferInstanceAs (Decidable (_ ∧ _ ∧ _ ∧ _))

/-- The first entry for a name among some entries, up to the end marker. -/
def lookupIn (name : List UInt8) (entries : List (List UInt8)) : Option (List UInt8) :=
  (entries.takeWhile (fun e => marker e ≠ 0x00)).find?
    (fun e => decide (Regular e ∧ e.take 11 = name))

/-- The entry of a name in the root directory. -/
def lookup (name : List UInt8) : Option (List UInt8) :=
  lookupIn name ((List.range (rootEntries d)).map (entryAt d))

/-! ## Bytes of one sector -/

variable {d}

theorem le_lt (bs : List UInt8) : le bs < 256 ^ bs.length := by
  induction bs with
  | nil => decide
  | cons b bs ih =>
    have hb := b.toNat_lt
    rw [le, List.length_cons, pow_succ]
    omega

theorem u16At_lt (off : ℕ) : u16At d off < 0x10000 := by
  have h := le_lt (bytesAt d off 2)
  rwa [show (bytesAt d off 2).length = 2 from rfl] at h

@[simp] theorem length_bytesAt (off len : ℕ) : (bytesAt d off len).length = len := by
  simp [bytesAt]

/-- Bytes that lie in one sector. -/
theorem bytesAt_sector {l off len : ℕ} (h : off + len ≤ 512) :
    bytesAt d (l * 512 + off) len = Buffer.slice (d l) off len := by
  refine List.map_congr_left (fun i hi => ?_)
  have hi' := List.mem_range.mp hi
  have hdiv : (l * 512 + off + i) / 512 = l := by omega
  have hmod : (l * 512 + off + i) % 512 = off + i := by omega
  rw [byteAt, hdiv, hmod]

theorem bytesAt_add (off len len' : ℕ) :
    bytesAt d off (len + len') = bytesAt d off len ++ bytesAt d (off + len) len' := by
  unfold bytesAt
  rw [List.range_add, List.map_append, List.map_map]
  congr 1
  refine List.map_congr_left (fun i _ => ?_)
  show byteAt d (off + (len + i)) = byteAt d (off + len + i)
  rw [Nat.add_assoc]

theorem lookupIn_cons (name entry : List UInt8) (entries : List (List UInt8)) :
    lookupIn name (entry :: entries) =
      if marker entry = 0x00 then none
      else if Regular entry ∧ entry.take 11 = name then some entry
      else lookupIn name entries := by
  unfold lookupIn
  by_cases hend : marker entry = 0x00
  · rw [if_pos hend, List.takeWhile_cons_of_neg (by simp [hend])]
    rfl
  · rw [if_neg hend, List.takeWhile_cons_of_pos (by simp [hend]), List.find?_cons]
    by_cases hmatch : Regular entry ∧ entry.take 11 = name
    · rw [if_pos hmatch, decide_eq_true hmatch]
    · rw [if_neg hmatch, decide_eq_false hmatch]

end Fat16
