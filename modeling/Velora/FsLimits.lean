/-
# `read_file` on a damaged disk

Nothing is assumed about the disk here: every field of the boot sector, every entry of
the table and every directory entry may be anything.  What can go wrong is decided by the
numbers of the clusters that the loop of `read_file` follows (`chainAt`).

* The loop always ends if a cluster has a sector, because every cluster adds to the
  file; without one it ends only if the chain does (`readFile_ends_iff`).
* All sector numbers are in range and no operation overflows, but for one: the number of
  a cluster is taken minus two (`readFile_in_range_iff`).
-/
import Velora.FsRead

open Fat16

namespace Fs

variable {d : Disk}

/-! ## The entry -/

theorem parse_eq_none (h : sectorSize d ≠ 512) :
    BiosParameterBlock.parse (Buffer.slice (d 0) 0 512) = .ok none := by
  have hfield := readLe_slice (d := d) 0 (show 0x0B + 2 ≤ 512 by decide)
  rw [Nat.zero_mul, Nat.zero_add] at hfield
  unfold BiosParameterBlock.parse
  rw [readU16, hfield]
  exact if_pos h

/-- The directory entry that `read_file` works with. -/
def found (d : Disk) (name : List UInt8) : Option (List UInt8) :=
  if sectorSize d = 512 then (toFat83 name).bind fun fatName => lookupIn fatName (scannedEntries d)
  else none

/-- Finding the entry works on every disk. -/
theorem openEntry_found (d : Disk) (name : List UInt8) :
    openEntry d name = .ok ((found d name).map fun entry => (bpbOf d, dirEntry entry)) := by
  unfold openEntry found
  cases toFat83 name with
  | none => split_ifs <;> rfl
  | some fatName =>
    show readSector d 0 >>= _ = _
    rw [readSector_eq d (by decide), ok_bind]
    by_cases h : sectorSize d = 512
    · rw [parse_eq h, ok_bind, if_pos h]
      show findInRootDir d (bpbOf d) fatName >>= _ = _
      rw [findInRootDir_eq, ok_bind, Option.bind_some]
      cases lookupIn fatName (scannedEntries d) <;> rfl
    · rw [parse_eq_none h, ok_bind, if_neg h]
      rfl

/-- What `read_file` does once it has looked for the entry. -/
theorem readFile_found (heap : ℕ) (d : Disk) (rounds : ℕ) (name : List UInt8) :
    readFile heap d rounds name = match found d name with
      | none => some (.ok none)
      | some entry =>
        if heap < fileSize entry then some (.error .allocationFailed)
        else if fileSize entry = 0 then some (.ok (some []))
        else (readClusters d (bpbOf d) (fileSize entry) rounds (firstCluster entry) []).map
          (·.map some) := by
  rw [readFile, openEntry_found]
  cases found d name with
  | none => rfl
  | some entry => rfl

/-! ## The chain -/

/-- The cluster that is reached from `c` by following the table `n` times. -/
def chainAt (d : Disk) : ℕ → ℕ → Option ℕ
  | c, 0 => some c
  | c, n + 1 => (nextInChain d c).bind fun c' => chainAt d c' n

theorem nextInChain_lt {c c' : ℕ} (h : nextInChain d c = some c') : c' < 0x10000 := by
  rw [nextInChain] at h
  split_ifs at h
  obtain rfl := Option.some.inj h
  exact u16At_lt _

theorem firstCluster_lt (entry : List UInt8) : firstCluster entry < 0x10000 := by
  refine lt_of_lt_of_le (le_lt _) ?_
  exact Nat.pow_le_pow_right (by decide) (List.length_take_le 2 _)

/-- `cluster - 2` for a cluster 0 or 1. -/
theorem readCluster_error {c size : ℕ} {data : List UInt8} (h : c < 2) :
    readCluster d (bpbOf d) size c data = .error .arithmeticOverflow := by
  unfold readCluster BiosParameterBlock.clusterToLba
  rw [firstDataSector_eq]
  show (subUnsigned c 2 >>= _) >>= _ = _
  rw [subUnsigned, if_neg (by omega)]
  rfl

/-- Bytes of a cluster. -/
def clusterBytes (d : Disk) : ℕ := Fat16.sectorsPerCluster d * 512

theorem length_readCluster {size c : ℕ} {data : List UInt8}
    (h : data.length + clusterBytes d < size) :
    ((data ++ bytesAt d (lbaOf d c * 512) (clusterBytes d)).take size).length =
      data.length + clusterBytes d := by
  rw [List.length_take, List.length_append, length_bytesAt]
  omega

theorem chainAt_of_next {c c₁ : ℕ} (hnext : nextInChain d c = some c₁) (n : ℕ) :
    chainAt d c (n + 1) = chainAt d c₁ n := by
  rw [chainAt, hnext, Option.bind_some]

/-- **What a round of the loop does**: it panics at a cluster 0 or 1; it ends with the file or with
the chain; or it goes on with the next cluster. -/
theorem readClusters_succ_cases (rounds : ℕ) {size c : ℕ} {data : List UInt8} (hc : c < 0x10000)
    (hdata : data.length < size) :
    (c < 2 ∧ readClusters d (bpbOf d) size (rounds + 1) c data =
      some (.error .arithmeticOverflow)) ∨
    (2 ≤ c ∧ (size ≤ data.length + clusterBytes d ∨ nextInChain d c = none) ∧
      ∃ file, readClusters d (bpbOf d) size (rounds + 1) c data = some (.ok file)) ∨
    (2 ≤ c ∧ ∃ c₁ data₁, nextInChain d c = some c₁ ∧
      data₁.length = data.length + clusterBytes d ∧ data₁.length < size ∧
        readClusters d (bpbOf d) size (rounds + 1) c data =
          readClusters d (bpbOf d) size rounds c₁ data₁) := by
  rw [readClusters]
  by_cases hlo : c < 2
  · rw [readCluster_error hlo]
    exact Or.inl ⟨hlo, rfl⟩
  have hlo : 2 ≤ c := not_lt.1 hlo
  refine Or.inr ?_
  rw [readCluster_ok d hlo hc hdata, ← clusterBytes]
  by_cases hdone : size ≤ data.length + clusterBytes d
  · rw [if_pos hdone]
    exact Or.inl ⟨hlo, Or.inl hdone, _, rfl⟩
  rw [if_neg hdone]
  cases hnext : nextInChain d c with
  | none => exact Or.inl ⟨hlo, Or.inr rfl, _, rfl⟩
  | some c₁ =>
    have hlen := length_readCluster (d := d) (c := c) (not_le.1 hdone)
    exact Or.inr ⟨hlo, c₁, _, rfl, hlen, hlen ▸ not_le.1 hdone, rfl⟩

/-- **The loop is still running** after some rounds: no cluster on the way was 0 or 1, the chain
goes on, and the file is not complete. -/
theorem readClusters_eq_none_iff (rounds : ℕ) {size c : ℕ} {data : List UInt8} (hc : c < 0x10000)
    (hdata : data.length < size) :
    readClusters d (bpbOf d) size rounds c data = none ↔
      (∃ c', chainAt d c rounds = some c') ∧ data.length + rounds * clusterBytes d < size ∧
        ∀ n < rounds, ∀ c', chainAt d c n = some c' → 2 ≤ c' := by
  induction rounds generalizing c data with
  | zero =>
    simp only [readClusters, chainAt, Nat.zero_mul, Nat.add_zero, true_iff]
    exact ⟨⟨c, rfl⟩, hdata, fun n hn => absurd hn (Nat.not_lt_zero n)⟩
  | succ rounds ih =>
    obtain ⟨hlo, hround⟩ | ⟨-, hlast, file, hround⟩ |
      ⟨hlo, c₁, data₁, hnext, hlen, hsize, hround⟩ := readClusters_succ_cases (d := d) rounds hc hdata
    · rw [hround]
      refine iff_of_false (by simp) ?_
      rintro ⟨-, -, hall⟩
      have := hall 0 (Nat.succ_pos _) c rfl
      omega
    · rw [hround]
      refine iff_of_false (by simp) ?_
      rintro ⟨⟨c', hc'⟩, hlen, -⟩
      rcases hlast with hdone | hend
      · rw [Nat.succ_mul] at hlen
        omega
      · rw [chainAt, hend] at hc'
        cases hc'
    · rw [hround, ih (nextInChain_lt hnext) hsize, hlen, chainAt_of_next hnext]
      refine and_congr_right fun _ => and_congr ?_ ?_
      · rw [Nat.succ_mul, Nat.add_assoc, Nat.add_comm (clusterBytes d)]
      · constructor
        · intro hall n hn c' hc'
          cases n with
          | zero =>
            obtain rfl := Option.some.inj hc'
            exact hlo
          | succ n =>
            rw [chainAt_of_next hnext] at hc'
            exact hall n (by omega) c' hc'
        · intro hall n hn c' hc'
          exact hall (n + 1) (by omega) c' (by rw [chainAt_of_next hnext]; exact hc')

/-- After a data cluster, a cluster 0 or 1 comes later in the chain. -/
theorem exists_succ_of_chainAt {c c' n : ℕ} (hlo : 2 ≤ c) (hc' : c' < 2)
    (h : chainAt d c n = some c') : ∃ k, n = k + 1 := by
  cases n with
  | zero =>
    obtain rfl := Option.some.inj h
    exact absurd hc' (not_lt.2 hlo)
  | succ k => exact ⟨k, rfl⟩

/-- **How the loop can panic**: it gets to a cluster 0 or 1. -/
theorem readClusters_eq_error_iff (rounds : ℕ) (p : Panic) {size c : ℕ} {data : List UInt8}
    (hc : c < 0x10000) (hdata : data.length < size) :
    readClusters d (bpbOf d) size rounds c data = some (.error p) ↔
      p = .arithmeticOverflow ∧ ∃ n < rounds, ∃ c' < 2, chainAt d c n = some c' ∧
        data.length + n * clusterBytes d < size := by
  induction rounds generalizing c data with
  | zero =>
    rw [readClusters]
    refine iff_of_false (by simp) ?_
    rintro ⟨-, n, hn, -⟩
    exact absurd hn (Nat.not_lt_zero n)
  | succ rounds ih =>
    obtain ⟨hlo, hround⟩ | ⟨hlo, hlast, file, hround⟩ |
      ⟨hlo, c₁, data₁, hnext, hlen, hsize, hround⟩ := readClusters_succ_cases (d := d) rounds hc hdata
    · rw [hround]
      simp only [Option.some.injEq, Except.error.injEq]
      constructor
      · intro hp
        refine ⟨hp.symm, 0, Nat.succ_pos _, c, hlo, rfl, ?_⟩
        rwa [Nat.zero_mul, Nat.add_zero]
      · exact fun h => h.1.symm
    · rw [hround]
      refine iff_of_false (by simp) ?_
      rintro ⟨-, n, -, c', hc', hn, hlen⟩
      obtain ⟨k, rfl⟩ := exists_succ_of_chainAt hlo hc' hn
      rcases hlast with hdone | hend
      · rw [Nat.succ_mul] at hlen
        omega
      · rw [chainAt, hend] at hn
        cases hn
    · rw [hround, ih (nextInChain_lt hnext) hsize, hlen]
      refine and_congr_right fun _ => ?_
      constructor
      · rintro ⟨n, hn, c', hc', hchain, hsize⟩
        refine ⟨n + 1, by omega, c', hc', by rw [chainAt_of_next hnext]; exact hchain, ?_⟩
        rw [Nat.succ_mul]
        omega
      · rintro ⟨n, hn, c', hc', hchain, hsize⟩
        obtain ⟨k, rfl⟩ := exists_succ_of_chainAt hlo hc' hchain
        rw [chainAt_of_next hnext] at hchain
        rw [Nat.succ_mul] at hsize
        exact ⟨k, by omega, c', hc', hchain, by omega⟩

/-! ## The end of the loop -/

theorem chainAt_succ (c n : ℕ) : chainAt d c (n + 1) = (chainAt d c n).bind (nextInChain d) := by
  induction n generalizing c with
  | zero =>
    rw [chainAt, chainAt, Option.bind_some]
    cases nextInChain d c <;> rfl
  | succ n ih =>
    rw [chainAt, chainAt]
    cases hnext : nextInChain d c with
    | none => rfl
    | some c₁ => exact ih c₁

/-- A chain that never gets to its end can be followed for as long as one likes. -/
theorem exists_chainAt {c : ℕ} (h : ∀ n c', chainAt d c n = some c' → nextInChain d c' ≠ none)
    (n : ℕ) : ∃ c', chainAt d c n = some c' := by
  induction n with
  | zero => exact ⟨c, rfl⟩
  | succ n ih =>
    obtain ⟨c', hc'⟩ := ih
    obtain ⟨c'', hc''⟩ := Option.ne_none_iff_exists'.1 (h n c' hc')
    refine ⟨c'', ?_⟩
    rw [chainAt_succ, hc', Option.bind_some, hc'']

theorem readClusters_ends_iff {size c : ℕ} (hc : c < 0x10000) (hsize : 0 < size) :
    (∃ rounds, readClusters d (bpbOf d) size rounds c [] ≠ none) ↔
      Fat16.sectorsPerCluster d ≠ 0 ∨
        ∃ n c', chainAt d c n = some c' ∧ (c' < 2 ∨ nextInChain d c' = none) := by
  have hnone := fun rounds => readClusters_eq_none_iff (d := d) rounds hc
    (List.length_nil.trans_lt hsize)
  simp only [List.length_nil, Nat.zero_add] at hnone
  constructor
  · rintro ⟨rounds, hrounds⟩
    by_contra hforever
    simp only [not_or, not_not, not_exists, not_and] at hforever
    obtain ⟨hempty, hchain⟩ := hforever
    refine hrounds ((hnone rounds).2 ⟨exists_chainAt (fun n c' h => (hchain n c' h).2) rounds, ?_, ?_⟩)
    · rwa [clusterBytes, hempty, Nat.zero_mul, Nat.mul_zero]
    · exact fun n _ c' h => not_lt.1 (hchain n c' h).1
  · rintro (hspc | ⟨n, c', hc', hlo | hend⟩)
    · -- every round adds to the file
      refine ⟨size, fun h => ?_⟩
      have hlen := ((hnone size).1 h).2.1
      have hbytes : 1 ≤ clusterBytes d := by
        rw [clusterBytes]
        omega
      have := Nat.mul_le_mul_left size hbytes
      omega
    · refine ⟨n + 1, fun h => ?_⟩
      have := ((hnone (n + 1)).1 h).2.2 n (Nat.lt_succ_self n) c' hc'
      omega
    · refine ⟨n + 1, fun h => ?_⟩
      obtain ⟨c'', hc''⟩ := ((hnone (n + 1)).1 h).1
      rw [chainAt_succ, hc', Option.bind_some, hend] at hc''
      cases hc''

/-- **When `read_file` ends**: the clusters have at least one sector, or the chain leads to a
cluster that has no next one or that is no data cluster.  Cyclic chains do not matter as long as a
cluster has a sector. -/
theorem readFile_ends_iff (heap : ℕ) (d : Disk) (name : List UInt8) :
    (∃ rounds result, readFile heap d rounds name = some result) ↔
      ∀ entry, found d name = some entry → 0 < fileSize entry → fileSize entry ≤ heap →
        Fat16.sectorsPerCluster d ≠ 0 ∨
          ∃ n c, chainAt d (firstCluster entry) n = some c ∧ (c < 2 ∨ nextInChain d c = none) := by
  simp only [readFile_found]
  cases hfound : found d name with
  | none => exact iff_of_true ⟨0, _, rfl⟩ (fun entry h => by cases h)
  | some entry =>
    simp only [Option.some.injEq, forall_eq']
    by_cases hheap : heap < fileSize entry
    · simp only [if_pos hheap]
      exact iff_of_true ⟨0, _, rfl⟩ (fun _ h => absurd hheap (not_lt.2 h))
    by_cases hsize : fileSize entry = 0
    · simp only [if_neg hheap, if_pos hsize]
      exact iff_of_true ⟨0, _, rfl⟩ (fun h => absurd hsize h.ne')
    simp only [if_neg hheap, if_neg hsize]
    rw [forall_prop_of_true (Nat.pos_of_ne_zero hsize), forall_prop_of_true (not_lt.1 hheap),
      ← readClusters_ends_iff (firstCluster_lt entry) (Nat.pos_of_ne_zero hsize)]
    simp only [← Option.ne_none_iff_exists', ne_eq, Option.map_eq_none_iff]

/-! ## The numbers -/

/-- `read_file` does not panic because of a number: no operation overflows and every sector it
asks for exists. -/
def InRange (heap : ℕ) (d : Disk) (name : List UInt8) : Prop :=
  ∀ rounds, readFile heap d rounds name ≠ some (.error .arithmeticOverflow) ∧
    readFile heap d rounds name ≠ some (.error .lbaTooLarge)

/-- **When all numbers are in range**: every cluster that is followed before the file is complete
is a data cluster, the first one and those from the table. -/
theorem readFile_in_range_iff (heap : ℕ) (d : Disk) (name : List UInt8) :
    InRange heap d name ↔
      ∀ entry, found d name = some entry → 0 < fileSize entry → fileSize entry ≤ heap →
        ∀ n c, chainAt d (firstCluster entry) n = some c → n * clusterBytes d < fileSize entry →
          2 ≤ c := by
  simp only [InRange, readFile_found]
  cases hfound : found d name with
  | none => exact iff_of_true (fun _ => by simp) (fun entry h => by cases h)
  | some entry =>
    simp only [Option.some.injEq, forall_eq']
    by_cases hheap : heap < fileSize entry
    · simp only [if_pos hheap]
      exact iff_of_true (fun _ => by simp) (fun _ h => absurd hheap (not_lt.2 h))
    by_cases hsize : fileSize entry = 0
    · simp only [if_neg hheap, if_pos hsize]
      exact iff_of_true (fun _ => by simp) (fun h => absurd hsize h.ne')
    have hpos := Nat.pos_of_ne_zero hsize
    simp only [if_neg hheap, if_neg hsize]
    rw [forall_prop_of_true hpos, forall_prop_of_true (not_lt.1 hheap)]
    have herror := fun rounds p => readClusters_eq_error_iff (d := d) rounds p
      (firstCluster_lt entry) (List.length_nil.trans_lt hpos)
    simp only [List.length_nil, Nat.zero_add] at herror
    have hmap : ∀ rounds p, (readClusters d (bpbOf d) (fileSize entry) rounds
        (firstCluster entry) []).map (·.map some) = some (.error p) ↔
        readClusters d (bpbOf d) (fileSize entry) rounds (firstCluster entry) [] =
          some (.error p) := by
      intro rounds p
      cases readClusters d (bpbOf d) (fileSize entry) rounds (firstCluster entry) [] with
      | none => simp
      | some result => cases result <;> simp [Except.map]
    simp only [ne_eq, hmap, herror]
    constructor
    · intro h n c hc hn
      by_contra hlo
      exact (h (n + 1)).1 ⟨trivial, n, Nat.lt_succ_self n, c, not_le.1 hlo, hc, hn⟩
    · intro h rounds
      refine ⟨?_, fun hlba => by cases hlba.1⟩
      rintro ⟨-, n, -, c, hlo, hc, hn⟩
      have := h n c hc hn
      omega

/-! ### Damaged disks -/

/-- The disk `oneFile` with a cyclic chain: cluster 2 is the next one after cluster 2.  `spc` is the
number of sectors of a cluster, and `first` the first cluster of the file `A`, of three bytes. -/
def damagedFile (spc first : UInt8) : Disk
  | 0 => fun i => if i.val = 13 then spc else oneFile 0 3 0 i
  | 1 => fun i => if i.val = 4 then 2 else 0
  | 2 => fun i => if i.val = 26 then first else oneFile 0 3 2 i
  | n => oneFile 0 3 n

theorem found_damagedFile :
    (found (damagedFile 0 2) [0x61] = some (entryAt (damagedFile 0 2) 0) ∧
      found (damagedFile 1 2) [0x61] = some (entryAt (damagedFile 1 2) 0)) ∧
      found (damagedFile 1 0) [0x61] = some (entryAt (damagedFile 1 0) 0) := by
  decide +kernel

/-- Without sectors in a cluster the cycle is followed forever. -/
theorem readFile_hangs :
    ¬ ∃ rounds result, readFile 0x400000 (damagedFile 0 2) rounds [0x61] = some result := by
  rintro ⟨rounds, result, hends⟩
  have hnext : nextInChain (damagedFile 0 2) 2 = some 2 := by decide +kernel
  have hchain : ∀ n, chainAt (damagedFile 0 2) 2 n = some 2 := by
    intro n
    induction n with
    | zero => rfl
    | succ n ih => rw [chainAt_succ, ih, Option.bind_some, hnext]
  have hentry : fileSize (entryAt (damagedFile 0 2) 0) = 3 ∧
      firstCluster (entryAt (damagedFile 0 2) 0) = 2 := by decide +kernel
  have hbytes : clusterBytes (damagedFile 0 2) = 0 := by decide
  have hnone : readFile 0x400000 (damagedFile 0 2) rounds [0x61] = none := by
    rw [readFile_found, found_damagedFile.1.1]
    simp only [hentry.1, hentry.2]
    rw [if_neg (by decide), if_neg (by decide), Option.map_eq_none_iff,
      readClusters_eq_none_iff rounds (by decide) (by decide), hbytes]
    refine ⟨⟨2, hchain rounds⟩, by simp, fun n _ c' h => ?_⟩
    rw [hchain] at h
    exact (Option.some.inj h).le
  rw [hnone] at hends
  cases hends

/-- A cyclic chain is no harm if a cluster has a sector. -/
theorem readFile_ends_iff_damagedFile :
    Fat16.sectorsPerCluster (damagedFile 1 2) ≠ 0 ∧
      ∃ rounds result, readFile 0x400000 (damagedFile 1 2) rounds [0x61] = some result := by
  have hspc : Fat16.sectorsPerCluster (damagedFile 1 2) ≠ 0 := by decide
  exact ⟨hspc, (readFile_ends_iff _ _ _).2 fun entry _ _ _ => Or.inl hspc⟩

/-- A file of three bytes whose directory entry has the first cluster 0. -/
theorem readFile_underflows :
    readFile 0x400000 (damagedFile 1 0) 1 [0x61] = some (.error .arithmeticOverflow) := by
  have hentry : fileSize (entryAt (damagedFile 1 0) 0) = 3 ∧
      firstCluster (entryAt (damagedFile 1 0) 0) = 0 := by decide +kernel
  rw [readFile_found, found_damagedFile.2]
  simp only [hentry.1, hentry.2]
  rw [if_neg (by decide), if_neg (by decide),
    (readClusters_eq_error_iff 1 .arithmeticOverflow (by decide) (by decide)).2
      ⟨rfl, 0, Nat.one_pos, 0, Nat.two_pos, rfl, by simp⟩]
  rfl

theorem readFile_in_range_iff_damagedFile :
    found (damagedFile 1 2) [0x61] = some (entryAt (damagedFile 1 2) 0) ∧
      InRange 0x400000 (damagedFile 1 2) [0x61] := by
  refine ⟨found_damagedFile.1.2, (readFile_in_range_iff _ _ _).2 ?_⟩
  intro entry hentry _ _ n c hc hn
  rw [found_damagedFile.1.2] at hentry
  obtain rfl := Option.some.inj hentry
  have hsize : fileSize (entryAt (damagedFile 1 2) 0) = 3 ∧
      firstCluster (entryAt (damagedFile 1 2) 0) = 2 := by decide +kernel
  have hbytes : clusterBytes (damagedFile 1 2) = 512 := by decide
  rw [hsize.1, hbytes] at hn
  obtain rfl : n = 0 := by omega
  rw [hsize.2] at hc
  exact (Option.some.inj hc).le

end Fs
