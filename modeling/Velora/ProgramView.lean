/-
# What a program sees

A program sees the bytes that the processor lets it read, which of them it may write, the keys that
wait for it and the files it has opened.  A `View` is that and nothing more: there are no page
tables in it, no frames and no other programs.  The system calls are stated once more on views, as
what they are for.

The kernel does on the machine what these calls do on the view (`dispatch_agrees`), if the pages of
the program are its own (`PrivateSpace`).  In the worlds of `Isolation` they are.
-/
import Velora.Dispatch
import Velora.Isolation

/-! ## Views -/

/-- What a program sees: the bytes it may read, by address, the addresses it may write to, the keys
that have not been read, and what is left of its open files. -/
structure View where
  byte : ℕ → Option Byte
  writable : ℕ → Bool
  keys : List UInt8
  files : Fin maxOpenFiles → Option (List UInt8)

/-- How `read_file` answers; `none` if the loop over the clusters has not ended. -/
abbrev ReadFile := List UInt8 → Option (Except Panic (Option (List UInt8)))

/-- How a call ends, with the text that it prints. -/
inductive ViewEnd
  | returns (rax : UInt64) (text : List UInt8) (v : View)
  | exits (text : List UInt8) (v : View)

namespace View

/-- The notice that a thread has been killed. -/
def notice (reason : String) : List UInt8 :=
  ("[proc]  thread killed: " ++ reason ++ "\n").toUTF8.toList

/-- The bytes behind a pointer, if the program may read all of them. -/
def load (ptr len : ℕ) (v : View) : Option (List UInt8) :=
  if ptr ≠ 0 ∧ (VirtAddr.tryNew ptr).isSome = true ∧
      ∀ k < len, (v.byte (ptr + k)).isSome = true then
    some ((List.range len).map fun k => ⟨(v.byte (ptr + k)).getD 0⟩)
  else none

/-- Bytes are put behind a pointer. -/
def store (ptr : ℕ) (bytes : List UInt8) (v : View) : View :=
  { v with byte := fun a =>
      if ptr ≤ a ∧ a < ptr + bytes.length then (bytes[a - ptr]?).map UInt8.toBitVec
      else v.byte a }

theorem store_nil (ptr : ℕ) (v : View) : v.store ptr [] = v := by
  have hnot : ∀ a, ¬ (ptr ≤ a ∧ a < ptr + ([] : List UInt8).length) := by
    intro a
    rw [List.length_nil]
    omega
  simp only [store, if_neg (hnot _)]

/-- What can be read from a descriptor. -/
def source (fd : UInt64) (v : View) : Option (List UInt8) :=
  if fd = 0 then some v.keys else (fileSlot fd).bind v.files

/-- The next bytes have been read from a descriptor. -/
def consume (fd : UInt64) (n : ℕ) (v : View) : View :=
  if fd = 0 then { v with keys := v.keys.drop n }
  else match fileSlot fd with
    | none => v
    | some slot =>
      { v with files := Function.update v.files slot ((v.files slot).map (List.drop n)) }

theorem drop_length_take {α : Type} (n : ℕ) (l : List α) : l.drop (l.take n).length = l.drop n := by
  rw [List.length_take, List.drop_eq_drop_iff]
  omega

theorem consume_keys (n : ℕ) (v : View) :
    v.consume 0 (v.keys.take n).length = { v with keys := v.keys.drop n } := by
  rw [consume, if_pos rfl, drop_length_take]

/-- A key is typed. -/
def typed (b : UInt8) (v : View) : View := { v with keys := v.keys ++ [b] }

/-! ### The calls -/

/-- `SYS_WRITE`: the bytes are shown. -/
def write (fd ptr len : UInt64) (v : View) : ViewEnd :=
  if fd ≠ 1 then .returns u64Max [] v
  else match v.load ptr.toNat (min len.toNat 1024) with
    | none => .exits (notice "syscall argument pointer not mapped for read") v
    | some bytes => .returns (UInt64.ofNat bytes.length) (CallState.shown bytes) v

/-- `SYS_READ`: the next bytes are taken from the source and put behind the pointer. -/
def read (fd ptr len : UInt64) (v : View) : ViewEnd :=
  if min len.toNat 256 = 0 then .returns 0 [] v
  else if fd = 1 then .returns u64Max [] v
  else if ptr.toNat ≠ 0 ∧ ∀ k < min len.toNat 256, v.writable (ptr.toNat + k) = true then
    match v.source fd with
    | none => .returns u64Max [] v
    | some data =>
      let bytes := data.take (min len.toNat 256)
      .returns (UInt64.ofNat bytes.length) [] ((v.consume fd bytes.length).store ptr.toNat bytes)
  else .exits (notice "sys_read: destination pointer not mapped for write") v

/-- `SYS_OPEN`: the contents of the file go to the first descriptor that is free. -/
def openFile (readFile : ReadFile) (pathPtr pathLen : UInt64) (v : View) :
    Option (Except Panic ViewEnd) :=
  if pathLen.toNat = 0 ∨ pathLen.toNat > 255 then some (.ok (.returns u64Max [] v))
  else match v.load pathPtr.toNat pathLen.toNat with
    | none => some (.ok (.exits (notice "syscall argument pointer not mapped for read") v))
    | some path =>
      if !validUtf8 path then some (.ok (.returns u64Max [] v))
      else (readFile path).map fun r => r.map fun
        | none => .returns u64Max [] v
        | some data =>
          match (List.finRange maxOpenFiles).find? (fun slot => (v.files slot).isNone) with
          | none => .returns u64Max [] v
          | some slot =>
            .returns (slotFd slot) [] { v with files := Function.update v.files slot (some data) }

/-- `SYS_CLOSE` -/
def close (fd : UInt64) (v : View) : ViewEnd :=
  match fileSlot fd with
  | none => .returns u64Max [] v
  | some slot =>
    match v.files slot with
    | none => .returns u64Max [] v
    | some _ => .returns 0 [] { v with files := Function.update v.files slot none }

/-- The calls that concern a program alone, all but `SYS_SPAWN` and `SYS_WAIT`. -/
def call (readFile : ReadFile) (number arg1 arg2 arg3 : UInt64) (v : View) :
    Option (Except Panic ViewEnd) :=
  if number = sysWriteNumber then some (.ok (v.write arg1 arg2 arg3))
  else if number = sysReadNumber then some (.ok (v.read arg1 arg2 arg3))
  else if number = sysOpenNumber then v.openFile readFile arg1 arg2
  else if number = sysCloseNumber then some (.ok (v.close arg1))
  else if number = sysExitNumber then some (.ok (.exits [] v))
  else some (.ok (.returns u64Max [] v))

end View

/-- The byte that CPL 3 finds at an address of the lower half, if it may read it. -/
def seenByte (mem : PhysMem) (l4 : PhysFrame) (a : ℕ) : Option Byte :=
  if h : a < 0x800000000000 then World.userByte mem l4 ⟨a, VirtAddr.canonical_of_lower h⟩ else none

/-- CPL 3 may write to an address of the lower half. -/
def mayStore (mem : PhysMem) (l4 : PhysFrame) (a : ℕ) : Bool :=
  if h : a < 0x800000000000 then
    pageAccessible mem l4 (Page.containing ⟨a, VirtAddr.canonical_of_lower h⟩).start true
  else false

/-- What the calling program sees. -/
def CallState.view {σ : Type} (k : CallState σ) : View where
  byte := seenByte k.machine.mem k.cr3
  writable := mayStore k.machine.mem k.cr3
  keys := k.inputQueue.toList
  files slot := (k.sched.threads k.sched.current).bind fun t =>
    (t.openFiles slot).map Kernel.unread

/-! ## Pages of one's own -/

/-- The processor can meet frame `x` as a table. -/
def WalkTable (mem : PhysMem) (l4 x : PhysFrame) : Prop :=
  ∃ ρ : List (Fin 512), ρ.length ≤ 3 ∧ RadixHeap.walk PageTableEntry.follow mem l4 ρ = some x

/-- **The pages of a program are its own**: CPL 3 can use none of the upper half, no two pages of
the lower half have the same frame, and the frames are none of the tables of the space. -/
structure PrivateSpace (mem : PhysMem) (l4 : PhysFrame) : Prop where
  upper : ∀ page : Page, 256 ≤ (page.start.p4Index : ℕ) → ¬ UserWalk mem false l4 page.path
  once : ∀ (page page' : Page) (f : PhysFrame), UserWalk mem false l4 page.path →
    UserWalk mem false l4 page'.path → translatePage mem l4 page = some f →
    translatePage mem l4 page' = some f → page = page'
  apart : ∀ (page : Page) (f : PhysFrame), UserWalk mem false l4 page.path →
    translatePage mem l4 page = some f → ¬ WalkTable mem l4 f

/-- Words with the same bytes. -/
theorem eq_of_byteOfWord {w w' : Word} (h : ∀ j, byteOfWord w j = byteOfWord w' j) : w = w' := by
  apply BitVec.eq_of_getLsbD_eq
  intro i hi
  have hbyte := congrArg (BitVec.getLsbD · (i % 8)) (h ⟨i / 8, by omega⟩)
  have hsplit : 8 * (i / 8) + i % 8 = i := Nat.div_add_mod i 8
  have hlt : i % 8 < 8 := Nat.mod_lt i (by decide)
  simpa only [byteOfWord, BitVec.getLsbD_extractLsb', hlt, decide_true, Bool.true_and, hsplit]
    using hbyte

/-- Frames with the same bytes. -/
theorem eq_of_byteAt {mem mem' : PhysMem} {x : PhysFrame}
    (h : ∀ k, byteAt mem' x k = byteAt mem x k) : mem' x = mem x := by
  funext i
  refine eq_of_byteOfWord fun j => ?_
  have hdiv : (8 * i.val + j.val) / 8 = i.val := by omega
  have hmod : (8 * i.val + j.val) % 8 = j.val := by omega
  have hbyte := h ⟨8 * i.val + j.val, by omega⟩
  simpa only [byteAt, hdiv, hmod] using hbyte

section Tables

variable {mem mem' : PhysMem} {l4 : PhysFrame}
  (htables : ∀ x, WalkTable mem l4 x → mem' x = mem x)
include htables

/-- Where the tables are the same, the processor goes the same way, -/
theorem follow_congr {path : List (Fin 512)} (hlen : path.length ≤ 4) :
    RadixHeap.walk PageTableEntry.follow mem' l4 path =
      RadixHeap.walk PageTableEntry.follow mem l4 path := by
  refine RadixHeap.walk_congr (d := 4) (fun ρ x hρ hx j => ?_) hlen
  rw [htables x ⟨ρ, by omega, hx⟩]

theorem walkTable_congr {x : PhysFrame} : WalkTable mem' l4 x ↔ WalkTable mem l4 x := by
  refine exists_congr fun ρ => and_congr_right fun hρ => ?_
  rw [follow_congr htables (by omega)]

/-- and CPL 3 is let through the same way. -/
theorem userWalk_congr {page : Page} {needWrite : Bool} :
    UserWalk mem' needWrite l4 page.path ↔ UserWalk mem needWrite l4 page.path := by
  have hshort : ∀ {ρ rest : List (Fin 512)} {j : Fin 512}, page.path = ρ ++ j :: rest →
      ρ.length ≤ 3 := by
    intro ρ rest j hpath
    have hfour := congrArg List.length hpath
    rw [List.length_append, List.length_cons, show page.path.length = 4 from rfl] at hfour
    omega
  constructor
  · intro hu
    refine hu.congr fun ρ j rest t hpath ht => ?_
    rw [htables t ((walkTable_congr htables).1 ⟨ρ, hshort hpath, ht⟩)]
  · intro hu
    refine hu.congr fun ρ j rest t hpath ht => ?_
    rw [htables t ⟨ρ, hshort hpath, ht⟩]

theorem PrivateSpace.congr (h : PrivateSpace mem l4) : PrivateSpace mem' l4 where
  upper page hup := by
    rw [userWalk_congr htables]
    exact h.upper page hup
  once page page' f := by
    rw [userWalk_congr htables, userWalk_congr htables, translatePage, translatePage,
      follow_congr htables le_rfl, follow_congr htables le_rfl]
    exact h.once page page' f
  apart page f := by
    rw [userWalk_congr htables, translatePage, follow_congr htables le_rfl, walkTable_congr htables]
    exact h.apart page f

end Tables

/-! ## Seeing and storing -/

section Seen

variable {mem mem' : PhysMem} {l4 : PhysFrame} {a : ℕ}

theorem mayStore_iff : mayStore mem l4 a = true ↔ UserMay mem l4 true a := by
  rw [mayStore, UserMay]
  split_ifs with h
  · rw [pageAccessible_iff]
    constructor
    · exact fun hu => ⟨h, hu⟩
    · rintro ⟨_, hu⟩
      exact hu
  · refine iff_of_false id ?_
    rintro ⟨hc, _⟩
    exact h hc

/-- What CPL 3 may read it sees as it is. -/
theorem UserMay.seenByte_eq {needWrite : Bool} (h : UserMay mem l4 needWrite a) :
    seenByte mem l4 a = imageByte mem l4 a := by
  obtain ⟨hlow, hu⟩ := h
  rw [seenByte, dif_pos hlow, World.userByte, if_pos (pageAccessible_iff.2 hu.read), imageByte,
    VirtAddr.tryNew_of_lower hlow]
  rfl

theorem seenByte_isSome : (seenByte mem l4 a).isSome = true ↔ UserMay mem l4 false a := by
  constructor
  · intro h
    rw [seenByte] at h
    split_ifs at h with hlow
    · rw [World.userByte] at h
      split_ifs at h with hu
      · exact ⟨hlow, pageAccessible_iff.1 hu⟩
      · cases h
    · cases h
  · intro h
    obtain ⟨b, hb⟩ := h.exists_imageByte
    rw [h.seenByte_eq, hb]
    rfl

theorem UserMay.read {needWrite : Bool} (h : UserMay mem l4 needWrite a) :
    UserMay mem l4 false a :=
  h.imp fun _ hu => hu.read

/-- **`copy_from_user`** copies what the program sees, and kills it if there is a byte that it does
not see. -/
theorem copyFromUser_eq_load {σ : Type} (k : CallState σ)
    (h : PrivateSpace k.machine.mem k.cr3) {ptr len : ℕ} (hptr : ptr < 0x10000000000000000)
    (hlen : len ≤ 1024) :
    copyFromUser k.machine.mem k.cr3 ptr len = .ok (k.view.load ptr len) := by
  obtain ⟨b, hb, hiff⟩ := userRangeOk_read h.upper hptr hlen
  have hcond : Readable k.machine.mem k.cr3 ptr len ↔ ptr ≠ 0 ∧
      (VirtAddr.tryNew ptr).isSome = true ∧ ∀ i < len, (k.view.byte (ptr + i)).isSome = true :=
    and_congr_right fun _ => and_congr_right fun _ => forall₂_congr fun _ _ => seenByte_isSome.symm
  rw [copyFromUser, hb, View.load]
  cases b with
  | false =>
    rw [if_neg (hcond.not.1 fun hr => Bool.false_ne_true (hiff.2 hr))]
    rfl
  | true =>
    have hread := hiff.1 rfl
    rw [if_pos (hcond.1 hread)]
    refine congrArg (Except.ok ∘ some) (List.map_congr_left fun i hi => ?_)
    rw [show k.view.byte (ptr + i) = _ from (hread.2.2 i (List.mem_range.1 hi)).seenByte_eq]

end Seen

/-- **A space that is kept** shows its program what it showed before. -/
theorem World.Kept.sameView {cr3 : PhysFrame} {off : Fin 512}
    {m₀ : Machine BootInfoFrameAllocator} {w w' : World} {id : Owner} {s : AddrSpace}
    (hkept : Kept off w w' id s) (h : Guarded cr3 off m₀ w) (h' : Guarded cr3 off m₀ w')
    (hk : KernelOnly off m₀.mem cr3) (hs : w.space id = some s) :
    seenByte w'.machine.mem s.l4 = seenByte w.machine.mem s.l4 ∧
      mayStore w'.machine.mem s.l4 = mayStore w.machine.mem s.l4 := by
  obtain ⟨hmay, hbyte⟩ := hkept.sees h h' hk hs
  constructor
  · funext a
    simp only [seenByte, hbyte]
  · funext a
    simp only [mayStore, hmay]

namespace PrivateSpace

variable {mem mem' : PhysMem} {l4 : PhysFrame} {ptr : ℕ} {bytes : List UInt8}
  (h : PrivateSpace mem l4) (hmay : ∀ i < bytes.length, UserMay mem l4 true (ptr + i))
  (hstored : Stored (location mem l4) ptr bytes mem mem')
include h hmay hstored

/-- **Storing keeps the tables.** -/
theorem tables_of_stored {x : PhysFrame} (hx : WalkTable mem l4 x) : mem' x = mem x := by
  refine eq_of_byteAt fun o => hstored.others (x, o) fun i hi hloc => ?_
  obtain ⟨hlow, hu⟩ := hmay i hi
  rw [location, VirtAddr.tryNew_of_lower hlow, Option.bind_some, Option.map_eq_some_iff] at hloc
  obtain ⟨f, hf, heq⟩ := hloc
  obtain rfl : f = x := congrArg Prod.fst heq
  exact h.apart _ f hu.read hf hx

/-- **Storing changes the bytes that are stored**, and no other that the program sees. -/
theorem seenByte_of_stored (a : ℕ) : seenByte mem' l4 a =
    if ptr ≤ a ∧ a < ptr + bytes.length then (bytes[a - ptr]?).map UInt8.toBitVec
    else seenByte mem l4 a := by
  have htables : ∀ x, WalkTable mem l4 x → mem' x = mem x :=
    fun x hx => h.tables_of_stored hmay hstored hx
  by_cases hseen : UserMay mem l4 false a
  · obtain ⟨hlow, hu⟩ := hseen
    obtain ⟨f, hf⟩ := hu.exists_frame
    have hread : ∀ m, UserWalk m false l4 (Page.containing ⟨a, Or.inl hlow⟩).path →
        translatePage m l4 (Page.containing ⟨a, Or.inl hlow⟩) = some f →
        seenByte m l4 a = some (byteAt m f (⟨a, Or.inl hlow⟩ : VirtAddr).pageOffset) := by
      intro m hum hfm
      rw [seenByte, dif_pos hlow, World.userByte, if_pos (pageAccessible_iff.2 hum), readByte, hfm]
      rfl
    rw [hread mem' ((userWalk_congr htables).2 hu) ((follow_congr htables le_rfl).trans hf),
      hread mem hu hf]
    have hloc : location mem l4 a = some (f, (⟨a, Or.inl hlow⟩ : VirtAddr).pageOffset) := by
      rw [location, VirtAddr.tryNew_of_lower hlow, Option.bind_some, hf]
      rfl
    split_ifs with hin
    · obtain ⟨i, rfl⟩ := Nat.exists_eq_add_of_le hin.1
      have hi : i < bytes.length := by omega
      obtain ⟨l, hl, hbyte⟩ := hstored.stored i bytes[i] (List.getElem?_eq_getElem hi)
      obtain rfl := Option.some.inj (hloc.symm.trans hl)
      rw [hbyte, Nat.add_sub_cancel_left, List.getElem?_eq_getElem hi]
      rfl
    · refine congrArg some (hstored.others (f, _) fun i hi hloc' => hin ?_)
      -- a byte at the same place is at the same address
      obtain ⟨hlow', hu'⟩ := hmay i hi
      rw [location, VirtAddr.tryNew_of_lower hlow', Option.bind_some,
        Option.map_eq_some_iff] at hloc'
      obtain ⟨f', hf', heq⟩ := hloc'
      obtain rfl : f' = f := congrArg Prod.fst heq
      have hpage := congrArg (fun p : Page => p.start.val) (h.once _ _ f' hu'.read hu hf' hf)
      have hoff := congrArg (fun l : Location => l.2.val) heq
      change ptr + i - (ptr + i) % 4096 = a - a % 4096 at hpage
      change (ptr + i) % 4096 = a % 4096 at hoff
      omega
  · have hnone : ∀ m, ¬ UserMay m l4 false a → seenByte m l4 a = none := fun m hm =>
      Option.not_isSome_iff_eq_none.1 (seenByte_isSome.not.2 hm)
    have hseen' : ¬ UserMay mem' l4 false a := by
      rintro ⟨hlow, hu⟩
      exact hseen ⟨hlow, (userWalk_congr htables).1 hu⟩
    rw [hnone mem' hseen', hnone mem hseen, if_neg]
    rintro ⟨hle, hlt⟩
    obtain ⟨i, rfl⟩ := Nat.exists_eq_add_of_le hle
    exact hseen (hmay i (by omega)).read

end PrivateSpace

theorem mayStore_congr {mem mem' : PhysMem} {l4 : PhysFrame}
    (htables : ∀ x, WalkTable mem l4 x → mem' x = mem x) :
    mayStore mem' l4 = mayStore mem l4 := by
  funext a
  rw [Bool.eq_iff_iff, mayStore_iff, mayStore_iff]
  exact exists_congr fun _ => userWalk_congr htables

/-- The loop of `sys_read_stdin` takes all there is, up to the length. -/
theorem popInput_eq (len : ℕ) (q : InputQueue) :
    (popInput len q).1 = q.toList.take len ∧ (popInput len q).2.toList = q.toList.drop len := by
  induction len generalizing q with
  | zero => exact ⟨rfl, rfl⟩
  | succ len ih =>
    rw [popInput]
    cases hpop : q.pop with
    | none =>
      have hnil : q.toList = [] := by
        unfold InputQueue.pop at hpop
        split_ifs at hpop with hlen
        rw [← List.length_eq_zero_iff, RingBuffer.length_toList, hlen]
      rw [hnil]
      exact ⟨rfl, rfl⟩
    | some r =>
      obtain ⟨byte, q'⟩ := r
      obtain ⟨htake, hdrop⟩ := ih q'
      rw [InputQueue.pop_eq_some hpop, List.take_succ_cons, List.drop_succ_cons]
      exact ⟨congrArg (byte :: ·) htake, hdrop⟩

/-! ## The calls -/

namespace CallState

variable {σ : Type} {A : FrameAllocator σ} {mapTo : MapTo σ} {env : SpawnEnv} {k k' : CallState σ}

/-- The offsets of open files are inside of them. -/
def FilesOk (files : Fin maxOpenFiles → Option OpenFile) : Prop :=
  ∀ slot f, files slot = some f → f.offset ≤ f.data.length

/-- A program that the kernel can serve: its pages are its own, and its thread is running. -/
structure Served (k : CallState σ) : Prop where
  space : PrivateSpace k.machine.mem k.cr3
  thread : ∃ t, k.sched.threads k.sched.current = some t ∧ FilesOk t.openFiles

/-- **What a call leaves behind**: the text has been printed, the program sees `v`, and of
everything else only the caller's open files may have changed. -/
structure Leaves (k : CallState σ) (text : List UInt8) (v : View) (k' : CallState σ) : Prop where
  view : k'.view = v
  printed : k'.printed = k.printed ++ text
  cr3 : k'.cr3 = k.cr3
  machine : k'.machine = k.machine.write k'.machine.mem
  tables : ∀ x, WalkTable k.machine.mem k.cr3 x → k'.machine.mem x = k.machine.mem x
  sched : ∃ files, FilesOk files ∧ k'.sched = Kernel.setFiles k.sched files

/-- The call on the machine ends as the one on the view. -/
def Agrees (k : CallState σ) :
    Option (Except Panic (CallEnd σ)) → Option (Except Panic ViewEnd) → Prop
  | none, none => True
  | some (.error p), some (.error q) => p = q
  | some (.ok (.returns rax k')), some (.ok (.returns rax' text v)) =>
    rax = rax' ∧ Leaves k text v k'
  | some (.ok (.exits k')), some (.ok (.exits text v)) => Leaves k text v k'
  | _, _ => False

/-- A call that returns, on either side, returns on the other. -/
theorem Agrees.of_returns {y : Option (Except Panic ViewEnd)} {rax : UInt64}
    (h : Agrees k (some (.ok (.returns rax k'))) y) :
    ∃ text v, y = some (.ok (.returns rax text v)) ∧ Leaves k text v k' := by
  match y, h with
  | some (.ok (.returns _ text v)), ⟨rfl, hl⟩ => exact ⟨text, v, rfl, hl⟩

theorem Agrees.exists_returns {x : Option (Except Panic (CallEnd σ))} {rax : UInt64}
    {text : List UInt8} {v : View} (h : Agrees k x (some (.ok (.returns rax text v)))) :
    ∃ k', x = some (.ok (.returns rax k')) ∧ Leaves k text v k' := by
  match x, h with
  | some (.ok (.returns _ k')), ⟨rfl, hl⟩ => exact ⟨k', rfl, hl⟩

theorem Agrees.of_error {x : Option (Except Panic (CallEnd σ))} {p : Panic}
    (h : Agrees k x (some (.error p))) : x = some (.error p) := by
  match x, h with
  | some (.error _), rfl => rfl

theorem Agrees.of_none {x : Option (Except Panic (CallEnd σ))} (h : Agrees k x none) :
    x = none := by
  match x, h with
  | none, _ => rfl

/-- A call that ends the program does so on the machine. -/
theorem Agrees.exists_exits {x : Option (Except Panic (CallEnd σ))} {text : List UInt8} {v : View}
    (h : Agrees k x (some (.ok (.exits text v)))) :
    ∃ k', x = some (.ok (.exits k')) ∧ Leaves k text v k' := by
  match x, h with
  | some (.ok (.exits k')), hl => exact ⟨k', rfl, hl⟩

/-- The program can be served again. -/
theorem Leaves.served {text : List UInt8} {v : View} (h : k.Served) (hl : Leaves k text v k') :
    k'.Served := by
  obtain ⟨t, ht, -⟩ := h.thread
  obtain ⟨files, hok, hsched⟩ := hl.sched
  refine ⟨?_, { t with openFiles := files }, ?_, hok⟩
  · rw [hl.cr3]
    exact h.space.congr hl.tables
  · rw [hsched, ← Kernel.setFiles_eq ht]
    exact Function.update_self _ _ _

/-- A call that prints and does nothing else. -/
theorem Served.leaves_print (h : k.Served) (text : List UInt8) :
    Leaves k text k.view (k.print text) := by
  obtain ⟨t, ht, hok⟩ := h.thread
  exact ⟨rfl, rfl, rfl, rfl, fun _ _ => rfl, t.openFiles, hok, (Kernel.setFiles_self ht).symm⟩

/-- A call that does nothing. -/
theorem Served.leaves_self (h : k.Served) : Leaves k [] k.view k := by
  obtain ⟨t, ht, hok⟩ := h.thread
  exact ⟨rfl, (List.append_nil _).symm, rfl, rfl, fun _ _ => rfl, t.openFiles, hok,
    (Kernel.setFiles_self ht).symm⟩

/-- What is seen of open files. -/
theorem files_setFiles {t : Thread} (ht : k.sched.threads k.sched.current = some t)
    (files : Fin maxOpenFiles → Option OpenFile) :
    { k with sched := Kernel.setFiles k.sched files }.view =
      { k.view with files := fun slot => (files slot).map Kernel.unread } := by
  rw [← Kernel.setFiles_eq ht]
  simp only [view, Function.update_self, Option.bind_some]

theorem view_files {t : Thread} (ht : k.sched.threads k.sched.current = some t) :
    k.view.files = fun slot => (t.openFiles slot).map Kernel.unread := by
  funext slot
  show (k.sched.threads k.sched.current).bind _ = _
  rw [ht]
  rfl

/-- Replacing an open file replaces what is seen of it. -/
theorem view_update {t : Thread} (ht : k.sched.threads k.sched.current = some t)
    (slot : Fin maxOpenFiles) (x : Option OpenFile) :
    (fun i => (Function.update t.openFiles slot x i).map Kernel.unread) =
      Function.update k.view.files slot (x.map Kernel.unread) := by
  rw [view_files ht]
  funext i
  by_cases hi : i = slot
  · subst hi
    rw [Function.update_self, Function.update_self]
  · rw [Function.update_of_ne hi, Function.update_of_ne hi]

theorem FilesOk.update {files : Fin maxOpenFiles → Option OpenFile} (h : FilesOk files)
    (slot : Fin maxOpenFiles) {x : Option OpenFile}
    (hx : ∀ f, x = some f → f.offset ≤ f.data.length) : FilesOk (Function.update files slot x) := by
  intro i f hf
  by_cases hi : i = slot
  · subst hi
    rw [Function.update_self] at hf
    exact hx f hf
  · rw [Function.update_of_ne hi] at hf
    exact h i f hf

/-- A call that changes the caller's open files. -/
theorem Served.leaves_files (h : k.Served) {files : Fin maxOpenFiles → Option OpenFile}
    (hok : FilesOk files) :
    Leaves k [] { k.view with files := fun slot => (files slot).map Kernel.unread }
      { k with sched := Kernel.setFiles k.sched files } := by
  obtain ⟨t, ht, -⟩ := h.thread
  exact ⟨files_setFiles ht files, (List.append_nil _).symm, rfl, rfl, fun _ _ => rfl, files, hok,
    rfl⟩

/-! ### Writing -/

theorem sysWrite_agrees (h : k.Served) (fd ptr len : UInt64) :
    Agrees k (some (k.sysWrite fd ptr len)) (some (.ok (k.view.write fd ptr len))) := by
  rw [sysWrite, View.write]
  by_cases hfd : fd ≠ 1
  · rw [if_pos hfd, if_pos hfd]
    exact ⟨rfl, h.leaves_self⟩
  · have hcopy := copyFromUser_eq_load k h.space ptr.toNat_lt (Nat.min_le_right len.toNat 1024)
    rw [if_neg hfd, if_neg hfd]
    simp only [hcopy]
    cases hload : k.view.load ptr.toNat (min len.toNat 1024) with
    | none => exact h.leaves_print _
    | some bytes =>
      have hlen : bytes.length = min len.toNat 1024 := by
        rw [View.load] at hload
        split_ifs at hload
        obtain rfl := Option.some.inj hload
        rw [List.length_map, List.length_range]
      refine ⟨?_, h.leaves_print _⟩
      rw [hlen]

/-! ### Reading -/

/-- The check of a destination: the program may write to all of it. -/
theorem userRangeOk_eq (h : k.Served) {ptr len : ℕ} (hptr : ptr < 0x10000000000000000)
    (hlen : 1 ≤ len ∧ len ≤ 256) : userRangeOk k.machine.mem k.cr3 ptr len true =
      .ok (decide (ptr ≠ 0 ∧ ∀ i < len, k.view.writable (ptr + i) = true)) := by
  by_cases h0 : ptr = 0
  · rw [userRangeOk, if_pos h0, decide_eq_false fun hc => hc.1 h0]
  · obtain ⟨b, hb, hiff⟩ := userRangeOk_iff true h.space.upper hptr h0 ⟨hlen.1, by omega⟩
    rw [hb]
    refine congrArg Except.ok (Bool.eq_iff_iff.2 (hiff.trans ?_))
    rw [decide_eq_true_iff, and_iff_right h0]
    exact forall₂_congr fun _ _ => mayStore_iff.symm

/-- The view after bytes have been stored. -/
theorem view_of_stored (h : PrivateSpace k.machine.mem k.cr3) {ptr : ℕ} {bytes : List UInt8}
    {mem : PhysMem} (hmay : ∀ i < bytes.length, UserMay k.machine.mem k.cr3 true (ptr + i))
    (hstored : Stored (location k.machine.mem k.cr3) ptr bytes k.machine.mem mem) :
    { k with machine := k.machine.write mem }.view = k.view.store ptr bytes := by
  have hbyte : seenByte mem k.cr3 = _ := funext (h.seenByte_of_stored hmay hstored)
  have hstore := mayStore_congr fun x hx => h.tables_of_stored hmay hstored hx
  simp only [view, View.store, Machine.write_mem, hbyte, hstore]

/-- **The copy at the end of a read**, after the bytes have been taken from the queue or a file. -/
theorem copyToUser_leaves (h : k.Served) {ptr len : ℕ} (hptr : ptr < 0x10000000000000000)
    (h0 : ptr ≠ 0) (hmay : ∀ i < len, k.view.writable (ptr + i) = true) (hlen : len ≤ 256)
    {data : List UInt8} (hle : data.length ≤ len) {q : InputQueue}
    {files : Fin maxOpenFiles → Option OpenFile} (hok : FilesOk files) :
    ∃ r, { k.readState with inputQueue := q, sched := Kernel.setFiles k.sched files }.copyToUser
        ptr data = .ok (.returns (UInt64.ofNat data.length) r) ∧
      Leaves k [] ({ k.view with
        keys := q.toList
        files := fun slot => (files slot).map Kernel.unread }.store ptr data) (k.afterRead r) := by
  obtain ⟨t, ht, -⟩ := h.thread
  set k₁ : CallState σ := { k with inputQueue := q, sched := Kernel.setFiles k.sched files }
  have hview : k₁.view = { k.view with
      keys := q.toList
      files := fun slot => (files slot).map Kernel.unread } :=
    congrArg (fun v : View => { v with keys := q.toList }) (files_setFiles ht files)
  rw [← hview]
  by_cases hdata : data = []
  · subst hdata
    refine ⟨k₁.readState, rfl, ?_, (List.append_nil _).symm, rfl, rfl, fun _ _ => rfl, files, hok,
      rfl⟩
    rw [View.store_nil]
    rfl
  · have hmay' : ∀ i < len, UserMay k.machine.mem k.cr3 true (ptr + i) :=
      fun i hi => mayStore_iff.1 (hmay i hi)
    obtain ⟨mem, hcopy, hstored⟩ := copyToUser_eq (s := k₁.readState) h.space.upper hptr h0 hmay'
      hlen (List.length_pos_iff.2 hdata) hle
    have hbytes : ∀ i < data.length, UserMay k.machine.mem k.cr3 true (ptr + i) :=
      fun i hi => hmay' i (by omega)
    exact ⟨_, hcopy, view_of_stored (k := k₁) h.space hbytes hstored, (List.append_nil _).symm, rfl,
      rfl, fun x hx => h.space.tables_of_stored hbytes hstored hx, files, hok, rfl⟩

/-- What `read_open_file` does for the caller. -/
theorem readOpenFile_eq {s : SchedulerState} {t : Thread} (ht : s.threads s.current = some t)
    (hok : FilesOk t.openFiles) (fd : UInt64) (len : ℕ) :
    (((fileSlot fd).bind t.openFiles = none) ∧ s.readOpenFile fd len = .ok (none, s)) ∨
      ∃ slot file, fileSlot fd = some slot ∧ t.openFiles slot = some file ∧
        s.readOpenFile fd len = .ok (some ((Kernel.unread file).take len),
          Kernel.setFiles s (Function.update t.openFiles slot (some { file with
            offset := file.offset + ((Kernel.unread file).take len).length }))) := by
  obtain hnone | ⟨slot, file, rfl, hfile, hread⟩ := readOpenFile_cases ht hok fd len
  · cases hopen : (fileSlot fd).bind t.openFiles with
    | none => exact Or.inl ⟨rfl, hnone⟩
    | some file =>
      obtain ⟨slot, hslot, hfile⟩ := Option.bind_eq_some_iff.1 hopen
      exact absurd hnone (by
        simp only [SchedulerState.readOpenFile, SchedulerState.withCurrentThread, ht,
          Option.expect_some, bind, Except.bind, Thread.readOpenFile, hslot, hfile,
          if_pos (hok slot file hfile)]
        rintro ⟨⟩)
  · exact Or.inr ⟨slot, file, Kernel.fileSlot_slotFd slot, hfile, hread⟩

/-- The offset stays inside the file. -/
theorem FilesOk.advance {files : Fin maxOpenFiles → Option OpenFile} (h : FilesOk files)
    {slot : Fin maxOpenFiles} {file : OpenFile} (hfile : files slot = some file) (len : ℕ) :
    FilesOk (Function.update files slot (some { file with
      offset := file.offset + ((Kernel.unread file).take len).length })) := by
  refine h.update slot fun f hf => ?_
  obtain rfl := Option.some.inj hf
  have hle := h slot file hfile
  show file.offset + _ ≤ file.data.length
  rw [List.length_take, Kernel.unread, List.length_drop]
  omega

/-- A call that reads ends as `sys_read` does for what it uses. -/
theorem sysRead_of_returns {fd ptr len rax : UInt64} {r : ReadState}
    (h : k.readState.sysRead fd ptr len = .ok (.returns rax r)) :
    k.sysRead fd ptr len = .ok (.returns rax (k.afterRead r)) := by
  rw [sysRead, h]
  rfl

/-- Both sides read a file alike. -/
theorem consume_file {t : Thread} (ht : k.sched.threads k.sched.current = some t) {fd : UInt64}
    (hfd : fd ≠ 0) {slot : Fin maxOpenFiles} (hslot : fileSlot fd = some slot) {file : OpenFile}
    (hfile : t.openFiles slot = some file) (n : ℕ) :
    k.view.consume fd n = { k.view with
      files := fun i => (Function.update t.openFiles slot
        (some { file with offset := file.offset + n }) i).map Kernel.unread } := by
  have hrest : (k.view.files slot).map (List.drop n) =
      (some { file with offset := file.offset + n }).map Kernel.unread := by
    rw [view_files ht]
    simp only [hfile, Option.map_some, Kernel.unread, List.drop_drop]
  rw [View.consume, if_neg hfd, hslot, view_update ht, ← hrest]

/-- A descriptor other than 0 and 1 is one for files. -/
theorem firstFileFd_le {fd : UInt64} (h0 : fd ≠ 0) (h1 : fd ≠ 1) : fd ≥ firstFileFd := by
  have hne0 : fd.toNat ≠ 0 := fun hc => h0 (UInt64.toNat_inj.1 hc)
  have hne1 : fd.toNat ≠ 1 := fun hc => h1 (UInt64.toNat_inj.1 hc)
  show firstFileFd ≤ fd
  rw [UInt64.le_iff_toNat_le]
  show 2 ≤ fd.toNat
  omega

theorem sysRead_agrees (h : k.Served) (fd ptr len : UInt64) :
    Agrees k (some (k.sysRead fd ptr len)) (some (.ok (k.view.read fd ptr len))) := by
  obtain ⟨t, ht, hok⟩ := h.thread
  by_cases hlen : min len.toNat 256 = 0
  · have hread : k.readState.sysRead fd ptr len = .ok (.returns 0 k.readState) := by
      rw [ReadState.sysRead, if_pos hlen]
    rw [sysRead_of_returns hread, View.read, if_pos hlen]
    exact ⟨rfl, h.leaves_self⟩
  have hrange : 1 ≤ min len.toNat 256 ∧ min len.toNat 256 ≤ 256 :=
    ⟨Nat.one_le_iff_ne_zero.2 hlen, Nat.min_le_right _ _⟩
  by_cases hone : fd = 1
  · subst hone
    have hread : k.readState.sysRead 1 ptr len = .ok (.returns u64Max k.readState) := by
      rw [ReadState.sysRead, if_neg hlen]
      rfl
    rw [sysRead_of_returns hread, View.read, if_neg hlen, if_pos rfl]
    exact ⟨rfl, h.leaves_self⟩
  have hcheck : userRangeOk k.readState.mem k.readState.cr3 ptr.toNat (min len.toNat 256) true =
      _ := userRangeOk_eq h ptr.toNat_lt hrange
  by_cases hwrite : ptr.toNat ≠ 0 ∧ ∀ i < min len.toNat 256, k.view.writable (ptr.toNat + i) = true
  · rw [decide_eq_true hwrite] at hcheck
    rw [View.read, if_neg hlen, if_neg hone, if_pos hwrite, View.source]
    by_cases hstdin : fd = 0
    · -- from the keyboard
      subst hstdin
      obtain ⟨htake, hdrop⟩ := popInput_eq (min len.toNat 256) k.inputQueue
      obtain ⟨r, hcopy, hleaves⟩ := copyToUser_leaves h ptr.toNat_lt hwrite.1 hwrite.2 hrange.2
        (popInput_spec (min len.toNat 256) k.inputQueue).1
        (q := (popInput (min len.toNat 256) k.inputQueue).2) hok
      have hread : k.readState.sysRead 0 ptr len = .ok (.returns
          (UInt64.ofNat (popInput (min len.toNat 256) k.inputQueue).1.length) r) := by
        rw [ReadState.sysRead, if_neg hlen, if_pos rfl, ReadState.sysReadStdin, hcheck]
        rw [Kernel.setFiles_self ht] at hcopy
        exact hcopy
      rw [sysRead_of_returns hread, if_pos rfl, htake]
      refine ⟨rfl, ?_⟩
      show Leaves k [] ((k.view.consume 0 (k.view.keys.take _).length).store _ _) _
      rw [htake, hdrop, ← view_files ht] at hleaves
      rw [View.consume_keys]
      exact hleaves
    · rw [if_neg hstdin]
      have hbind : (fileSlot fd).bind k.view.files =
          ((fileSlot fd).bind t.openFiles).map Kernel.unread := by
        rw [view_files ht, Option.map_bind]
        rfl
      have hcall : k.readState.sysRead fd ptr len =
          k.readState.sysReadFile fd ptr.toNat (min len.toNat 256) := by
        rw [ReadState.sysRead, if_neg hlen, if_neg hstdin, if_pos (firstFileFd_le hstdin hone)]
      rw [hbind]
      obtain ⟨hnone, hfile⟩ | ⟨slot, file, hslot, hopen, hfile⟩ :=
        readOpenFile_eq ht hok fd (min len.toNat 256)
      · -- there is no such file
        have hread : k.readState.sysRead fd ptr len = .ok (.returns u64Max k.readState) := by
          rw [hcall, ReadState.sysReadFile, hcheck]
          simp only [show k.readState.sched.readOpenFile fd _ = _ from hfile]
          rfl
        rw [sysRead_of_returns hread, hnone]
        exact ⟨rfl, h.leaves_self⟩
      · -- from the file
        obtain ⟨r, hcopy, hleaves⟩ := copyToUser_leaves h ptr.toNat_lt hwrite.1 hwrite.2 hrange.2
          (List.length_take_le (min len.toNat 256) (Kernel.unread file)) (q := k.inputQueue)
          (hok.advance hopen (min len.toNat 256))
        have hread : k.readState.sysRead fd ptr len = .ok (.returns
            (UInt64.ofNat ((Kernel.unread file).take (min len.toNat 256)).length) r) := by
          rw [hcall, ReadState.sysReadFile, hcheck]
          simp only [show k.readState.sched.readOpenFile fd _ = _ from hfile]
          exact hcopy
        rw [sysRead_of_returns hread, hslot, Option.bind_some, hopen]
        refine ⟨rfl, ?_⟩
        rw [consume_file ht hstdin hslot hopen]
        exact hleaves
  · rw [decide_eq_false hwrite] at hcheck
    have hread : k.readState.sysRead fd ptr len = .ok (.killed k.readState) := by
      rw [ReadState.sysRead, if_neg hlen]
      by_cases hstdin : fd = 0
      · rw [if_pos hstdin, ReadState.sysReadStdin, hcheck]
        rfl
      · rw [if_neg hstdin, if_pos (firstFileFd_le hstdin hone), ReadState.sysReadFile, hcheck]
        rfl
    have hcall : k.sysRead fd ptr len = .ok (.exits
        (k.print (View.notice "sys_read: destination pointer not mapped for write"))) := by
      rw [sysRead, hread]
      simp only [bind, Except.bind, show userRangeOk k.machine.mem k.cr3 _ _ _ = _ from hcheck]
      rfl
    rw [hcall, View.read, if_neg hlen, if_neg hone, if_neg hwrite]
    exact h.leaves_print _

/-! ### Opening and closing -/

theorem sysClose_agrees (h : k.Served) (fd : UInt64) :
    Agrees k (some (k.sysClose fd)) (some (.ok (k.view.close fd))) := by
  obtain ⟨t, ht, hok⟩ := h.thread
  -- nothing is open there
  have hnothing : t.closeFile fd = (false, t) →
      k.sysClose fd = .ok (.returns u64Max k) := by
    intro hclose
    have hcall : k.sched.closeFile fd = .ok (false, Kernel.setFiles k.sched t.openFiles) :=
      Kernel.withCurrentThread_eq ht _ (congrArg Except.ok hclose)
    rw [sysClose, hcall, Kernel.setFiles_self ht]
    rfl
  rw [View.close]
  cases hslot : fileSlot fd with
  | none =>
    rw [hnothing (by rw [Thread.closeFile, hslot])]
    exact ⟨rfl, h.leaves_self⟩
  | some slot =>
    have hfile : k.view.files slot = (t.openFiles slot).map Kernel.unread := by
      rw [view_files ht]
    simp only [hfile]
    cases hopen : t.openFiles slot with
    | none =>
      rw [hnothing (by simp only [Thread.closeFile, hslot, hopen])]
      exact ⟨rfl, h.leaves_self⟩
    | some file =>
      have hcall : k.sched.closeFile fd =
          .ok (true, Kernel.setFiles k.sched (Function.update t.openFiles slot none)) :=
        Kernel.withCurrentThread_eq ht _ (by simp only [Thread.closeFile, hslot, hopen])
      have hleaves := h.leaves_files (hok.update slot (x := none) fun f hf => by cases hf)
      rw [view_update ht] at hleaves
      rw [sysClose, hcall]
      exact ⟨rfl, hleaves⟩

theorem sysOpen_agrees (h : k.Served) (pathPtr pathLen : UInt64) :
    Agrees k (k.sysOpen env pathPtr pathLen)
      (k.view.openFile (Fs.readFile env.heapRoom env.disk env.rounds) pathPtr pathLen) := by
  obtain ⟨t, ht, hok⟩ := h.thread
  rw [sysOpen, View.openFile]
  by_cases hlen : pathLen.toNat = 0 ∨ pathLen.toNat > 255
  · rw [if_pos hlen, if_pos hlen]
    exact ⟨rfl, h.leaves_self⟩
  rw [if_neg hlen, if_neg hlen, copyFromUser_eq_load k h.space pathPtr.toNat_lt (by omega)]
  cases k.view.load pathPtr.toNat pathLen.toNat with
  | none => exact h.leaves_print _
  | some path =>
    simp only
    by_cases hutf : (!validUtf8 path) = true
    · rw [if_pos hutf, if_pos hutf]
      exact ⟨rfl, h.leaves_self⟩
    rw [if_neg hutf, if_neg hutf]
    obtain _ | _ | _ | data := Fs.readFile env.heapRoom env.disk env.rounds path
    · exact trivial
    · exact rfl
    · exact ⟨rfl, h.leaves_self⟩
    · -- the first free slot is the same on both sides
      have hfree : (fun slot => (k.view.files slot).isNone) =
          fun slot => (t.openFiles slot).isNone := by
        rw [view_files ht]
        funext slot
        rw [Option.isNone_map]
      simp only [Option.map_some, Except.map, hfree]
      cases hfind : (List.finRange maxOpenFiles).find? (fun slot => (t.openFiles slot).isNone) with
      | none =>
        have hcall : k.sched.openFile data = .ok (none, Kernel.setFiles k.sched t.openFiles) :=
          Kernel.withCurrentThread_eq ht _ (by simp only [Thread.openFile, hfind])
        simp only [bind, Except.bind, hcall, Kernel.setFiles_self ht]
        exact ⟨rfl, h.leaves_self⟩
      | some slot =>
        have hcall : k.sched.openFile data = .ok (some (slotFd slot),
            Kernel.setFiles k.sched (Function.update t.openFiles slot (some ⟨data, 0⟩))) :=
          Kernel.withCurrentThread_eq ht _ (by simp only [Thread.openFile, hfind])
        have hleaves := h.leaves_files (hok.update slot (x := some ⟨data, 0⟩) fun f hf => by
          obtain rfl := Option.some.inj hf
          exact Nat.zero_le _)
        rw [view_update ht] at hleaves
        simp only [bind, Except.bind, hcall]
        exact ⟨rfl, hleaves⟩

/-! ### All of them -/

/-- **The kernel does on the machine what the calls do on the view**, for all numbers but
`SYS_SPAWN` and `SYS_WAIT`. -/
theorem dispatch_agrees (h : k.Served) {number : UInt64} (hspawn : number ≠ sysSpawnNumber)
    (hwait : number ≠ sysWaitNumber) (arg1 arg2 arg3 arg4 : UInt64) :
    Agrees k (k.dispatch A mapTo env number arg1 arg2 arg3 arg4)
      (k.view.call (Fs.readFile env.heapRoom env.disk env.rounds) number arg1 arg2 arg3) := by
  rw [dispatch, View.call, if_neg hspawn, if_neg hwait]
  split_ifs
  · exact sysWrite_agrees h arg1 arg2 arg3
  · exact sysRead_agrees h arg1 arg2 arg3
  · exact sysOpen_agrees h arg1 arg2
  · exact sysClose_agrees h arg1
  · exact h.leaves_self
  · exact ⟨rfl, h.leaves_self⟩

end CallState
