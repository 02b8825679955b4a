/-
# A register machine with a stack

The part of an x86-64 machine that code switching stacks is made of: the general
registers, byte-addressed memory read and written in little-endian words, and the
instructions `push`, `pop`, `mov` and `ret`; for code that calls other code, also memory
operands with an offset, `and` and `call`.

A straight-line piece of code is a list of instructions.  `rip` is tracked where it
matters for such a piece, at a `call` and at a `ret`.

The rules for whole blocks are `run_pushes` and `run_pops`: pushing a list of
registers writes their values downwards from `rsp`, popping reads them upwards.
Everything they say about memory comes from `pushWords`, the memory after the words
of a list are pushed.
-/
import Mathlib.Data.BitVec
import Mathlib.Data.List.Nodup
import Mathlib.Tactic

namespace X86

/-- A word, and an address. -/
abbrev Word := BitVec 64

/-- Memory, by bytes. -/
abbrev Memory := Word → BitVec 8

/-- The word stored at an address. -/
def read64 (m : Memory) (a : Word) : Word :=
  BitVec.ofNat 64 ((m a).toNat + 2 ^ 8 * (m (a + 1)).toNat + 2 ^ 16 * (m (a + 2)).toNat +
    2 ^ 24 * (m (a + 3)).toNat + 2 ^ 32 * (m (a + 4)).toNat + 2 ^ 40 * (m (a + 5)).toNat +
    2 ^ 48 * (m (a + 6)).toNat + 2 ^ 56 * (m (a + 7)).toNat)

/-- Memory with a word stored at an address. -/
def write64 (m : Memory) (a v : Word) : Memory := fun x =>
  if (x - a).toNat < 8 then BitVec.ofNat 8 (v.toNat / 2 ^ (8 * (x - a).toNat)) else m x

/-- Memory with some bytes stored one after another. -/
def writeBytes (m : Memory) (writes : List (Word × BitVec 8)) : Memory :=
  writes.foldl (fun m w => fun x => if x = w.1 then w.2 else m x) m

/-- The bytes at `lo, ..., lo + n - 1`. -/
def InRange (lo n : ℕ) (x : Word) : Prop := lo ≤ x.toNat ∧ x.toNat < lo + n

instance (lo n : ℕ) (x : Word) : Decidable (InRange lo n x) :=
  inferInstanceAs (Decidable (_ ∧ _))

/-- Two ranges of addresses that do not meet. -/
def Apart (lo n lo' n' : ℕ) : Prop := lo + n ≤ lo' ∨ lo' + n' ≤ lo

instance (lo n lo' n' : ℕ) : Decidable (Apart lo n lo' n') := inferInstanceAs (Decidable (_ ∨ _))

theorem Apart.symm {lo n lo' n' : ℕ} (h : Apart lo n lo' n') : Apart lo' n' lo n := Or.symm h

theorem Apart.not_inRange {lo n lo' n' : ℕ} (h : Apart lo n lo' n') {x : Word}
    (hx : InRange lo n x) : ¬ InRange lo' n' x := by
  unfold InRange at hx ⊢
  unfold Apart at h
  omega

/-! ## Words in memory -/

theorem eight_add (n : ℕ) :
    (8 : Word) + BitVec.ofNat 64 (8 * n) = BitVec.ofNat 64 (8 * (n + 1)) := by
  rw [show (8 : Word) = BitVec.ofNat 64 8 from rfl, BitVec.ofNat_add_ofNat]
  congr 1
  omega

/-- A mask that clears the low bits rounds down. -/
theorem toNat_and_allOnes_shiftLeft (x : Word) (n : ℕ) :
    (x &&& BitVec.allOnes 64 <<< n).toNat = x.toNat / 2 ^ n * 2 ^ n := by
  have hle : x.toNat / 2 ^ n * 2 ^ n < 2 ^ 64 := (Nat.div_mul_le_self _ _).trans_lt x.isLt
  rw [← BitVec.shiftLeft_ushiftRight, BitVec.toNat_shiftLeft, BitVec.toNat_ushiftRight,
    Nat.shiftRight_eq_div_pow, Nat.shiftLeft_eq, Nat.mod_eq_of_lt hle]

/-- The bytes of a word that has been written, low byte first. -/
theorem write64_byte (m : Memory) (a v : Word) {k : ℕ} (hk : k < 8) :
    write64 m a v (a + BitVec.ofNat 64 k) = BitVec.ofNat 8 (v.toNat / 2 ^ (8 * k)) := by
  have hsub : (a + BitVec.ofNat 64 k - a).toNat = k := by
    rw [add_sub_cancel_left, BitVec.toNat_ofNat, Nat.mod_eq_of_lt (by omega)]
  rw [write64, hsub, if_pos hk]

/-- A word that was stored is read back. -/
theorem read64_write64 (m : Memory) (a v : Word) : read64 (write64 m a v) a = v := by
  have h0 := write64_byte m a v (k := 0) (by decide)
  have h1 := write64_byte m a v (k := 1) (by decide)
  have h2 := write64_byte m a v (k := 2) (by decide)
  have h3 := write64_byte m a v (k := 3) (by decide)
  have h4 := write64_byte m a v (k := 4) (by decide)
  have h5 := write64_byte m a v (k := 5) (by decide)
  have h6 := write64_byte m a v (k := 6) (by decide)
  have h7 := write64_byte m a v (k := 7) (by decide)
  rw [show a + BitVec.ofNat 64 0 = a from add_zero a] at h0
  apply BitVec.eq_of_toNat_eq
  have hv := v.isLt
  rw [read64, h0, show (1 : Word) = BitVec.ofNat 64 1 from rfl, h1,
    show (2 : Word) = BitVec.ofNat 64 2 from rfl, h2,
    show (3 : Word) = BitVec.ofNat 64 3 from rfl, h3,
    show (4 : Word) = BitVec.ofNat 64 4 from rfl, h4,
    show (5 : Word) = BitVec.ofNat 64 5 from rfl, h5,
    show (6 : Word) = BitVec.ofNat 64 6 from rfl, h6,
    show (7 : Word) = BitVec.ofNat 64 7 from rfl, h7]
  simp only [BitVec.toNat_ofNat]
  omega

/-- A store changes the eight bytes from its address on. -/
theorem write64_of_not_inRange {m : Memory} {a v x : Word} (ha : a.toNat + 8 ≤ 2 ^ 64)
    (hx : ¬ InRange a.toNat 8 x) : write64 m a v x = m x := by
  have hfar : ¬ (x - a).toNat < 8 := by
    intro hlt
    apply hx
    unfold InRange
    bv_omega
  rw [write64, if_neg hfar]

theorem writeBytes_of_ne {m : Memory} {writes : List (Word × BitVec 8)} {x : Word}
    (h : ∀ w ∈ writes, x ≠ w.1) : writeBytes m writes x = m x := by
  induction writes generalizing m with
  | nil => rfl
  | cons w ws ih =>
    show writeBytes _ ws x = m x
    rw [ih (fun v hv => h v (List.mem_cons_of_mem _ hv))]
    exact if_neg (h w List.mem_cons_self)

/-- A word is read from the eight bytes at its address and above. -/
theorem read64_congr_offset {m m' : Memory} {a : Word}
    (h : ∀ k < 8, m' (a + BitVec.ofNat 64 k) = m (a + BitVec.ofNat 64 k)) :
    read64 m' a = read64 m a := by
  have h0 := h 0 (by decide)
  rw [show a + BitVec.ofNat 64 0 = a from add_zero a] at h0
  unfold read64
  rw [h0, show m' (a + 1) = m (a + 1) from h 1 (by decide),
    show m' (a + 2) = m (a + 2) from h 2 (by decide),
    show m' (a + 3) = m (a + 3) from h 3 (by decide),
    show m' (a + 4) = m (a + 4) from h 4 (by decide),
    show m' (a + 5) = m (a + 5) from h 5 (by decide),
    show m' (a + 6) = m (a + 6) from h 6 (by decide),
    show m' (a + 7) = m (a + 7) from h 7 (by decide)]

/-- What is read depends on the eight bytes only. -/
theorem read64_congr {m m' : Memory} {a : Word} (ha : a.toNat + 8 ≤ 2 ^ 64)
    (h : ∀ x, InRange a.toNat 8 x → m' x = m x) : read64 m' a = read64 m a := by
  refine read64_congr_offset (fun k hk => h _ ?_)
  unfold InRange
  rw [BitVec.toNat_add, BitVec.toNat_ofNat]
  omega

/-- A store does not reach a word that lies eight bytes or more away on both sides, counted
around the address space. -/
theorem read64_write64_of_apart {m : Memory} {a b v : Word} (hlo : 8 ≤ (b - a).toNat)
    (hhi : (b - a).toNat ≤ 2 ^ 64 - 8) : read64 (write64 m a v) b = read64 m b := by
  refine read64_congr_offset (fun k hk => if_neg ?_)
  have hoff : b + BitVec.ofNat 64 k - a = b - a + BitVec.ofNat 64 k := add_sub_right_comm _ _ _
  rw [hoff, BitVec.toNat_add, BitVec.toNat_ofNat]
  omega

/-- The `n` words from an address upwards. -/
def words (m : Memory) : Word → ℕ → List Word
  | _, 0 => []
  | a, n + 1 => read64 m a :: words m (a + 8) n

@[simp] theorem length_words (m : Memory) (a : Word) (n : ℕ) : (words m a n).length = n := by
  induction n generalizing a with
  | zero => rfl
  | succ n ih => rw [words, List.length_cons, ih]

/-- One word more, at the end. -/
theorem words_succ_last (m : Memory) (a : Word) (n : ℕ) :
    words m a (n + 1) = words m a n ++ [read64 m (a + BitVec.ofNat 64 (8 * n))] := by
  induction n generalizing a with
  | zero => simp [words]
  | succ n ih =>
    rw [words, ih (a + 8), add_assoc, eight_add]
    rfl

theorem words_eq_of_succ {m : Memory} {a : Word} {n : ℕ} {ws : List Word} {w : Word}
    (h : words m a (n + 1) = ws ++ [w]) : words m a n = ws := by
  rw [words_succ_last] at h
  exact (List.append_singleton_inj.mp h).1

theorem words_congr_offset {m m' : Memory} {a : Word} {n : ℕ}
    (h : ∀ k < 8 * n, m' (a + BitVec.ofNat 64 k) = m (a + BitVec.ofNat 64 k)) :
    words m' a n = words m a n := by
  induction n with
  | zero => rfl
  | succ n ih =>
    have hlast : read64 m' (a + BitVec.ofNat 64 (8 * n)) =
        read64 m (a + BitVec.ofNat 64 (8 * n)) := by
      refine read64_congr_offset (fun k hk => ?_)
      rw [add_assoc, BitVec.ofNat_add_ofNat]
      exact h _ (by omega)
    rw [words_succ_last, words_succ_last, ih (fun k hk => h k (by omega)), hlast]

/-- What is read depends on the bytes in the range only. -/
theorem words_congr {m m' : Memory} {a : Word} {n : ℕ} (ha : a.toNat + 8 * n ≤ 2 ^ 64)
    (h : ∀ x, InRange a.toNat (8 * n) x → m' x = m x) : words m' a n = words m a n := by
  refine words_congr_offset (fun k hk => h _ ?_)
  unfold InRange
  rw [BitVec.toNat_add, BitVec.toNat_ofNat]
  omega

/-- A store does not reach a block of words that begins eight bytes or more above it and ends
eight bytes or more below it, counted around the address space. -/
theorem words_write64_of_apart {m : Memory} {a b v : Word} {n : ℕ} (hlo : 8 ≤ (b - a).toNat)
    (hhi : (b - a).toNat + 8 * n ≤ 2 ^ 64) : words (write64 m a v) b n = words m b n := by
  induction n with
  | zero => rfl
  | succ n ih =>
    have hoff : (b + BitVec.ofNat 64 (8 * n) - a).toNat = (b - a).toNat + 8 * n := by
      rw [show b + BitVec.ofNat 64 (8 * n) - a = b - a + BitVec.ofNat 64 (8 * n) from
        add_sub_right_comm _ _ _, BitVec.toNat_add, BitVec.toNat_ofNat]
      omega
    rw [words_succ_last, words_succ_last, ih (by omega),
      read64_write64_of_apart (by omega) (by omega)]

/-- A store to the last word of a block. -/
theorem words_write64_last (m : Memory) (a v : Word) {n : ℕ} (hn : 8 * (n + 1) ≤ 2 ^ 64) :
    words (write64 m (a + BitVec.ofNat 64 (8 * n)) v) a (n + 1) = words m a n ++ [v] := by
  rcases Nat.eq_zero_or_pos n with rfl | hpos
  · rw [words_succ_last, read64_write64]
    rfl
  · have hoff : (a - (a + BitVec.ofNat 64 (8 * n))).toNat = 2 ^ 64 - 8 * n := by
      rw [sub_add_cancel_left, BitVec.toNat_neg, BitVec.toNat_ofNat]
      omega
    rw [words_succ_last, read64_write64, words_write64_of_apart (by omega) (by omega)]

/-- The words of a block, by their distance from its start. -/
theorem getElem?_words (m : Memory) (a : Word) {n i : ℕ} (hi : i < n) :
    (words m a n)[i]? = some (read64 m (a + BitVec.ofNat 64 (8 * i))) := by
  induction n with
  | zero => omega
  | succ n ih =>
    rw [words_succ_last]
    rcases Nat.lt_succ_iff_lt_or_eq.mp hi with hlt | rfl
    · rw [List.getElem?_append_left (by rw [length_words]; exact hlt), ih hlt]
    · rw [List.getElem?_append_right (by rw [length_words]), length_words, Nat.sub_self]
      rfl

/-! ## Pushing words -/

/-- Memory after the words of a list are pushed, the first one right below `a`. -/
def pushWords (m : Memory) (a : Word) : List Word → Memory
  | [] => m
  | w :: ws => pushWords (write64 m (a - 8) w) (a - 8) ws

/-- Only the bytes below `a` that the words take are changed. -/
theorem pushWords_of_not_inRange {m : Memory} {a x : Word} {ws : List Word}
    (ha : 8 * ws.length ≤ a.toNat)
    (hx : ¬ InRange (a.toNat - 8 * ws.length) (8 * ws.length) x) : pushWords m a ws x = m x := by
  induction ws generalizing m a with
  | nil => rfl
  | cons w ws ih =>
    rw [List.length_cons] at ha hx
    have ha8 : (a - 8).toNat = a.toNat - 8 := by bv_omega
    have hlt := a.isLt
    rw [pushWords, ih (by omega) ?_, write64_of_not_inRange (by omega) ?_]
    · unfold InRange at hx ⊢
      omega
    · unfold InRange at hx ⊢
      omega

/-- Pushing words does not reach a word at or above `a`, as long as the stack does not come
around the address space to it. -/
theorem read64_pushWords {m : Memory} {a b : Word} {ws : List Word}
    (h : (b - a).toNat + 8 + 8 * ws.length ≤ 2 ^ 64) :
    read64 (pushWords m a ws) b = read64 m b := by
  induction ws generalizing m a with
  | nil => rfl
  | cons w ws ih =>
    rw [List.length_cons] at h
    have hoff : (b - (a - 8)).toNat = (b - a).toNat + 8 := by
      rw [sub_sub_eq_add_sub, add_sub_right_comm, BitVec.toNat_add,
        show (8 : Word).toNat = 8 from rfl]
      omega
    rw [pushWords, ih (by omega), read64_write64_of_apart (by omega) (by omega)]

/-- What has been pushed lies in memory last word first, wherever the stack is. -/
theorem words_pushWords_offset {m : Memory} {a : Word} (ws : List Word)
    (hlen : 8 * ws.length ≤ 2 ^ 64) :
    words (pushWords m a ws) (a - BitVec.ofNat 64 (8 * ws.length)) ws.length = ws.reverse := by
  induction ws generalizing m a with
  | nil => rfl
  | cons w ws ih =>
    rw [List.length_cons] at hlen
    have hlow : a - BitVec.ofNat 64 (8 * (ws.length + 1)) =
        a - 8 - BitVec.ofNat 64 (8 * ws.length) := by
      rw [sub_sub, eight_add]
    have hkept : read64 (pushWords (write64 m (a - 8) w) (a - 8) ws) (a - 8) = w := by
      rw [read64_pushWords ?_, read64_write64]
      rw [sub_self, show (0 : Word).toNat = 0 from rfl]
      omega
    rw [List.length_cons, words_succ_last, hlow, pushWords, ih (by omega), sub_add_cancel, hkept,
      List.reverse_cons]

/-- The same for a stack that has room for the words. -/
theorem words_pushWords {m : Memory} {a : Word} (ws : List Word)
    (ha : 8 * ws.length ≤ a.toNat) :
    words (pushWords m a ws) (a - BitVec.ofNat 64 (8 * ws.length)) ws.length = ws.reverse :=
  words_pushWords_offset ws (ha.trans a.isLt.le)

/-! ## The machine -/

/-- The general registers. -/
inductive Reg
  | rax | rbx | rcx | rdx | rsi | rdi | rbp | rsp | r8 | r9 | r10 | r11 | r12 | r13 | r14 | r15
  deriving DecidableEq

/-- The machine's state. -/
structure State where
  reg : Reg → Word
  rip : Word
  cr3 : Word
  mem : Memory

/-- The instructions. -/
inductive Instr
  | push (r : Reg)
  | pop (r : Reg)
  /-- `mov dst, src` -/
  | mov (dst src : Reg)
  /-- `mov [dst], src` -/
  | store (dst src : Reg)
  /-- `mov cr3, src` -/
  | movCr3 (src : Reg)
  | ret

namespace State

/-- The state with a register set. -/
def set (s : State) (r : Reg) (v : Word) : State :=
  { s with reg := fun q => if q = r then v else s.reg q }

@[simp] theorem reg_set_self (s : State) (r : Reg) (v : Word) : (s.set r v).reg r = v :=
  if_pos rfl

theorem reg_set_of_ne (s : State) {r q : Reg} (v : Word) (h : q ≠ r) :
    (s.set r v).reg q = s.reg q :=
  if_neg h

/-- What a `call` that will return to `ra` does before the first instruction of the callee. -/
def call (s : State) (ra : Word) : State :=
  { s.set .rsp (s.reg .rsp - 8) with mem := write64 s.mem (s.reg .rsp - 8) ra }

/-- One instruction. -/
def exec (s : State) : Instr → State
  | .push r =>
    { s.set .rsp (s.reg .rsp - 8) with mem := write64 s.mem (s.reg .rsp - 8) (s.reg r) }
  | .pop r => (s.set .rsp (s.reg .rsp + 8)).set r (read64 s.mem (s.reg .rsp))
  | .mov dst src => s.set dst (s.reg src)
  | .store dst src => { s with mem := write64 s.mem (s.reg dst) (s.reg src) }
  | .movCr3 src => { s with cr3 := s.reg src }
  | .ret => { s.set .rsp (s.reg .rsp + 8) with rip := read64 s.mem (s.reg .rsp) }

/-- A straight-line piece of code. -/
def run (s : State) (code : List Instr) : State := code.foldl exec s

@[simp] theorem run_nil (s : State) : s.run [] = s := rfl

@[simp] theorem run_cons (s : State) (i : Instr) (code : List Instr) :
    s.run (i :: code) = (s.exec i).run code := rfl

/-- Code that follows code runs from where that ends. -/
theorem run_append (s : State) (code code' : List Instr) :
    s.run (code ++ code') = (s.run code).run code' :=
  List.foldl_append

/-- **Pushing registers.** -/
theorem run_pushes (s : State) {rs : List Reg} (hrsp : Reg.rsp ∉ rs) :
    s.run (rs.map .push) =
      { s.set .rsp (s.reg .rsp - BitVec.ofNat 64 (8 * rs.length)) with
        mem := pushWords s.mem (s.reg .rsp) (rs.map s.reg) } := by
  induction rs generalizing s with
  | nil =>
    have hreg : (s.set .rsp (s.reg .rsp - BitVec.ofNat 64 (8 * 0))).reg = s.reg := by
      funext q
      show (if q = Reg.rsp then s.reg .rsp - 0 else s.reg q) = s.reg q
      rw [sub_zero]
      split_ifs with hq
      · rw [hq]
      · rfl
    exact congrArg (fun g => { s with reg := g }) hreg.symm
  | cons r rs ih =>
    have hrs : Reg.rsp ∉ rs := fun h => hrsp (List.mem_cons_of_mem _ h)
    have hmap : rs.map (s.exec (.push r)).reg = rs.map s.reg := by
      refine List.map_congr_left (fun q hq => ?_)
      have hq' : q ≠ Reg.rsp := by
        rintro rfl
        exact hrs hq
      exact reg_set_of_ne s _ hq'
    have hsp : (s.exec (.push r)).reg .rsp = s.reg .rsp - 8 := rfl
    have hlow : s.reg .rsp - 8 - BitVec.ofNat 64 (8 * rs.length) =
        s.reg .rsp - BitVec.ofNat 64 (8 * (rs.length + 1)) := by
      rw [sub_sub, eight_add]
    rw [List.map_cons, run_cons, ih _ hrs, hmap, hsp, hlow]
    simp only [exec, set, List.map_cons, List.length_cons, pushWords]
    congr 1
    funext q
    split_ifs <;> rfl

/-- **Popping registers.** -/
theorem run_pops (s : State) (rs : List Reg) (hrsp : Reg.rsp ∉ rs) (hnodup : rs.Nodup) :
    (s.run (rs.map .pop)).mem = s.mem ∧ (s.run (rs.map .pop)).cr3 = s.cr3 ∧
    (s.run (rs.map .pop)).rip = s.rip ∧
    (s.run (rs.map .pop)).reg .rsp = s.reg .rsp + BitVec.ofNat 64 (8 * rs.length) ∧
    rs.map (s.run (rs.map .pop)).reg = words s.mem (s.reg .rsp) rs.length ∧
    ∀ r ≠ .rsp, r ∉ rs → (s.run (rs.map .pop)).reg r = s.reg r := by
  induction rs generalizing s with
  | nil => exact ⟨rfl, rfl, rfl, (add_zero _).symm, rfl, fun _ _ _ => rfl⟩
  | cons r rs ih =>
    have hrs : Reg.rsp ∉ rs := fun h => hrsp (List.mem_cons_of_mem _ h)
    have hr : Reg.rsp ≠ r := fun h => hrsp (h ▸ List.mem_cons_self)
    obtain ⟨hout, hnd⟩ := List.nodup_cons.mp hnodup
    have hsp : (s.exec (.pop r)).reg .rsp = s.reg .rsp + 8 :=
      (reg_set_of_ne _ _ hr).trans (reg_set_self s _ _)
    have htop : (s.exec (.pop r)).reg r = read64 s.mem (s.reg .rsp) := reg_set_self _ _ _
    obtain ⟨hmem, hcr3, hrip, hend, hwords, hkeep⟩ := ih (s.exec (.pop r)) hrs hnd
    rw [List.map_cons, run_cons]
    refine ⟨hmem, hcr3, hrip, ?_, ?_, ?_⟩
    · rw [hend, hsp, add_assoc, List.length_cons, eight_add]
    · rw [List.map_cons, hkeep r hr.symm hout, htop, hwords, hsp]
      rfl
    · intro q hq hqrs
      rw [List.mem_cons, not_or] at hqrs
      rw [hkeep q hq hqrs.2]
      exact (reg_set_of_ne _ _ hqrs.1).trans (reg_set_of_ne s _ hq)

end State

/-! ## Memory operands and calls -/

/-- The instructions with an offset in their operand, `and`, and a `call` of code that is not
part of the piece. -/
inductive Op
  | plain (i : Instr)
  /-- `mov dst, [base + disp]` -/
  | load (dst base : Reg) (disp : Word)
  /-- `mov [base + disp], src` -/
  | storeAt (base : Reg) (disp : Word) (src : Reg)
  /-- `and dst, imm` -/
  | and (dst : Reg) (imm : Word)
  | call

namespace State

/-- One instruction.  `callee` leads from the state before the first instruction of the called
code to the state after its `ret`; `ra` is the address behind the `call`. -/
def execOp (callee : State → State) (ra : Word) (s : State) : Op → State
  | .plain i => s.exec i
  | .load dst base disp => s.set dst (read64 s.mem (s.reg base + disp))
  | .storeAt base disp src => { s with mem := write64 s.mem (s.reg base + disp) (s.reg src) }
  | .and dst imm => s.set dst (s.reg dst &&& imm)
  | .call => callee (s.call ra)

/-- A straight-line piece of code. -/
def runOps (callee : State → State) (ra : Word) (s : State) (code : List Op) : State :=
  code.foldl (execOp callee ra) s

theorem runOps_cons (callee : State → State) (ra : Word) (s : State) (op : Op) (code : List Op) :
    s.runOps callee ra (op :: code) = (s.execOp callee ra op).runOps callee ra code := rfl

theorem runOps_append (callee : State → State) (ra : Word) (s : State) (code code' : List Op) :
    s.runOps callee ra (code ++ code') = (s.runOps callee ra code).runOps callee ra code' :=
  List.foldl_append

/-- Without a call it is a plain run. -/
theorem runOps_plain (callee : State → State) (ra : Word) (s : State) (code : List Instr) :
    s.runOps callee ra (code.map .plain) = s.run code :=
  List.foldl_map

end State

end X86
