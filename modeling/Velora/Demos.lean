/-
# Programs at work

What programs do in the system, while keys are typed, the scheduler switches and other programs
run.  A call tells a program nothing but what it sees anyway (`Running.calls_reveal_nothing`), and a
program cannot find out whether it is alone (`Running.among_others_as_alone`).

For the demos of userspace.rs this leads from the functions that assemble their machine code and
map it to what the demos print: the isolated demo echoes what is typed (`isolated_demo_echoes`), and
the bad-pointer demo prints nothing and is killed (`bad_pointer_demo_killed`).
-/
import Velora.DemoSpaces

open MachineCode hiding Word
open Traces

/-! ## Calls on a view -/

namespace View

variable {v : View} {ptr : UInt64} {b : UInt8}

/-- One byte can be read to an address that may be written to. -/
theorem writable_one (h0 : ptr.toNat ≠ 0) (hw : v.writable ptr.toNat = true) :
    ptr.toNat ≠ 0 ∧ ∀ k < min (1 : UInt64).toNat 256, v.writable (ptr.toNat + k) = true := by
  refine ⟨h0, fun k hk => ?_⟩
  obtain rfl : k = 0 := by
    change k < 1 at hk
    omega
  exact hw

/-- Reading a key when none waits. -/
theorem read_of_nil (h0 : ptr.toNat ≠ 0) (hw : v.writable ptr.toNat = true) (hkeys : v.keys = []) :
    v.read 0 ptr 1 = .returns 0 [] v := by
  rw [read, if_neg (by decide), if_neg (by decide), if_pos (writable_one h0 hw), source, if_pos rfl,
    hkeys]
  show ViewEnd.returns 0 [] ((v.consume 0 0).store _ []) = _
  rw [store_nil, consume, if_pos rfl, List.drop_zero]

/-- Reading a key. -/
theorem read_of_cons (h0 : ptr.toNat ≠ 0) (hw : v.writable ptr.toNat = true) {rest : List UInt8}
    (hkeys : v.keys = b :: rest) :
    v.read 0 ptr 1 = .returns 1 [] ({ v with keys := rest }.store ptr.toNat [b]) := by
  rw [read, if_neg (by decide), if_neg (by decide), if_pos (writable_one h0 hw), source, if_pos rfl,
    hkeys]
  show ViewEnd.returns 1 [] ((v.consume 0 1).store _ [b]) = _
  rw [consume, if_pos rfl, hkeys]
  rfl

/-- Writing a byte. -/
theorem write_of_byte (h0 : ptr.toNat ≠ 0) (hlow : ptr.toNat < 0x800000000000)
    (hb : v.byte ptr.toNat = some b.toBitVec) :
    v.write 1 ptr 1 = .returns 1 (CallState.shown [b]) v := by
  have hload : v.load ptr.toNat (min (1 : UInt64).toNat 1024) = some [b] := by
    rw [load, if_pos]
    · show some [UInt8.ofBitVec ((v.byte (ptr.toNat + 0)).getD 0)] = _
      rw [Nat.add_zero, hb]
      rfl
    · refine ⟨h0, by rw [VirtAddr.tryNew_of_lower hlow]; rfl, fun k hk => ?_⟩
      obtain rfl : k = 0 := by
        change k < 1 at hk
        omega
      rw [Nat.add_zero, hb]
      rfl
  rw [write, if_neg (fun h => h rfl), hload]
  rfl

/-- The call with these registers. -/
def callOf (readFile : ReadFile) (args : Word × Word × Word × Word) (v : View) :
    Option (Except Panic ViewEnd) :=
  v.call readFile ⟨args.1⟩ ⟨args.2.1⟩ ⟨args.2.2.1⟩ ⟨args.2.2.2⟩

/-- Code in front of what is stored stays as it is. -/
theorem codeAt_store {a : Word} {code : List Byte} (bytes : List UInt8) {n : ℕ}
    (hend : a.toNat + code.length ≤ n) (hn : n < 0x10000000000000000)
    (h : CodeAt v.fetch a code) : CodeAt (v.store n bytes).fetch a code := by
  rw [codeAt_iff] at h ⊢
  intro k x hk
  obtain ⟨hlt, -⟩ := List.getElem?_eq_some_iff.1 hk
  have haddr : (a + BitVec.ofNat 64 k).toNat = a.toNat + k := by
    rw [BitVec.toNat_add, BitVec.toNat_ofNat, Nat.mod_eq_of_lt (by omega),
      Nat.mod_eq_of_lt (by omega)]
  rw [← h k x hk]
  show (v.store n bytes).byte _ = v.byte _
  rw [store, haddr]
  exact if_neg (by omega)

end View

/-- A call by its number. -/
theorem ownCall_of_number {c : Core} {n : UInt64} (h : c.reg rax = number n)
    (hn : n ≠ sysSpawnNumber ∧ n ≠ sysWaitNumber) : ownCall c := by
  rw [ownCall, callNumber, h]
  exact hn

/-! ## What is typed and what is printed -/

namespace Label

/-- The keys that have been typed and not lost. -/
def keys (ls : List Label) : List UInt8 :=
  ls.filterMap fun
    | .typed b => some b
    | _ => none

/-- The text that the program has printed. -/
def text (ls : List Label) : List UInt8 :=
  ls.flatMap fun
    | .said text => text
    | _ => []

theorem keys_append (ls ls' : List Label) : keys (ls ++ ls') = keys ls ++ keys ls' :=
  List.filterMap_append

theorem text_append (ls ls' : List Label) : text (ls ++ ls') = text ls ++ text ls' :=
  List.flatMap_append

end Label

/-! ## The echo demo -/

/-- What the echo demo prints for some keys: each byte for itself. -/
def echoed (keys : List UInt8) : List UInt8 := keys.flatMap fun b => CallState.shown [b]

/-- What is in the buffer and has not been printed. -/
def Pending (a : Word) (v : View) : EchoPoint → List UInt8 → Prop
  | .read, pending => pending = []
  | .write, pending => ∃ b : UInt8, pending = [b] ∧ v.byte (a.toNat + 91) = some b.toBitVec

/-- **The echo demo at work**: it is about to make the call `p`, and of the keys `typed` it has
printed some, has at most one in its buffer, and has not read the others. -/
structure Echoing (a : Word) (typed printed : List UInt8) (p : EchoPoint) (c : Core) (v : View) :
    Prop where
  point : p.At v.fetch a c
  code : CodeAt v.fetch a (assemble (echoListing (a + 91) (a + 91)))
  buffer : v.writable (a.toNat + 91) = true
  keys : ∃ done pending, typed = done ++ pending ++ v.keys ∧ printed = echoed done ∧
    Pending a v p pending

namespace Echoing

variable {reads : Set ReadFile} {a : Word} {typed printed : List UInt8} {p : EchoPoint} {c : Core}
  {v : View}

/-- The address of the buffer. -/
theorem toNat_buffer (hpage : a.toNat + 92 ≤ 0x800000000000) : (a + 91).toNat = a.toNat + 91 := by
  rw [BitVec.toNat_add, show (91 : Word).toNat = 91 from rfl]
  exact Nat.mod_eq_of_lt (by omega)

/-- How many calls the demo is from having printed everything. -/
def left (p : EchoPoint) (v : View) : ℕ :=
  2 * v.keys.length + match p with
    | .read => 0
    | .write => 1

/-- **One call**: it returns, prints the byte in the buffer if there is one, and the demo is at
work again, one call nearer to having printed everything. -/
theorem exists_call (readFile : ReadFile) (h : Echoing a typed printed p c v)
    (hpage : a.toNat + 92 ≤ 0x800000000000) :
    ∃ c' result text v', Interrupts v.fetch 0x80 c c' ∧ ownCall c' ∧
      v.call readFile (callNumber c') ⟨c'.reg rdi⟩ ⟨c'.reg rsi⟩ ⟨c'.reg rdx⟩ =
        some (.ok (.returns result text v')) ∧
      ∃ p', Echoing a typed (printed ++ text) p' (c'.resume result.toBitVec) v' ∧
        left p' v' = left p v - 1 := by
  obtain ⟨c', hint, hargs, hnext⟩ := h.point.interrupts h.code
  have hbuf := toNat_buffer hpage
  have h0 : (⟨a + 91⟩ : UInt64).toNat ≠ 0 := by
    show (a + 91).toNat ≠ 0
    omega
  have hw : v.writable (⟨a + 91⟩ : UInt64).toNat = true := by
    show v.writable (a + 91).toNat = true
    rw [hbuf]
    exact h.buffer
  have hnumber : (arguments c'.reg).1 = (p.call (a + 91)).1 := by rw [hargs]
  have hcall : v.call readFile (callNumber c') ⟨c'.reg rdi⟩ ⟨c'.reg rsi⟩ ⟨c'.reg rdx⟩ =
      v.callOf readFile (p.call (a + 91)) := by
    rw [← hargs]
    rfl
  obtain ⟨done, pending, htyped, hprinted, hpending⟩ := h.keys
  cases p with
  | read =>
    have hown := ownCall_of_number (n := sysReadNumber) hnumber (by decide)
    have hread : v.callOf readFile (EchoPoint.read.call (a + 91)) =
        some (.ok (v.read 0 ⟨a + 91⟩ 1)) := rfl
    obtain rfl : pending = [] := hpending
    cases hkeys : v.keys with
    | nil =>
      -- no key: the call is made again
      rw [hread, View.read_of_nil h0 hw hkeys] at hcall
      refine ⟨c', 0, [], v, hint, hown, hcall, .read,
        ⟨hnext 0 v.fetch h.code, h.code, h.buffer, done, [], htyped, ?_, rfl⟩, ?_⟩
      · rw [List.append_nil, hprinted]
      · rw [left, hkeys]
        rfl
    | cons b rest =>
      rw [hread, View.read_of_cons h0 hw hkeys] at hcall
      have hcode := View.codeAt_store (v := { v with keys := rest }) [b]
        (show a.toNat + 91 ≤ (⟨a + 91⟩ : UInt64).toNat from hbuf.ge) (UInt64.toNat_lt _) h.code
      refine ⟨c', 1, [], _, hint, hown, hcall, .write,
        ⟨hnext 1 _ hcode, hcode, h.buffer, done, [b], ?_, ?_, b, rfl, ?_⟩, ?_⟩
      · rw [htyped, hkeys, List.append_nil, List.append_assoc]
        rfl
      · rw [List.append_nil, hprinted]
      · rw [View.store, show (⟨a + 91⟩ : UInt64).toNat = _ from hbuf]
        simp
      · rw [left, left, hkeys]
        show 2 * rest.length + 1 = 2 * (rest.length + 1) + 0 - 1
        omega
  | write =>
    obtain ⟨b, rfl, hb⟩ := hpending
    have hown := ownCall_of_number (n := sysWriteNumber) hnumber (by decide)
    have hbyte : v.byte (⟨a + 91⟩ : UInt64).toNat = some b.toBitVec := by
      show v.byte (a + 91).toNat = _
      rw [hbuf, hb]
    have hlow : (⟨a + 91⟩ : UInt64).toNat < 0x800000000000 := by
      show (a + 91).toNat < _
      omega
    have hwrite : v.callOf readFile (EchoPoint.write.call (a + 91)) =
        some (.ok (v.write 1 ⟨a + 91⟩ 1)) := rfl
    rw [hwrite, View.write_of_byte h0 hlow hbyte] at hcall
    refine ⟨c', 1, _, v, hint, hown, hcall, .read,
      ⟨hnext 1 v.fetch h.code, h.code, h.buffer, done ++ [b], [], ?_, ?_, rfl⟩, rfl⟩
    · rw [htyped, List.append_nil]
    · rw [hprinted, echoed, echoed, List.flatMap_append, List.flatMap_singleton]

/-- **The run**: at any time the demo is at work. -/
theorem of_trace {ls : List Label} {c' : Core} {v' : View} (hpage : a.toNat + 92 ≤ 0x800000000000)
    (h : Echoing a typed printed p c v)
    (htrace : Trace (View.Step reads) (c, v) ls (c', v')) :
    ∃ p', Echoing a (typed ++ Label.keys ls) (printed ++ Label.text ls) p' c' v' := by
  refine htrace.invariant (P := fun ls st => ∃ p', Echoing a (typed ++ Label.keys ls)
    (printed ++ Label.text ls) p' st.1 st.2) ⟨p, ?_⟩ ?_
  · show Echoing a (typed ++ []) (printed ++ []) p c v
    rw [List.append_nil, List.append_nil]
    exact h
  · rintro ls l t u ⟨p, hp⟩ hstep
    rw [Label.keys_append, Label.text_append]
    cases hstep with
    | @typed c v b hroom =>
      refine ⟨p, hp.point, hp.code, hp.buffer, ?_⟩
      obtain ⟨done, pending, htyped, hprinted, hpending⟩ := hp.keys
      have hpending' : Pending a (v.typed b) p pending := by
        cases p <;> exact hpending
      refine ⟨done, pending, ?_, ?_, hpending'⟩
      · show typed ++ (Label.keys ls ++ [b]) = done ++ pending ++ (v.keys ++ [b])
        rw [← List.append_assoc, htyped, List.append_assoc]
      · rw [← hprinted]
        exact congrArg (printed ++ ·) (List.append_nil _)
    | lost b hfull =>
      refine ⟨p, ?_⟩
      show Echoing a (typed ++ (Label.keys ls ++ [])) (printed ++ (Label.text ls ++ [])) p _ _
      rw [List.append_nil, List.append_nil]
      exact hp
    | @call c c' v v' result text readFile hread hint hown hcall =>
      obtain ⟨d, result', text', w, hint', -, hcall', p', hp', -⟩ :=
        hp.exists_call readFile hpage
      obtain rfl := hint.unique hint'
      rw [hcall] at hcall'
      cases hcall'
      refine ⟨p', ?_⟩
      show Echoing a (typed ++ (Label.keys ls ++ []))
        (printed ++ (Label.text ls ++ (text ++ []))) p' _ _
      rw [List.append_nil, List.append_nil, ← List.append_assoc]
      exact hp'

/-- **It prints everything**, if it is left in peace for a while. -/
theorem exists_trace (hpage : a.toNat + 92 ≤ 0x800000000000) (hreads : reads.Nonempty)
    (h : Echoing a typed printed p c v) :
    ∃ ls c' v', Trace (View.Step reads) (c, v) ls (c', v') ∧ Label.keys ls = [] ∧
      printed ++ Label.text ls = echoed typed := by
  obtain ⟨readFile, hread⟩ := hreads
  -- the induction is on the number of calls that are left
  induction hn : left p v generalizing p c v printed with
  | zero =>
    obtain ⟨done, pending, rfl, rfl, hpending⟩ := h.keys
    cases p with
    | read =>
      obtain rfl : pending = [] := hpending
      have hkeys : v.keys = [] := List.length_eq_zero_iff.1 (by rw [left] at hn; omega)
      refine ⟨[], c, v, .refl, rfl, ?_⟩
      rw [hkeys]
      simp [Label.text]
    | write =>
      rw [left] at hn
      omega
  | succ n ih =>
    obtain ⟨c', result, text, v', hint, hown, hcall, p', hp', hleft⟩ :=
      h.exists_call readFile hpage
    obtain ⟨ls, c'', v'', htrace, hkeys, htext⟩ := ih hp' (by omega)
    refine ⟨.said text :: ls, c'', v'', (Trace.single (.call hread hint hown hcall)).trans htrace,
      hkeys, ?_⟩
    rw [← htext]
    exact (List.append_assoc _ _ _).symm

end Echoing

/-- The page of the isolated demo, if the window on physical memory is not there. -/
theorem demoPage_isolatedUserPageAddr {off : Fin 512} (hoff : off ≠ 192) :
    World.DemoPage off isolatedUserPageAddr :=
  .of_entry (by decide) (by decide) (by decide) (by decide) hoff

/-- When it has been started, the demo is at work; the keys that wait are what has been typed. -/
theorem Echoing.of_started {w : World} {i : ThreadId} {s : AddrSpace} {code : List Byte}
    {r : Running} (hbuild : buildEchoShellcode isolatedUserPageAddr = .ok code)
    (hstarted : World.Started w i s isolatedUserPageAddr code) (hr : r.world = w)
    (hrip : r.core.rip = isolatedUserPageAddr) :
    Echoing isolatedUserPageAddr r.inputQueue.toList [] .read r.core (r.view i s.l4) := by
  obtain rfl := buildEchoShellcode_eq_ok hbuild
  have hcode := hstarted.codeAt (by decide) hr
  have hbuffer := hstarted.writable 91 (by decide)
  rw [← hr] at hbuffer
  exact ⟨⟨r.core, .refl, hrip⟩, (codeAt_append.1 hcode).1, hbuffer, [], [], rfl, rfl, rfl⟩

/-! ## What a program can find out -/

namespace CallState

/-- What can be said of the second call when the first one returns. -/
theorem Alike.of_returns {σ : Type} {k₁ k₂ k₁' : CallState σ} {rax : UInt64}
    {x : Option (Except Panic (CallEnd σ))} (h : k₁.Alike k₂ (some (.ok (.returns rax k₁'))) x) :
    ∃ k₂', x = some (.ok (.returns rax k₂')) ∧ Same k₁ k₂ k₁' k₂' := by
  rcases x with _ | p | ⟨rax', k₂'⟩ | k₂' | ⟨pid, k₂'⟩ | _
  · cases h
  · cases h
  · obtain ⟨rfl, hsame⟩ := h
    exact ⟨k₂', rfl, hsame⟩
  · cases h
  · cases h
  · cases h

end CallState

namespace Running

/-- **A call reveals nothing of the rest of the system.**  Take two systems, each booted in its own
way and after any run, and in each a program that is running.  If the two programs have the same
view, and `read_file` has the same answers, as it does with the same disk and the same room on the
heap, they get the same answer to every call that concerns the caller alone: the same result and the
same view again, with the same text printed, or the same end. -/
theorem calls_reveal_nothing {mapTo₁ mapTo₂ : MapTo BootInfoFrameAllocator} {env₁ env₂ : SpawnEnv}
    {rooms₁ rooms₂ : Set ℕ} {map₁ map₂ : MemoryMap} {cr3₁ cr3₂ : PhysFrame}
    {m₁ m₂ : Machine BootInfoFrameAllocator} {i₁ i₂ : ThreadId} {s₁ s₂ : AddrSpace}
    {r₁ r₂ : Running} (h₁ : r₁.Hosted mapTo₁ env₁ rooms₁ map₁ cr3₁ m₁ i₁ s₁)
    (h₂ : r₂.Hosted mapTo₂ env₂ rooms₂ map₂ cr3₂ m₂ i₂ s₂)
    (hrun₁ : r₁.world.sched.current = i₁) (hrun₂ : r₂.world.sched.current = i₂)
    (hread : Fs.readFile env₁.heapRoom env₁.disk env₁.rounds =
      Fs.readFile env₂.heapRoom env₂.disk env₂.rounds)
    (hview : r₁.view i₁ s₁.l4 = r₂.view i₂ s₂.l4) {c : Core} (hown : ownCall c) :
    (r₁.callState s₁.l4).Alike (r₂.callState s₂.l4) (r₁.dispatch mapTo₁ env₁ s₁.l4 c)
      (r₂.dispatch mapTo₂ env₂ s₂.l4 c) := by
  have hagrees₁ := h₁.sound.agrees mapTo₁ env₁ h₁.booted h₁.kernelOnly hrun₁ hown
  have hagrees₂ := h₂.sound.agrees mapTo₂ env₂ h₂.booted h₂.kernelOnly hrun₂ hown
  rw [hview, hread] at hagrees₁
  exact hagrees₁.alike hagrees₂

/-- The registers with which one byte is read from the keyboard to the page of the demo. -/
def readsKey : Core where
  reg n := if n = rsi then isolatedUserPageAddr else if n = rdi then 0 else 1
  rip := isolatedUserPageAddr
  zf := false

/-- **A system in which a program is running**, and the same system with a thread more. -/
theorem exists_hosted (code : List Byte) (hfits : code.length ≤ 4096) (q : InputQueue) :
    ∃ (m₀ : Machine BootInfoFrameAllocator) (s : AddrSpace) (r r' : Running),
      World.Started r.world 1 s isolatedUserPageAddr code ∧ r.core = readsKey ∧ r.inputQueue = q ∧
      r.Hosted (documentedMapTo bootInfo) shellEnv Set.univ World.heapMap 1 m₀ 1 s ∧
      r'.Hosted (documentedMapTo bootInfo) shellEnv Set.univ World.heapMap 1 m₀ 1 s ∧
      r.world.sched.current = 1 ∧ r'.world.sched.current = 1 ∧
      Step (documentedMapTo bootInfo) shellEnv Set.univ 1 m₀ 1 s.l4 r none r' ∧
      r.world.sched.threads 2 = none ∧ (r'.world.sched.threads 2).isSome = true := by
  have hmap : MapTo.Documented bootInfo (documentedMapTo bootInfo) := fun _ _ _ _ _ _ => rfl
  obtain ⟨m₀, w, w', s, hboot, hk, hreach, hrun, hstarted, hmore, hrun', hfree, htaken⟩ :=
    World.exists_running rfl (demoPage_isolatedUserPageAddr (by decide)) code hfits (by decide)
  have hother : Step (documentedMapTo bootInfo) shellEnv Set.univ 1 m₀ 1 s.l4
      ⟨w, readsKey, q, []⟩ none ⟨w', readsKey, q, []⟩ :=
    .other (e := .kernel (.spawn 0x444444560000 (.function 0))) [] ⟨trivial, trivial⟩
      (fun hc => hc) hmore
  exact ⟨m₀, s, ⟨w, readsKey, q, []⟩, ⟨w', readsKey, q, []⟩, hstarted, rfl, rfl,
    hstarted.hosted shellEnv Set.univ hmap hboot hk hreach rfl,
    ⟨hmap, hboot, hk, ⟨w, readsKey, q, []⟩, [], hreach, hstarted.space, hstarted.files,
      Trace.refl.tail hother⟩,
    hrun, hrun', hother, hfree, htaken⟩

/-- A key waits, and in the second system there is a thread more. -/
theorem calls_reveal_nothing_keyWaits : ∃ (r₁ r₂ : Running) (s : AddrSpace)
    (k₁ k₂ : CallState BootInfoFrameAllocator),
    r₁.world.sched.threads 2 = none ∧ (r₂.world.sched.threads 2).isSome = true ∧
    r₁.inputQueue.toList = [0x61] ∧
    r₁.dispatch (documentedMapTo bootInfo) shellEnv s.l4 readsKey = some (.ok (.returns 1 k₁)) ∧
    r₂.dispatch (documentedMapTo bootInfo) shellEnv s.l4 readsKey = some (.ok (.returns 1 k₂)) ∧
    k₁.view = k₂.view ∧ k₁.inputQueue.toList = [] := by
  obtain ⟨m₀, s, r₁, r₂, hstarted, -, hq, h₁, h₂, hrun₁, hrun₂, hother, hfree, htaken⟩ :=
    exists_hosted [] (by decide) (InputQueue.new.push 0x61)
  have hview : r₁.view 1 s.l4 = r₂.view 1 s.l4 := (congrArg Prod.snd
    (h₁.sound.alone_silent h₁.documented h₁.booted h₁.kernelOnly hother)).symm
  have hpop : ∃ q, (r₁.callState s.l4).inputQueue.pop = some (0x61, q) ∧ q.toList = [] := by
    rw [show (r₁.callState s.l4).inputQueue = _ from hq]
    exact ⟨_, rfl, rfl⟩
  obtain ⟨q, hpop, hempty⟩ := hpop
  have hptr : (⟨isolatedUserPageAddr⟩ : UInt64) ≠ 0 := by decide
  obtain ⟨mem, hread, -⟩ := CallState.sysRead_of_key
    (fun page hup => h₁.sound.guarded.not_userWalk_of_upper h₁.kernelOnly hstarted.space hup)
    hptr (mayStore_iff.1 (hstarted.writable 0 (by decide))) hpop
  have hcall : r₁.dispatch (documentedMapTo bootInfo) shellEnv s.l4 readsKey = some _ :=
    congrArg some hread
  have halike := calls_reveal_nothing h₁ h₂ hrun₁ hrun₂ rfl hview (c := readsKey)
    ⟨by decide, by decide⟩
  rw [hcall] at halike
  obtain ⟨k₂, hcall₂, hsame, -⟩ := halike.of_returns
  exact ⟨r₁, r₂, s, _, k₂, hfree, htaken, by rw [hq]; rfl, hcall, hcall₂, hsame, hempty⟩

/-- **A program cannot find out whether it is alone.**  Whatever the scheduler does, whatever other
programs run, are started or end, and whatever they store, print or have open, while they leave the
keys alone, and however much room there is on the heap each time: what can be observed of a program
in the system can be observed of the program that is alone with its view, and leads to the same
registers and the same view.  What the program does alone it can do in the system while its thread
runs.  And the calls of the other programs, but for `SYS_SPAWN`, are among the steps that are not
observed. -/
theorem among_others_as_alone {mapTo : MapTo BootInfoFrameAllocator} {env : SpawnEnv}
    {rooms : Set ℕ} {map : MemoryMap} {cr3 : PhysFrame} {m₀ : Machine BootInfoFrameAllocator}
    {i : ThreadId} {s : AddrSpace} {r : Running} (h : r.Hosted mapTo env rooms map cr3 m₀ i s) :
    (∀ ls r', Trace (Step mapTo env rooms cr3 m₀ i s.l4) r ls r' →
      Trace (View.Step (env.reads rooms)) (r.alone i s.l4) ls (r'.alone i s.l4)) ∧
    (r.world.sched.current = i → ∀ ls st,
      Trace (View.Step (env.reads rooms)) (r.alone i s.l4) ls st →
        ∃ r', Trace (Step mapTo env rooms cr3 m₀ i s.l4) r ls r' ∧ r'.alone i s.l4 = st) ∧
    (r.world.sched.current ≠ i → ∀ t env' c e,
      r.world.space (.thread r.world.sched.current) = some t → callNumber c ≠ sysSpawnNumber →
      r.dispatch mapTo env' t.l4 c = some (.ok e) →
        ∃ k', e.state = some k' ∧ (k'.inputQueue = r.inputQueue →
          Trace (Step mapTo env rooms cr3 m₀ i s.l4) r [] { r with
            world := { r.world with toSystem := k'.toSystem }, printed := k'.printed })) := by
  refine ⟨fun ls r' htrace => ?_, fun hrun ls st htrace => ?_,
    fun hne t env' c e ht hnumber hcall => ?_⟩
  · exact (h.sound.trace h.documented h.booted h.kernelOnly htrace).2
  · obtain ⟨r', htrace', hst, -⟩ :=
      h.sound.exists_trace h.documented h.booted h.kernelOnly hrun htrace
    exact ⟨r', htrace', hst⟩
  · exact h.sound.trace_of_call h.documented h.booted h.kernelOnly hne ht hnumber hcall

/-- The echo demo runs, another thread is started, and a key is typed, read and printed. -/
theorem among_others_as_alone_echo : ∃ (m₀ : Machine BootInfoFrameAllocator) (s : AddrSpace)
    (r r₁ r' : Running) (ls : List Label), r.world.sched.threads 2 = none ∧
    (r₁.world.sched.threads 2).isSome = true ∧
    Trace (Step (documentedMapTo bootInfo) shellEnv Set.univ 1 m₀ 1 s.l4) r [] r₁ ∧
    Trace (Step (documentedMapTo bootInfo) shellEnv Set.univ 1 m₀ 1 s.l4) r₁ ls r' ∧
    Label.keys ls = [0x61] ∧ Label.text ls = [0x61] ∧
    Trace (View.Step (shellEnv.reads Set.univ)) (r.alone 1 s.l4) ls (r'.alone 1 s.l4) := by
  have hbuild : buildEchoShellcode isolatedUserPageAddr = .ok _ := buildEchoShellcode_eq (by decide)
  obtain ⟨m₀, s, r, r₁, hstarted, hcore, hq, h, h₁, -, hrun₁, hother, hfree, htaken⟩ :=
    exists_hosted _ (show (assemble (echoListing (isolatedUserPageAddr + 91)
      (isolatedUserPageAddr + 91)) ++ [0]).length ≤ 4096 by decide) InputQueue.new
  -- alone, it takes the key that is typed and prints it
  have hroom : (r.view 1 s.l4).keys.length < inputQueueCapacity := by
    rw [view, hq]
    exact show (RingBuffer.toList InputQueue.new).length < inputQueueCapacity by decide
  have htyped : Trace (View.Step (shellEnv.reads Set.univ)) (r.alone 1 s.l4) [.typed 0x61]
      (r.core, (r.view 1 s.l4).typed 0x61) := Trace.single (.typed 0x61 hroom)
  have hstart := Echoing.of_started hbuild hstarted rfl (by rw [hcore]; rfl)
  obtain ⟨p, hworking⟩ := hstart.of_trace (by decide) htyped
  obtain ⟨ls, c', v', hmore, hkeys, htext⟩ :=
    hworking.exists_trace (by decide) (shellEnv.reads_nonempty Set.univ_nonempty)
  have halone := htyped.trans hmore
  rw [← h.sound.alone_silent h.documented h.booted h.kernelOnly hother] at halone
  obtain ⟨r', htrace, -⟩ := (among_others_as_alone h₁).2.1 hrun₁ _ _ halone
  rw [hq] at htext
  refine ⟨m₀, s, r, r₁, r', _, hfree, htaken, Trace.refl.tail hother, htrace, congrArg _ hkeys,
    htext, (among_others_as_alone h).1 _ _ ((Trace.refl.tail hother).trans htrace)⟩

end Running

/-! ## The isolated demo in the system -/

/-- **The isolated demo echoes what is typed.**  In any system that has been reached, if
`spawn_isolated_demo` returns, there is a new thread with a space of its own; and from where
`run_isolated_demo` enters ring 3, whatever else happens in the system while no other program reads
the keys: of the keys that wait or are typed, the program has printed the first ones, each for
itself, has at most one in its buffer, and the others wait in the queue.  Whenever its thread runs,
it can go on and print all of them. -/
theorem isolated_demo_echoes (env : SpawnEnv) {mapTo : MapTo BootInfoFrameAllocator}
    {map : MemoryMap} {cr3 : PhysFrame} {m₀ : Machine BootInfoFrameAllocator} {w : World}
    {stackBase : ℕ} {entry : Entry} {system : System BootInfoFrameAllocator}
    (hmap : MapTo.Documented bootInfo mapTo) (hboot : Booted map cr3 m₀)
    (hk : World.KernelOnly env.off m₀.mem cr3)
    (hreach : Runs.Reach (World.Event.step mapTo cr3 env.off) (World.Admitted cr3 env.off m₀)
      (World.start cr3 m₀) w)
    (hblock : HeapBlock stackBase) (hoff : env.off ≠ 192) {rooms : Set ℕ} (hrooms : rooms.Nonempty)
    (hspawn : w.toSystem.spawnIsolatedDemo bootInfo mapTo cr3 env.off stackBase entry true =
      .ok system) :
    ∃ i s, ({ w with toSystem := system } : World).space (.thread i) = some s ∧
      ∀ r : Running, r.world = { w with toSystem := system } →
        RunsDemo isolatedUserPageAddr r.core →
        ∀ ls r', Trace (Running.Step mapTo env rooms cr3 m₀ i s.l4) r ls r' →
          (∃ done pending,
            r.inputQueue.toList ++ Label.keys ls = done ++ pending ++ r'.inputQueue.toList ∧
            pending.length ≤ 1 ∧ Label.text ls = echoed done) ∧
          (r'.world.sched.current = i → ∃ ls' r'',
            Trace (Running.Step mapTo env rooms cr3 m₀ i s.l4) r' ls' r'' ∧ Label.keys ls' = [] ∧
            Label.text (ls ++ ls') = echoed (r.inputQueue.toList ++ Label.keys ls)) := by
  obtain ⟨⟨pid, system'⟩, hspawn, hsystem⟩ := bind_eq_ok hspawn
  cases hsystem
  have hguarded := World.guarded_of_events hmap hboot hk hreach
  obtain ⟨code, i, s, hbuild, -, hreach', hstarted⟩ := hguarded.started hmap hboot hk hblock
    (demoPage_isolatedUserPageAddr hoff) (fun code hbuild => by
      rw [buildEchoShellcode_eq_ok hbuild]
      decide) hspawn
  refine ⟨i, s, hstarted.space, fun r hr hruns ls r' htrace => ?_⟩
  have hhosted : r.Hosted mapTo env rooms map cr3 m₀ i s :=
    hstarted.hosted env rooms hmap hboot hk (hreach.trans hreach') hr
  have hstart := Echoing.of_started hbuild hstarted hr hruns.1
  obtain ⟨hsound, htrace'⟩ := hhosted.sound.trace hmap hboot hk htrace
  obtain ⟨p, hworking⟩ := hstart.of_trace (by decide) htrace'
  constructor
  · obtain ⟨done, pending, htyped, hprinted, hpending⟩ := hworking.keys
    refine ⟨done, pending, htyped, ?_, hprinted⟩
    cases p with
    | read =>
      obtain rfl : pending = [] := hpending
      exact Nat.zero_le _
    | write =>
      obtain ⟨b, rfl, -⟩ := hpending
      exact le_rfl
  · intro hrun
    obtain ⟨ls', c', v', hmore, hkeys, htext⟩ :=
      hworking.exists_trace (by decide) (env.reads_nonempty hrooms)
    obtain ⟨r'', hmore', -, -⟩ := hsound.exists_trace hmap hboot hk hrun hmore
    refine ⟨ls', r'', hmore', hkeys, ?_⟩
    rw [Label.text_append]
    exact htext

/-- It is started right after boot and switched to, and a key is typed, read and printed. -/
theorem isolated_demo_echoes_start : ∃ (m₀ : Machine BootInfoFrameAllocator)
    (system : System BootInfoFrameAllocator) (i : ThreadId) (s : AddrSpace) (r r' : Running)
    (ls : List Label),
    (World.start 1 m₀).toSystem.spawnIsolatedDemo bootInfo (documentedMapTo bootInfo) 1 3
      0x444444530000 (.function 0) true = .ok system ∧
    r.world = { World.start 1 m₀ with toSystem := system } ∧
    RunsDemo isolatedUserPageAddr r.core ∧
    Trace (Running.Step (documentedMapTo bootInfo) shellEnv Set.univ 1 m₀ i s.l4) r ls r' ∧
    Label.keys ls = [0x61] ∧ Label.text ls = [0x61] := by
  have hmap : MapTo.Documented bootInfo (documentedMapTo bootInfo) := fun _ _ _ _ _ _ => rfl
  have hblock : HeapBlock 0x444444530000 := ⟨by decide, by decide, by decide⟩
  obtain ⟨m₀, hboot, hk, hsup⟩ := World.exists_booted_kernelOnly (n := 53) (by decide)
  have hguard : World.Guarded 1 3 m₀ (World.start 1 m₀) := World.guarded_start hboot
  have hbuild : buildEchoShellcode isolatedUserPageAddr = .ok _ := buildEchoShellcode_eq (by decide)
  obtain ⟨pid, system, hspawn⟩ := hguard.books.exists_spawnDemo hmap hboot _ hblock rfl
    (demoPage_isolatedUserPageAddr (by decide)) (by decide) (.function 0) (fun t => ⟨_, rfl⟩) hsup
  rw [← hbuild] at hspawn
  have hspawn' : (World.start 1 m₀).toSystem.spawnIsolatedDemo bootInfo (documentedMapTo bootInfo) 1
      3 0x444444530000 (.function 0) true = .ok system := by
    rw [System.spawnIsolatedDemo, hspawn]
    rfl
  obtain ⟨i, s, hspace, hechoes⟩ := isolated_demo_echoes shellEnv hmap hboot hk .refl hblock
    (by decide) Set.univ_nonempty hspawn'
  obtain ⟨rfl, hnot, w, -, hswitch, hrun, -⟩ := World.exists_switched hspawn hspace
  let r : Running := ⟨{ World.start 1 m₀ with toSystem := system },
    ⟨fun n => if n = rsp then isolatedUserPageAddr + 4096 - 16 else 0, isolatedUserPageAddr, false⟩,
    InputQueue.new, []⟩
  have hother : Running.Step (documentedMapTo bootInfo) shellEnv Set.univ 1 m₀ 1 s.l4 r none
      { r with world := w } :=
    .other (e := .kernel (.schedule 0)) [] ⟨trivial, trivial⟩ hnot hswitch
  have htrace := (Trace.refl.tail hother).tail
    (.typed 0x61 (show InputQueue.new.len < inputQueueCapacity by decide))
  have hruns : RunsDemo isolatedUserPageAddr r.core := ⟨rfl, rfl, rfl, rfl⟩
  obtain ⟨ls', r'', hmore, hkeys, htext⟩ := (hechoes r rfl hruns _ _ htrace).2 hrun
  exact ⟨m₀, system, 1, s, r, r'', _, hspawn', rfl, hruns, htrace.trans hmore, congrArg _ hkeys,
    htext⟩

/-! ## The bad-pointer demo in the system -/

/-- **A program before a call from which it does not come back** prints nothing and stays where it
is, whatever is typed. -/
theorem View.trace_of_blocked {reads : Set ReadFile} {P : Core → View → Prop}
    (htyped : ∀ {c v} b, P c v → P c (View.typed b v))
    (hblocked : ∀ {c c' v v' readFile result text}, P c v → Interrupts v.fetch 0x80 c c' →
      ownCall c' → v.call readFile (callNumber c') ⟨c'.reg rdi⟩ ⟨c'.reg rsi⟩ ⟨c'.reg rdx⟩ ≠
        some (.ok (.returns result text v')))
    {c c' : Core} {v v' : View} {ls : List Label} (h : P c v)
    (htrace : Trace (View.Step reads) (c, v) ls (c', v')) : P c' v' ∧ Label.text ls = [] := by
  refine htrace.invariant (P := fun ls st => P st.1 st.2 ∧ Label.text ls = []) ⟨h, rfl⟩ ?_
  rintro ls l t u ⟨hp, htext⟩ hstep
  rw [Label.text_append, htext]
  cases hstep with
  | typed b hroom => exact ⟨htyped b hp, rfl⟩
  | lost b hfull => exact ⟨hp, rfl⟩
  | call hread hint hown hcall => exact absurd hcall (hblocked hp hint hown)

/-- **The bad-pointer demo before its call**: its code is there, and what is behind its pointer is
not for it to read. -/
structure Doomed (a : Word) (c : Core) (v : View) : Prop where
  rip : c.rip = a
  code : CodeAt v.fetch a buildBadPointerShellcode
  denied : v.byte badPointer.toNat = none

namespace Doomed

variable {a : Word} {c c' : Core} {v v' : View}

/-- **Its call does not return**: the thread is killed. -/
theorem exists_kill (readFile : ReadFile) (h : Doomed a c v) :
    ∃ c', Interrupts v.fetch 0x80 c c' ∧ ownCall c' ∧
      v.call readFile (callNumber c') ⟨c'.reg rdi⟩ ⟨c'.reg rsi⟩ ⟨c'.reg rdx⟩ =
        some (.ok (.exits (View.notice "syscall argument pointer not mapped for read") v)) := by
  obtain ⟨c', hint, hargs⟩ := badPointer_write (h.rip ▸ h.code)
  have hnumber : (arguments c'.reg).1 = number sysWriteNumber := by
    rw [hargs]
    rfl
  have hload : v.load badPointer.toNat (min (10 : UInt64).toNat 1024) = none := by
    refine if_neg fun hc => ?_
    have hfirst := hc.2.2 0 (by decide)
    rw [Nat.add_zero, h.denied] at hfirst
    cases hfirst
  refine ⟨c', hint, ownCall_of_number hnumber (by decide), ?_⟩
  show v.callOf readFile (arguments c'.reg) = _
  rw [hargs]
  show some (Except.ok (v.write 1 ⟨badPointer⟩ 10)) = _
  rw [View.write, if_neg (fun hc => hc rfl),
    show v.load (⟨badPointer⟩ : UInt64).toNat (min (10 : UInt64).toNat 1024) = none from hload]

/-- **The run**: nothing is printed, and the call is still to be made. -/
theorem of_trace {reads : Set ReadFile} {ls : List Label} (h : Doomed a c v)
    (htrace : Trace (View.Step reads) (c, v) ls (c', v')) :
    Doomed a c' v' ∧ Label.text ls = [] := by
  refine View.trace_of_blocked (P := Doomed a) (fun b hdoomed => ?_) ?_ h htrace
  · exact ⟨hdoomed.rip, hdoomed.code, hdoomed.denied⟩
  · intro c c' v v' readFile result text hdoomed hint hown hcall
    obtain ⟨d, hint', -, hkill⟩ := hdoomed.exists_kill readFile
    obtain rfl := hint.unique hint'
    rw [hcall] at hkill
    cases hkill

end Doomed

/-- No program may read below an entry that all spaces share. -/
theorem Running.Sound.byte_eq_none {cr3 : PhysFrame} {off : Fin 512}
    {m₀ : Machine BootInfoFrameAllocator} {i : ThreadId} {s : AddrSpace} {r : Running}
    (hk : World.KernelOnly off m₀.mem cr3) (h : r.Sound cr3 off m₀ i s) {a : ℕ}
    (ha : a < 0x8000000000) : (r.view i s.l4).byte a = none := by
  rw [← Option.not_isSome_iff_eq_none]
  intro hsome
  obtain ⟨hlow, hu⟩ := seenByte_isSome.1 hsome
  have howned := h.guarded.owned_of_userWalk hk h.space hu
  refine owned_eq_true.1 howned (Or.inl (Fin.ext ?_))
  show (a - a % 4096) / 0x8000000000 % 512 = 0
  omega

/-- The page of the bad-pointer demo, if the window on physical memory is not there. -/
theorem demoPage_badPointerDemoAddr {off : Fin 512} (hoff : off ≠ 244) :
    World.DemoPage off badPointerDemoAddr :=
  .of_entry (by decide) (by decide) (by decide) (by decide) hoff

/-- **The bad-pointer demo is killed, and nothing else happens.**  In any system that has been
reached, if `spawn_bad_pointer_demo` returns, there is a new thread with a space of its own; and
from where `run_bad_pointer_demo` enters ring 3, whatever else happens in the system, the program
has printed nothing.  Whenever its thread runs, it gets to its call, the kernel survives the call,
and what the call prints is the notice that the thread has been killed. -/
theorem bad_pointer_demo_killed (env : SpawnEnv) {mapTo : MapTo BootInfoFrameAllocator}
    {map : MemoryMap} {cr3 : PhysFrame} {m₀ : Machine BootInfoFrameAllocator} {w : World}
    {stackBase : ℕ} {entry : Entry} {pid : Option Pid} {system : System BootInfoFrameAllocator}
    (hmap : MapTo.Documented bootInfo mapTo) (hboot : Booted map cr3 m₀)
    (hk : World.KernelOnly env.off m₀.mem cr3)
    (hreach : Runs.Reach (World.Event.step mapTo cr3 env.off) (World.Admitted cr3 env.off m₀)
      (World.start cr3 m₀) w)
    (hblock : HeapBlock stackBase) (hoff : env.off ≠ 244) {rooms : Set ℕ}
    (hspawn : w.toSystem.spawnBadPointerDemo bootInfo mapTo cr3 env.off stackBase entry true =
      .ok (pid, system)) :
    ∃ i s, ({ w with toSystem := system } : World).space (.thread i) = some s ∧
      ∀ r : Running, r.world = { w with toSystem := system } → RunsDemo badPointerDemoAddr r.core →
        ∀ ls r', Trace (Running.Step mapTo env rooms cr3 m₀ i s.l4) r ls r' →
          Label.text ls = [] ∧
          (r'.world.sched.current = i → ∃ c k,
            Interrupts (r'.view i s.l4).fetch 0x80 r'.core c ∧
            r'.dispatch mapTo env s.l4 c = some (.ok (.exits k)) ∧
            k.printed = r'.printed ++
              View.notice "syscall argument pointer not mapped for read") := by
  have hguarded := World.guarded_of_events hmap hboot hk hreach
  obtain ⟨code, i, s, hbuild, -, hreach', hstarted⟩ := hguarded.started hmap hboot hk hblock
    (demoPage_badPointerDemoAddr hoff) (fun code hbuild => by
      obtain rfl := Except.ok.inj hbuild
      decide) hspawn
  obtain rfl := Except.ok.inj hbuild
  refine ⟨i, s, hstarted.space, fun r hr hruns ls r' htrace => ?_⟩
  have hhosted : r.Hosted mapTo env rooms map cr3 m₀ i s :=
    hstarted.hosted env rooms hmap hboot hk (hreach.trans hreach') hr
  have hstart : Doomed badPointerDemoAddr r.core (r.view i s.l4) :=
    ⟨hruns.1, hstarted.codeAt (by decide) hr, hhosted.sound.byte_eq_none hk (by decide)⟩
  obtain ⟨hsound, htrace'⟩ := hhosted.sound.trace hmap hboot hk htrace
  obtain ⟨hdoomed, htext⟩ := hstart.of_trace htrace'
  refine ⟨htext, fun hrun => ?_⟩
  obtain ⟨c, hint, hown, hcall⟩ :=
    hdoomed.exists_kill (Fs.readFile env.heapRoom env.disk env.rounds)
  have hagrees := hsound.agrees mapTo env hboot hk hrun hown
  rw [hcall] at hagrees
  obtain ⟨k, hdispatch, hleaves⟩ := hagrees.exists_exits
  exact ⟨c, k, hint, hdispatch, hleaves.printed⟩
