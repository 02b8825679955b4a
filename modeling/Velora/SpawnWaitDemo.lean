/-
# The spawn/wait demo

The program that `build_spawn_wait_shellcode` assembles asks the kernel to start `GREET.ELF`, waits
for it, prints a message and exits (`spawnWait_session`).

From `spawn_spawn_wait_demo` to its first call, whatever else happens in the system, the program
prints nothing, and its call is `spawn_from_path` of that file without arguments
(`spawn_wait_demo_asks`).
-/
import Velora.OpenReadDemo
import Velora.Spawning

open MachineCode hiding Word
open Traces

/-! ## The first call -/

/-- `b"GREET.ELF"`, as the kernel finds it. -/
def greetElf : List UInt8 := "GREET.ELF".toUTF8.toList

theorem map_spawnWaitChildPath : spawnWaitChildPath.map UInt8.ofBitVec = greetElf := by
  rw [spawnWaitChildPath, byteString, List.map_map]
  exact List.map_id _

theorem validUtf8_greetElf : validUtf8 greetElf = true := by decide +kernel

/-- A call without arguments, with a path that can be read. -/
theorem SyscallState.sysSpawn_of_path {σ : Type} {A : FrameAllocator σ} {mapTo : MapTo σ}
    {env : SpawnEnv} {h : SyscallState σ} {pathPtr pathLen : ℕ} {path : List UInt8}
    (hlen : 0 < pathLen ∧ pathLen ≤ 255)
    (hcopy : copyFromUser h.machine.mem h.cr3 pathPtr pathLen = .ok (some path))
    (hutf8 : validUtf8 path = true) (argsPtr : ℕ) :
    h.sysSpawn A mapTo env pathPtr pathLen argsPtr 0 =
      h.spawnUnderKernelTable A mapTo env path [] := by
  rw [sysSpawn, if_neg (by omega), hcopy]
  simp only [hutf8, Bool.not_true, Bool.false_eq_true, if_false]
  rfl

/-- **The spawn/wait demo before its first call.** -/
structure Asking (a : Word) (c : Core) (v : View) : Prop where
  rip : c.rip = a
  code : CodeAt v.fetch a (spawnWaitText a)

namespace Asking

variable {a : Word} {c c' : Core} {v v' : View}

/-- **Its first call** is `SYS_SPAWN`. -/
theorem exists_ask (h : Asking a c v) : ∃ c', Interrupts v.fetch 0x80 c c' ∧
    arguments c'.reg = (number sysSpawnNumber, a + 121, 9, 0) ∧ c'.reg rcx = 0 := by
  have hcode := (codeAt_append.1 (codeAt_append.1 h.code).1).1
  have hcall := interrupts_of_piece [] rfl hcode (h.rip.trans (BitVec.add_zero a).symm)
  exact ⟨_, hcall, rfl, rfl⟩

/-- The path is there. -/
theorem load_path (h : Asking a c v) (hpage : a.toNat + 4096 ≤ 0x800000000000) :
    v.load (a + 121).toNat 9 = some greetElf := by
  have haddr : (a + 121).toNat = a.toNat + 121 :=
    OpenReading.toNat_add_of_lower hpage (by decide)
  have hpath : CodeAt v.fetch (a + 121) spawnWaitChildPath :=
    (codeAt_append.1 (codeAt_append.1 h.code).1).2
  have hload := View.load_of_codeAt (by omega) (by omega)
    (by rw [length_spawnWaitChildPath]; omega) hpath
  rwa [length_spawnWaitChildPath, map_spawnWaitChildPath] at hload

/-- **The run**: nothing is printed, and the call is still to be made. -/
theorem of_trace {reads : Set ReadFile} {ls : List Label} (h : Asking a c v)
    (htrace : Trace (View.Step reads) (c, v) ls (c', v')) :
    Asking a c' v' ∧ Label.text ls = [] := by
  refine View.trace_of_blocked (P := Asking a) (fun b hasking => ?_) ?_ h htrace
  · exact ⟨hasking.rip, hasking.code⟩
  · -- its call is not one that concerns the caller alone
    intro c c' v v' readFile result text hasking hint hown hcall
    obtain ⟨d, hint', hargs, -⟩ := hasking.exists_ask
    obtain rfl := hint.unique hint'
    exact hown.1 (congrArg (UInt64.ofBitVec ∘ Prod.fst) hargs)

end Asking

/-! ## The demo in the system -/

/-- The page of the spawn/wait demo, if the window on physical memory is not there. -/
theorem demoPage_spawnWaitDemoAddr {off : Fin 512} (hoff : off ≠ 248) :
    World.DemoPage off spawnWaitDemoAddr :=
  .of_entry (by decide) (by decide) (by decide) (by decide) hoff

/-- **The spawn/wait demo asks for `GREET.ELF`.**  In any system that has been reached, if
`spawn_spawn_wait_demo` returns, there is a new thread with a space of its own; and from where
`run_spawn_wait_demo` enters ring 3, whatever else happens in the system, the program has printed
nothing.  Whenever its thread runs, it gets to its call of `SYS_SPAWN`, and that call is
`spawn_from_path` of `GREET.ELF` without arguments, under the kernel's page table. -/
theorem spawn_wait_demo_asks (env : SpawnEnv) {mapTo : MapTo BootInfoFrameAllocator}
    {map : MemoryMap} {cr3 : PhysFrame} {m₀ : Machine BootInfoFrameAllocator} {w : World}
    {stackBase : ℕ} {entry : Entry} {pid : Option Pid} {system : System BootInfoFrameAllocator}
    (hmap : MapTo.Documented bootInfo mapTo) (hboot : Booted map cr3 m₀)
    (hk : World.KernelOnly env.off m₀.mem cr3)
    (hreach : Runs.Reach (World.Event.step mapTo cr3 env.off) (World.Admitted cr3 env.off m₀)
      (World.start cr3 m₀) w)
    (hblock : HeapBlock stackBase) (hoff : env.off ≠ 248) {rooms : Set ℕ}
    (hspawn : w.toSystem.spawnSpawnWaitDemo bootInfo mapTo cr3 env.off stackBase entry true =
      .ok (pid, system)) :
    ∃ i s, ({ w with toSystem := system } : World).space (.thread i) = some s ∧
      ∀ r : Running, r.world = { w with toSystem := system } → RunsDemo spawnWaitDemoAddr r.core →
        ∀ ls r', Trace (Running.Step mapTo env rooms cr3 m₀ i s.l4) r ls r' →
          Label.text ls = [] ∧
          (r'.world.sched.current = i → ∃ c,
            Interrupts (r'.view i s.l4).fetch 0x80 r'.core c ∧ callNumber c = sysSpawnNumber ∧
            (r'.callState s.l4).toSyscallState.sysSpawn bootInfo mapTo env (c.reg rdi).toNat
                (c.reg rsi).toNat (c.reg rdx).toNat (c.reg rcx).toNat =
              (r'.callState s.l4).toSyscallState.spawnUnderKernelTable bootInfo mapTo env greetElf
                []) := by
  have hguarded := World.guarded_of_events hmap hboot hk hreach
  have hend : spawnWaitDemoAddr.toNat + 130 < 0x10000000000000000 := by decide
  obtain ⟨code, i, s, hbuild, -, hreach', hstarted⟩ := hguarded.started hmap hboot hk hblock
    (demoPage_spawnWaitDemoAddr hoff) (fun code hbuild => by
      rw [buildSpawnWaitShellcode_eq hend] at hbuild
      rw [← Except.ok.inj hbuild, length_spawnWaitText]
      decide) hspawn
  rw [buildSpawnWaitShellcode_eq hend] at hbuild
  obtain rfl := Except.ok.inj hbuild
  refine ⟨i, s, hstarted.space, fun r hr hruns ls r' htrace => ?_⟩
  have hhosted : r.Hosted mapTo env rooms map cr3 m₀ i s :=
    hstarted.hosted env rooms hmap hboot hk (hreach.trans hreach') hr
  have hfits : spawnWaitDemoAddr.toNat + (spawnWaitText spawnWaitDemoAddr).length ≤
      0x10000000000000000 := by
    rw [length_spawnWaitText]
    decide
  have hstart : Asking spawnWaitDemoAddr r.core (r.view i s.l4) :=
    ⟨hruns.1, hstarted.codeAt hfits hr⟩
  obtain ⟨hsound, htrace'⟩ := hhosted.sound.trace hmap hboot hk htrace
  obtain ⟨hasking, htext⟩ := hstart.of_trace htrace'
  refine ⟨htext, fun hrun => ?_⟩
  obtain ⟨c, hint, hargs, hrcx⟩ := hasking.exists_ask
  rw [arguments, Prod.mk.injEq, Prod.mk.injEq, Prod.mk.injEq] at hargs
  obtain ⟨hrax, hrdi, hrsi, hrdx⟩ := hargs
  refine ⟨c, hint, by rw [callNumber, hrax], ?_⟩
  -- the path is copied from the page of the program
  have hpath : copyFromUser (r'.callState s.l4).machine.mem (r'.callState s.l4).cr3
      (spawnWaitDemoAddr + 121).toNat 9 = .ok (some greetElf) := by
    rw [copyFromUser_eq_load _ (hsound.served hboot hk hrun).space (by decide) (by decide),
      Running.view_callState hrun, hasking.load_path (by decide)]
  rw [hrdi, hrsi, hrdx, hrcx]
  exact SyscallState.sysSpawn_of_path (by decide) hpath validUtf8_greetElf _
