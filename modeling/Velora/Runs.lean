/-
# Runs of a partial step machine

A machine is a step function `σ → α → Except ε σ`: an action either completes in
a new state or stops the machine with a reason.  Everything that a property "over
every run" needs is collected here once:

* `run` executes a list of actions, and `Reach` is the relation of the states some
  run reaches, every one of whose steps meets a side condition `cond` (the
  condition `fun _ _ => True` gives plain reachability, `Reachable`);
* `Reach.invariant` is the induction rule: what holds at the start and is kept by
  each step holds in every state reached;
* `runWhile` is the executable form of `Reach`, for concrete runs;
* `Seen` is the "somewhere along this run" modality of a property of two
  consecutive states, and `Tally` counts such pairs;
* `events` collects what the steps of a run record, and `events_invariant` is the
  invariant rule for a property of the state and of the record so far.
-/
import Mathlib

namespace Runs

variable {σ α ε : Type*}

/-- Executes the actions in order and stops at the first one that fails. -/
def run (step : σ → α → Except ε σ) : σ → List α → Except ε σ
  | s, [] => .ok s
  | s, a :: as =>
    match step s a with
    | .ok s' => run step s' as
    | .error e => .error e

/-- `Reach step cond s t`: a run whose steps all meet `cond` leads from `s` to `t`. -/
inductive Reach (step : σ → α → Except ε σ) (cond : σ → α → Prop) (s : σ) : σ → Prop
  | refl : Reach step cond s s
  | tail {t u : σ} {a : α} :
      Reach step cond s t → cond t a → step t a = .ok u → Reach step cond s u

/-- Plain reachability: no condition on the steps. -/
abbrev Reachable (step : σ → α → Except ε σ) : σ → σ → Prop :=
  Reach step (fun _ _ => True)

variable {step : σ → α → Except ε σ} {cond : σ → α → Prop} {s t u : σ}

/-- **The invariant rule.**  A property of the start that every admitted step
keeps holds in every state reached. -/
theorem Reach.invariant {I : σ → Prop} (h : Reach step cond s t) (h0 : I s)
    (hstep : ∀ t a u, I t → cond t a → step t a = .ok u → I u) : I t := by
  induction h with
  | refl => exact h0
  | tail _ hc hs ih => exact hstep _ _ _ ih hc hs

/-- The invariant rule for a relation instead of a step function. -/
theorem invariant_of_reflTransGen {r : σ → σ → Prop} {I : σ → Prop}
    (h : Relation.ReflTransGen r s t) (h0 : I s) (hstep : ∀ t u, r t u → I t → I u) : I t := by
  induction h with
  | refl => exact h0
  | tail _ hs ih => exact hstep _ _ hs ih

/-- A run that meets a condition meets every weaker one. -/
theorem Reach.mono {cond' : σ → α → Prop} (h : Reach step cond s t)
    (hcond : ∀ t a, cond t a → cond' t a) : Reach step cond' s t := by
  induction h with
  | refl => exact .refl
  | tail _ hc hs ih => exact ih.tail (hcond _ _ hc) hs

/-- Runs compose. -/
theorem Reach.trans (h₁ : Reach step cond s t) (h₂ : Reach step cond t u) :
    Reach step cond s u := by
  induction h₂ with
  | refl => exact h₁
  | tail _ hc hs ih => exact ih.tail hc hs

/-- Inversion of a nonempty run. -/
theorem run_cons_eq_ok {a : α} {as : List α} (h : run step s (a :: as) = .ok u) :
    ∃ t, step s a = .ok t ∧ run step t as = .ok u := by
  rw [run] at h
  cases hs : step s a with
  | error e => rw [hs] at h; cases h
  | ok t => rw [hs] at h; exact ⟨t, rfl, h⟩

/-- A completed run is a witness of reachability. -/
theorem reachable_of_run {as : List α} (h : run step s as = .ok t) : Reachable step s t := by
  induction as generalizing s with
  | nil => cases h; exact .refl
  | cons a as ih =>
    obtain ⟨r, hs, hr⟩ := run_cons_eq_ok h
    exact (Reach.refl.tail trivial hs).trans (ih hr)

/-- Inversion of a run in two parts. -/
theorem run_append_eq_ok {as bs : List α} (h : run step s (as ++ bs) = .ok u) :
    ∃ t, run step s as = .ok t ∧ run step t bs = .ok u := by
  induction as generalizing s with
  | nil => exact ⟨s, rfl, h⟩
  | cons a as ih =>
    obtain ⟨r, hs, hr⟩ := run_cons_eq_ok h
    obtain ⟨t, hrt, htu⟩ := ih hr
    refine ⟨t, ?_, htu⟩
    rw [run, hs]
    exact hrt

/-- `run` that also checks the side condition before every step. -/
def runWhile (step : σ → α → Except ε σ) (cond : σ → α → Prop) [∀ s a, Decidable (cond s a)] :
    σ → List α → Option σ
  | s, [] => some s
  | s, a :: as =>
    if cond s a then
      match step s a with
      | .ok s' => runWhile step cond s' as
      | .error _ => none
    else none

/-- A checked run is a witness of conditional reachability. -/
theorem reach_of_runWhile [∀ s a, Decidable (cond s a)] {as : List α}
    (h : runWhile step cond s as = some t) : Reach step cond s t := by
  induction as generalizing s with
  | nil => cases h; exact .refl
  | cons a as ih =>
    rw [runWhile] at h
    split_ifs at h with hc
    cases hs : step s a with
    | error e => rw [hs] at h; cases h
    | ok r =>
      rw [hs] at h
      exact (Reach.refl.tail hc hs).trans (ih h)

/-- A concrete run whose last state passes a test, from the evaluated test. -/
theorem exists_reach_of_any (step : σ → α → Except ε σ) (cond : σ → α → Prop)
    [∀ s a, Decidable (cond s a)] (s : σ) (as : List α) (test : σ → Bool)
    (h : (runWhile step cond s as).any test = true) :
    ∃ t, Reach step cond s t ∧ test t = true := by
  cases hr : runWhile step cond s as with
  | none => rw [hr] at h; cases h
  | some t =>
    rw [hr] at h
    exact ⟨t, reach_of_runWhile hr, h⟩

/-- A step whose result passes a test completes. -/
theorem exists_ok_of_any {x : Except ε σ} (test : σ → Bool)
    (h : x.toOption.any test = true) : ∃ u, x = .ok u ∧ test u = true := by
  cases x with
  | error e => cases h
  | ok u => exact ⟨u, rfl, h⟩

/-- The same for the last step of a concrete run, with a test of the states before and after it. -/
theorem exists_step_of_any (step : σ → α → Except ε σ) (cond : σ → α → Prop)
    [∀ s a, Decidable (cond s a)] (s : σ) (as : List α) (a : α) (test : σ → σ → Bool)
    (h : ((runWhile step cond s as).any fun t =>
      (step t a).toOption.any (test t)) = true) :
    ∃ t u, Reach step cond s t ∧ step t a = .ok u ∧ test t u = true := by
  obtain ⟨t, ht, htest⟩ := exists_reach_of_any step cond s as _ h
  obtain ⟨u, hu, htest⟩ := exists_ok_of_any (test t) htest
  exact ⟨t, u, ht, hu, htest⟩

/-- What a computation failed with. -/
def failure : Except ε σ → Option ε
  | .ok _ => none
  | .error e => some e

theorem eq_error_of_failure {x : Except ε σ} {e : ε} (h : failure x = some e) : x = .error e := by
  cases x with
  | ok s => cases h
  | error e' => exact congrArg Except.error (Option.some.inj h)

/-! ## Events along a run -/

/-- `Seen P s as`: while `as` runs from `s`, some step goes from `x` to `y` with
`P x y`. -/
def Seen (step : σ → α → Except ε σ) (P : σ → σ → Prop) : σ → List α → Prop
  | _, [] => False
  | s, a :: as =>
    match step s a with
    | .ok s' => P s s' ∨ Seen step P s' as
    | .error _ => False

/-- The number of steps of the run whose two ends satisfy `P`. -/
def Tally (step : σ → α → Except ε σ) (P : σ → σ → Bool) : σ → List α → ℕ
  | _, [] => 0
  | s, a :: as =>
    match step s a with
    | .ok s' => (if P s s' then 1 else 0) + Tally step P s' as
    | .error _ => 0

theorem seen_cons {P : σ → σ → Prop} {a : α} {as : List α} (hs : step s a = .ok t) :
    Seen step P s (a :: as) ↔ P s t ∨ Seen step P t as := by
  rw [Seen, hs]

theorem tally_cons {P : σ → σ → Bool} {a : α} {as : List α} (hs : step s a = .ok t) :
    Tally step P s (a :: as) = (if P s t then 1 else 0) + Tally step P t as := by
  rw [Tally, hs]

/-! ## The record of a run -/

section Events

variable {β : Type*} (f : σ → α → σ → List β)

/-- What the steps of a run record, in order; `f s a t` is the record of one step. -/
def events (step : σ → α → Except ε σ) (f : σ → α → σ → List β) : σ → List α → List β
  | _, [] => []
  | s, a :: as =>
    match step s a with
    | .ok s' => f s a s' ++ events step f s' as
    | .error _ => []

variable {f}

theorem events_cons {a : α} {as : List α} (hs : step s a = .ok t) :
    events step f s (a :: as) = f s a t ++ events step f t as := by
  rw [events, hs]

/-- **The invariant rule with a record.** -/
theorem events_invariant {J : σ → List β → Prop} {as : List α} (h : run step s as = .ok t)
    (h0 : J s []) (hstep : ∀ u a v log, J u log → a ∈ as → step u a = .ok v →
      J v (log ++ f u a v)) : J t (events step f s as) := by
  -- the record grows at its end, the run is taken apart at its front
  suffices key : ∀ log, J s log → J t (log ++ events step f s as) from key [] h0
  clear h0
  induction as generalizing s with
  | nil =>
    intro log hlog
    cases h
    rwa [events, List.append_nil]
  | cons a as ih =>
    intro log hlog
    obtain ⟨r, hs, hr⟩ := run_cons_eq_ok h
    rw [events_cons hs, ← List.append_assoc]
    refine ih hr ?_ _ (hstep s a r log hlog List.mem_cons_self hs)
    intro u b v log' hu hb
    exact hstep u b v log' hu (List.mem_cons_of_mem a hb)

end Events

end Runs
