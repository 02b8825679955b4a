/-
# Traces

Systems with labelled steps.  A step without a label is silent: it is there, and nobody observes it.
A trace is a run together with the labels of its steps.

* `Trace.invariant` is the induction rule, for a property of the labels so far and the state;
* `Trace.refines` is the rule for refinement mappings: where every step with a label is one of a
  second system under the mapping, and the silent ones do not show, the traces of the first system
  are traces of the second.
-/
import Mathlib.Data.List.Basic
import Mathlib.Tactic

namespace Traces

variable {S A L : Type*}

/-- A run, with the labels of its steps. -/
inductive Trace (step : S → Option L → S → Prop) (s : S) : List L → S → Prop
  | refl : Trace step s [] s
  | tail {t u : S} {ls : List L} {l : Option L} :
      Trace step s ls t → step t l u → Trace step s (ls ++ l.toList) u

variable {step : S → Option L → S → Prop} {s t u : S} {ls ls' : List L}

/-- One step with a label. -/
theorem Trace.single {l : L} (h : step s (some l) t) : Trace step s [l] t :=
  Trace.refl.tail h

/-- Runs compose. -/
theorem Trace.trans (h₁ : Trace step s ls t) (h₂ : Trace step t ls' u) :
    Trace step s (ls ++ ls') u := by
  induction h₂ with
  | refl =>
    rw [List.append_nil]
    exact h₁
  | tail _ hs ih =>
    rw [← List.append_assoc]
    exact ih.tail hs

/-- **The invariant rule.** -/
theorem Trace.invariant {P : List L → S → Prop} (h : Trace step s ls t) (h0 : P [] s)
    (hstep : ∀ ls l t u, P ls t → step t l u → P (ls ++ l.toList) u) : P ls t := by
  induction h with
  | refl => exact h0
  | tail _ hs ih => exact hstep _ _ _ _ ih hs

/-- **Refinement mappings**, on the states that meet an invariant. -/
theorem Trace.refines {abs : S → A} {step' : A → Option L → A → Prop} {I : S → Prop}
    (h : Trace step s ls t) (h0 : I s) (hkeep : ∀ t l u, I t → step t l u → I u)
    (hvisible : ∀ t l u, I t → step t (some l) u → step' (abs t) (some l) (abs u))
    (hsilent : ∀ t u, I t → step t none u → abs u = abs t) :
    I t ∧ Trace step' (abs s) ls (abs t) := by
  induction h with
  | refl => exact ⟨h0, .refl⟩
  | @tail t u ls l _ hs ih =>
    obtain ⟨hi, htrace⟩ := ih
    refine ⟨hkeep _ _ _ hi hs, ?_⟩
    cases l with
    | none =>
      rw [hsilent _ _ hi hs, Option.toList_none, List.append_nil]
      exact htrace
    | some l => exact htrace.tail (hvisible _ _ _ hi hs)

end Traces
