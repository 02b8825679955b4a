/-
# A pool divided among holders

Every resource of a pool is spare or in the hands of a holder, and of one only.  The rules
follow what can happen to resources: a holder is granted some that were spare (`grant`),
gives all it has back (`release`), or leaves everything to another one, who had nothing
(`handOver`).
-/
import Mathlib

namespace Shares

variable {ι α : Type*} {pool spare spare' taken : Set α} {held held' : ι → Set α} {i j : ι}

/-- **The pool is divided** into what is spare and what each holder has. -/
structure Divided (pool spare : Set α) (held : ι → Set α) : Prop where
  cover : ∀ x, x ∈ pool ↔ x ∈ spare ∨ ∃ i, x ∈ held i
  used : ∀ i, ∀ x ∈ held i, x ∉ spare
  apart : ∀ i j x, x ∈ held i → x ∈ held j → i = j

namespace Divided

/-- At the start everything is spare. -/
theorem start (pool : Set α) (h : ∀ i, held i = ∅) : Divided pool pool held where
  cover := by simp [h]
  used := by simp [h]
  apart := by simp [h]

theorem spare_subset (h : Divided pool spare held) : spare ⊆ pool :=
  fun x hx => (h.cover x).2 (Or.inl hx)

theorem held_subset (h : Divided pool spare held) (i : ι) : held i ⊆ pool :=
  fun x hx => (h.cover x).2 (Or.inr ⟨i, hx⟩)

/-- A holder is granted some of what is spare. -/
theorem grant (h : Divided pool spare held) (htaken : taken ⊆ spare)
    (hspare : spare' = spare \ taken) (hi : held' i = held i ∪ taken)
    (hother : ∀ j, j ≠ i → held' j = held j) : Divided pool spare' held' := by
  -- what a holder has now, it had before, or it is the one and was granted it
  have hold : ∀ j x, x ∈ held' j → x ∈ held j ∨ (j = i ∧ x ∈ taken) := by
    intro j x hx
    by_cases hj : j = i
    · subst hj
      rw [hi] at hx
      exact hx.imp_right fun hx => ⟨rfl, hx⟩
    · rw [hother j hj] at hx
      exact Or.inl hx
  have hkeep : ∀ j x, x ∈ held j → x ∈ held' j := by
    intro j x hx
    by_cases hj : j = i
    · subst hj
      rw [hi]
      exact Or.inl hx
    · rwa [hother j hj]
  refine ⟨?_, ?_, ?_⟩
  · intro x
    rw [h.cover, hspare]
    constructor
    · rintro (hx | ⟨j, hj⟩)
      · by_cases ht : x ∈ taken
        · exact Or.inr ⟨i, by rw [hi]; exact Or.inr ht⟩
        · exact Or.inl ⟨hx, ht⟩
      · exact Or.inr ⟨j, hkeep j x hj⟩
    · rintro (hx | ⟨j, hj⟩)
      · exact Or.inl hx.1
      · rcases hold j x hj with hj | ⟨-, ht⟩
        · exact Or.inr ⟨j, hj⟩
        · exact Or.inl (htaken ht)
  · intro j x hx hc
    rw [hspare] at hc
    rcases hold j x hx with hx | ⟨-, ht⟩
    · exact h.used j x hx hc.1
    · exact hc.2 ht
  · intro j k x hj hk
    rcases hold j x hj with hj | ⟨rfl, hj⟩
    · rcases hold k x hk with hk | ⟨-, hk⟩
      · exact h.apart j k x hj hk
      · exact absurd (htaken hk) (h.used j x hj)
    · rcases hold k x hk with hk | ⟨rfl, -⟩
      · exact absurd (htaken hj) (h.used k x hk)
      · rfl

/-- A holder gives back all it has. -/
theorem release (h : Divided pool spare held) (hspare : spare' = spare ∪ held i)
    (hi : held' i = ∅) (hother : ∀ j, j ≠ i → held' j = held j) : Divided pool spare' held' := by
  have hold : ∀ j x, x ∈ held' j → j ≠ i ∧ x ∈ held j := by
    intro j x hx
    by_cases hj : j = i
    · rw [hj, hi] at hx
      exact hx.elim
    · rw [hother j hj] at hx
      exact ⟨hj, hx⟩
  refine ⟨?_, ?_, ?_⟩
  · intro x
    rw [h.cover, hspare]
    constructor
    · rintro (hx | ⟨j, hj⟩)
      · exact Or.inl (Or.inl hx)
      · by_cases hji : j = i
        · exact Or.inl (Or.inr (hji ▸ hj))
        · exact Or.inr ⟨j, by rwa [hother j hji]⟩
    · rintro ((hx | hx) | ⟨j, hj⟩)
      · exact Or.inl hx
      · exact Or.inr ⟨i, hx⟩
      · exact Or.inr ⟨j, (hold j x hj).2⟩
  · intro j x hx hc
    obtain ⟨hne, hx⟩ := hold j x hx
    rw [hspare] at hc
    rcases hc with hc | hc
    · exact h.used j x hx hc
    · exact hne (h.apart j i x hx hc)
  · intro j k x hj hk
    exact h.apart j k x (hold j x hj).2 (hold k x hk).2

/-- A holder leaves all it has to another one, who had nothing. -/
theorem handOver (h : Divided pool spare held) (hempty : held j = ∅) (hi : held' i = ∅)
    (hj : held' j = held i) (hother : ∀ k, k ≠ i → k ≠ j → held' k = held k) :
    Divided pool spare held' := by
  have hold : ∀ k x, x ∈ held' k → (k = j ∧ x ∈ held i) ∨ (k ≠ i ∧ k ≠ j ∧ x ∈ held k) := by
    intro k x hx
    by_cases hkj : k = j
    · subst hkj
      rw [hj] at hx
      exact Or.inl ⟨rfl, hx⟩
    · by_cases hki : k = i
      · rw [hki, hi] at hx
        exact hx.elim
      · rw [hother k hki hkj] at hx
        exact Or.inr ⟨hki, hkj, hx⟩
  refine ⟨?_, ?_, ?_⟩
  · intro x
    rw [h.cover]
    refine or_congr_right ⟨?_, ?_⟩
    · rintro ⟨k, hk⟩
      by_cases hki : k = i
      · exact ⟨j, by rw [hj, ← hki]; exact hk⟩
      · by_cases hkj : k = j
        · rw [hkj, hempty] at hk
          exact hk.elim
        · exact ⟨k, by rwa [hother k hki hkj]⟩
    · rintro ⟨k, hk⟩
      rcases hold k x hk with ⟨-, hx⟩ | ⟨-, -, hx⟩
      · exact ⟨i, hx⟩
      · exact ⟨k, hx⟩
  · intro k x hx
    rcases hold k x hx with ⟨-, hx⟩ | ⟨-, -, hx⟩
    · exact h.used i x hx
    · exact h.used k x hx
  · intro k l x hk hl
    rcases hold k x hk with ⟨rfl, hk⟩ | ⟨hki, -, hk⟩
    · rcases hold l x hl with ⟨rfl, -⟩ | ⟨hli, -, hl⟩
      · rfl
      · exact absurd (h.apart l i x hl hk) hli
    · rcases hold l x hl with ⟨-, hl⟩ | ⟨-, -, hl⟩
      · exact absurd (h.apart k i x hk hl) hki
      · exact h.apart k l x hk hl

end Divided

end Shares
