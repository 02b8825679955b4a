/-
# Radix trees in a heap

A heap of nodes, each an array of entries: `heap n i` is entry `i` of node `n`.  An
entry is read through `next`, which says which node it leads to, if any.  Following
the entries named by a list of indices is a `walk`.

The file says how walks change when the heap does:

* not at all, when no entry on the way changes where it leads (`walk_congr`);
* by exactly one new path, when a node that was not reachable is linked into an
  empty entry (`walk_graft`).

A walk is a *tree to depth `d`* when no node is reached by two different paths of at
most that length (`TreeTo`).  Grafting keeps it so.  A path *ends in a hole* when its
walk meets an unused entry (`Holed`): these are the paths at which something new can
be inserted, and filling a hole removes precisely one of them (`holed_leaf_iff`).
`postorder` lists the nodes of a tree with their paths.

Nothing here depends on what nodes, indices and entries are.
-/
import Mathlib

namespace RadixHeap

variable {N I E : Type*} {next : E → Option N} {heap heap' : N → I → E} {r n c x : N} {i : I}
  {path : List I} {d : ℕ}

/-! ## Walks -/

/-- The node reached from `n` by following the entries named by a path. -/
def walk (next : E → Option N) (heap : N → I → E) : N → List I → Option N
  | n, [] => some n
  | n, i :: path => (next (heap n i)).bind fun m => walk next heap m path

@[simp] theorem walk_nil : walk next heap n [] = some n := rfl

theorem walk_cons : walk next heap n (i :: path) =
    (next (heap n i)).bind fun m => walk next heap m path := rfl

theorem walk_append {path' : List I} : walk next heap n (path ++ path') =
    (walk next heap n path).bind fun m => walk next heap m path' := by
  induction path generalizing n with
  | nil => rfl
  | cons i path ih =>
    rw [List.cons_append, walk_cons, walk_cons, Option.bind_assoc]
    congr 1
    funext m
    exact ih

/-- The last step of a walk. -/
theorem walk_concat : walk next heap n (path ++ [i]) =
    (walk next heap n path).bind fun m => next (heap m i) := by
  rw [walk_append]
  congr 1
  funext m
  rw [walk_cons]
  exact Option.bind_fun_some _

theorem walk_concat_eq_some : walk next heap n (path ++ [i]) = some x ↔
    ∃ m, walk next heap n path = some m ∧ next (heap m i) = some x := by
  rw [walk_concat, Option.bind_eq_some_iff]

/-- A walk that goes on got this far. -/
theorem exists_of_walk_append {path' : List I} (h : walk next heap n (path ++ path') = some x) :
    ∃ m, walk next heap n path = some m ∧ walk next heap m path' = some x := by
  rwa [walk_append, Option.bind_eq_some_iff] at h

/-- Walks up to depth `d` depend only on the nodes reached before the last step. -/
theorem walk_congr
    (h : ∀ ρ x, ρ.length < d → walk next heap r ρ = some x →
      ∀ j, next (heap' x j) = next (heap x j)) (hlen : path.length ≤ d) :
    walk next heap' r path = walk next heap r path := by
  induction path using List.reverseRecOn with
  | nil => rfl
  | append_singleton ρ j ih =>
    rw [List.length_append, List.length_singleton] at hlen
    rw [walk_concat, walk_concat, ih (by omega)]
    cases hw : walk next heap r ρ with
    | none => rfl
    | some m => exact h ρ m (by omega) hw j

/-- A walk survives when every entry on it still leads where it led. -/
theorem walk_mono {next' : E → Option N}
    (h : ∀ ρ j y z, ρ ++ [j] <+: path → walk next heap r ρ = some y → next (heap y j) = some z →
      next' (heap' y j) = some z) (hw : walk next heap r path = some x) :
    walk next' heap' r path = some x := by
  induction path using List.reverseRecOn generalizing x with
  | nil => exact hw
  | append_singleton ρ j ih =>
    obtain ⟨m, hm, hx⟩ := walk_concat_eq_some.1 hw
    refine walk_concat_eq_some.2 ⟨m, ih ?_ hm, h ρ j m x (List.prefix_refl _) hm hx⟩
    intro ρ' j' y z hpre
    exact h ρ' j' y z (hpre.trans (List.prefix_append _ _))

theorem length_lt_of_isPrefix_concat {ρ : List I} {j : I} (h : ρ ++ [j] <+: path) :
    ρ.length < path.length := by
  have hle := h.length_le
  rw [List.length_append, List.length_singleton] at hle
  omega

/-! ## Grafting a node -/

/-- `heap'` is `heap` with node `c`, whatever it contains, linked into the empty entry `i` of
node `n`. -/
structure Graft (next : E → Option N) (heap heap' : N → I → E) (n : N) (i : I) (c : N) : Prop where
  hole : next (heap n i) = none
  link : next (heap' n i) = some c
  other : ∀ x j, x ≠ c → ¬ (x = n ∧ j = i) → heap' x j = heap x j

/-- What was reached before grafting still is. -/
theorem walk_of_graft (hg : Graft next heap heap' n i c)
    (hfresh : ∀ ρ, ρ.length < d → walk next heap r ρ ≠ some c) (hlen : path.length ≤ d)
    (h : walk next heap r path = some x) : walk next heap' r path = some x := by
  refine walk_mono ?_ h
  intro ρ j m y hpre hm hy
  have hρ := length_lt_of_isPrefix_concat hpre
  have hmc : m ≠ c := fun hc => hfresh ρ (by omega) (hc ▸ hm)
  have hni : ¬ (m = n ∧ j = i) := by
    rintro ⟨rfl, rfl⟩
    rw [hg.hole] at hy
    cases hy
  rw [hg.other m j hmc hni]
  exact hy

/-- **Grafting adds one path** to the walks of length at most `d`, if the new node was not
reached before and either leads nowhere or is beyond that depth. -/
theorem walk_graft (hg : Graft next heap heap' n i c)
    (hfresh : ∀ ρ, ρ.length < d → walk next heap r ρ ≠ some c)
    (hend : (∀ j, next (heap' c j) = none) ∨
      ∀ ρ, walk next heap r ρ = some n → d ≤ ρ.length + 1)
    (hlen : path.length ≤ d) :
    walk next heap' r path = some x ↔
      walk next heap r path = some x ∨
        (x = c ∧ ∃ ρ, path = ρ ++ [i] ∧ walk next heap r ρ = some n) := by
  constructor
  · intro h
    induction path using List.reverseRecOn generalizing x with
    | nil => exact Or.inl h
    | append_singleton ρ j ih =>
      rw [List.length_append, List.length_singleton] at hlen
      have hρ : ρ.length < d := by omega
      obtain ⟨m, hm, hx⟩ := walk_concat_eq_some.1 h
      rcases ih (by omega) hm with hm | ⟨rfl, ρ', rfl, hn⟩
      · have hmc : m ≠ c := fun hc => hfresh ρ hρ (hc ▸ hm)
        by_cases hni : m = n ∧ j = i
        · obtain ⟨rfl, rfl⟩ := hni
          rw [hg.link] at hx
          exact Or.inr ⟨(Option.some.inj hx).symm, ρ, rfl, hm⟩
        · rw [hg.other m j hmc hni] at hx
          exact Or.inl (walk_concat_eq_some.2 ⟨m, hm, hx⟩)
      · -- the walk went through the new node, which leads nowhere or is too deep
        rcases hend with hend | hend
        · rw [hend j] at hx
          cases hx
        · have := hend ρ' hn
          rw [List.length_append, List.length_singleton] at hρ
          omega
  · rintro (h | ⟨rfl, ρ, rfl, hn⟩)
    · exact walk_of_graft hg hfresh hlen h
    · rw [List.length_append, List.length_singleton] at hlen
      exact walk_concat_eq_some.2 ⟨n, walk_of_graft hg hfresh (by omega) hn, hg.link⟩

/-! ## Trees -/

/-- No node is reached by two paths of length at most `d`. -/
def TreeTo (next : E → Option N) (heap : N → I → E) (r : N) (d : ℕ) : Prop :=
  ∀ π ρ x, π.length ≤ d → ρ.length ≤ d → walk next heap r π = some x →
    walk next heap r ρ = some x → π = ρ

/-- Grafting an unreached node that leads nowhere keeps a tree a tree. -/
theorem TreeTo.graft (ht : TreeTo next heap r d) (hg : Graft next heap heap' n i c)
    (hfresh : ∀ ρ, ρ.length ≤ d → walk next heap r ρ ≠ some c)
    (hend : ∀ j, next (heap' c j) = none) : TreeTo next heap' r d := by
  have key : ∀ {π x}, π.length ≤ d → (walk next heap' r π = some x ↔
      walk next heap r π = some x ∨ (x = c ∧ ∃ ρ, π = ρ ++ [i] ∧ walk next heap r ρ = some n)) :=
    fun hlen => walk_graft hg (fun ρ hρ => hfresh ρ hρ.le) (Or.inl hend) hlen
  intro π ρ x hπ hρ h₁ h₂
  rw [key hπ] at h₁
  rw [key hρ] at h₂
  rcases h₁ with h₁ | ⟨rfl, π', rfl, h₁⟩
  · rcases h₂ with h₂ | ⟨rfl, -⟩
    · exact ht π ρ x hπ hρ h₁ h₂
    · exact absurd h₁ (hfresh π hπ)
  · rcases h₂ with h₂ | ⟨-, ρ', rfl, h₂⟩
    · exact absurd h₂ (hfresh ρ hρ)
    · rw [List.length_append, List.length_singleton] at hπ hρ
      rw [ht π' ρ' n (by omega) (by omega) h₁ h₂]

/-- Linking a leaf at depth `d` changes no walk up to that depth. -/
theorem TreeTo.walk_leaf {ρ₀ : List I} (ht : TreeTo next heap r d)
    (hg : Graft next heap heap' n i c) (hfresh : ∀ ρ, ρ.length ≤ d → walk next heap r ρ ≠ some c)
    (hn : walk next heap r ρ₀ = some n) (hρ₀ : ρ₀.length = d) (hlen : path.length ≤ d) :
    walk next heap' r path = walk next heap r path := by
  refine walk_congr ?_ hlen
  intro ρ x hρ hx j
  have hxc : x ≠ c := fun hc => hfresh ρ hρ.le (hc ▸ hx)
  have hni : ¬ (x = n ∧ j = i) := by
    rintro ⟨rfl, -⟩
    rw [ht ρ ρ₀ x hρ.le hρ₀.le hx hn] at hρ
    omega
  rw [hg.other x j hxc hni]

/-- A heap in which every node but the root has one entry leading to it, and the root none, is a
tree to any depth. -/
theorem treeTo_of_parents
    (hparent : ∀ x j x' j' y, next (heap x j) = some y → next (heap x' j') = some y →
      x = x' ∧ j = j')
    (hroot : ∀ x j, next (heap x j) ≠ some r) : TreeTo next heap r d := by
  intro π ρ x hπ hρ h₁ h₂
  clear hπ hρ
  induction π using List.reverseRecOn generalizing ρ x with
  | nil =>
    obtain rfl := Option.some.inj h₁
    cases ρ using List.reverseRecOn with
    | nil => rfl
    | append_singleton ρ j =>
      obtain ⟨y, -, hy⟩ := walk_concat_eq_some.1 h₂
      exact absurd hy (hroot y j)
  | append_singleton π i ih =>
    obtain ⟨y, hy, hx⟩ := walk_concat_eq_some.1 h₁
    cases ρ using List.reverseRecOn with
    | nil =>
      obtain rfl := Option.some.inj h₂
      exact absurd hx (hroot y i)
    | append_singleton ρ j =>
      obtain ⟨z, hz, hx'⟩ := walk_concat_eq_some.1 h₂
      obtain ⟨rfl, rfl⟩ := hparent y i z j x hx hx'
      rw [ih ρ y hy hz]

/-- Where every entry leads one level down, a walk ends as many levels down as it is long. -/
theorem depth_of_walk (depth : N → ℕ)
    (hdepth : ∀ x j y, next (heap x j) = some y → depth y = depth x + 1)
    (h : walk next heap n path = some x) : depth x = depth n + path.length := by
  induction path generalizing n with
  | nil =>
    obtain rfl := Option.some.inj h
    rfl
  | cons i path ih =>
    rw [walk_cons, Option.bind_eq_some_iff] at h
    obtain ⟨m, hm, h⟩ := h
    rw [ih h, hdepth n i m hm, List.length_cons]
    omega

/-- Changes that lead to the same nodes keep a tree a tree. -/
theorem TreeTo.congr (ht : TreeTo next heap r d)
    (h : ∀ π, π.length ≤ d → walk next heap' r π = walk next heap r π) :
    TreeTo next heap' r d := by
  intro π ρ x hπ hρ h₁ h₂
  rw [h π hπ] at h₁
  rw [h ρ hρ] at h₂
  exact ht π ρ x hπ hρ h₁ h₂

/-! ## Holes -/

/-- The walk along the path meets an unused entry. -/
def Holed (unused : E → Prop) (next : E → Option N) (heap : N → I → E) (r : N) (path : List I) :
    Prop :=
  ∃ ρ i rest n, path = ρ ++ i :: rest ∧ walk next heap r ρ = some n ∧ unused (heap n i)

variable {unused : E → Prop}

/-- Changes that lead to the same nodes and use no further entry keep the holes. -/
theorem Holed.congr (hwalk : ∀ ρ, ρ.length < path.length →
      walk next heap' r ρ = walk next heap r ρ)
    (hentry : ∀ ρ x j, ρ.length < path.length → walk next heap r ρ = some x →
      (unused (heap' x j) ↔ unused (heap x j))) :
    Holed unused next heap' r path ↔ Holed unused next heap r path := by
  constructor
  · rintro ⟨ρ, i, rest, n, rfl, hn, hu⟩
    have hlt : ρ.length < (ρ ++ i :: rest).length := by simp
    rw [hwalk ρ hlt] at hn
    exact ⟨ρ, i, rest, n, rfl, hn, (hentry ρ n i hlt hn).1 hu⟩
  · rintro ⟨ρ, i, rest, n, rfl, hn, hu⟩
    have hlt : ρ.length < (ρ ++ i :: rest).length := by simp
    refine ⟨ρ, i, rest, n, rfl, ?_, (hentry ρ n i hlt hn).2 hu⟩
    rw [hwalk ρ hlt]
    exact hn

/-- A hole that grafting does not fill stays one. -/
theorem Holed.of_other (hg : Graft next heap heap' n i c)
    (hfresh : ∀ ρ, ρ.length ≤ d → walk next heap r ρ ≠ some c) {ρ rest : List I} {j : I} {m : N}
    (hlen : ρ.length ≤ d) (hm : walk next heap r ρ = some m) (hu : unused (heap m j))
    (hne : ¬ (m = n ∧ j = i)) : Holed unused next heap' r (ρ ++ j :: rest) := by
  have hmc : m ≠ c := fun hc => hfresh ρ hlen (hc ▸ hm)
  refine ⟨ρ, j, rest, m, rfl, ?_, ?_⟩
  · exact walk_of_graft hg (fun ρ hρ => hfresh ρ hρ.le) hlen hm
  · rw [hg.other m j hmc hne]
    exact hu

/-- A hole met after grafting, at a node that was there before, was one before. -/
theorem Graft.unused_of_other (hnext : ∀ e, unused e → next e = none)
    (hg : Graft next heap heap' n i c) {m : N} {j : I} (hmc : m ≠ c) (hu : unused (heap' m j)) :
    ¬ (m = n ∧ j = i) ∧ unused (heap m j) := by
  have hni : ¬ (m = n ∧ j = i) := by
    rintro ⟨rfl, rfl⟩
    have hlink := hg.link
    rw [hnext _ hu] at hlink
    cases hlink
  rw [hg.other m j hmc hni] at hu
  exact ⟨hni, hu⟩

/-- A hole is in the first entry or below it. -/
theorem holed_cons_iff : Holed unused next heap r (i :: path) ↔
    unused (heap r i) ∨ ∃ m, next (heap r i) = some m ∧ Holed unused next heap m path := by
  constructor
  · rintro ⟨ρ, j, rest, n, hpath, hn, hu⟩
    cases ρ with
    | nil =>
      obtain ⟨rfl, -⟩ := List.cons.inj hpath
      obtain rfl := Option.some.inj hn
      exact Or.inl hu
    | cons i' ρ =>
      obtain ⟨rfl, rfl⟩ := List.cons.inj hpath
      rw [walk_cons, Option.bind_eq_some_iff] at hn
      obtain ⟨m, hm, hn⟩ := hn
      exact Or.inr ⟨m, hm, ρ, j, rest, n, rfl, hn, hu⟩
  · rintro (hu | ⟨m, hm, ρ, j, rest, n, rfl, hn, hu⟩)
    · exact ⟨[], i, path, r, rfl, rfl, hu⟩
    · refine ⟨i :: ρ, j, rest, n, rfl, ?_, hu⟩
      rw [walk_cons, hm]
      exact hn

/-- A path that can be walked has no hole. -/
theorem not_holed_of_walk (hnext : ∀ e, unused e → next e = none)
    (h : walk next heap r path = some x) : ¬ Holed unused next heap r path := by
  rintro ⟨ρ, i, rest, n, rfl, hn, hu⟩
  obtain ⟨m, hm, hrest⟩ := exists_of_walk_append h
  rw [hn] at hm
  obtain rfl := Option.some.inj hm
  rw [walk_cons, hnext _ hu] at hrest
  cases hrest

/-- On a path that ends in a hole, the walk stands before the hole or can go on. -/
theorem Holed.of_walk (hnext : ∀ e, unused e → next e = none) {ρ rest : List I}
    (h : Holed unused next heap r (ρ ++ i :: rest)) (hn : walk next heap r ρ = some n) :
    unused (heap n i) ∨ ∃ m, next (heap n i) = some m := by
  obtain ⟨ρ', j, rest', m, hpath, hm, hu⟩ := h
  rcases List.append_eq_append_iff.1 hpath with ⟨a, rfl, ha⟩ | ⟨a, rfl, ha⟩
  · cases a with
    | nil =>
      rw [List.append_nil, hn] at hm
      obtain rfl := Option.some.inj hm
      rw [(List.cons.inj ha).1]
      exact Or.inl hu
    | cons i' a =>
      -- the hole is further down
      obtain ⟨rfl, -⟩ := List.cons.inj ha
      obtain ⟨y, hy, hrest⟩ := exists_of_walk_append hm
      rw [hn] at hy
      obtain rfl := Option.some.inj hy
      rw [walk_cons, Option.bind_eq_some_iff] at hrest
      obtain ⟨c, hc, -⟩ := hrest
      exact Or.inr ⟨c, hc⟩
  · cases a with
    | nil =>
      rw [List.append_nil, hm] at hn
      obtain rfl := Option.some.inj hn
      rw [← (List.cons.inj ha).1]
      exact Or.inl hu
    | cons j' a =>
      -- the hole would have stopped the walk
      obtain ⟨rfl, -⟩ := List.cons.inj ha
      exact absurd ⟨ρ', j, a, m, rfl, hm, hu⟩ (not_holed_of_walk hnext hn)

section Fill

variable (hnext : ∀ e, unused e → next e = none) (hg : Graft next heap heap' n i c)
  (hfresh : ∀ ρ, ρ.length ≤ d → walk next heap r ρ ≠ some c)
include hnext hg hfresh

/-- **Grafting an empty node** strictly inside the tree fills no path: where a hole was,
the new node has one for each way to go on. -/
theorem holed_graft_iff (hhole : unused (heap n i)) (hempty : ∀ j, unused (heap' c j))
    (hdepth : ∀ ρ, ρ.length ≤ d → walk next heap r ρ = some n → ρ.length < d)
    (hlen : path.length = d + 1) :
    Holed unused next heap' r path ↔ Holed unused next heap r path := by
  have hend : ∀ j, next (heap' c j) = none := fun j => hnext _ (hempty j)
  constructor
  · rintro ⟨ρ, j, rest, m, rfl, hm, hu⟩
    have hρ : ρ.length ≤ d := by
      rw [List.length_append, List.length_cons] at hlen
      omega
    rcases (walk_graft hg (fun ρ hρ => hfresh ρ hρ.le) (Or.inl hend) hρ).1 hm with
      hm | ⟨rfl, ρ', rfl, hn⟩
    · have hmc : m ≠ c := fun hc => hfresh ρ hρ (hc ▸ hm)
      exact ⟨ρ, j, rest, m, rfl, hm, (hg.unused_of_other hnext hmc hu).2⟩
    · exact ⟨ρ', i, j :: rest, n, by simp, hn, hhole⟩
  · rintro ⟨ρ, j, rest, m, rfl, hm, hu⟩
    rw [List.length_append, List.length_cons] at hlen
    have hρ : ρ.length ≤ d := by omega
    by_cases hni : m = n ∧ j = i
    · obtain ⟨rfl, rfl⟩ := hni
      -- the hole now leads to the new node, whose entries are all unused
      have hlt := hdepth ρ hρ hm
      cases rest with
      | nil =>
        rw [List.length_nil] at hlen
        omega
      | cons j' rest =>
        refine ⟨ρ ++ [j], j', rest, c, by simp, ?_, hempty j'⟩
        have hm' := walk_of_graft hg (fun ρ hρ => hfresh ρ hρ.le) hρ hm
        exact walk_concat_eq_some.2 ⟨m, hm', hg.link⟩
    · exact Holed.of_other hg hfresh hρ hm hu hni

/-- **Filling a leaf** of a tree closes exactly one path. -/
theorem holed_leaf_iff {ρ₀ : List I} (ht : TreeTo next heap r d) (hn : walk next heap r ρ₀ = some n)
    (hρ₀ : ρ₀.length = d) (hlen : path.length = d + 1) :
    Holed unused next heap' r path ↔ Holed unused next heap r path ∧ path ≠ ρ₀ ++ [i] := by
  have hend : ∀ ρ, walk next heap r ρ = some n → d ≤ ρ.length + 1 := by
    intro ρ hρ
    by_contra hlt
    rw [ht ρ ρ₀ n (by omega) hρ₀.le hρ hn] at hlt
    omega
  constructor
  · rintro ⟨ρ, j, rest, m, rfl, hm, hu⟩
    rw [List.length_append, List.length_cons] at hlen
    have hρ : ρ.length ≤ d := by omega
    rcases (walk_graft hg (fun ρ hρ => hfresh ρ hρ.le) (Or.inr hend) hρ).1 hm with
      hm | ⟨rfl, ρ', rfl, hn'⟩
    · have hmc : m ≠ c := fun hc => hfresh ρ hρ (hc ▸ hm)
      obtain ⟨hni, hu⟩ := hg.unused_of_other hnext hmc hu
      refine ⟨⟨ρ, j, rest, m, rfl, hm, hu⟩, ?_⟩
      intro hpath
      -- the walk to the leaf's table would have met the hole
      rcases List.append_eq_append_iff.1 hpath with ⟨a, rfl, ha⟩ | ⟨a, rfl, ha⟩
      · cases a with
        | nil =>
          rw [List.append_nil] at hn
          rw [hm] at hn
          exact hni ⟨Option.some.inj hn, (List.cons.inj ha).1⟩
        | cons j' a =>
          obtain ⟨rfl, -⟩ := List.cons.inj ha
          rw [List.append_cons] at hn
          obtain ⟨y, hy, -⟩ := exists_of_walk_append hn
          rw [walk_concat, hm] at hy
          exact absurd (hnext _ hu) (by rw [show next (heap m j) = some y from hy]; simp)
      · cases a with
        | nil =>
          rw [List.append_nil, hn] at hm
          exact hni ⟨(Option.some.inj hm).symm, (List.cons.inj ha).1.symm⟩
        | cons j' a =>
          have hl := congrArg List.length ha
          simp at hl
    · rw [List.length_append, List.length_singleton] at hρ
      rw [ht ρ' ρ₀ n (by omega) hρ₀.le hn' hn] at hρ
      omega
  · rintro ⟨⟨ρ, j, rest, m, rfl, hm, hu⟩, hne⟩
    rw [List.length_append, List.length_cons] at hlen
    have hρ : ρ.length ≤ d := by omega
    by_cases hni : m = n ∧ j = i
    · obtain ⟨rfl, rfl⟩ := hni
      obtain rfl := ht ρ ρ₀ m hρ hρ₀.le hm hn
      have hrest : rest = [] := List.length_eq_zero_iff.1 (by omega)
      exact absurd (by rw [hrest]) hne
    · exact Holed.of_other hg hfresh hρ hm hu hni

end Fill

/-! ## Listing a tree -/

/-- The nodes reached from `n` by at most `d` steps through the given indices, each with its
path; the nodes below a node come before it. -/
def postorder (next : E → Option N) (heap : N → I → E) (indices : List I) :
    ℕ → N → List (List I × N)
  | 0, n => [([], n)]
  | d + 1, n =>
    (indices.flatMap fun i => (next (heap n i)).toList.flatMap fun m =>
      (postorder next heap indices d m).map (Prod.map (i :: ·) id)) ++ [([], n)]

section Postorder

variable {indices : List I}

/-- What is listed below one index. -/
theorem mem_below {p : List I × N} :
    p ∈ ((next (heap n i)).toList.flatMap fun m =>
      (postorder next heap indices d m).map (Prod.map (i :: ·) id)) ↔
      ∃ m ρ, next (heap n i) = some m ∧ p.1 = i :: ρ ∧
        (ρ, p.2) ∈ postorder next heap indices d m := by
  simp only [List.mem_flatMap, Option.mem_toList, List.mem_map]
  constructor
  · rintro ⟨m, hm, ⟨ρ, y⟩, hmem, rfl⟩
    exact ⟨m, ρ, hm, rfl, hmem⟩
  · rintro ⟨m, ρ, hm, hp, hmem⟩
    exact ⟨m, hm, (ρ, p.2), hmem, Prod.ext hp.symm rfl⟩

/-- Every node is listed, under every path to it. -/
theorem mem_postorder (hall : ∀ i, i ∈ indices) {π : List I} :
    (π, x) ∈ postorder next heap indices d n ↔ π.length ≤ d ∧ walk next heap n π = some x := by
  induction d generalizing n π with
  | zero =>
    rw [postorder, List.mem_singleton, Prod.mk.injEq, Nat.le_zero, List.length_eq_zero_iff]
    constructor
    · rintro ⟨rfl, rfl⟩
      exact ⟨rfl, rfl⟩
    · rintro ⟨rfl, hx⟩
      exact ⟨rfl, (Option.some.inj hx).symm⟩
  | succ d ih =>
    rw [postorder, List.mem_append, List.mem_flatMap, List.mem_singleton, Prod.mk.injEq]
    simp only [mem_below]
    constructor
    · rintro (⟨i, -, m, ρ, hm, rfl, hmem⟩ | ⟨rfl, rfl⟩)
      · obtain ⟨hlen, hx⟩ := ih.1 hmem
        refine ⟨Nat.succ_le_succ hlen, ?_⟩
        rw [walk_cons, hm]
        exact hx
      · exact ⟨Nat.zero_le _, rfl⟩
    · rintro ⟨hlen, hx⟩
      cases π with
      | nil => exact Or.inr ⟨rfl, (Option.some.inj hx).symm⟩
      | cons i ρ =>
        rw [walk_cons, Option.bind_eq_some_iff] at hx
        obtain ⟨m, hm, hx⟩ := hx
        exact Or.inl ⟨i, hall i, m, ρ, hm, rfl, ih.2 ⟨Nat.le_of_succ_le_succ hlen, hx⟩⟩

/-- Nothing is listed twice. -/
theorem nodup_postorder (hnodup : indices.Nodup) : (postorder next heap indices d n).Nodup := by
  induction d generalizing n with
  | zero => exact List.nodup_singleton _
  | succ d ih =>
    rw [postorder, List.nodup_append', List.nodup_flatMap]
    refine ⟨⟨?_, ?_⟩, List.nodup_singleton _, ?_⟩
    · intro i _
      cases next (heap n i) with
      | none => exact List.nodup_nil
      | some m =>
        rw [Option.toList_some, List.flatMap_singleton]
        exact ih.map (List.cons_injective.prodMap Function.injective_id)
    · refine hnodup.imp ?_
      intro i j hij p hp hp'
      obtain ⟨m, ρ, -, hπ, -⟩ := mem_below.1 hp
      obtain ⟨m', ρ', -, hπ', -⟩ := mem_below.1 hp'
      exact hij (List.cons.inj (hπ.symm.trans hπ')).1
    · intro p hp hp'
      obtain ⟨i, -, hp⟩ := List.mem_flatMap.1 hp
      obtain ⟨m, ρ, -, hπ, -⟩ := mem_below.1 hp
      rw [List.mem_singleton.1 hp'] at hπ
      cases hπ

end Postorder

end RadixHeap
