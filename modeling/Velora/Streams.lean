/-
# Sequential streams

An abstract table of open streams: an owner and a handle name a stream, and the table
says what is left to read of it.  Opening a stream needs a free handle, a read takes
from the front, a close frees the handle, and an owner that leaves takes all of its
streams along.  A read or close of a handle that is not open reports so and changes
nothing.

`Trace` relates two tables by a history of such events.  The law of a session
(`Trace.session`) is the reason for the abstraction: between the opening of a stream
and its end, the reads of it together deliver a prefix of what was opened.
-/
import Mathlib

namespace Streams

variable {ω φ β : Type*}

/-- What is left to read of each open stream. -/
abbrev Table (ω φ β : Type*) := ω → φ → Option (List β)

/-- One operation together with its outcome. -/
inductive Event (ω φ β : Type*)
  | opened (owner : ω) (handle : φ) (data : List β)
  | read (owner : ω) (handle : φ) (requested : ℕ) (result : Option (List β))
  | closed (owner : ω) (handle : φ) (result : Bool)
  | left (owner : ω)
  deriving DecidableEq

variable [DecidableEq ω] [DecidableEq φ]

/-- Replaces one stream. -/
def Table.set (T : Table ω φ β) (o : ω) (h : φ) (x : Option (List β)) : Table ω φ β :=
  Function.update T o (Function.update (T o) h x)

/-- Removes all streams of an owner. -/
def Table.drop (T : Table ω φ β) (o : ω) : Table ω φ β :=
  Function.update T o (fun _ => none)

@[simp] theorem Table.set_self (T : Table ω φ β) (o : ω) (h : φ) (x : Option (List β)) :
    T.set o h x o h = x := by
  rw [Table.set, Function.update_self, Function.update_self]

theorem Table.set_of_ne (T : Table ω φ β) {o o' : ω} {h h' : φ} (x : Option (List β))
    (hne : ¬ (o' = o ∧ h' = h)) : T.set o h x o' h' = T o' h' := by
  unfold Table.set
  by_cases ho : o' = o
  · subst ho
    rw [Function.update_self, Function.update_of_ne (fun hh => hne ⟨rfl, hh⟩)]
  · rw [Function.update_of_ne ho]

omit [DecidableEq φ] in
theorem Table.drop_of_ne (T : Table ω φ β) {o o' : ω} (hne : o' ≠ o) : T.drop o o' = T o' :=
  Function.update_of_ne hne _ _

/-- **What an event does.** -/
inductive Step : Table ω φ β → Event ω φ β → Table ω φ β → Prop
  | opened {T : Table ω φ β} {o : ω} {h : φ} (data : List β) (hfree : T o h = none) :
      Step T (.opened o h data) (T.set o h (some data))
  | read {T : Table ω φ β} {o : ω} {h : φ} {rest : List β} (n : ℕ) (hopen : T o h = some rest) :
      Step T (.read o h n (some (rest.take n))) (T.set o h (some (rest.drop n)))
  | readNothing {T : Table ω φ β} {o : ω} {h : φ} (n : ℕ) (hfree : T o h = none) :
      Step T (.read o h n none) T
  | closed {T : Table ω φ β} {o : ω} {h : φ} {rest : List β} (hopen : T o h = some rest) :
      Step T (.closed o h true) (T.set o h none)
  | closedNothing {T : Table ω φ β} {o : ω} {h : φ} (hfree : T o h = none) :
      Step T (.closed o h false) T
  | left {T : Table ω φ β} (o : ω) : Step T (.left o) (T.drop o)

/-- A history. -/
inductive Trace : Table ω φ β → List (Event ω φ β) → Table ω φ β → Prop
  | nil {T : Table ω φ β} : Trace T [] T
  | cons {T U V : Table ω φ β} {e : Event ω φ β} {es : List (Event ω φ β)} :
      Step T e U → Trace U es V → Trace T (e :: es) V

variable {T U V : Table ω φ β} {e : Event ω φ β} {es fs : List (Event ω φ β)}

theorem Trace.single (h : Step T e U) : Trace T [e] U := .cons h .nil

theorem Trace.append (h₁ : Trace T es U) (h₂ : Trace U fs V) : Trace T (es ++ fs) V := by
  induction h₁ with
  | nil => exact h₂
  | cons hs _ ih => exact .cons hs (ih h₂)

/-- A history in two parts. -/
theorem Trace.split (h : Trace T (es ++ fs) V) : ∃ U, Trace T es U ∧ Trace U fs V := by
  induction es generalizing T with
  | nil => exact ⟨T, .nil, h⟩
  | cons e es ih =>
    cases h with
    | cons hs ht =>
      obtain ⟨U, h₁, h₂⟩ := ih ht
      exact ⟨U, .cons hs h₁, h₂⟩

/-! ## Sessions -/

section Sessions

variable (o : ω) (h : φ)

/-- The event ends the stream `h` of `o`. -/
def Event.ends : Event ω φ β → Bool
  | .closed o' h' result => decide (o' = o ∧ h' = h) && result
  | .left o' => decide (o' = o)
  | _ => false

/-- What a history asks of a stream. -/
def requested : List (Event ω φ β) → ℕ
  | [] => 0
  | .read o' h' n _ :: es => (if o' = o ∧ h' = h then n else 0) + requested es
  | _ :: es => requested es

/-- What a history delivers of a stream. -/
def delivered : List (Event ω φ β) → List β
  | [] => []
  | .read o' h' _ result :: es =>
    (if o' = o ∧ h' = h then result.getD [] else []) ++ delivered es
  | _ :: es => delivered es

end Sessions

variable {o : ω} {h : φ}

/-- **One event of a session.**  Either it reads the stream, or it leaves it alone. -/
theorem Step.session {data : List β} (hs : Step T e U) (hopen : T o h = some data)
    (hends : e.ends o h = false) :
    (∃ n, e = .read o h n (some (data.take n)) ∧ U o h = some (data.drop n)) ∨
      ((∀ n r, e ≠ .read o h n r) ∧ U o h = some data) := by
  cases hs with
  | @opened o' h' data' hfree =>
    refine Or.inr ⟨fun _ _ hc => (by cases hc), ?_⟩
    rw [Table.set_of_ne, hopen]
    rintro ⟨rfl, rfl⟩
    rw [hfree] at hopen
    cases hopen
  | @read o' h' rest n hopen' =>
    by_cases hself : o = o' ∧ h = h'
    · obtain ⟨rfl, rfl⟩ := hself
      obtain rfl : rest = data := Option.some.inj (hopen'.symm.trans hopen)
      exact Or.inl ⟨n, rfl, Table.set_self _ _ _ _⟩
    · refine Or.inr ⟨?_, ?_⟩
      · rintro n r hc
        cases hc
        exact hself ⟨rfl, rfl⟩
      · rw [Table.set_of_ne _ _ hself, hopen]
  | @readNothing o' h' n hfree =>
    refine Or.inr ⟨?_, hopen⟩
    rintro n r hc
    cases hc
    rw [hfree] at hopen
    cases hopen
  | @closed o' h' rest hopen' =>
    refine Or.inr ⟨fun _ _ hc => (by cases hc), ?_⟩
    rw [Table.set_of_ne, hopen]
    rintro ⟨rfl, rfl⟩
    simp [Event.ends] at hends
  | closedNothing => exact Or.inr ⟨fun _ _ hc => (by cases hc), hopen⟩
  | left o' =>
    refine Or.inr ⟨fun _ _ hc => (by cases hc), ?_⟩
    rw [Table.drop_of_ne, hopen]
    rintro rfl
    simp [Event.ends] at hends

/-- **The law of a session.**  As long as nothing ends the stream, every read of it succeeds,
and together the reads deliver the prefix of the data of the length they asked for, or all of
it if that is less. -/
theorem Trace.session {data : List β} (ht : Trace T es U) (hopen : T o h = some data)
    (hends : ∀ e ∈ es, e.ends o h = false) :
    (∀ n r, .read o h n r ∈ es → r.isSome = true) ∧
      delivered o h es = data.take (requested o h es) ∧
      U o h = some (data.drop (requested o h es)) := by
  induction ht generalizing data with
  | nil => exact ⟨fun _ _ hc => (by cases hc), by simp [delivered, requested], by
      simp [requested, hopen]⟩
  | @cons T U V e es hs _ ih =>
    have htail : ∀ e ∈ es, e.ends o h = false := fun e he => hends e (List.mem_cons_of_mem _ he)
    rcases hs.session hopen (hends e List.mem_cons_self) with ⟨n, rfl, hU⟩ | ⟨hother, hU⟩
    · obtain ⟨hreads, hdel, hrest⟩ := ih hU htail
      refine ⟨fun m r hmem => ?_, ?_, ?_⟩
      · rcases List.mem_cons.mp hmem with heq | hmem
        · cases heq
          rfl
        · exact hreads m r hmem
      · rw [delivered, requested, if_pos ⟨rfl, rfl⟩, if_pos ⟨rfl, rfl⟩, hdel, List.take_add]
        rfl
      · rw [requested, if_pos ⟨rfl, rfl⟩, hrest, List.drop_drop]
    · obtain ⟨hreads, hdel, hrest⟩ := ih hU htail
      have hskip : delivered o h (e :: es) = delivered o h es ∧
          requested o h (e :: es) = requested o h es := by
        cases e with
        | read o' h' n r =>
          have hne : ¬ (o' = o ∧ h' = h) := by
            rintro ⟨rfl, rfl⟩
            exact hother n r rfl
          rw [delivered, requested, if_neg hne, if_neg hne]
          exact ⟨rfl, Nat.zero_add _⟩
        | _ => exact ⟨rfl, rfl⟩
      refine ⟨fun m r hmem => ?_, hskip.1.trans (hskip.2 ▸ hdel), hskip.2 ▸ hrest⟩
      rcases List.mem_cons.mp hmem with heq | hmem
      · exact absurd heq.symm (hother m r)
      · exact hreads m r hmem

end Streams
