import Mathlib.Logic.Basic
import Mathlib.Tactic.Common

set_option relaxedAutoImplicit false
set_option autoImplicit false

/-!
# Outcomes of computations that may fail

A computation that may fail ends in a value or in an error. What is promised of it is a predicate of
the values and one of the errors, and both are carried through sequences, choices and loops.

## Main definitions

* `Outcomes.Ends` — a computation ends in a value or an error with a property.

## Main results

* `Outcomes.Ends.bind` — the rule of sequences.
* `Outcomes.Ends.mapM`, `Outcomes.Ends.foldlM` — the rules of loops.
* `Outcomes.Ends.cases` — how a computation has ended.
-/

namespace Outcomes

variable {ε α : Type*} {E : ε → Prop} {P : α → Prop}

/-- The computation ends in a value with `P` or in an error with `E`. -/
def Ends (E : ε → Prop) (P : α → Prop) : Except ε α → Prop
  | .ok a => P a
  | .error e => E e

/-- How a computation has ended. -/
lemma Ends.cases {x : Except ε α} (h : Ends E P x) :
    (∃ a, x = .ok a ∧ P a) ∨ ∃ e, x = .error e ∧ E e := by
  cases x with
  | ok a => exact Or.inl ⟨a, rfl, h⟩
  | error e => exact Or.inr ⟨e, rfl, h⟩

/-- Less may be promised of the values, -/
lemma Ends.imp {P' : α → Prop} {x : Except ε α} (h : Ends E P x) (hP : ∀ a, P a → P' a) :
    Ends E P' x := by
  cases x with
  | ok a => exact hP a h
  | error e => exact h

/-- and of the errors. -/
lemma Ends.imp_error {E' : ε → Prop} {x : Except ε α} (h : Ends E P x) (hE : ∀ e, E e → E' e) :
    Ends E' P x := by
  cases x with
  | ok a => exact h
  | error e => exact hE e h

/-- A computation followed by another. -/
lemma Ends.bind {α β : Type _} {P : α → Prop} {Q : β → Prop} {x : Except ε α} {f : α → Except ε β}
    (hx : Ends E P x) (hf : ∀ a, P a → Ends E Q (f a)) : Ends E Q (x >>= f) := by
  cases x with
  | ok a => exact hf a hx
  | error e => exact hx

/-- A check that throws. -/
lemma Ends.ite {c : Prop} [Decidable c] {x y : Except ε α} (hx : c → Ends E P x)
    (hy : ¬ c → Ends E P y) : Ends E P (if c then x else y) := by
  split_ifs with h
  · exact hx h
  · exact hy h

/-- A loop that collects values, each of which is related to the element it comes from. -/
lemma Ends.mapM {α β : Type _} {R : α → β → Prop} {l : List α} {f : α → Except ε β}
    (hf : ∀ a ∈ l, Ends E (R a) (f a)) : Ends E (List.Forall₂ R l) (l.mapM f) := by
  induction l with
  | nil => exact List.Forall₂.nil
  | cons a l ih =>
    rw [List.mapM_cons]
    refine (hf a List.mem_cons_self).bind fun b hb => ?_
    refine (ih fun a' ha' => hf a' (List.mem_cons_of_mem _ ha')).bind fun bs hbs => ?_
    exact List.Forall₂.cons hb hbs

/-- A loop that collects values with a property. -/
lemma Ends.mapM_forall {α β : Type _} {Q : β → Prop} {l : List α} {f : α → Except ε β}
    (hf : ∀ a ∈ l, Ends E Q (f a)) : Ends E (fun bs => ∀ b ∈ bs, Q b) (l.mapM f) := by
  refine (Ends.mapM (R := fun _ b => Q b) hf).imp fun bs hbs => ?_
  induction hbs with
  | nil => exact fun b hb => absurd hb List.not_mem_nil
  | cons hb _ ih =>
    exact List.forall_mem_cons.mpr ⟨hb, ih fun a ha => hf a (List.mem_cons_of_mem _ ha)⟩

/-- A loop that keeps an invariant. -/
lemma Ends.foldlM {α β : Type _} {I : β → Prop} {l : List α} {f : β → α → Except ε β} {b : β}
    (hb : I b) (hf : ∀ a ∈ l, ∀ b, I b → Ends E I (f b a)) : Ends E I (l.foldlM f b) := by
  induction l generalizing b with
  | nil => exact hb
  | cons a l ih =>
    rw [List.foldlM_cons]
    refine (hf a List.mem_cons_self b hb).bind fun b' hb' => ?_
    exact ih hb' fun a' ha' => hf a' (List.mem_cons_of_mem _ ha')

end Outcomes
