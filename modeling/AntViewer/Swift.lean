import Mathlib

set_option relaxedAutoImplicit false
set_option autoImplicit false

/-!
# The Swift operations the models use

An expression that can stop the process (an arithmetic overflow, a division by zero, an array
index out of range) is evaluated in `Eval`, whose error says which trap was hit. A Swift `Int`
is an integer; its arithmetic traps outside of 64 bits.

## Main definitions

* `Trap`, `Eval` — the traps, and computations that may hit one.
* `SwiftInt.add`, `SwiftInt.sub`, `SwiftInt.mul`, `SwiftInt.div` — `Int` arithmetic.
* `SwiftInt.description` — the text of `"\(n)"` and of `String(n)`.

## Main results

* `Eval.bind_eq_ok` — a sequence of two computations returns iff both do.
* `Eval.mapM_eq_ok` — a traversal returns iff it returns on every element.
* `SwiftInt.description_injective` — different integers have different texts.
-/

namespace AntViewer

/-- The ways in which an expression of the program can stop the process. -/
inductive Trap
  | overflow
  | divisionByZero
  | indexOutOfRange
  deriving DecidableEq, Repr

/-- A computation that returns a value or hits a trap. -/
abbrev Eval (α : Type) := Except Trap α

/-- After a computation that returned, the next one runs on its result. -/
lemma Eval.ok_bind {α β : Type} (a : α) (f : α → Eval β) : (Except.ok a : Eval α) >>= f = f a := rfl

/-- A computation followed by another one returns iff both return. -/
lemma Eval.bind_eq_ok {α β : Type} {x : Eval α} {f : α → Eval β} {b : β} :
    (x >>= f) = .ok b ↔ ∃ a, x = .ok a ∧ f a = .ok b := by
  cases x with
  | error t => simp [bind, Except.bind]
  | ok a => simp [bind, Except.bind]

/-- A traversal returns iff it returns on every element, with the results in order. -/
lemma Eval.mapM_eq_ok {α β : Type} {f : α → Eval β} {xs : List α} {ys : List β} :
    xs.mapM f = .ok ys ↔ List.Forall₂ (fun x y => f x = .ok y) xs ys := by
  induction xs generalizing ys with
  | nil => simp [pure, Except.pure, eq_comm]
  | cons x xs ih =>
    simp only [List.mapM_cons, Eval.bind_eq_ok, ih]
    constructor
    · rintro ⟨y, hy, ys', hys, h⟩
      cases h
      exact List.Forall₂.cons hy hys
    · intro h
      cases h with
      | cons hy hys => exact ⟨_, hy, _, hys, rfl⟩

/-- A traversal that returns does so with one result for each element. -/
lemma Eval.length_of_mapM {α β : Type} {f : α → Eval β} {xs : List α} {ys : List β}
    (h : xs.mapM f = .ok ys) : ys.length = xs.length :=
  (Eval.mapM_eq_ok.mp h).length_eq.symm

/-- A traversal with a known result for each element returns them. -/
lemma Eval.mapM_of_forall {α β : Type} {f : α → Eval β} {g : α → β} {xs : List α}
    (h : ∀ x ∈ xs, f x = .ok (g x)) : xs.mapM f = .ok (xs.map g) := by
  rw [Eval.mapM_eq_ok, List.forall₂_map_right_iff, List.forall₂_same]
  exact h

/-- A traversal that returns has returned on every element. -/
lemma Eval.ok_of_mapM {α β : Type} {f : α → Eval β} {xs : List α} {ys : List β}
    (h : xs.mapM f = .ok ys) : ∀ x ∈ xs, ∃ y, f x = .ok y := by
  intro x hx
  obtain ⟨i, hi, rfl⟩ := List.getElem_of_mem hx
  have hall := Eval.mapM_eq_ok.mp h
  exact ⟨_, hall.get hi (hall.length_eq ▸ hi)⟩

/-- `xs[i]` on a Swift array. -/
def subscript {α : Type} (xs : List α) (i : ℕ) : Eval α :=
  match xs[i]? with
  | some x => .ok x
  | none => .error .indexOutOfRange

namespace SwiftInt

/-- The values of a 64-bit `Int`. -/
def InRange (n : ℤ) : Prop := -2 ^ 63 ≤ n ∧ n < 2 ^ 63

instance (n : ℤ) : Decidable (InRange n) := inferInstanceAs (Decidable (_ ∧ _))

/-- The exact result of an operation, if it is an `Int`. -/
def checked (n : ℤ) : Eval ℤ := if InRange n then .ok n else .error .overflow

/-- `a + b`. -/
def add (a b : ℤ) : Eval ℤ := checked (a + b)

/-- `a - b`. -/
def sub (a b : ℤ) : Eval ℤ := checked (a - b)

/-- `a * b`. -/
def mul (a b : ℤ) : Eval ℤ := checked (a * b)

/-- `a / b`, which rounds towards zero. -/
def div (a b : ℤ) : Eval ℤ := if b = 0 then .error .divisionByZero else checked (a.tdiv b)

/-- A number between zero and a value of the type is one. -/
lemma InRange.of_le {m n : ℤ} (hm : InRange m) (hn : 0 ≤ n) (h : n ≤ m) : InRange n :=
  ⟨by linarith, h.trans_lt hm.2⟩

/-- An exact result that fits is returned. -/
lemma checked_of_inRange {n : ℤ} (h : InRange n) : checked n = .ok n := if_pos h

/-- An operation returns iff its exact result fits. -/
lemma checked_eq_ok {n m : ℤ} : checked n = .ok m ↔ InRange n ∧ m = n := by
  unfold checked
  split_ifs with h
  · simp [h, eq_comm]
  · simp [h]

/-- The decimal text of an `Int`. -/
def description (n : ℤ) : String := n.repr

/-- Two integers with one text are equal. -/
lemma description_injective : Function.Injective description :=
  fun _ _ h => Int.repr_injective h

@[simp] lemma description_inj {m n : ℤ} : description m = description n ↔ m = n :=
  description_injective.eq_iff

end SwiftInt

end AntViewer
