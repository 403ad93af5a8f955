import Mathlib.Tactic.Common

set_option relaxedAutoImplicit false
set_option autoImplicit false

/-!
# Dispatch groups

A dispatch group counts how often it was entered and left. Blocks handed to `notify` wait until
the counts agree and are then released, all at once; a block handed over while they agree is
released immediately. Leaving more often than entering is a crash, which shows here as a `left`
greater than `entered`.

The counts of a group are usually known only up to the work that is still under way. The
predicate `DispatchGroup.Owes g k n` says that the group `g` still has to be left `k` times and
was handed `n` blocks, and with that it determines everything else about the group.

## Main definitions

* `DispatchGroup` with `create`, `enter`, `leave`, `notify` — the group.
* `DispatchGroup.Owes` — a group with a given number of outstanding leaves and of blocks.

## Main results

* `DispatchGroup.Owes.enter`, `.leave`, `.notify` — the rules of the three operations.
* `DispatchGroup.Owes.fired_eq_iff` — all blocks were released iff nothing is outstanding.
-/

/-- A group: how often it was entered and left, how many blocks are waiting, and how many were
released. -/
structure DispatchGroup where
  entered : ℕ
  left : ℕ
  waiting : ℕ
  fired : ℕ
  deriving DecidableEq

namespace DispatchGroup

/-- A new group (`DispatchGroup()`). -/
def create : DispatchGroup := ⟨0, 0, 0, 0⟩

/-- Releases the waiting blocks if the counts agree. -/
def settle (g : DispatchGroup) : DispatchGroup :=
  if g.left = g.entered then { g with waiting := 0, fired := g.fired + g.waiting } else g

/-- `group.enter()`. -/
def enter (g : DispatchGroup) : DispatchGroup := { g with entered := g.entered + 1 }

/-- `group.leave()`. -/
def leave (g : DispatchGroup) : DispatchGroup := settle { g with left := g.left + 1 }

/-- `group.notify(queue:execute:)` with one block. -/
def notify (g : DispatchGroup) : DispatchGroup := settle { g with waiting := g.waiting + 1 }

/-- The group has `k` leaves outstanding and was handed `n` blocks, which are released iff
nothing is outstanding. -/
structure Owes (g : DispatchGroup) (k n : ℕ) : Prop where
  count : g.entered = g.left + k
  fired : g.fired = if k = 0 then n else 0
  waiting : g.waiting = if k = 0 then 0 else n

namespace Owes

variable {g : DispatchGroup} {k n : ℕ}

/-- A new group owes nothing. -/
lemma create : Owes create 0 0 := ⟨rfl, rfl, rfl⟩

/-- Entering a group that was handed no block yet. -/
lemma enter (h : Owes g k 0) : Owes g.enter (k + 1) 0 := by
  obtain ⟨hcount, hfired, hwaiting⟩ := h
  constructor
  case count =>
    simp only [DispatchGroup.enter]
    omega
  case fired => simpa [DispatchGroup.enter] using hfired
  case waiting => simpa [DispatchGroup.enter] using hwaiting

/-- Leaving a group that has a leave outstanding; the last leave releases the blocks. -/
lemma leave (h : Owes g (k + 1) n) : Owes g.leave k n := by
  obtain ⟨hcount, hfired, hwaiting⟩ := h
  rw [if_neg (Nat.succ_ne_zero k)] at hfired hwaiting
  unfold DispatchGroup.leave settle
  by_cases hk : k = 0
  · rw [if_pos (show g.left + 1 = g.entered by omega)]
    constructor
    case count =>
      change g.entered = g.left + 1 + k
      omega
    case fired => simp [hk, hfired, hwaiting]
    case waiting => simp [hk]
  · rw [if_neg (show g.left + 1 ≠ g.entered by omega)]
    constructor
    case count =>
      change g.entered = g.left + 1 + k
      omega
    case fired => simpa [hk] using hfired
    case waiting => simpa [hk] using hwaiting

/-- Handing over a block: it waits iff something is outstanding. -/
lemma notify (h : Owes g k n) : Owes g.notify k (n + 1) := by
  obtain ⟨hcount, hfired, hwaiting⟩ := h
  unfold DispatchGroup.notify settle
  by_cases hk : k = 0
  · rw [if_pos hk] at hfired hwaiting
    rw [if_pos (show g.left = g.entered by omega)]
    exact ⟨hcount, by simp [hk, hfired, hwaiting], by simp [hk]⟩
  · rw [if_neg hk] at hfired hwaiting
    rw [if_neg (show g.left ≠ g.entered by omega)]
    exact ⟨hcount, by simp [hk, hfired], by simp [hk, hwaiting]⟩

/-- A group is never left more often than it was entered. -/
lemma left_le (h : Owes g k n) : g.left ≤ g.entered := by
  have := h.count
  omega

/-- No block is released twice. -/
lemma fired_le (h : Owes g k n) : g.fired ≤ n := by
  have := h.fired
  split at this <;> omega

/-- The blocks were released iff nothing is outstanding. -/
lemma fired_eq_iff (h : Owes g k n) (hn : n ≠ 0) : g.fired = n ↔ k = 0 := by
  rw [h.fired]
  by_cases hk : k = 0
  · simp [hk]
  · simp [hk, hn.symm]

end Owes

end DispatchGroup
