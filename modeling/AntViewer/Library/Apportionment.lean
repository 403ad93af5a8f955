import Mathlib

set_option relaxedAutoImplicit false
set_option autoImplicit false

/-!
# Apportioning a total by rounding down

A `total` is divided among weights in proportion to them. Every weight first gets its exact
share rounded down, its quota; what the rounding loses is then handed out. The module has the
arithmetic of the quotas and of the loss, and the rule that raises one class of equal quotas.

## Main definitions

* `Apportionment.quota`, `Apportionment.quotas` — a share rounded down, for one weight and for
  a list of weights.
* `Apportionment.loss` — what the quotas leave of the total.
* `Apportionment.award` — a quota after one class of equal quotas was raised.

## Main results

* `Apportionment.sum_mul_loss` — the loss counts the remainders of the divisions.
* `Apportionment.loss_nonneg`, `Apportionment.loss_lt` — the loss is less than the number of
  positive weights.
* `Apportionment.exists_quota_pos` — with at most `total` weights, some quota is positive.
* `Apportionment.quota_le_quota_add` — a weight that grows does not lose quota.
* `Apportionment.award_le_award_iff` — when raising a class keeps the order of two quotas.
-/

namespace Apportionment

/-! ## Quotas -/

/-- The share of `total` of a weight `x` out of `sum`, rounded down. -/
def quota (total sum x : ℤ) : ℤ := total * x / sum

section Quota

variable {total sum x y : ℤ}

@[simp] lemma quota_zero (total sum : ℤ) : quota total sum 0 = 0 := by simp [quota]

/-- Quotas are not negative. -/
lemma quota_nonneg (ht : 0 ≤ total) (hs : 0 ≤ sum) (hx : 0 ≤ x) : 0 ≤ quota total sum x :=
  Int.ediv_nonneg (mul_nonneg ht hx) hs

/-- A larger weight has at least the quota of a smaller one. -/
lemma quota_mono (ht : 0 ≤ total) (hs : 0 < sum) (h : x ≤ y) :
    quota total sum x ≤ quota total sum y :=
  Int.ediv_le_ediv hs (mul_le_mul_of_nonneg_left h ht)

/-- A quota is positive iff its share reaches one unit. -/
lemma quota_pos_iff (hs : 0 < sum) : 0 < quota total sum x ↔ sum ≤ total * x := by
  show 1 ≤ total * x / sum ↔ sum ≤ total * x
  rw [Int.le_ediv_iff_mul_le hs, one_mul]

/-- A quota is zero iff its share does not reach one unit. -/
lemma quota_eq_zero_iff (ht : 0 ≤ total) (hs : 0 < sum) (hx : 0 ≤ x) :
    quota total sum x = 0 ↔ total * x < sum := by
  have hpos : 0 < quota total sum x ↔ sum ≤ total * x := quota_pos_iff hs
  have hnonneg : 0 ≤ quota total sum x := quota_nonneg ht hs.le hx
  omega

/-- A quota and its remainder make up the exact share. -/
lemma sum_mul_quota_add (total sum x : ℤ) :
    sum * quota total sum x + total * x % sum = total * x :=
  Int.mul_ediv_add_emod _ _

/-- A share that is a whole number is its quota. -/
lemma sum_mul_quota_of_dvd (h : sum ∣ total * x) : sum * quota total sum x = total * x :=
  Int.mul_ediv_cancel' h

/-- A weight that does not exceed the sum has a quota of at most the total. -/
lemma quota_le_total (ht : 0 ≤ total) (hs : 0 < sum) (h : x ≤ sum) :
    quota total sum x ≤ total := by
  apply Int.ediv_le_of_le_mul hs
  exact mul_le_mul_of_nonneg_left h ht

/-- **A growing weight does not lose quota**: `d` more units of weight, and of the sum, leave
the quota as large as it was.

**Proof sketch.** If `q` is the old quota then `q * sum ≤ total * x`, and `q ≤ total`, so
`q * (sum + d) ≤ total * x + total * d`. -/
lemma quota_le_quota_add {d : ℤ} (ht : 0 ≤ total) (hs : 0 < sum) (h : x ≤ sum) (hd : 0 ≤ d) :
    quota total sum x ≤ quota total (sum + d) (x + d) := by
  have hq : quota total sum x ≤ total := quota_le_total ht hs h
  have hold : quota total sum x * sum ≤ total * x := (Int.le_ediv_iff_mul_le hs).mp le_rfl
  have hnew : quota total sum x * d ≤ total * d := mul_le_mul_of_nonneg_right hq hd
  apply (Int.le_ediv_iff_mul_le (by omega)).mpr
  rw [mul_add, mul_add]
  omega

end Quota

/-! ## The quotas of a list, and what they leave -/

/-- The quota of every weight of a list. -/
def quotas (total : ℤ) (xs : List ℤ) : List ℤ := xs.map (quota total xs.sum)

/-- The part of the total that the quotas do not hand out. -/
def loss (total : ℤ) (xs : List ℤ) : ℤ := total - (quotas total xs).sum

section Loss

variable {total : ℤ} {xs : List ℤ}

/-- The quotas of non-negative weights are not negative. -/
lemma quotas_nonneg (ht : 0 ≤ total) (hxs : ∀ x ∈ xs, 0 ≤ x) :
    ∀ f ∈ quotas total xs, 0 ≤ f := by
  intro f hf
  obtain ⟨x, hx, rfl⟩ := List.mem_map.mp hf
  exact quota_nonneg ht (List.sum_nonneg hxs) (hxs x hx)

/-- Dividing each product by `sum` and adding up, with the remainders. -/
lemma sum_mul_sum_quota_add (total sum : ℤ) (ys : List ℤ) :
    sum * (ys.map (quota total sum)).sum + (ys.map fun y => total * y % sum).sum =
      total * ys.sum := by
  induction ys with
  | nil => simp
  | cons y ys ih =>
    have hy : sum * quota total sum y + total * y % sum = total * y := sum_mul_quota_add _ _ _
    simp only [List.map_cons, List.sum_cons, mul_add]
    omega

/-- **The loss counts the remainders**: it is their sum, in units of the sum of the weights. -/
lemma sum_mul_loss (total : ℤ) (xs : List ℤ) :
    xs.sum * loss total xs = (xs.map fun x => total * x % xs.sum).sum := by
  have h := sum_mul_sum_quota_add total xs.sum xs
  rw [loss, quotas, mul_sub, mul_comm xs.sum total]
  omega

/-- The remainders are not negative. -/
lemma emod_nonneg_of_mem (hs : 0 < xs.sum) :
    ∀ r ∈ xs.map fun x => total * x % xs.sum, 0 ≤ r := by
  intro r hr
  obtain ⟨x, -, rfl⟩ := List.mem_map.mp hr
  exact Int.emod_nonneg _ hs.ne'

/-- The quotas hand out at most the total. -/
lemma loss_nonneg (hs : 0 < xs.sum) : 0 ≤ loss total xs := by
  apply nonneg_of_mul_nonneg_right _ hs
  rw [sum_mul_loss]
  exact List.sum_nonneg (emod_nonneg_of_mem hs)

/-- Every positive weight leaves a remainder below `sum`, and a zero weight leaves none. -/
lemma sum_emod_le {sum : ℤ} (hs : 0 < sum) (total : ℤ) {ys : List ℤ} (hys : ∀ y ∈ ys, 0 ≤ y) :
    (ys.map fun y => total * y % sum).sum ≤ (sum - 1) * (ys.countP fun y => 0 < y : ℕ) := by
  induction ys with
  | nil => simp
  | cons y ys ih =>
    have ih' := ih fun z hz => hys z (List.mem_cons_of_mem y hz)
    rcases (hys y List.mem_cons_self).eq_or_lt with hzero | hpos
    · subst hzero
      simpa using ih'
    · have hr : total * y % sum < sum := Int.emod_lt_of_pos _ hs
      rw [List.map_cons, List.sum_cons, List.countP_cons_of_pos (by simpa using hpos)]
      push_cast
      rw [mul_add, mul_one]
      omega

/-- A positive sum of non-negative weights has a positive weight. -/
lemma countP_pos_of_sum_pos (hs : 0 < xs.sum) : 0 < xs.countP fun x => 0 < x := by
  rw [List.countP_pos_iff]
  by_contra hnone
  push Not at hnone
  have hle : xs.sum ≤ xs.length • 0 := List.sum_le_card_nsmul xs 0 (by simpa using hnone)
  rw [smul_zero] at hle
  omega

/-- **The loss is less than the number of positive weights.**

**Proof sketch.** Each of the `k` positive weights leaves a remainder of at most `sum - 1`, so
`sum * loss ≤ (sum - 1) * k < sum * k`. -/
theorem loss_lt (hxs : ∀ x ∈ xs, 0 ≤ x) (hs : 0 < xs.sum) :
    loss total xs < (xs.countP fun x => 0 < x : ℕ) := by
  have hk : 0 < xs.countP fun x => 0 < x := countP_pos_of_sum_pos hs
  have hle := sum_emod_le hs total hxs
  rw [← sum_mul_loss, sub_mul, one_mul] at hle
  apply lt_of_mul_lt_mul_left _ hs.le
  omega

/-- Nothing is lost iff every share is a whole number. -/
lemma loss_eq_zero_iff (hs : 0 < xs.sum) :
    loss total xs = 0 ↔ ∀ x ∈ xs, xs.sum ∣ total * x := by
  have hmul : loss total xs = 0 ↔ (xs.map fun x => total * x % xs.sum).sum = 0 := by
    rw [← sum_mul_loss, mul_eq_zero]
    omega
  rw [hmul]
  constructor
  · intro hsum x hx
    apply Int.dvd_of_emod_eq_zero
    apply List.all_zero_of_le_zero_le_of_sum_eq_zero (emod_nonneg_of_mem hs) hsum
    exact List.mem_map_of_mem hx
  · intro hdvd
    apply List.sum_eq_zero
    intro r hr
    obtain ⟨x, hx, rfl⟩ := List.mem_map.mp hr
    exact Int.emod_eq_zero_of_dvd (hdvd x hx)

/-- Shares below one unit add up to less than one unit for each weight. -/
lemma mul_sum_lt_length_mul {total sum : ℤ} {ys : List ℤ} (hne : ys ≠ [])
    (h : ∀ y ∈ ys, total * y < sum) : total * ys.sum < ys.length * sum := by
  calc total * ys.sum = (ys.map fun y => total * y).sum := by
        rw [List.sum_map_mul_left, List.map_id']
    _ < (ys.map fun _ => sum).sum := List.sum_lt_sum_of_ne_nil hne _ _ h
    _ = ys.length * sum := by simp

/-- **Pigeonhole**: at most `total` weights with a positive sum cannot all have a share below
one unit. -/
theorem exists_quota_pos (hlen : (xs.length : ℤ) ≤ total) (hs : 0 < xs.sum) :
    ∃ x ∈ xs, xs.sum ≤ total * x := by
  by_contra hnone
  push Not at hnone
  have hne : xs ≠ [] := by
    rintro rfl
    simp at hs
  have hlt : total * xs.sum < xs.length * xs.sum := mul_sum_lt_length_mul hne hnone
  have hle : (xs.length : ℤ) * xs.sum ≤ total * xs.sum :=
    mul_le_mul_of_nonneg_right hlen hs.le
  omega

end Loss

/-! ## Raising one class of equal quotas -/

/-- The quota `f` after every quota equal to `c` was raised by `a`. -/
def award (c a f : ℤ) : ℤ := if f = c then f + a else f

section Award

variable {c a f g : ℤ}

@[simp] lemma award_zero (c f : ℤ) : award c 0 f = f := by simp [award]

/-- Raising a class by nothing changes nothing. -/
lemma map_award_zero (c : ℤ) (fs : List ℤ) : fs.map (award c 0) = fs :=
  List.map_id'' (award_zero c) fs

/-- Only the class `c` is raised. -/
lemma award_of_ne (h : f ≠ c) : award c a f = f := if_neg h

/-- Raising does not lower a quota. -/
lemma le_award (ha : 0 ≤ a) : f ≤ award c a f := by
  unfold award
  split_ifs <;> omega

/-- A quota is raised by at most `a`. -/
lemma award_le (ha : 0 ≤ a) : award c a f ≤ f + a := by
  unfold award
  split_ifs <;> omega

/-- Raising a class adds `a` for each of its members. -/
lemma sum_map_award (c a : ℤ) (fs : List ℤ) :
    (fs.map (award c a)).sum = fs.sum + fs.count c * a := by
  induction fs with
  | nil => simp
  | cons f fs ih =>
    by_cases h : f = c
    · subst h
      rw [List.map_cons, List.sum_cons, List.sum_cons, List.count_cons_self, ih, award, if_pos rfl]
      push_cast
      ring
    · rw [List.map_cons, List.sum_cons, List.sum_cons, List.count_cons_of_ne (fun hc => h hc), ih,
        award_of_ne h]
      ring

/-- **When raising a class keeps the order**: a quota that is at least as large as another one
stays so unless the smaller one is raised past it. -/
theorem award_le_award_iff (ha : 0 ≤ a) (h : f ≤ g) :
    award c a f ≤ award c a g ↔ ¬(f = c ∧ f < g ∧ g < f + a) := by
  unfold award
  split_ifs <;> omega

end Award

end Apportionment
