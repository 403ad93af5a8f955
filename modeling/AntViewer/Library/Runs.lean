import Mathlib.Logic.Basic
import Mathlib.Tactic.Common

set_option relaxedAutoImplicit false
set_option autoImplicit false

/-!
# Runs of labelled transition systems

A run of a system with states `σ` and events `ε` is recorded as its starting state and the
list of the events with the state each of them led to. Both the step relation of a system and
a property of its transitions are predicates `σ → ε → σ → Prop`, and both are read along a run
by the same recursion `Runs.Along`: `Along step s tr` says that `tr` is a run, and
`Along T s tr` that every transition of it satisfies `T`.

## Main definitions

* `Runs.Along` — every transition of a recorded run satisfies a predicate.
* `Runs.final` — the state a recorded run ends in.
* `Runs.record` — the run of a partial step function.

## Main results

* `Runs.Along.invariant` — the invariant rule.
* `Runs.Along.history` — the invariant rule for predicates that mention the events so far.
* `Runs.along_iff`, `Runs.along_congr` — two transition predicates that agree on the steps taken,
  under an invariant or always, agree along runs.
* `Runs.foldlM_history`, `Runs.foldlM_keeps` — the invariant rules for loops that may fail.
* `Runs.foldl_observe` — what a loop leaves in one place.
* `Runs.Along.count` — a measure that each event of a kind lowers by one counts these events.
-/

namespace Runs

variable {σ ε : Type*} {step T C : σ → ε → σ → Prop} {I : σ → Prop}

/-- Every transition of the recorded run `tr` from `s` satisfies `T`. -/
def Along (T : σ → ε → σ → Prop) : σ → List (ε × σ) → Prop
  | _, [] => True
  | s, (e, s') :: tr => T s e s' ∧ Along T s' tr

/-- The state in which the recorded run `tr` from `s` ends. -/
def final : σ → List (ε × σ) → σ
  | s, [] => s
  | _, (_, s') :: tr => final s' tr

@[simp] lemma along_nil (s : σ) : Along T s [] := trivial

@[simp] lemma along_cons (s s' : σ) (e : ε) (tr : List (ε × σ)) :
    Along T s ((e, s') :: tr) ↔ T s e s' ∧ Along T s' tr := Iff.rfl

@[simp] lemma final_nil (s : σ) : final s ([] : List (ε × σ)) = s := rfl

@[simp] lemma final_cons (s s' : σ) (e : ε) (tr : List (ε × σ)) :
    final s ((e, s') :: tr) = final s' tr := rfl

/-- A run in two parts ends where its second part ends. -/
lemma final_append (s : σ) (tr tr' : List (ε × σ)) :
    final s (tr ++ tr') = final (final s tr) tr' := by
  induction tr generalizing s with
  | nil => rfl
  | cons p tr ih => exact ih p.2

/-- A predicate holds along a run in two parts iff it holds along both. -/
lemma along_append (s : σ) (tr tr' : List (ε × σ)) :
    Along T s (tr ++ tr') ↔ Along T s tr ∧ Along T (final s tr) tr' := by
  induction tr generalizing s with
  | nil => simp
  | cons p tr ih =>
    obtain ⟨e, s'⟩ := p
    simp only [List.cons_append, along_cons, final_cons, ih, and_assoc]

/-- **The invariant rule**: what holds at the start and is kept by every step holds before
and after every transition of a run. -/
lemma Along.invariant {s : σ} {tr : List (ε × σ)} (h : Along step s tr) (h0 : I s)
    (hstep : ∀ s e s', I s → step s e s' → I s') :
    Along (fun s e s' => I s ∧ step s e s' ∧ I s') s tr := by
  induction tr generalizing s with
  | nil => trivial
  | cons p tr ih =>
    obtain ⟨e, s'⟩ := p
    have h1 : I s' := hstep s e s' h0 h.1
    exact ⟨⟨h0, h.1, h1⟩, ih h.2 h1⟩

/-- A predicate that implies another one on every transition implies it along runs. -/
lemma Along.mono {s : σ} {tr : List (ε × σ)} (h : Along T s tr)
    (hTC : ∀ s e s', T s e s' → C s e s') : Along C s tr := by
  induction tr generalizing s with
  | nil => trivial
  | cons p tr ih => exact ⟨hTC _ _ _ h.1, ih h.2⟩

/-- An invariant holds in the state a run ends in. -/
lemma Along.final_invariant {s : σ} {tr : List (ε × σ)} (h : Along step s tr) (h0 : I s)
    (hstep : ∀ s e s', I s → step s e s' → I s') : I (final s tr) := by
  induction tr generalizing s with
  | nil => exact h0
  | cons p tr ih => exact ih h.2 (hstep _ _ _ h0 h.1)

/-- **The history rule**: a predicate of the events so far and of the current state that holds
at the start and is kept by every step holds of the whole run. -/
lemma Along.history {P : List ε → σ → Prop} {s : σ} {tr : List (ε × σ)} (h : Along step s tr)
    (h0 : P [] s) (hstep : ∀ es s e s', P es s → step s e s' → P (es ++ [e]) s') :
    P (tr.map Prod.fst) (final s tr) := by
  induction tr generalizing s P with
  | nil => exact h0
  | cons p tr ih =>
    obtain ⟨e, s'⟩ := p
    exact ih (P := fun es s => P (e :: es) s) h.2 (hstep [] s e s' h0 h.1)
      (fun es s f s' hP hs => hstep (e :: es) s f s' hP hs)

/-- Two transition predicates that agree on the steps taken under an invariant agree along
every run that starts inside it. The steps that satisfy the second one have to keep the
invariant; the others end the comparison. -/
lemma along_iff {s : σ} {tr : List (ε × σ)} (h : Along step s tr) (h0 : I s)
    (hstep : ∀ s e s', I s → step s e s' → C s e s' → I s')
    (hiff : ∀ s e s', I s → step s e s' → (T s e s' ↔ C s e s')) :
    Along T s tr ↔ Along C s tr := by
  induction tr generalizing s with
  | nil => simp
  | cons p tr ih =>
    obtain ⟨e, s'⟩ := p
    rw [along_cons, along_cons, hiff s e s' h0 h.1]
    exact and_congr_right fun hC => ih h.2 (hstep s e s' h0 h.1 hC)

/-- Two transition predicates that agree on the steps taken agree along every run. -/
lemma along_congr {s : σ} {tr : List (ε × σ)} (h : Along step s tr)
    (hiff : ∀ s e s', step s e s' → (T s e s' ↔ C s e s')) : Along T s tr ↔ Along C s tr := by
  refine along_iff (I := fun _ => True) h trivial ?_ ?_
  · intro s e s' _ _ _
    trivial
  · intro s e s' _ hs
    exact hiff s e s' hs

/-- The invariant rule for runs whose steps all satisfy a condition. -/
lemma Along.final_invariant_of {s : σ} {tr : List (ε × σ)} (h : Along step s tr)
    (hC : Along C s tr) (h0 : I s) (hstep : ∀ s e s', I s → step s e s' → C s e s' → I s') :
    I (final s tr) := by
  induction tr generalizing s with
  | nil => exact h0
  | cons p tr ih => exact ih h.2 hC.2 (hstep _ _ _ h0 h.1 hC.1)

/-- If a measure drops by one with each event of a kind and stays put otherwise, then along a
run it drops by the number of these events. -/
lemma Along.count {s : σ} {tr : List (ε × σ)} (h : Along step s tr) (p : ε → Bool) (m : σ → ℕ)
    (hstep : ∀ s e s', step s e s' → m s = m s' + if p e then 1 else 0) :
    m s = m (final s tr) + (tr.map Prod.fst).countP p := by
  induction tr generalizing s with
  | nil => simp
  | cons q tr ih =>
    obtain ⟨e, s'⟩ := q
    have h1 := hstep s e s' h.1
    have h2 := ih h.2
    simp only [List.map_cons, List.countP_cons, final_cons]
    omega

/-- The run of a system given by a partial function of state and event, over a list of events;
events that are not possible are skipped. -/
def record (next : σ → ε → Option σ) : σ → List ε → List (ε × σ)
  | _, [] => []
  | s, e :: es =>
    match next s e with
    | some s' => (e, s') :: record next s' es
    | none => record next s es

/-- What is recorded is a run. -/
lemma along_record {next : σ → ε → Option σ} {s : σ} {es : List ε}
    (h : ∀ e ∈ es, ∀ s s', next s e = some s' → step s e s') :
    Along step s (record next s es) := by
  induction es generalizing s with
  | nil => trivial
  | cons e es ih =>
    have hes : ∀ e ∈ es, ∀ s s', next s e = some s' → step s e s' :=
      fun e he => h e (List.mem_cons_of_mem _ he)
    cases hnext : next s e with
    | some s' =>
      simp only [record, hnext]
      exact ⟨h e List.mem_cons_self s s' hnext, ih hes⟩
    | none => simpa only [record, hnext] using ih hes

/-- **The history rule for checked loops**: if each iteration of a loop succeeds and keeps a
predicate of the elements so far and of the accumulator, the loop succeeds and the predicate
holds of the whole list. -/
lemma foldlM_history {α β : Type*} {f : β → α → Except String β} {P : List α → β → Prop}
    {l : List α} {b : β} (h0 : P [] b)
    (hstep : ∀ pre a post b, l = pre ++ a :: post → P pre b →
      ∃ b', f b a = .ok b' ∧ P (pre ++ [a]) b') :
    ∃ b', l.foldlM f b = .ok b' ∧ P l b' := by
  suffices h : ∀ post pre b, l = pre ++ post → P pre b →
      ∃ b', post.foldlM f b = .ok b' ∧ P (pre ++ post) b' by
    simpa using h l [] b rfl h0
  intro post
  induction post with
  | nil => exact fun pre b _ hb => ⟨b, rfl, by simpa using hb⟩
  | cons a post ih =>
    intro pre b hl hb
    obtain ⟨b₁, hf, hb₁⟩ := hstep pre a post b hl hb
    obtain ⟨b', hfold, hb'⟩ := ih (pre ++ [a]) b₁ (by simpa using hl) hb₁
    refine ⟨b', ?_, by simpa using hb'⟩
    rw [List.foldlM_cons, hf]
    exact hfold

/-- What each iteration of a checked loop keeps, the loop keeps. -/
lemma foldlM_keeps {α β : Type*} {f : β → α → Except String β} {P : β → Prop}
    (hstep : ∀ b a b', P b → f b a = .ok b' → P b') {l : List α} {b b' : β}
    (h : l.foldlM f b = .ok b') (hb : P b) : P b' := by
  induction l generalizing b with
  | nil =>
    cases h
    exact hb
  | cons a l ih =>
    rw [List.foldlM_cons] at h
    cases hf : f b a with
    | error message => rw [hf] at h; cases h
    | ok next =>
      rw [hf] at h
      exact ih h (hstep b a next hb hf)

/-- What a loop leaves in one place: if some step puts a value there, and each step puts this value
there or leaves the place alone, then the value is there in the end. -/
lemma foldl_observe {α β γ : Type*} {f : β → α → β} (obs : β → γ) {v : γ} {l : List α}
    (hsteps : ∀ a ∈ l, (∀ b, obs (f b a) = v) ∨ ∀ b, obs (f b a) = obs b)
    (hputs : ∃ a ∈ l, ∀ b, obs (f b a) = v) (b : β) : obs (l.foldl f b) = v := by
  have hkeep : ∀ (l : List α) (b : β),
      (∀ a ∈ l, (∀ b, obs (f b a) = v) ∨ ∀ b, obs (f b a) = obs b) → obs b = v →
      obs (l.foldl f b) = v := by
    intro l
    induction l with
    | nil => exact fun b _ h => h
    | cons a l ih =>
      intro b hsteps h
      refine ih (f b a) (fun a ha => hsteps a (List.mem_cons_of_mem _ ha)) ?_
      rcases hsteps a List.mem_cons_self with hput | hleave
      · exact hput b
      · exact (hleave b).trans h
  obtain ⟨a, ha, hput⟩ := hputs
  obtain ⟨before, after, rfl⟩ := List.append_of_mem ha
  rw [List.foldl_append, List.foldl_cons]
  exact hkeep after _
    (fun a ha => hsteps a (List.mem_append_right before (List.mem_cons_of_mem _ ha))) (hput _)

end Runs
