import AntViewer.PollSession

set_option relaxedAutoImplicit false
set_option autoImplicit false

/-!
# The observer of a stream's polls

`FirePollManager.observePolls(completion:)` installs a listener on the active polls of a
stream. The listener hands its completion the first of them, or nil when there is none; a
document that `FirePoll.init` rejects is passed over in silence. The manager keeps one
registration, which the next call of `observePolls` overwrites.

## Main definitions

* `FirePollManager.observePolls.ref`, `pollsHandler` — the query, and the listener's closure as
  the values it hands over.
* `FirePollManager.Observation` — the life of one listener, with all it has handed over.
* `FirePollManager.Listeners` — the manager's slot and the listeners Firestore still serves.

## Main results

* `FirePollManager.keeps_active_iff` — when the last value handed over is of the snapshot.
* `FirePollManager.no_listener_outlives_iff` — when no listener outlives its removal.
-/

namespace AntViewer

open Runs

namespace FirePollManager

/-- The query of `observePolls(completion:)`, as the documents it selects. -/
def observePolls.ref (env : EnvironmentType) (streamId : ℤ) (db : Database) :
    List QueryDocumentSnapshot :=
  let polls := ResourcePath.fromString
    ("antourage/" ++ env.rawValue ++ "/streams/" ++ SwiftInt.description streamId ++ "/polls")
  Query.whereField (db.documents polls) "isActive" (.boolean true)

/-- The closure `observePolls` installs: what it passes to the completion. -/
def pollsHandler (current : Option User) (querySnapshot : Option (List QueryDocumentSnapshot)) :
    List (Option FirePoll) :=
  match querySnapshot.bind List.head? with
  | none => [none]
  | some document =>
    match FirePoll.init current document.toDocumentSnapshot with
    | some newPoll => [some newPoll]
    | none => []

/-- The last value passed to the completion; nil also before the first one. -/
def lastReported (reports : List (Option FirePoll)) : Option FirePoll := reports.getLast?.join

/-- One callback of the listener: the signed-in user and the snapshot, nil on an error. -/
structure Observation where
  current : Option User
  querySnapshot : Option (List QueryDocumentSnapshot)

namespace Observation

/-- A callback adds what it passes to the completion to what was passed before. -/
def Step (reports : List (Option FirePoll)) (o : Observation)
    (reports' : List (Option FirePoll)) : Prop :=
  reports' = reports ++ pollsHandler o.current o.querySnapshot

/-- The poll is one of the documents of the snapshot. -/
def Present (o : Observation) (poll : FirePoll) : Prop :=
  ∃ documents, o.querySnapshot = some documents ∧ ∃ d ∈ documents, d.documentID = poll.key

/-- After the callback the last value passed is nil or a poll of this very snapshot. -/
def KeepsActive (_ : List (Option FirePoll)) (o : Observation)
    (reports' : List (Option FirePoll)) : Prop :=
  ∀ poll, lastReported reports' = some poll → o.Present poll

/-- When the first document of the snapshot is rejected, the poll passed last, if any, is still
among the documents. -/
def StillPresent (reports : List (Option FirePoll)) (o : Observation)
    (_ : List (Option FirePoll)) : Prop :=
  ∀ document, o.querySnapshot.bind List.head? = some document →
    FirePoll.init o.current document.toDocumentSnapshot = none →
    ∀ poll, lastReported reports = some poll → o.Present poll

@[simp] lemma lastReported_concat (reports : List (Option FirePoll)) (report : Option FirePoll) :
    lastReported (reports ++ [report]) = report := by
  simp [lastReported]

/-- A callback keeps the last value within the snapshot iff it does not pass over a rejected
document while a withdrawn poll is the last value.

**Proof sketch.** Without documents nil is passed. An accepted first document is passed itself,
under its own id. A rejected one passes nothing, so what was passed before stays the last. -/
lemma keepsActive_iff {reports reports' : List (Option FirePoll)} {o : Observation}
    (h : Step reports o reports') :
    KeepsActive reports o reports' ↔ StillPresent reports o reports' := by
  cases h
  unfold KeepsActive StillPresent
  cases hhead : o.querySnapshot.bind List.head? with
  | none => simp [pollsHandler, hhead]
  | some document =>
    obtain ⟨documents, hdocs, hfirst⟩ := Option.bind_eq_some_iff.mp hhead
    cases hinit : FirePoll.init o.current document.toDocumentSnapshot with
    | none => simp [pollsHandler, hhead, hinit]
    | some newPoll =>
      obtain ⟨value, question, answers, -, -, -, rfl⟩ := FirePoll.init_eq_some.mp hinit
      have hmem : document ∈ documents := List.mem_of_head? hfirst
      refine ⟨fun _ document' hdocument hnone => ?_, fun _ poll hlast => ?_⟩
      · cases hdocument
        rw [hinit] at hnone
        cases hnone
      · simp only [pollsHandler, hhead, hinit, lastReported_concat, Option.some.injEq] at hlast
        subst hlast
        exact ⟨documents, hdocs, document, hmem, rfl⟩

end Observation

/-- **When the observer keeps only active polls**: along every run of callbacks, the last value
passed to the completion is after each of them nil or a poll among the documents of that very
snapshot (hence nil if there are none), if and only if whenever the first document is rejected
the poll passed last is still among the documents. -/
theorem keeps_active_iff (tr : List (Observation × List (Option FirePoll)))
    (hrun : Along Observation.Step [] tr) :
    Along Observation.KeepsActive [] tr ↔ Along Observation.StillPresent [] tr :=
  along_congr hrun fun _ _ _ => Observation.keepsActive_iff

/-- An active poll document that `FirePoll.init` accepts, and one without a question. -/
def activePoll (documentID : String) (question : FieldValue) : QueryDocumentSnapshot :=
  ⟨⟨["polls"], documentID⟩,
    [("question", question), ("answers", .array [.string "Home", .string "Away"])]⟩

/-- The poll of an accepted `activePoll`, as it is passed to the completion. -/
def reportedPoll (documentID : String) : FirePoll :=
  ⟨⟨["polls"], documentID⟩, documentID, none, "Who wins?", ["Home", "Away"], [0, 0], [0, 0], none⟩

/-- A poll is reported and then withdrawn because no poll is active any more. -/
theorem keeps_active_withdrawn :
    Observation.KeepsActive [some (reportedPoll "a")] ⟨none, some []⟩
      [some (reportedPoll "a"), none] := by
  refine ((keeps_active_iff
    [(⟨none, some [activePoll "a" (.string "Who wins?")]⟩, [some (reportedPoll "a")]),
      (⟨none, some []⟩, [some (reportedPoll "a"), none])]
    ⟨by unfold Observation.Step; decide, by unfold Observation.Step; decide, trivial⟩).mpr
    ⟨?_, ?_, trivial⟩).2.1
  · intro document _ _ poll hlast
    simp [lastReported] at hlast
  · intro document hhead
    simp at hhead

/-- **A poll kept for ever**: after the poll `a` was reported, a snapshot in which only a poll
`b` without a question is active leaves `a` as the last value. -/
theorem keeps_inactive_poll :
    Along Observation.Step []
      [(⟨none, some [activePoll "a" (.string "Who wins?")]⟩, [some (reportedPoll "a")]),
        (⟨none, some [activePoll "b" .null]⟩, [some (reportedPoll "a")])] ∧
    ¬ Observation.KeepsActive [some (reportedPoll "a")] ⟨none, some [activePoll "b" .null]⟩
      [some (reportedPoll "a")] := by
  refine ⟨⟨by unfold Observation.Step; decide, by unfold Observation.Step; decide, trivial⟩,
    fun h => ?_⟩
  obtain ⟨documents, hdocs, d, hd, hkey⟩ := h (reportedPoll "a") rfl
  cases hdocs
  rw [List.mem_singleton.mp hd] at hkey
  revert hkey
  decide

/-! ## Listeners and their removal -/

/-- A manager and the listeners of its query. The `n`-th call of `observePolls` gets the
registration `n`, and its completion is known by the same number. -/
structure Listeners where
  /-- The registration the manager holds. -/
  pollListener : Option ℕ
  /-- The registrations Firestore delivers to. -/
  active : List ℕ
  /-- How many times `observePolls` was called. -/
  registered : ℕ
  /-- The completions called so far, with what they were handed. -/
  calls : List (ℕ × Option FirePoll)

namespace Listeners

/-- What can happen to a manager. -/
inductive Event
  | observePolls
  | removeFirebaseObserver
  /-- Firestore delivers to a registration. -/
  | deliver (registration : ℕ) (o : Observation)

/-- A manager nobody has used yet. -/
def start : Listeners := ⟨none, [], 0, []⟩

/-- `observePolls(completion:)`: the new registration replaces the one the manager holds. -/
def observePolls (s : Listeners) : Listeners :=
  { s with
    pollListener := some s.registered
    active := s.active ++ [s.registered]
    registered := s.registered + 1 }

/-- `removeFirebaseObserver()`: `remove()` ends the deliveries to the registration held. -/
def removeFirebaseObserver (s : Listeners) : Listeners :=
  { s with
    pollListener := none
    active := match s.pollListener with
      | some registration => s.active.erase registration
      | none => s.active }

/-- A delivery to an active registration runs its closure. -/
def deliver (s : Listeners) (registration : ℕ) (o : Observation) : Listeners :=
  { s with calls := s.calls ++ (pollsHandler o.current o.querySnapshot).map (registration, ·) }

/-- The steps of manager and Firestore; only active registrations are delivered to. -/
inductive Step : Listeners → Event → Listeners → Prop
  | observePolls (s : Listeners) : Step s .observePolls s.observePolls
  | removeFirebaseObserver (s : Listeners) :
      Step s .removeFirebaseObserver s.removeFirebaseObserver
  | deliver (s : Listeners) (registration : ℕ) (o : Observation)
      (h : registration ∈ s.active) : Step s (.deliver registration o) (s.deliver registration o)

/-- At most one listener is active after the step. -/
def AtMostOne (_ : Listeners) (_ : Event) (s' : Listeners) : Prop := s'.active.length ≤ 1

/-- After each `removeFirebaseObserver()` of the run, no completion handed over before it is
called any more. -/
def SilentAfterRemoval (s : Listeners) (tr : List (Event × Listeners)) : Prop :=
  ∀ tr₁ s₁ tr₂, tr = tr₁ ++ (.removeFirebaseObserver, s₁) :: tr₂ →
    ∃ later, (final s tr).calls = s₁.calls ++ later ∧ ∀ call ∈ later, s₁.registered ≤ call.1

/-- `observePolls` is only called while the manager holds no registration. -/
def ObservesWhenFree (s : Listeners) (e : Event) (_ : Listeners) : Prop :=
  e = .observePolls → s.pollListener = none

/-- The invariant of a manager used that way: Firestore serves exactly the registration held. -/
def HoldsActive (s : Listeners) : Prop := s.active = s.pollListener.toList

/-- Steps that observe only when free keep the invariant. -/
lemma holdsActive_step {s s' : Listeners} {e : Event} (hs : HoldsActive s) (h : Step s e s')
    (hfree : ObservesWhenFree s e s') : HoldsActive s' := by
  unfold HoldsActive at *
  cases h with
  | observePolls => simp [observePolls, hs, hfree rfl]
  | removeFirebaseObserver =>
    unfold removeFirebaseObserver
    cases hslot : s.pollListener <;> simp [hs, hslot]
  | deliver => exact hs

/-- From a state in which Firestore serves the registration held, a step leaves at most one
active listener iff it does not observe over a registration. -/
lemma atMostOne_iff {s s' : Listeners} {e : Event} (hs : HoldsActive s) (h : Step s e s') :
    AtMostOne s e s' ↔ ObservesWhenFree s e s' := by
  unfold HoldsActive at hs
  cases h with
  | observePolls =>
    cases hslot : s.pollListener <;>
      simp [AtMostOne, ObservesWhenFree, observePolls, hs, hslot]
  | removeFirebaseObserver =>
    cases hslot : s.pollListener <;>
      simp [AtMostOne, ObservesWhenFree, removeFirebaseObserver, hs, hslot]
  | deliver =>
    cases hslot : s.pollListener <;> simp [AtMostOne, ObservesWhenFree, deliver, hs, hslot]

/-- What holds after a removal in `s₁` that left no listener: those active since, and the
completions called since, were registered after it. -/
def SilentSince (s₁ s : Listeners) : Prop :=
  s₁.registered ≤ s.registered ∧ (∀ registration ∈ s.active, s₁.registered ≤ registration) ∧
    ∃ later, s.calls = s₁.calls ++ later ∧ ∀ call ∈ later, s₁.registered ≤ call.1

/-- Every step keeps the earlier completions silent. -/
lemma silentSince_step {s₁ s s' : Listeners} {e : Event} (hs : SilentSince s₁ s)
    (h : Step s e s') : SilentSince s₁ s' := by
  obtain ⟨hreg, hactive, later, hcalls, hlater⟩ := hs
  cases h with
  | observePolls =>
    refine ⟨Nat.le_succ_of_le hreg, fun registration hmem => ?_, later, hcalls, hlater⟩
    rcases List.mem_append.mp hmem with hmem | hmem
    · exact hactive registration hmem
    · rw [List.mem_singleton.mp hmem]
      exact hreg
  | removeFirebaseObserver =>
    refine ⟨hreg, fun registration hmem => ?_, later, hcalls, hlater⟩
    unfold removeFirebaseObserver at hmem
    cases hslot : s.pollListener with
    | none => exact hactive registration (by simpa [hslot] using hmem)
    | some held =>
      simp only [hslot] at hmem
      exact hactive registration (List.mem_of_mem_erase hmem)
  | deliver registration o hmem =>
    refine ⟨hreg, hactive, later ++ (pollsHandler o.current o.querySnapshot).map (registration, ·),
      by simp [deliver, hcalls], fun call hcall => ?_⟩
    rcases List.mem_append.mp hcall with hcall | hcall
    · exact hlater call hcall
    · obtain ⟨report, -, rfl⟩ := List.mem_map.mp hcall
      exact hactive registration hmem

/-- A manager that observes only when free silences every earlier completion by a removal. -/
lemma silentAfterRemoval {s : Listeners} {tr : List (Event × Listeners)} (hs : HoldsActive s)
    (hrun : Along Step s tr) (hfree : Along ObservesWhenFree s tr) : SilentAfterRemoval s tr := by
  rintro tr₁ s₁ tr₂ rfl
  obtain ⟨hrun₁, hremove, hrun₂⟩ := (along_append _ _ _).mp hrun
  obtain ⟨hfree₁, hfree'⟩ := (along_append _ _ _).mp hfree
  have hbefore : HoldsActive (final s tr₁) :=
    hrun₁.final_invariant_of hfree₁ hs fun _ _ _ => holdsActive_step
  have hafter : HoldsActive s₁ := holdsActive_step hbefore hremove hfree'.1
  have hnone : s₁.active = [] := by
    cases hremove
    simpa [HoldsActive, removeFirebaseObserver] using hafter
  have hsince : SilentSince s₁ (final s₁ tr₂) := by
    refine hrun₂.final_invariant (I := SilentSince s₁) ⟨le_rfl, ?_, [], by simp, by simp⟩
      fun _ _ _ => silentSince_step
    simp [hnone]
  rw [final_append]
  exact hsince.2.2

end Listeners

/-- **When no listener outlives its removal**: along every run of observing, removing and
deliveries, at most one listener is active at every moment and after each removal no completion
handed over earlier is called, if and only if `observePolls` is only called while the manager
holds no registration. -/
theorem no_listener_outlives_iff (tr : List (Listeners.Event × Listeners))
    (hrun : Along Listeners.Step Listeners.start tr) :
    (Along Listeners.AtMostOne Listeners.start tr ∧
        Listeners.SilentAfterRemoval Listeners.start tr) ↔
      Along Listeners.ObservesWhenFree Listeners.start tr := by
  have hstart : Listeners.HoldsActive Listeners.start := rfl
  have hiff := along_iff hrun hstart (fun _ _ _ => Listeners.holdsActive_step)
    fun _ _ _ => Listeners.atMostOne_iff
  rw [hiff]
  exact ⟨And.left, fun hfree => ⟨hfree, Listeners.silentAfterRemoval hstart hrun hfree⟩⟩

/-- Observing, a delivery and a removal leave no active listener. -/
theorem no_listener_outlives_once :
    Listeners.AtMostOne (Listeners.start.observePolls.deliver 0 ⟨none, none⟩)
      .removeFirebaseObserver
      (Listeners.start.observePolls.deliver 0 ⟨none, none⟩).removeFirebaseObserver := by
  refine ((no_listener_outlives_iff
    [(.observePolls, Listeners.start.observePolls),
      (.deliver 0 ⟨none, none⟩, Listeners.start.observePolls.deliver 0 ⟨none, none⟩),
      (.removeFirebaseObserver,
        (Listeners.start.observePolls.deliver 0 ⟨none, none⟩).removeFirebaseObserver)]
    ⟨.observePolls _, .deliver _ _ _ (by decide), .removeFirebaseObserver _, trivial⟩).mpr
    (by simp [Listeners.ObservesWhenFree, Listeners.start])).1.2.2.1

/-- **A listener that outlives its removal**: when `observePolls` is called twice, both listeners
are active, the removal ends the second one only, and a delivery still reaches the completion of
the first. -/
theorem listener_outlives_removal :
    Along Listeners.Step Listeners.start
      [(.observePolls, Listeners.start.observePolls),
        (.observePolls, Listeners.start.observePolls.observePolls),
        (.removeFirebaseObserver, Listeners.start.observePolls.observePolls.removeFirebaseObserver),
        (.deliver 0 ⟨none, none⟩,
          Listeners.start.observePolls.observePolls.removeFirebaseObserver.deliver 0
            ⟨none, none⟩)] ∧
    Listeners.start.observePolls.observePolls.active = [0, 1] ∧
    Listeners.start.observePolls.observePolls.removeFirebaseObserver.calls = [] ∧
    (Listeners.start.observePolls.observePolls.removeFirebaseObserver.deliver 0
      ⟨none, none⟩).calls = [(0, none)] :=
  ⟨⟨.observePolls _, .observePolls _, .removeFirebaseObserver _, .deliver _ _ _ (by decide),
    trivial⟩, by decide, by decide, by decide⟩

end FirePollManager

end AntViewer
