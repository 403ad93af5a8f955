import AntViewer.BatchFetch

set_option relaxedAutoImplicit false
set_option autoImplicit false

/-!
# Failed fetches of the latest comments

Calls of `setLatestMessagesTo(VODs:completion:)` share the videos and storage. The closure that
waits for the newest message gets an empty dictionary when the query failed, as it does for an
empty collection, and assigns and saves what it finds in there.

## Main definitions

* `MessageFetcher.Calls` — any number of calls, at any stage, over one world.
* `MessageFetcher.FetchSound` — only cached comments and outcomes of successful queries are
  assigned and saved, and a failed query changes nothing.

## Main results

* `MessageFetcher.fetch_sound_iff` — this is so along a run iff none of its queries fails.
-/

namespace AntViewer

open Runs

namespace MessageFetcher

/-- The calls of `setLatestMessagesTo` made so far and the world they share. -/
structure Calls (σ : Type) where
  world : World σ
  calls : List Call

/-- What can happen: another call, or something in the `i`-th one. -/
inductive Calls.Event
  | setLatestMessagesTo (VODs : List Ref)
  | inCall (i : ℕ) (event : MessageFetcher.Event)

variable {σ : Type} (storage : StorageManager σ)

/-- The steps of the calls; a query may be answered in any way. -/
inductive Calls.Step : Calls σ → Calls.Event → Calls σ → Prop
  | setLatestMessagesTo (s : Calls σ) (VODs : List Ref) :
      Step s (.setLatestMessagesTo VODs)
        { s with calls := s.calls ++ [Call.start (MessageFetcher.setLatestMessagesTo VODs)] }
  | inCall (s : Calls σ) (i : ℕ) (c : Call) (e : MessageFetcher.Event) (b : Batch σ)
      (hc : s.calls[i]? = some c)
      (h : Batch.Step storage (fun _ _ => True) ⟨s.world, c⟩ e b) :
      Step s (.inCall i e) ⟨b.world, s.calls.set i b.call⟩

/-- The step function of the calls: nil where the event is not possible. -/
def Calls.next (s : Calls σ) : Calls.Event → Option (Calls σ)
  | .setLatestMessagesTo VODs =>
    some { s with calls := s.calls ++ [Call.start (MessageFetcher.setLatestMessagesTo VODs)] }
  | .inCall i e =>
    match s.calls[i]? with
    | some c => ((⟨s.world, c⟩ : Batch σ).next storage e).map fun b =>
        ⟨b.world, s.calls.set i b.call⟩
    | none => none

variable {storage} {s s' : Calls σ} {e : Calls.Event}

/-- What the step function does is a step. -/
lemma Calls.step_of_next (h : s.next storage e = some s') : Calls.Step storage s e s' := by
  cases e with
  | setLatestMessagesTo VODs =>
    simp only [Calls.next, Option.some.injEq] at h
    exact h ▸ .setLatestMessagesTo s VODs
  | inCall i e =>
    cases hc : s.calls[i]? with
    | none => simp [Calls.next, hc] at h
    | some c =>
      simp only [Calls.next, hc, Option.map_eq_some_iff] at h
      obtain ⟨b, hb, rfl⟩ := h
      exact .inCall s i c e b hc (MessageFetcher.step_of_next hb fun _ _ _ _ _ => trivial)

/-- In this step the query for a video is called back with an outcome. -/
def Delivered (s : Calls σ) (e : Calls.Event) (video : Ref) (outcome : Outcome) : Prop :=
  ∃ i j c, e = .inCall i (.deliver j outcome) ∧ s.calls[i]? = some c ∧
    c.pending[j]? = some (.latestComment video)

/-- What a step may do to the newest messages and to storage. -/
structure FetchSound (storage : StorageManager σ) (s : Calls σ) (e : Calls.Event)
    (s' : Calls σ) : Prop where
  /-- The newest message of a video is only changed to that of a loaded entry or to the outcome
  of a query that succeeded. -/
  changed : ∀ video, (s'.world.videos video).latestMessage ≠
      (s.world.videos video).latestMessage →
    let id := (s.world.videos video).id
    ((storage.loadVideoContent s.world.stored id).latestCommentLoaded ∧
      (s'.world.videos video).latestMessage =
        (storage.loadVideoContent s.world.stored id).latestMessage) ∨
    ∃ outcome, Delivered s e video outcome ∧ outcome.messages.isSome ∧
      (s'.world.videos video).latestMessage = latestMessage id outcome
  /-- Only the outcome of a query that succeeded is saved. -/
  saved : (s'.world.stored = s.world.stored ∧ s'.world.saves = s.world.saves) ∨
    ∃ video outcome, Delivered s e video outcome ∧ outcome.messages.isSome ∧
      let id := (s.world.videos video).id
      s'.world.stored = storage.saveLatestComment s.world.stored id (latestMessage id outcome) ∧
      s'.world.saves = s.world.saves ++ [(id, latestMessage id outcome)]
  /-- A query that fails changes neither videos nor storage. -/
  failed : ∀ video outcome, Delivered s e video outcome → outcome.messages = none →
    s'.world = s.world

/-- No query is called back with a nil snapshot in this step. -/
def Succeeds (_ : Calls σ) (e : Calls.Event) (_ : Calls σ) : Prop :=
  ∀ i j outcome, e = .inCall i (.deliver j outcome) → outcome.messages.isSome

/-- The calls read newest messages for `setLatestMessagesTo` and nothing else. -/
def ReadsComments (s : Calls σ) : Prop :=
  ∀ c ∈ s.calls, (∀ read, .issue read ∉ c.rest) ∧
    ∀ read ∈ c.pending, ∃ video, read = .latestComment video

/-- Executing a statement that issues no read for another function issues none. -/
lemma readsComments_exec {w : World σ} {c : Call} {stmt : Stmt} {rest : List Stmt}
    (hrest : c.rest = stmt :: rest) (hissue : ∀ read, .issue read ∉ c.rest)
    (hpending : ∀ read ∈ c.pending, ∃ video, read = .latestComment video) :
    let c' := (exec storage w { c with rest := rest } stmt).call
    (∀ read, .issue read ∉ c'.rest) ∧
      ∀ read ∈ c'.pending, ∃ video, read = .latestComment video := by
  have htail : ∀ read, Stmt.issue read ∉ rest := fun read h =>
    hissue read (hrest ▸ List.mem_cons_of_mem _ h)
  cases stmt with
  | enter | leave | notify => exact ⟨htail, hpending⟩
  | issue read => exact absurd (hrest ▸ List.mem_cons_self) (hissue read)
  | consult video =>
    by_cases hloaded :
        (storage.loadVideoContent w.stored (w.videos video).id).latestCommentLoaded
    · rw [exec_consult_loaded hloaded]
      exact ⟨fun read h => htail read (by simpa using h), hpending⟩
    · rw [exec_consult_missing hloaded]
      refine ⟨htail, fun read h => ?_⟩
      rcases List.mem_append.mp h with h | h
      · exact hpending read h
      · exact ⟨video, List.mem_singleton.mp h⟩

/-- Every step keeps the calls to these reads. -/
lemma readsComments_step (hs : ReadsComments s) (h : Calls.Step storage s e s') :
    ReadsComments s' := by
  cases h with
  | setLatestMessagesTo VODs =>
    intro c hc
    rcases List.mem_append.mp hc with hc | hc
    · exact hs c hc
    · rw [List.mem_singleton.mp hc]
      simp [Call.start, MessageFetcher.setLatestMessagesTo]
  | inCall i c e b hc h =>
    intro c' hc'
    rcases List.mem_or_eq_of_mem_set hc' with hc' | rfl
    · exact hs c' hc'
    · obtain ⟨hissue, hpending⟩ := hs c (List.mem_of_getElem? hc)
      cases h with
      | loop stmt rest hrest => exact readsComments_exec hrest hissue hpending
      | deliver j read outcome hread =>
        exact ⟨hissue, fun read h => hpending read (List.mem_of_mem_eraseIdx h)⟩

/-- Executing a statement of the loop is sound: it assigns from a loaded entry, if at all. -/
lemma fetchSound_exec {i : ℕ} {c : Call} {stmt : Stmt} :
    let b := exec storage s.world c stmt
    FetchSound storage s (.inCall i .loop) ⟨b.world, s.calls.set i b.call⟩ := by
  have hnone : ∀ video outcome, ¬ Delivered s (.inCall i .loop) video outcome := by
    rintro video outcome ⟨_, _, _, ⟨⟩, _⟩
  cases stmt with
  | enter | leave | notify | issue read =>
    exact ⟨fun video h => absurd rfl h, Or.inl ⟨rfl, rfl⟩, fun _ _ h => absurd h (hnone _ _)⟩
  | consult video =>
    by_cases hloaded : (storage.loadVideoContent s.world.stored
        (s.world.videos video).id).latestCommentLoaded
    · rw [exec_consult_loaded hloaded]
      refine ⟨fun v hchange => Or.inl ?_, Or.inl ⟨rfl, rfl⟩, fun _ _ h => absurd h (hnone _ _)⟩
      by_cases hv : v = video
      · subst hv
        exact ⟨hloaded, by simp [World.assign]⟩
      · simp [World.assign, hv] at hchange
    · rw [exec_consult_missing hloaded]
      exact ⟨fun video h => absurd rfl h, Or.inl ⟨rfl, rfl⟩, fun _ _ h => absurd h (hnone _ _)⟩

/-- Calling a query back is sound iff it succeeded.

**Proof sketch.** The closure always saves, and the one outcome delivered in this step is the
only one that may be saved. -/
lemma fetchSound_deliver_iff {i j : ℕ} {c : Call} {video : Ref} {outcome : Outcome}
    (hc : s.calls[i]? = some c) (hread : c.pending[j]? = some (.latestComment video)) :
    let b := deliver storage s.world c j (.latestComment video) outcome
    FetchSound storage s (.inCall i (.deliver j outcome)) ⟨b.world, s.calls.set i b.call⟩ ↔
      outcome.messages.isSome := by
  have hdelivered : Delivered s (.inCall i (.deliver j outcome)) video outcome :=
    ⟨i, j, c, rfl, hc, hread⟩
  constructor
  · intro h
    rcases h.saved with ⟨-, hsaves⟩ | ⟨_, o, ⟨_, _, _, heq, -, -⟩, hsome, -⟩
    · simp [deliver, callback] at hsaves
    · cases heq
      exact hsome
  · intro hsome
    refine ⟨fun v hchange => Or.inr ⟨outcome, ?_⟩, Or.inr ⟨video, outcome, hdelivered, hsome,
      rfl, rfl⟩, fun _ o h hnone => ?_⟩
    · by_cases hv : v = video
      · subst hv
        exact ⟨hdelivered, hsome, by simp [deliver, callback, World.assign]⟩
      · simp [deliver, callback, World.assign, hv] at hchange
    · obtain ⟨_, _, _, heq, -, -⟩ := h
      cases heq
      rw [hnone] at hsome
      cases hsome

/-- A step of the calls is sound iff no query fails in it. -/
lemma fetchSound_iff (hs : ReadsComments s) (h : Calls.Step storage s e s') :
    FetchSound storage s e s' ↔ Succeeds s e s' := by
  cases h with
  | setLatestMessagesTo VODs =>
    constructor
    · rintro - i j outcome ⟨⟩
    · rintro -
      refine ⟨fun video h => absurd rfl h, Or.inl ⟨rfl, rfl⟩, ?_⟩
      rintro _ _ ⟨_, _, _, ⟨⟩, _⟩
  | inCall i c e b hc h =>
    cases h with
    | loop stmt rest hrest =>
      constructor
      · rintro - i j outcome ⟨⟩
      · exact fun _ => fetchSound_exec
    | deliver j read outcome hread =>
      obtain ⟨video, rfl⟩ := (hs c (List.mem_of_getElem? hc)).2 read (List.mem_of_getElem? hread)
      refine (fetchSound_deliver_iff hc hread).trans ?_
      constructor
      · rintro hsome _ _ _ ⟨⟩
        exact hsome
      · exact fun h => h i j outcome rfl

/-- **When failed fetches leave comments and cache intact**: along every run of any number of
calls of `setLatestMessagesTo`, with queries called back in any order and any way, newest
messages are only set to loaded comments and to outcomes of successful queries, only such
outcomes are saved, and a failed query changes nothing, if and only if no query fails. -/
theorem fetch_sound_iff {σ : Type} (storage : StorageManager σ) (w : World σ)
    (tr : List (Calls.Event × Calls σ)) (hrun : Along (Calls.Step storage) ⟨w, []⟩ tr) :
    Along (FetchSound storage) ⟨w, []⟩ tr ↔ Along Succeeds ⟨w, []⟩ tr :=
  along_iff (I := ReadsComments) hrun (by simp [ReadsComments])
    (fun _ _ _ hs h _ => readsComments_step hs h) fun _ _ _ => fetchSound_iff

/-- A video that shows an older comment, and a storage in which nothing is loaded. -/
def commented : World (ℤ → VideoContentMO) :=
  ⟨fun _ => ⟨7, some ⟨"", "Ann", "Hi", some 0⟩, false, false⟩, fun _ => ⟨false, false, none⟩, []⟩

/-- A call for this video whose query is called back with `messages`, and a second call. -/
def twoCalls (messages : Option (List QueryDocumentSnapshot)) : List Calls.Event :=
  .setLatestMessagesTo [0] :: List.replicate 3 (.inCall 0 .loop) ++
    .inCall 0 (.deliver 0 ⟨messages, none, none⟩) ::
    .setLatestMessagesTo [0] :: List.replicate 4 (.inCall 1 .loop)

/-- Two calls, the first of which finds no comment. -/
theorem fetch_sound_empty :
    Along (FetchSound .dictionary) ⟨commented, []⟩
      (record (Calls.next .dictionary) ⟨commented, []⟩ (twoCalls (some []))) := by
  refine (fetch_sound_iff .dictionary commented _
    (along_record fun _ _ _ _ => Calls.step_of_next)).mpr ?_
  refine along_record fun e he s s' _ => ?_
  rintro i j outcome rfl
  obtain ⟨-, -, rfl⟩ : i = 0 ∧ j = 0 ∧ outcome = ⟨some [], none, none⟩ := by
    simpa [twoCalls] using he
  rfl

/-- **A failure that lasts**: the query of a call fails; the comment the video showed is gone,
the missing comment is saved as loaded, and the second call takes it from storage without
issuing a query. -/
theorem failed_fetch_is_cached :
    let s : Calls (ℤ → VideoContentMO) := ⟨commented, []⟩
    let tr := record (Calls.next .dictionary) s (twoCalls none)
    Along (Calls.Step .dictionary) s tr ∧
    ((final s tr).world.videos 0).latestMessage = none ∧
    (final s tr).world.stored 7 = ⟨false, true, none⟩ ∧
    (final s tr).calls.map (fun c => c.group.fired) = [1, 1] ∧
    tr.countP (fun p => match p.1 with | .inCall _ (.deliver _ _) => true | _ => false) = 1 ∧
    ¬ Along (FetchSound .dictionary) s tr := by
  have hrun : Along (Calls.Step .dictionary) ⟨commented, []⟩
      (record (Calls.next .dictionary) ⟨commented, []⟩ (twoCalls none)) :=
    along_record fun _ _ _ _ => Calls.step_of_next
  refine ⟨hrun, by decide, by decide, by decide, by decide, fun h => ?_⟩
  -- the fifth step calls the query back, and is not allowed to change the video
  have hsound := h.2.2.2.2.1
  have hworld := hsound.failed 0 ⟨none, none, none⟩ ⟨0, 0, _, rfl, rfl, rfl⟩ rfl
  have hmessage := congrArg (fun w => (w.videos 0).latestMessage) hworld
  revert hmessage
  decide

end MessageFetcher

end AntViewer
