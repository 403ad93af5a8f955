import AntViewer.Library.DispatchGroup
import AntViewer.Library.Runs
import AntViewer.MessageFetcher

set_option relaxedAutoImplicit false
set_option autoImplicit false

/-!
# Fetching the feed in batches

`MessageFetcher.setInfoTo(lives:completion:)` and `setLatestMessagesTo(VODs:completion:)` issue
reads for all videos of a list and join them in a dispatch group. A call is run statement by
statement: its loop may execute the next statement, or Firestore may call back any of the reads
that are under way, at any time and in any order. The videos are objects, given by references
that the list may repeat, and storage is a parameter.

## Main definitions

* `MessageFetcher.setInfoTo`, `setLatestMessagesTo` — the two functions, as statements.
* `MessageFetcher.exec`, `callback`, `Batch.Step` — what a statement and a callback do.
* `MessageFetcher.Joined` — the invariant of the group.

## Main results

* `MessageFetcher.joined_step` — every step keeps the invariant of the group.
* `MessageFetcher.completesOnce_run` — when a call triggers its completion.
-/

namespace AntViewer

open Runs

namespace MessageFetcher

/-- A reference to a video object. -/
abbrev Ref := ℕ

/-- A read under way, by the closure of the caller that waits for it. -/
inductive Read
  /-- `getLatestMessageFor` in `setInfoTo`. -/
  | latestMessage (video : Ref)
  /-- `checkPollStatus` in `setInfoTo`. -/
  | pollStatus (live : Ref)
  /-- `checkChatState` in `setInfoTo`. -/
  | chatState (live : Ref)
  /-- `getLatestMessageFor` in `setLatestMessagesTo`, whose closure also saves the result. -/
  | latestComment (video : Ref)
  deriving DecidableEq

/-- The video a read is about. -/
def Read.video : Read → Ref
  | latestMessage video => video
  | pollStatus live => live
  | chatState live => live
  | latestComment video => video

/-- A statement of the two functions. -/
inductive Stmt
  | enter
  | issue (read : Read)
  /-- Loads the stored entry of a video; one with a loaded comment gives it to the video and
  leaves the group, another one issues a read. -/
  | consult (video : Ref)
  | leave
  | notify
  deriving DecidableEq

/-- `setInfoTo(lives:completion:)`; the dictionary `liveInfo` it begins with is never read. -/
def setInfoTo (lives : List Ref) : List Stmt :=
  lives.flatMap (fun video =>
    [.enter, .issue (.latestMessage video), .enter, .issue (.pollStatus video),
      .enter, .issue (.chatState video)]) ++ [.notify]

/-- `setLatestMessagesTo(VODs:completion:)`. -/
def setLatestMessagesTo (VODs : List Ref) : List Stmt :=
  VODs.flatMap (fun video => [.enter, .consult video]) ++ [.notify]

/-- What the calls share: the videos, the stored entries, and a log of what was saved. -/
structure World (σ : Type) where
  videos : Ref → VideoContent
  stored : σ
  saves : List (ℤ × Option LatestComment)

/-- A call: the statements left, the reads under way and its group. -/
structure Call where
  rest : List Stmt
  pending : List Read
  group : DispatchGroup
  deriving DecidableEq

/-- A call and the world it runs in. -/
structure Batch (σ : Type) where
  world : World σ
  call : Call

/-- A call at its beginning. -/
def Call.start (stmts : List Stmt) : Call := ⟨stmts, [], DispatchGroup.create⟩

variable {σ : Type} (storage : StorageManager σ)

/-- Assigns to a video. -/
def World.assign (w : World σ) (video : Ref) (f : VideoContent → VideoContent) : World σ :=
  { w with videos := Function.update w.videos video (f (w.videos video)) }

/-- The closure of the caller that waits for a read, up to `group.leave()`. -/
def callback (w : World σ) (outcome : Outcome) : Read → World σ
  | .latestMessage video =>
    w.assign video fun v => { v with latestMessage := latestMessage v.id outcome }
  | .pollStatus live => w.assign live fun v => { v with isPollOn := isPollOn v.id outcome }
  | .chatState live => w.assign live fun v => { v with isChatOn := isChatOn v.id outcome }
  | .latestComment video =>
    let id := (w.videos video).id
    let latestComment := latestMessage id outcome
    { w.assign video fun v => { v with latestMessage := latestComment } with
      stored := storage.saveLatestComment w.stored id latestComment
      saves := w.saves ++ [(id, latestComment)] }

/-- Executes a statement; the call has the statements after it left. -/
def exec (w : World σ) (c : Call) : Stmt → Batch σ
  | .enter => ⟨w, { c with group := c.group.enter }⟩
  | .issue read => ⟨w, { c with pending := c.pending ++ [read] }⟩
  | .consult video =>
    let vodFromCache := storage.loadVideoContent w.stored (w.videos video).id
    if vodFromCache.latestCommentLoaded then
      ⟨w.assign video fun v => { v with latestMessage := vodFromCache.latestMessage },
        { c with rest := .leave :: c.rest }⟩
    else ⟨w, { c with pending := c.pending ++ [.latestComment video] }⟩
  | .leave => ⟨w, { c with group := c.group.leave }⟩
  | .notify => ⟨w, { c with group := c.group.notify }⟩

/-- Calls a read back, the `i`-th of those under way. -/
def deliver (w : World σ) (c : Call) (i : ℕ) (read : Read) (outcome : Outcome) : Batch σ :=
  ⟨callback storage w outcome read,
    { c with pending := c.pending.eraseIdx i, group := c.group.leave }⟩

/-- What can happen to a call: its loop goes on, or a read under way is called back. -/
inductive Event
  | loop
  | deliver (i : ℕ) (outcome : Outcome)

/-- Is it a callback? -/
def Event.isDelivery : Event → Bool
  | loop => false
  | deliver _ _ => true

/-- The steps of a call. The reads of a stream are answered as `answers` allows. -/
inductive Batch.Step (answers : ℤ → Outcome → Prop) : Batch σ → Event → Batch σ → Prop
  | loop (s : Batch σ) (stmt : Stmt) (rest : List Stmt) (h : s.call.rest = stmt :: rest) :
      Step answers s .loop (exec storage s.world { s.call with rest := rest } stmt)
  | deliver (s : Batch σ) (i : ℕ) (read : Read) (outcome : Outcome)
      (hread : s.call.pending[i]? = some read)
      (houtcome : answers (s.world.videos read.video).id outcome) :
      Step answers s (.deliver i outcome) (deliver storage s.world s.call i read outcome)

/-- The step function of a call: nil where the event is not possible. -/
def Batch.next (s : Batch σ) : Event → Option (Batch σ)
  | .loop =>
    match s.call.rest with
    | stmt :: rest => some (exec storage s.world { s.call with rest := rest } stmt)
    | [] => none
  | .deliver i outcome =>
    match s.call.pending[i]? with
    | some read => some (MessageFetcher.deliver storage s.world s.call i read outcome)
    | none => none

/-- The run of a call whose reads are answered by their ids, by what comes next each time: a turn
of the loop, or the callback of one of the reads under way. -/
def Batch.schedule (outcome : ℤ → Outcome) : Batch σ → List (Option ℕ) → List (Event × Batch σ)
  | _, [] => []
  | s, pick :: picks =>
    let e := match pick with
      | none => .loop
      | some i =>
        .deliver i
          (outcome ((s.call.pending[i]?).elim 0 fun read => (s.world.videos read.video).id))
    match s.next storage e with
    | some s' => (e, s') :: schedule outcome s' picks
    | none => schedule outcome s picks

/-! ## The group -/

/-- Statements that enter the group before they use it and end with `notify`; the number says
how often the group was entered for statements that are still to come. -/
inductive Balanced : ℕ → List Stmt → Prop
  | enter {k : ℕ} {rest : List Stmt} (h : Balanced (k + 1) rest) : Balanced k (.enter :: rest)
  | issue {k : ℕ} {rest : List Stmt} (read : Read) (h : Balanced k rest) :
      Balanced (k + 1) (.issue read :: rest)
  | consult {k : ℕ} {rest : List Stmt} (video : Ref) (h : Balanced k rest) :
      Balanced (k + 1) (.consult video :: rest)
  | leave {k : ℕ} {rest : List Stmt} (h : Balanced k rest) : Balanced (k + 1) (.leave :: rest)
  | notify : Balanced 0 [.notify]

/-- The invariant of the group: it owes a leave for each read under way and for each statement
to come that it was already entered for; after the loop, it was handed the completion. -/
def Joined (c : Call) : Prop :=
  (∃ k, Balanced k c.rest ∧ c.group.Owes (c.pending.length + k) 0) ∨
    (c.rest = [] ∧ c.group.Owes c.pending.length 1)

/-- `setInfoTo` uses its group properly. -/
lemma balanced_setInfoTo (lives : List Ref) : Balanced 0 (setInfoTo lives) := by
  unfold setInfoTo
  induction lives with
  | nil => exact .notify
  | cons live lives ih =>
    exact .enter (.issue _ (.enter (.issue _ (.enter (.issue _ ih)))))

/-- `setLatestMessagesTo` uses its group properly. -/
lemma balanced_setLatestMessagesTo (VODs : List Ref) : Balanced 0 (setLatestMessagesTo VODs) := by
  unfold setLatestMessagesTo
  induction VODs with
  | nil => exact .notify
  | cons VOD VODs ih => exact .enter (.consult _ ih)

/-- A call that uses its group properly starts in the invariant. -/
lemma joined_start {stmts : List Stmt} (h : Balanced 0 stmts) : Joined (Call.start stmts) :=
  Or.inl ⟨0, h, DispatchGroup.Owes.create⟩

variable {storage} {answers : ℤ → Outcome → Prop} {s s' : Batch σ} {e : Event}

/-- Consulting an entry with a loaded comment. -/
lemma exec_consult_loaded {w : World σ} {c : Call} {video : Ref}
    (h : (storage.loadVideoContent w.stored (w.videos video).id).latestCommentLoaded) :
    exec storage w c (.consult video) =
      ⟨w.assign video fun v => { v with
          latestMessage :=
            (storage.loadVideoContent w.stored (w.videos video).id).latestMessage },
        { c with rest := .leave :: c.rest }⟩ := by
  simp only [exec, h, if_true]

/-- Consulting an entry without one. -/
lemma exec_consult_missing {w : World σ} {c : Call} {video : Ref}
    (h : ¬ (storage.loadVideoContent w.stored (w.videos video).id).latestCommentLoaded) :
    exec storage w c (.consult video) =
      ⟨w, { c with pending := c.pending ++ [.latestComment video] }⟩ := by
  simp only [exec, h]
  rfl

/-- What the step function does is a step if the answers of a callback are allowed. -/
lemma step_of_next (h : s.next storage e = some s')
    (hanswers : ∀ i outcome read, e = .deliver i outcome → s.call.pending[i]? = some read →
      answers (s.world.videos read.video).id outcome) :
    Batch.Step storage answers s e s' := by
  cases e with
  | loop =>
    cases hrest : s.call.rest with
    | nil => simp [Batch.next, hrest] at h
    | cons stmt rest =>
      simp only [Batch.next, hrest, Option.some.injEq] at h
      exact h ▸ .loop s stmt rest hrest
  | deliver i outcome =>
    cases hread : s.call.pending[i]? with
    | none => simp [Batch.next, hread] at h
    | some read =>
      simp only [Batch.next, hread, Option.some.injEq] at h
      exact h ▸ .deliver s i read outcome hread (hanswers i outcome read rfl hread)

/-- Such a run answers the reads as it should. -/
lemma Batch.along_schedule {outcome : ℤ → Outcome} (picks : List (Option ℕ)) :
    Along (Batch.Step storage fun id o => o = outcome id) s
      (s.schedule storage outcome picks) := by
  induction picks generalizing s with
  | nil => trivial
  | cons pick picks ih =>
    unfold schedule
    dsimp only
    split
    · rename_i s' hnext
      refine ⟨step_of_next hnext fun i o read he hread => ?_, ih⟩
      cases pick with
      | none => cases he
      | some j =>
        obtain ⟨rfl, rfl⟩ := Event.deliver.inj he
        rw [hread, Option.elim_some]
    · exact ih

/-- Executing a statement keeps the invariant of the group. -/
lemma joined_exec {w : World σ} {c : Call} {stmt : Stmt} {rest : List Stmt} {k : ℕ}
    (hbal : Balanced k (stmt :: rest)) (howes : c.group.Owes (c.pending.length + k) 0) :
    Joined (exec storage w { c with rest := rest } stmt).call := by
  have hissue : ∀ read : Read, ∀ k', k = k' + 1 →
      c.group.Owes ((c.pending ++ [read]).length + k') 0 := by
    rintro read k' rfl
    rwa [List.length_append, List.length_singleton, Nat.add_assoc, Nat.add_comm 1]
  cases hbal with
  | enter hrest => exact Or.inl ⟨k + 1, hrest, howes.enter⟩
  | issue read hrest => exact Or.inl ⟨_, hrest, hissue read _ rfl⟩
  | consult video hrest =>
    by_cases hloaded :
        (storage.loadVideoContent w.stored (w.videos video).id).latestCommentLoaded
    · -- the group still owes the leave, which is now a statement of its own
      rw [exec_consult_loaded hloaded]
      exact Or.inl ⟨_, .leave hrest, howes⟩
    · rw [exec_consult_missing hloaded]
      exact Or.inl ⟨_, hrest, hissue (.latestComment video) _ rfl⟩
  | leave hrest => exact Or.inl ⟨_, hrest, howes.leave⟩
  | notify => exact Or.inr ⟨rfl, howes.notify⟩

/-- Every step keeps the invariant of the group. -/
lemma joined_step (hs : Joined s.call) (h : Batch.Step storage answers s e s') :
    Joined s'.call := by
  cases h with
  | loop stmt rest hrest =>
    rcases hs with ⟨k, hbal, howes⟩ | ⟨hnil, -⟩
    · exact joined_exec (hrest ▸ hbal) howes
    · rw [hnil] at hrest
      cases hrest
  | deliver i read outcome hread =>
    have hi : i < s.call.pending.length := (List.getElem?_eq_some_iff.mp hread).1
    have hlen : s.call.pending.length = (s.call.pending.eraseIdx i).length + 1 := by
      rw [List.length_eraseIdx_of_lt hi]
      omega
    rcases hs with ⟨k, hbal, howes⟩ | ⟨hnil, howes⟩
    · refine Or.inl ⟨k, hbal, DispatchGroup.Owes.leave ?_⟩
      rwa [hlen, Nat.add_right_comm] at howes
    · refine Or.inr ⟨hnil, DispatchGroup.Owes.leave ?_⟩
      rwa [hlen] at howes

/-- What the invariant says about the completion. -/
structure CompletesOnce (c : Call) : Prop where
  /-- The group is never left more often than it was entered. -/
  left_le : c.group.left ≤ c.group.entered
  /-- The completion is triggered at most once. -/
  once : c.group.fired ≤ 1
  /-- It is triggered iff the loop has ended and no callback is outstanding. -/
  fired_iff : c.group.fired = 1 ↔ c.rest = [] ∧ c.pending = []

/-- The invariant of the group determines when the completion is triggered. -/
lemma Joined.completesOnce {c : Call} (h : Joined c) : CompletesOnce c := by
  rcases h with ⟨k, hbal, howes⟩ | ⟨hnil, howes⟩
  · have hne : c.rest ≠ [] := by
      intro hnil
      rw [hnil] at hbal
      cases hbal
    have hfired := howes.fired_le
    refine ⟨howes.left_le, by omega, ⟨fun h => by omega, fun h => absurd h.1 hne⟩⟩
  · refine ⟨howes.left_le, howes.fired_le, ?_⟩
    rw [howes.fired_eq_iff one_ne_zero, List.length_eq_zero_iff]
    exact ⟨fun h => ⟨hnil, h⟩, fun h => h.2⟩

/-- A call that uses its group properly completes once, whatever its reads are answered with. -/
lemma completesOnce_run {w : World σ} {stmts : List Stmt} {tr : List (Event × Batch σ)}
    (hbal : Balanced 0 stmts) (hrun : Along (Batch.Step storage answers) ⟨w, Call.start stmts⟩ tr) :
    CompletesOnce (final ⟨w, Call.start stmts⟩ tr).call := by
  have hjoined := hrun.final_invariant (I := fun s => Joined s.call) (joined_start hbal)
    fun _ _ _ => joined_step
  exact hjoined.completesOnce

end MessageFetcher

end AntViewer
