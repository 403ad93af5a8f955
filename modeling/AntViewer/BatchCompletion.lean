import AntViewer.BatchFetch

set_option relaxedAutoImplicit false
set_option autoImplicit false

/-!
# What a batch fetch leaves behind

When a call of `setInfoTo` or `setLatestMessagesTo` triggers its completion, every video of its
list shows what its reads were answered with, in whatever order the answers came. The argument
is that each field of each video has one value to expect, given by the id of the video, the
answers and the comments loaded in storage at the start, and that every assignment on the way
is of this value.

## Main definitions

* `MessageFetcher.expected` — the fields to expect; `Toward` — assignments of expected values.
* `MessageFetcher.Fetching` — the invariant of videos and storage.

## Main results

* `MessageFetcher.fetching_step` — every step keeps the invariant.
* `MessageFetcher.batch_fetch_completes` — both calls complete exactly once, after all their
  callbacks, with the fields of every video set to the answers for its own id.
-/

namespace AntViewer

open Runs

namespace MessageFetcher

variable {σ : Type} {storage : StorageManager σ} {answers : ℤ → Outcome → Prop}
  {s s' : Batch σ} {e : Event}

/-! ## The videos -/

/-- What the fields of a video with the given id come to: the newest message is taken from the
cache where the cache has one, and everything else from the answers. -/
def expected (cached : ℤ → Option (Option LatestComment)) (outcome : ℤ → Outcome) (id : ℤ) :
    VideoContent :=
  ⟨id, (cached id).getD (latestMessage id (outcome id)), isPollOn id (outcome id),
    isChatOn id (outcome id)⟩

/-- The field that a read is for is the same in two videos. -/
def Read.SettledAs (expected v : VideoContent) : Read → Prop
  | latestMessage _ | latestComment _ => v.latestMessage = expected.latestMessage
  | pollStatus _ => v.isPollOn = expected.isPollOn
  | chatState _ => v.isChatOn = expected.isChatOn

/-- The field of a video that a read is for is as expected for its id. -/
def Read.Settled (expected : ℤ → VideoContent) (v : VideoContent) (read : Read) : Prop :=
  read.SettledAs (expected v.id) v

/-- A video whose fields are as they were or as expected. -/
structure Toward (expected : ℤ → VideoContent) (v v' : VideoContent) : Prop where
  id : v'.id = v.id
  latestMessage : v'.latestMessage = v.latestMessage ∨
    v'.latestMessage = (expected v.id).latestMessage
  isPollOn : v'.isPollOn = v.isPollOn ∨ v'.isPollOn = (expected v.id).isPollOn
  isChatOn : v'.isChatOn = v.isChatOn ∨ v'.isChatOn = (expected v.id).isChatOn

/-- A video that is not assigned to. -/
lemma Toward.refl (expected : ℤ → VideoContent) (v : VideoContent) : Toward expected v v :=
  ⟨rfl, Or.inl rfl, Or.inl rfl, Or.inl rfl⟩

/-- A field that is as expected stays so. -/
lemma Read.Settled.toward {expected : ℤ → VideoContent} {v v' : VideoContent} {read : Read}
    (h : read.Settled expected v) (hto : Toward expected v v') : read.Settled expected v' := by
  obtain ⟨hid, hmessage, hpoll, hchat⟩ := hto
  cases read with
  | latestMessage | latestComment =>
    simp only [Read.Settled, Read.SettledAs, hid] at h ⊢
    rcases hmessage with heq | heq
    · exact heq.trans h
    · exact heq
  | pollStatus =>
    simp only [Read.Settled, Read.SettledAs, hid] at h ⊢
    rcases hpoll with heq | heq
    · exact heq.trans h
    · exact heq
  | chatState =>
    simp only [Read.Settled, Read.SettledAs, hid] at h ⊢
    rcases hchat with heq | heq
    · exact heq.trans h
    · exact heq

/-- An assignment to one video moves every video towards what is expected if it moves that
one. -/
lemma toward_assign {expected : ℤ → VideoContent} {w : World σ} {video : Ref}
    {f : VideoContent → VideoContent} (hf : Toward expected (w.videos video) (f (w.videos video)))
    (v : Ref) : Toward expected (w.videos v) ((w.assign video f).videos v) := by
  unfold World.assign
  by_cases hv : v = video
  · subst hv
    simpa using hf
  · simpa [hv] using Toward.refl expected (w.videos v)

/-- What a callback assigns to the video of its read. -/
def Read.fetched (outcome : Outcome) (v : VideoContent) : Read → VideoContent
  | latestMessage _ | latestComment _ =>
    { v with latestMessage := MessageFetcher.latestMessage v.id outcome }
  | pollStatus _ => { v with isPollOn := isPollOn v.id outcome }
  | chatState _ => { v with isChatOn := isChatOn v.id outcome }

/-- A callback assigns to the video of its read only. -/
lemma videos_callback (w : World σ) (o : Outcome) (read : Read) :
    (callback storage w o read).videos =
      (w.assign read.video fun v => read.fetched o v).videos := by
  cases read <;> rfl

variable {cached : ℤ → Option (Option LatestComment)} {outcome : ℤ → Outcome}

/-- The answers for a stream that is not cached move its video towards what is expected. -/
lemma toward_fetched {v : VideoContent} (read : Read) (hcached : cached v.id = none) :
    Toward (expected cached outcome) v (read.fetched (outcome v.id) v) := by
  cases read <;> constructor <;> simp [Read.fetched, expected, hcached]

/-- They settle the read. -/
lemma settled_fetched {v : VideoContent} (read : Read) (hcached : cached v.id = none) :
    read.Settled (expected cached outcome) (read.fetched (outcome v.id) v) := by
  cases read <;> simp [Read.fetched, Read.Settled, Read.SettledAs, expected, hcached]

/-- The read that a statement stands for. -/
def Stmt.read : Stmt → Option Read
  | .issue read => some read
  | .consult video => some (.latestComment video)
  | _ => none

/-- The entry of a video to be consulted: a loaded comment is the expected one, and an entry
without one was without one from the start. -/
def EntryOk (storage : StorageManager σ) (cached : ℤ → Option (Option LatestComment))
    (outcome : ℤ → Outcome) (stored : σ) (id : ℤ) : Prop :=
  if (storage.loadVideoContent stored id).latestCommentLoaded then
    (storage.loadVideoContent stored id).latestMessage =
      (expected cached outcome id).latestMessage
  else cached id = none

/-- The invariant of videos and storage: every requested read is still to come, under way, or
has had its effect; what is still to come or under way is about streams that were not cached,
except where the cache is to be consulted first. -/
structure Fetching (storage : StorageManager σ) (cached : ℤ → Option (Option LatestComment))
    (outcome : ℤ → Outcome) (videos : Ref → VideoContent) (requested : List Read)
    (s : Batch σ) : Prop where
  ids : ∀ v, (s.world.videos v).id = (videos v).id
  asked : ∀ read ∈ requested, read ∈ s.call.rest.filterMap Stmt.read ∨
    read ∈ s.call.pending ∨
      read.Settled (expected cached outcome) (s.world.videos read.video)
  issues : ∀ read, .issue read ∈ s.call.rest → cached (videos read.video).id = none
  underway : ∀ read ∈ s.call.pending, cached (videos read.video).id = none
  lawful : ∀ video, .consult video ∈ s.call.rest → storage.Lawful
  entries : ∀ video, .consult video ∈ s.call.rest →
    EntryOk storage cached outcome s.world.stored (videos video).id

variable {videos : Ref → VideoContent} {requested : List Read}

/-- Saving the answers for a stream that was not cached keeps the entries as they should be. -/
lemma entryOk_save {stored : σ} {id id' : ℤ} (hlawful : storage.Lawful)
    (h : EntryOk storage cached outcome stored id) (hcached : cached id' = none) :
    EntryOk storage cached outcome
      (storage.saveLatestComment stored id' (latestMessage id' (outcome id'))) id := by
  unfold EntryOk at *
  by_cases hid : id = id'
  · subst hid
    split
    · rename_i hloaded
      rw [hlawful.saved _ _ _ hloaded]
      simp [expected, hcached]
    · exact hcached
  · rwa [hlawful.other _ _ _ _ hid]

/-- Executing a statement keeps the invariant.

**Proof sketch.** A statement that issues a read turns a read to come into one under way. So
does consulting an entry without a comment, which was without one from the start. A loaded
comment is the expected one, so consulting it settles the read. -/
lemma fetching_exec (hs : Fetching storage cached outcome videos requested s) {stmt : Stmt}
    {rest : List Stmt} (hrest : s.call.rest = stmt :: rest) :
    Fetching storage cached outcome videos requested
      (exec storage s.world { s.call with rest := rest } stmt) := by
  obtain ⟨hids, hasked, hissues, hunderway, hlawful, hentries⟩ := hs
  have hhead : stmt ∈ s.call.rest := by rw [hrest]; exact List.mem_cons_self
  have htail : ∀ stmt' ∈ rest, stmt' ∈ s.call.rest := fun stmt' h => by
    rw [hrest]
    exact List.mem_cons_of_mem _ h
  have hidle : stmt.read = none → ∀ read ∈ requested, read ∈ rest.filterMap Stmt.read ∨
      read ∈ s.call.pending ∨
      read.Settled (expected cached outcome) (s.world.videos read.video) := by
    intro hnone read hread
    simpa [hrest, List.filterMap_cons, hnone] using hasked read hread
  have hissued : ∀ read', stmt.read = some read' → ∀ read ∈ requested,
      read ∈ rest.filterMap Stmt.read ∨ read ∈ s.call.pending ++ [read'] ∨
      read.Settled (expected cached outcome) (s.world.videos read.video) := by
    intro read' hsome read hread
    rcases hasked read hread with hcome | hpending | hsettled
    · simp only [hrest, List.filterMap_cons, hsome, List.mem_cons] at hcome
      rcases hcome with rfl | hcome
      · exact Or.inr (Or.inl (by simp))
      · exact Or.inl hcome
    · exact Or.inr (Or.inl (List.mem_append_left _ hpending))
    · exact Or.inr (Or.inr hsettled)
  have hnew : ∀ read', cached (videos read'.video).id = none →
      ∀ read ∈ s.call.pending ++ [read'], cached (videos read.video).id = none := by
    intro read' hnone read hread
    rcases List.mem_append.mp hread with hread | hread
    · exact hunderway read hread
    · rwa [List.mem_singleton.mp hread]
  cases stmt with
  | enter | leave | notify =>
    exact ⟨hids, hidle rfl, fun read h => hissues read (htail _ h), hunderway,
      fun v h => hlawful v (htail _ h), fun v h => hentries v (htail _ h)⟩
  | issue read =>
    exact ⟨hids, hissued read rfl, fun read h => hissues read (htail _ h),
      hnew read (hissues read hhead), fun v h => hlawful v (htail _ h),
      fun v h => hentries v (htail _ h)⟩
  | consult video =>
    have hentry := hentries video hhead
    rw [← hids] at hentry
    unfold EntryOk at hentry
    split at hentry
    · rename_i hloaded
      rw [exec_consult_loaded hloaded]
      set f : VideoContent → VideoContent := fun v => { v with
        latestMessage := (storage.loadVideoContent s.world.stored
          (s.world.videos video).id).latestMessage } with hf
      have hto : ∀ v, Toward (expected cached outcome) (s.world.videos v)
          ((s.world.assign video f).videos v) :=
        toward_assign ⟨rfl, Or.inr hentry, Or.inl rfl, Or.inl rfl⟩
      refine ⟨fun v => (hto v).id.trans (hids v), fun read hread => ?_,
        fun read h => hissues read (htail _ (by simpa using h)), hunderway,
        fun v h => hlawful v (htail _ (by simpa using h)),
        fun v h => hentries v (htail _ (by simpa using h))⟩
      rcases hasked read hread with hcome | hpending | hsettled
      · simp only [hrest, List.filterMap_cons, Stmt.read, List.mem_cons] at hcome
        rcases hcome with rfl | hcome
        · refine Or.inr (Or.inr ?_)
          simpa [Read.Settled, Read.SettledAs, Read.video, World.assign, hf] using hentry
        · exact Or.inl (by simpa [List.filterMap_cons, Stmt.read] using hcome)
      · exact Or.inr (Or.inl hpending)
      · exact Or.inr (Or.inr (hsettled.toward (hto read.video)))
    · rename_i hmissing
      rw [exec_consult_missing hmissing]
      rw [hids] at hentry
      exact ⟨hids, hissued _ rfl, fun read h => hissues read (htail _ h), hnew _ hentry,
        fun v h => hlawful v (htail _ h), fun v h => hentries v (htail _ h)⟩

/-- A callback keeps the invariant. -/
lemma fetching_deliver (hs : Fetching storage cached outcome videos requested s) {i : ℕ}
    {read : Read} (hread : s.call.pending[i]? = some read) :
    Fetching storage cached outcome videos requested
      (deliver storage s.world s.call i read (outcome (s.world.videos read.video).id)) := by
  obtain ⟨hids, hasked, hissues, hunderway, hlawful, hentries⟩ := hs
  have hmem : read ∈ s.call.pending := List.mem_of_getElem? hread
  have hothers : ∀ read' ∈ s.call.pending, read' = read ∨ read' ∈ s.call.pending.eraseIdx i := by
    obtain ⟨hi, rfl⟩ := List.getElem?_eq_some_iff.mp hread
    intro read' h
    exact List.mem_cons.mp ((List.getElem_cons_eraseIdx_perm hi).mem_iff.mpr h)
  have hcached : cached (s.world.videos read.video).id = none := by
    rw [hids]
    exact hunderway read hmem
  set o := outcome (s.world.videos read.video).id with ho
  have hvideos : ∀ v, (deliver storage s.world s.call i read o).world.videos v =
      (s.world.assign read.video fun v => read.fetched o v).videos v := fun v => by
    rw [← videos_callback]
    rfl
  have hto : ∀ v, Toward (expected cached outcome) (s.world.videos v)
      ((deliver storage s.world s.call i read o).world.videos v) := fun v => by
    rw [hvideos]
    exact toward_assign (toward_fetched read hcached) v
  refine ⟨fun v => (hto v).id.trans (hids v), fun read' hread' => ?_, hissues,
    fun read' h => hunderway read' (List.mem_of_mem_eraseIdx h), hlawful, fun v h => ?_⟩
  · rcases hasked read' hread' with hcome | hpending | hsettled
    · exact Or.inl hcome
    · rcases hothers read' hpending with heq | hother
      · refine Or.inr (Or.inr ?_)
        rw [heq, hvideos]
        simpa [World.assign] using settled_fetched read hcached
      · exact Or.inr (Or.inl hother)
    · exact Or.inr (Or.inr (hsettled.toward (hto read'.video)))
  · have hstored : EntryOk storage cached outcome s.world.stored (videos v).id := hentries v h
    cases hkind : read with
    | latestMessage | pollStatus | chatState => exact hstored
    | latestComment video =>
      rw [ho, hkind]
      rw [hkind] at hcached
      exact entryOk_save (hlawful v h) hstored hcached

/-- Every step keeps the invariant when the reads of a stream are answered as `outcome` says. -/
lemma fetching_step (hs : Fetching storage cached outcome videos requested s)
    (h : Batch.Step storage (fun id o => o = outcome id) s e s') :
    Fetching storage cached outcome videos requested s' := by
  cases h with
  | loop stmt rest hrest => exact fetching_exec hs hrest
  | deliver i read o hread ho =>
    subst ho
    exact fetching_deliver hs hread

/-- When nothing is to come or under way, every requested read has had its effect. -/
lemma Fetching.settled (hs : Fetching storage cached outcome videos requested s)
    (hrest : s.call.rest = []) (hpending : s.call.pending = []) {read : Read}
    (hread : read ∈ requested) :
    read.Settled (expected cached outcome) (s.world.videos read.video) := by
  rcases hs.asked read hread with h | h | h
  · simp [hrest] at h
  · simp [hpending] at h
  · exact h

/-- The reads of `setInfoTo`. -/
lemma reads_setInfoTo (lives : List Ref) : (setInfoTo lives).filterMap Stmt.read =
    lives.flatMap fun live => [.latestMessage live, .pollStatus live, .chatState live] := by
  unfold setInfoTo
  induction lives with
  | nil => rfl
  | cons live lives ih => simpa [List.filterMap_cons, Stmt.read] using ih

/-- The reads of `setLatestMessagesTo`. -/
lemma reads_setLatestMessagesTo (VODs : List Ref) :
    (setLatestMessagesTo VODs).filterMap Stmt.read = VODs.map .latestComment := by
  unfold setLatestMessagesTo
  induction VODs with
  | nil => rfl
  | cons VOD VODs ih => simpa [List.filterMap_cons, Stmt.read] using ih

/-- `setInfoTo` starts in the invariant, with nothing cached. -/
lemma fetching_setInfoTo (w : World σ) (lives : List Ref) :
    Fetching storage (fun _ => none) outcome w.videos
      ((setInfoTo lives).filterMap Stmt.read) ⟨w, Call.start (setInfoTo lives)⟩ := by
  have hconsult : ∀ video, .consult video ∉ setInfoTo lives := by
    simp [setInfoTo]
  exact ⟨fun _ => rfl, fun read h => Or.inl h, fun _ _ => rfl, by simp [Call.start],
    fun video h => absurd h (hconsult video), fun video h => absurd h (hconsult video)⟩

/-- The comments that are loaded in storage, by video id. -/
def loadedComment (storage : StorageManager σ) (stored : σ) (id : ℤ) :
    Option (Option LatestComment) :=
  if (storage.loadVideoContent stored id).latestCommentLoaded then
    some (storage.loadVideoContent stored id).latestMessage
  else none

/-- The newest message to expect when the loaded comments are cached. -/
lemma expected_loadedComment (stored : σ) (id : ℤ) :
    (expected (loadedComment storage stored) outcome id).latestMessage =
      if (storage.loadVideoContent stored id).latestCommentLoaded then
        (storage.loadVideoContent stored id).latestMessage
      else latestMessage id (outcome id) := by
  unfold expected loadedComment
  split <;> rfl

/-- `setLatestMessagesTo` starts in the invariant, with the loaded comments cached. -/
lemma fetching_setLatestMessagesTo (hlawful : storage.Lawful) (w : World σ) (VODs : List Ref) :
    Fetching storage (loadedComment storage w.stored) outcome w.videos
      ((setLatestMessagesTo VODs).filterMap Stmt.read)
      ⟨w, Call.start (setLatestMessagesTo VODs)⟩ := by
  have hissue : ∀ read, .issue read ∉ setLatestMessagesTo VODs := by
    simp [setLatestMessagesTo]
  refine ⟨fun _ => rfl, fun read h => Or.inl h, fun read h => absurd h (hissue read),
    by simp [Call.start], fun _ _ => hlawful, fun video _ => ?_⟩
  unfold EntryOk
  split
  · rename_i hloaded
    rw [expected_loadedComment, if_pos hloaded]
  · rename_i hmissing
    rw [loadedComment, if_neg hmissing]

/-- No statement of the call consults the cache. -/
def NoConsult (s : Batch σ) : Prop := ∀ video, .consult video ∉ s.call.rest

/-- The reads still to come and under way. -/
def Batch.reads (s : Batch σ) : ℕ :=
  (s.call.rest.filterMap Stmt.read).length + s.call.pending.length

/-- A call that does not consult the cache never does, and each callback leaves it one read
less. -/
lemma reads_step (hs : NoConsult s) (h : Batch.Step storage answers s e s') :
    NoConsult s' ∧ s.reads = s'.reads + if e.isDelivery then 1 else 0 := by
  cases h with
  | loop stmt rest hrest =>
    have htail : ∀ video, Stmt.consult video ∉ rest := fun video h =>
      hs video (hrest ▸ List.mem_cons_of_mem _ h)
    cases stmt with
    | enter | leave | notify =>
      exact ⟨htail, by
        simp [Batch.reads, hrest, exec, List.filterMap_cons, Stmt.read, Event.isDelivery]⟩
    | issue read =>
      refine ⟨htail, ?_⟩
      simp only [Batch.reads, hrest, exec, List.filterMap_cons, Stmt.read, List.length_cons,
        List.length_append, List.length_nil, Event.isDelivery]
      simp only [Bool.false_eq_true, if_false]
      omega
    | consult video => exact absurd (hrest ▸ List.mem_cons_self) (hs video)
  | deliver i read o hread =>
    have hi := (List.getElem?_eq_some_iff.mp hread).1
    refine ⟨hs, ?_⟩
    simp only [Batch.reads, deliver, Event.isDelivery, List.length_eraseIdx_of_lt hi, if_true]
    omega

/-- When the loop has ended and no callback is outstanding, every requested read has had its
effect on a video that still has its id. -/
lemma settled_run {w : World σ} {stmts : List Stmt} {tr : List (Event × Batch σ)}
    (hstart : Fetching storage cached outcome w.videos requested ⟨w, Call.start stmts⟩)
    (hrun : Along (Batch.Step storage fun id o => o = outcome id) ⟨w, Call.start stmts⟩ tr)
    (hdone : (final ⟨w, Call.start stmts⟩ tr).call.rest = [] ∧
      (final ⟨w, Call.start stmts⟩ tr).call.pending = []) :
    ∀ read ∈ requested, read.SettledAs (expected cached outcome (w.videos read.video).id)
      ((final ⟨w, Call.start stmts⟩ tr).world.videos read.video) := by
  intro read hread
  have hfetching := hrun.final_invariant hstart fun _ _ _ => fetching_step
  have hsettled := hfetching.settled hdone.1 hdone.2 hread
  rw [Read.Settled, hfetching.ids] at hsettled
  exact hsettled

/-- A call of `setInfoTo` has three reads for each live, to come, under way or called back. -/
lemma deliveries_setInfoTo {w : World σ} {lives : List Ref} {tr : List (Event × Batch σ)}
    (hrun : Along (Batch.Step storage answers) ⟨w, Call.start (setInfoTo lives)⟩ tr) :
    3 * lives.length = (final ⟨w, Call.start (setInfoTo lives)⟩ tr).reads +
      (tr.map Prod.fst).countP Event.isDelivery := by
  have hno : NoConsult (⟨w, Call.start (setInfoTo lives)⟩ : Batch σ) := by
    simp [NoConsult, Call.start, setInfoTo]
  have hcount := (hrun.invariant hno fun _ _ _ hs h => (reads_step hs h).1).count
    Event.isDelivery Batch.reads fun _ _ _ h => (reads_step h.1 h.2.1).2
  have hstart : (⟨w, Call.start (setInfoTo lives)⟩ : Batch σ).reads = 3 * lives.length := by
    simp [Batch.reads, Call.start, reads_setInfoTo, List.length_flatMap, Nat.mul_comm]
  rw [← hstart, hcount]

/-- **Batch fetches complete**: for every list of videos, whatever it repeats, and every order in
which the loop and the callbacks of its reads run, each read of a stream being answered by its
id: a call leaves its group no more often than it entered it, triggers its completion at most
once, and has triggered it iff its loop has ended and no callback is outstanding. For
`setInfoTo` that is when all `3 * n` callbacks have run, and then every live shows what the
answers for its own id say: the newest message if there is one in the first document, whether
the query for active polls found a document, and whether the document of the stream has the chat
active. For `setLatestMessagesTo` every video then shows the comment that was loaded in storage
for its id, or else the newest message in the answer for its id.

**Proof sketch.** The group owes a leave for every read under way and for every statement it was
entered for, which is kept by each step and determines the completion. Every requested read is
to come, under way, or settled, where a settled read stays settled because every assignment to a
field is of the one value expected for the id of its video. -/
theorem batch_fetch_completes {σ : Type} (storage : StorageManager σ) (outcome : ℤ → Outcome)
    (w : World σ) (videos : List Ref) :
    (∀ tr, Along (Batch.Step storage fun id o => o = outcome id)
        ⟨w, Call.start (setInfoTo videos)⟩ tr →
      let s := final ⟨w, Call.start (setInfoTo videos)⟩ tr
      CompletesOnce s.call ∧
      (s.call.group.fired = 1 ↔
        s.call.rest = [] ∧ (tr.map Prod.fst).countP Event.isDelivery = 3 * videos.length) ∧
      (s.call.group.fired = 1 → ∀ video ∈ videos,
        let answer := outcome (w.videos video).id
        (∀ comment, (s.world.videos video).latestMessage = some comment ↔
          answer.Holds comment) ∧
        ((s.world.videos video).isPollOn = true ↔ answer.HasPoll) ∧
        ((s.world.videos video).isChatOn = true ↔ answer.HasChat))) ∧
    (storage.Lawful → ∀ tr, Along (Batch.Step storage fun id o => o = outcome id)
        ⟨w, Call.start (setLatestMessagesTo videos)⟩ tr →
      let s := final ⟨w, Call.start (setLatestMessagesTo videos)⟩ tr
      CompletesOnce s.call ∧
      (s.call.group.fired = 1 → ∀ video ∈ videos,
        let entry := storage.loadVideoContent w.stored (w.videos video).id
        ∀ comment, (s.world.videos video).latestMessage = some comment ↔
          if entry.latestCommentLoaded then entry.latestMessage = some comment
          else (outcome (w.videos video).id).Holds comment)) := by
  refine ⟨fun tr hrun => ?_, fun hlawful tr hrun => ?_⟩
  · have honce := completesOnce_run (balanced_setInfoTo videos) hrun
    refine ⟨honce, ?_, fun hfired video hvideo => ?_⟩
    · have hcount := deliveries_setInfoTo hrun
      rw [honce.fired_iff]
      refine and_congr_right fun hrest => ?_
      simp only [Batch.reads, hrest, List.filterMap_nil, List.length_nil] at hcount
      rw [← List.length_eq_zero_iff]
      omega
    · have hread : ∀ read ∈ [Read.latestMessage video, .pollStatus video, .chatState video],
          read ∈ (setInfoTo videos).filterMap Stmt.read := by
        intro read hread
        rw [reads_setInfoTo]
        exact List.mem_flatMap.mpr ⟨video, hvideo, hread⟩
      have hsettled := settled_run (fetching_setInfoTo w videos) hrun (honce.fired_iff.mp hfired)
      have hmessage := hsettled (.latestMessage video) (hread _ (by simp))
      have hpoll := hsettled (.pollStatus video) (hread _ (by simp))
      have hchat := hsettled (.chatState video) (hread _ (by simp))
      exact ⟨fun comment => hmessage ▸ latestMessage_eq_some_iff,
        hpoll ▸ isPollOn_eq_true_iff, hchat ▸ isChatOn_eq_true_iff⟩
  · have honce := completesOnce_run (balanced_setLatestMessagesTo videos) hrun
    refine ⟨honce, fun hfired video hvideo comment => ?_⟩
    have hread : Read.latestComment video ∈ (setLatestMessagesTo videos).filterMap Stmt.read := by
      rw [reads_setLatestMessagesTo]
      exact List.mem_map_of_mem hvideo
    have hsettled := settled_run (fetching_setLatestMessagesTo hlawful w videos) hrun
      (honce.fired_iff.mp hfired) _ hread
    have hshown := hsettled.trans (expected_loadedComment w.stored (w.videos video).id)
    rw [show ((final _ tr).world.videos video).latestMessage = _ from hshown]
    split
    · exact Iff.rfl
    · exact latestMessage_eq_some_iff

/-- A stream whose newest message says "Hi", with the chat on and no poll; and streams with a poll
and nothing else. -/
def answered (id : ℤ) : Outcome :=
  if id = 0 then
    ⟨some [⟨⟨["messages"], "m"⟩, [("nickname", .string "Ann"), ("text", .string "Hi")]⟩], some [],
      some ⟨⟨["streams"], "s"⟩, some [("isChatActive", .boolean true)]⟩⟩
  else ⟨none, some [⟨⟨["polls"], "p"⟩, []⟩], some ⟨⟨["streams"], "t"⟩, none⟩⟩

/-- Two videos and a storage in which the comment of the second one is loaded. -/
def twoVideos : World (ℤ → VideoContentMO) :=
  ⟨fun video => ⟨video, none, true, false⟩,
    fun id => ⟨false, id = 1, if id = 1 then some ⟨"", "Bob", "Cached", none⟩ else none⟩, []⟩

/-- A schedule for a list with a repeated live, in which a read is called back while the loop is
still running and the others in reverse order; and one for a list with a cached video. -/
theorem batch_fetch_completes_twoVideos :
    (let s : Batch _ := ⟨twoVideos, Call.start (setInfoTo [0, 1, 0])⟩
      let s' := final s (s.schedule .dictionary answered
        (none :: none :: some 0 :: List.replicate 17 none ++ (List.range 8).reverse.map some))
      ((s'.world.videos 0).latestMessage = some ⟨"", "Ann", "Hi", some 0⟩ ∧
        (s'.world.videos 0).isPollOn = false ∧ (s'.world.videos 0).isChatOn = true) ∧
      ((s'.world.videos 1).latestMessage = none ∧
        (s'.world.videos 1).isPollOn = true ∧ (s'.world.videos 1).isChatOn = false)) ∧
    (let s : Batch _ := ⟨twoVideos, Call.start (setLatestMessagesTo [0, 1])⟩
      let s' := final s (s.schedule .dictionary answered (List.replicate 6 none ++ [some 0]))
      (s'.world.videos 0).latestMessage = some ⟨"", "Ann", "Hi", some 0⟩ ∧
        (s'.world.videos 1).latestMessage = some ⟨"", "Bob", "Cached", none⟩) := by
  have hlives := (batch_fetch_completes .dictionary answered twoVideos [0, 1, 0]).1 _
    (Batch.along_schedule (none :: none :: some 0 ::
      List.replicate 17 none ++ (List.range 8).reverse.map some))
  have hVODs := (batch_fetch_completes .dictionary answered twoVideos [0, 1]).2
    StorageManager.dictionary_lawful _
    (Batch.along_schedule (List.replicate 6 none ++ [some 0]))
  obtain ⟨hmessage, hpoll, hchat⟩ := hlives.2.2 (by decide) 0 (by simp)
  obtain ⟨hmessage', hpoll', hchat'⟩ := hlives.2.2 (by decide) 1 (by simp)
  have hfetched := hVODs.2 (by decide) 0 (by simp)
  have hcached := hVODs.2 (by decide) 1 (by simp)
  refine ⟨⟨⟨(hmessage _).mpr ?_, Bool.eq_false_iff.mpr fun h => ?_, hchat.mpr ?_⟩,
    Option.eq_none_iff_forall_ne_some.mpr fun comment h => ?_, hpoll'.mpr ?_,
    Bool.eq_false_iff.mpr fun h => ?_⟩, (hfetched _).mpr ?_, (hcached _).mpr rfl⟩
  · exact ⟨_, _, _, _, rfl, rfl, rfl, rfl⟩
  · obtain ⟨_, _, h⟩ := hpoll.mp h
    cases h
  · exact ⟨_, _, rfl, rfl, rfl⟩
  · obtain ⟨_, _, _, _, h, -⟩ := (hmessage' comment).mp h
    cases h
  · exact ⟨_, _, rfl⟩
  · obtain ⟨_, _, h, hdata, -⟩ := hchat'.mp h
    cases h
    cases hdata
  · exact ⟨_, _, _, _, rfl, rfl, rfl, rfl⟩

end MessageFetcher

end AntViewer
