import AntViewer.FireChat
import AntViewer.FirePollManager
import AntViewer.MessageFetcher

set_option relaxedAutoImplicit false
set_option autoImplicit false

/-!
# The flags of the feed and the listeners of the player

For the same stream, the feed reads once whether the chat is on and whether a poll is active,
and the player listens to both. The content of the stream changes in any way: its document is
written or deleted, its polls are replaced. A listener is told about the current content some
time after a change, possibly not about every change in between.

## Main definitions

* `FeedFlags.isChatOn`, `FeedFlags.isPollOn` — what the feed would read.
* `Player` — the listeners of a stream and what they have passed on; `Player.Step` — its steps.
* `Player.ChatAgrees`, `Player.PollAgrees` — the flags are what the listeners passed on last.

## Main results

* `Player.chatAgrees_iff`, `Player.pollAgrees_iff` — which steps keep a flag in agreement.
* `Player.flags_agree` — when the flags agree along runs.
-/

namespace AntViewer

open Runs

namespace FeedFlags

/-- The document of a stream. -/
def streamDocument (env : EnvironmentType) (id : ℤ) : DocumentReference :=
  ⟨ResourcePath.fromString ("antourage/" ++ env.rawValue ++ "/streams"), SwiftInt.description id⟩

/-- The collection of the polls of a stream. -/
def polls (env : EnvironmentType) (id : ℤ) : List String :=
  ResourcePath.fromString
    ("antourage/" ++ env.rawValue ++ "/streams/" ++ SwiftInt.description id ++ "/polls")

/-- The value `checkChatState` computes for `isChatOn`. -/
def isChatOn (env : EnvironmentType) (id : ℤ) (db : Database) : Bool :=
  let snapshot := db.getDocument (MessageFetcher.checkChatState.ref env id)
  ((MessageFetcher.checkChatState id (some snapshot)).lookup id).getD false

/-- The value `checkPollStatus` computes for `isPollOn`. -/
def isPollOn (env : EnvironmentType) (id : ℤ) (db : Database) : Bool :=
  let snapshot := MessageFetcher.checkPollStatus.ref env id db
  ((MessageFetcher.checkPollStatus id (some snapshot)).lookup id).getD false

/-- The path written with a trailing slash is the path without it. -/
lemma checkChatState_ref (env : EnvironmentType) (id : ℤ) :
    MessageFetcher.checkChatState.ref env id = streamDocument env id := by
  have hslash : "antourage/" ++ env.rawValue ++ "/streams/" =
      "antourage/" ++ env.rawValue ++ "/streams" ++ "/" ++ "" := by
    simp [← String.toList_inj]
  have hempty : ResourcePath.fromString "" = [] := by decide
  unfold MessageFetcher.checkChatState.ref streamDocument
  rw [hslash, ResourcePath.fromString_append, hempty, List.append_nil]

/-- The polls of a stream are not where the streams are. -/
lemma polls_ne (env : EnvironmentType) (id : ℤ) :
    polls env id ≠ (streamDocument env id).parent := by
  have hparts : "antourage/" ++ env.rawValue ++ "/streams/" ++ SwiftInt.description id ++ "/polls" =
      "antourage/" ++ env.rawValue ++ "/streams" ++ "/" ++ SwiftInt.description id ++ "/" ++
        "polls" := by
    simp [← String.toList_inj]
  have hpolls : ResourcePath.fromString "polls" = ["polls"] := by decide
  unfold polls streamDocument
  rw [hparts, ResourcePath.fromString_append, ResourcePath.fromString_append, hpolls]
  intro h
  simpa using congrArg List.length h

/-- The chat is on iff the stream document says so. -/
lemma isChatOn_eq (env : EnvironmentType) (id : ℤ) (db : Database) : isChatOn env id db =
    ((db.getDocument (streamDocument env id)).data.bind fun data =>
      data.bool "isChatActive").getD false := by
  simp [isChatOn, MessageFetcher.checkChatState, checkChatState_ref]

/-- A poll is on iff the observer's query selects a document. -/
lemma isPollOn_iff (env : EnvironmentType) (id : ℤ) (db : Database) :
    isPollOn env id db = true ↔
      (FirePollManager.observePolls.ref env id db).head? ≠ none := by
  have href : MessageFetcher.checkPollStatus.ref env id db =
      FirePollManager.observePolls.ref env id db := rfl
  simp only [isPollOn, MessageFetcher.checkPollStatus, href]
  cases FirePollManager.observePolls.ref env id db <;> simp

end FeedFlags

open FeedFlags

/-- The content of Firestore, and the chat and the poll manager attached to a stream, with what
they have passed to `onStateChange` and to the completion of `observePolls`. A listener is up to
date if it was told about the current content of what it listens to. -/
structure Player where
  db : Database
  chat : Option FireChat
  states : List Bool
  chatUpToDate : Bool
  manager : Bool
  reports : List (Option FirePoll)
  managerUpToDate : Bool

namespace Player

/-- What can happen to the content of the stream and to the listeners. -/
inductive Event
  | setStream (data : Fields) (now : Timestamp)
  | deleteStream
  | setPolls (documents : Collection)
  | attachChat
  | attachManager
  | notifyChat
  | notifyManager (current : Option User)

/-- Before anything is attached. -/
def start (db : Database) : Player := ⟨db, none, [], false, false, [], false⟩

/-- The steps of content and listeners; there are no read errors. -/
inductive Step (env : EnvironmentType) (id : ℤ) : Player → Event → Player → Prop
  | setStream (s : Player) (data : Fields) (now : Timestamp) :
      Step env id s (.setStream data now)
        { s with db := s.db.setData (streamDocument env id) data now, chatUpToDate := false }
  | deleteStream (s : Player) :
      Step env id s .deleteStream
        { s with db := s.db.delete (streamDocument env id), chatUpToDate := false }
  | setPolls (s : Player) (documents : Collection) :
      Step env id s (.setPolls documents)
        { s with db := Function.update s.db (polls env id) documents, managerUpToDate := false }
  | attachChat (s : Player) (contentMO : VideoContentMO) (hlive : contentMO.chatLoaded = false)
      (h : s.chat = none) :
      Step env id s .attachChat { s with chat := some (FireChat.init env contentMO id) }
  | attachManager (s : Player) (h : s.manager = false) :
      Step env id s .attachManager { s with manager := true }
  | notifyChat (s : Player) (chat : FireChat) (ref : DocumentReference) (h : s.chat = some chat)
      (href : chat.ref = some ref) :
      Step env id s .notifyChat
        { s with
          states := s.states ++ FireChat.stateHandler (some (s.db.getDocument ref))
          chatUpToDate := true }
  | notifyManager (s : Player) (current : Option User) (h : s.manager = true) :
      Step env id s (.notifyManager current)
        { s with
          reports := s.reports ++ FirePollManager.pollsHandler current
            (some (FirePollManager.observePolls.ref env id s.db))
          managerUpToDate := true }

variable (env : EnvironmentType) (id : ℤ)

/-- The last value passed to `onStateChange`, false if none was. -/
def lastState (s : Player) : Bool := s.states.getLast?.getD false

/-- If the chat is up to date, its last value is the one the feed reads. -/
def ChatAgrees (s : Player) : Prop := s.chatUpToDate → isChatOn env id s.db = s.lastState

/-- If the manager is up to date, its last value is a poll iff the feed finds one active. -/
def PollAgrees (s : Player) : Prop := s.managerUpToDate →
  (isPollOn env id s.db = true ↔ (FirePollManager.lastReported s.reports).isSome)

/-- Whenever both listeners are up to date, both flags agree with them. -/
def FlagsAgree (s : Player) : Prop := s.chatUpToDate → s.managerUpToDate →
  isChatOn env id s.db = s.lastState ∧
    (isPollOn env id s.db = true ↔ (FirePollManager.lastReported s.reports).isSome)

/-- The chat is not told about a missing stream document while its last value is true. -/
def NotMissing (s : Player) (e : Event) (_ : Player) : Prop :=
  e = .notifyChat → (s.db.getDocument (streamDocument env id)).data = none → s.lastState = false

/-- The manager is not told about a first active poll that `FirePoll.init` rejects, unless its
last value is a poll already. -/
def NotRejected (s : Player) (e : Event) (_ : Player) : Prop :=
  ∀ current document, e = .notifyManager current →
    (FirePollManager.observePolls.ref env id s.db).head? = some document →
    FirePoll.init current document.toDocumentSnapshot = none →
    (FirePollManager.lastReported s.reports).isSome

/-- An attached chat listens to the document of the stream. -/
def ListensToStream (s : Player) : Prop :=
  ∀ chat, s.chat = some chat → chat.ref = some (streamDocument env id)

variable {env id} {s s' : Player} {e : Event}

/-- Every step keeps the chat listening to the stream. -/
lemma listensToStream_step (hs : ListensToStream env id s) (h : Step env id s e s') :
    ListensToStream env id s' := by
  cases h with
  | attachChat contentMO hlive =>
    rintro chat ⟨⟩
    simp [FireChat.init, hlive, streamDocument]
  | _ => exact hs

/-- What the feed reads of the stream document does not depend on the polls. -/
lemma isChatOn_setPolls (db : Database) (documents : Collection) :
    isChatOn env id (Function.update db (polls env id) documents) = isChatOn env id db := by
  rw [isChatOn_eq, isChatOn_eq, Database.getDocument, Database.getDocument,
    Function.update_of_ne (polls_ne env id).symm]

/-- What the feed reads of the polls depends on their collection only. -/
lemma isPollOn_congr {db db' : Database} (h : db' (polls env id) = db (polls env id)) :
    isPollOn env id db' = isPollOn env id db := by
  have hdocs : db'.documents (polls env id) = db.documents (polls env id) := by
    rw [Database.documents, h]
    rfl
  have href : ∀ db : Database, MessageFetcher.checkPollStatus.ref env id db =
      Query.whereField (db.documents (polls env id)) "isActive" (.boolean true) := fun _ => rfl
  simp only [isPollOn, href, hdocs]

/-- A step keeps the chat flag in agreement iff it does not tell an active chat that the stream
document is missing.

**Proof sketch.** A change of the document leaves the chat behind. When the chat is told about
a document, it passes on the value that the feed reads; about a missing one it passes nothing,
where the feed reads false. -/
lemma chatAgrees_iff (hs : ListensToStream env id s ∧ ChatAgrees env id s)
    (h : Step env id s e s') : ChatAgrees env id s' ↔ NotMissing env id s e s' := by
  obtain ⟨hlisten, hagree⟩ := hs
  cases h with
  | setStream | deleteStream => simp [ChatAgrees, NotMissing]
  | attachChat | attachManager | notifyManager =>
    simpa [ChatAgrees, NotMissing, lastState] using hagree
  | setPolls documents =>
    simpa [ChatAgrees, NotMissing, isChatOn_setPolls, lastState] using hagree
  | notifyChat chat ref hchat href =>
    obtain rfl : ref = streamDocument env id := by
      simpa [href] using hlisten chat hchat
    unfold ChatAgrees NotMissing
    rw [isChatOn_eq]
    cases hdata : (s.db.getDocument (streamDocument env id)).data with
    | none =>
      have hsilent :
          FireChat.stateHandler (some (s.db.getDocument (streamDocument env id))) = [] := by
        simp [FireChat.stateHandler, hdata]
      simp only [hsilent, List.append_nil, Option.bind_none, Option.getD_none, lastState]
      exact ⟨fun h _ _ => (h trivial).symm, fun h _ => (h trivial trivial).symm⟩
    | some data => simp [FireChat.stateHandler, hdata, lastState]

/-- A step keeps the poll flag in agreement iff it does not make a manager without a poll pass
over a rejected one.

**Proof sketch.** A change of the polls leaves the manager behind. When the manager is told
about no active poll it passes nil, and about an accepted first one that poll; a rejected one
changes nothing of what it passed, where the feed finds an active poll. -/
lemma pollAgrees_iff (hs : PollAgrees env id s) (h : Step env id s e s') :
    PollAgrees env id s' ↔ NotRejected env id s e s' := by
  cases h with
  | setPolls => simp [PollAgrees, NotRejected]
  | attachChat | attachManager | notifyChat => simpa [PollAgrees, NotRejected] using hs
  | setStream data now =>
    have hsame := isPollOn_congr (Database.setData_of_ne s.db _ data now (polls_ne env id))
    simpa [PollAgrees, NotRejected, hsame] using hs
  | deleteStream =>
    have hsame := isPollOn_congr (Database.delete_of_ne s.db _ (polls_ne env id))
    simpa [PollAgrees, NotRejected, hsame] using hs
  | notifyManager current =>
    unfold PollAgrees NotRejected
    rw [isPollOn_iff]
    cases hhead : (FirePollManager.observePolls.ref env id s.db).head? with
    | none => simp [FirePollManager.pollsHandler, hhead, FirePollManager.lastReported]
    | some document =>
      cases hinit : FirePoll.init current document.toDocumentSnapshot with
      | none => simp [FirePollManager.pollsHandler, hhead, hinit]
      | some poll =>
        simp [FirePollManager.pollsHandler, hhead, hinit, FirePollManager.lastReported]

/-- **When the flags agree with the listeners**: along every run of changes of the content of a
stream and of its listeners, the chat flag is the last value of the chat whenever that is up to
date iff an active chat is never told that the stream document is missing; the poll flag is on
iff the last value of the manager is a poll, whenever that is up to date, iff a manager without
a poll is never told about a rejected one; and both flags agree whenever both are up to date if
all steps meet both conditions. -/
theorem flags_agree (env : EnvironmentType) (id : ℤ) (db : Database)
    (tr : List (Event × Player)) (hrun : Along (Step env id) (start db) tr) :
    (Along (fun _ _ s' => ChatAgrees env id s') (start db) tr ↔
      Along (NotMissing env id) (start db) tr) ∧
    (Along (fun _ _ s' => PollAgrees env id s') (start db) tr ↔
      Along (NotRejected env id) (start db) tr) ∧
    (Along (fun s e s' => NotMissing env id s e s' ∧ NotRejected env id s e s') (start db) tr →
      Along (fun _ _ s' => FlagsAgree env id s') (start db) tr) := by
  refine ⟨?_, ?_, fun h => ?_⟩
  · refine along_iff (I := fun s => ListensToStream env id s ∧ ChatAgrees env id s) hrun ?_ ?_
      fun _ _ _ => chatAgrees_iff
    · simp [ListensToStream, ChatAgrees, start]
    · exact fun s e s' hs h hkeep => ⟨listensToStream_step hs.1 h, (chatAgrees_iff hs h).mpr hkeep⟩
  · refine along_iff (I := PollAgrees env id) hrun (by simp [PollAgrees, start]) ?_
      fun _ _ _ => pollAgrees_iff
    exact fun s e s' hs h hkeep => (pollAgrees_iff hs h).mpr hkeep
  · have hagree := along_iff
      (C := fun s e s' => NotMissing env id s e s' ∧ NotRejected env id s e s')
      (T := fun _ _ s' => ChatAgrees env id s' ∧ PollAgrees env id s')
      (I := fun s => (ListensToStream env id s ∧ ChatAgrees env id s) ∧ PollAgrees env id s) hrun
      (by simp [ListensToStream, ChatAgrees, PollAgrees, start])
      (fun s e s' hs h hkeep => ⟨⟨listensToStream_step hs.1.1 h,
        (chatAgrees_iff hs.1 h).mpr hkeep.1⟩, (pollAgrees_iff hs.2 h).mpr hkeep.2⟩)
      fun s e s' hs h => and_congr (chatAgrees_iff hs.1 h) (pollAgrees_iff hs.2 h)
    exact (hagree.mpr h).mono fun _ _ _ hs hchat hpoll => ⟨hs.1 hchat, hs.2 hpoll⟩

/-- The chat of a stream is turned on and then off again, with the listeners following. -/
theorem flags_agree_on_and_off :
    ∃ tr : List (Event × Player), tr.map Prod.fst =
      [.setStream [("isChatActive", .boolean true)] 0, .attachChat, .attachManager, .notifyChat,
        .notifyManager none, .setStream [("isChatActive", .boolean false)] 1, .notifyChat] ∧
      Along (fun _ _ s' => FlagsAgree .dev 7 s') (start fun _ => ∅) tr ∧
      (final (start fun _ => ∅) tr).states = [true, false] := by
  have hrun : Along (Step .dev 7) (start fun _ => ∅)
      [(.setStream [("isChatActive", .boolean true)] 0, _), (.attachChat, _), (.attachManager, _),
        (.notifyChat, _), (.notifyManager none, _),
        (.setStream [("isChatActive", .boolean false)] 1, _), (.notifyChat, _)] :=
    ⟨.setStream _ _ _, .attachChat _ ⟨false, false, none⟩ rfl rfl, .attachManager _ rfl,
      .notifyChat _ _ (streamDocument .dev 7) rfl rfl, .notifyManager _ _ rfl,
      .setStream _ _ _, .notifyChat _ _ (streamDocument .dev 7) rfl rfl, trivial⟩
  refine ⟨_, rfl, (flags_agree .dev 7 _ _ hrun).2.2 ?_, by decide⟩
  have hpolls : (FirePollManager.observePolls.ref .dev 7
      (Database.setData (fun _ => ∅) (streamDocument .dev 7)
        [("isChatActive", .boolean true)] 0)).head? = none := by
    decide
  have hother : ∀ (s : Player) (e : Event) (s' : Player), e ≠ .notifyChat →
      (∀ current, e ≠ .notifyManager current) →
      NotMissing .dev 7 s e s' ∧ NotRejected .dev 7 s e s' := fun s e s' hchat hmanager =>
    ⟨fun h => absurd h hchat, fun current _ h => absurd h (hmanager current)⟩
  have hpresent : ∀ (s s' : Player), (s.db.getDocument (streamDocument .dev 7)).data ≠ none →
      NotMissing .dev 7 s .notifyChat s' ∧ NotRejected .dev 7 s .notifyChat s' := fun s s' hdata =>
    ⟨fun _ h => absurd h hdata, fun current _ h => by cases h⟩
  refine ⟨hother _ _ _ (by simp) (by simp), hother _ _ _ (by simp) (by simp),
    hother _ _ _ (by simp) (by simp), hpresent _ _ (by decide), ⟨by simp [NotMissing], ?_⟩,
    hother _ _ _ (by simp) (by simp), hpresent _ _ (by decide), trivial⟩
  exact fun _ document _ h => absurd (hpolls.symm.trans h) (Option.some_ne_none document).symm

/-- **Flags that disagree**: when the document of a stream whose chat was on is deleted, the feed
reads that the chat is off and the chat never hears of it; and when the only active poll has no
question, the feed finds a poll and the manager passes none. -/
theorem flags_disagree :
    (∃ tr : List (Event × Player), tr.map Prod.fst =
      [.setStream [("isChatActive", .boolean true)] 0, .attachChat, .attachManager, .notifyChat,
        .notifyManager none, .deleteStream, .notifyChat] ∧
      Along (Step .dev 7) (start fun _ => ∅) tr ∧
      ¬ FlagsAgree .dev 7 (final (start fun _ => ∅) tr)) ∧
    (∃ tr : List (Event × Player), tr.map Prod.fst =
      [.setPolls ((∅ : Collection).insert "p" [("isActive", .boolean true)]), .attachChat,
        .attachManager, .notifyChat, .notifyManager none] ∧
      Along (Step .dev 7) (start fun _ => ∅) tr ∧
      ¬ FlagsAgree .dev 7 (final (start fun _ => ∅) tr)) := by
  refine ⟨⟨[(.setStream [("isChatActive", .boolean true)] 0, _), (.attachChat, _),
      (.attachManager, _), (.notifyChat, _), (.notifyManager none, _), (.deleteStream, _),
      (.notifyChat, _)], rfl,
    ⟨.setStream _ _ _, .attachChat _ ⟨false, false, none⟩ rfl rfl, .attachManager _ rfl,
      .notifyChat _ _ (streamDocument .dev 7) rfl rfl, .notifyManager _ _ rfl, .deleteStream _,
      .notifyChat _ _ (streamDocument .dev 7) rfl rfl, trivial⟩, fun h => ?_⟩,
    ⟨[(.setPolls ((∅ : Collection).insert "p" [("isActive", .boolean true)]), _), (.attachChat, _),
      (.attachManager, _), (.notifyChat, _), (.notifyManager none, _)], rfl,
    ⟨.setPolls _ _, .attachChat _ ⟨false, false, none⟩ rfl rfl, .attachManager _ rfl,
      .notifyChat _ _ (streamDocument .dev 7) rfl rfl, .notifyManager _ _ rfl, trivial⟩,
    fun h => ?_⟩⟩
  · have hchat := (h rfl rfl).1
    revert hchat
    decide
  · have hpoll := (h rfl rfl).2
    revert hpoll
    decide

end Player

end AntViewer
