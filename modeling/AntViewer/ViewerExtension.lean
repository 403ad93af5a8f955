import AntViewer.Swift

set_option relaxedAutoImplicit false
set_option autoImplicit false

/-!
# Types of the closed ViewerExtension framework

The types and the storage that the program takes from the `ViewerExtension` binary, with the
fields its code reads or writes. The storage is a parameter: a state with the two operations
the program calls.

## Main definitions

* `User`, `EnvironmentType`, `Message`, `LatestComment`, `VideoContentMO` — values.
* `VideoContent` — a video of the feed.
* `StorageManager` — the operations on stored video contents; `StorageManager.Lawful` — what is
  relied on about them.
-/

namespace AntViewer

/-- The signed-in user (`User.current` is nil when nobody is). -/
structure User where
  id : ℤ
  deriving DecidableEq

/-- A closure handed over by a consumer, known by a number. -/
abbrev Callback := ℕ

/-- The server environments. -/
inductive EnvironmentType
  | prod
  | staging
  | dev
  | load
  | demo
  deriving DecidableEq

/-- `Environment.current.rawValue`. -/
def EnvironmentType.rawValue : EnvironmentType → String
  | prod => "prod"
  | staging => "staging"
  | dev => "dev"
  | load => "load"
  | demo => "demo"

/-- A chat message. -/
structure Message where
  userID : String
  nickname : String
  text : String
  avatarUrl : Option String
  deriving DecidableEq

/-- The comment shown on a video in the feed. -/
structure LatestComment where
  userID : String
  nickname : String
  text : String
  timestamp : Option ℤ
  deriving DecidableEq

/-- What is stored about a video. -/
structure VideoContentMO where
  chatLoaded : Bool
  latestCommentLoaded : Bool
  latestMessage : Option LatestComment
  deriving DecidableEq

/-- A video of the feed, live or on demand. -/
structure VideoContent where
  id : ℤ
  latestMessage : Option LatestComment
  isPollOn : Bool
  isChatOn : Bool
  deriving DecidableEq

/-- `StorageManager.shared`, as operations on a state `σ`: the stored entry of a video id, and
saving the latest comment of one. -/
structure StorageManager (σ : Type) where
  loadVideoContent : σ → ℤ → VideoContentMO
  saveLatestComment : σ → ℤ → Option LatestComment → σ

/-- What is relied on where storage is both read and written: saving for one video leaves the
entries of the others alone, and an entry that counts as loaded after a save holds the value
saved. -/
structure StorageManager.Lawful {σ : Type} (storage : StorageManager σ) : Prop where
  other : ∀ stored id id' value, id' ≠ id →
    storage.loadVideoContent (storage.saveLatestComment stored id value) id' =
      storage.loadVideoContent stored id'
  saved : ∀ stored id value,
    let vodFromCache := storage.loadVideoContent (storage.saveLatestComment stored id value) id
    vodFromCache.latestCommentLoaded → vodFromCache.latestMessage = value

/-- Storage that keeps its entries in a dictionary and counts what was saved as loaded. -/
def StorageManager.dictionary : StorageManager (ℤ → VideoContentMO) where
  loadVideoContent stored id := stored id
  saveLatestComment stored id value :=
    Function.update stored id
      { stored id with latestCommentLoaded := true, latestMessage := value }

/-- A dictionary does what is relied on. -/
lemma StorageManager.dictionary_lawful : StorageManager.dictionary.Lawful where
  other stored id id' value h := Function.update_of_ne h _ _
  saved stored id value _ := by simp [StorageManager.dictionary]

end AntViewer
