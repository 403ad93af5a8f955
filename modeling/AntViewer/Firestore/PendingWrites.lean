import AntViewer.Firestore.Acknowledgement

set_option relaxedAutoImplicit false
set_option autoImplicit false

/-!
# Pending writes

A document is marked as having local mutations when a waiting write was applied to it. The mark is
what a program reads as pending writes of a snapshot, and what a view looks at when it decides which
documents are in limbo.

## Main definitions

* `StoredDocument.toMaybeDocument` — what a view reads of a document of the store.
* `TookEffect` — one of some writes was possible when its turn came.

## Main results

* `LocalStore.pending_along` — in every run, a document that is shown is marked if and only if one
  of the writes that wait for it took effect.
-/

namespace AntViewer.Firestore

open Runs

namespace StoredDocument

/-- What a view reads of a document of the store. -/
def toMaybeDocument {κ δ : Type*} (key : κ) : Option (StoredDocument δ) → MaybeDocument κ δ
  | some (document data _ state) => .document ⟨key, data, state⟩
  | some (unknownDocument _) => .unknownDocument
  | some (noDocument _ _) => .noDocument
  | none => .noDocument

/-- Is it a document with local mutations? -/
def IsLocal {δ : Type*} : Option (StoredDocument δ) → Prop
  | some (document _ _ state) => state = .localMutations
  | _ => False

/-- The mark of a document, as a view reads it. -/
lemma hasLocalMutations_iff {κ δ : Type*} {key : κ} {doc : Option (StoredDocument δ)}
    {d : Document κ δ} (h : (toMaybeDocument key doc).toDocument = some d) :
    isDocument doc = true ∧ (d.hasLocalMutations = true ↔ IsLocal doc) := by
  rcases doc with _ | (⟨data, version, state⟩ | _ | _)
  · cases h
  · cases h
    exact ⟨rfl, decide_eq_true_iff⟩
  · cases h
  · cases h

end StoredDocument

variable {κ F ε : Type} [DecidableEq κ] [Add F] [IntCast F] [DecidableEq ε]

/-! ## Writes that take effect -/

omit [DecidableEq κ] [Add F] [IntCast F] [DecidableEq ε] in
/-- The writes of some batches with their times, in the order in which they are applied. -/
def waitingWrites (batches : List (MutationBatch κ F ε)) : List (Timestamp × Mutation κ F ε) :=
  batches.flatMap fun batch =>
    (batch.baseMutations ++ batch.mutations).map fun m => (batch.localWriteTime, m)

/-- Applies a write, if it is one to the document. -/
def applyWrite (key : κ) (doc : Option (StoredDocument (ObjectValue (LeafValue F ε))))
    (write : Timestamp × Mutation κ F ε) :
    Option (StoredDocument (ObjectValue (LeafValue F ε))) :=
  if write.2.key = key then write.2.applyToLocalView write.1 doc else doc

/-- One of the writes is to the document, and its precondition holds when its turn comes. -/
def TookEffect (key : κ) : List (Timestamp × Mutation κ F ε) →
    Option (StoredDocument (ObjectValue (LeafValue F ε))) → Prop
  | [], _ => False
  | write :: writes, doc =>
    write.2.key = key ∧ write.2.precondition.isValidFor doc = true ∨
      TookEffect key writes (applyWrite key doc write)

/-- What is shown of a document has the waiting writes applied one after the other. -/
lemma getDocument_eq_foldl (key : κ) (batches : List (MutationBatch κ F ε))
    (doc : Option (StoredDocument (ObjectValue (LeafValue F ε)))) :
    LocalDocumentsView.getDocument key batches doc =
      (waitingWrites batches).foldl (applyWrite key) doc := by
  unfold LocalDocumentsView.getDocument waitingWrites
  induction batches generalizing doc with
  | nil => rfl
  | cons batch batches ih =>
    rw [List.foldl_cons, ih, List.flatMap_cons, List.foldl_append, List.foldl_map,
      List.foldl_append]
    rfl

/-- A write without effect leaves the document as it is. -/
lemma applyWrite_of_not {key : κ} {doc : Option (StoredDocument (ObjectValue (LeafValue F ε)))}
    {write : Timestamp × Mutation κ F ε}
    (h : ¬ (write.2.key = key ∧ write.2.precondition.isValidFor doc = true)) :
    applyWrite key doc write = doc := by
  unfold applyWrite
  split_ifs with hkey
  · have hvalid : write.2.precondition.isValidFor doc = false :=
      Bool.eq_false_of_not_eq_true fun hvalid => h ⟨hkey, hvalid⟩
    unfold Mutation.applyToLocalView
    rw [if_pos hvalid]
  · rfl

/-- A write with effect deletes the document or marks it. -/
lemma applyWrite_of_valid {key : κ} {doc : Option (StoredDocument (ObjectValue (LeafValue F ε)))}
    {write : Timestamp × Mutation κ F ε} (hkey : write.2.key = key)
    (hvalid : write.2.precondition.isValidFor doc = true) :
    StoredDocument.IsLocal (applyWrite key doc write) ∨
      StoredDocument.isDocument (applyWrite key doc write) = false := by
  unfold applyWrite
  rw [if_pos hkey]
  unfold Mutation.applyToLocalView
  rw [hvalid, if_neg Bool.true_eq_false.mp]
  cases write.2 with
  | set key value precondition transforms => exact Or.inl rfl
  | patch key value mask precondition transforms => exact Or.inl rfl
  | delete key precondition => exact Or.inr rfl

/-- Writes without effect leave the document as it is. -/
lemma foldl_of_not_tookEffect {key : κ} {writes : List (Timestamp × Mutation κ F ε)}
    {doc : Option (StoredDocument (ObjectValue (LeafValue F ε)))}
    (h : ¬ TookEffect key writes doc) : writes.foldl (applyWrite key) doc = doc := by
  induction writes generalizing doc with
  | nil => rfl
  | cons write writes ih =>
    obtain ⟨hwrite, hwrites⟩ := not_or.mp h
    rw [List.foldl_cons, ih hwrites, applyWrite_of_not hwrite]

/-- **The mark.** After some writes a document that exists is marked if and only if it was marked
before or one of the writes took effect.

**Proof sketch.** Induction on the writes. A write with effect marks the document or deletes it; a
deleted document exists in the end only if another write took effect afterwards. -/
lemma isLocal_foldl_iff {key : κ} {writes : List (Timestamp × Mutation κ F ε)}
    {doc : Option (StoredDocument (ObjectValue (LeafValue F ε)))}
    (h : StoredDocument.isDocument (writes.foldl (applyWrite key) doc) = true) :
    StoredDocument.IsLocal (writes.foldl (applyWrite key) doc) ↔
      StoredDocument.IsLocal doc ∨ TookEffect key writes doc := by
  induction writes generalizing doc with
  | nil => exact (or_iff_left id).symm
  | cons write writes ih =>
    rw [List.foldl_cons] at h ⊢
    rw [ih h, TookEffect]
    by_cases heffect : write.2.key = key ∧ write.2.precondition.isValidFor doc = true
    · have hmarked : StoredDocument.IsLocal (applyWrite key doc write) ∨
          TookEffect key writes (applyWrite key doc write) := by
        rcases applyWrite_of_valid heffect.1 heffect.2 with hlocal | hdeleted
        · exact Or.inl hlocal
        · by_contra hneither
          rw [foldl_of_not_tookEffect (not_or.mp hneither).2, hdeleted] at h
          cases h
      exact ⟨fun _ => Or.inr (Or.inl heffect), fun _ => hmarked⟩
    · rw [applyWrite_of_not heffect, or_iff_right heffect]

/-! ## Documents of the server -/

omit [DecidableEq κ] [Add F] [IntCast F] in
/-- An acknowledged write leaves no mark. -/
lemma Mutation.not_isLocal_applyToRemoteDocument {m : Mutation κ F ε}
    {doc : Option (StoredDocument (ObjectValue (LeafValue F ε)))} {result : MutationResult F ε}
    {e : StoredDocument (ObjectValue (LeafValue F ε))}
    (h : m.applyToRemoteDocument doc result = .ok e) : ¬ StoredDocument.IsLocal (some e) := by
  unfold applyToRemoteDocument at h
  intro hlocal
  cases m with
  | set key value precondition transforms =>
    dsimp only at h
    split at h
    · cases h
      cases hlocal
    · obtain ⟨_, -, h⟩ := ok_of_bind h
      cases h
      cases hlocal
  | patch key value mask precondition transforms =>
    dsimp only at h
    split_ifs at h
    · cases h
      cases hlocal
    · obtain ⟨_, -, h⟩ := ok_of_bind h
      obtain ⟨_, -, h⟩ := ok_of_bind h
      cases h
      cases hlocal
  | delete key precondition =>
    obtain ⟨_, -, h⟩ := ok_of_bind h
    cases h
    cases hlocal

omit [Add F] [IntCast F] in
/-- An acknowledged batch leaves no mark. -/
lemma MutationBatch.not_isLocal_applyToRemoteDocument {batch : MutationBatch κ F ε} {key : κ}
    {results : List (MutationResult F ε)}
    {doc e : Option (StoredDocument (ObjectValue (LeafValue F ε)))}
    (hdoc : ¬ StoredDocument.IsLocal doc)
    (h : batch.applyToRemoteDocument key results doc = .ok e) : ¬ StoredDocument.IsLocal e := by
  obtain ⟨_, -, h⟩ := ok_of_bind h
  refine foldlM_keeps (P := fun doc => ¬ StoredDocument.IsLocal doc) ?_ h hdoc
  intro d acknowledged d' hd hstep
  unfold applyResult at hstep
  split_ifs at hstep with hkey
  · cases hresult : acknowledged.1.applyToRemoteDocument d acknowledged.2 with
    | error message => rw [hresult] at hstep; cases hstep
    | ok document =>
      rw [hresult] at hstep
      cases hstep
      exact Mutation.not_isLocal_applyToRemoteDocument hresult
  · cases hstep
    exact hd

namespace LocalStore

/-- The documents of the server carry no mark. -/
def Unmarked (s : LocalStore κ F ε) : Prop :=
  ∀ key, ¬ StoredDocument.IsLocal (s.remoteDocuments key)

/-- Documents that the server sends carry no mark. -/
def Event.FromServer : Event κ F ε → Prop
  | write _ _ _ => True
  | acknowledge _ => True
  | reject => True
  | remote documents => ∀ key, ¬ StoredDocument.IsLocal (documents key)

omit [Add F] [IntCast F] in
/-- Acknowledging a batch leaves no mark. -/
lemma unmarked_acknowledgeBatch {s s' : LocalStore κ F ε} {results : List (MutationResult F ε)}
    (hs : s.Unmarked) (h : s.acknowledgeBatch results = .ok s') : s'.Unmarked := by
  unfold acknowledgeBatch at h
  cases hqueue : s.queue with
  | nil => rw [hqueue] at h; cases h
  | cons batch queue =>
    simp only [hqueue] at h
    obtain ⟨_, -, h⟩ := ok_of_bind h
    obtain ⟨documents, hdocuments, h⟩ := ok_of_bind h
    cases h
    refine foldlM_keeps (P := fun documents : κ → Option (StoredDocument (ObjectValue
      (LeafValue F ε))) => ∀ key, ¬ StoredDocument.IsLocal (documents key)) ?_ hdocuments hs
    intro documents key documents' hunmarked hstep key'
    by_cases hkey : key' = key
    · subst hkey
      unfold applyResultTo at hstep
      cases hversion : batch.docVersions results key' with
      | none => rw [hversion] at hstep; cases hstep
      | some ackVersion =>
        simp only [hversion] at hstep
        split_ifs at hstep with hold
        · obtain ⟨doc, hdoc, hstep⟩ := ok_of_bind hstep
          obtain ⟨_, -, hstep⟩ := ok_of_bind hstep
          cases hstep
          rw [Function.update_self]
          exact MutationBatch.not_isLocal_applyToRemoteDocument (hunmarked key') hdoc
        · cases hstep
          exact hunmarked key'
    · rw [applyResultTo_of_ne hstep hkey]
      exact hunmarked key'

/-- No step leaves a mark on the documents of the server. -/
lemma unmarked_step {s s' : LocalStore κ F ε} {e : Event κ F ε} (hs : s.Unmarked)
    (hstep : Step s e s') (hserver : e.FromServer) : s'.Unmarked := by
  cases e with
  | write time mutations h =>
    obtain rfl : s' = s.writeLocally time mutations h := hstep
    exact hs
  | acknowledge results => exact unmarked_acknowledgeBatch hs hstep
  | reject =>
    have h : s.rejectBatch = .ok s' := hstep
    unfold rejectBatch at h
    cases hqueue : s.queue with
    | nil => rw [hqueue] at h; cases h
    | cons batch queue =>
      simp only [hqueue] at h
      cases h
      exact hs
  | remote documents =>
    obtain rfl : s' = { s with remoteDocuments := documents } := hstep
    exact hserver

/-- **The mark of pending writes is right, in every run.** A document that is shown has local
mutations if and only if one of the writes that wait for it took effect on what the server sent.

**Proof sketch.** The documents of the server never carry the mark: neither do those that the server
sends, nor those that acknowledged writes make. So the mark comes from a waiting write. -/
theorem pending_along (s : LocalStore κ F ε) (hs : s.Unmarked)
    (tr : List (Event κ F ε × LocalStore κ F ε)) (hrun : Along Step s tr)
    (hserver : Along (fun _ e _ => e.FromServer) s tr) (key : κ)
    (d : Document κ (ObjectValue (LeafValue F ε)))
    (hd : (StoredDocument.toMaybeDocument key ((final s tr).getDocument key)).toDocument = some d) :
    d.hasLocalMutations = true ↔
      TookEffect key (waitingWrites ((final s tr).batchesAffecting key))
        ((final s tr).remoteDocuments key) := by
  have hunmarked := hrun.final_invariant_of hserver hs
    fun _ _ _ hs hstep hserver => unmarked_step hs hstep hserver
  obtain ⟨hdocument, hlocal⟩ := StoredDocument.hasLocalMutations_iff hd
  unfold getDocument at hdocument hlocal
  rw [getDocument_eq_foldl] at hdocument hlocal
  rw [hlocal, isLocal_foldl_iff hdocument, or_iff_right (hunmarked key)]

/-- A document from the server carries no mark. -/
lemma not_isLocal_counter (n : ℤ) : ¬ StoredDocument.IsLocal (some (counter n)) := by
  intro h
  cases h

/-- The number of a counter is set, and the server sends another number meanwhile. -/
theorem pending_along_counter :
    TookEffect 0 (waitingWrites (settingCount 5).queue) (some (counter 4)) :=
  (pending_along (settingCount 5) (fun _ => not_isLocal_counter 3)
    [(.remote fun _ => some (counter 4),
      { settingCount 5 with remoteDocuments := fun _ => some (counter 4) })]
    ⟨rfl, trivial⟩ ⟨fun _ => not_isLocal_counter 4, trivial⟩ 0 ⟨0, _, .localMutations⟩ rfl).mp rfl

end LocalStore

end AntViewer.Firestore
