import AntViewer.Firestore.Value

set_option relaxedAutoImplicit false
set_option autoImplicit false

/-!
# Firestore documents, collections and queries

The part of Firestore the program relies on. A database has a collection at every path; a
collection is a dictionary from document ids to fields. Paths are split at slashes and empty
segments are dropped, as the vendored client does. The order in which a query compares values
of different types is a parameter, of which only the order of timestamps is used.

## Main definitions

* `ResourcePath.fromString` — the segments of a path.
* `DocumentReference`, `DocumentSnapshot`, `QueryDocumentSnapshot` — what callbacks are handed.
* `Database.setData`, `addDocument`, `delete`, `getDocument`, `documents` — reads and writes.
* `Query.whereField`, `Query.order`, `Query.limit` — the stages of a query.

## Main results

* `Database.find_document` — searching a snapshot by id is looking up the collection.
* `Query.first_greatest` — the first document of a descending order has the greatest value.
-/

namespace AntViewer

/-- `ResourcePath::FromString(path)`: the segments of a slash-separated path; leading and trailing
slashes are ignored. The assertion that a path has no two slashes in a row is left out: the paths
of the program are literals, with the raw value of an environment and the decimal digits of an id
between two slashes, and neither of these is empty or has a slash. -/
def ResourcePath.fromString (path : String) : List String :=
  ((path.toList.splitOnP (· == '/')).filter (· ≠ [])).map String.ofList

/-- A path that is written in two parts has the segments of both. -/
lemma ResourcePath.fromString_append (a b : String) :
    fromString (a ++ "/" ++ b) = fromString a ++ fromString b := by
  have hlist : (a ++ "/" ++ b).toList = a.toList ++ '/' :: b.toList := by
    simp [String.toList_append]
  unfold fromString
  rw [hlist, List.splitOnP_append_cons _ _ (by simp), List.filter_append, List.map_append]

/-- A document's place: the path of its collection and its id in there. -/
structure DocumentReference where
  parent : List String
  documentID : String
  deriving DecidableEq

/-- `ref.collection(path)`. -/
def DocumentReference.collection (ref : DocumentReference) (path : String) : List String :=
  ref.parent ++ ref.documentID :: ResourcePath.fromString path

/-- The state of one document; `data` is nil where the document does not exist. -/
structure DocumentSnapshot where
  reference : DocumentReference
  data : Option Fields

/-- A document in the result of a query, which always exists. -/
structure QueryDocumentSnapshot where
  reference : DocumentReference
  data : Fields

namespace QueryDocumentSnapshot

/-- `document.documentID`. -/
def documentID (d : QueryDocumentSnapshot) : String := d.reference.documentID

/-- A query document where a document snapshot is expected. -/
def toDocumentSnapshot (d : QueryDocumentSnapshot) : DocumentSnapshot :=
  ⟨d.reference, some d.data⟩

end QueryDocumentSnapshot

/-- The documents of a collection: at most one under each id. -/
abbrev Collection := AList fun _ : String => Fields

/-- The content of Firestore: a collection at every path. -/
abbrev Database := List String → Collection

namespace Database

/-- `ref.setData(data)`, received by the server at time `now`: replaces the whole document. -/
def setData (db : Database) (ref : DocumentReference) (data : Fields) (now : Timestamp) :
    Database :=
  Function.update db ref.parent ((db ref.parent).insert ref.documentID (data.resolve now))

/-- `addDocument(data:)` in the collection `path`, which gets the automatic id `docID`. -/
def addDocument (db : Database) (path : List String) (docID : String) (data : Fields)
    (now : Timestamp) : Database :=
  db.setData ⟨path, docID⟩ data now

/-- Deletes a document. -/
def delete (db : Database) (ref : DocumentReference) : Database :=
  Function.update db ref.parent ((db ref.parent).erase ref.documentID)

/-- `ref.getDocument` and the snapshots of a document listener. -/
def getDocument (db : Database) (ref : DocumentReference) : DocumentSnapshot :=
  ⟨ref, (db ref.parent).lookup ref.documentID⟩

/-- All documents of a collection. -/
def documents (db : Database) (path : List String) : List QueryDocumentSnapshot :=
  (db path).entries.map fun e => ⟨⟨path, e.1⟩, e.2⟩

@[simp] lemma setData_same (db : Database) (ref : DocumentReference) (data : Fields)
    (now : Timestamp) : db.setData ref data now ref.parent =
      (db ref.parent).insert ref.documentID (data.resolve now) := by
  simp [setData]

lemma setData_of_ne (db : Database) (ref : DocumentReference) (data : Fields) (now : Timestamp)
    {path : List String} (h : path ≠ ref.parent) : db.setData ref data now path = db path :=
  Function.update_of_ne h _ _

@[simp] lemma delete_same (db : Database) (ref : DocumentReference) :
    db.delete ref ref.parent = (db ref.parent).erase ref.documentID := by
  simp [delete]

lemma delete_of_ne (db : Database) (ref : DocumentReference) {path : List String}
    (h : path ≠ ref.parent) : db.delete ref path = db path :=
  Function.update_of_ne h _ _

/-- A write changes one document. -/
lemma lookup_setData (db : Database) (ref : DocumentReference) (data : Fields) (now : Timestamp)
    (path : List String) (docID : String) : (db.setData ref data now path).lookup docID =
      if path = ref.parent ∧ docID = ref.documentID then some (data.resolve now)
      else (db path).lookup docID := by
  by_cases hpath : path = ref.parent
  · subst hpath
    by_cases hid : docID = ref.documentID
    · subst hid
      simp
    · simp [hid, AList.lookup_insert_ne hid]
  · rw [setData_of_ne db ref data now hpath, if_neg fun h => hpath h.1]

/-- A deletion removes one document. -/
lemma lookup_delete (db : Database) (ref : DocumentReference) (path : List String)
    (docID : String) : (db.delete ref path).lookup docID =
      if path = ref.parent ∧ docID = ref.documentID then none else (db path).lookup docID := by
  by_cases hpath : path = ref.parent
  · subst hpath
    by_cases hid : docID = ref.documentID
    · subst hid
      simp
    · simp [hid, AList.lookup_erase_ne hid]
  · rw [delete_of_ne db ref hpath, if_neg fun h => hpath h.1]

/-- The documents of a collection are the ones that can be looked up in it. -/
lemma mem_documents {db : Database} {path : List String} {d : QueryDocumentSnapshot} :
    d ∈ db.documents path ↔
      d.reference.parent = path ∧ (db path).lookup d.documentID = some d.data := by
  unfold documents
  rw [List.mem_map]
  constructor
  · rintro ⟨e, he, rfl⟩
    exact ⟨rfl, AList.mem_lookup_iff.mpr he⟩
  · rintro ⟨rfl, hdata⟩
    exact ⟨⟨d.documentID, d.data⟩, AList.mem_lookup_iff.mp hdata, rfl⟩

/-- Looking for an id among the documents of a collection, in whatever order they come, finds
the fields stored under that id. -/
lemma find_document {db : Database} {path : List String} {docs : List QueryDocumentSnapshot}
    (hdocs : docs.Perm (db.documents path)) (docID : String) :
    (docs.find? fun d => d.documentID = docID).map QueryDocumentSnapshot.data =
      (db path).lookup docID := by
  cases hfind : docs.find? fun d => d.documentID = docID with
  | none =>
    symm
    rw [Option.map_none, Option.eq_none_iff_forall_ne_some]
    intro data hdata
    have hmem : (⟨⟨path, docID⟩, data⟩ : QueryDocumentSnapshot) ∈ docs :=
      hdocs.mem_iff.mpr (List.mem_map.mpr ⟨⟨docID, data⟩, AList.mem_lookup_iff.mp hdata, rfl⟩)
    simpa [QueryDocumentSnapshot.documentID] using List.find?_eq_none.mp hfind _ hmem
  | some d =>
    have hid : d.documentID = docID := by simpa using List.find?_some hfind
    obtain ⟨e, he, rfl⟩ := List.mem_map.mp (hdocs.mem_iff.mp (List.mem_of_find?_eq_some hfind))
    rw [← hid]
    exact (AList.mem_lookup_iff.mpr he).symm

end Database

/-! ## Queries -/

/-- How a query orders field values: some total preorder that puts timestamps in order. -/
structure ValueOrder where
  le : FieldValue → FieldValue → Bool
  total : ∀ v w, (le v w || le w v) = true
  trans : ∀ u v w, le u v = true → le v w = true → le u w = true
  timestamp : ∀ s t, le (.timestamp s) (.timestamp t) = decide (s ≤ t)

/-- The order in which everything but timestamps is equal and comes before them. -/
def ValueOrder.timestampsLast : ValueOrder where
  le v w := match v.asTimestamp, w.asTimestamp with
    | some s, some t => s ≤ t
    | some _, none => false
    | none, _ => true
  total v w := by
    cases v.asTimestamp <;> cases w.asTimestamp <;> simp [le_total]
  trans u v w := by
    cases u.asTimestamp <;> cases v.asTimestamp <;> cases w.asTimestamp <;> simp
    exact le_trans
  timestamp _ _ := rfl

namespace Query

/-- `whereField(field, isEqualTo: value)`. -/
def whereField (docs : List QueryDocumentSnapshot) (field : String) (value : FieldValue.Filter) :
    List QueryDocumentSnapshot :=
  docs.filter fun d => (d.data.lookup field).any (·.isEqualTo value)

/-- `d` comes no later than `d'` in descending order of a field both of them have. -/
def descending (ord : ValueOrder) (field : String) (d d' : QueryDocumentSnapshot) : Bool :=
  match d'.data.lookup field, d.data.lookup field with
  | some v', some v => ord.le v' v
  | none, _ => true
  | some _, none => false

/-- `order(by: field, descending: true)`; documents without the field are left out. -/
def order (ord : ValueOrder) (docs : List QueryDocumentSnapshot) (field : String) :
    List QueryDocumentSnapshot :=
  (docs.filter fun d => (d.data.lookup field).isSome).mergeSort (descending ord field)

/-- `limit(to: n)`. -/
def limit (docs : List QueryDocumentSnapshot) (n : ℕ) : List QueryDocumentSnapshot :=
  docs.take n

/-- The comparison of documents by a field is transitive. -/
lemma descending_trans (ord : ValueOrder) (field : String) (a b c : QueryDocumentSnapshot)
    (hab : descending ord field a b = true) (hbc : descending ord field b c = true) :
    descending ord field a c = true := by
  unfold descending at *
  cases hc : c.data.lookup field with
  | none => rfl
  | some vc =>
    cases hb : b.data.lookup field with
    | none => simp [hc, hb] at hbc
    | some vb =>
      cases ha : a.data.lookup field with
      | none => simp [hb, ha] at hab
      | some va =>
        simp only [ha, hb, hc] at hab hbc ⊢
        exact ord.trans _ _ _ hbc hab

/-- The comparison of documents by a field is total. -/
lemma descending_total (ord : ValueOrder) (field : String) (a b : QueryDocumentSnapshot) :
    (descending ord field a b || descending ord field b a) = true := by
  unfold descending
  cases a.data.lookup field with
  | none => cases b.data.lookup field <;> simp
  | some va =>
    cases b.data.lookup field with
    | none => simp
    | some vb => exact ord.total vb va

/-- Ordering keeps the documents that have the field. -/
lemma mem_order (ord : ValueOrder) (docs : List QueryDocumentSnapshot) (field : String)
    (d : QueryDocumentSnapshot) :
    d ∈ order ord docs field ↔ d ∈ docs ∧ (d.data.lookup field).isSome := by
  simp [order, List.mem_mergeSort]

/-- **The newest document**: the first document in the descending order of a field is one of
the documents with that field, and no other document of them comes before it. -/
lemma first_greatest (ord : ValueOrder) (docs : List QueryDocumentSnapshot) (field : String)
    (d : QueryDocumentSnapshot) (h : (limit (order ord docs field) 1).head? = some d) :
    d ∈ docs ∧ ∀ d' ∈ docs, (d'.data.lookup field).isSome → descending ord field d d' = true := by
  have hhead : (order ord docs field).head? = some d := by
    simpa [limit, List.head?_take] using h
  obtain ⟨rest, hrest⟩ : ∃ rest, order ord docs field = d :: rest :=
    ⟨_, (List.head?_eq_some_iff.mp hhead).choose_spec⟩
  have hmem : d ∈ order ord docs field := by rw [hrest]; exact List.mem_cons_self
  refine ⟨((mem_order ord docs field d).mp hmem).1, fun d' hd' hsome => ?_⟩
  have hsorted := List.pairwise_mergeSort (descending_trans ord field)
    (descending_total ord field) (docs.filter fun d => (d.data.lookup field).isSome)
  rw [← order, hrest, List.pairwise_cons] at hsorted
  have hd'mem : d' ∈ order ord docs field := (mem_order ord docs field d').mpr ⟨hd', hsome⟩
  rw [hrest, List.mem_cons] at hd'mem
  rcases hd'mem with rfl | hin
  · have := descending_total ord field d' d'
    simpa using this
  · exact hsorted.1 d' hin

end Query

end AntViewer
