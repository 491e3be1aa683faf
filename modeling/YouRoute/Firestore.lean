import Mathlib.Data.List.Infix

/-!
# Documents, snapshots and handlers

A handler is a closure that Firestore calls with a document snapshot. It changes
its controller as it goes; where a forced cast, a forced index or a raised
exception ends the app, the changes made so far are still there.
-/

namespace YouRoute

/-- The values a Firestore document can hold. Values that no controller reads are
represented by their type. -/
inductive FieldValue where
  | null
  | boolean
  | integer
  | double
  | timestamp
  | serverTimestamp
  | string (value : String)
  | blob
  | reference
  | geoPoint
  | array (values : List FieldValue)
  | object (fields : List (String × FieldValue))

/-- A snapshot of a document that exists, with its fields, or of one that does
not. -/
structure DocumentSnapshot where
  data : Option (List (String × FieldValue))

/-- `document.get(field)`. No field name used by the controllers has a dot, so its
path has one segment. -/
def DocumentSnapshot.get (document : DocumentSnapshot) (field : String) : Option FieldValue :=
  document.data.bind (List.lookup field)

/-- What ends the app. -/
inductive Trap where
  | forcedCast
  | indexOutOfRange
  | invalidArgument
  deriving DecidableEq, Repr

section Checked

variable {A B : Type}

/-- A computation that may trap ends well exactly when each of its steps does. -/
theorem bind_eq_ok_iff {x : Except Trap A} {f : A → Except Trap B} {b : B} :
    (x >>= f) = .ok b ↔ ∃ a, x = .ok a ∧ f a = .ok b := by
  cases x <;> simp [bind, Except.bind]

theorem pure_eq_ok_iff {a b : A} : (pure a : Except Trap A) = .ok b ↔ a = b := by
  simp [pure, Except.pure]

theorem ite_throw_eq_ok_iff {p : Prop} [Decidable p] {x : Except Trap A} {trap : Trap} {a : A} :
    (if p then x else throw trap) = .ok a ↔ p ∧ x = .ok a := by
  by_cases hp : p <;> simp [hp, throw, throwThe, MonadExceptOf.throw]

theorem toOption_eq_some_iff {x : Except Trap A} {a : A} : x.toOption = some a ↔ x = .ok a := by
  cases x <;> simp [Except.toOption]

end Checked

/-- `list[row]` -/
def forcedIndex {A : Type} (list : List A) (row : ℕ) : Except Trap A :=
  match list[row]? with
  | some a => .ok a
  | none => .error .indexOutOfRange

theorem forcedIndex_eq_ok_iff {A : Type} {list : List A} {row : ℕ} {a : A} :
    forcedIndex list row = .ok a ↔ list[row]? = some a := by
  unfold forcedIndex
  cases list[row]? <;> simp

/-- The segments of a path: what stands between its slashes, less what is empty. -/
def segments (path : String) : List (List Char) :=
  (path.toList.splitOn '/').filter fun segment => !segment.isEmpty

/-- `collection(path)`: a path of an odd number of segments and no empty one in
the middle. -/
def collection (path : String) : Except Trap (List (List Char)) :=
  if ['/', '/'] <:+: path.toList then .error .invalidArgument
  else if (segments path).length % 2 = 1 then .ok (segments path)
  else .error .invalidArgument

/-- `document(path)` of a collection. -/
def document (collection : List (List Char)) (path : String) : Except Trap (List (List Char)) :=
  if ['/', '/'] <:+: path.toList then .error .invalidArgument
  else if (collection ++ segments path).length % 2 = 0 then .ok (collection ++ segments path)
  else .error .invalidArgument

/-- `collection(name).document(name)`, the reference every listener is added to. -/
def documentReference (name : String) : Except Trap (List (List Char)) := do
  document (← collection name) name

/-- The path of a collection. -/
def IsCollectionPath (path : String) : Prop :=
  ¬ ['/', '/'] <:+: path.toList ∧ (segments path).length % 2 = 1

instance (path : String) : Decidable (IsCollectionPath path) :=
  inferInstanceAs (Decidable (_ ∧ _))

theorem collection_ok_iff {path : String} {result : List (List Char)} :
    collection path = .ok result ↔ IsCollectionPath path ∧ segments path = result := by
  unfold collection IsCollectionPath
  split_ifs with hslash hodd
  · simp [hslash]
  · simp [hslash, hodd]
  · simp [hslash, hodd]

theorem collection_error {path : String} {trap : Trap} (h : collection path = .error trap) :
    trap = .invalidArgument := by
  unfold collection at h
  split_ifs at h <;> exact (Except.error.inj h).symm

theorem document_error {parent : List (List Char)} {path : String} {trap : Trap}
    (h : document parent path = .error trap) : trap = .invalidArgument := by
  unfold document at h
  split_ifs at h <;> exact (Except.error.inj h).symm

theorem documentReference_error {name : String} {trap : Trap}
    (h : documentReference name = .error trap) : trap = .invalidArgument := by
  cases hcollection : collection name with
  | error refused =>
      rw [documentReference, hcollection] at h
      obtain rfl := Except.error.inj h
      exact collection_error hcollection
  | ok path =>
      rw [documentReference, hcollection] at h
      exact document_error h

/-- A name that is a collection is a document of it too. -/
theorem documentReference_of_collection {name : String} {path : List (List Char)}
    (h : collection name = .ok path) : documentReference name = .ok (path ++ path) := by
  obtain ⟨⟨hslash, hodd⟩, rfl⟩ := collection_ok_iff.mp h
  have heven : (segments name ++ segments name).length % 2 = 0 := by
    rw [List.length_append]
    omega
  rw [documentReference, bind_eq_ok_iff]
  exact ⟨_, h, by rw [document, if_neg hslash, if_pos heven]⟩

abbrev Handler (σ : Type) := ExceptT Trap (StateM σ)

/-- Run a handler on a controller: how it ends, and the controller it leaves. -/
def Handler.exec {σ A : Type} (h : Handler σ A) (s : σ) : Except Trap A × σ :=
  StateT.run (ExceptT.run h) s

/-- `value as! Array<Any>` -/
def forcedArray {σ : Type} : Option FieldValue → Handler σ (List FieldValue)
  | some (.array values) => pure values
  | _ => throw .forcedCast

/-- `value as! String` -/
def forcedString {σ : Type} : FieldValue → Handler σ String
  | .string value => pure value
  | _ => throw .forcedCast

/-- The listeners that fill a list: the strings of `field` are appended one by
one, then the collection view is reloaded. -/
def appendListener {σ : Type} (field : String) (append : String → σ → σ) (reloadData : σ → σ)
    (documentSnapshot : Option DocumentSnapshot) : Handler σ Unit := do
  let some document := documentSnapshot | return
  let Ary ← forcedArray (document.get field)
  forM Ary fun Arys => do
    let name ← forcedString Arys
    modify (append name)
  modify reloadData

/-- The listeners of cells: the first string of `field` is the URL of the picture
to download. `referenceForURL` tells the URLs that Storage takes without raising.
The result is the URL of the download started, if one is. -/
def pictureListener {σ : Type} (field : String) (referenceForURL : String → Bool)
    (documentSnapshot : Option DocumentSnapshot) : Handler σ (Option String) := do
  let some document := documentSnapshot | return none
  let Ary ← forcedArray (document.get field)
  let some value := Ary.head? | throw .indexOutOfRange
  let url ← forcedString value
  if referenceForURL url then return some url else throw .invalidArgument

/-- The field is an array of strings. -/
def DocumentSnapshot.HoldsStrings (document : DocumentSnapshot) (field : String)
    (names : List String) : Prop :=
  document.get field = some (.array (names.map .string))

section Exec

variable {σ A B : Type}

@[simp] theorem exec_pure (a : A) (s : σ) : (pure a : Handler σ A).exec s = (.ok a, s) := rfl

@[simp] theorem exec_modify (f : σ → σ) (s : σ) :
    (modify f : Handler σ PUnit).exec s = (.ok ⟨⟩, f s) := rfl

@[simp] theorem exec_get (s : σ) : (get : Handler σ σ).exec s = (.ok s, s) := rfl

@[simp] theorem exec_ofExcept (e : Except Trap A) (s : σ) :
    (MonadExcept.ofExcept e : Handler σ A).exec s = (e, s) := by
  cases e <;> rfl

theorem exec_bind_ok {h : Handler σ A} {k : A → Handler σ B} {s t : σ} {a : A}
    (hh : h.exec s = (.ok a, t)) : (h >>= k).exec s = (k a).exec t := by
  simp only [Handler.exec, ExceptT.run_bind, StateT.run_bind]
  simp only [Handler.exec] at hh
  rw [hh]
  rfl

theorem exec_bind_error {h : Handler σ A} {k : A → Handler σ B} {s t : σ} {trap : Trap}
    (hh : h.exec s = (.error trap, t)) : (h >>= k).exec s = (.error trap, t) := by
  simp only [Handler.exec, ExceptT.run_bind, StateT.run_bind]
  simp only [Handler.exec] at hh
  rw [hh]
  rfl

end Exec

section Forced

variable {σ : Type}

theorem forcedArray_ok {value : Option FieldValue} {values : List FieldValue}
    (h : value = some (.array values)) (s : σ) :
    (forcedArray value : Handler σ _).exec s = (.ok values, s) := by
  rw [h]
  rfl

theorem forcedArray_error {value : Option FieldValue}
    (h : ∀ values, value ≠ some (.array values)) (s : σ) :
    (forcedArray value : Handler σ _).exec s = (.error .forcedCast, s) := by
  unfold forcedArray
  split
  next values => exact absurd rfl (h values)
  next => rfl

theorem forcedString_error {value : FieldValue} (h : ∀ name, value ≠ .string name) (s : σ) :
    (forcedString value : Handler σ _).exec s = (.error .forcedCast, s) := by
  unfold forcedString
  split
  next name => exact absurd rfl (h name)
  next => rfl

end Forced

section AppendListener

variable {σ : Type} (field : String) (append : String → σ → σ) (reloadData : σ → σ)

/-- The controller after the strings are appended one by one. -/
def appendAll (names : List String) (s : σ) : σ := names.foldl (fun s name => append name s) s

/-- The loop of the listener. -/
abbrev appendLoop (values : List FieldValue) : Handler σ PUnit :=
  forM values fun Arys => do
    let name ← forcedString Arys
    modify (append name)

theorem appendLoop_strings (names : List String) (s : σ) :
    (appendLoop append (names.map .string)).exec s = (.ok ⟨⟩, appendAll append names s) := by
  induction names generalizing s with
  | nil => rfl
  | cons name names ih =>
      have hstep : (do
          let name ← forcedString (FieldValue.string name)
          modify (append name) : Handler σ PUnit).exec s = (.ok ⟨⟩, append name s) := rfl
      rw [List.map_cons, appendLoop, List.forM_cons, exec_bind_ok hstep]
      exact ih (append name s)

/-- Elements before the first one that is no string are appended; that one ends
the app. -/
theorem appendLoop_bad (names : List String) (value : FieldValue) (rest : List FieldValue)
    (hvalue : ∀ name, value ≠ .string name) (s : σ) :
    (appendLoop append (names.map .string ++ value :: rest)).exec s =
      (.error .forcedCast, appendAll append names s) := by
  induction names generalizing s with
  | nil =>
      have hstep : (do
          let name ← forcedString value
          modify (append name) : Handler σ PUnit).exec s = (.error .forcedCast, s) :=
        exec_bind_error (forcedString_error hvalue s)
      rw [List.map_nil, List.nil_append, appendLoop, List.forM_cons, exec_bind_error hstep]
      rfl
  | cons name names ih =>
      have hstep : (do
          let name ← forcedString (FieldValue.string name)
          modify (append name) : Handler σ PUnit).exec s = (.ok ⟨⟩, append name s) := rfl
      rw [List.map_cons, List.cons_append, appendLoop, List.forM_cons, exec_bind_ok hstep]
      exact ih (append name s)

/-- An array holds strings only, or a first element that is none. -/
theorem strings_or_bad (values : List FieldValue) :
    (∃ names : List String, values = names.map .string) ∨
      ∃ (names : List String) (value : FieldValue) (rest : List FieldValue),
        values = names.map .string ++ value :: rest ∧ ∀ name, value ≠ .string name := by
  induction values with
  | nil => exact Or.inl ⟨[], rfl⟩
  | cons value values ih =>
      by_cases hvalue : ∃ name, value = .string name
      · obtain ⟨name, rfl⟩ := hvalue
        rcases ih with ⟨names, rfl⟩ | ⟨names, bad, rest, rfl, hbad⟩
        · exact Or.inl ⟨name :: names, rfl⟩
        · exact Or.inr ⟨name :: names, bad, rest, rfl, hbad⟩
      · exact Or.inr ⟨[], value, values, rfl, fun name h => hvalue ⟨name, h⟩⟩

@[simp] theorem appendListener_error (s : σ) :
    (appendListener field append reloadData none).exec s = (.ok (), s) := rfl

theorem appendListener_holds {document : DocumentSnapshot} {names : List String}
    (h : document.HoldsStrings field names) (s : σ) :
    (appendListener field append reloadData (some document)).exec s =
      (.ok (), reloadData (appendAll append names s)) := by
  simp only [appendListener]
  rw [exec_bind_ok (forcedArray_ok h s), exec_bind_ok (appendLoop_strings append names s)]
  rfl

/-- On any other document the app ends, with the leading strings of the field
already appended. -/
theorem appendListener_fails {document : DocumentSnapshot}
    (h : ∀ names, ¬ document.HoldsStrings field names) (s : σ) :
    ∃ names, (appendListener field append reloadData (some document)).exec s =
      (.error .forcedCast, appendAll append names s) := by
  simp only [appendListener]
  by_cases harray : ∃ values, document.get field = some (.array values)
  · obtain ⟨values, hvalues⟩ := harray
    rw [exec_bind_ok (forcedArray_ok hvalues s)]
    rcases strings_or_bad values with ⟨names, rfl⟩ | ⟨names, value, rest, rfl, hvalue⟩
    · exact absurd hvalues (h names)
    · exact ⟨names, exec_bind_error (appendLoop_bad append names value rest hvalue s)⟩
  · rw [exec_bind_error (forcedArray_error (not_exists.mp harray) s)]
    exact ⟨[], rfl⟩

end AppendListener

/-- The field is an array that starts with a URL that Storage takes. -/
def DocumentSnapshot.HoldsPicture (document : DocumentSnapshot) (field : String)
    (referenceForURL : String → Bool) (url : String) : Prop :=
  ∃ rest, document.get field = some (.array (.string url :: rest)) ∧ referenceForURL url = true

section PictureListener

variable {σ : Type} (field : String) (referenceForURL : String → Bool)

@[simp] theorem pictureListener_error (s : σ) :
    (pictureListener field referenceForURL none).exec s = (.ok none, s) := rfl

/-- Where the array starts with a string, all depends on Storage. -/
theorem pictureListener_url {document : DocumentSnapshot} {url : String}
    {rest : List FieldValue} (h : document.get field = some (.array (.string url :: rest)))
    (s : σ) :
    (pictureListener field referenceForURL (some document)).exec s =
      (if referenceForURL url then .ok (some url) else .error .invalidArgument, s) := by
  have hstring : (forcedString (.string url) : Handler σ _).exec s = (.ok url, s) := rfl
  simp only [pictureListener]
  rw [exec_bind_ok (forcedArray_ok h s)]
  simp only [List.head?_cons]
  rw [exec_bind_ok hstring]
  split <;> rfl

theorem pictureListener_holds {document : DocumentSnapshot} {url : String}
    (h : document.HoldsPicture field referenceForURL url) (s : σ) :
    (pictureListener field referenceForURL (some document)).exec s = (.ok (some url), s) := by
  obtain ⟨rest, hget, hurl⟩ := h
  rw [pictureListener_url field referenceForURL hget s, if_pos hurl]

/-- On any other document the app ends; the controller is not changed. -/
theorem pictureListener_fails {document : DocumentSnapshot}
    (h : ∀ url, ¬ document.HoldsPicture field referenceForURL url) (s : σ) :
    ∃ trap, (pictureListener field referenceForURL (some document)).exec s =
      (.error trap, s) := by
  by_cases harray : ∃ values, document.get field = some (.array values)
  · obtain ⟨values, hvalues⟩ := harray
    cases values with
    | nil =>
        refine ⟨.indexOutOfRange, ?_⟩
        simp only [pictureListener]
        rw [exec_bind_ok (forcedArray_ok hvalues s)]
        rfl
    | cons value rest =>
        by_cases hvalue : ∃ url, value = .string url
        · obtain ⟨url, rfl⟩ := hvalue
          have hurl : ¬ referenceForURL url = true := fun hurl => h url ⟨rest, hvalues, hurl⟩
          exact ⟨.invalidArgument,
            by rw [pictureListener_url field referenceForURL hvalues s, if_neg hurl]⟩
        · refine ⟨.forcedCast, ?_⟩
          simp only [pictureListener]
          rw [exec_bind_ok (forcedArray_ok hvalues s)]
          simp only [List.head?_cons]
          rw [exec_bind_error (forcedString_error (not_exists.mp hvalue) s)]
  · refine ⟨.forcedCast, ?_⟩
    simp only [pictureListener]
    rw [exec_bind_error (forcedArray_error (not_exists.mp harray) s)]

end PictureListener

end YouRoute
