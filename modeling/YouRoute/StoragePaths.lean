import YouRoute.Separators

/-!
# Paths of objects in a storage bucket

A storage path is a bucket and an object path, which is standardized when the path
is made. It is written as a `gs://` text and read back by a scanner, which skips
white space before each part and stops at the end of a line. The text is read back
as the path that wrote it exactly when neither part starts with white space, the
bucket is one component and the object is on one line.
-/

namespace YouRoute
open Separators

/-- The characters that a scanner skips before it scans. -/
def whitespaceAndNewline (c : Char) : Bool :=
  let n := c.toNat
  (9 ≤ n && n ≤ 13) || n == 0x20 || n == 0x85 || n == 0xA0 || n == 0x1680 ||
    (0x2000 ≤ n && n ≤ 0x200A) || n == 0x2028 || n == 0x2029 || n == 0x202F || n == 0x205F ||
    n == 0x3000

/-- `scanString:` on what is left of a text, and what it leaves. -/
def scanString (string text : List Char) : Option (List Char) :=
  let scanned := text.dropWhile whitespaceAndNewline
  if string.isPrefixOf scanned then some (scanned.drop string.length) else none

/-- `scanUpToString:` for a text of one character. Nothing is scanned where it stands first. -/
def scanUpTo (stop : Char) (text : List Char) : Option (List Char × List Char) :=
  let scanned := text.dropWhile whitespaceAndNewline
  let taken := scanned.takeWhile fun c => c != stop
  if taken.isEmpty then none else some (taken, scanned.dropWhile fun c => c != stop)

def stringByAppendingPathComponent (path component : List Char) : List Char :=
  if path.isEmpty then component else path ++ '/' :: component

def stringByDeletingLastPathComponent (path : List Char) : List Char :=
  join '/' (components '/' path).dropLast

def lastPathComponent (path : List Char) : List Char :=
  (components '/' path).getLast?.getD []

structure StoragePath where
  bucket : List Char
  object : Option (List Char)
  standardized : ∀ o, object = some o → standardize '/' o = o

namespace StoragePath

theorem ext_parts {p r : StoragePath} (hbucket : p.bucket = r.bucket)
    (hobject : p.object = r.object) : p = r := by
  cases p
  cases r
  cases hbucket
  cases hobject
  rfl

instance : DecidableEq StoragePath := fun p r =>
  decidable_of_iff (p.bucket = r.bucket ∧ p.object = r.object)
    ⟨fun h => ext_parts h.1 h.2, fun h => h ▸ ⟨rfl, rfl⟩⟩

/-- `initWithBucket:object:` -/
def make (bucket : List Char) (object : Option (List Char)) : StoragePath where
  bucket := bucket
  object := object.map (standardize '/')
  standardized o h := by
    obtain ⟨object, -, rfl⟩ := Option.map_eq_some_iff.mp h
    exact standardize_standardize object

def child (p : StoragePath) (path : List Char) : StoragePath :=
  if path.isEmpty then p
  else
    make p.bucket (some (match p.object with
      | none => path
      | some object => stringByAppendingPathComponent object path))

def parent (p : StoragePath) : Option StoragePath :=
  match p.object with
  | none => none
  | some object =>
      if object.isEmpty then none
      else some (make p.bucket (some (stringByDeletingLastPathComponent object)))

def root (p : StoragePath) : StoragePath := make p.bucket none

/-- The name of a reference with the path. -/
def name (p : StoragePath) : List Char := lastPathComponent (p.object.getD [])

def gs : List Char := ['g', 's', ':', '/', '/']

def stringValue (p : StoragePath) : List Char := gs ++ p.bucket ++ '/' :: p.object.getD []

/-- Nothing results where an exception is raised. -/
def pathFromGSURI (text : List Char) : Option StoragePath :=
  ((scanString gs text).bind (scanUpTo '/')).map fun (bucket, rest) =>
    make bucket ((scanUpTo '\n' ((scanString ['/'] rest).getD rest)).map Prod.fst)

def storageHost : List Char := "firebasestorage.googleapis.com".toList

section FromString

/- The host and the path components of a URL, where a text is one. -/
variable (parseURL : List Char → Option (List Char × List (List Char)))

def pathFromHTTPURL (text : List Char) : Option StoragePath :=
  let pathComponents :=
    match parseURL text with
    | none => []
    | some (host, pathComponents) => if host = storageHost then pathComponents else []
  let bucketName := pathComponents[3]?.getD []
  let objectName := join '/' (pathComponents.drop 5)
  if bucketName.isEmpty then none
  else some (make bucketName (if objectName.isEmpty then none else some objectName))

def pathFromString (text : List Char) : Option StoragePath :=
  if gs.isPrefixOf text then pathFromGSURI text
  else if "http://".toList.isPrefixOf text || "https://".toList.isPrefixOf text then
    pathFromHTTPURL parseURL text
  else none

/-- The path of `referenceForURL:`, which raises for another bucket than its own. -/
def referenceForURL (storageBucket text : List Char) : Option StoragePath :=
  (pathFromString parseURL text).bind fun path =>
    if storageBucket.isEmpty || path.bucket == storageBucket then some path else none

end FromString

end StoragePath

namespace StoragePaths
open StoragePath

/-- The components of the object of a path. -/
def parts (p : StoragePath) : List (List Char) := components '/' (p.object.getD [])

theorem eq_of_parts {p r : StoragePath} (hbucket : p.bucket = r.bucket)
    (hsome : p.object.isSome = r.object.isSome) (hparts : parts p = parts r) : p = r := by
  refine ext_parts hbucket ?_
  cases hp : p.object with
  | none =>
      rw [hp] at hsome
      exact (Option.isNone_iff_eq_none.mp (by rw [← Option.not_isSome, ← hsome]; rfl)).symm
  | some o =>
      rw [hp] at hsome
      obtain ⟨o', ho'⟩ := Option.isSome_iff_exists.mp hsome.symm
      rw [parts, parts, hp, ho'] at hparts
      rw [ho']
      exact congrArg some (eq_of_components (p.standardized o hp) (r.standardized o' ho') hparts)

@[simp] theorem parts_make (bucket object : List Char) :
    parts (make bucket (some object)) = components '/' object :=
  components_standardize object

theorem isComponent_of_mem_parts {p : StoragePath} {x : List Char} (h : x ∈ parts p) :
    IsComponent '/' x := isComponent_of_mem h

/-- A child has the components of its parent and of its own path. -/
theorem parts_child (p : StoragePath) (path : List Char) :
    parts (p.child path) = parts p ++ components '/' path := by
  unfold child
  cases path with
  | nil => simp
  | cons c path =>
      rw [if_neg (by simp), parts_make]
      cases hobject : p.object with
      | none => simp [parts, hobject]
      | some object =>
          simp only [parts, hobject, Option.getD_some, stringByAppendingPathComponent]
          cases object with
          | nil => simp
          | cons d object =>
              rw [if_neg (by simp)]
              exact components_append (d :: object) (c :: path)

theorem bucket_child (p : StoragePath) (path : List Char) : (p.child path).bucket = p.bucket := by
  unfold child
  split_ifs
  · rfl
  · rfl

theorem object_child_isSome (p : StoragePath) {path : List Char} (h : path ≠ []) :
    (p.child path).object.isSome = true := by
  rw [child, if_neg (by simpa using h)]
  rfl

/-- Two steps down are one step down the joined path. -/
theorem child_child (p : StoragePath) (first : List Char) {second : List Char} (h : second ≠ []) :
    (p.child first).child second = p.child (first ++ '/' :: second) := by
  refine eq_of_parts ?_ ?_ ?_
  · rw [bucket_child, bucket_child, bucket_child]
  · rw [object_child_isSome _ h, object_child_isSome p (by simp)]
  · rw [parts_child, parts_child, parts_child, components_append, List.append_assoc]

theorem name_eq (p : StoragePath) : p.name = (parts p).getLast?.getD [] := rfl

/-- The parent drops the last component. -/
theorem parent_eq_some_iff_parts {p r : StoragePath} :
    p.parent = some r ↔ parts p ≠ [] ∧ r.bucket = p.bucket ∧ r.object.isSome = true ∧
      parts r = (parts p).dropLast := by
  unfold parent
  cases hobject : p.object with
  | none => simp [parts, hobject]
  | some object =>
      have hparts : parts p = components '/' object := by rw [parts, hobject]; rfl
      have hempty : object.isEmpty = true ↔ parts p = [] := by
        rw [hparts, List.isEmpty_iff]
        constructor
        · intro h
          rw [h, components_nil]
        · intro h
          have hstandard := p.standardized object hobject
          rw [standardize, h] at hstandard
          exact hstandard.symm
      have hdeleted : components '/' (stringByDeletingLastPathComponent object) =
          (parts p).dropLast := by
        rw [stringByDeletingLastPathComponent, hparts]
        exact components_join fun x hx => isComponent_of_mem ((List.dropLast_sublist _).subset hx)
      dsimp only
      split_ifs with h
      · exact iff_of_false (by simp) (fun hr => hr.1 (hempty.mp h))
      · constructor
        · intro hr
          cases hr
          exact ⟨fun hnil => h (hempty.mpr hnil), rfl, rfl, by rw [parts_make, hdeleted]⟩
        · rintro ⟨-, hbucket, hsome, hr⟩
          refine congrArg some (eq_of_parts hbucket.symm (by rw [hsome]; rfl) ?_)
          rw [parts_make, hdeleted, hr]

/-- A path is the child of its parent that has its name, and of no other path in this way. -/
theorem parent_eq_some_iff (p r : StoragePath) :
    p.parent = some r ↔ r.object.isSome = true ∧ IsComponent '/' p.name ∧ r.child p.name = p := by
  rw [parent_eq_some_iff_parts]
  constructor
  · rintro ⟨hne, hbucket, hsome, hparts⟩
    obtain ⟨last, hlast⟩ := Option.isSome_iff_exists.mp (List.getLast?_isSome.mpr hne)
    have hname : p.name = last := by rw [name_eq, hlast]; rfl
    have hmem : last ∈ parts p := List.mem_of_getLast? hlast
    have hcomponent : IsComponent '/' p.name := hname ▸ isComponent_of_mem_parts hmem
    refine ⟨hsome, hcomponent, eq_of_parts ?_ ?_ ?_⟩
    · rw [bucket_child, hbucket]
    · rw [object_child_isSome r hcomponent.ne_nil]
      cases hobject : p.object with
      | none => simp [parts, hobject] at hne
      | some object => rfl
    · rw [parts_child, hparts, components_of_isComponent hcomponent, hname]
      exact List.dropLast_append_getLast? last hlast
  · rintro ⟨hsome, hcomponent, hchild⟩
    have hparts : parts p = parts r ++ [p.name] := by
      rw [← components_of_isComponent hcomponent, ← parts_child, hchild]
    refine ⟨by simp [hparts], ?_, hsome, ?_⟩
    · rw [← hchild, bucket_child]
    · rw [hparts, List.dropLast_concat]

section Scanner

/-- The text does not start with what a scanner skips. -/
def StartsVisible (text : List Char) : Prop :=
  ∀ c, text.head? = some c → whitespaceAndNewline c = false

theorem dropWhile_of_startsVisible {text : List Char} (h : StartsVisible text) :
    text.dropWhile whitespaceAndNewline = text := by
  cases text with
  | nil => rfl
  | cons c text => exact List.dropWhile_cons_of_neg (by rw [h c rfl]; exact Bool.false_ne_true)

theorem startsVisible_append {text rest : List Char} (h : StartsVisible text) (hne : text ≠ []) :
    StartsVisible (text ++ rest) := by
  cases text with
  | nil => exact (hne rfl).elim
  | cons c text => exact h

/-- What a scanner scans is not empty, does not start with white space and has no stop. -/
theorem scanUpTo_spec {stop : Char} {text taken rest : List Char}
    (h : scanUpTo stop text = some (taken, rest)) :
    taken ≠ [] ∧ stop ∉ taken ∧ StartsVisible taken ∧ taken.Sublist text := by
  simp only [scanUpTo] at h
  split_ifs at h with hempty
  obtain ⟨rfl, -⟩ := Prod.mk.inj (Option.some.inj h)
  refine ⟨fun hnil => hempty (List.isEmpty_iff.mpr hnil), ?_, ?_, ?_⟩
  · intro hmem
    have hstop := List.all_eq_true.mp List.all_takeWhile stop hmem
    simp at hstop
  · intro c hc
    cases hdrop : text.dropWhile whitespaceAndNewline with
    | nil =>
        rw [hdrop] at hc
        cases hc
    | cons d rest =>
        have hd := List.head_dropWhile_not whitespaceAndNewline
          (show text.dropWhile whitespaceAndNewline ≠ [] by rw [hdrop]; simp)
        simp only [hdrop, List.head_cons] at hd
        rw [hdrop, List.takeWhile_cons] at hc
        split_ifs at hc
        · exact Option.some.inj hc ▸ hd
        · cases hc
  · exact (List.takeWhile_sublist _).trans (List.dropWhile_sublist _)

/-- A visible text without the stop is scanned whole. -/
theorem scanUpTo_append {stop : Char} {text : List Char} (hne : text ≠ []) (hstop : stop ∉ text)
    (hvisible : StartsVisible text) {rest : List Char} (hrest : rest = [] ∨ rest.head? = some stop) :
    scanUpTo stop (text ++ rest) = some (text, rest) := by
  have hall : ∀ c ∈ text, (c != stop) = true := by
    intro c hc
    exact bne_iff_ne.mpr fun heq => hstop (heq ▸ hc)
  have htake : (text ++ rest).takeWhile (fun c => c != stop) = text := by
    rw [List.takeWhile_append_of_pos hall]
    cases hrest with
    | inl hnil => rw [hnil, List.takeWhile_nil, List.append_nil]
    | inr hhead =>
        obtain ⟨tail, rfl⟩ := List.head?_eq_some_iff.mp hhead
        rw [List.takeWhile_cons_of_neg (by simp), List.append_nil]
  have hdrop : (text ++ rest).dropWhile (fun c => c != stop) = rest := by
    rw [List.dropWhile_append_of_pos hall]
    cases hrest with
    | inl hnil => rw [hnil, List.dropWhile_nil]
    | inr hhead =>
        obtain ⟨tail, rfl⟩ := List.head?_eq_some_iff.mp hhead
        rw [List.dropWhile_cons_of_neg (by simp)]
  rw [scanUpTo, dropWhile_of_startsVisible (startsVisible_append hvisible hne)]
  simp only [htake, hdrop]
  rw [if_neg (by simpa using hne)]

theorem scanString_append {string rest : List Char} (hne : string ≠ [])
    (hvisible : StartsVisible string) : scanString string (string ++ rest) = some rest := by
  rw [scanString, dropWhile_of_startsVisible (startsVisible_append hvisible hne)]
  simp

end Scanner

section RoundTrip

theorem startsVisible_gs : StartsVisible gs := by
  intro c hc
  cases hc
  decide

theorem startsVisible_slash : StartsVisible ['/'] := by
  intro c hc
  cases hc
  decide

/-- Reading a `gs://` text. -/
theorem pathFromString_gs (parseURL : List Char → Option (List Char × List (List Char)))
    (text : List Char) :
    pathFromString parseURL (gs ++ text) =
      (scanUpTo '/' text).map fun (bucket, rest) =>
        make bucket ((scanUpTo '\n' ((scanString ['/'] rest).getD rest)).map Prod.fst) := by
  rw [pathFromString, if_pos (by simp), pathFromGSURI,
    scanString_append (by simp [gs]) startsVisible_gs, Option.bind_some]

/-- Reading a `gs://` text with a bucket and an object. -/
theorem pathFromString_bucket (parseURL : List Char → Option (List Char × List (List Char)))
    {bucket : List Char} (hbucket : IsComponent '/' bucket) (hvisible : StartsVisible bucket)
    (object : List Char) :
    pathFromString parseURL (gs ++ bucket ++ '/' :: object) =
      some (make bucket ((scanUpTo '\n' object).map Prod.fst)) := by
  have hobject : scanString ['/'] ('/' :: object) = some object :=
    scanString_append (List.cons_ne_nil _ _) startsVisible_slash
  rw [List.append_assoc, pathFromString_gs,
    scanUpTo_append hbucket.ne_nil hbucket.notMem hvisible (.inr rfl), Option.map_some]
  simp only [hobject, Option.getD_some]

/-- The text of a path is read back as the path exactly when the bucket is one component, the
object is on one line, and neither starts with white space. -/
theorem stringValue_read_back_iff
    (parseURL : List Char → Option (List Char × List (List Char))) (p : StoragePath) :
    pathFromString parseURL p.stringValue = some p ↔
      IsComponent '/' p.bucket ∧ StartsVisible p.bucket ∧
        ∀ o, p.object = some o → o ≠ [] ∧ '\n' ∉ o ∧ StartsVisible o := by
  constructor
  · intro h
    have hread := h
    rw [stringValue, List.append_assoc, pathFromString_gs, Option.map_eq_some_iff] at hread
    obtain ⟨⟨bucket, rest⟩, hscan, hmake⟩ := hread
    obtain ⟨hne, hslash, hvisible, -⟩ := scanUpTo_spec hscan
    have hbucket : bucket = p.bucket := by rw [← hmake]; rfl
    rw [hbucket] at hne hslash hvisible
    refine ⟨⟨hne, hslash⟩, hvisible, ?_⟩
    intro o ho
    rw [stringValue, pathFromString_bucket parseURL ⟨hne, hslash⟩ hvisible, ho] at h
    have hobject : ((scanUpTo '\n' o).map Prod.fst).map (standardize '/') = some o :=
      (congrArg StoragePath.object (Option.some.inj h)).trans ho
    rw [Option.map_map, Option.map_eq_some_iff] at hobject
    obtain ⟨⟨taken, left⟩, htaken, hstandard⟩ := hobject
    obtain ⟨htne, hline, htvisible, hsub⟩ := scanUpTo_spec htaken
    have hback : o.Sublist taken := by
      rw [← hstandard]
      exact standardize_sublist taken
    rw [← hback.antisymm hsub] at htne hline htvisible
    exact ⟨htne, hline, htvisible⟩
  · rintro ⟨hbucket, hvisible, hobject⟩
    rw [stringValue, pathFromString_bucket parseURL hbucket hvisible]
    refine congrArg some (ext_parts rfl ?_)
    cases ho : p.object with
    | none => rfl
    | some o =>
        obtain ⟨hne, hline, hstarts⟩ := hobject o ho
        have hscan := scanUpTo_append hne hline hstarts (.inl rfl : ([] : List Char) = [] ∨ _)
        rw [List.append_nil] at hscan
        simp only [Option.getD_some, hscan, make, Option.map_some, p.standardized o ho]

end RoundTrip

end StoragePaths

end YouRoute
