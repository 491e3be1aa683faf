import YouRoute.Decoder

/-!
# Predictions do not depend on memory layout

Each feature array stands for a tensor: its element at a channel, a row and a
column, wherever the strides put it in memory. The loops of the decoder, with the
variables they re-assign, are shown to compute a comprehension over the slots
that mentions the tensors only.
-/

namespace YouRoute.TensorLayout

universe u v

/-- Element at level, channel, row and column. -/
abbrev Tensors (F : Type*) := Fin 3 → ℕ → ℕ → ℕ → F

def logical {F : Type*} (features : Features F) : Tensors F := fun i => (features.level i).element

structure Slot where
  level : Fin 3
  cy : ℕ
  cx : ℕ
  b : Fin boxesPerCell
  deriving DecidableEq, Repr

/-- All slots, in the order of the four outer loops. -/
def slots : List Slot :=
  (List.finRange 3).flatMap fun i => (List.range (gridHeight i)).flatMap fun cy =>
    (List.range (gridWidth i)).flatMap fun cx => (List.finRange boxesPerCell).map fun b =>
      ⟨i, cy, cx, b⟩

theorem mem_slots {s : Slot} :
    s ∈ slots ↔ s.cy < gridHeight s.level ∧ s.cx < gridWidth s.level := by
  obtain ⟨i, cy, cx, b⟩ := s
  simp [slots]

theorem slots_nodup : slots.Nodup := by
  simp only [slots, List.nodup_flatMap]
  refine ⟨fun i _ => ⟨fun cy _ => ⟨fun cx _ => ?_, ?_⟩, ?_⟩, ?_⟩
  · exact (List.nodup_finRange _).map fun b c h => (Slot.mk.inj h).2.2.2
  · exact List.nodup_range.imp fun {cx dx} hne s hs ht => hne (by
      simp only [List.mem_map] at hs ht
      obtain ⟨b, _, rfl⟩ := hs
      obtain ⟨c, _, h⟩ := ht
      exact (Slot.mk.inj h).2.2.1.symm)
  · exact List.nodup_range.imp fun {cy dy} hne s hs ht => hne (by
      simp only [List.mem_flatMap, List.mem_map] at hs ht
      obtain ⟨_, _, b, _, rfl⟩ := hs
      obtain ⟨_, _, c, _, h⟩ := ht
      exact (Slot.mk.inj h).2.1.symm)
  · exact (List.nodup_finRange 3).imp fun {i j} hne s hs ht => hne (by
      simp only [List.mem_flatMap, List.mem_map] at hs ht
      obtain ⟨_, _, _, _, b, _, rfl⟩ := hs
      obtain ⟨_, _, _, _, c, _, h⟩ := ht
      exact (Slot.mk.inj h).1.symm)

/-- What a slot reads, from the channels of its anchor pair. -/
def slotValues {F : Type*} (T : Tensors F) (s : Slot) : SlotValues F where
  tx := T s.level (85 * s.b.val) s.cy s.cx
  ty := T s.level (85 * s.b.val + 1) s.cy s.cx
  tw := T s.level (85 * s.b.val + 2) s.cy s.cx
  th := T s.level (85 * s.b.val + 3) s.cy s.cx
  tc := T s.level (85 * s.b.val + 4) s.cy s.cx
  classes := (List.range 80).map fun c => T s.level (85 * s.b.val + 5 + c) s.cy s.cx

theorem readSlot_eq {F : Type*} (features : Features F) (s : Slot) :
    Id.run (readSlot (fun channel x y =>
      pure ((Registers.load (features.level s.level)).read channel x y)) s.cx s.cy s.b.val) =
      slotValues (logical features) s := by
  simp only [readSlot, slotValues, numClasses, Nat.mul_comm s.b.val, Id.run_bind, Id.run_pure,
    List.idRun_mapM]
  rfl

/-- A loop whose body appends is an append of what its rounds append. -/
theorem foldlM_append {A B : Type*} {body : List B → A → Option (List B)} {f : A → List B}
    (xs : List A) (h : ∀ acc, ∀ x ∈ xs, body acc x = some (acc ++ f x)) (acc : List B) :
    xs.foldlM body acc = some (acc ++ xs.flatMap f) := by
  induction xs generalizing acc with
  | nil => simp
  | cons x xs ih =>
      have hx := h acc x List.mem_cons_self
      have htail := ih (fun acc y hy => h acc y (List.mem_cons_of_mem x hy)) (acc ++ f x)
      rw [List.foldlM_cons, hx]
      simpa using htail

section Loops

variable {F : Type*} [Add F] [Sub F] [Mul F] [Div F] [Neg F] [Zero F] [One F] [Max F]
  [LT F] [DecidableLT F] [NatCast F] [OfNat F 2] [OfScientific F] [Pow F ℕ] (exp : F → F)

/-- The prediction of a slot whose best class probability times the sigmoid of
its confidence channel exceeds the threshold. -/
def detection (T : Tensors F) (s : Slot) : Option (Prediction F) :=
  (argmax (softmax exp (slotValues T s).classes)).bind fun best =>
    if 0.6 < best.2 * sigmoid exp (T s.level (85 * s.b.val + 4) s.cy s.cx) then
      some ⟨best.1, best.2 * sigmoid exp (T s.level (85 * s.b.val + 4) s.cy s.cx),
        slotRect exp s.level s.cx s.cy s.b (slotValues T s)⟩
    else none

/-- The logit of a class in a slot. -/
def logit (T : Tensors F) (s : Slot) (c : ℕ) : F := T s.level (85 * s.b.val + 5 + c) s.cy s.cx

/-- What is added to the logits of a slot so that the largest becomes zero. -/
def shift (T : Tensors F) (s : Slot) : F :=
  -(List.range' 1 79).foldl (fun largest c => max largest (logit T s c)) (logit T s 0)

/-- The exponential of a logit, in proportion to those of all 80 classes. -/
def probability (T : Tensors F) (s : Slot) (c : ℕ) : F :=
  exp (logit T s c + shift T s) /
    (List.range 80).foldl (fun sum d => sum + exp (logit T s d + shift T s)) 0

/-- The first class that no later one exceeds in probability. -/
def bestClass (T : Tensors F) (s : Slot) : ℕ :=
  (List.range' 1 79).foldl
    (fun best c => if probability exp T s best < probability exp T s c then c else best) 0

/-- The probability of the best class times the sigmoid of the confidence channel. -/
def score (T : Tensors F) (s : Slot) : F :=
  probability exp T s (bestClass exp T s) *
    (1 / (1 + exp (-T s.level (85 * s.b.val + 4) s.cy s.cx)))

/-- The box of a slot: its cell moved by the sigmoids of two channels and scaled down, and
the sides of the slot's own anchor pair stretched by the exponentials of two others. -/
def box (T : Tensors F) : Slot → CGRect F
  | ⟨i, cy, cx, b⟩ =>
      have hb : b.val < 3 := b.2
      let x := ((cx : F) * ((32 : ℕ) : F) + 1 / (1 + exp (-T i (85 * b.val) cy cx))) / 2 ^ i.val
      let y := ((cy : F) * ((32 : ℕ) : F) + 1 / (1 + exp (-T i (85 * b.val + 1) cy cx))) /
        2 ^ i.val
      let w := exp (T i (85 * b.val + 2) cy cx) * ((anchors[i][2 * b.val] : ℕ) : F)
      let h := exp (T i (85 * b.val + 3) cy cx) * ((anchors[i][2 * b.val + 1] : ℕ) : F)
      ⟨⟨x - w / 2, y - h / 2⟩, ⟨w, h⟩⟩

omit [Sub F] [Mul F] [One F] [LT F] [DecidableLT F] [NatCast F] [OfNat F 2] [OfScientific F]
  [Pow F ℕ] in
theorem softmax_classes (T : Tensors F) (s : Slot) :
    softmax exp (slotValues T s).classes = (List.range 80).map (probability exp T s) := by
  have hmax : -vDSP_maxv (slotValues T s).classes = shift T s := by
    have hrange : List.range 80 = 0 :: List.range' 1 79 := by decide
    rw [slotValues, hrange, List.map_cons, vDSP_maxv, List.foldl_map]
    rfl
  simp only [softmax, hmax, vDSP_sve]
  simp only [slotValues, List.map_map, List.foldl_map]
  rfl

omit [Add F] [Sub F] [Mul F] [Div F] [Neg F] [Zero F] [One F] [Max F] [NatCast F] [OfNat F 2]
  [OfScientific F] [Pow F ℕ] in
/-- The loop over values of a function keeps the best argument and its value. -/
theorem argmaxLoop_map (f : ℕ → F) (n i best : ℕ) :
    argmaxLoop ((List.range' i n).map f) i (best, f best) =
      let last := (List.range' i n).foldl (fun best c => if f best < f c then c else best) best
      (last, f last) := by
  induction n generalizing i best with
  | zero => rfl
  | succ n ih =>
      rw [List.range'_succ, List.map_cons, argmaxLoop, List.foldl_cons]
      split_ifs
      · exact ih (i + 1) i
      · exact ih (i + 1) best

theorem detection_eq (T : Tensors F) (s : Slot) :
    detection exp T s =
      if 0.6 < score exp T s then some ⟨bestClass exp T s, score exp T s, box exp T s⟩
      else none := by
  have hbest : argmax (softmax exp (slotValues T s).classes) =
      some (bestClass exp T s, probability exp T s (bestClass exp T s)) := by
    have hrange : List.range 80 = 0 :: List.range' 1 79 := by decide
    rw [softmax_classes, hrange, List.map_cons, argmax]
    exact congrArg some (argmaxLoop_map (probability exp T s) 79 1 0)
  rw [detection, hbest]
  rfl

/-- A slot always has a best class, so the precondition of `argmax` holds. -/
theorem decodeSlot_eq (T : Tensors F) (s : Slot) :
    decodeSlot exp s.level s.cx s.cy s.b (slotValues T s) = some (detection exp T s) := by
  have hne : softmax exp (slotValues T s).classes ≠ [] := by
    rw [← List.length_pos_iff_ne_nil, length_softmax]
    simp [slotValues]
  obtain ⟨best, hbest⟩ := argmax_isSome hne
  simp only [decodeSlot, detection, hbest, confidenceThreshold]
  exact (apply_ite some _ _ _).symm

theorem slotBody_eq (features : Features F) (i : Fin 3) (cy cx : ℕ)
    (predictions : List (Prediction F)) (b : Fin boxesPerCell) :
    slotBody exp (Registers.load (features.level i)) i cy cx predictions b =
      some (predictions ++ (detection exp (logical features) ⟨i, cy, cx, b⟩).toList) := by
  have hread := readSlot_eq features ⟨i, cy, cx, b⟩
  have hdecode := decodeSlot_eq exp (logical features) ⟨i, cy, cx, b⟩
  simp only at hread hdecode
  simp only [slotBody, hread, hdecode, Option.map_some]

/-- What the slots of one level append. -/
def levelDetections (T : Tensors F) (i : Fin 3) : List (Prediction F) :=
  (List.range (gridHeight i)).flatMap fun cy => (List.range (gridWidth i)).flatMap fun cx =>
    (List.finRange boxesPerCell).flatMap fun b => (detection exp T ⟨i, cy, cx, b⟩).toList

theorem levelBody_eq (features : Features F) (st : Registers F × List (Prediction F))
    (i : Fin 3) :
    levelBody exp features st i = some (Registers.load (features.level i),
      st.2 ++ levelDetections exp (logical features) i) := by
  have hcell : ∀ cy acc, ∀ cx ∈ List.range (gridWidth i),
      cellBody exp (Registers.load (features.level i)) i cy acc cx = some (acc ++
        (List.finRange boxesPerCell).flatMap fun b =>
          (detection exp (logical features) ⟨i, cy, cx, b⟩).toList) := fun cy acc cx _ =>
    foldlM_append _ (fun acc b _ => slotBody_eq exp features i cy cx acc b) acc
  have hrow : ∀ acc, ∀ cy ∈ List.range (gridHeight i),
      rowBody exp (Registers.load (features.level i)) i acc cy = some (acc ++
        (List.range (gridWidth i)).flatMap fun cx =>
          (List.finRange boxesPerCell).flatMap fun b =>
            (detection exp (logical features) ⟨i, cy, cx, b⟩).toList) := fun acc cy _ =>
    foldlM_append _ (hcell cy) acc
  have hlevel := foldlM_append _ hrow st.2
  simp only [levelBody, hlevel, Option.bind_eq_bind, Option.bind_some, levelDetections]
  rfl

theorem foldlM_levelBody (features : Features F) (levels : List (Fin 3))
    (st : Registers F × List (Prediction F)) :
    ∃ r, levels.foldlM (levelBody exp features) st =
      some (r, st.2 ++ levels.flatMap (levelDetections exp (logical features))) := by
  induction levels generalizing st with
  | nil => exact ⟨st.1, by simp⟩
  | cons i levels ih =>
      obtain ⟨r, hr⟩ := ih (Registers.load (features.level i),
        st.2 ++ levelDetections exp (logical features) i)
      refine ⟨r, ?_⟩
      rw [List.foldlM_cons, levelBody_eq]
      simpa using hr

theorem filterMap_slots (T : Tensors F) :
    slots.filterMap (detection exp T) = (List.finRange 3).flatMap (levelDetections exp T) := by
  unfold slots levelDetections
  simp only [List.filterMap_flatMap, List.filterMap_map, Function.comp_def]
  simp only [List.filterMap_eq_flatMap_toList]

theorem candidates_eq (features : Features F) :
    candidates exp features = some (slots.filterMap (detection exp (logical features))) := by
  obtain ⟨r, hr⟩ := foldlM_levelBody exp features (List.finRange 3)
    (Registers.load (features.level 0), [])
  rw [List.nil_append, ← filterMap_slots] at hr
  unfold candidates
  rw [hr]
  generalize slots.filterMap (detection exp (logical features)) = predictions
  rfl

/-- A slot's prediction is decided by the part of the tensors inside their shapes. -/
theorem detection_congr {T U : Tensors F}
    (h : ∀ i channel y x, channel < 255 → y < gridHeight i → x < gridWidth i →
      T i channel y x = U i channel y x) {s : Slot} (hs : s ∈ slots) :
    detection exp T s = detection exp U s := by
  obtain ⟨hy, hx⟩ := mem_slots.mp hs
  have hb : s.b.val < 3 := s.b.2
  have hread : ∀ k < 85, T s.level (85 * s.b.val + k) s.cy s.cx =
      U s.level (85 * s.b.val + k) s.cy s.cx := fun k hk =>
    h s.level _ s.cy s.cx (by omega) hy hx
  have hvalues : slotValues T s = slotValues U s := by
    simp only [slotValues, SlotValues.mk.injEq]
    refine ⟨hread 0 (by omega), hread 1 (by omega), hread 2 (by omega), hread 3 (by omega),
      hread 4 (by omega), ?_⟩
    apply List.map_congr_left
    intro c hc
    rw [List.mem_range] at hc
    simpa [Nat.add_assoc] using hread (5 + c) (by omega)
  have hconfidence := hread 4 (by omega)
  simp only [detection, hvalues, hconfidence]

theorem computeBoundingBoxes_congr [Min F] [LE F] [DecidableLE F]
    (sort : (boxes : List (Prediction F)) → SortedIndices boxes)
    (features other : Features F)
    (h : ∀ i channel y x, channel < 255 → y < gridHeight i → x < gridWidth i →
      logical features i channel y x = logical other i channel y x) :
    computeBoundingBoxes exp sort features = computeBoundingBoxes exp sort other := by
  have hslots : slots.filterMap (detection exp (logical features)) =
      slots.filterMap (detection exp (logical other)) :=
    List.filterMap_congr fun s hs => detection_congr exp h hs
  simp only [computeBoundingBoxes, candidates_eq, hslots]

end Loops

/-- Reading an element by noting which one it is. -/
def logRead (channel x y : ℕ) : StateM (List (ℕ × ℕ × ℕ)) Unit :=
  modify fun reads => reads ++ [(channel, y, x)]

/-- The elements a slot reads, in order. -/
def slotReads (s : Slot) : List (ℕ × ℕ × ℕ) :=
  ((readSlot logRead s.cx s.cy s.b.val).run []).2

theorem mapM_logRead (cs : List ℕ) (channel : ℕ → ℕ) (x y : ℕ) (reads : List (ℕ × ℕ × ℕ)) :
    ((cs.mapM fun c => logRead (channel c) x y).run reads).2 =
      reads ++ cs.map fun c => (channel c, y, x) := by
  induction cs generalizing reads with
  | nil => exact (List.append_nil reads).symm
  | cons c cs ih =>
      have htail := ih (reads ++ [(channel c, y, x)])
      rw [List.append_assoc] at htail
      rw [List.mapM_cons]
      exact htail

theorem slotReads_channels (s : Slot) {channel : ℕ} (h : channel = s.b.val * (numClasses + 5)) :
    slotReads s = [(channel, s.cy, s.cx), (channel + 1, s.cy, s.cx), (channel + 2, s.cy, s.cx),
      (channel + 3, s.cy, s.cx), (channel + 4, s.cy, s.cx)] ++
      (List.range numClasses).map fun c => (channel + 5 + c, s.cy, s.cx) := by
  simp only [slotReads, readSlot, ← h]
  generalize List.range numClasses = cs
  exact mapM_logRead cs (fun c => channel + 5 + c) s.cx s.cy _

/-- A slot reads its 85 channels at its own cell, each once. -/
theorem slotReads_eq (s : Slot) :
    slotReads s = (List.range 85).map fun k => (85 * s.b.val + k, s.cy, s.cx) := by
  have hsplit : List.range 85 = List.range 5 ++ (List.range numClasses).map (5 + ·) := by decide
  rw [slotReads_channels s (Nat.mul_comm 85 s.b.val), hsplit, List.map_append, List.map_map]
  simp only [Function.comp_def, Nat.add_assoc]
  rfl

theorem mem_slotReads {s : Slot} {channel y x : ℕ} :
    (channel, y, x) ∈ slotReads s ↔
      85 * s.b.val ≤ channel ∧ channel < 85 * s.b.val + 85 ∧ s.cy = y ∧ s.cx = x := by
  simp only [slotReads_eq, List.mem_map, List.mem_range, Prod.mk.injEq]
  constructor
  · intro h
    obtain ⟨k, hk, hchannel, hy, hx⟩ := h
    exact ⟨by omega, by omega, hy, hx⟩
  · intro h
    exact ⟨channel - 85 * s.b.val, by omega, by omega, h.2.2⟩

/-- Each element of a tensor is read by one slot of the run. -/
theorem exists_unique_slot (i : Fin 3) {channel y x : ℕ} (hchannel : channel < 255)
    (hy : y < gridHeight i) (hx : x < gridWidth i) :
    ∃! s : Slot, s ∈ slots ∧ s.level = i ∧ (channel, y, x) ∈ slotReads s := by
  have hb : channel / 85 < 3 := by omega
  refine ⟨⟨i, y, x, ⟨channel / 85, hb⟩⟩, ⟨mem_slots.mpr ⟨hy, hx⟩, rfl, ?_⟩, ?_⟩
  · rw [mem_slotReads]
    exact ⟨by simp only; omega, by simp only; omega, rfl, rfl⟩
  · intro s hs
    obtain ⟨_, hlevel, hread⟩ := hs
    obtain ⟨hlow, hhigh, hcy, hcx⟩ := mem_slotReads.mp hread
    have hb : s.b.val = channel / 85 := by omega
    obtain ⟨level, cy, cx, b⟩ := s
    simp only at hlevel hcy hcx hb
    subst hlevel hcy hcx
    exact congrArg (Slot.mk level cy cx) (Fin.ext hb)

/-- A value with notes of what was read for it. -/
structure Noted (A : Type v) (α : Type u) where
  value : α
  notes : List A

instance {A : Type v} : Monad (Noted A) where
  pure a := ⟨a, []⟩
  bind read f := ⟨(f read.value).value, read.notes ++ (f read.value).notes⟩

instance {A : Type v} : LawfulMonad (Noted A) :=
  LawfulMonad.mk' _ (fun read => congrArg (Noted.mk read.value) (List.append_nil read.notes))
    (fun _ _ => rfl) fun read f g => congrArg (Noted.mk _) (List.append_assoc read.notes _ _)

/-- The loops of the decoder around a body, with the variables loaded for each level. -/
def loops {F S : Type*} (body : Registers F → Slot → S → Option S) (features : Features F)
    (st : S) : Option S :=
  (List.finRange 3).foldlM (fun st i =>
    let r := Registers.load (features.level i)
    (List.range (gridHeight i)).foldlM (fun st cy =>
      (List.range (gridWidth i)).foldlM (fun st cx =>
        (List.finRange boxesPerCell).foldlM (fun st b => body r ⟨i, cy, cx, b⟩ st) st) st) st) st

theorem foldlM_flatMap {A B S : Type*} (f : A → List B) (body : S → B → Option S) (xs : List A)
    (st : S) : (xs.flatMap f).foldlM body st = xs.foldlM (fun st x => (f x).foldlM body st) st := by
  induction xs generalizing st with
  | nil => rfl
  | cons x xs ih => simp only [List.flatMap_cons, List.foldlM_append, List.foldlM_cons, ih]

theorem loops_eq {F S : Type*} (body : Registers F → Slot → S → Option S) (features : Features F)
    (st : S) : loops body features st =
      slots.foldlM (fun st s => body (Registers.load (features.level s.level)) s st) st := by
  simp only [loops, slots, foldlM_flatMap, List.foldlM_map]

/-- Rounds that do what the rounds of another loop do, with notes beside. -/
theorem foldlM_notes {A B S : Type*} {noted : S × List B → A → Option (S × List B)}
    (body : S → A → Option S) (notes : A → List B) (xs : List A)
    (h : ∀ st x, noted st x = (body st.1 x).map fun t => (t, st.2 ++ notes x))
    (st : S × List B) :
    xs.foldlM noted st = (xs.foldlM body st.1).map fun t => (t, st.2 ++ xs.flatMap notes) := by
  induction xs generalizing st with
  | nil =>
      rw [List.foldlM_nil, List.foldlM_nil, List.flatMap_nil, List.append_nil]
      rfl
  | cons x xs ih =>
      rw [List.foldlM_cons, List.foldlM_cons, h]
      cases body st.1 x with
      | none => rfl
      | some t =>
          refine (ih (t, st.2 ++ notes x)).trans ?_
          rw [List.flatMap_cons, List.append_assoc]
          rfl

section Reads

variable {F : Type u} [Add F] [Sub F] [Mul F] [Div F] [Neg F] [Zero F] [One F] [Max F]
  [LT F] [DecidableLT F] [NatCast F] [OfNat F 2] [OfScientific F] [Pow F ℕ] (exp : F → F)
  {A : Type v} (note : Registers F → (i : Fin 3) → (channel y x : ℕ) → A)

/-- The candidates come from the body of the innermost loop. -/
theorem candidates_eq_loops (features : Features F) :
    candidates exp features =
      loops (fun r s predictions => slotBody exp r s.level s.cy s.cx predictions s.b) features
        [] := by
  have hlevels : ∀ (levels : List (Fin 3)) (st : Registers F × List (Prediction F)),
      (levels.foldlM (levelBody exp features) st).map Prod.snd =
        levels.foldlM (fun predictions i =>
          (List.range (gridHeight i)).foldlM (rowBody exp (Registers.load (features.level i)) i)
            predictions) st.2 := by
    intro levels
    induction levels with
    | nil => exact fun st => rfl
    | cons i levels ih =>
        intro st
        rw [List.foldlM_cons, List.foldlM_cons, levelBody]
        cases (List.range (gridHeight i)).foldlM
            (rowBody exp (Registers.load (features.level i)) i) st.2 with
        | none => rfl
        | some predictions => exact ih (Registers.load (features.level i), predictions)
  have hrun := hlevels (List.finRange 3) (Registers.load (features.level 0), [])
  exact (Option.map_eq_bind ..).symm.trans hrun

/-- The body of the innermost loop with a note of each element that it reads. -/
def notedSlot (r : Registers F) (s : Slot) (st : List (Prediction F) × List A) :
    Option (List (Prediction F) × List A) :=
  let read : Noted A (SlotValues F) := readSlot
    (fun channel x y => ⟨r.read channel x y, [note r s.level channel y x]⟩) s.cx s.cy s.b.val
  (decodeSlot exp s.level s.cx s.cy s.b read.value).map fun prediction =>
    (st.1 ++ prediction.toList, st.2 ++ read.notes)

/-- The notes of a slot. -/
def slotNotes (r : Registers F) (s : Slot) : List A :=
  (slotReads s).map fun (channel, y, x) => note r s.level channel y x

omit [Add F] [Sub F] [Mul F] [Div F] [Neg F] [Zero F] [One F] [Max F] [LT F] [DecidableLT F]
  [NatCast F] [OfNat F 2] [OfScientific F] [Pow F ℕ] in
theorem mapM_noted (cs : List ℕ) (value : ℕ → F) (noteOf : ℕ → A) :
    (cs.mapM fun c => (⟨value c, [noteOf c]⟩ : Noted A F)) = ⟨cs.map value, cs.map noteOf⟩ := by
  induction cs with
  | nil => rfl
  | cons c cs ih =>
      rw [List.mapM_cons, ih]
      exact congrArg (fun notes => Noted.mk _ (noteOf c :: notes)) (List.append_nil _)

omit [Add F] [Sub F] [Mul F] [Div F] [Neg F] [Zero F] [One F] [Max F] [LT F] [DecidableLT F]
  [NatCast F] [OfNat F 2] [OfScientific F] [Pow F ℕ] in
/-- Notes do not change what is read, and are about what a slot reads. -/
theorem readSlot_noted (r : Registers F) (s : Slot) :
    (readSlot (fun channel x y => (⟨r.read channel x y, [note r s.level channel y x]⟩ : Noted A F))
      s.cx s.cy s.b.val) =
      ⟨Id.run (readSlot (fun channel x y => pure (r.read channel x y)) s.cx s.cy s.b.val),
        slotNotes note r s⟩ := by
  rw [slotNotes, slotReads_channels s rfl, List.map_append, List.map_map]
  simp only [readSlot, mapM_noted, Id.run_bind, Id.run_pure, List.idRun_mapM]
  generalize List.range numClasses = cs
  exact congrArg (Noted.mk _) (congrArg (_ :: _ :: _ :: _ :: _ :: ·) (List.append_nil _))

theorem notedSlot_eq (r : Registers F) (s : Slot) (st : List (Prediction F) × List A) :
    notedSlot exp note r s st =
      (slotBody exp r s.level s.cy s.cx st.1 s.b).map fun predictions =>
        (predictions, st.2 ++ slotNotes note r s) := by
  simp only [notedSlot, readSlot_noted, slotBody, Option.map_map, Function.comp_def]

theorem foldlM_notedSlot (features : Features F) (ss : List Slot) :
    ss.foldlM (fun st s => notedSlot exp note (Registers.load (features.level s.level)) s st)
        ([], []) =
      (ss.foldlM (fun predictions s => slotBody exp (Registers.load (features.level s.level))
        s.level s.cy s.cx predictions s.b) []).map fun predictions => (predictions,
          ss.flatMap fun s => slotNotes note (Registers.load (features.level s.level)) s) := by
  have hrounds := foldlM_notes
    (fun predictions (s : Slot) => slotBody exp (Registers.load (features.level s.level)) s.level
      s.cy s.cx predictions s.b)
    (fun s => slotNotes note (Registers.load (features.level s.level)) s) ss
    (fun (st : List (Prediction F) × List A) s =>
      notedSlot_eq exp note (Registers.load (features.level s.level)) s st) ([], [])
  simp only [List.nil_append] at hrounds
  exact hrounds

/-- A run with notes gives the same candidates, and notes the reads of its slots. -/
theorem loops_noted (features : Features F) :
    loops (notedSlot exp note) features ([], []) =
      (candidates exp features).map fun predictions => (predictions,
        slots.flatMap fun s => slotNotes note (Registers.load (features.level s.level)) s) := by
  rw [candidates_eq_loops, loops_eq, loops_eq]
  exact foldlM_notedSlot exp note features slots

end Reads

/-- The candidates are the detections of the slots, in order, in terms of the
tensors; so strides and buffers do not matter beyond the tensors they hold. The run
reads what its slots read, and each element of the tensors is in one of them. -/
theorem predictions_of_tensors {F : Type*} [Add F] [Sub F] [Mul F] [Div F] [Neg F] [Zero F]
    [One F] [Max F] [Min F] [LE F] [DecidableLE F] [LT F] [DecidableLT F] [NatCast F]
    [OfNat F 2] [OfScientific F] [Pow F ℕ] (exp : F → F)
    (sort : (boxes : List (Prediction F)) → SortedIndices boxes) (features : Features F) :
    candidates exp features = some (slots.filterMap fun s =>
      if 0.6 < score exp (logical features) s then
        some ⟨bestClass exp (logical features) s, score exp (logical features) s,
          box exp (logical features) s⟩
      else none) ∧
    (∀ other : Features F,
      (∀ i channel y x, channel < 255 → y < gridHeight i → x < gridWidth i →
        logical features i channel y x = logical other i channel y x) →
      computeBoundingBoxes exp sort features = computeBoundingBoxes exp sort other) ∧
    slots.Nodup ∧
    (∀ (i : Fin 3) (channel y x : ℕ), channel < 255 → y < gridHeight i → x < gridWidth i →
      ∃! s : Slot, s ∈ slots ∧ s.level = i ∧ (channel, y, x) ∈ slotReads s) ∧
    loops (notedSlot exp fun _ i channel y x => (i, channel, y, x)) features ([], []) =
      (candidates exp features).map fun predictions => (predictions,
        slots.flatMap fun s => (slotReads s).map fun element => (s.level, element)) := by
  refine ⟨?_, ?_, slots_nodup, ?_, loops_noted exp _ features⟩
  · simp only [candidates_eq, detection_eq]
  · intro other h
    exact computeBoundingBoxes_congr exp sort features other h
  · intro i channel y x hchannel hy hx
    exact exists_unique_slot i hchannel hy hx

end YouRoute.TensorLayout
