import YouRoute.Controllers
import YouRoute.Decoder
import Mathlib.Data.Finset.Dedup

/-!
# The labels of a story's detections

`show` walks the overlays, not the predictions: it labels the predictions that
have an overlay and hides the overlays that have no prediction. The labels go
into a set, and the tag line is extended by the whole set in whatever order the
set is iterated.
-/

namespace YouRoute

def labels : List String := [
  "사람", "자전거", "자동차", "오토바이", "비행기", "버스", "기차", "트럭", "보트", "신호등",
  "소화전", "정지신호", "주차권 판매기", "벤치", "새", "고양이", "강아지", "말", "양", "소",
  "코끼리", "곰", "얼룩말", "기린", "배낭", "우산", "핸드백", "넥타이", "여행가방", "프리스비",
  "스키", "스노우 보드", "운동용 공", "연", "야구 방망이", "야구 글러브", "스케이트 보드",
  "서핑 보드", "테니스 라켓", "병",
  "와인잔", "컵", "포크", "칼", "수저", "그릇", "바나나", "사과", "샌드위치", "오랜지",
  "브로콜리", "당근", "핫도그", "피자", "도넛", "케이크", "의자", "소파", "화분", "침대",
  "식탁", "화장실", "TV", "노트북", "마우스", "리모컨", "키보드", "휴대폰", "전자레인지", "오븐",
  "토스트기", "싱크대", "냉장고", "책", "시계", "꽃병", "가위", "곰 인형", "헤어 드라이기", "칫솔"]

@[simp] theorem length_labels : labels.length = numClasses := rfl

/-- `String(format:)` without arguments copies a format that has no percent sign,
and no label has one. -/
def stringFormat (format : String) : String := format

theorem labels_plain : ∀ label ∈ labels, '%' ∉ label.toList := by decide +kernel

namespace StoryController

/-- The loop appends one hidden overlay for each detection that is kept. -/
def setUpBoundingBoxes (c : StoryController) : StoryController :=
  (List.range maxBoundingBoxes.toNat).foldl
    (fun c _ => { c with boundingBoxes := c.boundingBoxes ++ [{}] }) c

section Show

variable {F : Type*}

/-- The body of the loop of `show`; nothing where `labels` is indexed out of
range. -/
def showBody (predictions : List (Prediction F)) (c : StoryController) (i : ℕ) :
    Option StoryController :=
  if h : i < predictions.length then
    labels[predictions[i].classIndex]?.map fun label =>
      { c with labelArray := insert (stringFormat label) c.labelArray }
  else some { c with boundingBoxes := c.boundingBoxes.modify i BoundingBox.hide }

/-- The loop that extends the tag line, over the set in some order. -/
def tagLine (tag : String) (labelArray : List String) : String :=
  labelArray.foldl (fun tag t => tag ++ "#" ++ t ++ " ") tag

/-- `show(predictions:)`; `order` is the order in which a set is iterated. -/
def showPredictions (order : Finset String → List String) (predictions : List (Prediction F))
    (c : StoryController) : Option StoryController := do
  let c ← (List.range c.boundingBoxes.length).foldlM (showBody predictions) c
  let tag := tagLine c.tag (order c.labelArray)
  return { c with tag := tag, label1 := tag }

/-- The label of a prediction's class. -/
def labelOf (prediction : Prediction F) : Option String :=
  labels[prediction.classIndex]?.map stringFormat

theorem showBody_of_lt {predictions : List (Prediction F)} {i : ℕ} (h : i < predictions.length)
    (hclass : predictions[i].classIndex < labels.length) (c : StoryController) :
    showBody predictions c i = some { c with
      labelArray := c.labelArray ∪ (labelOf predictions[i]).toFinset } := by
  simp only [showBody, labelOf, h, dif_pos, List.getElem?_eq_getElem hclass, Option.map_some,
    Option.toFinset_some, Finset.insert_eq, Finset.union_comm]

theorem showLoop_spec {predictions : List (Prediction F)}
    (hclass : ∀ p ∈ predictions, p.classIndex < labels.length) (m : ℕ) (c : StoryController) :
    ∃ c', (List.range m).foldlM (showBody predictions) c = some c' ∧
      c'.tag = c.tag ∧ c'.boundingBoxes.length = c.boundingBoxes.length ∧
      c'.labelArray = c.labelArray ∪ ((predictions.take m).filterMap labelOf).toFinset := by
  induction m with
  | zero => exact ⟨c, by simp⟩
  | succ m ih =>
      obtain ⟨d, hd, htag, hlen, hset⟩ := ih
      rw [List.range_succ, List.foldlM_append, hd]
      by_cases hm : m < predictions.length
      · have hbody := showBody_of_lt hm (hclass _ (List.getElem_mem hm)) d
        refine ⟨{ d with labelArray := d.labelArray ∪ (labelOf predictions[m]).toFinset },
          by simpa using hbody, htag, hlen, ?_⟩
        rw [List.take_succ_eq_append_getElem hm, List.filterMap_append, List.toFinset_append,
          ← Finset.union_assoc, ← hset]
        cases hlabel : labelOf predictions[m] <;> simp [hlabel]
      · refine ⟨{ d with boundingBoxes := d.boundingBoxes.modify m BoundingBox.hide },
          by simp [showBody, hm], htag, by simpa using hlen, ?_⟩
        have htake : predictions.take (m + 1) = predictions.take m := by
          rw [List.take_of_length_le (by omega), List.take_of_length_le (by omega)]
        rw [htake]
        exact hset

/-- With an overlay for every prediction, `show` adds the labels of all of them and
extends the tag line by the whole set. -/
theorem showPredictions_spec (order : Finset String → List String)
    {predictions : List (Prediction F)} (hclass : ∀ p ∈ predictions, p.classIndex < labels.length)
    {c : StoryController} (hlength : predictions.length ≤ c.boundingBoxes.length) :
    ∃ c', showPredictions order predictions c = some c' ∧
      c'.labelArray = c.labelArray ∪ (predictions.filterMap labelOf).toFinset ∧
      c'.tag = tagLine c.tag (order c'.labelArray) ∧ c'.label1 = c'.tag ∧
      c'.boundingBoxes.length = c.boundingBoxes.length := by
  obtain ⟨d, hloop, htag, hlen, hset⟩ := showLoop_spec hclass c.boundingBoxes.length c
  rw [List.take_of_length_le hlength] at hset
  let tag := tagLine d.tag (order d.labelArray)
  refine ⟨{ d with tag := tag, label1 := tag }, ?_, hset, ?_, rfl, hlen⟩
  · simp only [showPredictions, hloop]
    rfl
  · rw [← htag]

end Show

end StoryController

end YouRoute
