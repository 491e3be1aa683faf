import Mathlib.Data.List.Induction

/-!
# Effects in the order of completion

Each of finitely many requests ends once, in any order, and may write one shared
value when it does. The value left depends on which request wrote last. It is the
same for all orders exactly when all requests that write agree.
-/

namespace CompletionOrder

variable {ι β : Type*}

/-- The value after the requests ended in the order of the list. -/
def lastWrite (write : ι → Option β) (b : β) (order : List ι) : β :=
  order.foldl (fun b i => (write i).getD b) b

theorem lastWrite_snoc (write : ι → Option β) (b : β) (order : List ι) (i : ι) :
    lastWrite write b (order ++ [i]) = (write i).getD (lastWrite write b order) := by
  unfold lastWrite
  rw [List.foldl_append]
  rfl

/-- The value left is the first one if nothing was written, else a written one. -/
theorem lastWrite_cases (write : ι → Option β) (b : β) (order : List ι) :
    ((∀ i ∈ order, write i = none) ∧ lastWrite write b order = b) ∨
      ∃ i ∈ order, write i = some (lastWrite write b order) := by
  induction order using List.reverseRecOn with
  | nil => exact Or.inl ⟨by simp, rfl⟩
  | append_singleton order i ih =>
      rw [lastWrite_snoc]
      cases hi : write i with
      | some c => exact Or.inr ⟨i, by simp, hi⟩
      | none =>
          rw [Option.getD_none]
          rcases ih with ⟨hnone, hb⟩ | ⟨j, hj, hwrite⟩
          · refine Or.inl ⟨?_, hb⟩
            intro j hj
            rcases List.mem_append.mp hj with hj | hj
            · exact hnone j hj
            · exact List.mem_singleton.mp hj ▸ hi
          · exact Or.inr ⟨j, List.mem_append_left _ hj, hwrite⟩

/-- Any request can be the last one to end. -/
theorem exists_perm_last {i : ι} {requests : List ι} (h : i ∈ requests) :
    ∃ order, (order ++ [i]).Perm requests := by
  obtain ⟨pre, post, rfl⟩ := List.append_of_mem h
  refine ⟨pre ++ post, ?_⟩
  rw [List.append_assoc]
  exact List.perm_append_comm.append_left pre

theorem lastWrite_order_iff (write : ι → Option β) (b : β) (requests : List ι) :
    (∀ order order' : List ι, order.Perm requests → order'.Perm requests →
      lastWrite write b order = lastWrite write b order') ↔
    ∀ i ∈ requests, ∀ j ∈ requests, ∀ c d, write i = some c → write j = some d → c = d := by
  constructor
  · intro h i hi j hj c d hc hd
    obtain ⟨order, horder⟩ := exists_perm_last hi
    obtain ⟨order', horder'⟩ := exists_perm_last hj
    have hsame := h _ _ horder horder'
    rw [lastWrite_snoc, lastWrite_snoc, hc, hd] at hsame
    exact hsame
  · intro h order order' horder horder'
    rcases lastWrite_cases write b order with ⟨hnone, hb⟩ | ⟨i, hi, hwrite⟩ <;>
      rcases lastWrite_cases write b order' with ⟨hnone', hb'⟩ | ⟨j, hj, hwrite'⟩
    · rw [hb, hb']
    · have hfree := hnone j (horder.mem_iff.mpr (horder'.mem_iff.mp hj))
      rw [hfree] at hwrite'
      cases hwrite'
    · have hfree := hnone' i (horder'.mem_iff.mpr (horder.mem_iff.mp hi))
      rw [hfree] at hwrite
      cases hwrite
    · exact h i (horder.mem_iff.mp hi) j (horder'.mem_iff.mp hj) _ _ hwrite hwrite'

end CompletionOrder
