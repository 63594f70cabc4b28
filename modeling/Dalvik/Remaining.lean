/-!
# Counting what is left

A walk over a finite collection that never visits an element twice comes to an end.
`remaining` counts the elements that were not met yet, and every new element makes the count
smaller.  It is the measure of the walks in this library.
-/

namespace Dalvik

variable {α : Type} [DecidableEq α]

/-- The number of elements of a collection that are not among those met. -/
def remaining (all met : List α) : Nat := all.countP fun x => decide (x ∉ met)

/-- Meeting more leaves no more. -/
theorem remaining_le {all met met' : List α} (h : ∀ x ∈ met, x ∈ met') :
    remaining all met' ≤ remaining all met := by
  apply List.countP_mono_left
  intro x _ hx
  simp only [decide_eq_true_eq] at hx ⊢
  exact fun hm => hx (h x hm)

/-- The first element counts unless it was met. -/
theorem remaining_cons (b : α) (all met : List α) :
    remaining (b :: all) met = remaining all met + if b ∈ met then 0 else 1 := by
  by_cases hb : b ∈ met <;> simp [remaining, hb]

/-- Meeting an element of the collection for the first time leaves fewer. -/
theorem remaining_lt {all met met' : List α} {a : α} (h : ∀ x ∈ met, x ∈ met')
    (hall : a ∈ all) (hnew : a ∉ met) (hmet : a ∈ met') :
    remaining all met' < remaining all met := by
  induction all with
  | nil => cases hall
  | cons b rest ih =>
    have hle : remaining rest met' ≤ remaining rest met := remaining_le h
    rw [remaining_cons, remaining_cons]
    cases hall with
    | head =>
      rw [if_pos hmet, if_neg hnew]
      omega
    | tail _ hall =>
      have := ih hall
      by_cases hb : b ∈ met'
      · rw [if_pos hb]
        split <;> omega
      · rw [if_neg hb, if_neg fun hm => hb (h b hm)]
        omega

/-- Meeting one more element leaves no more. -/
theorem remaining_cons_le (all met : List α) (a : α) :
    remaining all (a :: met) ≤ remaining all met :=
  remaining_le fun _ h => List.mem_cons_of_mem _ h

/-- Meeting a new element of the collection leaves fewer. -/
theorem remaining_cons_lt {all met : List α} {a : α} (hall : a ∈ all) (hnew : a ∉ met) :
    remaining all (a :: met) < remaining all met :=
  remaining_lt (fun _ h => List.mem_cons_of_mem _ h) hall hnew List.mem_cons_self

end Dalvik
