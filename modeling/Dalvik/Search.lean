/-!
# Searching by halves

A number is searched for by halving what is left of a list of numbers (`search?`).  An index that is
found is one of the number, whatever the order of the list.  If the numbers increase along the list,
the index of a number is found if it has one (`search?_eq_some_iff`).
-/

namespace Dalvik

/-- Halves the numbers that are left, `count` of them from `low` on, until there is one.  The upper
half is kept unless its first number is beyond the one searched for. -/
def bisect (k : Nat) (ks : List Nat) (low count : Nat) : Nat :=
  if count ≤ 1 then low
  else if ks.getD (low + count / 2) 0 ≤ k then bisect k ks (low + count / 2) (count - count / 2)
  else bisect k ks low (count - count / 2)
termination_by count

/-- The index of a number, if halving ends at one. -/
def search? (k : Nat) (ks : List Nat) : Option Nat :=
  if ks[bisect k ks 0 ks.length]? = some k then some (bisect k ks 0 ks.length) else none

variable {k low count i : Nat} {ks : List Nat}

/-- An index that is found is one of the number. -/
theorem getElem?_of_search? (h : search? k ks = some i) : ks[i]? = some k := by
  unfold search? at h
  split at h
  · next hfound =>
    cases h
    exact hfound
  · cases h

/-- All numbers from an index on are beyond a number. -/
def Beyond (k : Nat) (ks : List Nat) (i : Nat) : Prop := ∀ j x, i ≤ j → ks[j]? = some x → k < x

/-- Halving numbers that never decrease ends at one with nothing but numbers beyond the one searched
for behind it.  It is not beyond that itself, unless all numbers are. -/
theorem bisect_spec (h : ks.Pairwise (· ≤ ·)) (hcount : 0 < count)
    (hlen : low + count ≤ ks.length) (hlow : low = 0 ∨ ∀ x, ks[low]? = some x → x ≤ k)
    (hbeyond : Beyond k ks (low + count)) :
    bisect k ks low count < ks.length ∧
      (bisect k ks low count = 0 ∨ ∀ x, ks[bisect k ks low count]? = some x → x ≤ k) ∧
      Beyond k ks (bisect k ks low count + 1) := by
  fun_induction bisect k ks low count with
  | case1 low count hone =>
    rw [show count = 1 by omega] at hbeyond
    exact ⟨by omega, hlow, hbeyond⟩
  | case2 low count hone hkeep ih =>
    refine ih (by omega) (by omega) (.inr fun x hx => ?_) ?_
    · rwa [List.getD_eq_getElem?_getD, hx] at hkeep
    · rwa [show low + count / 2 + (count - count / 2) = low + count by omega]
  | case3 low count hone hdrop ih =>
    refine ih (by omega) (by omega) hlow fun j x hj hx => ?_
    have hmid : low + count / 2 < ks.length := by omega
    rw [List.getD_eq_getElem?_getD, List.getElem?_eq_getElem hmid, Option.getD_some] at hdrop
    obtain ⟨hjlt, rfl⟩ := List.getElem?_eq_some_iff.1 hx
    rcases Nat.eq_or_lt_of_le (show low + count / 2 ≤ j by omega) with rfl | hlt
    · omega
    · have := List.pairwise_iff_getElem.1 h _ _ hmid hjlt hlt
      omega

/-- In a list of increasing numbers, the index that is found is that of the number. -/
theorem search?_eq_some_iff (h : ks.Pairwise (· < ·)) :
    search? k ks = some i ↔ ks[i]? = some k := by
  refine ⟨getElem?_of_search?, fun hi => ?_⟩
  obtain ⟨hlt, rfl⟩ := List.getElem?_eq_some_iff.1 hi
  have hend : Beyond ks[i] ks (0 + ks.length) := by
    intro j x hj hx
    have hjlt := (List.getElem?_eq_some_iff.1 hx).1
    omega
  obtain ⟨hfound, hle, hbeyond⟩ :=
    bisect_spec (h.imp Nat.le_of_lt) (Nat.zero_lt_of_lt hlt) (by omega) (.inl rfl) hend
  have hsame : bisect ks[i] ks 0 ks.length = i := by
    generalize bisect ks[i] ks 0 ks.length = j at hfound hle hbeyond ⊢
    rcases Nat.lt_trichotomy j i with hj | hj | hj
    · exact absurd (hbeyond i _ hj hi) (Nat.lt_irrefl _)
    · exact hj
    · -- the number before it is smaller, so it is beyond the one searched for
      have hx := hle.resolve_left (by omega) _ (List.getElem?_eq_getElem hfound)
      have := List.pairwise_iff_getElem.1 h i j hlt hfound hj
      omega
  rw [search?, hsame, if_pos hi]

end Dalvik
