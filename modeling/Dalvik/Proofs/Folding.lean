import Dalvik.Proofs.Ancestors
import Dalvik.Proofs.Subtypes
import Mathlib.Data.List.Induction

/-!
# Joins of many types

The types of a list are joined one after another.  Each join is above both operands, so in every
order the result is above all types of the list.  But joins are not associative, and two orders may
end with different bounds.

What an order can end with is the join of at most three types of the list
(`Subtyping.HasJoins.threefold_of_joinAll?`).  Next to another type, a solid join and a type below
it have the same join, unless this type is below the other one.  So all orders agree if and only
if, among the joins of three types, one that is above the whole list is above the others
(`Subtyping.HasJoins.joinAll?_const_iff`).

Two hierarchies have such joins.  One is that of rooted nodes, where interfaces and arrays over them
are not solid.  The other one is that of the classes that are used as classes only
(`ClassPath.ancestry`).  They may be missing, or below a missing class, and then they meet other
classes in the unknown class, which is below the root class and above all others.
-/

namespace Dalvik

open Relation (ReflTransGen TransGen)

namespace Subtyping

variable {α : Type}

/-- What is known of a function that joins.  The join of two elements that are not comparable is
solid, or comparable with everything. -/
structure HasJoins (S : Subtyping α) (join : α → α → α) : Prop where
  known : ∀ {x y}, S.known x → S.known y → S.known (join x y)
  comm : ∀ {x y}, S.known x → S.known y → join x y = join y x
  right : ∀ {x y}, S.known x → S.known y → S.le x y → join x y = y
  le_left : ∀ {x y}, S.known x → S.known y → S.le x (join x y)
  least : ∀ {x y u}, S.known x → S.known y → S.known u → S.solid u → S.le x u → S.le y u →
    S.le (join x y) u
  met : ∀ {x y}, S.known x → S.known y → ¬ S.le x y → ¬ S.le y x →
    S.solid (join x y) ∨ ∀ z, S.known z → S.le z (join x y) ∨ S.le (join x y) z
  /-- What is below a solid element joins as this one does. -/
  climb : ∀ {x r y}, S.known x → S.known r → S.known y → S.solid r → S.le x r → ¬ S.le x y →
    ¬ S.le r y → ¬ S.le y r → join x y = join r y
  /-- What is above an element that is not solid is comparable with its solid bounds. -/
  beyond : ∀ {x r y}, S.known x → S.known r → S.known y → S.solid r → ¬ S.solid x → S.le x r →
    S.le x y → S.le r y ∨ S.le y r

/-- The join of the elements of a list, one after another.  The new element is the left operand. -/
def joinAll? (join : α → α → α) (l : List α) : Option α :=
  l.foldl (fun found x => some (found.elim x (join x))) none

/-- The join of three elements with a property.  They need not be different. -/
def Threefold (join : α → α → α) (P : α → Prop) (n : α) : Prop :=
  ∃ x y z, P x ∧ P y ∧ P z ∧ n = join (join x y) z

/-- A bound of a list that is kept when the next element comes, or given up for the join of two: it
is comparable with everything, or it is solid and there is an element that is not. -/
def Final (S : Subtyping α) (l : List α) (r : α) : Prop :=
  (∀ z, S.known z → S.le z r ∨ S.le r z) ∨ S.solid r ∧ ∃ x ∈ l, ¬ S.solid x

/-- What the join of a list can be. -/
inductive Reached (S : Subtyping α) (join : α → α → α) (l : List α) : α → Prop where
  | one {x : α} (hx : x ∈ l) : Reached S join l x
  | two {x y : α} (hx : x ∈ l) (hy : y ∈ l) : Reached S join l (join x y)
  | three {x y z : α} (hx : x ∈ l) (hy : y ∈ l) (hz : z ∈ l)
    (hfinal : S.Final l (join (join x y) z)) : Reached S join l (join (join x y) z)

variable {S : Subtyping α} {join : α → α → α} {l l' : List α} {x y r n k : α}

theorem joinAll?_concat (l : List α) (x : α) :
    joinAll? join (l ++ [x]) = some ((joinAll? join l).elim x (join x)) := by
  rw [joinAll?, List.foldl_concat]
  rfl

theorem exists_joinAll? (join : α → α → α) (hl : l ≠ []) : ∃ r, joinAll? join l = some r := by
  rw [← List.dropLast_concat_getLast hl, joinAll?_concat]
  exact ⟨_, rfl⟩

/-- A bound that is kept by a list is kept by a longer one. -/
theorem Final.mono (h : S.Final l r) (hl : ∀ x ∈ l, x ∈ l') : S.Final l' r := by
  rcases h with h | ⟨hsolid, x, hx, hx'⟩
  · exact .inl h
  · exact .inr ⟨hsolid, x, hl x hx, hx'⟩

theorem Reached.mono (h : S.Reached join l r) (hl : ∀ x ∈ l, x ∈ l') : S.Reached join l' r := by
  cases h with
  | one hx => exact .one (hl _ hx)
  | two hx hy => exact .two (hl _ hx) (hl _ hy)
  | three hx hy hz hfinal => exact .three (hl _ hx) (hl _ hy) (hl _ hz) (hfinal.mono hl)

namespace HasJoins

variable (h : S.HasJoins join)
include h

/-- The join with a lower element changes nothing. -/
theorem left (hx : S.known x) (hy : S.known y) (hyx : S.le y x) : join x y = x :=
  (h.comm hx hy).trans (h.right hy hx hyx)

/-- A join is above its second operand too. -/
theorem le_right (hx : S.known x) (hy : S.known y) : S.le y (join x y) := by
  rw [h.comm hx hy]
  exact h.le_left hy hx

theorem le_iff (hx : S.known x) (hy : S.known y) : S.le x y ↔ join x y = y := by
  refine ⟨h.right hx hy, fun heq => ?_⟩
  have hle := h.le_left hx hy
  rwa [heq] at hle

/-- The join of a list is above all its elements. -/
theorem bound_of_joinAll? (hl : ∀ x ∈ l, S.known x) (hr : joinAll? join l = some r) :
    S.known r ∧ ∀ x ∈ l, S.le x r := by
  induction l using List.reverseRecOn generalizing r with
  | nil => cases hr
  | append_singleton l t ih =>
    have ht : S.known t := hl t (by simp)
    have hl : ∀ x ∈ l, S.known x := fun x hx => hl x (List.mem_append_left _ hx)
    by_cases hne : l = []
    · cases hne
      cases hr
      exact ⟨ht, by simpa using S.refl ht⟩
    obtain ⟨found, hfound⟩ := exists_joinAll? join hne
    rw [joinAll?_concat, hfound] at hr
    cases hr
    obtain ⟨hknown, hbound⟩ := ih hl hfound
    have hjoin := h.known ht hknown
    refine ⟨hjoin, fun x hx => ?_⟩
    rcases List.mem_append.1 hx with hx | hx
    · exact S.trans (hl x hx) hknown hjoin (hbound x hx) (h.le_right ht hknown)
    · cases List.mem_singleton.1 hx
      exact h.le_left ht hknown

/-- Joining one more element. -/
theorem reached_join (hl : ∀ x ∈ l, S.known x) (hr : S.known r) (hbound : ∀ x ∈ l, S.le x r)
    (hreached : S.Reached join l r) (hx : S.known x) : S.Reached join (l ++ [x]) (join x r) := by
  have hmem : x ∈ l ++ [x] := by simp
  have hsub : ∀ y ∈ l, y ∈ l ++ [x] := fun y hy => List.mem_append_left _ hy
  by_cases hxr : S.le x r
  · rw [h.right hx hr hxr]
    exact hreached.mono hsub
  by_cases hrx : S.le r x
  · rw [h.left hx hr hrx]
    exact .one hmem
  have climbs {y : α} (hy : y ∈ l) (hsolid : S.solid r) (hyx : ¬ S.le y x) :
      S.Reached join (l ++ [x]) (join x r) := by
    rw [h.comm hx hr, ← h.climb (hl y hy) hr hx hsolid (hbound y hy) hyx hrx hxr]
    exact .two (hsub y hy) hmem
  cases hreached with
  | one hr' => exact .two hmem (hsub r hr')
  | @two p q hp hq =>
    by_cases hpq : S.le p q
    · rw [h.right (hl p hp) (hl q hq) hpq]
      exact .two hmem (hsub q hq)
    by_cases hqp : S.le q p
    · rw [h.left (hl p hp) (hl q hq) hqp]
      exact .two hmem (hsub p hp)
    rcases h.met (hl p hp) (hl q hq) hpq hqp with hsolid | hall
    · by_cases hlist : ∃ y ∈ l ++ [x], ¬ S.solid y
      · rw [h.comm hx hr]
        refine .three (hsub p hp) (hsub q hq) hmem ?_
        rcases h.met hr hx hrx hxr with hsolid' | hall
        · exact .inr ⟨hsolid', hlist⟩
        · exact .inl hall
      · -- the new element is solid, so it is not above both operands
        have hx' : S.solid x := by
          by_contra hnot
          exact hlist ⟨x, hmem, hnot⟩
        by_cases hpx : S.le p x
        · by_cases hqx : S.le q x
          · exact absurd (h.least (hl p hp) (hl q hq) hx hx' hpx hqx) hrx
          · exact climbs hq hsolid hqx
        · exact climbs hp hsolid hpx
    · exact absurd (hall x hx) (not_or.2 ⟨hxr, hrx⟩)
  | three hp hq hs hfinal =>
    rcases hfinal with hall | ⟨hsolid, c, hc, hc'⟩
    · exact absurd (hall x hx) (not_or.2 ⟨hxr, hrx⟩)
    · refine climbs hc hsolid fun hcx => ?_
      exact (h.beyond (hl c hc) hr hx hsolid hc' (hbound c hc) hcx).elim hrx hxr

/-- The join of a list is one of its elements, or the join of two or three of them. -/
theorem reached_joinAll? (hl : ∀ x ∈ l, S.known x) (hr : joinAll? join l = some r) :
    S.Reached join l r := by
  induction l using List.reverseRecOn generalizing r with
  | nil => cases hr
  | append_singleton l x ih =>
    rw [joinAll?_concat] at hr
    cases hr
    have hl' : ∀ y ∈ l, S.known y := fun y hy => hl y (List.mem_append_left _ hy)
    cases hfound : joinAll? join l with
    | none => exact .one (by simp)
    | some found =>
      obtain ⟨hknown, hbound⟩ := h.bound_of_joinAll? hl' hfound
      exact h.reached_join hl' hknown hbound (ih hl' hfound) (hl x (by simp))

/-- The join of a list is the join of three of its elements. -/
theorem threefold_of_joinAll? (hl : ∀ x ∈ l, S.known x) (hr : joinAll? join l = some r) :
    Threefold join (· ∈ l) r := by
  cases h.reached_joinAll? hl hr with
  | one hx =>
    have hself : join r r = r := h.right (hl r hx) (hl r hx) (S.refl (hl r hx))
    exact ⟨r, r, r, hx, hx, hx, by rw [hself, hself]⟩
  | @two x y hx hy =>
    have hknown := h.known (hl x hx) (hl y hy)
    exact ⟨x, y, y, hx, hy, hy, (h.left hknown (hl y hy) (h.le_right (hl x hx) (hl y hy))).symm⟩
  | three hx hy hz => exact ⟨_, _, _, hx, hy, hz, rfl⟩

/-! ### Orders of a list -/

/-- Some order of the list starts with given elements, up to those that occur again. -/
theorem exists_order (hl : ∀ x ∈ l, S.known x) (first : List α) (hfirst : ∀ x ∈ first, x ∈ l) :
    ∃ before after, (before ++ after).Perm l ∧
      joinAll? join before = joinAll? join first := by
  induction first using List.reverseRecOn with
  | nil => exact ⟨[], l, .refl _, rfl⟩
  | append_singleton first x ih =>
    obtain ⟨before, after, hperm, hjoin⟩ := ih fun y hy => hfirst y (List.mem_append_left _ hy)
    have hx : x ∈ l := hfirst x (by simp)
    rcases List.mem_append.1 (hperm.mem_iff.2 hx) with hmem | hmem
    · -- the element was joined before
      refine ⟨before, after, hperm, ?_⟩
      obtain ⟨r, hr⟩ := exists_joinAll? join (List.ne_nil_of_mem hmem)
      have hbefore : ∀ y ∈ before, S.known y := fun y hy =>
        hl y (hperm.mem_iff.1 (List.mem_append_left _ hy))
      obtain ⟨hknown, hbound⟩ := h.bound_of_joinAll? hbefore hr
      rw [joinAll?_concat, ← hjoin, hr, Option.elim_some,
        h.right (hl x hx) hknown (hbound x hmem)]
    · obtain ⟨front, back, rfl⟩ := List.append_of_mem hmem
      have hfront : (x :: (front ++ back)).Perm (front ++ x :: back) := List.perm_middle.symm
      refine ⟨before ++ [x], front ++ back, ?_, ?_⟩
      · rw [List.append_assoc]
        exact (hfront.append_left before).trans hperm
      · rw [joinAll?_concat, joinAll?_concat, hjoin]

/-- More elements lead further up, and nowhere if they are below what was found. -/
theorem joinAll?_append_le (hl : ∀ x ∈ l, S.known x) (hl' : ∀ x ∈ l', S.known x)
    (hr : joinAll? join l = some r) :
    ∃ n, joinAll? join (l ++ l') = some n ∧ S.known n ∧ S.le r n ∧
      ((∀ x ∈ l', S.le x r) → n = r) := by
  induction l' using List.reverseRecOn with
  | nil =>
    have hknown := (h.bound_of_joinAll? hl hr).1
    exact ⟨r, by rwa [List.append_nil], hknown, S.refl hknown, fun _ => rfl⟩
  | append_singleton l' x ih =>
    obtain ⟨n, hn, hknown, hle, heq⟩ := ih fun y hy => hl' y (List.mem_append_left _ hy)
    have hx : S.known x := hl' x (by simp)
    have hknown' := h.known hx hknown
    refine ⟨join x n, ?_, hknown', ?_, fun hbound => ?_⟩
    · rw [← List.append_assoc, joinAll?_concat, hn, Option.elim_some]
    · exact S.trans (h.bound_of_joinAll? hl hr).1 hknown hknown' hle (h.le_right hx hknown)
    · cases heq fun y hy => hbound y (List.mem_append_left _ hy)
      exact h.right hx hknown (hbound x (by simp))

/-- Some order of the list comes to a join of three elements, and ends there if it is above all. -/
theorem exists_order_of_threefold (hl : ∀ x ∈ l, S.known x) (hn : Threefold join (· ∈ l) n) :
    ∃ l' r, l'.Perm l ∧ joinAll? join l' = some r ∧ S.le n r ∧
      ((∀ x ∈ l, S.le x n) → r = n) := by
  obtain ⟨x, y, z, hx, hy, hz, rfl⟩ := hn
  obtain ⟨before, after, hperm, hjoin⟩ := h.exists_order hl [x, y, z] (by simp [hx, hy, hz])
  have hknown : ∀ t ∈ before ++ after, S.known t := fun t ht => hl t (hperm.mem_iff.1 ht)
  have hthree : joinAll? join before = some (join (join x y) z) := by
    rw [hjoin, h.comm (h.known (hl x hx) (hl y hy)) (hl z hz), h.comm (hl x hx) (hl y hy)]
    rfl
  obtain ⟨r, hr, _, hle, heq⟩ := h.joinAll?_append_le
    (fun t ht => hknown t (List.mem_append_left _ ht))
    (fun t ht => hknown t (List.mem_append_right _ ht)) hthree
  exact ⟨_, r, hperm, hr, hle, fun hbound => heq fun t ht =>
    hbound t (hperm.mem_iff.1 (List.mem_append_right _ ht))⟩

/-- All orders of a list have one join if and only if, of the joins of three elements, those that
are above the list are above the others. -/
theorem joinAll?_const_iff (hne : l ≠ []) (hl : ∀ x ∈ l, S.known x) :
    (∃ r, ∀ l', l'.Perm l → joinAll? join l' = some r) ↔
      ∀ n k, Threefold join (· ∈ l) n → Threefold join (· ∈ l) k → (∀ x ∈ l, S.le x n) →
        S.le k n := by
  constructor
  · rintro ⟨r, hr⟩ n k hn hk hbound
    obtain ⟨l₁, r₁, hperm₁, hr₁, _, heq⟩ := h.exists_order_of_threefold hl hn
    obtain ⟨l₂, r₂, hperm₂, hr₂, hle, _⟩ := h.exists_order_of_threefold hl hk
    cases heq hbound
    cases (hr l₁ hperm₁).symm.trans hr₁
    cases (hr l₂ hperm₂).symm.trans hr₂
    exact hle
  · intro hthree
    have ends {l' : List α} (hperm : l'.Perm l) : ∃ r, joinAll? join l' = some r ∧ S.known r ∧
        Threefold join (· ∈ l) r ∧ ∀ x ∈ l, S.le x r := by
      have hne' : l' ≠ [] := fun hnil => hne (hnil ▸ hperm).nil_eq.symm
      have hl' : ∀ x ∈ l', S.known x := fun x hx => hl x (hperm.mem_iff.1 hx)
      obtain ⟨r, hr⟩ := exists_joinAll? join hne'
      obtain ⟨hknown, hbound⟩ := h.bound_of_joinAll? hl' hr
      obtain ⟨x, y, z, hx, hy, hz, hr'⟩ := h.threefold_of_joinAll? hl' hr
      have hmem {x : α} : x ∈ l' ↔ x ∈ l := hperm.mem_iff
      exact ⟨r, hr, hknown, ⟨x, y, z, hmem.1 hx, hmem.1 hy, hmem.1 hz, hr'⟩,
        fun x hx => hbound x (hmem.2 hx)⟩
    obtain ⟨r, _, hknown, hreached, hbound⟩ := ends (.refl l)
    refine ⟨r, fun l' hperm => ?_⟩
    obtain ⟨r', hr', hknown', hreached', hbound'⟩ := ends hperm
    rw [hr', S.antisymm hknown' hknown (hthree r r' hreached hreached' hbound)
      (hthree r' r hreached' hreached hbound')]

end HasJoins

/-! ### Joins from solid bounds -/

/-- There is one join at most. -/
theorem IsJoin.unique (hn : S.IsJoin x y n) (hk : S.IsJoin x y k) : n = k := by
  by_cases hxy : S.le x y
  · rw [hn.left hxy, hk.left hxy]
  by_cases hyx : S.le y x
  · rw [hn.right hyx, hk.right hyx]
  exact S.antisymm hn.known hk.known
    (hn.least hk.known (hk.solid hxy hyx) hk.le_left hk.le_right)
    (hk.least hn.known (hn.solid hxy hyx) hn.le_left hn.le_right)

/-- Joins that are below all solid bounds are such joins, if the solid bounds of an element are
comparable. -/
theorem hasJoins_of_isJoin (hjoin : ∀ {x y}, S.known x → S.known y → S.IsJoin x y (join x y))
    (hlinear : ∀ {x r y}, S.known x → S.known r → S.known y → S.solid r →
      S.solid y ∨ ¬ S.solid x → S.le x r → S.le x y → S.le r y ∨ S.le y r) : S.HasJoins join where
  known hx hy := (hjoin hx hy).known
  comm hx hy := (hjoin hx hy).unique (hjoin hy hx).symm
  right hx hy := (hjoin hx hy).left
  le_left hx hy := (hjoin hx hy).le_left
  least hx hy := (hjoin hx hy).least
  met hx hy hxy hyx := .inl ((hjoin hx hy).solid hxy hyx)
  climb {x r y} hx hr hy hsolid hxr hxy hry hyr := by
    have hyx : ¬ S.le y x := fun hyx => hyr (S.trans hy hx hr hyx hxr)
    have hjx := hjoin hx hy
    have hjr := hjoin hr hy
    have hrx : S.le r (join x y) := by
      -- otherwise the other element would be below the bound
      have hsolid' := hjx.solid hxy hyx
      refine (hlinear hx hr hjx.known hsolid (.inl hsolid') hxr hjx.le_left).resolve_right ?_
      exact fun hle => hyr (S.trans hy hjx.known hr hjx.le_right hle)
    have hxr' : S.le x (join r y) := S.trans hx hr hjr.known hxr hjr.le_left
    exact S.antisymm hjx.known hjr.known
      (hjx.least hjr.known (hjr.solid hry hyr) hxr' hjr.le_right)
      (hjr.least hjx.known (hjx.solid hxy hyx) hrx hjx.le_right)
  beyond hx hr hy hsolid hx' hxr hxy := hlinear hx hr hy hsolid (.inr hx') hxr hxy

end Subtyping

namespace ClassPath

variable {cp : ClassPath} {p q k n : TypeNode} {d e f : String}

/-- The join of two nodes, as it is found without any memory. -/
def joinOf (cp : ClassPath) (p q : TypeNode) : TypeNode :=
  ((cp.commonSuperclass p q).answer .empty).toOption.getD .unknown

/-- The join without a memory is the one that is found with any memory. -/
theorem joinOf_eq {I : Memo → Prop} (hI : I .empty)
    (h : Yields I (cp.commonSuperclass p q) (· = .ok k)) : cp.joinOf p q = k := by
  rw [joinOf, h.answer hI]
  rfl

theorem joinOf_object_left (hq : q.IsClass) :
    cp.joinOf (.cls objectClass) q = .cls objectClass := by
  cases q with
  | primitive d => exact hq.elim
  | array dims elem => exact hq.elim
  | unknown => rfl
  | cls b =>
    refine joinOf_eq cp.toldAll_empty ?_
    show Yields cp.ToldAll (cp.classJoin objectClass b) _
    rw [classJoin_object_left]
    exact .pure rfl

theorem joinOf_object_right (hp : p.IsClass) :
    cp.joinOf p (.cls objectClass) = .cls objectClass := by
  cases p with
  | primitive d => exact hp.elim
  | array dims elem => exact hp.elim
  | unknown => rfl
  | cls a =>
    refine joinOf_eq cp.toldAll_empty ?_
    show Yields cp.ToldAll (cp.classJoin a objectClass) _
    rw [classJoin_object_right]
    exact .pure rfl

/-- A node joins with itself to itself. -/
theorem joinOf_self (hp : p.Joinable) : cp.joinOf p p = p := by
  have plain (n : TypeNode) (hn : n.IsClass) :
      Yields cp.ToldAll (cp.plainJoin n n) (· = .ok n) := by
    cases n with
    | primitive d => exact hn.elim
    | array dims elem => exact hn.elim
    | unknown => exact .pure rfl
    | cls a =>
      show Yields cp.ToldAll (cp.classJoin a a) _
      rw [classJoin_self]
      exact .pure rfl
  refine joinOf_eq cp.toldAll_empty ?_
  cases p with
  | primitive d => exact hp.elim
  | unknown => exact plain .unknown hp
  | cls a => exact plain (.cls a) hp
  | array dims elem =>
    show Yields cp.ToldAll (cp.arrayJoin dims elem dims elem) _
    unfold arrayJoin
    split
    · rw [if_pos ⟨rfl, rfl⟩]
      exact .pure rfl
    next hprimitive =>
    obtain ⟨n, hn, hclass⟩ := TypeNode.NamesElement.isClass hp (by simpa using hprimitive)
    have hdescriptor := TypeNode.descriptor_of_ofDescriptor hn
    rw [if_pos rfl]
    simp only [hn]
    refine (plain n hclass).bind_ok (.pure ?_)
    cases n with
    | primitive d => exact hclass.elim
    | array dims elem => exact hclass.elim
    | unknown => exact congrArg (fun elem => Except.ok (TypeNode.array dims elem)) hdescriptor
    | cls a => exact congrArg (fun elem => Except.ok (TypeNode.array dims elem)) hdescriptor

section Joined

variable (hcp : cp.ClassesOnly) (hacyclic : ∀ d, ¬ cp.OnCycle d)
include hcp hacyclic

/-- Without cycles the join does not depend on the memory. -/
theorem yields_joinOf (hp : p.Joinable) (hq : q.Joinable) :
    Yields cp.ToldAll (cp.commonSuperclass p q) (· = .ok (cp.joinOf p q)) := by
  obtain ⟨k, hk, _⟩ := agrees_commonSuperclass hcp hacyclic hp hq
  rwa [joinOf_eq cp.toldAll_empty hk]

/-- The join without a memory does not depend on the order. -/
theorem joinOf_comm (hp : p.Joinable) (hq : q.Joinable) : cp.joinOf p q = cp.joinOf q p := by
  obtain ⟨k, hk, hk'⟩ := agrees_commonSuperclass hcp hacyclic hp hq
  rw [joinOf_eq cp.toldAll_empty hk, joinOf_eq cp.toldAll_empty hk']

theorem joinable_joinOf (hp : p.Joinable) (hq : q.Joinable) : (cp.joinOf p q).Joinable := by
  have hanswer := (yields_joinOf hcp hacyclic hp hq).answer cp.toldAll_empty
  obtain ⟨n, hn, hjoinable⟩ := (commonSuperclass_succeeds hcp hp hq).answer cp.toldAll_empty
  cases hanswer.symm.trans hn
  exact hjoinable

end Joined

/-! ## Rooted nodes -/

/-- A class extends one class at most. -/
theorem extends_rightUnique (cp : ClassPath) : Relator.RightUnique cp.Extends :=
  fun _ _ _ h h' => h.unique h'

/-- The bounds of a class are comparable, if one of them is no interface and the other one neither,
unless the class is an interface itself. -/
theorem Sub.linear (hd : cp.Rooted d) (hf : cp.Rooted f) (he' : ¬ cp.IsInterface e)
    (h : ¬ cp.IsInterface f ∨ cp.IsInterface d) (hde : cp.Sub d e) (hdf : cp.Sub d f) :
    cp.Sub e f ∨ cp.Sub f e := by
  have hup := hde.extends he'
  rcases h with hf' | hi
  · have hup' := hdf.extends hf'
    rcases ReflTransGen.total_of_right_unique cp.extends_rightUnique hup hup' with h | h
    · exact .inl (.inl h)
    · exact .inr (.inl h)
  · rcases hd.of_interface hi hup with rfl | rfl
    · exact absurd hi he'
    · exact .inr (.inl hf.root)

/-- Solid arrays above an array are comparable. -/
theorem SubArray.linear {dims dims' dims'' : Nat} {s t u : String}
    (hs : cp.RootedNode (.array dims s)) (hu : cp.RootedNode (.array dims'' u))
    (ht' : cp.SolidNode (.array dims' t))
    (h : cp.SolidNode (.array dims'' u) ∨ ¬ cp.SolidNode (.array dims s))
    (hst : cp.SubArray dims s dims' t) (hsu : cp.SubArray dims s dims'' u) :
    cp.SubArray dims' t dims'' u ∨ cp.SubArray dims'' u dims' t := by
  by_cases hprimitive : isPrimitiveElement s = true
  · obtain ⟨rfl, rfl⟩ := hst.eq_of_primitive (.inl hprimitive)
    exact .inl hsu
  have hs' : isPrimitiveElement s = false := by simpa using hprimitive
  have ht := hst.not_primitive hs'
  have hu' := hsu.not_primitive hs'
  rcases Nat.lt_trichotomy dims' dims'' with hlt | rfl | hlt
  · cases hst.eq_object (Nat.lt_of_lt_of_le hlt hsu.dims_le)
    exact .inr (.deeper hu' hlt)
  · rcases Nat.lt_or_eq_of_le hst.dims_le with hlt | rfl
    · cases hst.eq_object hlt
      cases hsu.eq_object hlt
      exact .inl .refl
    · have hclass : ¬ cp.IsInterface t := ht'.resolve_left (by simp [ht])
      have hbound : ¬ cp.IsInterface u ∨ cp.IsInterface s := by
        rcases h with h | h
        · exact .inl (h.resolve_left (by simp [hu']))
        · exact .inr (by simpa [SolidNode, hs'] using h)
      exact (Sub.linear (Rooted.element hs hs') (Rooted.element hu hu') hclass hbound hst.sub
        hsu.sub).imp (.elements ht hu') (.elements hu' ht)
  · cases hsu.eq_object (Nat.lt_of_lt_of_le hlt hst.dims_le)
    exact .inl (.deeper ht hlt)

/-- Solid nodes above a node are comparable. -/
theorem SubNode.linear (hp : cp.RootedNode p) (hk : cp.RootedNode k) (hq : cp.RootedNode q)
    (hk' : cp.SolidNode k) (h : cp.SolidNode q ∨ ¬ cp.SolidNode p) (hpk : cp.SubNode p k)
    (hpq : cp.SubNode p q) : cp.SubNode k q ∨ cp.SubNode q k := by
  cases p with
  | primitive d => exact hp.elim
  | unknown => exact hp.elim
  | cls d =>
    cases k with
    | cls e =>
      cases q with
      | cls f => exact Sub.linear hp hq hk' (h.imp_right not_not.1) hpk hpq
      | _ => exact hpq.elim
    | _ => exact hpk.elim
  | array dims s =>
    cases k with
    | primitive d => exact hk.elim
    | unknown => exact hk.elim
    | cls e =>
      -- a class above an array that is no interface is the root class
      cases eq_object_of_subNode hpk hk'
      cases q with
      | primitive d => exact hq.elim
      | unknown => exact hq.elim
      | cls f => exact .inr (.inl (Rooted.root hq))
      | array dims' t => exact .inr (.inl rfl)
    | array dims' t =>
      cases q with
      | primitive d => exact hq.elim
      | unknown => exact hq.elim
      | cls f => exact .inl hpq
      | array dims'' u => exact SubArray.linear hp hq hk' h hpk hpq

/-- Rooted nodes have joins. -/
theorem hasJoins_nodes (hobject : cp.Rooted objectClass) : cp.nodes.HasJoins cp.joinOf := by
  refine Subtyping.hasJoins_of_isJoin (fun hp hq => ?_) fun hp hk hq => SubNode.linear hp hk hq
  obtain ⟨k, hk, hjoin⟩ := RootedNode.commonSuperclass hobject hp hq
  rwa [joinOf_eq .nil hk]

/-! ## Classes that are used as classes -/

/-- The unknown class, or a class that is not implemented, and neither are its superclasses. -/
structure Proper (cp : ClassPath) (n : TypeNode) : Prop where
  isClass : n.IsClass
  named : n.Named
  classes : ∀ {d e}, ReflTransGen cp.Parent n (.cls d) → ¬ cp.Impl e d

/-- A node is above another: it is met on the way up, or it is the root class, or the unknown class
above any other. -/
inductive Over (cp : ClassPath) : TypeNode → TypeNode → Prop where
  | way {n k : TypeNode} (h : ReflTransGen cp.Parent n k) : Over cp n k
  | root {n : TypeNode} : Over cp n (.cls objectClass)
  | unknown {n : TypeNode} (hn : n ≠ .cls objectClass) : Over cp n .unknown

theorem eq_unknown_of_way (h : ReflTransGen cp.Parent .unknown n) : n = .unknown := by
  rcases ReflTransGen.cases_head h with rfl | ⟨k, hstep, _⟩
  · rfl
  · cases hstep

/-- A superclass chain has all that is met on the way up. -/
theorem Chain.mem_iff {l : List TypeNode} (h : cp.Chain n l) :
    k ∈ l ↔ ReflTransGen cp.Parent n k := by
  induction h with
  | last hparent =>
    rw [List.mem_singleton]
    constructor
    · rintro rfl
      exact .refl
    · intro hup
      rcases ReflTransGen.cases_head hup with rfl | ⟨m, hstep, _⟩
      · rfl
      · cases hparent.symm.trans hstep
  | @step n m l hparent _ ih =>
    rw [List.mem_cons, ih]
    constructor
    · rintro (rfl | hup)
      · exact .refl
      · exact .head hparent hup
    · intro hup
      rcases ReflTransGen.cases_head hup with rfl | ⟨m', hstep, hrest⟩
      · exact .inl rfl
      · cases hparent.symm.trans hstep
        exact .inr hrest

/-- The first node that two ways up have in common, or the unknown class if there is none. -/
structure Nearest (cp : ClassPath) (p q n : TypeNode) : Prop where
  common : n ≠ .unknown → ReflTransGen cp.Parent p n ∧ ReflTransGen cp.Parent q n
  near : ∀ {k}, ReflTransGen cp.Parent p k → ReflTransGen cp.Parent q k →
    ReflTransGen cp.Parent n k

/-- The first common element of two chains is the first one that the ways up have in common. -/
theorem nearest_of_chains {as bs : List TypeNode} (has : cp.Chain p as) (hbs : cp.Chain q bs) :
    cp.Nearest p q (nearestCommon as bs) := by
  unfold nearestCommon
  cases hfind : as.find? fun n => decide (n ∈ bs) with
  | none =>
    refine ⟨fun hne => absurd rfl hne, fun hp hq => ?_⟩
    have hnot := List.find?_eq_none.1 hfind _ (has.mem_iff.2 hp)
    exact absurd (decide_eq_true (hbs.mem_iff.2 hq)) hnot
  | some n =>
    have hcommon := List.find?_some hfind
    refine ⟨fun _ => ⟨has.mem_iff.1 (List.mem_of_find?_eq_some hfind), ?_⟩, fun hp hq => ?_⟩
    · exact hbs.mem_iff.1 (of_decide_eq_true hcommon)
    · obtain ⟨l, hl, hnear⟩ := has.nearest hfind
      exact hl.mem_iff.1 (hnear _ (has.mem_iff.2 hp) (decide_eq_true (hbs.mem_iff.2 hq)))

namespace Proper

theorem unknown (cp : ClassPath) : cp.Proper .unknown where
  isClass := trivial
  named := rfl
  classes h := by cases eq_unknown_of_way h

theorem eq_cls (hn : cp.Proper n) (h : cp.Parent n k) : ∃ d, n = .cls d := by
  cases n with
  | primitive d => exact hn.isClass.elim
  | array dims elem => exact hn.isClass.elim
  | unknown => cases h
  | cls d => exact ⟨d, rfl⟩

/-- A class that is not implemented is never found to be an interface of another. -/
theorem isInterfaceOf (hcp : cp.ClassesOnly) (h : cp.Proper (.cls d)) (e : String) :
    Yields cp.ToldAll (cp.isInterfaceOf d e) (· = .ok false) := by
  have hnot : ∀ {e}, ¬ cp.Impl e d := h.classes .refl
  unfold ClassPath.isInterfaceOf
  split
  · next c hd =>
    split
    · next hi => exact absurd (.self hd hi) hnot
    · exact .pure rfl
  · refine (tested_classImplements hcp e d).bind_attempt fun r hr => ?_
    rcases r with err | _ | _
    · simp only [hr.unresolved err rfl]
      exact .pure rfl
    · exact .pure rfl
    · exact absurd (hr.yes rfl) hnot

end Proper

/-- A class is not implemented if no class declares it for an interface, and it is none itself. -/
theorem not_impl_of_defs (h : ∀ c ∈ cp.defs, (∀ t ∈ c.2.interfaces, t.descriptor ≠ d) ∧
    (c.1 = d → c.2.isInterface = false)) : ¬ cp.Impl e d := by
  intro himpl
  induction himpl with
  | declared hd ht => exact (h _ (mem_of_def? hd)).1 _ ht rfl
  | above _ _ ih => exact ih h
  | self hd hc => cases hc.symm.trans ((h _ (mem_of_def? hd)).2 rfl)

/-- It is enough to look at the way up and at all definitions. -/
theorem proper_of_defs {above : List TypeNode} (hclass : n.IsClass) (hnamed : n.Named)
    (habove : cp.superclassChain n = .ok above)
    (h : ∀ k ∈ n :: above, ∀ c ∈ cp.defs, (∀ t ∈ c.2.interfaces, .cls t.descriptor ≠ k) ∧
      (.cls c.1 = k → c.2.isInterface = false)) : cp.Proper n where
  isClass := hclass
  named := hnamed
  classes {d _} hup := by
    have hmem := (chain_of_superclassChain habove).mem_iff.2 hup
    refine not_impl_of_defs fun c hc => ⟨fun t ht heq => ?_, fun heq => ?_⟩
    · exact (h _ hmem c hc).1 t ht (congrArg TypeNode.cls heq)
    · exact (h _ hmem c hc).2 (congrArg TypeNode.cls heq)

/-- Where proper classes join: in the root class if one of them is it, in the unknown class if
their ways up do not meet before it, and else where they meet first. -/
inductive Joined (cp : ClassPath) (p q : TypeNode) : TypeNode → Prop where
  | root (h : p = .cls objectClass ∨ q = .cls objectClass) : Joined cp p q (.cls objectClass)
  | unknown (hp : p ≠ .cls objectClass) (hq : q ≠ .cls objectClass)
    (hnone : ∀ {k}, ReflTransGen cp.Parent p k → ReflTransGen cp.Parent q k → k = .unknown) :
    Joined cp p q .unknown
  | way {n : TypeNode} (hp : ReflTransGen cp.Parent p n) (hq : ReflTransGen cp.Parent q n)
    (hnear : ∀ {k}, ReflTransGen cp.Parent p k → ReflTransGen cp.Parent q k →
      ReflTransGen cp.Parent n k) : Joined cp p q n

/-- A join is above its first operand. -/
theorem Joined.over_left (h : cp.Joined p q n) : cp.Over p n := by
  cases h with
  | root => exact .root
  | unknown hpo => exact .unknown hpo
  | way hpn => exact .way hpn

section Ancestry

variable (hcp : cp.ClassesOnly) (hacyclic : ∀ d, ¬ cp.OnCycle d)
include hcp

theorem Proper.of_parent (hn : cp.Proper n) (h : cp.Parent n k) : cp.Proper k where
  isClass := isClass_of_parent hcp hn.isClass h
  named := named_of_parent? h
  classes hup := hn.classes (.head h hup)

/-- What is above a proper class is proper. -/
theorem Proper.of_way (hn : cp.Proper n) (h : ReflTransGen cp.Parent n k) : cp.Proper k := by
  induction h with
  | refl => exact hn
  | tail _ hstep ih => exact ih.of_parent hcp hstep

/-- The way up from a proper class leads along superclasses. -/
theorem Proper.extends_of_way (hd : cp.Proper (.cls d))
    (h : ReflTransGen cp.Parent (.cls d) (.cls e)) : ReflTransGen cp.Extends d e := by
  generalize hn : TypeNode.cls e = n at h
  induction h generalizing e with
  | refl =>
    cases hn
    exact .refl
  | tail hup hstep ih =>
    obtain ⟨f, rfl⟩ := (hd.of_way hcp hup).eq_cls hstep
    cases hn
    exact (ih rfl).tail hstep

/-- The join is on the way up from the first operand, unless it is above everything. -/
theorem Joined.proper (hp : cp.Proper p) (hq : cp.Proper q) (h : cp.Joined p q n) :
    cp.Proper n := by
  cases h with
  | root h =>
    rcases h with rfl | rfl
    · exact hp
    · exact hq
  | unknown => exact .unknown cp
  | way hpn => exact hp.of_way hcp hpn

include hacyclic

/-- No way up leads back to a proper class. -/
theorem not_way_self (hn : cp.Proper n) : ¬ TransGen cp.Parent n n := by
  intro hcycle
  obtain ⟨k, hup, hstep⟩ := TransGen.tail'_iff.1 hcycle
  cases n with
  | primitive d => exact hn.isClass.elim
  | array dims elem => exact hn.isClass.elim
  | unknown =>
    cases eq_unknown_of_way hup
    cases hstep
  | cls d =>
    obtain ⟨e, rfl⟩ := (hn.of_way hcp hup).eq_cls hstep
    have hextends : TransGen cp.Extends d d := .tail' (hn.extends_of_way hcp hup) hstep
    exact hacyclic d (TransGen.mono (fun _ _ h => Extends.declares h) _ _ hextends)

theorem Proper.exists_chain (hn : cp.Proper n) : ∃ l, cp.Chain n l := by
  cases hchain : cp.superclassChain n with
  | ok above => exact ⟨_, chain_of_superclassChain hchain⟩
  | error e =>
    have hacyclic' : cp.Acyclic n := fun k hup => not_way_self hcp hacyclic (hn.of_way hcp hup)
    rcases superclassChain_error hn.named hchain with ⟨_, hcycle⟩ | ⟨s, _, d, c, _, hd, hs, hbroken⟩
    · exact absurd hacyclic' hcycle
    · obtain ⟨name, hname⟩ := hcp d c s hd (.inl hs)
      exact absurd hname (hbroken _)

theorem way_antisymm (hp : cp.Proper p) (h : ReflTransGen cp.Parent p q)
    (h' : ReflTransGen cp.Parent q p) : p = q := by
  rcases ReflTransGen.cases_head h with rfl | ⟨k, hstep, hrest⟩
  · rfl
  · exact absurd (.head' hstep (hrest.trans h')) (not_way_self hcp hacyclic hp)

/-- Ways up with the same common nodes meet in the same node. -/
theorem Nearest.eq_of_common {p' k : TypeNode} (h : cp.Nearest p q n) (h' : cp.Nearest p' q k)
    (hp : cp.Proper p)
    (hcommon : ∀ j, ReflTransGen cp.Parent q j →
      (ReflTransGen cp.Parent p j ↔ ReflTransGen cp.Parent p' j)) : n = k := by
  by_cases hn : n = .unknown
  · by_cases hk : k = .unknown
    · rw [hn, hk]
    · obtain ⟨hpk, hqk⟩ := h'.common hk
      have hup := h.near ((hcommon k hqk).2 hpk) hqk
      rw [hn] at hup
      exact absurd (eq_unknown_of_way hup) hk
  · obtain ⟨hpn, hqn⟩ := h.common hn
    have hkn := h'.near ((hcommon n hqn).1 hpn) hqn
    by_cases hk : k = .unknown
    · rw [hk] at hkn
      exact absurd (eq_unknown_of_way hkn) hn
    · obtain ⟨hpk, hqk⟩ := h'.common hk
      exact way_antisymm hcp hacyclic (hp.of_way hcp hpn)
        (h.near ((hcommon k hqk).2 hpk) hqk) hkn

/-- Proper classes other than the root class join where their ways up meet. -/
theorem Proper.nearest (hp : cp.Proper p) (hq : cp.Proper q) (hpo : p ≠ .cls objectClass)
    (hqo : q ≠ .cls objectClass) : cp.Nearest p q (cp.joinOf p q) := by
  obtain ⟨as, has⟩ := hp.exists_chain hcp hacyclic
  obtain ⟨bs, hbs⟩ := hq.exists_chain hcp hacyclic
  cases p with
  | primitive d => exact hp.isClass.elim
  | array dims elem => exact hp.isClass.elim
  | unknown =>
    have hjoin : cp.joinOf .unknown q = .unknown := by
      cases q with
      | primitive d => exact hq.isClass.elim
      | array dims elem => exact hq.isClass.elim
      | unknown => rfl
      | cls b => exact if_neg hqo
    rw [hjoin]
    exact ⟨fun hne => absurd rfl hne, fun hup _ => hup⟩
  | cls a =>
    cases q with
    | primitive d => exact hq.isClass.elim
    | array dims elem => exact hq.isClass.elim
    | unknown =>
      have hjoin : cp.joinOf (.cls a) .unknown = .unknown :=
        if_neg fun h => hpo (congrArg TypeNode.cls h)
      rw [hjoin]
      exact ⟨fun hne => absurd rfl hne, fun _ hup => hup⟩
    | cls b =>
      by_cases hab : a = b
      · cases hab
        rw [joinOf_self hp.isClass.joinable]
        exact ⟨fun _ => ⟨.refl, .refl⟩, fun hup _ => hup⟩
      have htested (a b : String) : cp.Tested a b (.ok false) := tested_ok (by simp)
      have hjoin := yields_classJoin hab (fun h => hpo (congrArg TypeNode.cls h))
        (fun h => hqo (congrArg TypeNode.cls h)) (hp.isInterfaceOf hcp b) (htested a b)
        (hq.isInterfaceOf hcp a) (htested b a) (chainJoin_of_chains hp.named hq.named has hbs)
      rw [joinOf_eq (p := .cls a) (q := .cls b) cp.toldAll_empty hjoin]
      exact nearest_of_chains has hbs

/-- Two proper classes have the join that the ways up from them tell. -/
theorem Proper.joined (hp : cp.Proper p) (hq : cp.Proper q) : cp.Joined p q (cp.joinOf p q) := by
  by_cases hpo : p = .cls objectClass
  · cases hpo
    rw [joinOf_object_left hq.isClass]
    exact .root (.inl rfl)
  by_cases hqo : q = .cls objectClass
  · cases hqo
    rw [joinOf_object_right hp.isClass]
    exact .root (.inr rfl)
  have hnearest := hp.nearest hcp hacyclic hq hpo hqo
  by_cases hn : cp.joinOf p q = .unknown
  · rw [hn] at hnearest ⊢
    exact .unknown hpo hqo fun hpk hqk => eq_unknown_of_way (hnearest.near hpk hqk)
  · exact .way (hnearest.common hn).1 (hnearest.common hn).2 hnearest.near

end Ancestry

section Root

variable (hobject : cp.Rooted objectClass)
include hobject

/-- Nothing is above the root class. -/
theorem eq_object_of_way (h : ReflTransGen cp.Parent (.cls objectClass) n) :
    n = .cls objectClass := by
  rcases ReflTransGen.cases_head h with rfl | ⟨k, hstep, _⟩
  · rfl
  · cases hobject.top.symm.trans hstep

theorem Over.eq_object (h : cp.Over (.cls objectClass) n) : n = .cls objectClass := by
  cases h with
  | way h => exact eq_object_of_way hobject h
  | root => rfl
  | unknown hn => exact absurd rfl hn

/-- Being above is transitive. -/
theorem Over.trans (h : cp.Over p q) (h' : cp.Over q n) : cp.Over p n := by
  by_cases hp : p = .cls objectClass
  · cases hp
    cases h.eq_object hobject
    exact h'
  cases h' with
  | root => exact .root
  | unknown => exact .unknown hp
  | way h' =>
    cases h with
    | way h => exact .way (h.trans h')
    | root =>
      cases eq_object_of_way hobject h'
      exact .root
    | unknown =>
      cases eq_unknown_of_way h'
      exact .unknown hp

/-- A node above another that is neither the root class nor the unknown class is on its way up. -/
theorem Over.way_of_ne (h : cp.Over p n) (hno : n ≠ .cls objectClass) (hnu : n ≠ .unknown) :
    p ≠ .cls objectClass ∧ ReflTransGen cp.Parent p n := by
  cases h with
  | way h =>
    refine ⟨?_, h⟩
    rintro rfl
    exact hno (eq_object_of_way hobject h)
  | root => exact absurd rfl hno
  | unknown => exact absurd rfl hnu

/-- The join is below every solid bound. -/
theorem Joined.least {u : TypeNode} (h : cp.Joined p q n) (hu : u ≠ .unknown)
    (hpu : cp.Over p u) (hqu : cp.Over q u) : cp.Over n u := by
  by_cases huo : u = .cls objectClass
  · cases huo
    exact .root
  obtain ⟨hpo, hpu⟩ := hpu.way_of_ne hobject huo hu
  obtain ⟨hqo, hqu⟩ := hqu.way_of_ne hobject huo hu
  cases h with
  | root h => exact (h.elim hpo hqo).elim
  | unknown _ _ hnone => exact absurd (hnone hpu hqu) hu
  | way _ _ hnear => exact .way (hnear hpu hqu)

variable (hcp : cp.ClassesOnly) (hacyclic : ∀ d, ¬ cp.OnCycle d)
include hcp hacyclic

/-- Two proper classes above each other are the same. -/
theorem Over.antisymm (hp : cp.Proper p) (h : cp.Over p q) (h' : cp.Over q p) : p = q := by
  by_cases hpo : p = .cls objectClass
  · cases hpo
    exact (h.eq_object hobject).symm
  by_cases hqo : q = .cls objectClass
  · cases hqo
    exact h'.eq_object hobject
  by_cases hpu : p = .unknown
  · cases hpu
    cases h with
    | way h => exact (eq_unknown_of_way h).symm
    | root => exact absurd rfl hqo
    | unknown => rfl
  by_cases hqu : q = .unknown
  · cases hqu
    exact absurd (eq_unknown_of_way (h'.way_of_ne hobject hpo hpu).2) hpu
  exact way_antisymm hcp hacyclic hp (h.way_of_ne hobject hqo hqu).2
    (h'.way_of_ne hobject hpo hpu).2

/-- The unknown class and the classes that are used as classes, ordered by their superclasses.  All
but the unknown class are solid. -/
def ancestry : Subtyping TypeNode where
  known := cp.Proper
  le := cp.Over
  solid n := n ≠ .unknown
  refl _ := .way .refl
  trans _ _ _ := Over.trans hobject
  antisymm hp _ := Over.antisymm hobject hcp hacyclic hp

/-- A class joins with what is above it there. -/
theorem Joined.eq_right (hq : cp.Proper q) (h : cp.Joined p q n) (hle : cp.Over p q) : n = q := by
  cases h with
  | root h =>
    rcases h with rfl | rfl
    · exact (hle.eq_object hobject).symm
    · rfl
  | unknown _ hqo hnone =>
    by_cases hqu : q = .unknown
    · exact hqu.symm
    · exact (hnone (hle.way_of_ne hobject hqo hqu).2 .refl).symm
  | way _ hqn hnear =>
    by_cases hqo : q = .cls objectClass
    · cases hqo
      exact eq_object_of_way hobject hqn
    by_cases hqu : q = .unknown
    · cases hqu
      exact eq_unknown_of_way hqn
    · exact (way_antisymm hcp hacyclic hq hqn
        (hnear (hle.way_of_ne hobject hqo hqu).2 .refl)).symm

/-- A class joins with one that is not comparable as a solid bound of it does. -/
theorem joinOf_climb (hp : cp.Proper p) (hn : cp.Proper n) (hq : cp.Proper q) (hnu : n ≠ .unknown)
    (hpn : cp.Over p n) (hnq : ¬ cp.Over n q) (hqn : ¬ cp.Over q n) :
    cp.joinOf p q = cp.joinOf n q := by
  have hno : n ≠ .cls objectClass := by
    rintro rfl
    exact hqn .root
  have hqo : q ≠ .cls objectClass := by
    rintro rfl
    exact hnq .root
  obtain ⟨hpo, hpn⟩ := hpn.way_of_ne hobject hno hnu
  refine (hp.nearest hcp hacyclic hq hpo hqo).eq_of_common hcp hacyclic
    (hn.nearest hcp hacyclic hq hno hqo) hp fun k hqk => ?_
  constructor
  · intro hpk
    -- a common node below the solid one would put the other operand below it
    refine (ReflTransGen.total_of_right_unique cp.parent_rightUnique hpn hpk).resolve_right ?_
    exact fun hkn => hqn (.way (hqk.trans hkn))
  · exact fun hnk => hpn.trans hnk

/-- Classes that are used as classes have joins. -/
theorem hasJoins_ancestry : (ancestry hobject hcp hacyclic).HasJoins cp.joinOf where
  known hp hq := (hp.joined hcp hacyclic hq).proper hcp hp hq
  comm hp hq := joinOf_comm hcp hacyclic hp.isClass.joinable hq.isClass.joinable
  right hp hq hle := (hp.joined hcp hacyclic hq).eq_right hobject hcp hacyclic hq hle
  le_left hp hq := (hp.joined hcp hacyclic hq).over_left
  least hp hq _ hu hpu hqu := (hp.joined hcp hacyclic hq).least hobject hu hpu hqu
  met {p q} _ _ _ _ := by
    by_cases hn : cp.joinOf p q = .unknown
    · refine .inr fun k _ => ?_
      rw [hn]
      by_cases hk : k = .cls objectClass
      · cases hk
        exact .inr .root
      · exact .inl (.unknown hk)
    · exact .inl hn
  climb hp hn hq hnu hpn _ hnq hqn :=
    joinOf_climb hobject hcp hacyclic hp hn hq hnu hpn hnq hqn
  beyond {p n q} _ _ _ hnu hp hpn _ := by
    cases not_not.1 hp
    cases hpn with
    | way h => exact absurd (eq_unknown_of_way h) hnu
    | root => exact .inr .root
    | unknown => exact absurd rfl hnu

end Root

end ClassPath

end Dalvik
