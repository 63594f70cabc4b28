import Dalvik.Proofs.Implementing
import Mathlib.Data.Finset.Card

/-!
# Types climb

A join that changes a type takes it up.  How far it can go up is counted by the classes that are
declared above: `ClassPath.height` is the number of defined classes that can be reached.

An array superclass complicates this in two ways.  The elements of two arrays can join to an
array, so the dimensions grow; what is above an element then counts too, and what is above the
root class.  And an array goes on to one of the two interfaces of arrays.  If an array were above
them, types could go round in a circle, so this is ruled out (`ClassPath.Founded`).

`RegType.key` says where a type stands, and each join that changes a type lowers the key
(`RegType.over_of_join`).  The keys are well-founded.  In a loop the arrays have a bounded number of
dimensions (`RegType.Within`), and then a key is worth a number (`RegType.weight`).
-/

namespace Dalvik

open Relation (ReflTransGen TransGen)

/-! ## Dimensions -/

/-- The node of a type has its dimensions. -/
theorem dims_of_ofTy {t : Ty} {dims : Nat} {elem : String}
    (h : TypeNode.ofTy t = .ok (.array dims elem)) : dims = t.dims := by
  have hsplit := Ty.splitBrackets_chars t
  unfold TypeNode.ofTy TypeNode.ofDescriptor at h
  rw [Ty.descriptor, String.toList_ofList] at h
  split at h
  · cases h
  split at h
  · cases h
  split at h
  · split at h <;> cases h
  · cases h
  · next heq =>
    cases h
    rw [heq] at hsplit
    exact congrArg Prod.fst hsplit

namespace ClassPath

variable {cp : ClassPath} {a b d e : String} {c : ClassDef} {n : TypeNode} {m m' : Memo}

/-! ## Heights -/

/-- What is right above a class: the types it declares.  A superclass that is an array stands for
its element and for the root class. -/
inductive Rises (cp : ClassPath) (d : String) : String → Prop where
  | superclass {c : ClassDef} {s : Ty} (hd : cp.def? d = some c) (hs : c.superclass? = some s) :
    Rises cp d s.descriptor
  | interface {c : ClassDef} {t : Ty} (hd : cp.def? d = some c) (ht : t ∈ c.interfaces) :
    Rises cp d t.descriptor
  | element {c : ClassDef} {s : Ty} {dims : Nat} {elem : String} (hd : cp.def? d = some c)
    (hs : c.superclass? = some s) (harray : TypeNode.ofTy s = .ok (.array dims elem)) :
    Rises cp d elem
  | root {c : ClassDef} {s : Ty} {dims : Nat} {elem : String} (hd : cp.def? d = some c)
    (hs : c.superclass? = some s) (harray : TypeNode.ofTy s = .ok (.array dims elem)) :
    Rises cp d objectClass

/-- An array is declared as a superclass somewhere above a class. -/
def Arrayed (cp : ClassPath) (d : String) : Prop :=
  ∃ e c s dims elem, ReflTransGen cp.Rises d e ∧ cp.def? e = some c ∧ c.superclass? = some s ∧
    TypeNode.ofTy s = .ok (.array dims elem)

/-- No class is above itself, and no array is above the interfaces of arrays. -/
structure Founded (cp : ClassPath) : Prop where
  acyclic : ∀ d, ¬ TransGen cp.Rises d d
  arrays : ∀ d c, cp.def? d = some c → c.isInterface = true → arrayImplements d = true →
    ¬ cp.Arrayed d

/-- What is right above a class, from its definition. -/
def risesOf (c : ClassDef) : List String :=
  c.interfaces.map Ty.descriptor ++ c.superclass?.toList.flatMap fun s =>
    s.descriptor :: match TypeNode.ofTy s with
      | .ok (.array _ elem) => [elem, objectClass]
      | _ => []

/-- What is right above a class is listed in its definition. -/
theorem Rises.mem (h : cp.Rises d e) : ∃ c, (d, c) ∈ cp.defs ∧ e ∈ risesOf c := by
  cases h with
  | superclass hd hs => exact ⟨_, mem_of_def? hd, by simp [risesOf, hs]⟩
  | interface hd ht =>
    exact ⟨_, mem_of_def? hd, List.mem_append_left _ (List.mem_map_of_mem ht)⟩
  | element hd hs harray => exact ⟨_, mem_of_def? hd, by simp [risesOf, hs, harray]⟩
  | root hd hs harray => exact ⟨_, mem_of_def? hd, by simp [risesOf, hs, harray]⟩

/-- The rank of a class by some layers of classes, the lowest first: how many layers there are from
its own on. -/
def layerRank : List (List String) → String → Nat
  | [], _ => 0
  | layer :: above, d => if d ∈ layer then above.length + 1 else layerRank above d

/-- No class is above itself if what is above a class has a lower rank. -/
theorem acyclic_of_rank (rank : String → Nat)
    (hrank : ∀ x ∈ cp.defs, ∀ e ∈ risesOf x.2, rank e < rank x.1) (d : String) :
    ¬ TransGen cp.Rises d d := by
  have hlt : ∀ {d e}, TransGen cp.Rises d e → rank e < rank d := by
    intro d e h
    induction h with
    | single h =>
      obtain ⟨c, hc, he⟩ := h.mem
      exact hrank _ hc _ he
    | tail _ h ih =>
      obtain ⟨c, hc, he⟩ := h.mem
      exact Nat.lt_trans (hrank _ hc _ he) ih
  exact fun h => Nat.lt_irrefl _ (hlt h)

/-- A class path is founded if what is above a class has a lower rank, and nothing is above the
interfaces of arrays. -/
theorem founded_of_rank (rank : String → Nat)
    (hrank : ∀ x ∈ cp.defs, ∀ e ∈ risesOf x.2, rank e < rank x.1)
    (harrays : ∀ x ∈ cp.defs, arrayImplements x.1 = true → risesOf x.2 = []) : cp.Founded where
  acyclic := acyclic_of_rank rank hrank
  arrays := by
    intro d c _ _ harray
    have hnone : ∀ e, ¬ cp.Rises d e := by
      intro e h
      obtain ⟨c, hc, he⟩ := h.mem
      rw [harrays _ hc harray] at he
      cases he
    rintro ⟨e, c, s, dims, elem, hreach, hd, hs, _⟩
    rcases ReflTransGen.cases_head hreach with rfl | ⟨x, hstep, _⟩
    · exact hnone _ (.superclass hd hs)
    · exact hnone _ hstep

open Classical in
/-- The number of defined classes from a class on upwards. -/
noncomputable def height (cp : ClassPath) (d : String) : Nat :=
  ((cp.defs.map Prod.fst).toFinset.filter (ReflTransGen cp.Rises d)).card

theorem height_le (cp : ClassPath) (d : String) : cp.height d ≤ cp.defs.length := by
  classical
  calc cp.height d ≤ (cp.defs.map Prod.fst).toFinset.card := Finset.card_filter_le _ _
    _ ≤ (cp.defs.map Prod.fst).length := List.toFinset_card_le _
    _ = cp.defs.length := List.length_map _

theorem Rises.defined (h : cp.Rises d e) : ∃ c, cp.def? d = some c := by
  cases h with
  | superclass hd _ => exact ⟨_, hd⟩
  | interface hd _ => exact ⟨_, hd⟩
  | element hd _ _ => exact ⟨_, hd⟩
  | root hd _ _ => exact ⟨_, hd⟩

/-- What is above a class is lower, in a founded class path. -/
theorem height_lt (hcp : cp.Founded) (h : TransGen cp.Rises d e) : cp.height e < cp.height d := by
  classical
  refine Finset.card_lt_card ⟨fun x hx => ?_, fun hsub => ?_⟩
  · rw [Finset.mem_filter] at hx ⊢
    exact ⟨hx.1, h.to_reflTransGen.trans hx.2⟩
  · obtain ⟨x, hstep, _⟩ := TransGen.head'_iff.1 h
    obtain ⟨c, hc⟩ := hstep.defined
    have hmem : d ∈ (cp.defs.map Prod.fst).toFinset.filter (ReflTransGen cp.Rises d) :=
      Finset.mem_filter.2 ⟨List.mem_toFinset.2 (mem_defs_of_def? hc), .refl⟩
    have hback := (Finset.mem_filter.1 (hsub hmem)).2
    exact hcp.acyclic d (h.trans_left hback)

/-- An array above a class is above what is below the class. -/
theorem Arrayed.of_reaches (h : cp.Arrayed e) (hr : ReflTransGen cp.Rises d e) : cp.Arrayed d := by
  obtain ⟨x, c, s, dims, elem, hx, hrest⟩ := h
  exact ⟨x, c, s, dims, elem, hr.trans hx, hrest⟩

/-- A class rises to all it implements. -/
theorem Impl.rises (h : cp.Impl d e) : ReflTransGen cp.Rises d e := by
  induction h with
  | declared hd ht => exact .single (.interface hd ht)
  | above hstep _ ih =>
    obtain ⟨c, t, hd, ht | ht, hname⟩ := hstep
    · cases eq_descriptor_of_ofTy hname
      exact .head (.superclass hd ht) ih
    · cases eq_descriptor_of_ofTy hname
      exact .head (.interface hd ht) ih
  | self => exact .refl

/-! ## Superclass chains -/

/-- A node above a class. -/
inductive Above (cp : ClassPath) (a : String) : TypeNode → Prop where
  | cls {e : String} (h : TransGen cp.Rises a e) : Above cp a (.cls e)
  | primitive {e : String} (h : TransGen cp.Rises a e) : Above cp a (.primitive e)
  | array {dims : Nat} {elem : String} (h : TransGen cp.Rises a elem) (harrayed : cp.Arrayed a)
    (hdims : dims ≤ cp.depth) : Above cp a (.array dims elem)
  | unknown : Above cp a .unknown

theorem Above.of_rises (h : cp.Above e n) (hr : ReflTransGen cp.Rises d e) : cp.Above d n := by
  cases h with
  | cls h => exact .cls (.trans_right hr h)
  | primitive h => exact .primitive (.trans_right hr h)
  | array h harrayed hdims => exact .array (.trans_right hr h) (harrayed.of_reaches hr) hdims
  | unknown => exact .unknown

/-- No declared superclass has more dimensions than the class path is deep. -/
theorem dims_le_depth {s : Ty} (hd : cp.def? d = some c) (hs : c.superclass? = some s) :
    s.dims ≤ cp.depth := by
  have hfold : ∀ defs : List (String × ClassDef), (d, c) ∈ defs →
      s.dims ≤ defs.foldr (fun d n => max ((d.2.superclass?.map Ty.dims).getD 0) n) 0 := by
    intro defs hmem
    induction defs with
    | nil => cases hmem
    | cons x defs ih =>
      rw [List.foldr_cons]
      rcases List.mem_cons.1 hmem with rfl | hmem
      · simp only [hs, Option.map_some, Option.getD_some]
        exact Nat.le_max_left _ _
      · exact Nat.le_trans (ih hmem) (Nat.le_max_right _ _)
  exact hfold cp.defs (mem_of_def? hd)

/-- What a walk up meets, from the node it starts at. -/
def Onward (cp : ClassPath) : TypeNode → TypeNode → Prop
  | .cls d, k => k = .cls d ∨ cp.Above d k
  | .array dims elem, k => k = .array dims elem ∨ k = .cls objectClass ∨ cp.Above objectClass k
  | n, k => k = n

theorem onward_self (cp : ClassPath) (n : TypeNode) : cp.Onward n n := by
  cases n with
  | cls d => exact .inl rfl
  | array dims elem => exact .inl rfl
  | primitive d => rfl
  | unknown => rfl

/-- What is met from the next node on is above a class. -/
theorem above_of_onward {n k : TypeNode} (hparent : cp.parent? (.cls d) = .ok (some n))
    (h : cp.Onward n k) : cp.Above d k := by
  cases parent?_eq_some_iff.1 hparent with
  | missing hd =>
    cases h
    exact .unknown
  | @declared _ c s _ hd hs hn =>
    have hrises : cp.Rises d s.descriptor := .superclass hd hs
    rw [← TypeNode.descriptor_of_ofDescriptor hn] at hrises
    cases n with
    | cls e =>
      rcases h with rfl | h
      · exact .cls (.single hrises)
      · exact h.of_rises (.single hrises)
    | array dims elem =>
      have hdims : dims ≤ cp.depth := by
        rw [dims_of_ofTy hn]
        exact dims_le_depth hd hs
      rcases h with rfl | rfl | h
      · exact .array (.single (.element hd hs hn)) ⟨d, c, s, dims, elem, .refl, hd, hs, hn⟩ hdims
      · exact .cls (.single (.root hd hs hn))
      · exact h.of_rises (.single (.root hd hs hn))
    | primitive e =>
      cases h
      exact .primitive (.single hrises)
    | unknown =>
      cases h
      exact .unknown

/-- A walk up meets what is above the node it starts from. -/
theorem onward_walkUp {origin : String} {met : List String} {chain : List TypeNode}
    (h : cp.walkUp origin met n = .ok chain) : ∀ k ∈ chain, cp.Onward n k := by
  fun_induction walkUp cp origin met n generalizing chain with
  | case1 => cases h
  | case2 => cases h
  | case3 met n hmet hparent =>
    cases h
    intro k hk
    rw [List.mem_singleton.1 hk]
    exact cp.onward_self n
  | case4 => cases h
  | case5 met n hmet parent hparent chain' hchain ih =>
    cases h
    intro k hk
    rcases List.mem_cons.1 hk with rfl | hk
    · exact cp.onward_self k
    have honward := ih hchain k hk
    cases n with
    | cls d => exact .inr (above_of_onward hparent honward)
    | array dims elem =>
      cases hparent
      exact .inr honward
    | primitive d => cases hparent
    | unknown => cases hparent

theorem onward_chainDown {down : List TypeNode} (h : cp.chainDown n = .ok (some down)) :
    ∀ k ∈ down, cp.Onward n k := by
  unfold chainDown at h
  split at h
  · next above habove =>
    cases h
    obtain ⟨chain, hchain, htail⟩ := except_map_ok.1 habove
    intro k hk
    rcases List.mem_cons.1 (List.mem_reverse.1 hk) with rfl | hk
    · exact cp.onward_self k
    · exact onward_walkUp hchain k (List.mem_of_mem_tail (htail ▸ hk))
  · cases h
  · cases h

/-- Where the chains of two classes meet is above the first class, or the class itself. -/
theorem above_of_chainJoin (h : cp.chainJoin a b = .ok n) : n = .cls a ∨ cp.Above a n := by
  unfold chainJoin at h
  obtain ⟨down, hdown, h⟩ := except_bind_ok.1 h
  obtain ⟨down', _, h⟩ := except_bind_ok.1 h
  cases down with
  | none =>
    cases h
    exact .inr .unknown
  | some as =>
    cases down' with
    | none =>
      cases h
      exact .inr .unknown
    | some bs =>
      cases h
      cases hlast : lastCommon? as bs with
      | none => exact .inr .unknown
      | some k => exact onward_chainDown hdown k (mem_of_lastCommon? hlast).1

/-! ## Joins of classes -/

/-- An interface that is said to be one of a class is implemented by it. -/
theorem impl_of_isInterfaceOf (h : cp.isInterfaceOf e d m = .ok true m')
    (hm : cp.Asked .empty m) : cp.Impl d e := by
  have himpl : ∀ {m'}, cp.classImplements d e m = .ok true m' → cp.Impl d e := by
    intro m' h
    have := (cp.yields_classImplements d e).answer (settles_of_asked hm)
    rwa [Asking.answer_ok h] at this
  unfold isInterfaceOf at h
  cases hdef : cp.def? e with
  | some c =>
    simp only [hdef] at h
    split at h
    · exact himpl h
    · cases h
  | none =>
    simp only [hdef] at h
    obtain ⟨answer, m₁, hattempt, h⟩ := bind_ok.1 h
    obtain ⟨answer, rfl, hanswer⟩ | ⟨e, rfl, _⟩ := Asking.attempt_ok hattempt
    · cases h
      exact himpl hanswer
    · simp only at h
      split at h <;> cases h

/-- The join of two classes is the first one, the root class or above the first one. -/
theorem above_of_classJoin (h : cp.classJoin a b m = .ok n m') (hm : cp.Asked .empty m) :
    n = .cls a ∨ a ≠ objectClass ∧ (n = .cls objectClass ∨ cp.Above a n) := by
  by_cases ha : a = objectClass
  · rw [classJoin, if_pos (.inr ha)] at h
    cases h
    exact .inl rfl
  obtain ⟨rfl, _⟩ | ⟨rfl, rfl⟩ | ⟨rfl, _⟩ | ⟨rfl, m₁, m₂, hm₁, hi⟩ | rfl | hchain := classJoin_ok h
  · exact .inl rfl
  · exact .inr ⟨ha, .inl rfl⟩
  · exact .inl rfl
  · rcases ReflTransGen.cases_head (impl_of_isInterfaceOf hi (hm.trans hm₁)).rises with
      rfl | ⟨x, hstep, hrest⟩
    · exact .inl rfl
    · exact .inr ⟨ha, .inr (.cls (.head' hstep hrest))⟩
  · exact .inr ⟨ha, .inr .unknown⟩
  · exact (above_of_chainJoin hchain).imp_right fun h => ⟨ha, .inr h⟩

/-! ## How nodes climb -/

/-- How far the element of an array is from the root class. -/
noncomputable def elementRank (cp : ClassPath) (e : String) : Nat :=
  if e = objectClass then 0 else if e = unknownClass then 1 else cp.height e + 2

/-- The dimensions that the elements of arrays can bring in. -/
def growth (cp : ClassPath) : Nat := cp.depth * (cp.defs.length + 2)

theorem elementRank_object (cp : ClassPath) : cp.elementRank objectClass = 0 := if_pos rfl

theorem elementRank_unknown (cp : ClassPath) : cp.elementRank unknownClass = 1 := by
  rw [elementRank, if_neg (by decide), if_pos rfl]

theorem elementRank_pos (h : e ≠ objectClass) : 0 < cp.elementRank e := by
  rw [elementRank, if_neg h]
  split <;> omega

theorem elementRank_of_ne (h : e ≠ objectClass) (h' : e ≠ unknownClass) :
    cp.elementRank e = cp.height e + 2 := by
  rw [elementRank, if_neg h, if_neg h']

theorem elementRank_le_height (cp : ClassPath) (e : String) :
    cp.elementRank e ≤ cp.height e + 2 := by
  unfold elementRank
  split
  · omega
  · split <;> omega

/-- The way to the root class is no longer than there are definitions. -/
theorem elementRank_le (cp : ClassPath) (e : String) :
    cp.elementRank e ≤ cp.defs.length + 2 :=
  Nat.le_trans (cp.elementRank_le_height e) (Nat.add_le_add_right (cp.height_le e) 2)

/-- The elements above an element are closer to the root class. -/
theorem elementRank_lt (hcp : cp.Founded) (ha : a ≠ objectClass) (ha' : a ≠ unknownClass)
    (h : TransGen cp.Rises a e) : cp.elementRank e < cp.elementRank a := by
  have := height_lt hcp h
  have := cp.elementRank_le_height e
  rw [elementRank_of_ne ha ha']
  omega

/-- The ways in which a join can change a node. -/
inductive Climbs (cp : ClassPath) : TypeNode → TypeNode → Prop where
  | object {n : TypeNode} (hn : n ≠ .cls objectClass) : Climbs cp n (.cls objectClass)
  | above {a : String} {n : TypeNode} (ha : a ≠ objectClass) (h : cp.Above a n) :
    Climbs cp (.cls a) n
  | interface {dims : Nat} {elem d : String} {c : ClassDef} (hd : cp.def? d = some c)
    (hc : c.isInterface = true) (harray : arrayImplements d = true) :
    Climbs cp (.array dims elem) (.cls d)
  /-- The element climbs, and the dimensions may grow. -/
  | element {dims k : Nat} {elem e : String} (hk : k ≤ cp.depth)
    (he : cp.elementRank e < cp.elementRank elem) :
    Climbs cp (.array dims elem) (.array (dims + k) e)
  | objects {dims k : Nat} (hk : k < dims) :
    Climbs cp (.array dims objectClass) (.array k objectClass)
  | fewer {dims k : Nat} {elem : String} (hk : k ≤ dims) (helem : elem ≠ objectClass) :
    Climbs cp (.array dims elem) (.array k objectClass)

/-- How the array over an element changes when the element is joined. -/
theorem climbs_of_plainJoin (hcp : cp.Founded) {x y : TypeNode} {dims : Nat} {elem : String}
    (hx : TypeNode.ofDescriptor elem = .ok x) (h : cp.plainJoin x y m = .ok n m')
    (hm : cp.Asked .empty m) :
    TypeNode.arrayOf dims n = .array dims elem ∨
      cp.Climbs (.array dims elem) (TypeNode.arrayOf dims n) := by
  have hdescriptor := TypeNode.descriptor_of_ofDescriptor hx
  -- most joins keep the dimensions
  have climb {e : String} (he : cp.elementRank e < cp.elementRank elem) :
      cp.Climbs (.array dims elem) (.array dims e) := .element (Nat.zero_le _) he
  have hobject (helem : elem ≠ objectClass) :
      cp.Climbs (.array dims elem) (.array dims objectClass) :=
    climb (cp.elementRank_object ▸ elementRank_pos helem)
  cases x with
  | primitive d => cases h
  | unknown =>
    cases hdescriptor
    cases h
    split
    · next hy =>
      rw [hy]
      exact .inr (hobject (by decide))
    · exact .inl rfl
  | array k e =>
    cases h
    refine .inr (hobject ?_)
    rintro rfl
    cases hx
  | cls a =>
    cases hdescriptor
    have hne : a ≠ unknownClass := by
      rintro rfl
      cases hx
    have hunknown (ha : a ≠ objectClass) :
        cp.Climbs (.array dims a) (.array dims unknownClass) := by
      have hlt : cp.elementRank unknownClass < cp.elementRank a := by
        rw [elementRank_unknown, elementRank_of_ne ha hne]
        omega
      exact climb hlt
    cases y with
    | primitive d => cases h
    | unknown =>
      cases h
      split
      · next ha =>
        rw [ha]
        exact .inl rfl
      · next ha => exact .inr (hunknown ha)
    | array k e =>
      cases h
      by_cases ha : a = objectClass
      · rw [ha]
        exact .inl rfl
      · exact .inr (hobject ha)
    | cls b =>
      obtain rfl | ⟨ha, rfl | habove⟩ := above_of_classJoin h hm
      · exact .inl rfl
      · exact .inr (hobject ha)
      · refine .inr ?_
        cases habove with
        | cls hrises => exact climb (elementRank_lt hcp ha hne hrises)
        | primitive hrises => exact climb (elementRank_lt hcp ha hne hrises)
        | array hrises _ hdims => exact .element hdims (elementRank_lt hcp ha hne hrises)
        | unknown => exact hunknown ha

/-- The join of two arrays is the first one or above it. -/
theorem climbs_of_arrayJoin (hcp : cp.Founded) {dims dims' : Nat} {elem elem' : String}
    (h : cp.arrayJoin dims elem dims' elem' m = .ok n m') (hm : cp.Asked .empty m) :
    n = .array dims elem ∨ cp.Climbs (.array dims elem) n := by
  unfold arrayJoin at h
  split at h
  · cases h
    split
    · exact .inl rfl
    · exact .inr (.object nofun)
  split at h
  · obtain ⟨x, m₁, hlift, h⟩ := bind_ok.1 h
    obtain ⟨y, m₂, hlift', h⟩ := bind_ok.1 h
    obtain ⟨k, m₃, hk, h⟩ := bind_ok.1 h
    cases h
    obtain ⟨hx, rfl⟩ := Asking.lift_ok.1 hlift
    obtain ⟨_, rfl⟩ := Asking.lift_ok.1 hlift'
    exact climbs_of_plainJoin hcp hx hk hm
  · next hdims =>
    cases h
    have hle := Nat.min_le_left dims dims'
    by_cases helem : elem = objectClass
    · rw [helem]
      rcases Nat.lt_or_eq_of_le hle with hlt | heq
      · exact .inr (.objects hlt)
      · exact .inl (by rw [heq])
    · exact .inr (.fewer hle helem)

/-- The join of an array with a class is above the array. -/
theorem climbs_of_arrayClassJoin {dims : Nat} {elem : String} :
    cp.Climbs (.array dims elem) (cp.arrayClassJoin d) := by
  unfold arrayClassJoin
  split
  · next c hd =>
    split
    · next hi =>
      rw [Bool.and_eq_true] at hi
      exact .interface hd hi.1 hi.2
    · exact .object nofun
  · exact .object nofun

/-- A join keeps a node or takes it up. -/
theorem climbs_of_commonSuperclass (hcp : cp.Founded) {x y : TypeNode}
    (h : cp.commonSuperclass x y m = .ok n m') (hm : cp.Asked .empty m) :
    n = x ∨ cp.Climbs x n := by
  have hobject (x : TypeNode) : TypeNode.cls objectClass = x ∨ cp.Climbs x (.cls objectClass) := by
    by_cases hx : x = .cls objectClass
    · exact .inl hx.symm
    · exact .inr (.object hx)
  have unknown {y : TypeNode} :
      (if y = .cls objectClass then y else .unknown) = TypeNode.unknown ∨
        cp.Climbs .unknown (if y = .cls objectClass then y else .unknown) := by
    split
    · next hy =>
      rw [hy]
      exact hobject _
    · exact .inl rfl
  cases x with
  | primitive d => cases h
  | unknown =>
    cases y with
    | array dims elem =>
      cases h
      exact hobject _
    | primitive d =>
      cases h
      exact unknown
    | unknown =>
      cases h
      exact unknown
    | cls b =>
      cases h
      exact unknown
  | array dims elem =>
    cases y with
    | primitive d => cases h
    | unknown =>
      cases h
      exact hobject _
    | array dims' elem' => exact climbs_of_arrayJoin hcp h hm
    | cls b =>
      cases h
      exact .inr climbs_of_arrayClassJoin
  | cls a =>
    cases y with
    | array dims elem =>
      cases h
      unfold arrayClassJoin
      split
      · split
        · exact .inl rfl
        · exact hobject _
      · exact hobject _
    | primitive d => cases h
    | unknown =>
      cases h
      split
      · exact .inl rfl
      · next ha => exact .inr (.above ha .unknown)
    | cls b =>
      obtain rfl | ⟨ha, rfl | habove⟩ := above_of_classJoin h hm
      · exact .inl rfl
      · exact hobject _
      · exact .inr (.above ha habove)

/-! ## Keys of nodes -/

/-- The order of keys, which are compared from the left. -/
def Lower : Nat × Nat × Nat → Nat × Nat × Nat → Prop :=
  Prod.Lex (· < ·) (Prod.Lex (· < ·) (· < ·))

/-- Keys do not go down without end. -/
theorem wellFounded_lower : WellFounded Lower :=
  (Prod.lex Nat.lt_wfRel (Prod.lex Nat.lt_wfRel Nat.lt_wfRel)).wf

open Classical in
/-- Where a node stands.  At the top are the root class and what no array is above.  Below are the
arrays, by their elements, and arrays of the root class by their dimensions.  At the bottom are the
classes below arrays. -/
noncomputable def nodeKey (cp : ClassPath) : TypeNode → Nat × Nat × Nat
  | .cls d =>
    if d = objectClass then (1, 0, 0)
    else if cp.Arrayed d then (3, cp.height d, 0) else (1, cp.height d + 2, 0)
  | .primitive d => (1, cp.height d + 2, 0)
  | .unknown => (1, 1, 0)
  | .array dims elem => (2, cp.elementRank elem, if elem = objectClass then dims else 0)

theorem nodeKey_object (cp : ClassPath) : cp.nodeKey (.cls objectClass) = (1, 0, 0) := by
  rw [nodeKey, if_pos rfl]

/-- A class below an array comes after all arrays. -/
theorem nodeKey_arrayed (hd : d ≠ objectClass) (h : cp.Arrayed d) :
    cp.nodeKey (.cls d) = (3, cp.height d, 0) := by
  rw [nodeKey, if_neg hd, if_pos h]

/-- Any other class comes before them. -/
theorem nodeKey_plain (hd : d ≠ objectClass) (h : ¬ cp.Arrayed d) :
    cp.nodeKey (.cls d) = (1, cp.height d + 2, 0) := by
  rw [nodeKey, if_neg hd, if_neg h]

/-- The root class has the lowest key of all classes. -/
theorem lower_object (hn : n ≠ .cls objectClass) :
    Lower (cp.nodeKey (.cls objectClass)) (cp.nodeKey n) := by
  rw [nodeKey_object]
  cases n with
  | cls d =>
    have hd : d ≠ objectClass := fun h => hn (h ▸ rfl)
    by_cases harrayed : cp.Arrayed d
    · rw [nodeKey_arrayed hd harrayed]
      exact .left _ _ (by omega)
    · rw [nodeKey_plain hd harrayed]
      exact .right _ (.left _ _ (by omega))
  | primitive d => exact .right _ (.left _ _ (by omega))
  | unknown => exact .right _ (.left _ _ (by omega))
  | array dims elem => exact .left _ _ (by omega)

/-- What is above a class has a lower key. -/
theorem lower_above (hcp : cp.Founded) (ha : a ≠ objectClass) (h : cp.Above a n) :
    Lower (cp.nodeKey n) (cp.nodeKey (.cls a)) := by
  by_cases harrayed : cp.Arrayed a
  · rw [nodeKey_arrayed ha harrayed]
    cases h with
    | cls hrises =>
      next e =>
      by_cases he : e = objectClass
      · rw [he, nodeKey_object]
        exact .left _ _ (by omega)
      by_cases harrayed' : cp.Arrayed e
      · rw [nodeKey_arrayed he harrayed']
        exact .right _ (.left _ _ (height_lt hcp hrises))
      · rw [nodeKey_plain he harrayed']
        exact .left _ _ (by omega)
    | primitive _ => exact .left _ _ (by omega)
    | array _ _ _ => exact .left _ _ (by omega)
    | unknown => exact .left _ _ (by omega)
  · rw [nodeKey_plain ha harrayed]
    cases h with
    | cls hrises =>
      next e =>
      by_cases he : e = objectClass
      · rw [he, nodeKey_object]
        exact .right _ (.left _ _ (by omega))
      have harrayed' : ¬ cp.Arrayed e := fun h => harrayed (h.of_reaches hrises.to_reflTransGen)
      rw [nodeKey_plain he harrayed']
      exact .right _ (.left _ _ (Nat.add_lt_add_right (height_lt hcp hrises) 2))
    | primitive hrises =>
      exact .right _ (.left _ _ (Nat.add_lt_add_right (height_lt hcp hrises) 2))
    | array _ h _ => exact absurd h harrayed
    | unknown => exact .right _ (.left _ _ (by omega))

/-- A node that climbs has a lower key. -/
theorem Climbs.lower {x : TypeNode} (hcp : cp.Founded) (h : cp.Climbs x n) :
    Lower (cp.nodeKey n) (cp.nodeKey x) := by
  cases h with
  | object hn => exact lower_object hn
  | above ha h => exact lower_above hcp ha h
  | interface hd hc harray =>
    next d c =>
    have hne : d ≠ objectClass := by
      rintro rfl
      exact absurd harray (by decide)
    rw [nodeKey_plain hne (hcp.arrays d c hd hc harray)]
    exact .left _ _ (by omega)
  | element _ he => exact .right _ (.left _ _ he)
  | objects hk =>
    simp only [nodeKey, if_true]
    exact .right _ (.right _ hk)
  | fewer _ helem =>
    exact .right _ (.left _ _ (cp.elementRank_object ▸ elementRank_pos helem))

end ClassPath

/-! ## Keys of register types -/

/-- How often a narrow type can still be joined to a wider one. -/
def Narrow.rank : Narrow → Nat
  | .null => 9
  | .one => 8
  | .boolean => 7
  | .posByte => 6
  | .byte => 5
  | .posShort => 4
  | .short | .char => 3
  | .float => 2
  | .integer => 1

/-- A narrow type that changes in a join has fewer joins before it. -/
theorem Narrow.rank_join_lt {x y : Narrow} (h : x.join y ≠ x) : (x.join y).rank < x.rank := by
  cases x <;> cases y <;> first | exact absurd rfl h | decide

theorem Narrow.rank_le (n : Narrow) : n.rank ≤ 9 := by
  cases n <;> decide

/-- The same for the halves of wide types. -/
def WideHalf.rank : WideHalf → Nat
  | .longLo | .longHi => 0
  | .doubleLo | .doubleHi => 1

/-- So does a half of a wide type. -/
theorem WideHalf.rank_join_lt {x y z : WideHalf} (hz : x.join? y = some z) (h : z ≠ x) :
    z.rank < x.rank := by
  cases x <;> cases y <;> cases hz <;> first | exact absurd rfl h | decide

theorem WideHalf.rank_le (h : WideHalf) : h.rank ≤ 1 := by
  cases h <;> decide

namespace RegType

variable {cp : ClassPath} {t u v : RegType} {m m' : Memo} {bound : Nat}

open ClassPath (Lower)

/-- Where a register type stands. -/
noncomputable def key (cp : ClassPath) : RegType → Nat × Nat × Nat
  | .unknown => (5, 0, 0)
  | .uninit | .uninitRef _ _ | .uninitThis _ => (4, 0, 0)
  | .narrow n => (4, n.rank, 0)
  | .half h => (4, h.rank, 0)
  | .reference n => cp.nodeKey n
  | .conflicted => (0, 0, 0)

/-- A type stands higher than another. -/
def Over (cp : ClassPath) (t u : RegType) : Prop := Lower (t.key cp) (u.key cp)

/-- No type can climb for ever. -/
theorem wellFounded_over (cp : ClassPath) : WellFounded (Over cp) :=
  InvImage.wf (key cp) ClassPath.wellFounded_lower

theorem Over.trans (h₁ : v.Over cp u) (h₂ : u.Over cp t) : v.Over cp t := Prod.Lex.trans h₁ h₂

/-- A type does not stand higher than itself. -/
theorem Over.ne (h : u.Over cp t) : u ≠ t := by
  rintro rfl
  simp [Over, ClassPath.Lower, Prod.lex_def] at h

/-- References lie between numbers and conflicts. -/
theorem zone_node (cp : ClassPath) (n : TypeNode) :
    1 ≤ (cp.nodeKey n).1 ∧ (cp.nodeKey n).1 ≤ 3 := by
  cases n with
  | cls d =>
    simp only [ClassPath.nodeKey]
    split
    · simp
    · split <;> simp
  | _ => simp [ClassPath.nodeKey]

/-- Only the unknown type lies in the first zone. -/
theorem zone_lt_of_ne_unknown (h : t ≠ .unknown) : (t.key cp).1 < 5 := by
  cases t with
  | unknown => exact absurd rfl h
  | reference n => exact Nat.lt_of_le_of_lt (zone_node cp n).2 (by omega)
  | _ => simp [key]

/-- Only the conflicting type lies in the last zone. -/
theorem zone_pos_of_ne_conflicted (h : t ≠ .conflicted) : 0 < (t.key cp).1 := by
  cases t with
  | conflicted => exact absurd rfl h
  | reference n => exact (zone_node cp n).1
  | _ => simp [key]

/-- A join that changes a type takes it up. -/
theorem over_of_join (hcp : cp.Founded) (h : t.join cp u m = .ok v m') (hm : cp.Asked .empty m)
    (hne : v ≠ t) : v.Over cp t := by
  cases joined_of_join h with
  | same => exact absurd rfl hne
  | unknown_left => exact .left _ _ (zone_lt_of_ne_unknown hne)
  | unknown_right => exact absurd rfl hne
  | narrow x y =>
    refine .right _ (.left _ _ (Narrow.rank_join_lt fun h => hne ?_))
    rw [h]
  | half hz =>
    refine .right _ (.left _ _ (WideHalf.rank_join_lt hz fun h => hne ?_))
    rw [h]
  | null_left n => exact .left _ _ (Nat.lt_of_le_of_lt (zone_node cp n).2 (by omega))
  | null_right => exact absurd rfl hne
  | references hn =>
    rcases ClassPath.climbs_of_commonSuperclass hcp hn hm with rfl | hclimbs
    · exact absurd rfl hne
    · exact hclimbs.lower hcp
  | receivers => exact absurd rfl hne
  | conflict => exact .left _ _ (zone_pos_of_ne_conflicted hne.symm)

/-! ## Weights -/

/-- A bound on the dimensions of arrays, with those that their elements can still bring in. -/
def Within (cp : ClassPath) (bound : Nat) : RegType → Prop
  | .reference (.array dims elem) => dims + cp.depth * cp.elementRank elem ≤ bound
  | _ => True

/-- A bound on the dimensions that are there, and on those that may come, is a bound. -/
theorem within_of_dims {depth : Nat} (h : t.dims ≤ depth) :
    t.Within cp (depth + cp.growth) := by
  cases t with
  | reference n =>
    cases n with
    | array dims elem =>
      have hdims : dims ≤ depth := h
      have := Nat.mul_le_mul_left cp.depth (cp.elementRank_le elem)
      simp only [Within, ClassPath.growth]
      omega
    | _ => trivial
  | _ => trivial

/-- What climbs in a join stays within a bound. -/
theorem within_of_climbs {x n : TypeNode} (hcp : cp.Founded) (hbound : cp.growth ≤ bound)
    (hx : Within cp bound (.reference x)) (h : cp.Climbs x n) : Within cp bound (.reference n) := by
  cases h with
  | object _ => trivial
  | above ha h =>
    cases h with
    | @array dims elem hrises _ hdims =>
      have hrank := Nat.mul_le_mul_left cp.depth (cp.elementRank_le_height elem)
      have hheight := Nat.mul_le_mul_left cp.depth
        (Nat.lt_of_lt_of_le (ClassPath.height_lt hcp hrises) (cp.height_le _))
      simp only [Within, ClassPath.growth] at hbound ⊢
      simp only [Nat.mul_add, Nat.succ_eq_add_one] at hrank hheight hbound
      omega
    | _ => trivial
  | interface => trivial
  | @element dims k elem e hk he =>
    have := Nat.mul_le_mul_left cp.depth he
    simp only [Within] at hx ⊢
    rw [Nat.mul_succ] at this
    omega
  | objects hk =>
    simp only [Within, ClassPath.elementRank_object] at hx ⊢
    omega
  | fewer hk _ =>
    simp only [Within, ClassPath.elementRank_object] at hx ⊢
    omega

/-- Joins stay within a bound. -/
theorem within_of_join (hcp : cp.Founded) (hbound : cp.growth ≤ bound) (ht : t.Within cp bound)
    (hu : u.Within cp bound) (h : t.join cp u m = .ok v m') (hm : cp.Asked .empty m) :
    v.Within cp bound := by
  cases joined_of_join h with
  | same => exact ht
  | unknown_left => exact hu
  | unknown_right => exact ht
  | narrow => trivial
  | half => trivial
  | null_left => exact hu
  | null_right => exact ht
  | references hn =>
    rcases ClassPath.climbs_of_commonSuperclass hcp hn hm with rfl | hclimbs
    · exact ht
    · exact within_of_climbs hcp hbound ht hclimbs
  | receivers => exact ht
  | conflict => trivial

/-- The worth of the keys in the zones below one, among the types of `size` classes. -/
def zoneFloor (size bound : Nat) : Nat → Nat
  | 0 => 0
  | 1 => 1
  | 2 => size + 4
  | 3 => 2 * size + bound + 7
  | 4 => 3 * size + bound + 8
  | 5 => 3 * size + bound + 18
  | _ => 3 * size + bound + 19

/-- The worth of a key inside of its zone. -/
def zoneWorth (bound zone place dims : Nat) : Nat :=
  if zone = 2 then (if place = 0 then dims else bound + place) else place

theorem zoneWorth_le (zone place : Nat) {dims : Nat} (h : dims ≤ bound) :
    zoneWorth bound zone place dims ≤ bound + place := by
  unfold zoneWorth
  split
  · split <;> omega
  · omega

/-- A lower place is worth less, no matter how many dimensions it has. -/
theorem zoneWorth_lt {zone place place' dims dims' : Nat} (hdims : dims ≤ bound)
    (h : place < place') :
    zoneWorth bound zone place dims < zoneWorth bound zone place' dims' := by
  unfold zoneWorth
  split
  · rw [if_neg (Nat.ne_of_gt (Nat.zero_lt_of_lt h))]
    split <;> omega
  · exact h

/-- How often a type can still change. -/
noncomputable def weight (cp : ClassPath) (bound : Nat) (t : RegType) : Nat :=
  zoneFloor cp.defs.length bound (t.key cp).1 +
    zoneWorth bound (t.key cp).1 (t.key cp).2.1 (t.key cp).2.2

theorem zoneFloor_mono (size bound : Nat) {x y : Nat} (h : x ≤ y) :
    zoneFloor size bound x ≤ zoneFloor size bound y := by
  induction h with
  | refl => exact Nat.le_refl _
  | @step y _ ih =>
    refine Nat.le_trans ih ?_
    rcases y with _ | _ | _ | _ | _ | _ | y <;> simp only [zoneFloor] <;> omega

theorem key_objects (cp : ClassPath) (dims : Nat) :
    (reference (.array dims objectClass)).key cp = (2, 0, dims) := by
  rw [key, ClassPath.nodeKey, ClassPath.elementRank_object, if_pos rfl]

/-- Only arrays of the root class are told apart by their dimensions. -/
theorem dims_key (cp : ClassPath) (t : RegType) :
    (t.key cp).2.2 = 0 ∨ ∃ dims, t = .reference (.array dims objectClass) := by
  cases t with
  | reference n =>
    cases n with
    | cls d =>
      refine .inl ?_
      simp only [key, ClassPath.nodeKey]
      split
      · rfl
      · split <;> rfl
    | array dims elem =>
      by_cases helem : elem = objectClass
      · exact .inr ⟨dims, by rw [helem]⟩
      · exact .inl (if_neg helem)
    | _ => exact .inl rfl
  | _ => exact .inl rfl

/-- A bound on the dimensions of a type is one on those in its key. -/
theorem dims_key_le (h : t.Within cp bound) : (t.key cp).2.2 ≤ bound := by
  obtain hzero | ⟨dims, rfl⟩ := dims_key cp t
  · rw [hzero]
    exact Nat.zero_le _
  · rw [key_objects]
    exact Nat.le_trans (Nat.le_add_right _ _) h

/-- The weight of a type within the bound is in its zone. -/
theorem weight_lt_floor (h : t.Within cp bound) :
    t.weight cp bound < zoneFloor cp.defs.length bound ((t.key cp).1 + 1) := by
  have hdims := dims_key_le h
  unfold weight
  cases t with
  | narrow n =>
    have := n.rank_le
    simp only [key, zoneFloor, zoneWorth, Nat.reduceEqDiff, if_false]
    omega
  | half x =>
    have := x.rank_le
    simp only [key, zoneFloor, zoneWorth, Nat.reduceEqDiff, if_false]
    omega
  | reference n =>
    cases n with
    | unknown => simp [key, ClassPath.nodeKey, zoneFloor, zoneWorth]
    | primitive d =>
      have := cp.height_le d
      simp only [key, ClassPath.nodeKey, zoneFloor, zoneWorth, Nat.reduceEqDiff, if_false]
      omega
    | cls d =>
      have := cp.height_le d
      simp only [key, ClassPath.nodeKey]
      split
      · simp [zoneFloor, zoneWorth]
      · split <;> simp only [zoneFloor, zoneWorth, Nat.reduceEqDiff, if_false] <;> omega
    | array dims elem =>
      have hrank := cp.elementRank_le elem
      have hworth := zoneWorth_le 2 (cp.elementRank elem) hdims
      simp only [key, ClassPath.nodeKey, zoneFloor] at hworth ⊢
      omega
  | _ => simp [key, zoneFloor, zoneWorth]

/-- The weight of a type is bounded by the size of the class path. -/
theorem weight_le (h : t.Within cp bound) :
    t.weight cp bound ≤ 3 * cp.defs.length + bound + 18 := by
  have hfloor := weight_lt_floor h
  have : zoneFloor cp.defs.length bound ((t.key cp).1 + 1) ≤ 3 * cp.defs.length + bound + 19 := by
    unfold zoneFloor
    split <;> omega
  omega

/-- A type that stands higher weighs less. -/
theorem weight_lt_of_over (ht : t.Within cp bound) (h : t.Over cp u) :
    t.weight cp bound < u.weight cp bound := by
  rcases Prod.lex_def.1 h with hzone | ⟨hzone, hin⟩
  · calc t.weight cp bound < zoneFloor cp.defs.length bound ((t.key cp).1 + 1) := weight_lt_floor ht
      _ ≤ zoneFloor cp.defs.length bound (u.key cp).1 := zoneFloor_mono _ _ hzone
      _ ≤ u.weight cp bound := Nat.le_add_right _ _
  · unfold weight
    rw [hzone]
    refine Nat.add_lt_add_left ?_ _
    rcases Prod.lex_def.1 hin with hplace | ⟨hplace, hdims⟩
    · exact zoneWorth_lt (dims_key_le ht) hplace
    · obtain hzero | ⟨dims, rfl⟩ := dims_key cp u
      · omega
      · rw [key_objects] at hplace hdims ⊢
        rw [hplace]
        exact hdims

end RegType

end Dalvik
