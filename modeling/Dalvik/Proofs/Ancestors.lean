import Dalvik.Proofs.Symmetry

/-!
# Nearest common ancestors, and joins that cannot fail

The join of two classes that are no interfaces only looks at their superclass chains.  The way up
from a node ends at a node without a parent, or goes in a circle, or comes to a declared superclass
that is no type (`walkUp_error`).  If both ways end, the join is the first node of one chain that
lies on the other, and the unknown class if there is none (`commonSuperclass_nearest`).

A join asks for interfaces and superclasses that may be missing or declared in a circle.  If all
that is declared are classes, each such failure says that the answer is not known, and the join
falls back to the unknown class.  So it never fails, and its outcome can be joined again
(`RegType.join_succeeds`).
-/

namespace Dalvik

open Relation (ReflTransGen TransGen)

theorem TypeNode.IsClass.joinable {n : TypeNode} (h : n.IsClass) : n.Joinable := by
  cases n with
  | array dims elem => exact h.elim
  | _ => exact h

namespace ClassPath

variable {cp : ClassPath} {a b d : String} {n k : TypeNode}

/-! ## The way up -/

/-- A node is right above another. -/
def Parent (cp : ClassPath) (n k : TypeNode) : Prop := cp.parent? n = .ok (some k)

/-- A node has one parent at most. -/
theorem parent_rightUnique (cp : ClassPath) : Relator.RightUnique cp.Parent := by
  intro n k k' hk hk'
  cases hk.symm.trans hk'
  rfl

/-- No node from a node upwards is above itself. -/
def Acyclic (cp : ClassPath) (n : TypeNode) : Prop :=
  ∀ k, ReflTransGen cp.Parent n k → ¬ TransGen cp.Parent k k

/-- A superclass that is declared from a node upwards is no type. -/
def BrokenAt (cp : ClassPath) (n : TypeNode) (s : Ty) : Prop :=
  ∃ d c, ReflTransGen cp.Parent n (.cls d) ∧ cp.def? d = some c ∧ c.superclass? = some s ∧
    ∀ k, TypeNode.ofTy s ≠ .ok k

/-- What is broken above a node is broken above what is below it. -/
theorem BrokenAt.of_parent {s : Ty} (h : cp.BrokenAt k s) (hparent : cp.Parent n k) :
    cp.BrokenAt n s := by
  obtain ⟨d, c, hup, hs⟩ := h
  exact ⟨d, c, .head hparent hup, hs⟩

/-- A step up fails only if a declared superclass is no type. -/
theorem brokenAt_of_parent?_error {e : HierarchyError} (h : cp.parent? n = .error e) :
    ∃ s, e = .invalidType s.descriptor ∧ cp.BrokenAt n s := by
  obtain ⟨d, c, s, rfl, rfl, hs⟩ := noType_of_parent? h
  exact ⟨s, rfl, d, c, .refl, hs⟩

/-- The walk up fails if it comes back to a node, or to a superclass that is no type, and the
failure says which. -/
theorem walkUp_error {origin : String} {met : List String} {e : HierarchyError} (hn : n.Named)
    (hmet : ∀ s ∈ met, ∃ k, k.Named ∧ k.descriptor = s ∧ TransGen cp.Parent k n)
    (h : cp.walkUp origin met n = .error e) :
    e = .cycle ("superclass chain of " ++ origin) ∧ ¬ cp.Acyclic n ∨
      ∃ s, e = .invalidType s.descriptor ∧ cp.BrokenAt n s := by
  fun_induction walkUp cp origin met n with
  | case1 met n hmem =>
    cases h
    obtain ⟨k, hk, heq, hup⟩ := hmet _ hmem
    have hkn : k = n := eq_of_named hk hn heq
    exact .inl ⟨rfl, fun hacyclic => hacyclic n .refl (hkn ▸ hup)⟩
  | case2 met n _ e' herror =>
    cases h
    exact .inr (brokenAt_of_parent?_error herror)
  | case3 => cases h
  | case4 met n _ k hparent e' herror ih =>
    cases h
    have hmet' : ∀ s ∈ n.descriptor :: met,
        ∃ j, j.Named ∧ j.descriptor = s ∧ TransGen cp.Parent j k := by
      refine List.forall_mem_cons.2 ⟨⟨n, hn, rfl, .single hparent⟩, fun s hs => ?_⟩
      obtain ⟨j, hj, heq, hup⟩ := hmet s hs
      exact ⟨j, hj, heq, hup.tail hparent⟩
    rcases ih (named_of_parent? hparent) hmet' herror with ⟨he, hcycle⟩ | ⟨s, he, hbroken⟩
    · exact .inl ⟨he, fun hacyclic => hcycle fun j hup => hacyclic j (.head hparent hup)⟩
    · exact .inr ⟨s, he, hbroken.of_parent hparent⟩
  | case5 => cases h

/-- A superclass chain fails for a cycle, or for a declared superclass that is no type. -/
theorem superclassChain_error {e : HierarchyError} (hn : n.Named)
    (h : cp.superclassChain n = .error e) :
    e = .cycle ("superclass chain of " ++ n.descriptor) ∧ ¬ cp.Acyclic n ∨
      ∃ s, e = .invalidType s.descriptor ∧ cp.BrokenAt n s :=
  walkUp_error hn (List.forall_mem_nil _) (except_map_error.1 h)

/-- The answer of the question for a superclass chain is the chain. -/
theorem chain_of_superclassChain {above : List TypeNode}
    (h : cp.superclassChain n = .ok above) : cp.Chain n (n :: above) := by
  obtain ⟨l, hwalk, rfl⟩ := except_map_ok.1 h
  have hchain := chain_of_walkUp hwalk
  cases hchain with
  | last hparent => exact .last hparent
  | step hparent hrest => exact .step hparent hrest

/-- Where there is no parent there is no cycle. -/
theorem acyclic_of_stuck (h : ∀ k, ¬ cp.Parent n k) : cp.Acyclic n := by
  intro k hup hcycle
  rcases ReflTransGen.cases_head hup with rfl | ⟨j, hstep, _⟩
  · obtain ⟨j, hstep, _⟩ := TransGen.head'_iff.1 hcycle
    exact h j hstep
  · exact h j hstep

theorem Acyclic.of_parent (h : cp.Acyclic k) (hparent : cp.Parent n k) : cp.Acyclic n := by
  intro j hup hcycle
  rcases ReflTransGen.cases_head hup with rfl | ⟨i, hstep, hrest⟩
  · -- a circle through the node also goes through its parent
    obtain ⟨i, hstep, hback⟩ := TransGen.head'_iff.1 hcycle
    cases cp.parent_rightUnique hparent hstep
    exact h n hback hcycle
  · cases cp.parent_rightUnique hparent hstep
    exact h j hrest hcycle

/-- A way up that ends does not go in a circle. -/
theorem Chain.acyclic {l : List TypeNode} (h : cp.Chain n l) : cp.Acyclic n := by
  induction h with
  | last hparent =>
    refine acyclic_of_stuck fun k hk => ?_
    cases hparent.symm.trans hk
  | step hparent _ ih => exact ih.of_parent hparent

/-- Nothing is above a class whose declared superclass is no type. -/
theorem stuck_of_noType {d : String} {c : ClassDef} {s : Ty} (hd : cp.def? d = some c)
    (hs : c.superclass? = some s) (hnone : ∀ k, TypeNode.ofTy s ≠ .ok k) (k : TypeNode) :
    ¬ cp.Parent (.cls d) k := by
  intro hk
  cases parent?_eq_some_iff.1 hk with
  | declared hd' hs' hk =>
    cases hd.symm.trans hd'
    cases hs.symm.trans hs'
    exact hnone k hk
  | missing hd' => cases hd.symm.trans hd'

/-- A way up that comes to no type does not go in a circle. -/
theorem BrokenAt.acyclic {s : Ty} (h : cp.BrokenAt n s) : cp.Acyclic n := by
  obtain ⟨d, c, hup, hd, hs, hnone⟩ := h
  induction hup using ReflTransGen.head_induction_on with
  | refl => exact acyclic_of_stuck (stuck_of_noType hd hs hnone)
  | head hstep _ ih => exact ih.of_parent hstep

/-! ## Nearest common ancestors -/

/-- The first node of a list that is on another one, or the unknown class. -/
def nearestCommon (as bs : List TypeNode) : TypeNode :=
  (as.find? fun n => decide (n ∈ bs)).getD .unknown

/-- Two classes with superclass chains join where the chains meet first. -/
theorem chainJoin_of_chains {as bs : List TypeNode} (ha : TypeNode.Named (.cls a))
    (hb : TypeNode.Named (.cls b)) (has : cp.Chain (.cls a) as) (hbs : cp.Chain (.cls b) bs) :
    cp.chainJoin a b = .ok (nearestCommon as bs) := by
  simp only [chainJoin, chainDown_of_chain has ha, chainDown_of_chain hbs hb]
  rw [nearestCommon, ← Chain.lastCommon? has hbs]
  rfl

theorem isInterfaceOf_class {c : ClassDef} (ha : cp.def? a = some c) (hc : c.isInterface = false) :
    cp.isInterfaceOf a b = pure false := by
  simp only [isInterfaceOf, ha, hc]
  rfl

/-- The join of two classes that are no interfaces is decided by their superclass chains. -/
theorem classJoin_of_classes {c c' : ClassDef} (ha : cp.def? a = some c)
    (hc : c.isInterface = false) (hb : cp.def? b = some c') (hc' : c'.isInterface = false)
    (hab : a ≠ b) (hao : a ≠ objectClass) (hbo : b ≠ objectClass) :
    cp.classJoin a b = Asking.lift (cp.chainJoin a b) := by
  rw [classJoin_eq, if_neg (not_or.2 ⟨hab, hao⟩), if_neg hbo, isInterfaceOf_class ha hc]
  funext m
  show cp.joinAfter a b (Asking.lift (cp.chainJoin a b)) m = _
  rw [joinAfter, isInterfaceOf_class hb hc']
  rfl

/-- The chain of a class that is not below a circle is found, unless a superclass on the way is no
type. -/
theorem Acyclic.chainDown (hup : cp.Acyclic n) (hn : n.Named) :
    (∃ above, cp.superclassChain n = .ok above) ∨
      ∃ s, cp.BrokenAt n s ∧ cp.chainDown n = .error (.invalidType s.descriptor) := by
  cases hchain : cp.superclassChain n with
  | ok above => exact .inl ⟨above, rfl⟩
  | error e =>
    rcases superclassChain_error hn hchain with ⟨_, hcycle⟩ | ⟨s, rfl, hbroken⟩
    · exact absurd hup hcycle
    · exact .inr ⟨s, hbroken, by simp only [ClassPath.chainDown, hchain]⟩

/-- What two classes have in common by their superclass chains: a class with itself the class, and
otherwise the first node from one upwards that is also met from the other upwards, or the first
superclass on the way that is no type. -/
inductive Meets (cp : ClassPath) (a b : String) : Except HierarchyError TypeNode → Prop where
  | same (hab : a = b) : Meets cp a b (.ok (.cls a))
  | common {as bs : List TypeNode} (has : cp.superclassChain (.cls a) = .ok as)
    (hbs : cp.superclassChain (.cls b) = .ok bs) :
    Meets cp a b (.ok (nearestCommon (.cls a :: as) (.cls b :: bs)))
  | first {s : Ty} (hab : a ≠ b) (hbroken : cp.BrokenAt (.cls a) s) :
    Meets cp a b (.error (.invalidType s.descriptor))
  | second {as : List TypeNode} {s : Ty} (hab : a ≠ b) (has : cp.superclassChain (.cls a) = .ok as)
    (hbroken : cp.BrokenAt (.cls b) s) : Meets cp a b (.error (.invalidType s.descriptor))

/-- Two different classes with no cycle above them join where their superclass chains meet. -/
theorem meets_chainJoin (hna : TypeNode.Named (.cls a)) (hnb : TypeNode.Named (.cls b))
    (hab : a ≠ b) (hup : cp.Acyclic (.cls a)) (hup' : cp.Acyclic (.cls b)) :
    cp.Meets a b (cp.chainJoin a b) := by
  rcases hup.chainDown hna with ⟨as, has⟩ | ⟨s, hbroken, hdown⟩
  · have hchain := chain_of_superclassChain has
    rcases hup'.chainDown hnb with ⟨bs, hbs⟩ | ⟨s, hbroken, hdown⟩
    · rw [chainJoin_of_chains hna hnb hchain (chain_of_superclassChain hbs)]
      exact .common has hbs
    · have hjoin : cp.chainJoin a b = .error (.invalidType s.descriptor) := by
        rw [chainJoin, chainDown_of_chain hchain hna, hdown]
        rfl
      exact hjoin ▸ .second hab has hbroken
  · have hjoin : cp.chainJoin a b = .error (.invalidType s.descriptor) := by
      rw [chainJoin, hdown]
      rfl
    exact hjoin ▸ .first hab hbroken

/-- The join of two classes that are no interfaces is what they have in common by their superclass
chains: the first node from one upwards that is also met from the other upwards, and the unknown
class if there is none.  It fails exactly where a superclass on the way from one of two different
classes is no type, and names that superclass. -/
theorem commonSuperclass_nearest (cp : ClassPath) (m : Memo) {a b : String} {c c' : ClassDef}
    (hna : TypeNode.Named (.cls a)) (hnb : TypeNode.Named (.cls b))
    (ha : cp.def? a = some c) (hb : cp.def? b = some c')
    (hc : c.isInterface = false) (hc' : c'.isInterface = false)
    (hao : a ≠ objectClass) (hbo : b ≠ objectClass)
    (hup : cp.Acyclic (.cls a)) (hup' : cp.Acyclic (.cls b)) :
    ∃ r, cp.Meets a b r ∧ cp.commonSuperclass (.cls a) (.cls b) m = Asking.lift r m ∧
      ∀ as bs, cp.superclassChain (.cls a) = .ok as → cp.superclassChain (.cls b) = .ok bs →
        r = .ok (nearestCommon (.cls a :: as) (.cls b :: bs)) := by
  show ∃ r, cp.Meets a b r ∧ cp.classJoin a b m = _ ∧ _
  by_cases hab : a = b
  · cases hab
    refine ⟨.ok (.cls a), .same rfl, by rw [classJoin_self]; rfl, fun as bs _ _ => ?_⟩
    rw [nearestCommon, List.find?_cons_of_pos (by simp)]
    rfl
  · refine ⟨cp.chainJoin a b, meets_chainJoin hna hnb hab hup hup', ?_, fun as bs has hbs => ?_⟩
    · rw [classJoin_of_classes ha hc hb hc' hab hao hbo]
    · exact chainJoin_of_chains hna hnb (chain_of_superclassChain has)
        (chain_of_superclassChain hbs)

/-- Two classes below a class whose superclass is missing, at different distances, and a class
without superclass. -/
def forked : ClassPath := .ofClasses
  [{ ty := .cls "A", superclass? := some (.cls "B") },
    { ty := .cls "B", superclass? := some (.cls "C") },
    { ty := .cls "C", superclass? := some (.cls "Missing") },
    { ty := .cls "D", superclass? := some (.cls "C") },
    { ty := .cls "E" }] defaultLevel

/-- Two classes below a missing one meet at the last class above both, and a class without
superclass meets neither. -/
theorem commonSuperclass_nearest_forked :
    forked.Acyclic (.cls "LA;") ∧ forked.Acyclic (.cls "LD;") ∧ forked.Acyclic (.cls "LE;") ∧
      forked.superclassChain (.cls "LA;") =
        .ok [.cls "LB;", .cls "LC;", .cls "LMissing;", .unknown] ∧
      forked.superclassChain (.cls "LD;") = .ok [.cls "LC;", .cls "LMissing;", .unknown] ∧
      forked.superclassChain (.cls "LE;") = .ok [] ∧
      forked.commonSuperclass (.cls "LA;") (.cls "LD;") .empty = .ok (.cls "LC;") .empty ∧
      forked.commonSuperclass (.cls "LA;") (.cls "LE;") .empty = .ok .unknown .empty := by
  have hA : forked.superclassChain (.cls "LA;") =
      .ok [.cls "LB;", .cls "LC;", .cls "LMissing;", .unknown] := ok_of_toOption (by decide +kernel)
  have hD : forked.superclassChain (.cls "LD;") = .ok [.cls "LC;", .cls "LMissing;", .unknown] :=
    ok_of_toOption (by decide +kernel)
  have hE : forked.superclassChain (.cls "LE;") = .ok [] := ok_of_toOption (by decide +kernel)
  have hupA := (chain_of_superclassChain hA).acyclic
  have hupD := (chain_of_superclassChain hD).acyclic
  have hupE := (chain_of_superclassChain hE).acyclic
  refine ⟨hupA, hupD, hupE, hA, hD, hE, ?_, ?_⟩
  · obtain ⟨r, _, hjoin, hr⟩ := forked.commonSuperclass_nearest .empty (a := "LA;") (b := "LD;") rfl
      rfl rfl rfl rfl rfl (by decide) (by decide) hupA hupD
    rw [hr _ _ hA hD] at hjoin
    exact hjoin
  · obtain ⟨r, _, hjoin, hr⟩ := forked.commonSuperclass_nearest .empty (a := "LA;") (b := "LE;") rfl
      rfl rfl rfl rfl rfl (by decide) (by decide) hupA hupE
    rw [hr _ _ hA hE] at hjoin
    exact hjoin

/-- A class with a superclass that is no type, and one without superclass. -/
def voidBased : ClassPath := .ofClasses
  [{ ty := .cls "A", superclass? := some .void }, { ty := .cls "B" }] defaultLevel

/-- Neither class is below a circle, and they have no join. -/
theorem voidBased_join_fails :
    voidBased.Acyclic (.cls "LA;") ∧ voidBased.Acyclic (.cls "LB;") ∧
      (voidBased.def? "LA;").map ClassDef.isInterface = some false ∧
      (voidBased.def? "LB;").map ClassDef.isInterface = some false ∧
      ∀ m, voidBased.commonSuperclass (.cls "LA;") (.cls "LB;") m =
        .error (.invalidType "V") m := by
  have hA : voidBased.Acyclic (.cls "LA;") := by
    refine acyclic_of_stuck (stuck_of_noType (s := .void) rfl rfl fun k hk => ?_)
    cases hk
  have hB : voidBased.Acyclic (.cls "LB;") := by
    refine acyclic_of_stuck fun k hk => ?_
    cases hk
  refine ⟨hA, hB, rfl, rfl, fun m => ?_⟩
  show voidBased.classJoin "LA;" "LB;" m = _
  rw [classJoin_of_classes (a := "LA;") (b := "LB;") rfl rfl rfl rfl (by decide) (by decide)
    (by decide)]
  have hchain : voidBased.superclassChain (.cls "LA;") = .error (.invalidType "V") := by
    rw [superclassChain, walkUp_eq]
    rfl
  have hjoin : voidBased.chainJoin "LA;" "LB;" = .error (.invalidType "V") := by
    simp only [chainJoin, chainDown, hchain]
    rfl
  rw [hjoin]
  rfl

/-! ## Joins that cannot fail -/

/-- A question has an answer with a property, whatever was asked before. -/
def Succeeds {α : Type} (cp : ClassPath) (q : Query α) (P : α → Prop) : Prop :=
  Yields cp.ToldAll q fun r => ∃ x, r = .ok x ∧ P x

namespace Succeeds

variable {α β : Type} {P P' : α → Prop} {q : Query α}

theorem pure {x : α} (hx : P x) : cp.Succeeds (Pure.pure x) P := Yields.pure ⟨x, rfl, hx⟩

theorem mono (h : cp.Succeeds q P) (hP : ∀ x, P x → P' x) : cp.Succeeds q P' := by
  refine Yields.mono h ?_
  rintro r ⟨x, heq, hx⟩
  exact ⟨x, heq, hP x hx⟩

/-- Questions that succeed do so one after the other. -/
theorem bind {f : α → Query β} {R : β → Prop} (hq : cp.Succeeds q P)
    (hf : ∀ x, P x → cp.Succeeds (f x) R) : cp.Succeeds (q >>= f) R := by
  refine Yields.bind hq ?_ ?_
  · rintro x ⟨_, heq, hx⟩
    cases heq
    exact hf x hx
  · rintro e ⟨_, heq, _⟩
    cases heq

end Succeeds

/-- What the way up hands on to the next node holds of all nodes of a chain. -/
theorem Chain.all {P : TypeNode → Prop} {l : List TypeNode}
    (hup : ∀ {n k}, P n → cp.Parent n k → P k) (h : cp.Chain n l) (hn : P n) : ∀ k ∈ l, P k := by
  induction h with
  | last => exact fun k hk => List.mem_singleton.1 hk ▸ hn
  | step hparent _ ih => exact List.forall_mem_cons.2 ⟨hn, ih (hup hn hparent)⟩

/-- The chain from above is the chain from below turned round. -/
theorem chain_of_chainDown {down : List TypeNode} (h : cp.chainDown n = .ok (some down)) :
    ∃ l, cp.Chain n l ∧ down = l.reverse := by
  unfold chainDown at h
  split at h
  · next above habove =>
    cases h
    exact ⟨_, chain_of_superclassChain habove, rfl⟩
  · cases h
  · cases h

theorem joinable_arrayClassJoin (cp : ClassPath) (d : String) :
    (cp.arrayClassJoin d).Joinable := by
  unfold arrayClassJoin
  split
  · split <;> trivial
  · trivial

section Total

variable (hcp : cp.ClassesOnly)
include hcp

/-- Above a class is a class, or the unknown class. -/
theorem isClass_of_parent (hn : n.IsClass) (h : cp.Parent n k) : k.IsClass := by
  cases parent?_eq_some_iff.1 h with
  | declared hd hs hk =>
    obtain ⟨name, hname⟩ := hcp _ _ _ hd (.inl hs)
    cases hk.symm.trans hname
    trivial
  | missing hd => trivial
  | array => exact hn.elim

section Classes

variable {P : TypeNode → Prop} (hup : ∀ {n k}, P n → cp.Parent n k → P k) (hunknown : P .unknown)
include hup hunknown

/-- The chains of two classes meet, or in the unknown class. -/
theorem chainJoin_succeeds (ha : P (.cls a)) : ∃ n, cp.chainJoin a b = .ok n ∧ P n := by
  obtain ⟨down, hdown⟩ := chainDown_ok hcp (.cls a)
  obtain ⟨down', hdown'⟩ := chainDown_ok hcp (.cls b)
  simp only [chainJoin, hdown, hdown']
  cases down with
  | none => exact ⟨_, rfl, hunknown⟩
  | some as =>
    cases down' with
    | none => exact ⟨_, rfl, hunknown⟩
    | some bs =>
      refine ⟨(lastCommon? as bs).getD .unknown, rfl, ?_⟩
      cases hlast : lastCommon? as bs with
      | none => exact hunknown
      | some k =>
        obtain ⟨l, hchain, rfl⟩ := chain_of_chainDown hdown
        exact hchain.all hup ha k (List.mem_reverse.1 (mem_of_lastCommon? hlast).1)

omit hup in
/-- What comes after the first test of a join succeeds if the rest does. -/
theorem joinAfter_succeeds {rest : Query TypeNode} (hb : P (.cls b))
    (hrest : cp.Succeeds rest P) : cp.Succeeds (cp.joinAfter a b rest) P := by
  refine Yields.bind_attempt (tested_isInterfaceOf hcp b a) fun second hsecond => ?_
  rcases second with e | _ | _
  · simp only [hsecond.unresolved e rfl]
    exact Succeeds.pure hunknown
  · exact hrest
  · exact Succeeds.pure hb

/-- A test that fails says that the answer is not known, and the join goes on. -/
theorem classJoin_succeeds (ha : P (.cls a)) (hb : P (.cls b)) :
    cp.Succeeds (cp.classJoin a b) P := by
  rw [classJoin_eq]
  split
  · exact .pure ha
  split
  · exact .pure hb
  refine Yields.bind_attempt (tested_isInterfaceOf hcp a b) fun first hfirst => ?_
  rcases first with e | _ | _
  · simp only [joinFirst, hfirst.unresolved e rfl]
    exact joinAfter_succeeds hcp hunknown hb (.pure hunknown)
  · obtain ⟨n, hmeet, hn⟩ := chainJoin_succeeds hcp hup hunknown (b := b) ha
    exact joinAfter_succeeds hcp hunknown hb (Yields.lift ⟨n, hmeet, hn⟩)
  · exact Succeeds.pure ha

/-- The join of nodes that are no arrays succeeds, with what joins of classes give. -/
theorem plainJoin_succeeds {p q : TypeNode} (hclass : ∀ {n}, P n → n.IsClass) (hp : P p)
    (hq : P q) : cp.Succeeds (cp.plainJoin p q) P := by
  cases p with
  | primitive d => exact (hclass hp).elim
  | array dims elem => exact (hclass hp).elim
  | unknown =>
    simp only [plainJoin]
    split
    · exact .pure hq
    · exact .pure hp
  | cls a =>
    cases q with
    | primitive d => exact (hclass hq).elim
    | array dims elem => exact (hclass hq).elim
    | unknown =>
      simp only [plainJoin]
      split
      · exact .pure hp
      · exact .pure hq
    | cls b => exact classJoin_succeeds hcp hup hunknown hp hq

end Classes

/-- The elements of two arrays are classes that descriptors name, and so is their join. -/
theorem arrayJoin_succeeds {dims dims' : Nat} {elem elem' : String}
    (he : TypeNode.NamesElement elem) (he' : TypeNode.NamesElement elem') :
    cp.Succeeds (cp.arrayJoin dims elem dims' elem') TypeNode.Joinable := by
  unfold arrayJoin
  split
  · split
    · exact .pure he
    · exact .pure trivial
  next hprimitive =>
  obtain ⟨hprimitive, hprimitive'⟩ := Bool.or_eq_false_iff.1 (Bool.not_eq_true _ ▸ hprimitive)
  split
  · obtain ⟨p, hp, hclass⟩ := he.isClass hprimitive
    obtain ⟨q, hq, hclass'⟩ := he'.isClass hprimitive'
    simp only [hp, hq]
    have hjoin : cp.Succeeds (cp.plainJoin p q) fun n => n.IsClass ∧ n.Named :=
      plainJoin_succeeds hcp
        (fun hn hparent => ⟨isClass_of_parent hcp hn.1 hparent, named_of_parent? hparent⟩)
        ⟨trivial, rfl⟩ And.left ⟨hclass, TypeNode.named_of_ofDescriptor hp⟩
        ⟨hclass', TypeNode.named_of_ofDescriptor hq⟩
    refine hjoin.bind fun n hn => .pure ?_
    cases n with
    | primitive d => exact hn.1.elim
    | array dims elem => exact hn.1.elim
    | unknown => exact ⟨.unknown, hn.2, .inl trivial⟩
    | cls d => exact ⟨.cls d, hn.2, .inl trivial⟩
  · exact .pure ⟨.cls objectClass, rfl, .inl trivial⟩

/-- Nodes that can be joined have a join, which can be joined again. -/
theorem commonSuperclass_succeeds {p q : TypeNode} (hp : p.Joinable) (hq : q.Joinable) :
    cp.Succeeds (cp.commonSuperclass p q) TypeNode.Joinable := by
  have plain {p q : TypeNode} (hp : p.IsClass) (hq : q.IsClass) :
      cp.Succeeds (cp.plainJoin p q) TypeNode.Joinable :=
    (plainJoin_succeeds hcp (isClass_of_parent hcp) trivial id hp hq).mono fun _ hn =>
      hn.joinable
  cases p with
  | primitive d => exact hp.elim
  | array dims elem =>
    cases q with
    | primitive d => exact hq.elim
    | array dims' elem' => exact arrayJoin_succeeds hcp hp hq
    | unknown => exact .pure trivial
    | cls b => exact .pure (cp.joinable_arrayClassJoin b)
  | unknown =>
    cases q with
    | primitive d => exact hq.elim
    | array dims elem => exact .pure trivial
    | unknown => exact plain (p := .unknown) (q := .unknown) trivial trivial
    | cls b => exact plain (p := .unknown) (q := .cls b) trivial trivial
  | cls a =>
    cases q with
    | primitive d => exact hq.elim
    | array dims elem => exact .pure (cp.joinable_arrayClassJoin a)
    | unknown => exact plain (p := .cls a) (q := .unknown) trivial trivial
    | cls b => exact plain (p := .cls a) (q := .cls b) trivial trivial

end Total

end ClassPath

namespace RegType

variable {cp : ClassPath} {a b : RegType}

/-- A register type whose class, if it has one, can be joined. -/
def Joinable (t : RegType) : Prop := ∀ n, t.node? = some n → n.Joinable

theorem joinable_reference {n : TypeNode} (hn : n.Joinable) : (reference n).Joinable := by
  rintro _ ⟨⟩
  exact hn

theorem joinable_ofCategory? (c : Category) : ((ofCategory? c).getD .conflicted).Joinable := by
  intro n hn
  cases c <;> cases hn

/-- Joins of register types with classes that can be joined succeed, and can be joined again. -/
theorem succeeds_join (hcp : cp.ClassesOnly) (ha : a.Joinable) (hb : b.Joinable) :
    cp.Succeeds (a.join cp b) Joinable := by
  unfold join
  split
  · exact .pure ha
  split
  · cases hp : a.node? with
    | none =>
      cases hq : b.node? with
      | none => exact .pure (joinable_reference trivial)
      | some q => exact .pure (joinable_reference (hb q hq))
    | some p =>
      cases hq : b.node? with
      | none => exact .pure (joinable_reference (ha p hp))
      | some q =>
        exact (ClassPath.commonSuperclass_succeeds hcp (ha p hp) (hb q hq)).bind fun n hn =>
          .pure (joinable_reference hn)
  · split
    · exact .pure hb
    · exact .pure ha
  · split
    · exact .pure hb
    · exact .pure ha
  · exact .pure (joinable_ofCategory? _)

/-- The join of two register types over classes, the unknown class and arrays of these or of
primitive types never fails, and can be joined again.  The hierarchy may have missing classes and
circles. -/
theorem join_succeeds (cp : ClassPath) (hcp : cp.ClassesOnly)
    (history : List ClassPath.Question) (a b : RegType) (ha : a.Joinable) (hb : b.Joinable) :
    ∃ t, (a.join cp b).answer (cp.remembered history) = .ok t ∧ t.Joinable :=
  Yields.answer (succeeds_join hcp ha hb)
    (ClassPath.told_of_asked (cp.asked_remembered history))

/-- Arrays over a class below a circle of interfaces and over a missing class. -/
theorem join_succeeds_tangled :
    let a : RegType := .reference (.array 2 "LA;")
    let b : RegType := .reference (.array 2 "LMissing;")
    ClassPath.tangled.ClassesOnly ∧ a.Joinable ∧ b.Joinable ∧
      ∃ t, (a.join ClassPath.tangled b).answer
        (ClassPath.tangled.remembered ClassPath.tangledHistory) = .ok t ∧ t.Joinable := by
  intro a b
  have ha : a.Joinable := joinable_reference ⟨.cls "LA;", rfl, .inl trivial⟩
  have hb : b.Joinable := joinable_reference ⟨.cls "LMissing;", rfl, .inl trivial⟩
  exact ⟨ClassPath.classesOnly_tangled, ha, hb,
    join_succeeds _ ClassPath.classesOnly_tangled _ a b ha hb⟩

end RegType

end Dalvik
