import Dalvik.Proofs.Ancestors

/-!
# The way up as declared

The definitions of a class path say what is right above a node (`RightAbove`).  At most one node is
right above another, so the way up from a node ends at a node without superclass, goes in a circle,
or comes to a declared superclass that is no type.

The three exclude each other.  A way that ends or comes to no type does not go in a circle
(`Chain.acyclic`, `BrokenAt.acyclic`), and one that ends does not come to no type
(`Chain.not_brokenAt`).  So the walk up answers with the one that is the case, and each answer says
which (`superclassChain_exact`).
-/

namespace Dalvik.ClassPath

open Relation (ReflTransGen TransGen)

variable {cp : ClassPath} {n k : TypeNode} {above : List TypeNode}

theorem parent_eq_rightAbove (cp : ClassPath) : cp.Parent = cp.RightAbove := by
  funext n k
  exact propext parent?_eq_some_iff

/-! ## Ways up -/

/-- The way up from a node comes to a node that it has met. -/
def Circles (cp : ClassPath) (n : TypeNode) : Prop :=
  ∃ k, ReflTransGen cp.RightAbove n k ∧ TransGen cp.RightAbove k k

/-- The way up from a node comes to a class with a declared superclass that is no type. -/
def Dangles (cp : ClassPath) (n : TypeNode) (s : Ty) : Prop :=
  ∃ d c, ReflTransGen cp.RightAbove n (.cls d) ∧ cp.def? d = some c ∧ c.superclass? = some s ∧
    ∀ k, TypeNode.ofTy s ≠ .ok k

/-- The nodes above a node: each right above the one before, the last one without superclass, and
no node met twice. -/
structure Lineage (cp : ClassPath) (n : TypeNode) (above : List TypeNode) : Prop where
  steps : List.IsChain cp.RightAbove (n :: above)
  top : cp.Top ((n :: above).getLast (List.cons_ne_nil n above))
  nodup : above.Nodup
  fresh : n ∉ above

theorem circles_iff : cp.Circles n ↔ ¬ cp.Acyclic n := by
  unfold Circles Acyclic
  rw [parent_eq_rightAbove]
  simp only [not_forall, not_not, exists_prop]

theorem dangles_iff {s : Ty} : cp.Dangles n s ↔ cp.BrokenAt n s := by
  rw [Dangles, BrokenAt, parent_eq_rightAbove]

/-- A chain is a way up that ends. -/
theorem chain_iff : cp.Chain n (n :: above) ↔ List.IsChain cp.RightAbove (n :: above) ∧
    cp.Top ((n :: above).getLast (List.cons_ne_nil n above)) := by
  induction above generalizing n with
  | nil =>
    constructor
    · intro h
      cases h with
      | last hparent => exact ⟨.singleton n, parent?_eq_none_iff.1 hparent⟩
      | step _ h => cases h
    · exact fun h => .last (parent?_eq_none_iff.2 h.2)
  | cons k rest ih =>
    rw [List.isChain_cons_cons, List.getLast_cons (List.cons_ne_nil k rest), and_assoc]
    constructor
    · intro h
      cases h with
      | @step _ m _ hparent h =>
        have hmk : k = m := Option.some.inj h.head?
        subst hmk
        exact ⟨parent?_eq_some_iff.1 hparent, ih.1 h⟩
    · exact fun h => .step (parent?_eq_some_iff.2 h.1) (ih.2 h.2)

theorem lineage_iff : cp.Lineage n above ↔ cp.Chain n (n :: above) := by
  constructor
  · exact fun h => chain_iff.2 ⟨h.steps, h.top⟩
  · intro h
    obtain ⟨hsteps, htop⟩ := chain_iff.1 h
    obtain ⟨hfresh, hnodup⟩ := List.nodup_cons.1 h.nodup
    exact ⟨hsteps, htop, hnodup, hfresh⟩

/-! ## Ways up exclude each other -/

/-- A way up comes to one superclass that is no type at most. -/
theorem BrokenAt.unique {s s' : Ty} (h : cp.BrokenAt n s) (h' : cp.BrokenAt n s') : s = s' := by
  obtain ⟨d, c, hup, hd, hs, hnone⟩ := h
  obtain ⟨d', c', hup', hd', hs', hnone'⟩ := h'
  have hdd' : TypeNode.cls d = .cls d' := by
    rcases hup.total_of_right_unique cp.parent_rightUnique hup' with hrest | hrest
    · rcases ReflTransGen.cases_head hrest with heq | ⟨k, hstep, _⟩
      · exact heq
      · exact absurd hstep (stuck_of_noType hd hs hnone k)
    · rcases ReflTransGen.cases_head hrest with heq | ⟨k, hstep, _⟩
      · exact heq.symm
      · exact absurd hstep (stuck_of_noType hd' hs' hnone' k)
  cases hdd'
  cases hd.symm.trans hd'
  exact Option.some.inj (hs.symm.trans hs')

/-- What is met on a way up that ends has a way up that ends. -/
theorem Chain.of_reached {l : List TypeNode} (h : cp.Chain n l)
    (hup : ReflTransGen cp.Parent n k) : ∃ l', cp.Chain k l' := by
  induction hup with
  | refl => exact ⟨l, h⟩
  | tail _ hstep ih =>
    obtain ⟨l', hl'⟩ := ih
    cases hl' with
    | last hparent => cases hparent.symm.trans hstep
    | step hparent hrest =>
      cases hparent.symm.trans hstep
      exact ⟨_, hrest⟩

/-- A way up that ends does not come to a superclass that is no type. -/
theorem Chain.not_brokenAt {l : List TypeNode} {s : Ty} (h : cp.Chain n l) : ¬ cp.BrokenAt n s := by
  rintro ⟨d, c, hup, hd, hs, hnone⟩
  obtain ⟨l', hl'⟩ := h.of_reached hup
  cases hl' with
  | last hparent =>
    cases parent?_eq_none_iff.1 hparent with
    | root hd' hs' =>
      cases hd.symm.trans hd'
      cases hs.symm.trans hs'
  | step hparent _ => exact stuck_of_noType hd hs hnone _ hparent

/-! ## Ways up through classes -/

/-- All superclasses that are declared from a node upwards are classes. -/
def ClassesUp (cp : ClassPath) (n : TypeNode) : Prop :=
  ∀ d c s, ReflTransGen cp.RightAbove n (.cls d) → cp.def? d = some c → c.superclass? = some s →
    ∃ name, TypeNode.ofTy s = .ok (.cls name)

theorem ClassesUp.of_rightAbove (h : cp.ClassesUp n) (hup : cp.RightAbove n k) :
    cp.ClassesUp k := by
  intro d c s hreach
  exact h d c s (.head hup hreach)

theorem ClassesUp.not_dangles (h : cp.ClassesUp n) (s : Ty) : ¬ cp.Dangles n s := by
  rintro ⟨d, c, hup, hd, hs, hnone⟩
  obtain ⟨name, hname⟩ := h d c s hup hd hs
  exact hnone _ hname

/-- If only classes are declared on the way, it leads through classes and to the unknown class. -/
theorem ClassesUp.isClass (h : cp.ClassesUp n) (hn : n.IsClass)
    (hsteps : List.IsChain cp.RightAbove (n :: above)) : ∀ k ∈ above, k.IsClass := by
  induction above generalizing n with
  | nil => exact List.forall_mem_nil _
  | cons k rest ih =>
    obtain ⟨hstep, hrest⟩ := List.isChain_cons_cons.1 hsteps
    have hk : k.IsClass := by
      cases hstep with
      | declared hd hs hk =>
        obtain ⟨name, hname⟩ := h _ _ _ .refl hd hs
        cases hk.symm.trans hname
        trivial
      | missing => trivial
      | array => exact hn.elim
    exact List.forall_mem_cons.2 ⟨hk, ih (h.of_rightAbove hstep) hk hrest⟩

/-! ## The main result -/

/-- The superclass chain of a class is the list of the nodes above it if the way up ends.  It fails
with a cycle exactly if the way up meets a node again, and names a declared superclass exactly if
that one is no type.  So if the declared superclasses on the way are classes, there is a chain
unless a node is met again. -/
theorem superclassChain_exact (cp : ClassPath) {d : String} (hd : TypeNode.Named (.cls d)) :
    (∀ above, cp.superclassChain (.cls d) = .ok above ↔ cp.Lineage (.cls d) above) ∧
      (∀ e, cp.superclassChain (.cls d) = .error e ↔
        e = .cycle ("superclass chain of " ++ d) ∧ cp.Circles (.cls d) ∨
          ∃ s, e = .invalidType s.descriptor ∧ cp.Dangles (.cls d) s) ∧
      (cp.ClassesUp (.cls d) → ¬ cp.Circles (.cls d) →
        ∃ above, cp.superclassChain (.cls d) = .ok above ∧ cp.Lineage (.cls d) above ∧
          ∀ k ∈ above, k.IsClass) := by
  have hok : ∀ above, cp.superclassChain (.cls d) = .ok above ↔ cp.Lineage (.cls d) above := by
    intro above
    rw [lineage_iff]
    exact ⟨chain_of_superclassChain, fun h => superclassChain_of_chain h hd⟩
  have herror : ∀ e, cp.superclassChain (.cls d) = .error e →
      e = .cycle ("superclass chain of " ++ d) ∧ cp.Circles (.cls d) ∨
        ∃ s, e = .invalidType s.descriptor ∧ cp.Dangles (.cls d) s := by
    intro e h
    simp only [circles_iff, dangles_iff]
    exact superclassChain_error hd h
  refine ⟨hok, fun e => ⟨herror e, fun h => ?_⟩, fun hclasses hcircles => ?_⟩
  · cases hchain : cp.superclassChain (.cls d) with
    | ok above =>
      have hends := chain_of_superclassChain hchain
      rcases h with ⟨_, hcircles⟩ | ⟨s, _, hdangles⟩
      · exact absurd hends.acyclic (circles_iff.1 hcircles)
      · exact absurd (dangles_iff.1 hdangles) hends.not_brokenAt
    | error e' =>
      rcases h, herror e' hchain with ⟨⟨rfl, hcircles⟩ | ⟨s, rfl, hdangles⟩,
        ⟨rfl, hcircles'⟩ | ⟨s', rfl, hdangles'⟩⟩
      · rfl
      · exact absurd (dangles_iff.1 hdangles').acyclic (circles_iff.1 hcircles)
      · exact absurd (dangles_iff.1 hdangles).acyclic (circles_iff.1 hcircles')
      · rw [(dangles_iff.1 hdangles).unique (dangles_iff.1 hdangles')]
  · cases h : cp.superclassChain (.cls d) with
    | ok above =>
      have hlineage := (hok above).1 h
      exact ⟨above, rfl, hlineage, hclasses.isClass trivial hlineage.steps⟩
    | error e =>
      rcases herror e h with ⟨_, hcircle⟩ | ⟨s, _, hdangles⟩
      · exact absurd hcircle hcircles
      · exact absurd hdangles (hclasses.not_dangles s)

/-- A class below a circle that it is not on, a class below a missing one, and a class below no
type. -/
def looping : ClassPath := .ofClasses
  [{ ty := .cls "A", superclass? := some (.cls "B") },
    { ty := .cls "B", superclass? := some (.cls "C") },
    { ty := .cls "C", superclass? := some (.cls "B") },
    { ty := .cls "D", superclass? := some (.cls "Missing") },
    { ty := .cls "E", superclass? := some .void }] defaultLevel

/-- Each of the three ways up has its answer. -/
theorem superclassChain_exact_looping :
    (looping.Circles (.cls "LA;") ∧
      looping.superclassChain (.cls "LA;") = .error (.cycle "superclass chain of LA;")) ∧
      (looping.superclassChain (.cls "LD;") = .ok [.cls "LMissing;", .unknown] ∧
        looping.Lineage (.cls "LD;") [.cls "LMissing;", .unknown]) ∧
      looping.Dangles (.cls "LE;") .void ∧
      looping.superclassChain (.cls "LE;") = .error (.invalidType "V") := by
  have hAB : looping.RightAbove (.cls "LA;") (.cls "LB;") := .declared rfl rfl rfl
  have hBC : looping.RightAbove (.cls "LB;") (.cls "LC;") := .declared rfl rfl rfl
  have hCB : looping.RightAbove (.cls "LC;") (.cls "LB;") := .declared rfl rfl rfl
  have hcircles : looping.Circles (.cls "LA;") := ⟨_, .single hAB, .tail (.single hBC) hCB⟩
  have hD : looping.superclassChain (.cls "LD;") = .ok [.cls "LMissing;", .unknown] :=
    ok_of_toOption (by decide +kernel)
  have hdangles : looping.Dangles (.cls "LE;") .void := by
    refine ⟨"LE;", _, .refl, rfl, rfl, fun k hk => ?_⟩
    cases hk
  refine ⟨⟨hcircles, ?_⟩, ⟨hD, ?_⟩, hdangles, ?_⟩
  · exact ((looping.superclassChain_exact (d := "LA;") rfl).2.1 _).2 (.inl ⟨rfl, hcircles⟩)
  · exact ((looping.superclassChain_exact (d := "LD;") rfl).1 _).1 hD
  · exact ((looping.superclassChain_exact (d := "LE;") rfl).2.1 _).2 (.inr ⟨.void, rfl, hdangles⟩)

end Dalvik.ClassPath
