import Dalvik.Proofs.Below

/-!
# Superclass chains

The *chain* of a node goes from the node up to one without a parent.  A node has at most one chain
(`Chain.unique`), all nodes on it have their chains as ends of it (`Chain.suffix`), and no node is
on it twice.  So the walk up, which stops at the first repetition, finds the chain of every node
that has one (`superclassChain_of_chain`), and nothing else (`chain_of_walkUp`).

Two chains that meet go on together.  The last node of the common start of the two lists from the
root down is the first node of one chain that lies on the other: the nearest common ancestor
(`Chain.lastCommon?`).
-/

namespace Dalvik.ClassPath

variable {cp : ClassPath} {n m k : TypeNode} {l as bs : List TypeNode}

/-! ## Chains -/

/-- The nodes from a node up to one without a parent. -/
inductive Chain (cp : ClassPath) : TypeNode → List TypeNode → Prop where
  | last {n : TypeNode} (hparent : cp.parent? n = .ok none) : Chain cp n [n]
  | step {n m : TypeNode} {l : List TypeNode} (hparent : cp.parent? n = .ok (some m))
    (h : Chain cp m l) : Chain cp n (n :: l)

namespace Chain

/-- A node has one superclass chain at most. -/
theorem unique (h : cp.Chain n as) (h' : cp.Chain n bs) : as = bs := by
  induction h generalizing bs with
  | last hparent =>
    cases h' with
    | last => rfl
    | step hparent' => cases hparent.symm.trans hparent'
  | step hparent _ ih =>
    cases h' with
    | last hparent' => cases hparent.symm.trans hparent'
    | step hparent' h' =>
      cases hparent.symm.trans hparent'
      rw [ih h']

/-- A node on a chain has the rest of it for its own. -/
theorem suffix (h : cp.Chain n l) (hk : k ∈ l) : ∃ l', cp.Chain k l' ∧ l' <:+ l := by
  induction h with
  | last hparent =>
    cases List.mem_singleton.1 hk
    exact ⟨_, .last hparent, List.suffix_refl _⟩
  | step hparent h ih =>
    rcases List.mem_cons.1 hk with rfl | hk
    · exact ⟨_, .step hparent h, List.suffix_refl _⟩
    · obtain ⟨l', hl', hsuffix⟩ := ih hk
      exact ⟨l', hl', hsuffix.trans (List.suffix_cons _ _)⟩

/-- No node is above itself. -/
theorem nodup (h : cp.Chain n l) : l.Nodup := by
  induction h with
  | last => exact List.nodup_cons.2 ⟨List.not_mem_nil, .nil⟩
  | step hparent h ih =>
    refine List.nodup_cons.2 ⟨fun hmem => ?_, ih⟩
    obtain ⟨l', hl', hsuffix⟩ := h.suffix hmem
    cases hl'.unique (.step hparent h)
    have := hsuffix.length_le
    simp only [List.length_cons] at this
    omega

theorem named (h : cp.Chain n l) (hn : n.Named) : ∀ k ∈ l, k.Named := by
  induction h with
  | last => exact fun k hk => List.mem_singleton.1 hk ▸ hn
  | step hparent _ ih =>
    exact List.forall_mem_cons.2 ⟨hn, ih (named_of_parent? hparent)⟩

end Chain

/-! ## The walk up -/

/-- Two nodes with the same name are the same. -/
theorem eq_of_named (hn : n.Named) (hm : m.Named) (h : n.descriptor = m.descriptor) : n = m := by
  unfold TypeNode.Named at hn hm
  rw [h, hm] at hn
  cases hn
  rfl

/-- The walk up by one step. -/
theorem walkUp_eq (cp : ClassPath) (origin : String) (met : List String) (n : TypeNode) :
    cp.walkUp origin met n =
      if n.descriptor ∈ met then .error (.cycle ("superclass chain of " ++ origin))
      else (cp.parent? n).bind fun parent? => parent?.elim (.ok [n]) fun m =>
        (cp.walkUp origin (n.descriptor :: met) m).map (n :: ·) := by
  rw [walkUp]
  by_cases hmet : n.descriptor ∈ met
  · rw [dif_pos hmet, if_pos hmet]
  rw [dif_neg hmet, if_neg hmet]
  split
  · next hparent => rw [hparent]; rfl
  · next hparent => rw [hparent]; rfl
  · next m hparent =>
    rw [hparent]
    simp only [Except.bind, Option.elim]
    cases cp.walkUp origin (n.descriptor :: met) m <;> rfl

/-- A walk up that ends has gone along the superclass chain. -/
theorem chain_of_walkUp {origin : String} {met : List String}
    (h : cp.walkUp origin met n = .ok l) : cp.Chain n l := by
  fun_induction walkUp cp origin met n generalizing l with
  | case1 => cases h
  | case2 => cases h
  | case3 met n _ hparent =>
    cases h
    exact .last hparent
  | case4 => cases h
  | case5 met n _ m hparent chain hchain ih =>
    cases h
    exact .step hparent (ih hchain)

/-- The walk up finds a chain unless it starts below a node of it. -/
theorem walkUp_of_chain (h : cp.Chain n l) (hn : n.Named) (origin : String) {met : List String}
    (hmet : ∀ k ∈ l, k.descriptor ∉ met) : cp.walkUp origin met n = .ok l := by
  induction h generalizing met with
  | last hparent =>
    rw [walkUp_eq, if_neg (hmet _ List.mem_cons_self), hparent]
    rfl
  | @step n m l hparent h ih =>
    have hm : m.Named := named_of_parent? hparent
    rw [walkUp_eq, if_neg (hmet _ List.mem_cons_self), hparent]
    simp only [Except.bind, Option.elim]
    rw [ih hm fun k hk => ?_]
    · rfl
    rw [List.mem_cons, not_or]
    refine ⟨fun heq => ?_, hmet k (List.mem_cons_of_mem _ hk)⟩
    -- nodes that are named have different descriptors, and no node is on the chain twice
    have hkn : k = n := eq_of_named (h.named hm k hk) hn heq
    exact (List.nodup_cons.1 (Chain.step hparent h).nodup).1 (hkn ▸ hk)

/-- A superclass chain is found. -/
theorem superclassChain_of_chain (h : cp.Chain n l) (hn : n.Named) :
    cp.superclassChain n = .ok l.tail := by
  rw [superclassChain, walkUp_of_chain h hn n.descriptor fun _ _ => List.not_mem_nil]
  rfl

theorem chainDown_of_chain (h : cp.Chain n l) (hn : n.Named) :
    cp.chainDown n = .ok (some l.reverse) := by
  rw [chainDown, superclassChain_of_chain h hn]
  cases h <;> rfl

/-! ## Nearest common ancestors -/

/-- What two chains have in common last does not depend on their order. -/
theorem lastCommon?_comm (as bs : List TypeNode) : lastCommon? as bs = lastCommon? bs as := by
  fun_induction lastCommon? as bs with
  | case1 a as bs ih => rw [lastCommon?, if_pos rfl, ih]
  | case2 a as b bs hne => rw [lastCommon?, if_neg (Ne.symm hne)]
  | case3 as bs hne =>
    cases as with
    | nil => cases bs <;> rfl
    | cons a as =>
      cases bs with
      | nil => rfl
      | cons b bs => exact absurd rfl (hne a as b bs rfl)

/-- A chain has all of itself in common with a longer one. -/
theorem lastCommon?_append_self (as bs : List TypeNode) :
    lastCommon? as (as ++ bs) = as.getLast? := by
  induction as with
  | nil => cases bs <;> rfl
  | cons a as ih =>
    rw [List.cons_append, lastCommon?, if_pos rfl, ih, List.getLast?_cons]

/-- A node that is not on the other list does not count. -/
theorem lastCommon?_concat (as bs : List TypeNode) (hn : n ∉ bs) :
    lastCommon? (as ++ [n]) bs = lastCommon? as bs := by
  induction as generalizing bs with
  | nil =>
    cases bs with
    | nil => rfl
    | cons b bs =>
      have hne : n ≠ b := by
        rintro rfl
        exact hn List.mem_cons_self
      rw [List.nil_append, lastCommon?, if_neg hne]
      rfl
  | cons a as ih =>
    cases bs with
    | nil => rfl
    | cons b bs =>
      rw [List.cons_append, lastCommon?, lastCommon?,
        ih bs fun h => hn (List.mem_cons_of_mem _ h)]

theorem Chain.head? (h : cp.Chain n l) : l.head? = some n := by
  cases h <;> rfl

/-- A chain that starts on another one is its end, and so the common start of both. -/
theorem Chain.lastCommon?_of_mem (h : cp.Chain n as) (h' : cp.Chain m bs) (hn : n ∈ bs) :
    ClassPath.lastCommon? as.reverse bs.reverse = some n := by
  obtain ⟨l, hl, before, rfl⟩ := h'.suffix hn
  cases hl.unique h
  rw [List.reverse_append, lastCommon?_append_self, List.getLast?_reverse, h.head?]

/-- The last node that two chains have in common from the root down is the first node of one that
lies on the other. -/
theorem Chain.lastCommon? (h : cp.Chain n as) (h' : cp.Chain m bs) :
    ClassPath.lastCommon? as.reverse bs.reverse = as.find? fun k => decide (k ∈ bs) := by
  induction h with
  | @last n hparent =>
    by_cases hn : n ∈ bs
    · rw [(Chain.last hparent).lastCommon?_of_mem h' hn, List.find?_cons_of_pos (by simpa)]
    · rw [List.find?_cons_of_neg (by simpa), List.reverse_singleton, ← List.nil_append [n],
        lastCommon?_concat _ _ (by simpa)]
      rfl
  | @step n _ l hparent h ih =>
    by_cases hn : n ∈ bs
    · rw [(Chain.step hparent h).lastCommon?_of_mem h' hn, List.find?_cons_of_pos (by simpa)]
    · rw [List.find?_cons_of_neg (by simpa), List.reverse_cons,
        lastCommon?_concat _ _ (by simpa), ih]

/-- All nodes of a chain with some property are from the first one of them upwards. -/
theorem Chain.nearest {p : TypeNode → Bool} (h : cp.Chain n as) (hk : as.find? p = some k) :
    ∃ l, cp.Chain k l ∧ ∀ e ∈ as, p e = true → e ∈ l := by
  induction h with
  | @last n hparent =>
    cases List.mem_singleton.1 (List.mem_of_find?_eq_some hk)
    exact ⟨_, .last hparent, fun e he _ => he⟩
  | @step n _ l hparent h ih =>
    by_cases hn : p n = true
    · rw [List.find?_cons_of_pos hn] at hk
      cases hk
      exact ⟨_, .step hparent h, fun e he _ => he⟩
    · rw [List.find?_cons_of_neg hn] at hk
      obtain ⟨l', hl', hmem⟩ := ih hk
      refine ⟨l', hl', fun e he hp => ?_⟩
      rcases List.mem_cons.1 he with rfl | he
      · exact absurd hp hn
      · exact hmem e he hp

end Dalvik.ClassPath
