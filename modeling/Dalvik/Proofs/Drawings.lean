import Dalvik.FlowGraph.Dot
import Dalvik.Proofs.Flow

/-!
# Labels of drawn edges

A drawing numbers the nodes that are reached in their order, so no two of them share a number
(`number_inj`), and between two numbers there is the edge of one pair of nodes, with one label
(`mem_edges_draw_iff`).

The label is found again from the instruction an edge leaves and from where it ends, as the graph
does not keep how an edge came about (`labelled_edgeKind`).  For a jump the end is compared with the
target.  For a switch it is not: every edge that leaves a switch, other than to the next
instruction, is labelled as one of the switch.  So the label of an exception is that of exactly the
edges to no normal successor that do not leave a switch (`drawn_catch_iff`).
-/

namespace Dalvik.FlowGraph

variable {b : Body} {g : FlowGraph} {i j t : Nat} {l : Line} {kind : Edge}

/-! ## Numbers -/

theorem number_mono (g : FlowGraph) (h : i ≤ j) : g.number i ≤ g.number j := by
  have hsub : List.Sublist (List.range i) (List.range j) := List.range_sublist.2 h
  exact Nat.succ_le_succ (hsub.filter g.isReachable).length_le

theorem number_succ (hi : g.isReachable i = true) : g.number (i + 1) = g.number i + 1 := by
  simp [number, List.range_succ, hi]

theorem number_lt (hi : g.isReachable i = true) (hij : i < j) : g.number i < g.number j := by
  have hnext := g.number_mono hij
  rw [number_succ hi] at hnext
  exact hnext

/-- Two nodes that are reached have different numbers. -/
theorem number_inj (hi : g.isReachable i = true) (hj : g.isReachable j = true)
    (h : g.number i = g.number j) : i = j := by
  rcases Nat.lt_trichotomy i j with hlt | heq | hlt
  · exact absurd h (Nat.ne_of_lt (number_lt hi hlt))
  · exact heq
  · exact absurd h (Nat.ne_of_gt (number_lt hj hlt))

/-! ## Labels -/

/-- How the label of an edge from an instruction is chosen. -/
inductive Labelled (b : Body) (i : Nat) (l : Line) (t : Nat) : Edge → Prop where
  | sequence (h : l.instr.canContinue = true ∧ t = i + 1) : Labelled b i l t .sequence
  | switch (hnext : ¬ (l.instr.canContinue = true ∧ t = i + 1))
      (hswitch : l.instr.isSwitch = true) :
    Labelled b i l t .switch
  | jump (hnext : ¬ (l.instr.canContinue = true ∧ t = i + 1)) (hswitch : l.instr.isSwitch = false)
    (h : b.Jumps l t) : Labelled b i l t .jump
  | raised (hnext : ¬ (l.instr.canContinue = true ∧ t = i + 1)) (hswitch : l.instr.isSwitch = false)
    (h : ¬ b.Jumps l t) : Labelled b i l t .catch

/-- An instruction that is no switch jumps to where its offset leads. -/
theorem jumps_iff_of_not_switch {l' : Line} (hswitch : l.instr.isSwitch = false)
    (ht : b.lines[t]? = some l') :
    b.Jumps l t ↔
      l.instr.isBranch = true ∧ l.instr.targetOffset?.bind l.addr.offset? = some l'.addr := by
  rw [Option.bind_eq_some_iff]
  constructor
  · intro h
    cases h with
    | direct hbranch _ hoffset hleads =>
      obtain ⟨l'', hl'', haddr⟩ := hleads
      cases ht.symm.trans hl''
      exact ⟨hbranch, _, hoffset, Addr.offset?_eq_some_iff.2 haddr⟩
    | table htrue => simp [hswitch] at htrue
  · rintro ⟨hbranch, offset, hoffset, haddr⟩
    exact .direct hbranch hswitch hoffset ⟨l', ht, Addr.offset?_eq_some_iff.1 haddr⟩

theorem labelled_edgeKind (hl : b.lines[i]? = some l) (ht : t < b.lines.length) :
    Labelled b i l t (edgeKind b.lines (.instr i) t) := by
  have hline : b.lines[t]? = some b.lines[t] := List.getElem?_eq_getElem ht
  simp only [edgeKind, hl, hline, Option.map_some, Bool.and_eq_true, beq_iff_eq]
  split
  · next hnext => exact .sequence hnext
  next hnext =>
  split
  · next hswitch => exact .switch hnext hswitch
  next hswitch =>
  have hswitch : l.instr.isSwitch = false := Bool.eq_false_iff.2 hswitch
  have hiff := jumps_iff_of_not_switch hswitch hline
  split
  · next hjump => exact .jump hnext hswitch (hiff.2 hjump)
  · next hjump => exact .raised hnext hswitch (mt hiff.1 hjump)

/-- An edge has the label of an exception if it is none to a normal successor and does not leave a
switch. -/
theorem Labelled.catch_iff (h : Labelled b i l t kind) (hl : b.lines[i]? = some l) :
    kind = .catch ↔ ¬ b.NormalEdge i t ∧ l.instr.isSwitch = false := by
  have hnormal : b.NormalEdge i t ↔
      (l.instr.canContinue = true ∧ t = i + 1) ∨ b.Jumps l t := by
    constructor
    · rintro ⟨l', hl', hedge⟩
      cases hl.symm.trans hl'
      exact hedge
    · exact fun hedge => ⟨l, hl, hedge⟩
  rw [hnormal]
  cases h with
  | sequence hnext => simp [hnext]
  | switch _ hswitch => simp [hswitch]
  | jump _ _ hjump => simp [hjump]
  | raised hnext hswitch hjump => simp [hnext, hswitch, hjump]

/-! ## Edges -/

theorem mem_edges_draw {lines : List Line} {e : Nat × Edge × Nat} :
    e ∈ (g.draw lines).edges ↔
      (∃ t ∈ g.entry, e = (0, edgeKind lines .start t, g.number t)) ∨
        ∃ i t, i < g.size ∧ t ∈ g.successors (.instr i) ∧
          e = (g.number i, edgeKind lines (.instr i) t, g.number t) := by
  simp only [draw, List.mem_append, List.mem_map, List.mem_flatMap, List.mem_range]
  constructor
  · rintro (⟨t, ht, rfl⟩ | ⟨i, hi, t, ht, rfl⟩)
    · exact .inl ⟨t, ht, rfl⟩
    · exact .inr ⟨i, t, hi, ht, rfl⟩
  · rintro (⟨t, ht, rfl⟩ | ⟨i, t, hi, ht, rfl⟩)
    · exact .inl ⟨t, ht, rfl⟩
    · exact .inr ⟨i, hi, t, ht, rfl⟩

/-- Between two numbers there is the edge of one pair of nodes. -/
theorem mem_edges_draw_iff {lines : List Line} (h : build b = .ok g)
    (ht : t ∈ g.successors (.instr i)) :
    (g.number i, kind, g.number t) ∈ (g.draw lines).edges ↔
      kind = edgeKind lines (.instr i) t := by
  obtain ⟨hi, hreached⟩ := isReachable_of_edge h ht
  rw [mem_edges_draw]
  constructor
  · rintro (⟨_, _, heq⟩ | ⟨j, t', _, ht', heq⟩)
    · -- only the start node has the number zero
      cases (Prod.mk.inj heq).1
    · obtain ⟨hj, hreached'⟩ := isReachable_of_edge h ht'
      simp only [Prod.mk.injEq] at heq
      obtain rfl := number_inj hi hj heq.1
      obtain rfl := number_inj hreached hreached' heq.2.2
      exact heq.2.1
  · rintro rfl
    obtain ⟨handlers, hg⟩ := built_of_build h
    have hlt := lt_of_mem_successors h ht
    rw [← hg.size] at hlt
    exact .inr ⟨i, t, hlt, ht, rfl⟩

/-- The drawing of a graph has one label for each edge that leaves an instruction.  It is that of an
exception exactly if the edge leads to none of the normal successors and the instruction is no
switch. -/
theorem drawn_catch_iff (h : build b = .ok g) (ht : t ∈ g.successors (.instr i)) :
    ∃ l kind, b.lines[i]? = some l ∧
      (∀ k, (g.number i, k, g.number t) ∈ (g.draw b.lines).edges ↔ k = kind) ∧
      (kind = .catch ↔ ¬ b.NormalEdge i t ∧ l.instr.isSwitch = false) := by
  have hi : i < b.lines.length := lt_of_mem_successors h ht
  have hl : b.lines[i]? = some b.lines[i] := List.getElem?_eq_getElem hi
  have hlabel := labelled_edgeKind hl (successors_lt_of_build h t ht)
  exact ⟨_, _, hl, fun k => mem_edges_draw_iff h ht, hlabel.catch_iff hl⟩

/-- A branch around an instruction that can throw. -/
def branching : Body :=
  .assemble 1
    [.branchZero .eq ⟨0⟩ 3, .monitorEnter ⟨0⟩, .returnVoid, .moveException ⟨0⟩, .returnVoid]
    [⟨⟨2⟩, 1, [⟨none, ⟨4⟩⟩]⟩]

/-- The branch leads to the handler of the next instruction by an exception, and to its target by a
jump. -/
theorem branching_catch_drawn :
    ∃ g, build branching = .ok g ∧ g.successors (.instr 0) = [1, 3, 2] ∧
      (g.draw branching.lines).edges =
        [(0, .sequence, 1), (1, .sequence, 2), (1, .catch, 4), (1, .jump, 3), (2, .sequence, 3),
          (4, .sequence, 5)] ∧
      ¬ branching.NormalEdge 0 3 ∧ branching.NormalEdge 0 2 := by
  have hbuild : build branching =
      .ok ⟨[0], [some [1, 3, 2], some [2], some [], some [4], some []],
        [⟨true, ⟨[]⟩⟩, ⟨false, ⟨[0]⟩⟩, ⟨false, ⟨[0, 1]⟩⟩, ⟨false, ⟨[0]⟩⟩, ⟨false, ⟨[3]⟩⟩]⟩ :=
    ok_of_toOption (by decide +kernel)
  refine ⟨_, hbuild, rfl, by decide +kernel, ?_, ?_⟩
  · obtain ⟨l, kind, hl, hdrawn, hcatch⟩ := drawn_catch_iff (i := 0) (t := 3) hbuild (by decide)
    exact (hcatch.1 ((hdrawn .catch).1 (by decide +kernel)).symm).1
  · obtain ⟨l, kind, hl, hdrawn, hcatch⟩ := drawn_catch_iff (i := 0) (t := 2) hbuild (by decide)
    cases hl
    have hjump := (hdrawn .jump).1 (by decide +kernel)
    subst hjump
    exact Classical.byContradiction fun hnormal => absurd (hcatch.2 ⟨hnormal, rfl⟩) (by decide)

/-- A switch with a case that can throw. -/
def throwingCase : Body :=
  .assemble 2
    [.switch .packed ⟨0⟩ 7, .returnVoid, .throw ⟨1⟩, .moveException ⟨0⟩, .returnVoid,
      .packedTable 0 [4]]
    [⟨⟨4⟩, 1, [⟨none, ⟨5⟩⟩]⟩]

/-- The edge from the switch to the handler of its case is drawn as one to a case. -/
theorem throwingCase_catch_lost :
    throwingCase.Spaced ∧ ∃ g, build throwingCase = .ok g ∧ g.isReachable 0 = true ∧
      g.successors (.instr 0) = [1, 2, 3] ∧ ¬ throwingCase.NormalEdge 0 3 ∧
      (g.number 0, .switch, g.number 3) ∈ (g.draw throwingCase.lines).edges ∧
      (g.number 0, .catch, g.number 3) ∉ (g.draw throwingCase.lines).edges := by
  have hfits : throwingCase.Fits := ⟨⟨Body.laidOut_assemble 2 _ _, by decide⟩, by decide⟩
  have hbuild : build throwingCase =
      .ok ⟨[0], [some [1, 2, 3], some [], some [], some [4], some [], none],
        [⟨true, ⟨[]⟩⟩, ⟨false, ⟨[0]⟩⟩, ⟨false, ⟨[0]⟩⟩, ⟨false, ⟨[0]⟩⟩, ⟨false, ⟨[3]⟩⟩, .none]⟩ :=
    ok_of_toOption (by decide +kernel)
  refine ⟨hfits.toSpaced, _, hbuild, rfl, rfl, ?_, by decide +kernel, by decide +kernel⟩
  have hns : throwingCase.normalSuccessors 0 ⟨⟨0⟩, .switch .packed ⟨0⟩ 7⟩ = .ok [1, 2] :=
    ok_of_toOption (by decide +kernel)
  rw [← (hfits.normalSuccessors_ok rfl hns).1 3]
  decide

end Dalvik.FlowGraph
