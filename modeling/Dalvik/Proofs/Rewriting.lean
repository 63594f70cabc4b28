import Dalvik.Proofs.Flow

/-!
# Rewriting keeps the flow

An analysis runs over the flow graph of the body that was given.  What it puts in the place of an
odexed instruction goes on and throws like it, and neither jumps nor fetches an exception.  Only a
marker does not go on.

`Instr.Becomes` says so of one instruction, and `Body.Rewritten` of two bodies.  A rewritten body
has a graph if the first one has, and each instruction that it reaches has the successors it had
before, or none if it is a marker (`Rewritten.build`).  Analysed bodies are rewritten ones
(`rewritten_of_analysed`).
-/

namespace Dalvik

/-! ## Instructions -/

namespace Instr

variable {given i j : Instr}

/-- Whether the instruction is the marker of one that was not resolved. -/
def isUnresolved : Instr → Bool
  | .unresolvedOdex _ _ => true
  | _ => false

/-- The instruction does not jump, is no table and does not fetch an exception. -/
structure Straight (i : Instr) : Prop where
  offset : i.targetOffset? = none
  table : i.tableTargets? = none
  fetch : i.isMoveException = false

/-- What can stand in the place of an instruction in the end: the instruction, its standard form or
a marker. -/
inductive Becomes (given : Instr) : Instr → Prop where
  | same : Becomes given given
  | standard {j : Instr} (h : given.Standard j) : Becomes given j
  | marker {r : Reg} (h : given.markedRegister? = some r) :
    Becomes given (.unresolvedOdex r given.size)

theorem canContinue_of_isUnresolved (h : i.isUnresolved = true) : i.canContinue = false := by
  cases i with
  | unresolvedOdex => rfl
  | _ => cases h

/-- Markers do not jump. -/
theorem straight_of_isUnresolved (h : i.isUnresolved = true) : i.Straight := by
  cases i with
  | unresolvedOdex => exact ⟨rfl, rfl, rfl⟩
  | _ => cases h

theorem odexOnly_of_hasStandardForm (h : i.hasStandardForm = true) : i.odexOnly = true := by
  unfold hasStandardForm at h
  split at h
  · cases h
  · exact h

namespace Standard

theorem straight (h : i.Standard j) : i.Straight ∧ j.Straight := by
  cases h <;> exact ⟨⟨rfl, rfl, rfl⟩, ⟨rfl, rfl, rfl⟩⟩

theorem not_odexOnly (h : i.Standard j) : j.odexOnly = false := by
  cases h <;> rfl

theorem canThrow (h : i.Standard j) : j.canThrow = i.canThrow := by
  cases h <;> rfl

theorem canContinue (h : i.Standard j) : j.canContinue = i.canContinue := by
  cases h <;> rfl

end Standard

/-- What has a register for a marker can throw, and does not jump. -/
theorem straight_of_markedRegister? {r : Reg} (h : i.markedRegister? = some r) :
    i.canThrow = true ∧ i.Straight := by
  cases i with
  | instanceQuick | executeInline | invokeQuick => exact ⟨rfl, rfl, rfl, rfl⟩
  | _ => cases h

namespace Becomes

/-- Unless nothing was replaced, neither instruction jumps. -/
theorem straight (h : given.Becomes i) : i = given ∨ given.Straight ∧ i.Straight := by
  cases h with
  | same => exact .inl rfl
  | standard h => exact .inr h.straight
  | marker h => exact .inr ⟨(straight_of_markedRegister? h).2, rfl, rfl, rfl⟩

theorem canThrow (h : given.Becomes i) : i.canThrow = given.canThrow := by
  cases h with
  | same => rfl
  | standard h => exact h.canThrow
  | marker h => exact (straight_of_markedRegister? h).1.symm

theorem tableTargets? (h : given.Becomes i) : i.tableTargets? = given.tableTargets? := by
  rcases h.straight with rfl | ⟨hgiven, hi⟩
  · rfl
  · rw [hgiven.table, hi.table]

theorem isMoveException (h : given.Becomes i) : i.isMoveException = given.isMoveException := by
  rcases h.straight with rfl | ⟨hgiven, hi⟩
  · rfl
  · rw [hgiven.fetch, hi.fetch]

theorem canContinue (h : given.Becomes i) (hi : i.isUnresolved = false) :
    i.canContinue = given.canContinue := by
  cases h with
  | same => rfl
  | standard h => exact h.canContinue
  | marker => cases hi

/-- Only what was not replaced is odexed. -/
theorem eq_of_odexOnly (h : given.Becomes i) (hi : i.odexOnly = true) : i = given := by
  cases h with
  | same => rfl
  | standard h =>
    rw [h.not_odexOnly] at hi
    cases hi
  | marker => cases hi

theorem final (h : given.Becomes i) (hi : i.odexOnly = true) (hj : i.finalForm = .ok j) :
    given.Becomes j := by
  cases h.eq_of_odexOnly hi
  rcases finalForm_ok hj with hstandard | ⟨r, hr, rfl⟩ | rfl
  · exact .standard hstandard
  · exact .marker hr
  · exact .same

end Becomes

end Instr

/-! ## Bodies -/

/-- A body with other instructions in the same places. -/
structure Body.Rewritten (b b' : Body) : Prop where
  tries : b'.tries = b.tries
  places : b'.lines.map Line.place = b.lines.map Line.place
  becomes : ∀ {i : Nat} {l l' : Line}, b.lines[i]? = some l → b'.lines[i]? = some l' →
    l.instr.Becomes l'.instr

namespace Body.Rewritten

variable {b b' : Body} (h : b.Rewritten b') {l l' : Line} {i t : Nat}
include h

/-- The lines stay where they are. -/
theorem length : b'.lines.length = b.lines.length := by
  simpa using congrArg List.length h.places

/-- Lines at the same index stand at the same address. -/
theorem addr (hl : b.lines[i]? = some l) (hl' : b'.lines[i]? = some l') : l'.addr = l.addr := by
  have hplace := congrArg (·[i]?) h.places
  simp only [List.getElem?_map, hl, hl', Option.map_some] at hplace
  exact congrArg Prod.fst (Option.some.inj hplace)

theorem getElem? (hl' : b'.lines[i]? = some l') : ∃ l, b.lines[i]? = some l := by
  have hlt := (List.getElem?_eq_some_iff.1 hl').1
  exact ⟨_, List.getElem?_eq_getElem (h.length ▸ hlt)⟩

theorem getElem?_none (hl' : b'.lines[i]? = none) : b.lines[i]? = none := by
  rw [List.getElem?_eq_none_iff] at hl' ⊢
  rwa [← h.length]

/-- Jumps lead to the same places. -/
theorem target_eq (a : Addr) (offset : Int) : b'.target a offset = b.target a offset := by
  unfold target
  rw [find?_of_map_place h.places]

/-- The handlers of instructions at the same index. -/
theorem handlersOf_eq (hl : b.lines[i]? = some l) (hl' : b'.lines[i]? = some l') :
    b'.handlersOf l' = b.handlersOf l := by
  have hindex : b'.handlerIndex = b.handlerIndex := by
    funext handler
    unfold handlerIndex indexAt
    rw [find?_of_map_place h.places]
  unfold handlersOf handlersAt
  rw [(h.becomes hl hl').canThrow, h.addr hl hl', h.tries, hindex]

/-- Handlers start at the same places. -/
theorem handlers_eq : b'.lines.mapM b'.handlersOf = b.lines.mapM b.handlersOf := by
  apply mapM_eq_of_map_eq
  apply List.ext_getElem?
  intro i
  simp only [List.getElem?_map]
  cases hl' : b'.lines[i]? with
  | none => simp only [h.getElem?_none hl', Option.map_none]
  | some l' =>
    obtain ⟨l, hl⟩ := h.getElem? hl'
    rw [hl]
    exact congrArg some (h.handlersOf_eq hl hl')

/-- Switches lead to the same places. -/
theorem switchTargets_eq (a : Addr) (offset : Int) :
    b'.switchTargets a offset = b.switchTargets a offset := by
  have htarget : b'.target a = b.target a := funext (h.target_eq a)
  unfold switchTargets
  rw [htarget]
  cases b.target a offset with
  | error e => rfl
  | ok k =>
    cases hl' : b'.lines[k]? with
    | none => simp only [bind, Except.bind, h.getElem?_none hl', hl']
    | some table' =>
      obtain ⟨table, hl⟩ := h.getElem? hl'
      simp only [bind, Except.bind, hl, hl', (h.becomes hl hl').tableTargets?, h.addr hl hl']

/-- The jumps of instructions at the same index. -/
theorem jumpTargets_eq (hl : b.lines[i]? = some l) (hl' : b'.lines[i]? = some l') :
    b'.jumpTargets l' = b.jumpTargets l := by
  have haddr := h.addr hl hl'
  have hbecomes := h.becomes hl hl'
  obtain ⟨a, given⟩ := l
  obtain ⟨a', instr⟩ := l'
  cases haddr
  unfold jumpTargets
  rcases hbecomes.straight with rfl | ⟨hgiven, hinstr⟩
  · simp only [h.switchTargets_eq, h.target_eq]
  · simp only [hgiven.offset, hinstr.offset]

/-- A place that may be entered still may. -/
theorem enterable (ht : b.Enterable t) : b'.Enterable t := by
  intro l' hl'
  obtain ⟨l, hl⟩ := h.getElem? hl'
  rw [(h.becomes hl hl').isMoveException]
  exact ht l hl

theorem checkEdge_ok {source source' : String} {a a' : Addr}
    (ht : b.checkEdge source a t = .ok ()) : b'.checkEdge source' a' t = .ok () :=
  checkEdge_ok_iff.2 (h.enterable (checkEdge_ok_iff.1 ht))

/-- What can be continued to from the same index. -/
theorem nextOf_eq {next : List Nat} (hl : b.lines[i]? = some l) (hl' : b'.lines[i]? = some l')
    (hnext : b.nextOf i l = .ok next) :
    b'.nextOf i l' = .ok (if l'.instr.isUnresolved then [] else next) := by
  unfold nextOf at hnext ⊢
  cases hr : l'.instr.isUnresolved with
  | true =>
    rw [Instr.canContinue_of_isUnresolved hr]
    rfl
  | false =>
    rw [(h.becomes hl hl').canContinue hr, h.length]
    split at hnext
    · next hcont =>
      split at hnext
      · next hlt =>
        obtain ⟨_, hedge, hnext⟩ := except_bind_ok.1 hnext
        cases hnext
        rw [if_pos hcont, if_pos hlt, h.checkEdge_ok hedge]
        rfl
      · cases hnext
    · next hcont =>
      cases hnext
      rw [if_neg hcont]
      rfl

/-- The normal successors of instructions at the same index. -/
theorem normalSuccessors_eq {ns : List Nat} (hl : b.lines[i]? = some l)
    (hl' : b'.lines[i]? = some l') (hns : b.normalSuccessors i l = .ok ns) :
    b'.normalSuccessors i l' = .ok (if l'.instr.isUnresolved then [] else ns) := by
  unfold normalSuccessors at hns ⊢
  obtain ⟨next, hnext, hns⟩ := except_bind_ok.1 hns
  obtain ⟨targets, htargets, hns⟩ := except_bind_ok.1 hns
  obtain ⟨_, hedges, hns⟩ := except_bind_ok.1 hns
  cases hns
  have hedges' : targets.forM (b'.checkEdge l'.instr.mnemonic l'.addr) = .ok () :=
    except_forM_ok.2 fun t ht => h.checkEdge_ok (except_forM_ok.1 hedges t ht)
  rw [h.nextOf_eq hl hl' hnext, h.jumpTargets_eq hl hl', htargets]
  refine except_bind_ok.2 ⟨_, rfl, except_bind_ok.2 ⟨_, rfl, except_bind_ok.2 ⟨_, hedges', ?_⟩⟩⟩
  cases hr : l'.instr.isUnresolved with
  | false => rfl
  | true =>
    -- A marker has no jumps, so the instruction in whose place it is had none either.
    have hnone : b'.jumpTargets l' = .ok [] := by
      unfold jumpTargets
      rw [(Instr.straight_of_isUnresolved hr).offset]
    rw [h.jumpTargets_eq hl hl', htargets] at hnone
    cases hnone
    rfl

/-! ## Graphs -/

variable {g : FlowGraph} {handlers : List (List Nat)}

/-- What is found in a rewritten body was found before. -/
theorem visited (hg : FlowGraph.Built b handlers g)
    (hi : FlowGraph.Visited b' handlers g.entry i) : FlowGraph.Visited b handlers g.entry i := by
  induction hi with
  | entry hk => exact .entry hk
  | @step i k l' normal' _ hl' hnormal' hk ih =>
    obtain ⟨_, _, l, normal, hl, hnormal, _⟩ := hg.finished ih
    rw [h.normalSuccessors_eq hl hl' hnormal] at hnormal'
    cases hnormal'
    split at hk
    · rw [FlowGraph.close_nil] at hk
      cases hk
    · exact .step ih hl hnormal hk

/-- A rewritten body has a graph. -/
theorem exists_build (hg : FlowGraph.Built b handlers g) : ∃ g', FlowGraph.build b' = .ok g' := by
  cases hbuild : FlowGraph.build b' with
  | ok g' => exact ⟨g', rfl⟩
  | error e =>
    exfalso
    cases FlowGraph.faulty_of_build hbuild with
    | empty hnone =>
      apply hg.lines
      rw [← List.length_eq_zero_iff, ← h.length, hnone]
      rfl
    | handlers herror =>
      rw [h.handlers_eq, hg.handled] at herror
      cases herror
    | first herror =>
      rw [h.checkEdge_ok hg.first] at herror
      cases herror
    | visited hhandlers hi hl' herror =>
      rw [h.handlers_eq, hg.handled] at hhandlers
      cases hhandlers
      obtain ⟨_, _, l, normal, hl, hnormal, _⟩ := hg.finished (h.visited hg (hg.entry ▸ hi))
      rw [h.normalSuccessors_eq hl hl' hnormal] at herror
      cases herror

/-- A rewritten body has a graph, and all that it reaches was reached before.  Its successors are
those it had before, or none if it is a marker. -/
theorem build (hg : FlowGraph.build b = .ok g) :
    ∃ g', FlowGraph.build b' = .ok g' ∧ g'.entry = g.entry ∧
      ∀ i, g'.isReachable i = true → g.isReachable i = true ∧ ∃ l', b'.lines[i]? = some l' ∧
        g'.successors (.instr i) =
          if l'.instr.isUnresolved then [] else g.successors (.instr i) := by
  obtain ⟨handlers, hg⟩ := FlowGraph.built_of_build hg
  obtain ⟨g', hbuild⟩ := h.exists_build hg
  obtain ⟨handlers', hg'⟩ := FlowGraph.built_of_build hbuild
  have hhandlers := hg'.handled
  rw [h.handlers_eq, hg.handled] at hhandlers
  cases hhandlers
  have hentry : g'.entry = g.entry := hg'.entry.trans hg.entry.symm
  refine ⟨g', hbuild, hentry, fun i hi => ?_⟩
  have hvisited' := hg'.isReachable_iff.1 hi
  have hvisited := h.visited hg (hentry ▸ hvisited')
  refine ⟨hg.isReachable_iff.2 hvisited, ?_⟩
  obtain ⟨succs, hfin⟩ := hg.finished hvisited
  obtain ⟨succs', hfin'⟩ := hg'.finished hvisited'
  rw [hg.successors_of_finished hfin, hg'.successors_of_finished hfin']
  obtain ⟨_, l, normal, hl, hnormal, rfl⟩ := hfin
  obtain ⟨_, l', normal', hl', hnormal', rfl⟩ := hfin'
  rw [h.normalSuccessors_eq hl hl' hnormal] at hnormal'
  cases hnormal'
  refine ⟨l', hl', ?_⟩
  dsimp only at hl' ⊢
  split
  · exact FlowGraph.close_nil
  · rfl

end Body.Rewritten

namespace Analysis

/-! ## Analyses -/

namespace State

variable {st : State} {i : Nat} {p : Point} {instr : Instr}

/-- At each point there is what can stand in the place of the given instruction. -/
def Rewriting (st : State) : Prop :=
  ∀ (i : Nat) (p : Point), st.points[i]? = some p → p.given.Becomes p.instr

/-- What may stand in the place of an instruction can be put there. -/
theorem Rewriting.setInstr (h : st.Rewriting) (hp : st.points[i]? = some p)
    (hinstr : p.given.Becomes instr) : (st.setInstr i instr).Rewriting := by
  intro j q hq
  rw [setInstr_points] at hq
  split at hq
  · next hij =>
    subst hij
    rw [hp] at hq
    cases hq
    exact hinstr
  · exact h j q hq

end State

/-- No step of an analysis puts anything else in the place of an instruction. -/
theorem Subject.rewriting_invariant (s : Subject) :
    s.Invariant (fun _ => True) State.Rewriting where
  assign h _ hassign := by
    intro i p' hp'
    obtain ⟨hframe, hinstrs⟩ := frame_of_assign hassign
    obtain ⟨p, hp, hinstr, _, hgiven, _⟩ := State.point_of_frame hframe hinstrs hp'
    rw [hinstr, hgiven]
    exact h i p hp
  effect := by
    intro i p e m st h _ _
    exact ⟨h, by cases e <;> trivial⟩
  wait h _ _ := h
  standard := by
    intro i p instr m st h hp hform hstandard
    have hgiven := (h i p hp).eq_of_odexOnly (Instr.odexOnly_of_hasStandardForm hform)
    have h' : ({ st with memo := m } : State).Rewriting := h
    exact h'.setInstr hp (.standard (hgiven ▸ standard_of_standardForm? hstandard))
  restore := by
    intro i st h
    unfold restore
    split
    · next p hp =>
      split
      · exact h.setInstr hp .same
      · exact h
    · exact h
  settle h := h
  final h hp hodex hform := State.Rewriting.setInstr h hp ((h _ _ hp).final hodex hform)
  param _ := trivial
  receiver _ := ⟨trivial, trivial⟩
  uninit := trivial

section Analysed

variable {cp : ClassPath} {options : Options} {cls : ClassDef} {method : MethodDef} {b : Body}
  {m m' : Memo} {a : Analysed}

/-- The lines of an analysed body come from its points. -/
theorem point_of_line {i : Nat} {l : Line} (hl : a.body.lines[i]? = some l) :
    ∃ p, a.points[i]? = some p ∧ p.instr = l.instr := by
  have hinstrs : a.body.lines.map Line.instr = a.points.toList.map Point.instr :=
    Body.map_instr_layOut .entry a.instrs
  have hinstr := congrArg (·[i]?) hinstrs
  simp only [List.getElem?_map, hl, Option.map_some, Array.getElem?_toList] at hinstr
  obtain ⟨p, hp, hinstr⟩ := Option.map_eq_some_iff.1 hinstr.symm
  exact ⟨p, hp, hinstr⟩

/-- What stands at a point in the end came from what was given there. -/
theorem becomes_of_analysed {i : Nat} {p : Point}
    (h : analyseMethod cp options cls method m = .ok a m') (hp : a.points[i]? = some p) :
    p.given.Becomes p.instr := by
  obtain ⟨_, hrewriting⟩ := Subject.Invariant.analysed h (Subject.rewriting_invariant _) (by
    intro j q hq
    simp only [State.initial, List.getElem?_toArray, List.getElem?_map,
      Option.map_eq_some_iff] at hq
    obtain ⟨line, _, rfl⟩ := hq
    exact .same)
  exact hrewriting i p hp

/-- An analysis rewrites a body. -/
theorem rewritten_of_analysed (hbody : method.body? = some b) (hb : b.LaidOut)
    (h : analyseMethod cp options cls method m = .ok a m') : b.Rewritten a.body where
  tries := by
    rw [← body_of_analysed hbody h]
    rfl
  places := map_place_of_analysed hbody hb h
  becomes := by
    intro i l l' hl hl'
    obtain ⟨settled, hplaced⟩ := inPlace_of_analysed h
    obtain ⟨p, hp, hinstr⟩ := point_of_line hl'
    have hgiven := congrArg (·[i]?) hplaced.1
    simp only [Analysed.final, body_of_analysed hbody h, List.getElem?_map,
      Array.getElem?_toList, hp, hl, Option.map_some, Option.some.injEq] at hgiven
    rw [← hinstr, ← hgiven]
    exact becomes_of_analysed h hp

/-- The body that comes out of an analysis has a graph.  It starts as the graph that was analysed,
and what it reaches was reached there.  The successors are the same, but a marker has none. -/
theorem deodexing_keeps_flow (hbody : method.body? = some b) (hb : b.LaidOut)
    (h : analyseMethod cp options cls method m = .ok a m') :
    ∃ g, FlowGraph.build a.body = .ok g ∧ g.entry = a.subject.graph.entry ∧
      ∀ i, g.isReachable i = true → a.subject.graph.isReachable i = true ∧
        ∃ p, a.points[i]? = some p ∧ g.successors (.instr i) =
          if p.instr.isUnresolved then [] else a.subject.graph.successors (.instr i) := by
  have hgraph : FlowGraph.build b = .ok a.subject.graph :=
    body_of_analysed hbody h ▸ (graph_of_analysed h).1
  obtain ⟨g, hbuild, hentry, hreach⟩ := (rewritten_of_analysed hbody hb h).build hgraph
  refine ⟨g, hbuild, hentry, fun i hi => ?_⟩
  obtain ⟨hreached, l, hl, hsuccessors⟩ := hreach i hi
  obtain ⟨p, hp, hinstr⟩ := point_of_line hl
  exact ⟨hreached, p, hp, hinstr ▸ hsuccessors⟩

end Analysed

/-- An odexed method that reads a field of an object and then of nothing, with a handler for
both. -/
def guardedMethod : MethodDef :=
  ⟨"m", [.cls "A"], .void, .ofList [.static],
    some (.assemble 2
      [.instanceQuick .get .narrow ⟨0⟩ ⟨1⟩ 8, .const .four ⟨1⟩ 0,
        .instanceQuick .get .narrow ⟨0⟩ ⟨1⟩ 8, .returnVoidBarrier]
      [⟨⟨0⟩, 5, [⟨none, ⟨5⟩⟩]⟩])⟩

/-- Its body after the analysis. -/
def guardedBody : Body :=
  .assemble 2
    [.instanceAccess .get .word ⟨0⟩ ⟨1⟩ ⟨.cls "A", "x", .int⟩, .const .four ⟨1⟩ 0,
      .unresolvedOdex ⟨1⟩ 2, .returnVoid]
    [⟨⟨0⟩, 5, [⟨none, ⟨5⟩⟩]⟩]

/-- The second access is marked, and nothing follows it any more.  The other successors stay. -/
theorem guardedMethod_keeps_flow :
    ∃ a m' g, analyseMethod (.ofClasses [barrierClass] 15) {} barrierClass guardedMethod .empty =
        .ok a m' ∧
      a.body = guardedBody ∧ FlowGraph.build guardedBody = .ok g ∧
      a.subject.graph.successors (.instr 2) = [3] ∧ g.successors (.instr 2) = [] ∧
      g.successors (.instr 1) = a.subject.graph.successors (.instr 1) := by
  have hrun : ∃ a m', analyseMethod (.ofClasses [barrierClass] 15) {} barrierClass guardedMethod
      .empty = .ok a m' ∧ a.body = guardedBody ∧
        (a.points[1]?).map Point.instr = some (.const .four ⟨1⟩ 0) ∧
        (a.points[2]?).map Point.instr = some (.unresolvedOdex ⟨1⟩ 2) ∧
        a.subject.graph.successors (.instr 2) = [3] := by
    decide +kernel
  obtain ⟨a, m', h, hbody, hfirst, hsecond, hgraph⟩ := hrun
  obtain ⟨g, hbuild, _, hreach⟩ := deodexing_keeps_flow rfl (Body.laidOut_assemble 2 _ _) h
  have hg : FlowGraph.build guardedBody =
      .ok ⟨[0, 3], [some [1], some [2, 3], some [], some []],
        [⟨true, ⟨[]⟩⟩, ⟨false, ⟨[0]⟩⟩, ⟨false, ⟨[1]⟩⟩, ⟨true, ⟨[1]⟩⟩]⟩ :=
    ok_of_toOption (by decide +kernel)
  rw [hbody, hg] at hbuild
  cases hbuild
  obtain ⟨_, p, hp, hsuccs⟩ := hreach 1 rfl
  obtain ⟨_, q, hq, hnone⟩ := hreach 2 rfl
  rw [hp] at hfirst
  rw [hq] at hsecond
  rw [Option.some.inj hfirst] at hsuccs
  rw [Option.some.inj hsecond] at hnone
  exact ⟨a, m', _, h, hbody, hg, hgraph, hnone, hsuccs⟩

end Analysis

end Dalvik
