import Dalvik.Proofs.Markers

/-!
# What is left of odexed code

An analysis only touches odexed instructions, and leaves few of them: an instruction that stands for
a verification error, and calls without registers that no marker can name.

When the outcome is analysed again nothing changes.  The second run comes to no point that the first
one did not come to, since nothing follows a marker, and the fetch of a result that the first run
waited for cannot be done in the second one either.  What the first run came to has no standard form
any more (`hasStandardForm_of_attempted`), and what it did not come to is only replaced if a marker
or a form for it was there already.
-/

namespace Dalvik

namespace Instr

variable {i j : Instr}

/-- The odexed instructions that have neither a form that can be read off nor a register for a
marker. -/
theorem left_cases (hodex : i.odexOnly = true) (hplain : i.plainForm? = .ok none)
    (hmarked : i.markedRegister? = none) :
    (∃ kind ref, i = .throwVerificationError kind ref) ∨
      (∃ index, i = .executeInline (.list []) index) ∨
        ∃ dispatch index, i = .invokeQuick dispatch (.list []) index := by
  cases i with
  | throwVerificationError kind ref => exact .inl ⟨kind, ref, rfl⟩
  | executeInline args index =>
    cases args with
    | list regs =>
      cases regs with
      | nil => exact .inr (.inl ⟨index, rfl⟩)
      | cons => cases hmarked
    | range => cases hmarked
  | invokeQuick dispatch args index =>
    cases args with
    | list regs =>
      cases regs with
      | nil => exact .inr (.inr ⟨dispatch, index, rfl⟩)
      | cons => cases hmarked
    | range => cases hmarked
  | instanceQuick => cases hmarked
  | returnVoidBarrier | invokeDirectEmpty => cases hplain
  | invokeObjectInit =>
    simp only [plainForm?] at hplain
    split at hplain <;> cases hplain
  | instanceVolatile | staticVolatile =>
    obtain ⟨_, _, hnone⟩ := except_map_ok.1 hplain
    cases hnone
  | _ => cases hodex

/-- A second replacement changes nothing. -/
theorem Ends.again {i' : Instr} (h : i.Ends j) (h' : j.Ends i') : i' = j := by
  cases hodex : j.odexOnly with
  | false => exact h'.eq_of_not_odexOnly hodex
  | true =>
    obtain ⟨hplain, hmarked⟩ := h.left_of_odexOnly hodex
    obtain hform | ⟨_, ⟨r, hr, _⟩ | ⟨_, hsame⟩⟩ := finalForm_cases (h'.finalForm hodex)
    · cases hform.symm.trans hplain
    · cases hmarked.symm.trans hr
    · exact hsame

theorem Resolves.eq_of_not_hasStandardForm (h : i.Resolves j) (hi : i.hasStandardForm = false) :
    j = i := by
  cases h with
  | same => rfl
  | standard h => cases hi.symm.trans h.hasStandardForm

end Instr

namespace Analysis

section Analysed

variable {cp : ClassPath} {options : Options} {cls : ClassDef} {method : MethodDef} {b : Body}
  {m m' : Memo} {a : Analysed} {i : Nat} {p : Point}

/-! ## The first run -/

/-- What stands at a point in the end has been through the last replacement. -/
theorem ends_of_analysed (h : analyseMethod cp options cls method m = .ok a m')
    (hp : a.points[i]? = some p) : ∃ instr : Instr, instr.Ends p.instr := by
  obtain ⟨_, _, _, hreplaced⟩ := explored_of_analysed h
  obtain ⟨q, _, _, _, hends⟩ := hreplaced.point hp
  exact ⟨q.instr, hends⟩

/-- The points have the instructions of the body. -/
theorem given_of_analysed (hbody : method.body? = some b)
    (h : analyseMethod cp options cls method m = .ok a m') (hp : a.points[i]? = some p) :
    b.instrs[i]? = some p.given := by
  obtain ⟨_, hplaced⟩ := inPlace_of_analysed h
  have hline := congrArg (·[i]?) hplaced.1
  simp only [Analysed.final, body_of_analysed hbody h, List.getElem?_map, Array.getElem?_toList, hp,
    Option.map_some] at hline
  rw [Body.instrs, List.getElem?_map, ← hline]
  rfl

/-- A point that waits has a marker, or fetches a result that is not known. -/
theorem unresolved_of_waits (h : analyseMethod cp options cls method m = .ok a m')
    (hwaits : Waits a.points i) (hp : a.points[i]? = some p) :
    p.instr.isUnresolved = true ∨ (p.instr.isMoveResult = true ∧
      ∀ j q, i = j + 1 → a.points[j]? = some q → resultType? q.instr = none) := by
  obtain ⟨done, st, hexplored, hreplaced⟩ := explored_of_analysed h
  obtain ⟨_, hdone⟩ := attempted_of_explored hexplored hreplaced
  cases hwaits with
  | receiver hq hobject ht hvacant =>
    cases hp.symm.trans hq
    left
    rw [(marked_iff_not_done hexplored hreplaced hp (Instr.isQuick_of_quickObject? hobject)
      (Instr.markedRegister?_of_quickObject? hobject)).2
        fun hd => (hdone.1 hd).2 (.receiver hp hobject ht hvacant)]
    rfl
  | result hq hfetch hnone =>
    cases hp.symm.trans hq
    right
    have hodex : p.given.odexOnly = false := Bool.eq_false_iff.2 fun hodex => by
      cases (Instr.not_isMoveResult_of_odexOnly hodex).symm.trans hfetch
    rw [(becomes_of_analysed h hp).eq_given hodex]
    exact ⟨hfetch, hnone⟩

/-- What a run came to has no standard form any more. -/
theorem hasStandardForm_of_attempted (h : analyseMethod cp options cls method m = .ok a m')
    (hi : a.Attempted i) (hp : a.points[i]? = some p) : p.instr.hasStandardForm = false := by
  obtain ⟨done, st, hexplored, hreplaced⟩ := explored_of_analysed h
  rcases (attempted_of_explored hexplored hreplaced).1 hi with hdone | hwaits
  · obtain ⟨q, hq, _, _, hends⟩ := hreplaced.point hp
    have hform := (hexplored.resolved hdone hq).hasStandardForm
    rw [hends.eq_of_not_hasStandardForm hform]
    exact hform
  · rcases unresolved_of_waits h hwaits hp with hinstr | ⟨hinstr, _⟩
    · cases hq : p.instr with
      | unresolvedOdex => rfl
      | _ =>
        rw [hq] at hinstr
        cases hinstr
    · cases hq : p.instr with
      | moveResult => rfl
      | _ =>
        rw [hq] at hinstr
        cases hinstr

/-! ## The second run -/

/-- What holds in a run over the outcome of an analysis: it only comes to what was attempted before,
and changes no instruction. -/
structure Analysed.Retraced (a : Analysed) (agenda : Subject.Agenda) (st : State) : Prop where
  attempted : ∀ {i}, i ∈ agenda.pending ∨ i ∈ agenda.waiting → a.Attempted i
  size : st.points.size = a.points.size
  given : ∀ {i : Nat} {p : Point}, st.points[i]? = some p →
    p.instr = p.given ∧ ∃ q, a.points[i]? = some q ∧ p.given = q.instr

/-- The graph of the outcome has fewer edges, and none behind a marker. -/
theorem successors_of_outcome {g : FlowGraph} {k : Nat} (hbody : method.body? = some b)
    (hb : b.LaidOut) (h : analyseMethod cp options cls method m = .ok a m')
    (hg : FlowGraph.build a.body = .ok g) (hk : k ∈ g.successors (.instr i)) :
    k ∈ a.subject.graph.successors (.instr i) ∧
      ∃ p, a.points[i]? = some p ∧ p.instr.isUnresolved = false := by
  have hgraph : FlowGraph.build b = .ok a.subject.graph :=
    body_of_analysed hbody h ▸ (graph_of_analysed h).1
  obtain ⟨g', hbuild, _, hreach⟩ := (rewritten_of_analysed hbody hb h).build hgraph
  cases hg.symm.trans hbuild
  obtain ⟨_, l, hl, hsuccessors⟩ := hreach i (FlowGraph.isReachable_of_edge hg hk).1
  obtain ⟨p, hp, hinstr⟩ := point_of_line hl
  rw [hsuccessors] at hk
  cases hmarker : l.instr.isUnresolved with
  | true => simp [hmarker] at hk
  | false =>
    simp only [hmarker, Bool.false_eq_true, if_false] at hk
    exact ⟨hk, p, hp, hinstr ▸ hmarker⟩

/-- A result that is not known in the outcome stays unknown in the second run. -/
theorem Analysed.Retraced.not_ready {agenda : Subject.Agenda} {st : State}
    (h : a.Retraced agenda st) (hp : a.points[i]? = some p) (hfetch : p.instr.isMoveResult = true)
    (hnone : ∀ j q, i = j + 1 → a.points[j]? = some q → resultType? q.instr = none) :
    ¬ Ready st.points i := by
  intro hready
  obtain ⟨hlt, _⟩ := Array.getElem?_eq_some_iff.1 hp
  obtain ⟨p₁, hp₁⟩ : ∃ p₁, st.points[i]? = some p₁ :=
    ⟨_, Array.getElem?_eq_getElem (h.size ▸ hlt)⟩
  obtain ⟨_, q, hq, hsame⟩ := h.given hp₁
  cases hp.symm.trans hq
  obtain ⟨j, q, hj, hq, hknown⟩ := hready.result hp₁ (by rw [hsame, hfetch])
  obtain ⟨hinstr, q', hq', hsame⟩ := h.given hq
  exact hknown (hinstr.trans hsame ▸ hnone j q' hj hq')

/-- One pass of the second run. -/
theorem Analysed.Retraced.pass {s : Subject} {agenda rest : Subject.Agenda} {d : Bool}
    {st st' : State} (hbody : method.body? = some b) (hb : b.LaidOut)
    (h : analyseMethod cp options cls method m = .ok a m')
    (hg : FlowGraph.build a.body = .ok s.graph) (hretraced : a.Retraced agenda st)
    (htake : agenda.take? st.settled = some (i, rest)) (hpass : s.pass i st = .ok d st') :
    a.Retraced (rest.after i d (s.graph.successors (.instr i)))
      (if d then st'.settle i else st') := by
  obtain ⟨_, hmem, hwaiting, hpending⟩ := Subject.Agenda.take?_some htake
  have hi : a.Attempted i := hretraced.attempted hmem
  have hrest {j : Nat} (hj : j ∈ rest.pending ∨ j ∈ rest.waiting) : a.Attempted j :=
    hj.elim (fun hj => hretraced.attempted (hpending j hj))
      fun hj => hretraced.attempted (.inr (hwaiting ▸ hj))
  have hrewriting : st.Rewriting := by
    intro j q hq
    rw [(hretraced.given hq).1]
    exact .same
  obtain ⟨rfl, _, m₁, rfl⟩ | ⟨rfl, hready, hadvance, hresolved⟩ :=
    Subject.attempt_of_pass hrewriting hpass
  · rw [Subject.restore_of_given fun hp => (hretraced.given hp).1]
    refine ⟨fun {j} hj => ?_, hretraced.size, hretraced.given⟩
    simp only [Subject.Agenda.after, Bool.false_eq_true, if_false, Worklist.mem_insert] at hj
    rcases hj with hj | rfl | hj
    · exact hrest (.inl hj)
    · exact hi
    · exact hrest (.inr hj)
  · refine ⟨fun {j} hj => ?_, hadvance.size.trans hretraced.size, fun {j p'} hp' => ?_⟩
    · simp only [Subject.Agenda.after, if_true, Worklist.mem_insertAll, Worklist.mem_erase] at hj
      rcases hj with (hj | hj) | hj
      · obtain ⟨hsucc, q, hq, hmarker⟩ := successors_of_outcome hbody hb h hg hj
        refine .next hi (fun hwaits => ?_) hsucc
        rcases unresolved_of_waits h hwaits hq with hinstr | ⟨hfetch, hnone⟩
        · cases hmarker.symm.trans hinstr
        · exact hretraced.not_ready hq hfetch hnone hready
      · exact hrest (.inl hj)
      · exact hrest (.inr hj.1)
    · obtain ⟨p, hp, hgiven⟩ := hadvance.point_before hp'
      obtain ⟨hinstr, q, hq, hsame⟩ := hretraced.given hp
      refine ⟨?_, q, hq, hgiven.trans hsame⟩
      by_cases hji : j = i
      · subst hji
        have hform := hasStandardForm_of_attempted h hi hq
        exact (hresolved p' hp').eq_of_not_hasStandardForm (by rw [hgiven, hsame, hform])
      · rw [hadvance.instr hji hp hp', hgiven, hinstr]

/-- The second run changes no instruction. -/
theorem instrs_of_outcome {options' : Options} {a' : Analysed} {m₁ m₂ : Memo}
    (hbody : method.body? = some b) (hb : b.LaidOut)
    (h : analyseMethod cp options cls method m = .ok a m')
    (h' : analyseMethod cp options' cls { method with body? := some a.body } m₁ = .ok a' m₂) :
    a'.instrs = a.instrs := by
  have hbody' : a'.subject.body = a.body := body_of_analysed rfl h'
  have hg : FlowGraph.build a.body = .ok a'.subject.graph := hbody' ▸ (graph_of_analysed h').1
  have hgraph : FlowGraph.build b = .ok a.subject.graph :=
    body_of_analysed hbody h ▸ (graph_of_analysed h).1
  have hentry : a'.subject.graph.entry = a.subject.graph.entry := by
    obtain ⟨g, hbuild, hentry, _⟩ := (rewritten_of_analysed hbody hb h).build hgraph
    cases hg.symm.trans hbuild
    exact hentry
  have hlength : a.body.lines.length = a.points.size := by
    simpa [Analysed.body, Body.assemble, Analysed.instrs] using
      congrArg List.length (Body.map_instr_layOut .entry a.instrs)
  obtain ⟨_, isStatic, locals, limit, settled, st₁, st₂, henter, hrun, hfinish⟩ :=
    analyseMethod_ok h'
  have hsize : st₁.points.size = a.points.size := by
    have hframe := congrArg (fun f => f.2.length) (Subject.touched_of_enter henter).frame
    simpa [State.frame, State.initial, hbody', hlength] using hframe
  have hstart : a.Retraced
      ⟨Worklist.empty.insertAll a'.subject.graph.entry, .empty, false⟩ st₁ := by
    refine ⟨fun hi => ?_, hsize, fun hp => ?_⟩
    · exact .entry (by simpa [hentry] using hi)
    · obtain ⟨l, hl, hinstr, hgiven⟩ := Subject.line_of_enter henter hp
      rw [hbody'] at hl
      obtain ⟨q, hq, hline⟩ := point_of_line hl
      exact ⟨hinstr.trans hgiven.symm, q, hq, hgiven.trans hline.symm⟩
  obtain ⟨_, hretraced, _⟩ := Subject.runFrom_keeps (I := a.Retraced)
    (fun hI htake hpass => hI.pass hbody hb h hg htake hpass) hstart hrun
  have hreplaced : Replaced st₂.points a'.points :=
    Subject.replaced_of_finish (hretraced.size.trans (hlength ▸ hbody' ▸ rfl)) hfinish
  refine List.ext_getElem? fun i => ?_
  simp only [Analysed.instrs, List.getElem?_map, Array.getElem?_toList]
  cases hp' : a'.points[i]? with
  | none =>
    have hnone : a.points[i]? = none := by
      rw [Array.getElem?_eq_none_iff] at hp' ⊢
      rwa [← hretraced.size, ← hreplaced.size]
    rw [hnone]
  | some p' =>
    obtain ⟨p, hp, _, _, hends⟩ := hreplaced.point hp'
    obtain ⟨hinstr, q, hq, hgiven⟩ := hretraced.given hp
    obtain ⟨instr, hended⟩ := ends_of_analysed h hq
    rw [hinstr, hgiven] at hends
    rw [hq, Option.map_some, Option.map_some, hended.again hends]

/-- An analysis leaves alone what is not odexed.  What is odexed in the end stands for a
verification error, or is an inlined call or a call by vtable index without registers.  If the
outcome can be analysed again the instructions stay as they are. -/
theorem odexed_accounted_for (hbody : method.body? = some b) (hb : b.LaidOut)
    (h : analyseMethod cp options cls method m = .ok a m') :
    a.instrs.length = b.instrs.length ∧
      (∀ (i : Nat) (given final : Instr), b.instrs[i]? = some given → a.instrs[i]? = some final →
        (given.odexOnly = false → final = given) ∧
        (final.odexOnly = true →
          (∃ kind ref, final = .throwVerificationError kind ref) ∨
            (∃ index, final = .executeInline (.list []) index) ∨
              ∃ dispatch index, final = .invokeQuick dispatch (.list []) index)) ∧
      ∀ options' a' m₁ m₂,
        analyseMethod cp options' cls { method with body? := some a.body } m₁ = .ok a' m₂ →
          a'.instrs = a.instrs := by
  refine ⟨?_, fun i given final hgiven hfinal => ?_, fun _ _ _ _ => instrs_of_outcome hbody hb h⟩
  · simpa [Analysed.instrs, Body.instrs, body_of_analysed hbody h] using size_of_analysed h
  · simp only [Analysed.instrs, List.getElem?_map, Array.getElem?_toList,
      Option.map_eq_some_iff] at hfinal
    obtain ⟨p, hp, rfl⟩ := hfinal
    cases hgiven.symm.trans (given_of_analysed hbody h hp)
    refine ⟨(becomes_of_analysed h hp).eq_given, fun hodex => ?_⟩
    obtain ⟨instr, hends⟩ := ends_of_analysed h hp
    obtain ⟨hplain, hmarked⟩ := hends.left_of_odexOnly hodex
    exact Instr.left_cases hodex hplain hmarked

end Analysed

/-- An odexed method that reads a field of an object and then of null.  Behind that it goes on with
an inlined call without registers. -/
def leftoverMethod : MethodDef :=
  ⟨"m", [.cls "A"], .void, .ofList [.static],
    some (.assemble 2
      [.instanceQuick .get .narrow ⟨0⟩ ⟨1⟩ 8, .const .four ⟨1⟩ 0,
        .instanceQuick .get .narrow ⟨0⟩ ⟨1⟩ 8, .executeInline (.list []) 0, .returnVoidBarrier] [])⟩

/-- What is left after an analysis. -/
def leftoverInstrs : List Instr :=
  [.instanceAccess .get .word ⟨0⟩ ⟨1⟩ ⟨.cls "A", "x", .int⟩, .const .four ⟨1⟩ 0,
    .unresolvedOdex ⟨1⟩ 2, .executeInline (.list []) 0, .returnVoid]

/-- The inlined call is left, and a second analysis leaves it too. -/
theorem leftoverMethod_accounted_for :
    ∃ a m' a' m₂, analyseMethod (.ofClasses [barrierClass] 15) {} barrierClass leftoverMethod
        .empty = .ok a m' ∧
      analyseMethod (.ofClasses [barrierClass] 15) {} barrierClass
        { leftoverMethod with body? := some a.body } .empty = .ok a' m₂ ∧
      a.instrs = leftoverInstrs ∧ a'.instrs = leftoverInstrs := by
  have hfirst : ∃ a m', analyseMethod (.ofClasses [barrierClass] 15) {} barrierClass
      leftoverMethod .empty = .ok a m' ∧
        a.instrs = leftoverInstrs ∧ a.body = .assemble 2 leftoverInstrs [] := by
    decide +kernel
  have hsecond : ∃ a' m₂, analyseMethod (.ofClasses [barrierClass] 15) {} barrierClass
      { leftoverMethod with body? := some (.assemble 2 leftoverInstrs []) } .empty = .ok a' m₂ ∧
        a'.paramRegisters = 1 := by
    decide +kernel
  obtain ⟨a, m', h, hinstrs, hbody⟩ := hfirst
  obtain ⟨a', m₂, h', _⟩ := hsecond
  rw [← hbody] at h'
  obtain ⟨_, _, hagain⟩ := odexed_accounted_for rfl (Body.laidOut_assemble 2 _ []) h
  exact ⟨a, m', a', m₂, h, h', hinstrs, (hagain {} a' .empty m₂ h').trans hinstrs⟩

end Analysis

end Dalvik
