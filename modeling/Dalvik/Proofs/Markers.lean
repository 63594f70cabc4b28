import Dalvik.Proofs.Attempts

/-!
# Markers

When a run is over, odexed instructions that were not resolved are replaced by what can be read off,
or by markers.  A marker says that the analysis knows of no object there.  That is so where the
analysis attempted the instruction: it is marked exactly if its receiver never got a type.

But a run does not go past a point that waits, though types do.  An instruction that can only be
reached through such points is marked whatever its receiver is (`marked_iff`,
`marker_of_known_receiver`).
-/

namespace Dalvik

/-! ## The last replacement -/

namespace Instr

variable {i j : Instr}

/-- What stands in the place of an instruction after the last replacement. -/
inductive Ends (i : Instr) : Instr → Prop where
  | kept (h : i.odexOnly = false) : Ends i i
  | replaced {j : Instr} (h : i.odexOnly = true) (hform : i.finalForm = .ok j) : Ends i j

/-- The last form is read off, or a marker, or what was there. -/
theorem finalForm_cases (h : i.finalForm = .ok j) :
    i.plainForm? = .ok (some j) ∨
      (i.plainForm? = .ok none ∧
        ((∃ r, i.markedRegister? = some r ∧ j = .unresolvedOdex r i.size) ∨
          (i.markedRegister? = none ∧ j = i))) := by
  unfold finalForm at h
  obtain ⟨form?, hform, h⟩ := except_bind_ok.1 h
  cases form? with
  | some standard =>
    cases h
    exact .inl hform
  | none =>
    refine .inr ⟨hform, ?_⟩
    cases hr : i.markedRegister? with
    | some r =>
      simp only [hr] at h
      cases h
      exact .inl ⟨r, rfl, rfl⟩
    | none =>
      simp only [hr] at h
      cases h
      exact .inr ⟨rfl, rfl⟩

/-- A form that is read off leaves the same result. -/
theorem resultType?_of_plainForm? (h : i.plainForm? = .ok (some j)) :
    Analysis.resultType? j = Analysis.resultType? i := by
  have hstandard := standard_of_plainForm? h
  cases hstandard with
  | quick | inlined => cases h
  | _ => rfl

theorem plainForm?_of_isQuick (h : i.isQuick = true) : i.plainForm? = .ok none := by
  cases i with
  | instanceQuick | invokeQuick => rfl
  | _ => cases h

theorem resultType?_of_markedRegister? {r : Reg} (h : i.markedRegister? = some r) :
    Analysis.resultType? i = none := by
  cases i with
  | instanceQuick | executeInline | invokeQuick => rfl
  | _ => cases h

namespace Ends

theorem eq_of_not_odexOnly (h : i.Ends j) (hi : i.odexOnly = false) : j = i := by
  cases h with
  | kept => rfl
  | replaced hodex => cases hi.symm.trans hodex

theorem finalForm (h : i.Ends j) (hi : i.odexOnly = true) : i.finalForm = .ok j := by
  cases h with
  | kept hodex => cases hodex.symm.trans hi
  | replaced _ hform => exact hform

theorem resultType? (h : i.Ends j) : Analysis.resultType? j = Analysis.resultType? i := by
  cases h with
  | kept => rfl
  | replaced _ hform =>
    obtain hplain | ⟨_, ⟨r, hr, rfl⟩ | ⟨_, rfl⟩⟩ := finalForm_cases hform
    · exact resultType?_of_plainForm? hplain
    · exact (resultType?_of_markedRegister? hr).symm
    · rfl

/-- What has no standard form stays. -/
theorem eq_of_not_hasStandardForm (h : i.Ends j) (hi : i.hasStandardForm = false) : j = i := by
  cases h with
  | kept => rfl
  | replaced hodex hform =>
    cases i with
    | throwVerificationError =>
      cases hform
      rfl
    | _ => cases hi.symm.trans hodex

/-- What is still odexed has neither a form that can be read off nor a register for a marker. -/
theorem left_of_odexOnly (h : i.Ends j) (hj : j.odexOnly = true) :
    j.plainForm? = .ok none ∧ j.markedRegister? = none := by
  cases h with
  | kept hodex => cases hodex.symm.trans hj
  | replaced _ hform =>
    obtain hplain | ⟨hplain, ⟨r, _, rfl⟩ | ⟨hr, rfl⟩⟩ := finalForm_cases hform
    · cases (standard_of_plainForm? hplain).not_odexOnly.symm.trans hj
    · cases hj
    · exact ⟨hplain, hr⟩

end Ends

end Instr

namespace Analysis

/-- The points after the last replacement. -/
structure Replaced (points points' : Array Point) : Prop where
  size : points'.size = points.size
  ends : ∀ {i : Nat} {p : Point}, points[i]? = some p →
    ∃ instr, points'[i]? = some { p with instr := instr } ∧ p.instr.Ends instr

namespace Replaced

variable {points points' : Array Point} {i : Nat} {p' : Point}

theorem point (h : Replaced points points') (hp' : points'[i]? = some p') :
    ∃ p, points[i]? = some p ∧ p'.given = p.given ∧ p'.before = p.before ∧
      p.instr.Ends p'.instr := by
  obtain ⟨hlt, _⟩ := Array.getElem?_eq_some_iff.1 hp'
  obtain ⟨p, hp⟩ : ∃ p, points[i]? = some p := ⟨_, Array.getElem?_eq_getElem (h.size ▸ hlt)⟩
  obtain ⟨instr, hinstr, hends⟩ := h.ends hp
  cases hp'.symm.trans hinstr
  exact ⟨p, hp, rfl, rfl, hends⟩

/-- The last replacement changes nothing that a point waits for. -/
theorem waits_iff (h : Replaced points points') : Waits points' i ↔ Waits points i := by
  constructor
  · intro hwaits
    cases hwaits with
    | receiver hp' hobject ht hvacant =>
      obtain ⟨p, hp, hgiven, hbefore, _⟩ := h.point hp'
      exact .receiver hp (hgiven ▸ hobject) (hbefore ▸ ht) hvacant
    | result hp' hfetch hnone =>
      obtain ⟨p, hp, hgiven, _⟩ := h.point hp'
      refine .result hp (hgiven ▸ hfetch) fun j q hj hq => ?_
      obtain ⟨instr, hq', hends⟩ := h.ends hq
      exact hends.resultType?.symm.trans (hnone j _ hj hq')
  · intro hwaits
    cases hwaits with
    | receiver hp hobject ht hvacant =>
      obtain ⟨instr, hp', _⟩ := h.ends hp
      exact .receiver hp' hobject ht hvacant
    | result hp hfetch hnone =>
      obtain ⟨instr, hp', _⟩ := h.ends hp
      refine .result hp' hfetch fun j q' hj hq' => ?_
      obtain ⟨q, hq, _, _, hends⟩ := h.point hq'
      exact hends.resultType?.trans (hnone j q hj hq)

end Replaced

namespace Subject

variable {s : Subject} {i : Nat} {u : Unit} {st st' : State}

/-- Each point is replaced once. -/
theorem ends_of_finishFrom {is : List Nat} {p : Point} (hnodup : is.Nodup)
    (hlt : ∀ k ∈ is, k < st.points.size) (h : s.finishFrom is st = .ok u st')
    (hp : st.points[i]? = some p) :
    ∃ instr, st'.points[i]? = some { p with instr := instr } ∧
      (i ∈ is → p.instr.Ends instr) ∧ (i ∉ is → instr = p.instr) := by
  induction is generalizing p st with
  | nil =>
    cases h
    exact ⟨p.instr, hp, by simp, fun _ => rfl⟩
  | cons k is ih =>
    obtain ⟨hk, hnodup⟩ := List.nodup_cons.1 hnodup
    obtain ⟨hnone, _⟩ | ⟨q, hq, ⟨hplain, h⟩ | ⟨hodex, final, hform, h⟩⟩ := finishFrom_cons h
    · exact absurd (hlt k (.head _)) (Nat.not_lt.2 (Array.getElem?_eq_none_iff.1 hnone))
    · obtain ⟨instr, hinstr, hin, hout⟩ := ih hnodup (fun j hj => hlt j (.tail _ hj)) h hp
      refine ⟨instr, hinstr, fun hi => ?_, fun hi => hout fun hi' => hi (.tail _ hi')⟩
      rcases List.mem_cons.1 hi with rfl | hi
      · cases hp.symm.trans hq
        rw [hout hk]
        exact .kept hplain
      · exact hin hi
    · have hlt' : ∀ j ∈ is, j < (st.setInstr k final).points.size := fun j hj =>
        Array.size_modify.symm ▸ hlt j (.tail _ hj)
      by_cases hki : k = i
      · subst hki
        cases hp.symm.trans hq
        obtain ⟨instr, hinstr, _, hout⟩ := ih (p := { p with instr := final }) hnodup hlt' h
          (by simp [State.setInstr_points, hp])
        cases hout hk
        exact ⟨final, hinstr, fun _ => .replaced hodex hform, fun hi => absurd (.head _) hi⟩
      · obtain ⟨instr, hinstr, hin, hout⟩ :=
          ih hnodup hlt' h (by rwa [State.setInstr_points, if_neg hki])
        refine ⟨instr, hinstr, fun hi => hin ?_, fun hi => hout fun hi' => hi (.tail _ hi')⟩
        exact (List.mem_cons.1 hi).resolve_left (Ne.symm hki)

/-- A run starts with the lines of the body. -/
theorem line_of_enter {isStatic : Bool} {locals : Nat} {m : Memo} {p : Point}
    (h : s.enter isStatic locals (.initial s.body m) = .ok u st) (hp : st.points[i]? = some p) :
    ∃ l, s.body.lines[i]? = some l ∧ p.instr = l.instr ∧ p.given = l.instr := by
  have htouched := touched_of_enter h
  obtain ⟨q, hq, hinstr, _, hgiven, _⟩ := State.point_of_frame htouched.frame htouched.instrs hp
  rw [points_initial] at hq
  obtain ⟨l, hl, rfl⟩ := Option.map_eq_some_iff.1 hq
  exact ⟨l, hl, hinstr, hgiven⟩

theorem replaced_of_finish (hsize : st.points.size = s.body.lines.length)
    (h : s.finish st = .ok u st') : Replaced st.points st'.points where
  size := size_of_finishFrom h
  ends := by
    intro i p hp
    obtain ⟨hi, _⟩ := Array.getElem?_eq_some_iff.1 hp
    obtain ⟨instr, hinstr, hends, _⟩ :=
      ends_of_finishFrom List.nodup_range (fun k hk => by simpa [hsize] using hk) h hp
    exact ⟨instr, hinstr, hends (by simpa [hsize] using hi)⟩

end Subject

/-! ## Attempted points -/

/-- The points a run came to, as its outcome shows them: it goes on from those that do not wait. -/
inductive Analysed.Attempted (a : Analysed) : Nat → Prop where
  | entry {k : Nat} (hk : k ∈ a.subject.graph.entry) : Attempted a k
  | next {i k : Nat} (hi : Attempted a i) (hready : ¬ Waits a.points i)
    (hk : k ∈ a.subject.graph.successors (.instr i)) : Attempted a k

section Analysed

variable {cp : ClassPath} {options : Options} {cls : ClassDef} {method : MethodDef} {m m' : Memo}
  {a : Analysed} {i : Nat} {p : Point} {v : Reg}

theorem size_of_analysed (h : analyseMethod cp options cls method m = .ok a m') :
    a.points.size = a.subject.body.lines.length := by
  obtain ⟨_, hplaced⟩ := inPlace_of_analysed h
  have hlength := congrArg List.length hplaced.1
  rwa [List.length_map, Array.length_toList] at hlength

/-- The end of a run, and the last replacement. -/
theorem explored_of_analysed (h : analyseMethod cp options cls method m = .ok a m') :
    ∃ done st, a.subject.Explored done st ∧ Replaced st.points a.points := by
  obtain ⟨_, isStatic, locals, limit, settled, st₁, st₂, henter, hrun, hfinish⟩ :=
    analyseMethod_ok h
  have htouched := Subject.touched_of_enter henter
  obtain ⟨done, hexplored⟩ : ∃ done, a.subject.Explored done st₂ := by
    refine Subject.explored_of_run (fun hp => ?_) (fun i hi => ?_) hrun
    · obtain ⟨l, _, hinstr, hgiven⟩ := Subject.line_of_enter henter hp
      exact hinstr.trans hgiven.symm
    · exact Worklist.not_mem_empty (htouched.settled hi)
  have hsize := (Subject.size_of_finishFrom hfinish).symm.trans (size_of_analysed h)
  exact ⟨done, st₂, hexplored, Subject.replaced_of_finish hsize hfinish⟩

/-- The points that were done, and those that wait. -/
theorem attempted_of_explored {done : Nat → Prop} {st : State}
    (hexplored : a.subject.Explored done st) (hreplaced : Replaced st.points a.points) :
    (∀ {i}, a.Attempted i → done i ∨ Waits a.points i) ∧
      ∀ {i}, done i ↔ a.Attempted i ∧ ¬ Waits a.points i := by
  have hready : ∀ {i}, done i → ¬ Waits a.points i := fun hi hwaits =>
    (hexplored.ready hi).not_waits (hreplaced.waits_iff.1 hwaits)
  have hattempted : ∀ {i}, a.Attempted i → done i ∨ Waits a.points i := by
    intro i hi
    induction hi with
    | entry hk => exact (hexplored.entry hk).imp_right hreplaced.waits_iff.2
    | next _ hnot hk ih =>
      exact (hexplored.next (ih.resolve_right hnot) hk).imp_right hreplaced.waits_iff.2
  have hdone : ∀ {i}, done i → a.Attempted i := by
    intro i hi
    induction hexplored.tried hi with
    | entry hk => exact .entry hk
    | next _ hj hk ih => exact .next (ih hj) (hready hj) hk
  exact ⟨hattempted, fun {i} => ⟨fun hi => ⟨hdone hi, hready hi⟩,
    fun hi => (hattempted hi.1).resolve_right hi.2⟩⟩

/-- An odexed access or call was marked exactly if it was not done. -/
theorem marked_iff_not_done {done : Nat → Prop} {st : State}
    (hexplored : a.subject.Explored done st) (hreplaced : Replaced st.points a.points)
    (hp : a.points[i]? = some p) (hquick : p.given.isQuick = true)
    (hv : p.given.markedRegister? = some v) :
    p.instr = .unresolvedOdex v p.given.size ↔ ¬ done i := by
  obtain ⟨q, hq, hgiven, _, hends⟩ := hreplaced.point hp
  have hform := Instr.hasStandardForm_of_isQuick hquick
  constructor
  · intro hmarker hdone
    have hstandard := (hexplored.resolved hdone hq).to_standard (hgiven ▸ hform)
    have hsame := hends.eq_of_not_odexOnly hstandard.not_odexOnly
    cases (hsame.symm.trans hmarker) ▸ hstandard.isUnresolved
  · intro hdone
    have hsame : q.instr = p.given := (hexplored.given hdone hq).trans hgiven.symm
    rw [hsame] at hends
    have hfinal := hends.finalForm (Instr.odexOnly_of_hasStandardForm hform)
    have hmarked := Instr.finalForm_of_marked (Instr.plainForm?_of_isQuick hquick) hv
    exact Except.ok.inj (hfinal.symm.trans hmarked)

/-- An odexed access or call is marked exactly if the analysis did not come to it, or its receiver
is unknown or null in the end. -/
theorem marked_iff (h : analyseMethod cp options cls method m = .ok a m')
    (hp : a.points[i]? = some p) (hquick : p.given.isQuick = true)
    (hv : p.given.markedRegister? = some v) :
    p.instr = .unresolvedOdex v p.given.size ↔
      ¬ a.Attempted i ∨ a.typeBefore? i v.index = some .unknown ∨
        a.typeBefore? i v.index = some (.narrow .null) := by
  obtain ⟨done, st, hexplored, hreplaced⟩ := explored_of_analysed h
  obtain ⟨hattempted, hdone⟩ := attempted_of_explored hexplored hreplaced
  have htype {t : RegType} : a.typeBefore? i v.index = some t ↔ p.before[v.index]? = some t := by
    simp [Analysed.typeBefore?, hp]
  simp only [marked_iff_not_done hexplored hreplaced hp hquick hv, htype]
  constructor
  · intro hnot
    by_cases hi : a.Attempted i
    · right
      cases (hattempted hi).resolve_left hnot with
      | receiver hp' hobject ht hvacant =>
        cases hp.symm.trans hp'
        cases hv.symm.trans (Instr.markedRegister?_of_quickObject? hobject)
        rw [ht]
        exact (RegType.isVacant_iff.1 hvacant).imp (congrArg some) (congrArg some)
      | result hp' hfetch =>
        cases hp.symm.trans hp'
        cases (Instr.not_isMoveResult_of_odexOnly (Instr.odexOnly_of_hasStandardForm
          (Instr.hasStandardForm_of_isQuick hquick))).symm.trans hfetch
    · exact .inl hi
  · rintro (hi | hvacant) hd
    · exact hi (hdone.1 hd).1
    · obtain ⟨q, hq, hgiven, hbefore, _⟩ := hreplaced.point hp
      obtain ⟨object, t, hobject, ht, hknown⟩ :=
        (hexplored.ready hd).object hq (hgiven ▸ hquick)
      rw [← hgiven] at hobject
      rw [← hbefore] at ht
      cases hv.symm.trans (Instr.markedRegister?_of_quickObject? hobject)
      simp only [ht, Option.some.injEq] at hvacant
      cases hknown.symm.trans (RegType.isVacant_iff.2 hvacant)

end Analysed

/-- An odexed method that reads a field of null, and then the same field of its parameter. -/
def blockedMethod : MethodDef :=
  ⟨"m", [.cls "A"], .void, .ofList [.static],
    some (.assemble 2
      [.const .four ⟨0⟩ 0, .instanceQuick .get .narrow ⟨0⟩ ⟨0⟩ 8,
        .instanceQuick .get .narrow ⟨0⟩ ⟨1⟩ 8, .returnVoid] [])⟩

/-- The first access is attempted and marked, since its receiver is null. -/
theorem marked_iff_blockedMethod :
    ∃ a m' p, analyseMethod (.ofClasses [barrierClass] 15) {} barrierClass blockedMethod .empty =
        .ok a m' ∧
      a.points[1]? = some p ∧ p.given = .instanceQuick .get .narrow ⟨0⟩ ⟨0⟩ 8 ∧ a.Attempted 1 ∧
      (p.instr = .unresolvedOdex ⟨0⟩ 2 ↔
        ¬ a.Attempted 1 ∨ a.typeBefore? 1 0 = some .unknown ∨
          a.typeBefore? 1 0 = some (.narrow .null)) := by
  have hrun : ∃ a m', analyseMethod (.ofClasses [barrierClass] 15) {} barrierClass blockedMethod
      .empty = .ok a m' ∧ a.subject.graph.entry = [0] ∧
        a.subject.graph.successors (.instr 0) = [1] ∧
        (a.points[0]?).map Point.given = some (.const .four ⟨0⟩ 0) ∧
        (a.points[1]?).map Point.given = some (.instanceQuick .get .narrow ⟨0⟩ ⟨0⟩ 8) := by
    decide +kernel
  obtain ⟨a, m', h, hentry, hnext, hfirst, hsecond⟩ := hrun
  obtain ⟨p, hp, hgiven⟩ := Option.map_eq_some_iff.1 hsecond
  have hattempted : a.Attempted 1 := by
    refine .next (i := 0) (.entry (by simp [hentry])) (fun hwaits => ?_) (by simp [hnext])
    cases hwaits with
    | receiver hq hobject =>
      rw [hq, Option.map_some, Option.some.injEq] at hfirst
      rw [hfirst] at hobject
      cases hobject
    | result hq hfetch =>
      rw [hq, Option.map_some, Option.some.injEq] at hfirst
      rw [hfirst] at hfetch
      cases hfetch
  refine ⟨a, m', p, h, hp, hgiven, hattempted, ?_⟩
  have hiff := marked_iff (v := ⟨0⟩) h hp (by rw [hgiven]; rfl) (by rw [hgiven]; rfl)
  rw [hgiven] at hiff
  exact hiff

/-- The second access can be reached, and its receiver is an object of a class that has a field
there.  It is marked all the same. -/
theorem marker_of_known_receiver :
    ∃ a m', analyseMethod (.ofClasses [barrierClass] 15) {} barrierClass blockedMethod .empty =
        .ok a m' ∧
      a.subject.graph.isReachable 2 = true ∧
      (a.points[2]?).map Point.given = some (.instanceQuick .get .narrow ⟨0⟩ ⟨1⟩ 8) ∧
      (a.points[2]?).map Point.instr = some (.unresolvedOdex ⟨1⟩ 2) ∧
      a.typeBefore? 2 1 = some (.reference (.cls "LA;")) := by
  decide +kernel

end Analysis

end Dalvik
