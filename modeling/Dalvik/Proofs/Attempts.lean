import Dalvik.Proofs.Construction

/-!
# Attempts

A run attempts the points it comes to.  An attempt fails while a value is missing that comes from
elsewhere: an odexed access or call waits for a type of its receiver, and the fetch of a result for
the form of the call before it (`Waits`).  Types go on through a point that waits, but the run does
not: what can only be reached through such points is never attempted.

What the points of a run have in common is `Trail`.  The points that were done once are a ghost part
of it.  They do not wait any more, since a type that is known stays known.  When the run ends, each
point it came to was done or waits (`Explored`).
-/

namespace Dalvik

/-- Whether nothing is known of an object in a register: no value came there, or only null. -/
def RegType.isVacant : RegType → Bool
  | .unknown | .narrow .null => true
  | _ => false

/-- A receiver is awaited while its type is unknown or null. -/
theorem RegType.isVacant_iff {t : RegType} :
    t.isVacant = true ↔ t = .unknown ∨ t = .narrow .null := by
  cases t with
  | narrow n => cases n <;> simp [isVacant]
  | _ => simp [isVacant]

/-- Whether the instruction looks into an object by an offset or a vtable index. -/
def Instr.isQuick : Instr → Bool
  | .instanceQuick _ _ _ _ _ | .invokeQuick _ _ _ => true
  | _ => false

/-- The register of the object that an odexed access or call looks into. -/
def Instr.quickObject? : Instr → Option Reg
  | .instanceQuick _ _ _ object _ => some object
  | .invokeQuick _ args _ => args.first?
  | _ => none

/-- Whether the instruction fetches the result of the one before it. -/
def Instr.isMoveResult : Instr → Bool
  | .moveResult _ _ => true
  | _ => false

/-- A join with a known type is known. -/
theorem RegType.join_known {cp : ClassPath} {old t new : RegType} {m m' : Memo}
    (h : old.join cp t m = .ok new m') (hold : old.isVacant = false) : new.isVacant = false := by
  cases joined_of_join h with
  | same | unknown_right | receivers => exact hold
  | unknown_left | null_left => cases hold
  | narrow a b =>
    cases a with
    | null => cases hold
    | _ => cases b <;> rfl
  | _ => rfl

namespace Instr

variable {given i j : Instr}

theorem hasStandardForm_of_isQuick (h : i.isQuick = true) : i.hasStandardForm = true := by
  cases i with
  | instanceQuick | invokeQuick => rfl
  | _ => cases h

/-- Only quick instructions look into an object. -/
theorem isQuick_of_quickObject? {object : Reg} (h : i.quickObject? = some object) :
    i.isQuick = true := by
  cases i with
  | instanceQuick | invokeQuick => rfl
  | _ => cases h

theorem not_isMoveResult_of_odexOnly (h : i.odexOnly = true) : i.isMoveResult = false := by
  cases i with
  | moveResult => cases h
  | _ => rfl

/-- What looks into an object is marked by its register. -/
theorem markedRegister?_of_quickObject? {object : Reg} (h : i.quickObject? = some object) :
    i.markedRegister? = some object := by
  cases i with
  | instanceQuick => exact h
  | invokeQuick dispatch args index =>
    cases args with
    | list regs => exact h
    | range r =>
      simp only [quickObject?, Args.first?, RegRange.first?, Option.ite_none_right_eq_some] at h
      exact h.2
  | _ => cases h

theorem Standard.odexOnly (h : i.Standard j) : i.odexOnly = true := by
  cases h <;> rfl

theorem Standard.hasStandardForm (h : i.Standard j) : i.hasStandardForm = true := by
  cases h <;> rfl

theorem Standard.setsResult (h : i.Standard j) : j.setsResult = i.setsResult := by
  cases h <;> rfl

theorem Standard.not_isMoveResult (h : i.Standard j) : j.isMoveResult = false := by
  cases h <;> rfl

theorem Standard.isUnresolved (h : i.Standard j) : j.isUnresolved = false := by
  cases h <;> rfl

/-- Only odexed instructions are marked. -/
theorem odexOnly_of_markedRegister? {r : Reg} (h : i.markedRegister? = some r) :
    i.odexOnly = true := by
  cases i with
  | instanceQuick | executeInline | invokeQuick => rfl
  | _ => cases h

/-- What is not odexed stays as it is. -/
theorem Becomes.eq_given (h : given.Becomes i) (hgiven : given.odexOnly = false) : i = given := by
  cases h with
  | same => rfl
  | standard h => cases hgiven.symm.trans h.odexOnly
  | marker h => cases hgiven.symm.trans (odexOnly_of_markedRegister? h)

theorem Resolves.hasStandardForm (h : given.Resolves i) : i.hasStandardForm = false := by
  cases h with
  | same h => exact h
  | standard h =>
    refine Bool.eq_false_iff.2 fun hform => ?_
    cases h.not_odexOnly.symm.trans (odexOnly_of_hasStandardForm hform)

/-- What an instruction with a standard form is resolved to is its standard form. -/
theorem Resolves.to_standard (h : given.Resolves i) (hform : given.hasStandardForm = true) :
    given.Standard i := by
  cases h with
  | same h => cases h.symm.trans hform
  | standard h => exact h

theorem Resolves.becomes (h : given.Resolves i) : given.Becomes i := by
  cases h with
  | same => exact .same
  | standard h => exact .standard h

/-- What has a type of its result sets a result. -/
theorem setsResult_of_resultType? (h : Analysis.resultType? i ≠ none) : i.setsResult = true := by
  cases i with
  | invoke | filledNewArray | invokeDirectEmpty | invokeObjectInit => rfl
  | _ => exact absurd rfl h

/-- A result that was known stays known when the instruction is resolved again. -/
theorem Resolves.result_known (h : given.Resolves j) (hi : given.Becomes i)
    (hresult : Analysis.resultType? i ≠ none) : Analysis.resultType? j ≠ none := by
  have hsets : given.setsResult = true := by
    cases hi with
    | same => exact setsResult_of_resultType? hresult
    | standard hi => exact hi.setsResult ▸ setsResult_of_resultType? hresult
    | marker => exact absurd rfl hresult
  cases h with
  | same hform =>
    cases hi with
    | same => exact hresult
    | standard hi => cases hform.symm.trans hi.hasStandardForm
    | marker => exact absurd rfl hresult
  | standard h =>
    exact Analysis.Subject.resultType?_ne_none (h.setsResult.trans hsets) h.not_odexOnly

end Instr

namespace Analysis

open Subject

/-! ## Waiting -/

/-- What the instruction at an index needs is not there yet: a type of the object it looks into, or
the result it fetches. -/
inductive Waits (points : Array Point) (i : Nat) : Prop where
  | receiver {p : Point} {object : Reg} {t : RegType} (hp : points[i]? = some p)
    (hobject : p.given.quickObject? = some object) (ht : p.before[object.index]? = some t)
    (hvacant : t.isVacant = true)
  | result {p : Point} (hp : points[i]? = some p) (hfetch : p.given.isMoveResult = true)
    (hnone : ∀ j q, i = j + 1 → points[j]? = some q → resultType? q.instr = none)

/-- What the instruction at an index needs is there. -/
structure Ready (points : Array Point) (i : Nat) : Prop where
  object : ∀ {p}, points[i]? = some p → p.given.isQuick = true →
    ∃ object t, p.given.quickObject? = some object ∧ p.before[object.index]? = some t ∧
      t.isVacant = false
  result : ∀ {p}, points[i]? = some p → p.given.isMoveResult = true →
    ∃ j q, i = j + 1 ∧ points[j]? = some q ∧ resultType? q.instr ≠ none

/-- What has all it needs does not wait. -/
theorem Ready.not_waits {points : Array Point} {i : Nat} (h : Ready points i) :
    ¬ Waits points i := by
  intro hwaits
  cases hwaits with
  | receiver hp hobject ht hvacant =>
    obtain ⟨_, t, hobject', ht', hknown⟩ := h.object hp (Instr.isQuick_of_quickObject? hobject)
    cases hobject.symm.trans hobject'
    cases ht.symm.trans ht'
    cases hknown.symm.trans hvacant
  | result hp hfetch hnone =>
    obtain ⟨j, q, hj, hq, hresult⟩ := h.result hp hfetch
    exact hresult (hnone j q hj hq)

/-- What can change in a state when the point at an index is analysed: its instruction, and types
that rise. -/
structure Advance (i : Nat) (st st' : State) : Prop where
  frame : st'.frame = st.frame
  instrs : ∀ {j}, j ≠ i → st'.instrs[j]? = st.instrs[j]?
  known : ∀ {j r t}, st.typeBefore? j r = some t → t.isVacant = false →
    ∃ t', st'.typeBefore? j r = some t' ∧ t'.isVacant = false
  settled : ∀ {j}, j ∈ st'.settled → j ∈ st.settled

namespace Advance

variable {s : Subject} {i j r : Nat} {n : NodeId} {t : RegType} {p p' : Point} {u : Unit}
  {st st₁ st₂ st' : State}

theorem memo (m : Memo) : Advance i st { st with memo := m } :=
  ⟨rfl, fun _ => rfl, fun ht hknown => ⟨_, ht, hknown⟩, id⟩

/-- Changes at a point one after the other are changes at the point. -/
theorem trans (h₁ : Advance i st st₁) (h₂ : Advance i st₁ st₂) : Advance i st st₂ where
  frame := h₂.frame.trans h₁.frame
  instrs hj := (h₂.instrs hj).trans (h₁.instrs hj)
  known ht hknown := by
    obtain ⟨t₁, ht₁, hknown₁⟩ := h₁.known ht hknown
    exact h₂.known ht₁ hknown₁
  settled hj := h₁.settled (h₂.settled hj)

theorem setInstr (instr : Instr) : Advance i st (st.setInstr i instr) where
  frame := State.setInstr_frame
  instrs := by
    intro j hj
    simp only [State.instrs, List.getElem?_map, Array.getElem?_toList]
    rw [State.setInstr_points, if_neg (Ne.symm hj)]
  known ht hknown := ⟨_, State.typeBefore?_setInstr.trans ht, hknown⟩
  settled := id

/-- Putting back the given instruction is a change at the point. -/
theorem restore : Advance i st (Subject.restore st i) := by
  unfold Subject.restore
  split
  · split
    · exact setInstr _
    · exact memo st.memo
  · exact memo st.memo

/-- A type that spreads leaves known types known. -/
theorem of_spread {P : RegType → Prop} {sources : List NodeId}
    (h : Spread s P r n st sources st') : Advance i st st' where
  frame := h.frame
  instrs _ := by rw [h.instrs]
  known := by
    intro j x t ht hknown
    induction h with
    | start => exact ⟨t, ht, hknown⟩
    | @step _ _ k _ st₁ _ _ _ _ _ _ hreceived ih =>
      obtain ⟨t₁, ht₁, hknown₁⟩ := ih
      cases hreceived with
      | absent | same => exact ⟨t₁, ht₁, hknown₁⟩
      | @raised p old new m _ hp hold hjoin =>
        rw [State.typeBefore?_raise hp hold]
        split
        · next heq =>
          obtain ⟨rfl, rfl⟩ := heq
          simp only [State.typeBefore?, hp, Option.bind_some, hold, Option.some.injEq] at ht₁
          exact ⟨new, rfl, RegType.join_known hjoin (ht₁ ▸ hknown₁)⟩
        · exact ⟨t₁, ht₁, hknown₁⟩
  settled := h.settled_of_settled

theorem setAfter : Advance i st (st.setAfter n r t) where
  frame := State.setAfter_frame
  instrs _ := by rw [State.setAfter_instrs]
  known ht hknown := ⟨_, State.typeBefore?_setAfter.trans ht, hknown⟩
  settled hj := by simpa using hj

/-- Assignments only let types rise. -/
theorem of_assign (h : s.assign n r t st = .ok u st') : Advance i st st' := by
  refine assign_keeps (I := Advance i st) ?_ (memo st.memo) h
  intro x t' new st₁ st₂ _ h₁ hone
  cases new with
  | false =>
    obtain ⟨_, _, rfl⟩ | ⟨hfalse, _⟩ := assignOne_ok hone
    · exact h₁
    · cases hfalse
  | true =>
    obtain ⟨sources, hspread⟩ := spread_of_assignOne (P := fun _ => True)
      (fun _ _ => trivial) trivial hone
    exact h₁.trans (setAfter.trans (of_spread hspread))

/-- So does the rule of an instruction. -/
theorem of_transfer {k : Nat} {done : Bool} (h : s.transfer k p st = .ok done st') :
    Advance i st st' := by
  obtain ⟨e, m, _, happly⟩ := Subject.transfer_ok h
  refine (memo m).trans ?_
  obtain ⟨_, _, rfl⟩ | ⟨_, _, rfl⟩ | ⟨_, _, _, _, _, hassign⟩ | ⟨_, _, _, _, hinit⟩ :=
    Subject.apply_ok happly
  · exact memo _
  · exact memo _
  · exact of_assign hassign
  · obtain ⟨_, hadvance, _⟩ := Subject.initialiseFrom_keeps
      (I := fun _ => Advance i { st with memo := m })
      (fun h _ _ hassign => h.trans (of_assign hassign)) (fun h _ _ => h) (memo m) hinit
    exact hadvance

theorem size (h : Advance i st st') : st'.points.size = st.points.size := by
  simpa [State.frame] using congrArg (fun f => f.2.length) h.frame

/-- A point keeps its given instruction. -/
theorem point (h : Advance i st st') (hp : st.points[j]? = some p) :
    ∃ p', st'.points[j]? = some p' ∧ p'.given = p.given := by
  have hat := congrArg (fun f => f.2[j]?) h.frame
  simp only [State.frame, List.getElem?_map, Array.getElem?_toList, hp, Option.map_some] at hat
  obtain ⟨p', hp', hq⟩ := Option.map_eq_some_iff.1 hat
  simp only [Prod.mk.injEq] at hq
  exact ⟨p', hp', hq.2.1⟩

/-- Points are only there if they were there. -/
theorem point_before (h : Advance i st st') (hp' : st'.points[j]? = some p') :
    ∃ p, st.points[j]? = some p ∧ p'.given = p.given := by
  obtain ⟨hlt, _⟩ := Array.getElem?_eq_some_iff.1 hp'
  obtain ⟨p, hp⟩ : ∃ p, st.points[j]? = some p := ⟨_, Array.getElem?_eq_getElem (h.size ▸ hlt)⟩
  obtain ⟨q, hq, hgiven⟩ := h.point hp
  cases hp'.symm.trans hq
  exact ⟨p, hp, hgiven⟩

/-- Another point keeps its instruction. -/
theorem instr (h : Advance i st st') (hj : j ≠ i) (hp : st.points[j]? = some p)
    (hp' : st'.points[j]? = some p') : p'.instr = p.instr := by
  have hinstr := h.instrs hj
  simpa [State.instrs, hp, hp'] using hinstr

/-- What a point needs stays there, if the result of the analysed one stays known. -/
theorem ready (h : Advance i st st')
    (hresult : ∀ p p', st.points[i]? = some p → st'.points[i]? = some p' →
      resultType? p.instr ≠ none → resultType? p'.instr ≠ none)
    (hready : Ready st.points j) : Ready st'.points j where
  object := by
    intro p' hp' hquick
    obtain ⟨p, hp, hgiven⟩ := h.point_before hp'
    obtain ⟨object, t, hobject, ht, hknown⟩ := hready.object hp (hgiven ▸ hquick)
    obtain ⟨t', ht', hknown'⟩ := h.known (j := j) (r := object.index)
      (by rw [State.typeBefore?, hp, Option.bind_some, ht]) hknown
    rw [State.typeBefore?, hp', Option.bind_some] at ht'
    exact ⟨object, t', hgiven ▸ hobject, ht', hknown'⟩
  result := by
    intro p' hp' hfetch
    obtain ⟨p, hp, hgiven⟩ := h.point_before hp'
    obtain ⟨k, q, hk, hq, hknown⟩ := hready.result hp (hgiven ▸ hfetch)
    obtain ⟨q', hq', _⟩ := h.point hq
    refine ⟨k, q', hk, hq', ?_⟩
    by_cases hki : k = i
    · subst hki
      exact hresult q q' hq hq' hknown
    · rw [h.instr hki hq hq']
      exact hknown

end Advance

/-! ## One attempt -/

namespace Subject

variable {s : Subject} {i j : Nat} {p : Point} {e : Effect} {done : Bool} {m m' : Memo}
  {st st' : State}

/-- Only the fetch of a result reads the instruction before it. -/
theorem effect_of_not_isMoveResult {q? : Option Instr} (h : p.instr.isMoveResult = false) :
    s.effect i p q? = s.effect i p none :=
  effect_congr rfl rfl (fun _ _ hi => by rw [hi] at h; cases h) (fun _ _ _ => rfl) fun _ _ => rfl

/-- Only the fetch of a result waits by its rule. -/
theorem isMoveResult_of_waiting {q? : Option Instr}
    (h : s.effect i p q? m = .ok .waiting m') : p.instr.isMoveResult = true := by
  cases hi : p.instr.isMoveResult with
  | true => rfl
  | false =>
    rw [effect_of_not_isMoveResult hi] at h
    cases said_of_effect h with
    | waiting hprevious => cases hprevious

/-- The fetch of a result waits for a type of it. -/
theorem waiting_iff_of_isMoveResult {q? : Option Instr} (hi : p.instr.isMoveResult = true)
    (h : s.effect i p q? m = .ok e m') : e = .waiting ↔ q?.bind resultType? = none := by
  unfold Subject.effect at h
  cases hinstr : p.instr with
  | moveResult w dst =>
    simp only [hinstr, fetchResult] at h
    cases q? with
    | none => cases h
    | some q =>
      simp only [Option.bind_some]
      cases hresult : resultType? q with
      | none =>
        simp only [hresult] at h
        split at h
        · cases h
          simp
        · cases h
      | some ty =>
        simp only [hresult] at h
        split at h
        · obtain ⟨t, _, _, h⟩ := bind_ok.1 h
          cases h
          simp
        · cases h
  | _ =>
    rw [hinstr] at hi
    cases hi

/-- The class of a receiver is not known exactly if its type is unknown or null. -/
theorem vacant_of_receiverNode? {object : Reg} {n? : Option TypeNode}
    (h : receiverNode? p object m = .ok n? m') :
    ∃ t, p.before[object.index]? = some t ∧ (t.isVacant = true ↔ n? = none) := by
  unfold receiverNode? at h
  obtain ⟨t, m₁, ht, h⟩ := bind_ok.1 h
  have htype := (Rule.lift_ok.1 ht).1
  unfold Point.typeBefore at htype
  cases hbefore : p.before[object.index]? with
  | none =>
    simp only [hbefore] at htype
    cases htype
  | some u =>
    simp only [hbefore] at htype
    cases htype
    refine ⟨t, rfl, ?_⟩
    cases t with
    | narrow n =>
      cases n with
      | null =>
        cases h
        exact ⟨fun _ => rfl, fun _ => rfl⟩
      | _ => cases h
    | unknown =>
      cases h
      exact ⟨fun _ => rfl, fun _ => rfl⟩
    | uninitRef | uninitThis | reference =>
      cases h
      simp [RegType.isVacant]
    | _ => cases h

/-- An odexed access or call has a standard form once its object has a type. -/
theorem vacant_of_standardForm? {form? : Option Instr} (hquick : p.instr.isQuick = true)
    (h : s.standardForm? p m = .ok form? m') :
    ∃ object t, p.instr.quickObject? = some object ∧ p.before[object.index]? = some t ∧
      (t.isVacant = true ↔ form? = none) := by
  unfold standardForm? at h
  cases hi : p.instr with
  | instanceQuick _ _ _ object offset =>
    simp only [hi, quickField?] at h
    obtain ⟨n?, m₁, hn, h⟩ := bind_ok.1 h
    obtain ⟨t, ht, hvacant⟩ := vacant_of_receiverNode? hn
    refine ⟨object, t, rfl, ht, hvacant.trans ?_⟩
    cases n? with
    | none =>
      cases h
      simp
    | some n =>
      obtain ⟨f, m₂, _, h⟩ := bind_ok.1 h
      obtain ⟨instr, m₃, _, h⟩ := bind_ok.1 h
      cases h
      simp
  | invokeQuick dispatch args index =>
    simp only [hi, quickCall?] at h
    cases hfirst : args.first? with
    | none =>
      simp only [hfirst] at h
      cases h
    | some object =>
      simp only [hfirst] at h
      obtain ⟨n?, m₁, hn, h⟩ := bind_ok.1 h
      obtain ⟨t, ht, hvacant⟩ := vacant_of_receiverNode? hn
      refine ⟨object, t, hfirst, ht, hvacant.trans ?_⟩
      cases n? with
      | none =>
        cases h
        simp
      | some n =>
        obtain ⟨method, m₂, _, h⟩ := bind_ok.1 h
        cases h
        simp
  | _ =>
    rw [hi] at hquick
    cases hquick

/-- Only odexed accesses and calls wait for their standard form. -/
theorem isQuick_of_waiting (hform : p.instr.hasStandardForm = true)
    (h : s.standardForm? p m = .ok none m') : p.instr.isQuick = true := by
  unfold standardForm? at h
  cases hi : p.instr with
  | instanceQuick | invokeQuick => rfl
  | executeInline | instanceVolatile | staticVolatile =>
    simp only [hi] at h
    obtain ⟨_, _, hnone⟩ := except_map_ok.1 (Rule.lift_ok.1 h).1
    cases hnone
  | returnVoidBarrier | invokeDirectEmpty =>
    simp only [hi] at h
    cases (Rule.lift_ok.1 h).1
  | invokeObjectInit range method =>
    simp only [hi, Instr.plainForm?] at h
    split at h <;> cases (Rule.lift_ok.1 h).1
  | _ =>
    rw [hi] at hform
    cases hform

/-- What comes before a point is read off the points. -/
theorem previous?_result :
    (previous? st i).bind resultType? = none ↔
      ∀ j q, i = j + 1 → st.points[j]? = some q → resultType? q.instr = none := by
  cases i with
  | zero => simp [previous?]
  | succ j =>
    simp only [previous?, Option.bind_map, Option.bind_eq_none_iff, Function.comp_apply,
      Nat.add_right_cancel_iff]
    constructor
    · rintro h _ q rfl hq
      exact h q hq
    · exact fun h q hq => h j q rfl hq

/-- A pass starts from the given instruction. -/
theorem restored (hst : st.Rewriting) (hp : st.points[i]? = some p) :
    (restore st i).points[i]? = some { p with instr := p.given } := by
  unfold restore
  simp only [hp]
  cases hodex : p.given.odexOnly with
  | true => simp [State.setInstr_points, hp]
  | false =>
    have hgiven := (hst i p hp).eq_given hodex
    cases p
    cases hgiven
    exact hp

theorem restore_of_given (h : ∀ {p : Point}, st.points[i]? = some p → p.instr = p.given) :
    restore st i = st := by
  unfold restore
  split
  · next p hp =>
    split
    · refine setInstr_same fun q hq => ?_
      cases hp.symm.trans hq
      exact h hp
    · rfl
  · rfl

/-- Only the fetch of a result that is not known waits for more than its standard form. -/
theorem transfer_waits (h : s.transfer i p st = .ok done st') :
    (done = false ∧ p.instr.isMoveResult = true ∧ (previous? st i).bind resultType? = none ∧
        ∃ m, st' = { st with memo := m }) ∨
      (done = true ∧
        (p.instr.isMoveResult = true → (previous? st i).bind resultType? ≠ none)) := by
  obtain ⟨e, m, heffect, happly⟩ := transfer_ok h
  have known (he : e ≠ .waiting) (hi : p.instr.isMoveResult = true) :
      (previous? st i).bind resultType? ≠ none :=
    fun hnone => he ((waiting_iff_of_isMoveResult hi heffect).2 hnone)
  obtain ⟨rfl, rfl, rfl⟩ | ⟨rfl, rfl, _⟩ | ⟨_, _, rfl, _, rfl, _⟩ | ⟨_, _, rfl, rfl, _⟩ :=
    apply_ok happly
  · have hi := isMoveResult_of_waiting heffect
    exact .inl ⟨rfl, hi, (waiting_iff_of_isMoveResult hi heffect).1 rfl, m, rfl⟩
  · exact .inr ⟨rfl, known (by simp)⟩
  · exact .inr ⟨rfl, known (by simp)⟩
  · exact .inr ⟨rfl, known (by simp)⟩

theorem previous?_restore : previous? (restore st i) i = previous? st i := by
  cases i with
  | zero => rfl
  | succ j =>
    have hrestore : Advance (j + 1) st (restore st (j + 1)) := .restore
    simpa [State.instrs, previous?] using hrestore.instrs (Nat.ne_of_lt j.lt_succ_self)

/-- The instruction whose rule was followed stays in its place. -/
theorem resolves_of_transfer {st₁ : State} {q q' p' : Point} (hadvance : Advance i st st₁)
    (hp : st.points[i]? = some p) (hq : st₁.points[i]? = some q)
    (hinstr : p.given.Resolves q.instr) (h : s.transfer i q' st₁ = .ok done st')
    (hp' : st'.points[i]? = some p') : p'.given.Resolves p'.instr := by
  obtain ⟨p₁, hp₁, hgiven⟩ := (hadvance.trans (.of_transfer h)).point_before hp'
  cases hp.symm.trans hp₁
  have hsame := congrArg (·[i]?) (instrs_of_transfer h)
  simp only [State.instrs, List.getElem?_map, Array.getElem?_toList, hp', hq, Option.map_some,
    Option.some.injEq] at hsame
  rw [hgiven, hsame]
  exact hinstr

/-- A pass over a point that waits leaves it waiting.  Any other pass leaves the point resolved. -/
theorem attempt_of_pass (hst : st.Rewriting) (h : s.pass i st = .ok done st') :
    (done = false ∧ Waits st.points i ∧ ∃ m, st' = { restore st i with memo := m }) ∨
      (done = true ∧ Ready st.points i ∧ Advance i st st' ∧
        ∀ p', st'.points[i]? = some p' → p'.given.Resolves p'.instr) := by
  have hanalyse := pass_ok h
  cases hp : st.points[i]? with
  | none =>
    have hrestore : restore st i = st := by simp [restore, hp]
    rw [hrestore] at hanalyse
    obtain ⟨_, rfl, rfl⟩ | ⟨p, hp', _⟩ := analyse_ok hanalyse
    · refine .inr ⟨rfl, ⟨fun hp' => ?_, fun hp' => ?_⟩, .memo _, fun p' hp' => ?_⟩ <;>
        cases hp.symm.trans hp'
    · cases hp.symm.trans hp'
  | some p =>
    have hrestored := restored hst hp
    obtain ⟨hnone, _⟩ | ⟨_, hp₀, hcases⟩ := analyse_ok hanalyse
    · cases hnone.symm.trans hrestored
    cases hp₀.symm.trans hrestored
    obtain ⟨hform, m, hwait, rfl, rfl⟩ | ⟨hform, standard, m, hstandard, htransfer⟩ |
      ⟨hform, htransfer⟩ := hcases
    · obtain ⟨object, t, hobject, ht, hvacant⟩ :=
        vacant_of_standardForm? (isQuick_of_waiting hform hwait) hwait
      exact .inl ⟨rfl, .receiver hp hobject ht (hvacant.2 rfl), m, rfl⟩
    · have hstd : p.given.Standard standard := standard_of_standardForm? hstandard
      have hadvance :
          Advance i st (({ restore st i with memo := m } : State).setInstr i standard) :=
        Advance.restore.trans ((Advance.memo m).trans (.setInstr standard))
      have hdone : done = true := by
        obtain ⟨_, hfetch, _⟩ | ⟨hdone, _⟩ := transfer_waits htransfer
        · cases hstd.not_isMoveResult.symm.trans hfetch
        · exact hdone
      refine .inr ⟨hdone, ⟨fun hq hquick => ?_, fun hq hfetch => ?_⟩,
        hadvance.trans (.of_transfer htransfer), fun p' hp' => ?_⟩
      · cases hp.symm.trans hq
        obtain ⟨object, t, hobject, ht, hvacant⟩ := vacant_of_standardForm? hquick hstandard
        refine ⟨object, t, hobject, ht, ?_⟩
        cases hknown : t.isVacant with
        | false => rfl
        | true => cases hvacant.1 hknown
      · cases hp.symm.trans hq
        cases hfetch.symm.trans
          (Instr.not_isMoveResult_of_odexOnly (Instr.odexOnly_of_hasStandardForm hform))
      · refine resolves_of_transfer (q := { p with instr := standard }) hadvance hp ?_
          (.standard hstd) htransfer hp'
        simp [State.setInstr_points, hrestored]
    · obtain ⟨rfl, hfetch, hnone, m, rfl⟩ | ⟨rfl, hknown⟩ := transfer_waits htransfer
      · rw [previous?_restore, previous?_result] at hnone
        exact .inl ⟨rfl, .result hp hfetch hnone, m, rfl⟩
      · refine .inr ⟨rfl, ⟨fun hq hquick => ?_, fun hq hfetch => ?_⟩,
          Advance.restore.trans (.of_transfer htransfer), fun p' hp' =>
            resolves_of_transfer Advance.restore hp hrestored (.same hform) htransfer hp'⟩
        · cases hp.symm.trans hq
          cases hform.symm.trans (Instr.hasStandardForm_of_isQuick hquick)
        · cases hp.symm.trans hq
          have hresult := hknown hfetch
          rw [previous?_restore] at hresult
          cases i with
          | zero => exact absurd rfl hresult
          | succ j =>
            cases hprevious : st.points[j]? with
            | none => simp [previous?, hprevious] at hresult
            | some q => exact ⟨j, q, rfl, hprevious, by simpa [previous?, hprevious] using hresult⟩

/-! ## All attempts -/

/-- The points a run comes to, when it goes on from those that were done. -/
inductive Tried (s : Subject) (done : Nat → Prop) : Nat → Prop where
  | entry {k : Nat} (hk : k ∈ s.graph.entry) : Tried s done k
  | next {i k : Nat} (hi : Tried s done i) (hdone : done i)
    (hk : k ∈ s.graph.successors (.instr i)) : Tried s done k

/-- More points that were done lead to more. -/
theorem Tried.mono {done done' : Nat → Prop} (hdone : ∀ j, done j → done' j)
    (h : s.Tried done i) : s.Tried done' i := by
  induction h with
  | entry hk => exact .entry hk
  | next _ hi hk ih => exact .next ih (hdone _ hi) hk

/-- A point the run knows of: it is on the agenda, or it was done. -/
def Agenda.Lists (agenda : Agenda) (done : Nat → Prop) (i : Nat) : Prop :=
  i ∈ agenda.pending ∨ i ∈ agenda.waiting ∨ done i

/-- What holds between two passes, where some points were done. -/
structure Trail (s : Subject) (done : Nat → Prop) (agenda : Agenda) (st : State) : Prop where
  settled : ∀ {i}, i ∈ st.settled → done i
  entry : ∀ {k}, k ∈ s.graph.entry → agenda.Lists done k
  next : ∀ {i k}, done i → k ∈ s.graph.successors (.instr i) → agenda.Lists done k
  tried : ∀ {i}, agenda.Lists done i → s.Tried done i
  given : ∀ {i p}, ¬ done i → st.points[i]? = some p → p.instr = p.given
  resolved : ∀ {i p}, done i → st.points[i]? = some p → p.given.Resolves p.instr
  ready : ∀ {i}, done i → Ready st.points i
  stuck : agenda.progress = false → ∀ {i}, i ∈ agenda.waiting →
    done i ∨ i ∈ agenda.pending ∨ Waits st.points i

/-- What holds when a run is over: the points it came to were done or wait. -/
structure Explored (s : Subject) (done : Nat → Prop) (st : State) : Prop where
  entry : ∀ {k}, k ∈ s.graph.entry → done k ∨ Waits st.points k
  next : ∀ {i k}, done i → k ∈ s.graph.successors (.instr i) → done k ∨ Waits st.points k
  tried : ∀ {i}, done i → s.Tried done i
  given : ∀ {i p}, ¬ done i → st.points[i]? = some p → p.instr = p.given
  resolved : ∀ {i p}, done i → st.points[i]? = some p → p.given.Resolves p.instr
  ready : ∀ {i}, done i → Ready st.points i

/-- What stays on the agenda when a point is taken. -/
theorem Agenda.take?_left {agenda rest : Agenda} {settled : Worklist}
    (h : agenda.take? settled = some (i, rest)) :
    (∀ j ∈ agenda.pending, j ∈ settled ∨ j = i ∨ j ∈ rest.pending) ∧
      (rest.progress = agenda.progress ∨
        ∀ j ∈ agenda.waiting, j ∈ settled ∨ j = i ∨ j ∈ rest.pending) := by
  have left {a : Agenda} (hnext : a.next? settled = some (i, rest)) :
      ∀ j ∈ a.pending, j ∈ settled ∨ j = i ∨ j ∈ rest.pending := by
    intro j hj
    by_cases hsettled : j ∈ settled
    · exact .inl hsettled
    · exact .inr ((Agenda.next?_some hnext).2.2 j hj hsettled)
  unfold Agenda.take? at h
  split at h
  · next hnext =>
    cases h
    refine ⟨left hnext, .inl ?_⟩
    unfold Agenda.next? at hnext
    split at hnext
    · cases hnext
    · cases hnext
      rfl
  · next hnone =>
    split at h
    · exact ⟨fun j hj => .inl (Agenda.next?_none hnone hj), .inr (left h)⟩
    · cases h

namespace Trail

variable {done : Nat → Prop} {agenda rest : Agenda}

theorem rewriting (h : s.Trail done agenda st) : st.Rewriting := by
  intro j q hq
  by_cases hj : done j
  · exact (h.resolved hj hq).becomes
  · rw [h.given hj hq]
    exact .same

/-- A point on the agenda is still there after another was taken, or it was done. -/
theorem lists_of_take (h : s.Trail done agenda st)
    (htake : agenda.take? st.settled = some (i, rest)) (hj : agenda.Lists done j) :
    j = i ∨ rest.Lists done j := by
  obtain ⟨_, _, hwaiting, _⟩ := Agenda.take?_some htake
  rcases hj with hj | hj | hj
  · rcases (Agenda.take?_left htake).1 j hj with hj | hj | hj
    · exact .inr (.inr (.inr (h.settled hj)))
    · exact .inl hj
    · exact .inr (.inl hj)
  · exact .inr (.inr (.inl (hwaiting ▸ hj)))
  · exact .inr (.inr (.inr hj))

/-- What is left on an agenda was on it. -/
theorem lists_of_rest (htake : agenda.take? st.settled = some (i, rest))
    (hj : rest.Lists done j) : agenda.Lists done j := by
  obtain ⟨_, _, hwaiting, hpending⟩ := Agenda.take?_some htake
  rcases hj with hj | hj | hj
  · exact (hpending j hj).elim .inl fun hj => .inr (.inl hj)
  · exact .inr (.inl (hwaiting ▸ hj))
  · exact .inr (.inr hj)

theorem lists_taken (htake : agenda.take? st.settled = some (i, rest)) : agenda.Lists done i :=
  (Agenda.take?_some htake).2.1.elim .inl fun hi => .inr (.inl hi)

/-- The points that wait are stuck, unless they are tried again. -/
theorem stuck_of_take (h : s.Trail done agenda st)
    (htake : agenda.take? st.settled = some (i, rest)) (hprogress : rest.progress = false)
    (hj : j ∈ rest.waiting) : j = i ∨ done j ∨ j ∈ rest.pending ∨ Waits st.points j := by
  obtain ⟨hpending, hwaiting⟩ := Agenda.take?_left htake
  rw [(Agenda.take?_some htake).2.2.1] at hj
  rcases hwaiting with hsame | hwaiting
  · rcases h.stuck (hsame ▸ hprogress) hj with hj | hj | hj
    · exact .inr (.inl hj)
    · rcases hpending j hj with hj | hj | hj
      · exact .inr (.inl (h.settled hj))
      · exact .inl hj
      · exact .inr (.inr (.inl hj))
    · exact .inr (.inr (.inr hj))
  · rcases hwaiting j hj with hj | hj | hj
    · exact .inr (.inl (h.settled hj))
    · exact .inl hj
    · exact .inr (.inr (.inl hj))

/-- A pass over a point that waits puts it aside. -/
theorem wait (h : s.Trail done agenda st) (htake : agenda.take? st.settled = some (i, rest))
    (hwaits : Waits st.points i) (m : Memo) (successors : List Nat) :
    s.Trail done (rest.after i false successors) { restore st i with memo := m } := by
  -- A point that waits was never done, so it still has its given instruction.
  rw [restore_of_given fun hp => h.given (fun hi => (h.ready hi).not_waits hwaits) hp]
  have lists {j : Nat} (hj : agenda.Lists done j) :
      (rest.after i false successors).Lists done j := by
    rcases h.lists_of_take htake hj with rfl | hj | hj | hj
    · exact .inr (.inl (by simp [Agenda.after]))
    · exact .inl hj
    · exact .inr (.inl (by simp [Agenda.after, hj]))
    · exact .inr (.inr hj)
  exact {
    settled := h.settled
    entry := fun hk => lists (h.entry hk)
    next := fun hi hk => lists (h.next hi hk)
    tried := by
      intro j hj
      rcases hj with hj | hj | hj
      · exact h.tried (lists_of_rest htake (.inl hj))
      · simp only [Agenda.after, Bool.false_eq_true, if_false, Worklist.mem_insert] at hj
        rcases hj with rfl | hj
        · exact h.tried (lists_taken htake)
        · exact h.tried (lists_of_rest htake (.inr (.inl hj)))
      · exact h.tried (.inr (.inr hj))
    given := h.given
    resolved := h.resolved
    ready := h.ready
    stuck := by
      intro hprogress j hj
      simp only [Agenda.after, Bool.false_eq_true, if_false, Worklist.mem_insert] at hj hprogress
      rcases hj with rfl | hj
      · exact .inr (.inr hwaits)
      · rcases h.stuck_of_take htake hprogress hj with rfl | hj
        · exact .inr (.inr hwaits)
        · exact hj }

/-- A pass over a point that is done makes its successors pending. -/
theorem advance (h : s.Trail done agenda st) (htake : agenda.take? st.settled = some (i, rest))
    (hready : Ready st.points i) (hadvance : Advance i st st')
    (hresolved : ∀ p', st'.points[i]? = some p' → p'.given.Resolves p'.instr) :
    s.Trail (fun j => j = i ∨ done j) (rest.after i true (s.graph.successors (.instr i)))
      (st'.settle i) := by
  have lists {j : Nat} (hj : agenda.Lists done j) :
      (rest.after i true (s.graph.successors (.instr i))).Lists (fun j => j = i ∨ done j) j := by
    rcases h.lists_of_take htake hj with rfl | hj | hj | hj
    · exact .inr (.inr (.inl rfl))
    · exact .inl (by simp [Agenda.after, hj])
    · by_cases hji : j = i
      · exact .inr (.inr (.inl hji))
      · exact .inr (.inl (by simp [Agenda.after, hj, hji]))
    · exact .inr (.inr (.inr hj))
  have tried {j : Nat} (hj : agenda.Lists done j) : s.Tried (fun j => j = i ∨ done j) j :=
    (h.tried hj).mono fun _ => .inr
  have ready {j : Nat} (hj : Ready st.points j) : Ready st'.points j := by
    refine hadvance.ready (fun p p' hp hp' hresult => ?_) hj
    obtain ⟨q, hq, hgiven⟩ := hadvance.point_before hp'
    cases hp.symm.trans hq
    exact (hresolved p' hp').result_known (hgiven ▸ h.rewriting i p hp) hresult
  exact {
    settled := by
      intro j hj
      simp only [State.settle, Worklist.mem_insert] at hj
      exact hj.imp id fun hj => h.settled (hadvance.settled hj)
    entry := fun hk => lists (h.entry hk)
    next := by
      intro j k hj hk
      rcases hj with rfl | hj
      · exact .inl (by simp [Agenda.after, hk])
      · exact lists (h.next hj hk)
    tried := by
      intro j hj
      rcases hj with hj | hj | rfl | hj
      · simp only [Agenda.after, if_true, Worklist.mem_insertAll] at hj
        rcases hj with hj | hj
        · exact .next (tried (lists_taken htake)) (.inl rfl) hj
        · exact tried (lists_of_rest htake (.inl hj))
      · simp only [Agenda.after, if_true, Worklist.mem_erase] at hj
        exact tried (lists_of_rest htake (.inr (.inl hj.1)))
      · exact tried (lists_taken htake)
      · exact tried (.inr (.inr hj))
    given := by
      intro j p' hj hp'
      obtain ⟨p, hp, hgiven⟩ := hadvance.point_before hp'
      rw [hadvance.instr (fun hji => hj (.inl hji)) hp hp', hgiven]
      exact h.given (fun hdone => hj (.inr hdone)) hp
    resolved := by
      intro j p' hj hp'
      by_cases hji : j = i
      · subst hji
        exact hresolved p' hp'
      · obtain ⟨p, hp, hgiven⟩ := hadvance.point_before hp'
        rw [hadvance.instr hji hp hp', hgiven]
        exact h.resolved (hj.resolve_left hji) hp
    ready := by
      rintro j (rfl | hj)
      · exact ready hready
      · exact ready (h.ready hj)
    stuck := fun hprogress => by simp [Agenda.after] at hprogress }

/-- One pass. -/
theorem pass {d : Bool} (h : s.Trail done agenda st)
    (htake : agenda.take? st.settled = some (i, rest)) (hpass : s.pass i st = .ok d st') :
    ∃ done', s.Trail done' (rest.after i d (s.graph.successors (.instr i)))
      (if d then st'.settle i else st') := by
  obtain ⟨rfl, hwaits, m, rfl⟩ | ⟨rfl, hready, hadvance, hresolved⟩ :=
    attempt_of_pass h.rewriting hpass
  · exact ⟨done, h.wait htake hwaits m _⟩
  · exact ⟨_, h.advance htake hready hadvance hresolved⟩

/-- When no point is left to be taken, those on the agenda were done or wait. -/
theorem explored (h : s.Trail done agenda st) (htake : agenda.take? st.settled = none) :
    s.Explored done st := by
  have hpending {j : Nat} (hj : j ∈ agenda.pending) : done j :=
    h.settled (Agenda.take?_none htake hj)
  have listed {j : Nat} (hj : agenda.Lists done j) : done j ∨ Waits st.points j := by
    rcases hj with hj | hj | hj
    · exact .inl (hpending hj)
    · cases hprogress : agenda.progress with
      | false =>
        rcases h.stuck hprogress hj with hj | hj | hj
        · exact .inl hj
        · exact .inl (hpending hj)
        · exact .inr hj
      | true =>
        unfold Agenda.take? at htake
        split at htake
        · cases htake
        · rw [if_pos hprogress] at htake
          exact .inl (h.settled (Agenda.next?_none htake hj))
    · exact .inl hj
  exact ⟨fun hk => listed (h.entry hk), fun hi hk => listed (h.next hi hk),
    fun hi => h.tried (.inr (.inr hi)), h.given, h.resolved, h.ready⟩

end Trail

/-- A run comes to an end with every point it came to done or waiting. -/
theorem explored_of_run {passes? : Option Nat} {u : Unit}
    (hgiven : ∀ {i : Nat} {p : Point}, st.points[i]? = some p → p.instr = p.given)
    (hsettled : ∀ i, i ∉ st.settled)
    (h : s.run passes? st = .ok u st') : ∃ done, s.Explored done st' := by
  have hstart : s.Trail (fun _ => False) ⟨Worklist.empty.insertAll s.graph.entry, .empty, false⟩
      st := {
    settled := fun hi => absurd hi (hsettled _)
    entry := fun hk => .inl (by simpa using hk)
    next := fun hi => hi.elim
    tried := by
      intro j hj
      rcases hj with hj | hj | hj
      · exact .entry (by simpa using hj)
      · simp at hj
      · exact hj.elim
    given := fun _ => hgiven
    resolved := fun hi => hi.elim
    ready := fun hi => hi.elim
    stuck := fun _ _ hj => by simp at hj }
  obtain ⟨agenda, ⟨done, htrail⟩, htake⟩ :=
    runFrom_keeps (I := fun agenda st => ∃ done, s.Trail done agenda st)
      (fun hI htake hpass => hI.elim fun _ htrail => htrail.pass htake hpass) ⟨_, hstart⟩ h
  exact ⟨done, htrail.explored htake⟩

end Subject

end Analysis

end Dalvik
