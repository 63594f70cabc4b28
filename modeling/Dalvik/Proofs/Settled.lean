import Dalvik.Proofs.Below
import Dalvik.Proofs.Reading

/-!
# Settled points

A point is settled when it was analysed, and no longer when a type before it rises.  A run ends
when all points that can be reached are settled.  So the types after a point are those its rule
gives for the types before it, with one exception: while a point is analysed, what it writes can
come back to it over a cycle, and a point is settled when its analysis is done even if a type
before it rose meanwhile.  That matters if its rule reads a register that it writes
(`Subject.SelfFed`).

`Subject.Touched` is what steps at one node do to the rest: points stay settled unless a path of
points that are not settled leads to them from the node.  This keeps the invariant of the worklist,
that every reachable point is settled or `Subject.Open`.
-/

namespace Dalvik

/-- Whether the rule of an instruction reads the register it writes, or the one after it, which a
wide value takes too. -/
def Instr.ReadsOwn (i : Instr) : Prop :=
  ∃ dst src, i.destination? = some dst ∧ src ∈ i.typeSources ∧
    (src.index = dst.index ∨ src.index = dst.index + 1)

/-- What an object is once its constructor was called. -/
def RegType.Initialised (t : RegType) : Prop := t = .conflicted ∨ ∃ n, t = .reference n

namespace Analysis

/-- The types after a point are those that an effect writes. -/
def Point.Shows (p : Point) (registers : Nat) : Effect → Prop
  | .nothing => True
  | .waiting => False
  | .write t => ∃ dst, p.instr.destination? = some dst ∧ p.after[dst.index]? = some t
  | .initialise object n => ∀ r < registers, (r == object.index || p.sets r) = true →
    p.after[r]? = some (.reference n)

namespace Subject

/-- Whether what an instruction writes can come back to it and be read there. -/
def SelfFed (s : Subject) (i : Nat) : Prop :=
  s.graph.OnCycle i ∧ ∃ l, s.body.lines[i]? = some l ∧ l.instr.ReadsOwn

/-- The types after a point are those its rule gives for the types before it, whatever else is
asked. -/
def UpToDate (s : Subject) (i : Nat) (st : State) : Prop :=
  ∀ p, st.points[i]? = some p → ∃ e, p.Shows s.body.registers e ∧
    ∀ m, s.classPath.Asked st.memo m → s.effect i p (previous? st i) m = .ok e m

/-! ## What a node does to the rest -/

/-- What the steps at a node leave alone. -/
structure Touched (s : Subject) (n : NodeId) (st st' : State) : Prop where
  frame : st'.frame = st.frame
  instrs : st'.instrs = st.instrs
  asked : s.classPath.Asked st.memo st'.memo
  settled : ∀ {i}, i ∈ st'.settled → i ∈ st.settled
  opened : ∀ {i}, i ∈ st.settled → i ∉ st'.settled → s.graph.Path (· ∉ st'.settled) n i
  points : ∀ {i}, i ∈ st'.settled → n ≠ .instr i → st'.points[i]? = st.points[i]?
  risen : ∀ {i x}, st'.typeBefore? i x ≠ st.typeBefore? i x → s.graph.Path (fun _ => True) n i

namespace Touched

variable {s : Subject} {n : NodeId} {st st₁ st₂ : State} {r : Nat} {t : RegType}

theorem of_memo {m : Memo} (h : s.classPath.Asked st.memo m) :
    s.Touched n st { st with memo := m } :=
  ⟨rfl, rfl, h, id, fun hi hi' => absurd hi hi', fun _ _ => rfl, fun h => absurd rfl h⟩

theorem trans (h₁ : s.Touched n st st₁) (h₂ : s.Touched n st₁ st₂) : s.Touched n st st₂ where
  frame := h₂.frame.trans h₁.frame
  instrs := h₂.instrs.trans h₁.instrs
  asked := h₁.asked.trans h₂.asked
  settled hi := h₁.settled (h₂.settled hi)
  opened := by
    intro i hi hi'
    by_cases hi₁ : i ∈ st₁.settled
    · exact h₂.opened hi₁ hi'
    · exact (h₁.opened hi hi₁).mono fun j hj hj' => hj (h₂.settled hj')
  points hi hn := (h₂.points hi hn).trans (h₁.points (h₂.settled hi) hn)
  risen := by
    intro i x hi
    by_cases hi₂ : st₂.typeBefore? i x = st₁.typeBefore? i x
    · exact h₁.risen (hi₂ ▸ hi)
    · exact h₂.risen hi₂

theorem of_assignOne {new : Bool} (h : s.assignOne n r t st = .ok new st₁) :
    s.Touched n st st₁ := by
  cases new with
  | false =>
    obtain ⟨_, _, rfl⟩ | ⟨hfalse, _⟩ := assignOne_ok h
    · exact of_memo .refl
    · cases hfalse
  | true =>
    obtain ⟨sources, hspread⟩ := spread_of_assignOne (P := fun _ => True)
      (fun _ _ => trivial) trivial h
    refine ⟨?_, ?_, ?_, ?_, ?_, ?_, ?_⟩
    · rw [hspread.frame, State.setAfter_frame]
    · rw [hspread.instrs, State.setAfter_instrs]
    · have hasked := s.classPath.asked_keptBy st.memo
      refine hspread.memo (fun hm hjoin => Triple.ok (hasked.join _ _) hm hjoin) ?_
      rw [State.setAfter_memo]
      exact .refl
    · intro i hi
      simpa using hspread.settled_of_settled hi
    · intro i hi hi'
      exact hspread.path_of_opened (by simpa using hi) hi'
    · intro i hi hn
      rw [hspread.points_of_settled hi, State.setAfter_points, if_neg hn]
    · intro i x hi
      refine (hspread.path_of_risen (i := i) (x := x) ?_).mono fun _ _ => trivial
      rwa [State.typeBefore?_setAfter]

theorem of_assign {u : Unit} (h : s.assign n r t st = .ok u st₁) : s.Touched n st st₁ := by
  refine assign_keeps (I := s.Touched n st) ?_ (of_memo .refl) h
  intro x t' new st₂ st₃ _ h₂ hone
  exact h₂.trans (of_assignOne hone)

end Touched

/-! ## Plain code -/

/-- The instructions are those of the body, and none of them only occurs in odexed code. -/
def Plain (s : Subject) (st : State) : Prop :=
  ∀ (i : Nat) (p : Point), st.points[i]? = some p →
    ∃ l, s.body.lines[i]? = some l ∧ p.instr = l.instr ∧ p.given = l.instr ∧
      l.instr.odexOnly = false ∧ p.after.size = s.body.registers

end Subject

namespace State

variable {st st' : State}

theorem previous?_congr (hinstrs : st'.instrs = st.instrs) (i : Nat) :
    Subject.previous? st' i = Subject.previous? st i := by
  cases i with
  | zero => rfl
  | succ j =>
    have hinstr := congrArg (·[j]?) hinstrs
    simp only [instrs, List.getElem?_map, Array.getElem?_toList] at hinstr
    exact hinstr

end State

namespace Subject

variable {s : Subject} {i : Nat} {p : Point} {st st' : State} {done : Bool} {m : Memo}

theorem Plain.touched {n : NodeId} (h : s.Plain st) (htouched : s.Touched n st st') :
    s.Plain st' := by
  intro i p' hp'
  obtain ⟨p, hp, hinstr, _, hgiven, hsize⟩ :=
    State.point_of_frame htouched.frame htouched.instrs hp'
  obtain ⟨l, hl, hpl, hpg, hodex, hregs⟩ := h i p hp
  exact ⟨l, hl, hinstr.trans hpl, hgiven.trans hpg, hodex, hsize.trans hregs⟩

theorem Plain.hasStandardForm (h : s.Plain st) (hp : st.points[i]? = some p) :
    p.instr.hasStandardForm = false := by
  obtain ⟨l, _, hinstr, _, hodex, _⟩ := h i p hp
  rw [hinstr]
  unfold Instr.hasStandardForm
  split
  · rfl
  · exact hodex

/-- An analysis of plain code follows the rule of the instruction. -/
theorem Plain.analyse_eq (h : s.Plain st) (hp : st.points[i]? = some p) :
    s.analyse i st = s.transfer i p st := by
  unfold Subject.analyse
  simp only [bind_apply, get_apply, hp, h.hasStandardForm hp, Bool.false_eq_true, if_false]

theorem Plain.restore_eq (h : s.Plain st) (i : Nat) : restore st i = st := by
  unfold restore
  cases hp : st.points[i]? with
  | none => rfl
  | some p =>
    obtain ⟨l, _, _, hgiven, hodex, _⟩ := h i p hp
    simp only [hgiven, hodex, Bool.false_eq_true, if_false]

/-! ## Writing a type -/

section Assign

variable {r x : Nat} {t : RegType} {n : NodeId} {new : Bool}

theorem typeBefore?_of_assignOne (hx : x ≠ r) (h : s.assignOne n r t st = .ok new st') :
    st'.typeBefore? i x = st.typeBefore? i x := by
  cases new with
  | false =>
    obtain ⟨_, _, rfl⟩ | ⟨hfalse, _⟩ := assignOne_ok h
    · rfl
    · cases hfalse
  | true =>
    obtain ⟨_, hspread⟩ := spread_of_assignOne (P := fun _ => True) (fun _ _ => trivial) trivial h
    rw [hspread.typeBefore?_of_ne hx, State.typeBefore?_setAfter]

theorem typeAfter?_of_assignOne_ne {n' : NodeId} (hx : x ≠ r)
    (h : s.assignOne n r t st = .ok new st') : st'.typeAfter? n' x = st.typeAfter? n' x := by
  cases new with
  | false =>
    obtain ⟨_, _, rfl⟩ | ⟨hfalse, _⟩ := assignOne_ok h
    · rfl
    · cases hfalse
  | true =>
    obtain ⟨_, hspread⟩ := spread_of_assignOne (P := fun _ => True) (fun _ _ => trivial) trivial h
    rw [hspread.typeAfter?_of_ne hx, State.typeAfter?_setAfter, if_neg fun h => hx h.2]

/-- Only the register and the one after it change before a point. -/
theorem typeBefore?_of_assign {u : Unit} (hr : x ≠ r) (hr' : x ≠ r + 1)
    (h : s.assign n r t st = .ok u st') : st'.typeBefore? i x = st.typeBefore? i x := by
  obtain ⟨_, new, st₁, hone, rfl | ⟨high, new', _, _, _, hone'⟩⟩ := assign_ok h
  · exact typeBefore?_of_assignOne hr hone
  · exact (typeBefore?_of_assignOne hr' hone').trans (typeBefore?_of_assignOne hr hone)

end Assign

/-- An instruction always writes its destination. -/
theorem sets_destination {instr : Instr} {dst : Reg} (h : instr.destination? = some dst)
    (hp : p.instr = instr) : p.sets dst.index = true := by
  have hcall : instr.isConstructorCall = false := by
    cases instr with
    | invoke | invokeDirectEmpty | invokeObjectInit => cases h
    | _ => rfl
  simp [Point.sets, hp, hcall, h]

/-- After an instruction that was analysed, its destination has the type that it wrote. -/
theorem typeAfter?_of_assign {t : RegType} {dst : Reg} {u : Unit} (hplain : s.Plain st)
    (hp : st.points[i]? = some p) (hdst : p.instr.destination? = some dst)
    (h : s.assign (.instr i) dst.index t st = .ok u st') :
    st'.typeAfter? (.instr i) dst.index = some t := by
  obtain ⟨_, _, _, _, _, hsize⟩ := hplain i p hp
  obtain ⟨hr, new, st₁, hone, hrest⟩ := assign_ok h
  have hfirst : st₁.typeAfter? (.instr i) dst.index = some t := by
    cases new with
    | false =>
      obtain ⟨_, ht, rfl⟩ | ⟨hfalse, _⟩ := assignOne_ok hone
      · exact ht
      · cases hfalse
    | true =>
      obtain ⟨_, hspread⟩ :=
        spread_of_assignOne (P := fun _ => True) (fun _ _ => trivial) trivial hone
      have hinstr : (st.setAfter (.instr i) dst.index t).instrs[i]? = some p.instr := by
        rw [State.setAfter_instrs]
        simp [State.instrs, hp]
      rw [hspread.typeAfter?_of_sets hinstr fun q hq => sets_destination hdst hq,
        State.typeAfter?_setAfter, if_pos ⟨rfl, rfl⟩]
      simp [State.typeAfter?, hp, hsize, hr]
  obtain rfl | ⟨high, new', _, _, _, hone'⟩ := hrest
  · exact hfirst
  · rw [typeAfter?_of_assignOne_ne (Nat.ne_of_lt (Nat.lt_succ_self _)) hone']
    exact hfirst

/-! ## One point -/

theorem typeBefore_of_typeBefore? {p' : Point} {r : Reg} (hp : st.points[i]? = some p)
    (hp' : st'.points[i]? = some p')
    (h : st'.typeBefore? i r.index = st.typeBefore? i r.index) :
    p'.typeBefore r = p.typeBefore r := by
  simp only [State.typeBefore?, hp, hp', Option.bind_some] at h
  simp only [Point.typeBefore, h]

/-- An object that is made already is not made again. -/
theorem newObject_again {p' : Point} {dst : Reg} {ty : Ty} {t : RegType}
    (h : newObject i p dst ty = .ok (.write t)) (hafter : p'.after[dst.index]? = some t) :
    newObject i p' dst ty = .ok .nothing := by
  unfold newObject at h ⊢
  rw [hafter]
  split at h
  · cases h
  · split at h
    · cases h
      rfl
    · cases h
  · cases h

/-- A point that wrote a type is up to date, unless it feeds itself. -/
theorem upToDate_of_write {t : RegType} {dst : Reg} {u : Unit} (hplain : s.Plain st)
    (hm : s.classPath.Asked .empty st.memo) (hp : st.points[i]? = some p)
    (heffect : s.effect i p (previous? st i) st.memo = .ok (.write t) m)
    (hdst : p.instr.destination? = some dst)
    (hassign : s.assign (.instr i) dst.index t { st with memo := m } = .ok u st') :
    s.SelfFed i ∨ s.UpToDate i st' := by
  by_cases hself : s.SelfFed i
  · exact .inl hself
  refine .inr fun p' hp' => ?_
  have htouched := Touched.of_assign hassign
  have hrepeats := s.repeats_effect i p (previous? st i)
  have hafter : p'.after[dst.index]? = some t := by
    have hplain' : s.Plain { st with memo := m } := hplain
    simpa [State.typeAfter?, hp'] using typeAfter?_of_assign hplain' hp hdst hassign
  obtain ⟨q, hq, hinstr, haddr, _⟩ := State.point_of_frame htouched.frame htouched.instrs hp'
  cases hp.symm.trans hq
  have hprevious : previous? st' i = previous? st i := State.previous?_congr htouched.instrs i
  by_cases hnew : ∃ dst' ty, p.instr = .newInstance dst' ty
  · obtain ⟨dst', ty, hnew⟩ := hnew
    obtain rfl : dst' = dst := by simpa [hnew, Instr.destination?] using hdst
    refine ⟨.nothing, trivial, fun m₂ _ => ?_⟩
    simp only [Subject.effect, hnew] at heffect
    simp only [Subject.effect, hinstr.trans hnew]
    exact Rule.lift_ok.2 ⟨newObject_again (Rule.lift_ok.1 heffect).1 hafter, rfl⟩
  · -- The rule reads the types it read before.
    have hsame : ∀ r ∈ p.instr.typeSources, p'.typeBefore r = p.typeBefore r := by
      intro r hr
      refine typeBefore_of_typeBefore? hp hp' ?_
      by_cases hrise : st'.typeBefore? i r.index = st.typeBefore? i r.index
      · exact hrise
      · obtain ⟨l, hl, hpl, _⟩ := hplain i p hp
        refine absurd ⟨htouched.risen hrise, l, hl, dst, r, hpl ▸ hdst, hpl ▸ hr, ?_⟩ hself
        by_cases hd : r.index = dst.index
        · exact .inl hd
        by_cases hd' : r.index = dst.index + 1
        · exact .inr hd'
        exact absurd (typeBefore?_of_assign hd hd' hassign) hrise
    refine ⟨.write t, ⟨dst, hinstr ▸ hdst, hafter⟩, fun m₂ hm₂ => ?_⟩
    have hrule : s.effect i p' (previous? st' i) = s.effect i p (previous? st i) :=
      effect_congr hinstr haddr (fun _ _ _ => hprevious)
        (fun dst' ty h => absurd ⟨dst', ty, h⟩ hnew) hsame
    rw [hrule]
    exact hrepeats.again hm heffect (htouched.asked.trans hm₂)

/-! ## Constructor calls -/

theorem absorbing_initialised (cp : ClassPath) : Absorbing cp RegType.Initialised := by
  intro old t new m m' ht hjoin
  cases RegType.joined_of_join hjoin with
  | same | unknown_left => exact ht
  | unknown_right | narrow | half | null_right | receivers => simp [RegType.Initialised] at ht
  | null_left k => exact .inr ⟨k, rfl⟩
  | references => exact .inr ⟨_, rfl⟩
  | conflict => exact .inl rfl

/-- An assignment of a constructor call changes the types of a register around it to those of
objects, or not at all but for the register itself. -/
theorem types_of_initialise {r x : Nat} {k : TypeNode} {u : Unit} (hplain : s.Plain st)
    (hp : st.points[i]? = some p)
    (h : s.assign (.instr i) r (.reference k) st = .ok u st') :
    (st'.typeBefore? i x = st.typeBefore? i x ∧ st'.typeAfter? (.instr i) x =
      if x = r then some (.reference k) else st.typeAfter? (.instr i) x) ∨
    ∃ t, st'.typeBefore? i x = some t ∧ t.Initialised := by
  obtain ⟨_, _, _, _, _, hsize⟩ := hplain i p hp
  obtain ⟨hr, new, st₁, hone, rfl | ⟨high, _, _, hhigh, _⟩⟩ := assign_ok h
  · cases new with
    | false =>
      obtain ⟨_, ht, rfl⟩ | ⟨hfalse, _⟩ := assignOne_ok hone
      · refine .inl ⟨rfl, ?_⟩
        split
        · next hx => exact hx ▸ ht
        · rfl
      · cases hfalse
    | true =>
      obtain ⟨_, hspread⟩ :=
        spread_of_assignOne (absorbing_initialised s.classPath) (.inr ⟨k, rfl⟩) hone
      rcases hspread.types_around (absorbing_initialised s.classPath) i x with
        ⟨hbefore, hafter⟩ | hrisen
      · rw [State.typeBefore?_setAfter] at hbefore
        refine .inl ⟨hbefore, ?_⟩
        rw [hafter, State.typeAfter?_setAfter]
        by_cases hx : x = r
        · rw [if_pos ⟨rfl, hx⟩, if_pos hx]
          simp [State.typeAfter?, hp, hsize, hx, hr]
        · rw [if_neg fun h => hx h.2, if_neg hx]
      · exact .inr hrisen
  · cases hhigh

/-- What holds in the middle of a constructor call: the new object is still there, with its copies,
and those among the registers that are done are objects after the call.  Or it has been overwritten
by objects that came back over a cycle. -/
structure Initialising (s : Subject) (i : Nat) (object : Nat) (k : TypeNode) (t : RegType)
    (st₀ : State) (left : List Nat) (st : State) : Prop where
  touched : s.Touched (.instr i) st₀ st
  before : st.typeBefore? i object = some t ∨
    ∃ t', st.typeBefore? i object = some t' ∧ t'.Initialised
  shown : ∀ r < s.body.registers, r ∉ left → st.typeBefore? i object = some t →
    st.typeBefore? i r = some t → st.typeAfter? (.instr i) r = some (.reference k)

section Initialising

variable {object : Nat} {k : TypeNode} {t : RegType} {st₀ : State} {r : Nat} {left : List Nat}
  {u : Unit}

theorem Initialising.assign (hplain : s.Plain st₀) (ht : ¬ t.Initialised)
    (h : s.Initialising i object k t st₀ (r :: left) st) (hp : st.points[i]? = some p)
    (hassign : s.assign (.instr i) r (.reference k) st = .ok u st') :
    s.Initialising i object k t st₀ left st' := by
  have htypes : ∀ x, _ := fun x =>
    types_of_initialise (x := x) (hplain.touched h.touched) hp hassign
  have hkept : ∀ {x}, st'.typeBefore? i x = some t → st.typeBefore? i x = some t ∧
      st'.typeAfter? (.instr i) x =
        if x = r then some (.reference k) else st.typeAfter? (.instr i) x := by
    intro x hx
    rcases htypes x with ⟨hbefore, hafter⟩ | ⟨t', ht', hinit⟩
    · exact ⟨hbefore ▸ hx, hafter⟩
    · cases hx.symm.trans ht'
      exact absurd hinit ht
  refine ⟨h.touched.trans (Touched.of_assign hassign), ?_, fun r' hr' hleft hobject hcopy => ?_⟩
  · rcases htypes object with ⟨hbefore, _⟩ | hrisen
    · rw [hbefore]
      exact h.before
    · exact .inr hrisen
  · obtain ⟨hcopy', hafter⟩ := hkept hcopy
    rw [hafter]
    split
    · rfl
    · next hne =>
      have hleft' : r' ∉ r :: left := fun hmem => (List.mem_cons.1 hmem).elim hne hleft
      exact h.shown r' hr' hleft' (hkept hobject).1 hcopy'

end Initialising

section Call

variable {args : Args} {method : MethodRef} {object : Reg} {r : Nat} {t : RegType}
  (hinstr : p.instr = .invoke .direct args method) (hname : method.name = Instr.constructorName)
  (hobject : args.first? = some object)
include hinstr hname hobject

theorem sets_call : p.sets r = (r == object.index || p.sameNewObject r object.index) := by
  simp [Point.sets, hinstr, Instr.isConstructorCall, Instr.receiver?, hname, hobject]

/-- A constructor call writes the copies of its receiver. -/
theorem sets_call_iff {k : TypeNode} (ht : (∃ site, t = .uninitRef k site) ∨ t = .uninitThis k)
    (hbefore : p.before[object.index]? = some t) :
    (r == object.index || p.sets r) = true ↔ p.before[r]? = some t := by
  rw [sets_call hinstr hname hobject]
  constructor
  · intro h
    by_cases hr : r = object.index
    · exact hr ▸ hbefore
    · simp only [Point.sameNewObject, hbefore, beq_false_of_ne hr, Bool.false_or] at h
      cases hr' : p.before[r]? with
      | none =>
        simp only [hr'] at h
        cases h
      | some t' =>
        simp only [hr'] at h
        split at h
        · exact congrArg some (beq_iff_eq.1 h)
        · exact congrArg some (beq_iff_eq.1 h)
        · cases h
  · intro h
    have hsame : p.sameNewObject r object.index = true := by
      obtain ⟨site, rfl⟩ | rfl := ht <;> simp [Point.sameNewObject, h, hbefore]
    rw [hsame, Bool.or_true, Bool.or_true]

end Call

section Initialising

variable {args : Args} {method : MethodRef} {object : Reg} {k : TypeNode} {t : RegType}
  {st₀ : State} {p₀ : Point} (hinstr : p₀.instr = .invoke .direct args method)
  (hname : method.name = Instr.constructorName) (hobject : args.first? = some object)
  (ht : (∃ site, t = .uninitRef k site) ∨ t = .uninitThis k) (hp₀ : st₀.points[i]? = some p₀)
include hinstr hname hobject hp₀

include ht in
/-- The registers a constructor call passes over are no copies of its receiver. -/
theorem Initialising.skip {r : Nat} {left : List Nat}
    (h : s.Initialising i object.index k t st₀ (r :: left) st) (hp : st.points[i]? = some p)
    (hskip : (r == object.index || p.sets r) = false) :
    s.Initialising i object.index k t st₀ left st := by
  refine ⟨h.touched, h.before, fun r' hr' hleft hbefore hcopy => ?_⟩
  by_cases hr : r' = r
  · obtain ⟨q, hq, hinstr', _⟩ := State.point_of_frame h.touched.frame h.touched.instrs hp
    cases hp₀.symm.trans hq
    simp only [State.typeBefore?, hp] at hbefore hcopy
    have hsets := (sets_call_iff (hinstr'.trans hinstr) hname hobject ht hbefore).2 hcopy
    rw [hr, hskip] at hsets
    cases hsets
  · exact h.shown r' hr' (fun hmem => (List.mem_cons.1 hmem).elim hr hleft) hbefore hcopy

/-- A constructor call on an object has nothing to do. -/
theorem Initialising.effect_of_initialised {left : List Nat} {t' : RegType}
    (h : s.Initialising i object.index k t st₀ left st) (hp : st.points[i]? = some p)
    (ht' : st.typeBefore? i object.index = some t') (hinit : t'.Initialised)
    (previous : Option Instr) : s.effect i p previous m = .ok .nothing m := by
  obtain ⟨q, hq, hinstr', _⟩ := State.point_of_frame h.touched.frame h.touched.instrs hp
  cases hp₀.symm.trans hq
  simp only [State.typeBefore?, hp] at ht'
  have hread : p.typeBefore object = .ok t' := Point.typeBefore_ok.2 ht'
  simp only [Subject.effect, hinstr'.trans hinstr]
  refine Rule.lift_ok.2 ⟨?_, rfl⟩
  simp only [directCall, hname, hobject, hread, if_true]
  obtain rfl | ⟨k', rfl⟩ := hinit <;> rfl

end Initialising

/-- A constructor call is up to date after its analysis, since what comes back to it over a cycle
is no new object. -/
theorem upToDate_of_initialise {object : Reg} {k : TypeNode} {u : Unit} (hplain : s.Plain st)
    (hm : s.classPath.Asked .empty st.memo) (hp : st.points[i]? = some p)
    (heffect : s.effect i p (previous? st i) st.memo = .ok (.initialise object k) m)
    (hinit : s.initialiseFrom i object k (List.range s.body.registers) { st with memo := m } =
      .ok u st') : s.Touched (.instr i) { st with memo := m } st' ∧ s.UpToDate i st' := by
  cases said_of_effect heffect with
  | @initialise args method _ t _ hinstr hname hobject ht hk =>
  have hbefore : p.before[object.index]? = some t := Point.typeBefore_ok.1 ht
  have hnot : ¬ t.Initialised := by
    obtain ⟨site, rfl⟩ | rfl := hk <;> simp [RegType.Initialised]
  have hstart : s.Initialising i object.index k t { st with memo := m }
      (List.range s.body.registers) { st with memo := m } :=
    ⟨.of_memo .refl, .inl (by simp [State.typeBefore?, hp, hbefore]),
      fun _ hr hleft => absurd (List.mem_range.2 hr) hleft⟩
  have hplain₁ : s.Plain { st with memo := m } := hplain
  have hp₀ : ({ st with memo := m } : State).points[i]? = some p := hp
  obtain ⟨left, hdone, hleft⟩ := initialiseFrom_keeps
    (fun h hp₁ _ hassign => h.assign hplain₁ hnot hp₁ hassign)
    (fun h hp₁ hskip => h.skip hinstr hname hobject hk hp₀ hp₁ hskip) hstart hinit
  refine ⟨hdone.touched, fun p' hp' => ?_⟩
  obtain rfl : left = [] := hleft.resolve_right (by simp [hp'])
  rcases hdone.before with hobject' | ⟨t', ht', hinit'⟩
  · obtain ⟨q, hq, hinstr', haddr, _⟩ :=
      State.point_of_frame hdone.touched.frame hdone.touched.instrs hp'
    cases hp.symm.trans hq
    refine ⟨.initialise object k, fun r hr hsets => ?_, fun m₂ hm₂ => ?_⟩
    · have hobject₁ : p'.before[object.index]? = some t := by
        simpa [State.typeBefore?, hp'] using hobject'
      rw [sets_call_iff (hinstr'.trans hinstr) hname hobject hk hobject₁] at hsets
      have hafter := hdone.shown r hr List.not_mem_nil hobject'
        (by simpa [State.typeBefore?, hp'] using hsets)
      simpa [State.typeAfter?, hp'] using hafter
    · rw [effect_congr hinstr' haddr
        (fun _ _ _ => State.previous?_congr hdone.touched.instrs i) (by simp [hinstr])]
      · exact (s.repeats_effect i p _).again hm heffect (hdone.touched.asked.trans hm₂)
      · intro r hr
        obtain rfl : r = object := by
          simpa [hinstr, Instr.typeSources, hname, hobject, eq_comm] using hr
        refine typeBefore_of_typeBefore? hp hp' ?_
        rw [hobject']
        simp [State.typeBefore?, hp, hbefore]
  · exact ⟨.nothing, trivial, fun m₂ _ =>
      hdone.effect_of_initialised hinstr hname hobject hp₀ hp' ht' hinit' _⟩

theorem resultType?_ne_none {instr : Instr} (hsets : instr.setsResult = true)
    (hodex : instr.odexOnly = false) : resultType? instr ≠ none := by
  cases instr with
  | invoke | filledNewArray => simp [resultType?]
  | executeInline | invokeDirectEmpty | invokeObjectInit | invokeQuick => cases hodex
  | _ => cases hsets

/-- Nothing has to wait in plain code. -/
theorem Plain.not_waiting (h : s.Plain st)
    (heffect : s.effect i p (previous? st i) st.memo = .ok .waiting m) : False := by
  cases said_of_effect heffect with
  | waiting hprevious hsets hresult =>
    cases i with
    | zero => cases hprevious
    | succ j =>
      obtain ⟨q, hq, rfl⟩ := Option.map_eq_some_iff.1 hprevious
      obtain ⟨l, _, hinstr, _, hodex, _⟩ := h j q hq
      exact resultType?_ne_none hsets (hinstr ▸ hodex) hresult

/-- A pass over plain code succeeds at its point, which then is up to date unless it feeds
itself. -/
theorem Plain.pass (h : s.Plain st) (hm : s.classPath.Asked .empty st.memo)
    (hpass : s.pass i st = .ok done st') :
    done = true ∧ s.Touched (.instr i) st st' ∧ (s.SelfFed i ∨ s.UpToDate i st') := by
  have hanalyse := pass_ok hpass
  rw [h.restore_eq i] at hanalyse
  cases hp : st.points[i]? with
  | none =>
    obtain ⟨_, hdone, rfl⟩ | ⟨p, hp', _⟩ := analyse_ok hanalyse
    · exact ⟨hdone, .of_memo .refl, .inr fun p hp' => by rw [hp] at hp'; cases hp'⟩
    · rw [hp] at hp'
      cases hp'
  | some p =>
    rw [h.analyse_eq hp] at hanalyse
    obtain ⟨e, m, heffect, happly⟩ := transfer_ok hanalyse
    have hrepeats := s.repeats_effect i p (previous? st i)
    have hasked : s.classPath.Asked st.memo m := Triple.ok (hrepeats.asks st.memo) .refl heffect
    obtain ⟨rfl, _, _⟩ | ⟨rfl, hdone, rfl⟩ | ⟨t, dst, rfl, hdst, hdone, hassign⟩ |
      ⟨object, k, rfl, hdone, hinit⟩ := apply_ok happly
    · exact (h.not_waiting heffect).elim
    · refine ⟨hdone, .of_memo hasked, .inr fun p' hp' => ?_⟩
      cases hp.symm.trans hp'
      exact ⟨.nothing, trivial, fun m₂ hm₂ => hrepeats.again hm heffect hm₂⟩
    · exact ⟨hdone, (Touched.of_memo hasked).trans (.of_assign hassign),
        upToDate_of_write h hm hp heffect hdst hassign⟩
    · obtain ⟨htouched, hdate⟩ := upToDate_of_initialise h hm hp heffect hinit
      exact ⟨hdone, (Touched.of_memo hasked).trans htouched, .inr hdate⟩

/-- A point that is still settled stays up to date when another point is analysed. -/
theorem UpToDate.touched {j : Nat} (h : s.UpToDate i st) (htouched : s.Touched (.instr j) st st')
    (hi : i ∈ st'.settled) (hj : i ≠ j) : s.UpToDate i st' := by
  intro p hp
  have hne : NodeId.instr j ≠ .instr i := fun heq => hj (NodeId.instr.inj heq).symm
  rw [htouched.points hi hne] at hp
  obtain ⟨e, hshows, heffect⟩ := h p hp
  refine ⟨e, hshows, fun m hm => ?_⟩
  rw [State.previous?_congr htouched.instrs]
  exact heffect m (htouched.asked.trans hm)

/-! ## The worklist -/

/-- A point that will be analysed: it is pending, or reached from such a point over points that
are not settled. -/
inductive Open (s : Subject) (pending settled : Worklist) : Nat → Prop where
  | pending {i : Nat} (hi : i ∈ pending) (hs : i ∉ settled) : Open s pending settled i
  | next {j i : Nat} (h : Open s pending settled j) (hi : i ∈ s.graph.successors (.instr j))
    (hs : i ∉ settled) : Open s pending settled i

/-- What holds between the passes over plain code. -/
structure Settling (s : Subject) (agenda : Agenda) (st : State) : Prop where
  plain : s.Plain st
  asked : s.classPath.Asked .empty st.memo
  waiting : agenda.waiting = .empty
  settled : ∀ i ∈ st.settled, s.SelfFed i ∨ s.UpToDate i st
  reached : ∀ i, s.graph.isReachable i = true → i ∈ st.settled ∨ s.Open agenda.pending st.settled i

section Take

variable {agenda rest : Agenda} {settled : Worklist}

theorem mem_dropWhile_settled {w : Worklist} {j : Nat} (hj : j ∈ w) (hs : j ∉ settled) :
    j ∈ w.items.dropWhile settled.contains := by
  refine FlowGraph.mem_dropWhile_of_refused hj ?_
  cases hc : settled.contains j with
  | false => rfl
  | true => exact absurd (Worklist.contains_iff.1 hc) hs

/-- The point that is taken is not settled, and the other pending points stay pending. -/
theorem Agenda.next?_some (h : agenda.next? settled = some (i, rest)) :
    i ∉ settled ∧ rest.waiting = agenda.waiting ∧
      ∀ j ∈ agenda.pending, j ∉ settled → j = i ∨ j ∈ rest.pending := by
  unfold Agenda.next? at h
  split at h
  · cases h
  · next k ks hdrop =>
    cases h
    refine ⟨fun hi => ?_, rfl, fun j hj hs => ?_⟩
    · have hrefused := FlowGraph.refused_of_dropWhile hdrop
      rw [Worklist.contains_iff.2 hi] at hrefused
      cases hrefused
    · have hmem := mem_dropWhile_settled hj hs
      rw [hdrop] at hmem
      exact List.mem_cons.1 hmem

theorem Agenda.next?_none (h : agenda.next? settled = none) {j : Nat} (hj : j ∈ agenda.pending) :
    j ∈ settled := by
  unfold Agenda.next? at h
  split at h
  · next hdrop =>
    by_cases hs : j ∈ settled
    · exact hs
    · have hmem := mem_dropWhile_settled hj hs
      rw [hdrop] at hmem
      cases hmem
  · cases h

/-- If nothing waits, the next pending point is taken. -/
theorem Agenda.take?_eq (hw : agenda.waiting = .empty) :
    agenda.take? settled = agenda.next? settled := by
  have hretry : agenda.retry.next? settled = none := by
    simp only [Agenda.retry, Agenda.next?, hw]
    rfl
  unfold Agenda.take?
  cases hnext : agenda.next? settled with
  | some next => rfl
  | none =>
    simp only
    split
    · exact hretry
    · rfl

end Take

section Insert

variable {pending settled : Worklist} {j k : Nat}

theorem Open.insert_of_pending (hj : j ∈ pending) (hs : j ∉ settled) :
    j = i ∨ s.Open pending (settled.insert i) j := by
  by_cases hji : j = i
  · exact .inl hji
  · exact .inr (.pending hj fun hmem => (Worklist.mem_insert.1 hmem).elim hji hs)

variable (hpending : ∀ k ∈ s.graph.successors (.instr i), k ∈ pending)
include hpending

theorem Open.insert_next (hj : j = i ∨ s.Open pending (settled.insert i) j)
    (hk : k ∈ s.graph.successors (.instr j)) (hs : k ∉ settled) :
    k = i ∨ s.Open pending (settled.insert i) k := by
  rcases hj with rfl | hj
  · exact insert_of_pending (hpending k hk) hs
  · by_cases hki : k = i
    · exact .inl hki
    · exact .inr (.next hj hk fun hmem => (Worklist.mem_insert.1 hmem).elim hki hs)

/-- What is reached from a point over points that are not settled is open once the point is
settled and its successors are pending. -/
theorem Open.insert_of_path (h : s.graph.Path (· ∉ settled) (.instr i) j) :
    j = i ∨ s.Open pending (settled.insert i) j := by
  induction h with
  | edge hj hs => exact insert_of_pending (hpending _ hj) hs
  | step _ hj hs ih => exact insert_next hpending ih hj hs

/-- What is open stays open, since the way on from the settled point is pending. -/
theorem Open.insert {pending₀ settled₀ : Worklist}
    (hkept : ∀ j ∈ pending₀, j ∉ settled₀ → j = i ∨ j ∈ pending)
    (hsettled : ∀ {j}, j ∈ settled → j ∈ settled₀) (h : s.Open pending₀ settled₀ j) :
    j = i ∨ s.Open pending (settled.insert i) j := by
  induction h with
  | pending hj hs =>
    rcases hkept _ hj hs with rfl | hj
    · exact .inl rfl
    · exact insert_of_pending hj fun hmem => hs (hsettled hmem)
  | next _ hj hs ih => exact insert_next hpending ih hj fun hmem => hs (hsettled hmem)

end Insert

/-- The invariant survives a pass.  The successors of the point are pending now, so what is reached
through the point is still open. -/
theorem Settling.pass {agenda rest : Agenda} (h : s.Settling agenda st)
    (htake : agenda.take? st.settled = some (i, rest)) (hpass : s.pass i st = .ok done st') :
    s.Settling (rest.after i done (s.graph.successors (.instr i)))
      (if done then st'.settle i else st') := by
  obtain ⟨rfl, htouched, hdate⟩ := h.plain.pass h.asked hpass
  rw [Agenda.take?_eq h.waiting] at htake
  obtain ⟨hi, hwaiting, hrest⟩ := Agenda.next?_some htake
  have hplain : s.Plain st' := h.plain.touched htouched
  refine ⟨hplain, h.asked.trans htouched.asked, ?_, fun j hj => ?_, fun j hj => ?_⟩
  · show rest.waiting.erase i = .empty
    rw [hwaiting, h.waiting]
    rfl
  · by_cases hji : j = i
    · subst hji
      exact hdate
    · have hj' : j ∈ st'.settled := (Worklist.mem_insert.1 hj).resolve_left hji
      have hdate' : s.SelfFed j ∨ s.UpToDate j st' :=
        (h.settled j (htouched.settled hj')).imp id fun hd => hd.touched htouched hj' hji
      exact hdate'
  · let pending := rest.pending.insertAll (s.graph.successors (.instr i))
    have hpending : ∀ k ∈ s.graph.successors (.instr i), k ∈ pending :=
      fun k hk => Worklist.mem_insertAll.2 (.inl hk)
    have hkept : ∀ k ∈ agenda.pending, k ∉ st.settled → k = i ∨ k ∈ pending :=
      fun k hk hs => (hrest k hk hs).imp id fun hk' => Worklist.mem_insertAll.2 (.inr hk')
    have hcases : j ∈ st'.settled ∨ j = i ∨ s.Open pending (st'.settled.insert i) j := by
      by_cases hs : j ∈ st'.settled
      · exact .inl hs
      · refine .inr ?_
        rcases h.reached j hj with hj | hj
        · exact Open.insert_of_path hpending (htouched.opened hj hs)
        · exact hj.insert hpending hkept htouched.settled
    rcases hcases with hj | hj | hj
    · exact .inl (Worklist.mem_insert.2 (.inr hj))
    · exact .inl (Worklist.mem_insert.2 (.inl hj))
    · exact .inr hj

/-- In the beginning all that can be reached is open. -/
theorem open_of_path {pending settled : Worklist} (hentry : ∀ k ∈ s.graph.entry, k ∈ pending)
    (hsettled : ∀ k, k ∉ settled) (h : s.graph.Path (fun _ => True) .start i) :
    s.Open pending settled i := by
  induction h with
  | edge hk _ => exact .pending (hentry _ hk) (hsettled _)
  | step _ hk _ ih => exact .next ih hk (hsettled _)

/-- In the end nothing is open. -/
theorem not_open {agenda : Agenda} {settled : Worklist} (hnext : agenda.next? settled = none)
    (h : s.Open agenda.pending settled i) : False := by
  induction h with
  | pending hi hs => exact hs (Agenda.next?_none hnext hi)
  | next _ _ _ ih => exact ih

/-- A run over plain code brings all reachable points up to date, but for those that feed
themselves. -/
theorem Plain.run {passes? : Option Nat} {u : Unit} (hplain : s.Plain st)
    (hm : s.classPath.Asked .empty st.memo) (hsettled : ∀ i, i ∉ st.settled)
    (hgraph : FlowGraph.build s.body = .ok s.graph) (h : s.run passes? st = .ok u st') :
    s.Plain st' ∧ ∀ i, s.graph.isReachable i = true → s.SelfFed i ∨ s.UpToDate i st' := by
  have hstart : s.Settling ⟨Worklist.empty.insertAll s.graph.entry, .empty, false⟩ st := by
    refine ⟨hplain, hm, rfl, fun i hi => absurd hi (hsettled i), fun i hi => .inr ?_⟩
    refine open_of_path (fun k hk => ?_) hsettled (FlowGraph.path_of_isReachable hgraph hi)
    exact Worklist.mem_insertAll.2 (.inl hk)
  obtain ⟨agenda, hend, htake⟩ := runFrom_keeps (fun h => h.pass) hstart h
  refine ⟨hend.plain, fun i hi => hend.settled i ?_⟩
  rw [Agenda.take?_eq hend.waiting] at htake
  rcases hend.reached i hi with hi | hopen
  · exact hi
  · exact (not_open htake hopen).elim

/-! ## Before and after the run -/

theorem plain_initial (hlines : ∀ l ∈ s.body.lines, l.instr.odexOnly = false) (m : Memo) :
    s.Plain (.initial s.body m) := by
  intro i p hp
  simp only [State.initial, List.getElem?_toArray, List.getElem?_map] at hp
  obtain ⟨l, hl, rfl⟩ := Option.map_eq_some_iff.1 hp
  exact ⟨l, hl, rfl, rfl, hlines l (List.mem_of_getElem? hl), by simp [Point.ofLine]⟩

theorem touched_of_enter {isStatic : Bool} {locals : Nat} {u : Unit}
    (h : s.enter isStatic locals st = .ok u st') : s.Touched .start st st' :=
  enter_keeps (I := s.Touched .start st) (fun hst _ hassign => hst.trans (.of_assign hassign))
    (fun hst _ hassign => hst.trans (.of_assign hassign))
    (fun hst hassign => hst.trans (.of_assign hassign)) h (.of_memo .refl)

/-- Nothing is left to replace in plain code. -/
theorem Plain.finishFrom {is : List Nat} {u : Unit} (hplain : s.Plain st)
    (h : s.finishFrom is st = .ok u st') : st' = st := by
  refine finishFrom_keeps (I := fun st' => st' = st) ?_ rfl h
  rintro i p instr st rfl hp hodex _
  obtain ⟨l, _, hinstr, _, hplain, _⟩ := hplain i p hp
  rw [hinstr, hplain] at hodex
  cases hodex

/-! ## One more analysis -/

/-- The types after a point are those its rule gives for the types before it. -/
def Agrees (s : Subject) (i : Nat) (st : State) : Prop :=
  ∀ p, st.points[i]? = some p → ∃ e m, s.effect i p (previous? st i) st.memo = .ok e m ∧
    p.Shows s.body.registers e

theorem UpToDate.agrees (h : s.UpToDate i st) : s.Agrees i st := by
  intro p hp
  obtain ⟨e, hshows, heffect⟩ := h p hp
  exact ⟨e, st.memo, heffect st.memo .refl, hshows⟩

theorem assign_same {n : NodeId} {r : Nat} {t : RegType} (ht : st.typeAfter? n r = some t)
    (hr : r < s.body.registers) : s.assign n r t st = .ok () st := by
  have hone : s.assignOne n r t st = .ok false st := by
    simp only [Subject.assignOne, bind_apply, get_apply, ht, if_true]
    rfl
  unfold Subject.assign
  rw [if_neg (Nat.not_le.2 hr), bind_apply, hone]
  rfl

theorem initialiseFrom_same {object : Reg} {k : TypeNode} (hp : st.points[i]? = some p) :
    ∀ {rs : List Nat}, (∀ r ∈ rs, r < s.body.registers) →
      (∀ r ∈ rs, (r == object.index || p.sets r) = true → p.after[r]? = some (.reference k)) →
      s.initialiseFrom i object k rs st = .ok () st
  | [], _, _ => rfl
  | r :: rs, hlt, hrs => by
    obtain ⟨hr, hlt⟩ := List.forall_mem_cons.1 hlt
    obtain ⟨hshown, hrs⟩ := List.forall_mem_cons.1 hrs
    have ih := initialiseFrom_same hp hlt hrs
    unfold Subject.initialiseFrom
    simp only [bind_apply, get_apply, hp]
    cases hsets : r == object.index || p.sets r with
    | false => simpa only [Bool.false_eq_true, if_false, pure_apply] using ih
    | true =>
      have hafter : st.typeAfter? (.instr i) r = some (.reference k) := by
        simpa [State.typeAfter?, hp] using hshown hsets
      simpa only [if_true, bind_apply, assign_same hafter hr] using ih

/-- A point whose types agree is analysed once more without a change. -/
theorem Plain.analyse_of_agrees (h : s.Plain st) (hagrees : s.Agrees i st) :
    ∃ m, s.analyse i st = .ok true { st with memo := m } := by
  cases hp : st.points[i]? with
  | none =>
    refine ⟨st.memo, ?_⟩
    unfold Subject.analyse
    simp only [bind_apply, get_apply, hp]
    rfl
  | some p =>
    obtain ⟨_, _, _, _, _, hsize⟩ := h i p hp
    obtain ⟨e, m, heffect, hshows⟩ := hagrees p hp
    refine ⟨m, ?_⟩
    have htransfer : s.transfer i p st = s.apply i p.instr e { st with memo := m } := by
      unfold Subject.transfer
      simp only [bind_apply, get_apply, Step.ofRule, heffect]
    rw [h.analyse_eq hp, htransfer]
    cases e with
    | nothing => rfl
    | waiting => exact hshows.elim
    | write t =>
      obtain ⟨dst, hdst, hafter⟩ := hshows
      obtain ⟨hlt, _⟩ := Array.getElem?_eq_some_iff.1 hafter
      have hassign : s.assign (.instr i) dst.index t { st with memo := m } =
          .ok () { st with memo := m } :=
        assign_same (by simpa [State.typeAfter?, hp] using hafter) (hsize ▸ hlt)
      simp only [Subject.apply, hdst, bind_apply, hassign]
      rfl
    | initialise object k =>
      have hp₁ : ({ st with memo := m } : State).points[i]? = some p := hp
      have hinit : s.initialiseFrom i object k (List.range s.body.registers)
          { st with memo := m } = .ok () { st with memo := m } :=
        initialiseFrom_same hp₁ (fun r hr => List.mem_range.1 hr) fun r hr =>
          hshows r (List.mem_range.1 hr)
      simp only [Subject.apply, bind_apply, hinit]
      rfl

/-- If a point with a destination is analysed once more and the type of the destination is still
there, its types agree. -/
theorem Plain.agrees_of_analyse {dst : Reg} (h : s.Plain st) (hp : st.points[i]? = some p)
    (hdst : p.instr.destination? = some dst) (hanalyse : s.analyse i st = .ok done st')
    (hsame : st'.typeAfter? (.instr i) dst.index = st.typeAfter? (.instr i) dst.index) :
    s.Agrees i st := by
  intro p' hp'
  cases hp.symm.trans hp'
  rw [h.analyse_eq hp] at hanalyse
  obtain ⟨e, m, heffect, happly⟩ := transfer_ok hanalyse
  refine ⟨e, m, heffect, ?_⟩
  obtain ⟨rfl, _⟩ | ⟨rfl, _⟩ | ⟨t, dst', rfl, hdst', _, hassign⟩ | ⟨object, k, rfl, _⟩ :=
    apply_ok happly
  · exact (h.not_waiting heffect).elim
  · trivial
  · cases hdst.symm.trans hdst'
    have hplain : s.Plain { st with memo := m } := h
    have hafter := typeAfter?_of_assign hplain hp hdst hassign
    rw [hsame] at hafter
    exact ⟨dst, hdst, by simpa [State.typeAfter?, hp] using hafter⟩
  · cases said_of_effect heffect with
    | initialise hinstr =>
      rw [hinstr] at hdst
      cases hdst

end Subject

/-- At the end of an analysis of plain code, all reachable points are up to date but for those that
feed themselves. -/
theorem upToDate_of_analysed {cp : ClassPath} {options : Options} {cls : ClassDef}
    {method : MethodDef} {m m' : Memo} {a : Analysed}
    (hlines : ∀ l ∈ a.subject.body.lines, l.instr.odexOnly = false) (hm : cp.Asked .empty m)
    (h : analyseMethod cp options cls method m = .ok a m') (settled : Worklist) :
    a.subject.Plain (a.final m' settled) ∧ ∀ i, a.subject.graph.isReachable i = true →
      a.subject.SelfFed i ∨ a.subject.UpToDate i (a.final m' settled) := by
  obtain ⟨hgraph, hcp⟩ := graph_of_analysed h
  obtain ⟨_, isStatic, locals, limit, settled', st₁, st₂, henter, hrun, hfinish⟩ :=
    analyseMethod_ok h
  have htouched := Subject.touched_of_enter henter
  have hplain₁ := (Subject.plain_initial hlines m).touched htouched
  have hm₀ : a.subject.classPath.Asked .empty m := hcp ▸ hm
  have hm₁ : a.subject.classPath.Asked .empty st₁.memo := hm₀.trans htouched.asked
  obtain ⟨hplain₂, hdate⟩ := hplain₁.run hm₁
    (fun i hi => Worklist.not_mem_empty (htouched.settled hi)) hgraph hrun
  obtain rfl := hplain₂.finishFrom hfinish
  exact ⟨hplain₂, hdate⟩

/-- In plain code, the instructions that can be reached are analysed once more without a change of
any type, but for those that feed themselves: for them it depends on whether the type that they
write is the one their rule gives for the types in the end. -/
theorem analysed_again_iff {cp : ClassPath} {options : Options} {cls : ClassDef}
    {method : MethodDef} {b : Body} {m m' : Memo} {a : Analysed} {i : Nat}
    (hbody : method.body? = some b) (hplain : ∀ l ∈ b.lines, l.instr.odexOnly = false)
    (hm : cp.Asked .empty m) (h : analyseMethod cp options cls method m = .ok a m')
    (hi : a.subject.graph.isReachable i = true) (settled : Worklist) :
    (∃ st, a.subject.analyse i (a.final m' settled) = .ok true st ∧
      (∀ k r, st.typeBefore? k r = a.typeBefore? k r) ∧
      ∀ n r, st.typeAfter? n r = a.typeAfter? n r) ↔
    (a.subject.SelfFed i → a.subject.Agrees i (a.final m' settled)) := by
  have hb : a.subject.body = b := by
    obtain ⟨hsubject, _⟩ := analyseMethod_ok h
    obtain ⟨body, graph, hbody', _, hs⟩ := subjectOf_ok hsubject
    rw [hs]
    exact Option.some.inj (hbody'.symm.trans hbody)
  obtain ⟨hfinal, hdate⟩ := upToDate_of_analysed (hb ▸ hplain) hm h settled
  constructor
  · rintro ⟨st, hanalyse, _, hafter⟩ ⟨_, l, hl, dst, _, hdst, _⟩
    obtain ⟨p, hp, _⟩ := (points_of_analysed h).2 i (List.getElem?_eq_some_iff.1 hl).1
    obtain ⟨l', hl', hinstr, _⟩ := hfinal i p hp
    cases hl.symm.trans hl'
    exact hfinal.agrees_of_analyse hp (hinstr ▸ hdst) hanalyse (hafter (.instr i) dst.index)
  · intro hself
    have hagrees : a.subject.Agrees i (a.final m' settled) :=
      (hdate i hi).elim hself Subject.UpToDate.agrees
    obtain ⟨m₂, hanalyse⟩ := hfinal.analyse_of_agrees hagrees
    refine ⟨_, hanalyse, fun _ _ => rfl, fun n r => ?_⟩
    cases n <;> rfl

/-- A class without members. -/
def emptyClass : ClassDef where
  ty := .cls "A"

/-- A method that repeats an operation on its only register for ever. -/
def endless (param : Ty) (instr : Instr) : MethodDef :=
  ⟨"m", [param], .void, .ofList [.static], some (.assemble 1 [instr, .goto .eight (-2)] [])⟩

/-- Taking a bit of an integer is analysed again without a change, though it feeds itself. -/
theorem endless_and_again :
    ∃ a m' st, analyseMethod (.ofClasses [emptyClass] 15) {} emptyClass
        (endless .int (.binaryLit8 .and ⟨0⟩ ⟨0⟩ 1)) .empty = .ok a m' ∧
      0 ∈ a.subject.graph.successors (.instr 1) ∧
      a.subject.analyse 0 (a.final m' .empty) = .ok true st ∧
      (∀ k r, st.typeBefore? k r = a.typeBefore? k r) ∧
      ∀ n r, st.typeAfter? n r = a.typeAfter? n r := by
  have hrun : ∃ a m', analyseMethod (.ofClasses [emptyClass] 15) {} emptyClass
      (endless .int (.binaryLit8 .and ⟨0⟩ ⟨0⟩ 1)) .empty = .ok a m' ∧
      a.subject.graph.isReachable 0 = true ∧ 0 ∈ a.subject.graph.successors (.instr 1) ∧
      ∀ p ∈ a.points[0]?, p.instr.destination? = some ⟨0⟩ ∧
        p.after[0]? = some (.narrow .integer) ∧
        ∃ e m, a.subject.effect 0 p (Subject.previous? (a.final m' .empty) 0) m' = .ok e m ∧
          e = .write (.narrow .integer) := by
    decide +kernel
  obtain ⟨a, m', h, hreach, hback, hpoint⟩ := hrun
  have hagrees : a.subject.Agrees 0 (a.final m' .empty) := by
    intro p hp
    obtain ⟨hdst, hafter, e, m, heffect, rfl⟩ := hpoint p hp
    exact ⟨_, m, heffect, ⟨0⟩, hdst, hafter⟩
  obtain ⟨st, hst, hsame⟩ :=
    (analysed_again_iff rfl (by decide) .refl h hreach .empty).2 fun _ => hagrees
  exact ⟨a, m', st, h, hback, hst, hsame⟩

/-- Shifting a byte right by sixteen places is not: the first time the outcome is an integer, so
that an integer is shifted from then on, and the outcome of that is a character. -/
theorem endless_shift_differs :
    ∃ a m' st, analyseMethod (.ofClasses [emptyClass] 15) {} emptyClass
        (endless .byte (.binaryLit8 .ushr ⟨0⟩ ⟨0⟩ 16)) .empty = .ok a m' ∧
      a.subject.graph.isReachable 0 = true ∧
      a.subject.analyse 0 (a.final m' .empty) = .ok true st ∧
      a.typeAfter? (.instr 0) 0 = some (.narrow .integer) ∧
      st.typeAfter? (.instr 0) 0 = some (.narrow .char) := by
  have hrun : ∃ a m', analyseMethod (.ofClasses [emptyClass] 15) {} emptyClass
      (endless .byte (.binaryLit8 .ushr ⟨0⟩ ⟨0⟩ 16)) .empty = .ok a m' ∧
      a.subject.graph.isReachable 0 = true ∧
      ∃ done st, a.subject.analyse 0 (a.final m' .empty) = .ok done st ∧ done = true ∧
        a.typeAfter? (.instr 0) 0 = some (.narrow .integer) ∧
        st.typeAfter? (.instr 0) 0 = some (.narrow .char) := by
    decide +kernel
  obtain ⟨a, m', h, hreach, _, st, hst, rfl, htypes⟩ := hrun
  exact ⟨a, m', st, h, hreach, hst, htypes⟩

end Analysis

end Dalvik
