import Dalvik.Proofs.Construction

/-!
# What instructions leave alone

A register that an instruction does not write should have the same type before and after it.  The
points of an analysis are looked at one by one: a property of points that survives the types that
come in (`Subject.Upward`) and what an instruction does to its own point (`Subject.Stable`) holds
of every point in the end.

An instruction without destination changes its receiver and copies of it at most (`Point.Left`).
So a constructor call leaves every other new object alone.  An instruction with a destination
changes that register at most, and the next one where it fetches a wide value (`Point.Beside`).

Two things go wrong.  A wide value is written to two registers even if the instruction is one for
narrow values (`Subject.Spills`).  And a copy of a receiver that was written by a constructor call
stays as it was left then, though the receiver is no new object any more (`Point.Forsaken`).
-/

namespace Dalvik

/-! ## Instructions -/

namespace Instr

variable {given i : Instr}

/-- The register whose new object the instruction may initialise: the receiver of a constructor
call, or the first register of an inlined call, which may turn out to be one. -/
def mayInitialise? : Instr → Option Reg
  | .executeInline args _ => args.first?
  | i => if i.isConstructorCall then i.receiver? else none

theorem mayInitialise?_of_call (h : i.isConstructorCall = true) :
    i.mayInitialise? = i.receiver? := by
  cases i with
  | executeInline => cases h
  | _ => exact if_pos h

theorem call_of_mayInitialise? {o : Reg} (hplain : i.odexOnly = false)
    (h : i.mayInitialise? = some o) : i.isConstructorCall = true ∧ i.receiver? = some o := by
  cases i with
  | executeInline => cases hplain
  | _ => exact Option.ite_none_right_eq_some.1 h

theorem Becomes.destination?_eq_none (h : given.Becomes i) (hnone : given.destination? = none) :
    i.destination? = none := by
  cases h with
  | same => exact hnone
  | standard h => exact h.destination?.trans hnone
  | marker => rfl

/-- What becomes a constructor call has no destination, and may initialise the receiver. -/
theorem Becomes.mayInitialise? (h : given.Becomes i) (hcall : i.isConstructorCall = true) :
    given.destination? = none ∧ given.mayInitialise? = i.receiver? := by
  cases h with
  | same =>
    refine ⟨?_, mayInitialise?_of_call hcall⟩
    cases given with
    | invoke | invokeDirectEmpty | invokeObjectInit => rfl
    | _ => cases hcall
  | standard h =>
    cases h with
    | directEmpty => exact ⟨rfl, mayInitialise?_of_call hcall⟩
    | @objectInit range m args h =>
      have hcall' : (invokeObjectInit range m).isConstructorCall = true := hcall
      refine ⟨rfl, (mayInitialise?_of_call hcall').trans ?_⟩
      rcases h with ⟨hcount, rfl⟩ | rfl
      · simp [receiver?, RegRange.first?, hcount, Args.first?]
      · rfl
    | @quick dispatch => cases dispatch <;> cases hcall
    | @inlined dispatch =>
      cases dispatch with
      | direct => exact ⟨rfl, rfl⟩
      | _ => cases hcall
    | _ => cases hcall
  | marker => cases hcall

/-- What does not occur in odexed code only is not replaced. -/
theorem Becomes.eq_of_plain (h : given.Becomes i) (hplain : given.odexOnly = false) :
    i = given := by
  cases h with
  | same => rfl
  | standard h => cases h <;> cases hplain
  | marker h =>
    cases given with
    | instanceQuick | executeInline | invokeQuick => cases hplain
    | _ => cases h

end Instr

namespace RegType

variable {cp : ClassPath} {old t new : RegType} {n : TypeNode} {m m' : Memo}

/-- A new object only rises to values that do not go together. -/
theorem conflicted_of_new (hn : old.newClass? = some n) (h : old.join cp t m = .ok new m')
    (hnew : new ≠ old) : new = .conflicted := by
  cases joined_of_join h with
  | same | unknown_right | receivers => exact absurd rfl hnew
  | conflict => rfl
  | _ => cases hn

/-- Values that do not go together stay so. -/
theorem conflicted_join (h : RegType.conflicted.join cp t m = .ok new m') : new = .conflicted := by
  cases joined_of_join h <;> rfl

end RegType

namespace Analysis

/-! ## Properties of points -/

/-- A property holds of every point at its index. -/
def State.Points (st : State) (F : Nat → Point → Prop) : Prop :=
  ∀ (i : Nat) (p : Point), st.points[i]? = some p → F i p

namespace Subject

variable {s : Subject} {F G : Nat → Point → Prop} {n : NodeId} {i r : Nat} {t : RegType}
  {st st' : State}

/-- A property of points survives the types that come in. -/
structure Upward (s : Subject) (F : Nat → Point → Prop) : Prop where
  raise : ∀ {k p x old t new m m'}, F k p → p.before[x]? = some old →
    old.join s.classPath t m = .ok new m' → new ≠ old → F k (p.raise x new)

theorem Upward.and (hF : s.Upward F) (hG : s.Upward G) :
    s.Upward fun k p => F k p ∧ G k p where
  raise h hold hjoin hnew := ⟨hF.raise h.1 hold hjoin hnew, hG.raise h.2 hold hjoin hnew⟩

/-- What is known of one point survives if it does of any. -/
theorem Upward.only {H : Point → Prop} (h : s.Upward fun _ => H) (i : Nat) :
    s.Upward fun k p => k = i → H p where
  raise hH hold hjoin hnew hk := h.raise (k := i) (hH hk) hold hjoin hnew

theorem Upward.spread {P : RegType → Prop} {sources : List NodeId} (hF : s.Upward F)
    (h : Spread s P r n st sources st') (hst : st.Points F) : st'.Points F := by
  induction h with
  | start => exact hst
  | @step _ _ k _ st₁ _ _ _ _ _ _ hreceived ih =>
    cases hreceived with
    | absent | same => exact ih
    | @raised p old new m _ hp hold hjoin hnew _ =>
      intro i q hq
      rw [State.raise_points hp] at hq
      split at hq
      · next hi =>
        cases hq
        exact hi ▸ hF.raise (ih k p hp) hold hjoin hnew
      · exact ih i q hq

/-- A type that is written keeps what it keeps at its own point. -/
theorem Upward.assignOne_at {new : Bool} (hF : s.Upward F)
    (hset : ∀ {i p}, n = .instr i → st.points[i]? = some p →
      F i { p with after := p.after.setIfInBounds r t })
    (hothers : ∀ {i p}, n ≠ .instr i → st.points[i]? = some p → F i p)
    (h : s.assignOne n r t st = .ok new st') : st'.Points F := by
  cases new with
  | false =>
    obtain ⟨_, ht, rfl⟩ | ⟨hfalse, _⟩ := assignOne_ok h
    · intro i p hp
      by_cases hn : n = .instr i
      · subst hn
        simp only [State.typeAfter?, hp, Option.bind_some] at ht
        obtain ⟨hr, rfl⟩ := Array.getElem?_eq_some_iff.1 ht
        have hsame : p.after.setIfInBounds r p.after[r] = p.after := by
          simp [Array.setIfInBounds, hr]
        simpa only [hsame] using hset rfl hp
      · exact hothers hn hp
    · cases hfalse
  | true =>
    obtain ⟨_, hspread⟩ := spread_of_assignOne (P := fun _ => True) (fun _ _ => trivial) trivial h
    refine hF.spread hspread ?_
    intro i q hq
    rw [State.setAfter_points] at hq
    split at hq
    · next hn =>
      obtain ⟨p, hp, rfl⟩ := Option.map_eq_some_iff.1 hq
      exact hset hn hp
    · next hn => exact hothers hn hq

theorem Upward.assignOne {new : Bool} (hF : s.Upward F)
    (hset : ∀ {i p}, n = .instr i → st.points[i]? = some p →
      F i { p with after := p.after.setIfInBounds r t })
    (hst : st.Points F) (h : s.assignOne n r t st = .ok new st') : st'.Points F :=
  hF.assignOne_at hset (fun _ hp => hst _ _ hp) h

/-- A wide value is written to two registers. -/
theorem Upward.assign {u : Unit} (hF : s.Upward F)
    (hset : ∀ {i p x t'}, n = .instr i → (x = r ∧ t' = t) ∨ (x = r + 1 ∧ t.high? = some t') →
      x < s.body.registers → F i p → F i { p with after := p.after.setIfInBounds x t' })
    (hst : st.Points F) (h : s.assign n r t st = .ok u st') : st'.Points F := by
  obtain ⟨hr, new, st₁, hone, hrest⟩ := assign_ok h
  have hst₁ : st₁.Points F :=
    hF.assignOne (fun hn hp => hset hn (.inl ⟨rfl, rfl⟩) hr (hst _ _ hp)) hst hone
  obtain rfl | ⟨high, new', _, hhigh, hr', hone'⟩ := hrest
  · exact hst₁
  · exact hF.assignOne (fun hn hp => hset hn (.inr ⟨rfl, hhigh⟩) hr' (hst₁ _ _ hp)) hst₁ hone'

/-- A property of points survives the passes of an analysis: the types that come in, the given
instruction or a standard form of it in the same place, and what the instruction of a point
does. -/
structure Steady (s : Subject) (F : Nat → Point → Prop) : Prop extends s.Upward F where
  becomes : ∀ {i p}, F i p → p.given.Becomes p.instr
  given : ∀ {i p}, F i p → F i { p with instr := p.given }
  standard : ∀ {i p j}, F i p → p.given.Standard j → F i { p with instr := j }
  transfer : ∀ {i p done st st'}, State.Points st F → st.points[i]? = some p →
    s.transfer i p st = .ok done st' → st'.Points F

/-- A property of points survives an analysis: the types that come in, other instructions in the
same place, and what the instruction of a point does. -/
structure Stable (s : Subject) (F : Nat → Point → Prop) : Prop extends s.Upward F where
  becomes : ∀ {i p}, F i p → p.given.Becomes p.instr
  replace : ∀ {i p j}, F i p → p.given.Becomes j → F i { p with instr := j }
  transfer : ∀ {i p done st st'}, State.Points st F → st.points[i]? = some p →
    s.transfer i p st = .ok done st' → st'.Points F

theorem Stable.steady (hF : s.Stable F) : s.Steady F where
  toUpward := hF.toUpward
  becomes := hF.becomes
  given h := hF.replace h .same
  standard h hj := hF.replace h (.standard hj)
  transfer := hF.transfer

end Subject

theorem State.Points.setInstr {st : State} {F : Nat → Point → Prop} {i : Nat} {p : Point}
    {j : Instr} (hst : st.Points F) (hp : st.points[i]? = some p)
    (hj : F i { p with instr := j }) : (st.setInstr i j).Points F := by
  intro k q hq
  rw [State.setInstr_points] at hq
  split at hq
  · next hk =>
    subst hk
    rw [hp] at hq
    cases hq
    exact hj
  · exact hst k q hq

namespace Subject.Steady

variable {s : Subject} {F : Nat → Point → Prop} {i : Nat} {done : Bool} {st st' : State}

theorem restore (hF : s.Steady F) (hst : st.Points F) (i : Nat) :
    (Subject.restore st i).Points F := by
  unfold Subject.restore
  split
  · next p hp =>
    split
    · exact hst.setInstr hp (hF.given (hst i p hp))
    · exact hst
  · exact hst

theorem pass (hF : s.Steady F) (hst : st.Points F) (h : s.pass i st = .ok done st') :
    st'.Points F := by
  have hst₁ := hF.restore hst i
  obtain ⟨_, _, rfl⟩ | ⟨p, hp, ⟨_, m, _, _, rfl⟩ | ⟨hhas, instr, m, hform, h⟩ | ⟨_, h⟩⟩ :=
    analyse_ok (pass_ok h)
  · exact hst₁
  · exact hst₁
  · have hodex := Instr.odexOnly_of_hasStandardForm hhas
    have hgiven := (hF.becomes (hst₁ i p hp)).eq_of_odexOnly hodex
    have hstandard := hF.standard (hst₁ i p hp) (hgiven ▸ standard_of_standardForm? hform)
    have hst₂ : ({ Subject.restore st i with memo := m } : State).Points F := hst₁
    refine hF.transfer (hst₂.setInstr hp hstandard) ?_ h
    rw [State.setInstr_points, if_pos rfl]
    exact congrArg (Option.map _) hp
  · exact hF.transfer hst₁ hp h

end Subject.Steady

section Analysed

variable {cp : ClassPath} {options : Options} {cls : ClassDef} {method : MethodDef} {m m' : Memo}
  {a : Analysed} {F : Nat → Point → Prop} {i : Nat} {p : Point}

/-- A steady property of the points at first holds of every point in the end, but for the last form
of its instruction. -/
theorem Subject.Steady.analysed (h : analyseMethod cp options cls method m = .ok a m')
    (hF : a.subject.Steady F)
    (hfirst : ∀ {i l}, a.subject.body.lines[i]? = some l →
      F i (.ofLine a.subject.body.registers l)) (hp : a.points[i]? = some p) :
    p.given.Becomes p.instr ∧ ∃ j, F i { p with instr := j } := by
  obtain ⟨_, isStatic, locals, limit, settled, st₁, st₂, henter, hrun, hfinish⟩ :=
    analyseMethod_ok h
  have hst : (State.initial a.subject.body m).Points F := by
    intro k q hq
    rw [Subject.points_initial] at hq
    obtain ⟨l, hl, rfl⟩ := Option.map_eq_some_iff.1 hq
    exact hfirst hl
  have start : ∀ {r t u st st'}, State.Points st F →
      a.subject.assign .start r t st = .ok u st' → State.Points st' F :=
    fun hst hassign => hF.toUpward.assign (fun hn => by cases hn) hst hassign
  have hst₁ : st₁.Points F :=
    Subject.enter_keeps (I := fun st => st.Points F) (fun hst _ hassign => start hst hassign)
      (fun hst _ hassign => start hst hassign) start henter hst
  have hst₂ : st₂.Points F := by
    have hrun := Subject.runFrom_keeps (I := fun _ st => st.Points F) ?_ hst₁ hrun
    · exact hrun.elim fun _ hst₂ => hst₂.1
    · intro agenda rest i done st st' hst _ hpass
      have hst' := hF.pass hst hpass
      cases done with
      | false => exact hst'
      | true => exact hst'
  have hst₃ : State.Points ⟨m', a.entry, a.points, settled⟩ fun i p =>
      p.given.Becomes p.instr ∧ ∃ j, F i { p with instr := j } := by
    refine Subject.finishFrom_keeps (I := fun st => st.Points fun i p =>
      p.given.Becomes p.instr ∧ ∃ j, F i { p with instr := j }) ?_
      (fun i p hp => ⟨hF.becomes (hst₂ i p hp), p.instr, hst₂ i p hp⟩) hfinish
    intro i p instr st hst hp hodex hform
    obtain ⟨hbecomes, hsome⟩ := hst i p hp
    exact hst.setInstr hp ⟨hbecomes.final hodex hform, hsome⟩
  exact hst₃ i p hp

/-- A stable property of the points at first holds of every point in the end. -/
theorem Subject.Stable.analysed (h : analyseMethod cp options cls method m = .ok a m')
    (hF : a.subject.Stable F)
    (hfirst : ∀ {i l}, a.subject.body.lines[i]? = some l →
      F i (.ofLine a.subject.body.registers l)) (hp : a.points[i]? = some p) : F i p := by
  obtain ⟨hbecomes, j, hj⟩ := hF.steady.analysed h hfirst hp
  exact (hF.replace hj hbecomes : F i { { p with instr := j } with instr := p.instr })

end Analysed

/-! ## Instructions without destination -/

namespace Point

variable {p : Point} {r x : Nat} {old new t : RegType} {cp : ClassPath} {m m' : Memo}

theorem raise_before_self (hold : p.before[x]? = some old) :
    (p.raise x new).before[x]? = some new := by
  obtain ⟨hx, _⟩ := Array.getElem?_eq_some_iff.1 hold
  rw [raise_before, Array.getElem?_setIfInBounds_self_of_lt hx]

theorem raise_before_ne (hr : r ≠ x) : (p.raise x new).before[r]? = p.before[r]? := by
  rw [raise_before, Array.getElem?_setIfInBounds_ne hr.symm]

theorem raise_after_ne (hr : r ≠ x) : (p.raise x new).after[r]? = p.after[r]? := by
  rw [raise_after]
  split
  · rfl
  · rw [Array.getElem?_setIfInBounds_ne hr.symm]

/-- A type that comes in is known after the point too, or the register is written. -/
theorem raise_after_self (new : RegType) (hsize : p.before.size = p.after.size)
    (hold : p.before[x]? = some old) :
    (p.raise x new).after[x]? = some new ∨
      ((p.raise x new).sets x = true ∧ (p.raise x new).after = p.after) := by
  obtain ⟨hx, _⟩ := Array.getElem?_eq_some_iff.1 hold
  cases hsets : (p.entered x new).sets x with
  | true =>
    rw [show p.raise x new = p.entered x new by rw [raise, if_pos hsets]]
    exact .inr ⟨hsets, rfl⟩
  | false =>
    rw [raise_after, hsets, if_neg Bool.false_ne_true,
      Array.getElem?_setIfInBounds_self_of_lt (hsize ▸ hx)]
    exact .inl rfl

/-- With a destination, only an instruction for wide values writes another register. -/
theorem sets_of_destination {dst : Reg} (hdst : p.instr.destination? = some dst) :
    p.sets r = (r == dst.index || (p.instr.setsWide && r == dst.index + 1)) := by
  have hcall : p.instr.isConstructorCall = false := by
    cases hi : p.instr with
    | invoke | invokeDirectEmpty | invokeObjectInit =>
      rw [hi] at hdst
      cases hdst
    | _ => rfl
  simp [sets, hcall, hdst]

/-- Without destination, only a constructor call writes registers. -/
theorem call_of_sets (hnone : p.instr.destination? = none) (h : p.sets r = true) :
    ∃ o, p.instr.isConstructorCall = true ∧ p.instr.receiver? = some o ∧
      (r = o.index ∨ p.sameNewObject r o.index = true) := by
  unfold sets at h
  split at h
  · next hcall =>
    split at h
    · next o ho =>
      rw [Bool.or_eq_true, beq_iff_eq] at h
      exact ⟨o, hcall, ho, h⟩
    · cases h
  · simp [hnone] at h

/-- What can be known of a register around an instruction without destination.  It has the same
type, it is the receiver of what may be a constructor call, or it holds a copy of the new object
that was in the receiver. -/
inductive Left (p : Point) (r : Nat) : Prop where
  | kept (h : p.after[r]? = p.before[r]?)
  | receiver {o : Reg} (ho : p.given.mayInitialise? = some o) (hr : r = o.index)
  | copy {o : Reg} {v : RegType} {n : TypeNode} (ho : p.given.mayInitialise? = some o)
    (hv : p.before[r]? = some v) (hn : v.newClass? = some n)
    (hafter : p.after[r]? = some .unknown ∨ p.after[r]? = some (.reference n))
    (hreceiver : p.before[o.index]? = some v ∨ p.before[o.index]? = some .conflicted)

/-- A point whose instruction, if it has no destination, leaves the registers alone. -/
structure Sparing (p : Point) : Prop where
  becomes : p.given.Becomes p.instr
  size : p.before.size = p.after.size
  left : p.given.destination? = none → ∀ r, p.Left r

/-- Around a point where a type comes in for another register. -/
theorem Left.raise_ne (h : p.Left r) (hr : r ≠ x) (hold : p.before[x]? = some old)
    (hjoin : old.join cp t m = .ok new m') (hnew : new ≠ old) : (p.raise x new).Left r := by
  cases h with
  | kept h => exact .kept (by rw [raise_after_ne hr, raise_before_ne hr, h])
  | receiver ho hr' => exact .receiver (by rwa [raise_given]) hr'
  | @copy o v n ho hv hn hafter hreceiver =>
    refine .copy (by rwa [raise_given]) (by rwa [raise_before_ne hr]) hn
      (by rwa [raise_after_ne hr]) ?_
    by_cases ho' : o.index = x
    · -- The receiver climbs away from the copies.
      rw [ho', hold, Option.some.injEq, Option.some.injEq] at hreceiver
      rw [ho', raise_before_self hold]
      rcases hreceiver with rfl | rfl
      · exact .inr (congrArg some (RegType.conflicted_of_new hn hjoin hnew))
      · exact .inr (congrArg some (RegType.conflicted_join hjoin))
    · rwa [raise_before_ne ho']

/-- Around a point where a type comes in for the register. -/
theorem Left.raise_self (h : p.Left x) (hbecomes : p.given.Becomes p.instr)
    (hnone : p.given.destination? = none) (hsize : p.before.size = p.after.size)
    (hold : p.before[x]? = some old) (hjoin : old.join cp t m = .ok new m') (hnew : new ≠ old) :
    (p.raise x new).Left x := by
  have hbefore : (p.raise x new).before[x]? = some new := raise_before_self hold
  rcases raise_after_self new hsize hold with hafter | ⟨hsets, hafter⟩
  · exact .kept (hafter.trans hbefore.symm)
  obtain ⟨o, hcall, ho, hx⟩ := call_of_sets
    (by rw [raise_instr]; exact hbecomes.destination?_eq_none hnone) hsets
  rw [raise_instr] at hcall ho
  have hgiven : p.given.mayInitialise? = some o := (hbecomes.mayInitialise? hcall).2.trans ho
  rcases hx with rfl | hsame
  · exact .receiver (by rwa [raise_given]) rfl
  · -- What rises to a new object was not known, before the point and after it.
    obtain ⟨v, n, hn, hv, hreceiver⟩ := sameNewObject_iff.1 hsame
    cases hbefore.symm.trans hv
    obtain ⟨rfl, _⟩ := (RegType.join_new hjoin hn).resolve_left hnew
    cases h with
    | kept h =>
      exact .copy (by rwa [raise_given]) hbefore hn (.inl (by rw [hafter, h, hold]))
        (.inl hreceiver)
    | receiver ho' hr' => exact .receiver (by rwa [raise_given]) hr'
    | copy _ hv' hn' =>
      cases hold.symm.trans hv'
      cases hn'

theorem Sparing.raise (h : p.Sparing) (hold : p.before[x]? = some old)
    (hjoin : old.join cp t m = .ok new m') (hnew : new ≠ old) : (p.raise x new).Sparing where
  becomes := by
    rw [raise_given, raise_instr]
    exact h.becomes
  size := by
    rw [raise_before, raise_after]
    split <;> simp [h.size]
  left := by
    intro hnone r
    rw [raise_given] at hnone
    by_cases hr : r = x
    · subst hr
      exact (h.left hnone r).raise_self h.becomes hnone h.size hold hjoin hnew
    · exact (h.left hnone r).raise_ne hr hold hjoin hnew

/-- What is written after a point is the type of that register. -/
theorem Left.setAfter_ne (h : p.Left r) (hr : r ≠ x) :
    ({ p with after := p.after.setIfInBounds x t } : Point).Left r := by
  have hafter : (p.after.setIfInBounds x t)[r]? = p.after[r]? :=
    Array.getElem?_setIfInBounds_ne hr.symm
  cases h with
  | kept h => exact .kept (hafter.trans h)
  | receiver ho hr => exact .receiver ho hr
  | copy ho hv hn hleft hreceiver => exact .copy ho hv hn (by rwa [hafter]) hreceiver

/-- A constructor call that found a new object in its receiver is carried out at the point. -/
structure Calling (p : Point) (object : Reg) (u : RegType) : Prop where
  call : p.instr.isConstructorCall = true
  target : p.instr.receiver? = some object
  receiver : p.before[object.index]? = some u ∨ p.before[object.index]? = some .conflicted

theorem Calling.raise {object : Reg} {u : RegType} {n : TypeNode} (h : p.Calling object u)
    (hn : u.newClass? = some n) (hold : p.before[x]? = some old)
    (hjoin : old.join cp t m = .ok new m') (hnew : new ≠ old) :
    (p.raise x new).Calling object u where
  call := by
    rw [raise_instr]
    exact h.call
  target := by
    rw [raise_instr]
    exact h.target
  receiver := by
    have hreceiver := h.receiver
    by_cases hx : object.index = x
    · rw [hx, hold, Option.some.injEq, Option.some.injEq] at hreceiver
      rw [hx, raise_before_self hold]
      rcases hreceiver with rfl | rfl
      · exact .inr (congrArg some (RegType.conflicted_of_new hn hjoin hnew))
      · exact .inr (congrArg some (RegType.conflicted_join hjoin))
    · rwa [raise_before_ne hx]

/-- Only the receiver and copies of the object in it are initialised. -/
theorem Sparing.initialise {object : Reg} {u : RegType} {n : TypeNode} (h : p.Sparing)
    (hcalling : p.Calling object u) (hn : u.newClass? = some n)
    (hr : (r == object.index || p.sets r) = true) :
    ({ p with after := p.after.setIfInBounds r (.reference n) } : Point).Sparing where
  becomes := h.becomes
  size := by simpa using h.size
  left := by
    intro hnone x
    by_cases hx : x = r
    · have hgiven : p.given.mayInitialise? = some object :=
        (h.becomes.mayInitialise? hcalling.call).2.trans hcalling.target
      rw [sets_of_call hcalling.call hcalling.target, ← Bool.or_assoc, Bool.or_self,
        Bool.or_eq_true, beq_iff_eq] at hr
      rcases hr with hr | hsame
      · exact .receiver hgiven (hx.trans hr)
      · obtain ⟨v, c, hc, hv, hreceiver⟩ := sameNewObject_iff.1 hsame
        obtain rfl : v = u := by
          rcases hcalling.receiver with hu | hconflicted
          · exact Option.some.inj (hreceiver.symm.trans hu)
          · cases hreceiver.symm.trans hconflicted
            cases hc
        cases hc.symm.trans hn
        obtain ⟨hsize, _⟩ := Array.getElem?_eq_some_iff.1 hv
        subst hx
        refine .copy hgiven hv hn (.inr ?_) (.inl hreceiver)
        exact Array.getElem?_setIfInBounds_self_of_lt (h.size ▸ hsize)
    · exact (h.left hnone x).setAfter_ne hx

end Point

namespace Subject

variable {s : Subject} {i : Nat} {p : Point} {done : Bool} {st st' : State}

theorem sparing_of_initialise {object : Reg} {u : RegType} {n : TypeNode} {rs : List Nat}
    {v : Unit} (hst : st.Points fun _ => Point.Sparing) (hp : st.points[i]? = some p)
    (hcalling : p.Calling object u) (hn : u.newClass? = some n)
    (h : s.initialiseFrom i object n rs st = .ok v st') :
    st'.Points fun _ => Point.Sparing := by
  have hupward : s.Upward fun k q => q.Sparing ∧ (k = i → q.Calling object u) :=
    Upward.and ⟨Point.Sparing.raise⟩
      (Upward.only ⟨fun h hold hjoin hnew => h.raise hn hold hjoin hnew⟩ i)
  have done := initialiseFrom_keeps
    (I := fun _ st => st.Points fun k q => q.Sparing ∧ (k = i → q.Calling object u)) ?_
    (fun hst _ _ => hst) ?_ h
  · obtain ⟨_, hst', _⟩ := done
    exact fun k q hq => (hst' k q hq).1
  · intro r rest q _ st st' hst hq hr hassign
    obtain ⟨_, new, st₁, hone, rfl | ⟨_, _, _, hhigh, _⟩⟩ := assign_ok hassign
    · refine hupward.assignOne ?_ hst hone
      intro k q' hk hq'
      cases hk
      cases hq.symm.trans hq'
      obtain ⟨hsparing, hcalling⟩ := hst i q hq
      have hcalling := hcalling rfl
      exact ⟨hsparing.initialise hcalling hn hr,
        fun _ => ⟨hcalling.call, hcalling.target, hcalling.receiver⟩⟩
    · cases hhigh
  · intro k q hq
    refine ⟨hst k q hq, ?_⟩
    rintro rfl
    cases hp.symm.trans hq
    exact hcalling

/-- An instruction spares the registers around it. -/
theorem stable_sparing (s : Subject) : s.Stable fun _ => Point.Sparing where
  raise := Point.Sparing.raise
  becomes h := h.becomes
  replace := by
    intro i p j h hj
    refine ⟨hj, h.size, fun hnone r => ?_⟩
    cases h.left hnone r with
    | kept h => exact .kept h
    | receiver ho hr => exact .receiver ho hr
    | copy ho hv hn hafter hreceiver => exact .copy ho hv hn hafter hreceiver
  transfer := by
    intro i p done st st' hst hp h
    obtain ⟨e, m, heffect, happly⟩ := transfer_ok h
    obtain ⟨_, _, rfl⟩ | ⟨_, _, rfl⟩ | ⟨t, dst, _, hdst, _, hassign⟩ | ⟨object, n, rfl, _, hinit⟩ :=
      apply_ok happly
    · exact hst
    · exact hst
    · -- The instruction has a destination, so there is nothing to keep at its point.
      have hupward : s.Upward fun k q => q.Sparing ∧ (k = i → q.given.destination? ≠ none) := by
        refine Upward.and ⟨Point.Sparing.raise⟩ (Upward.only ⟨fun h _ _ _ => ?_⟩ i)
        rwa [Point.raise_given]
      have hst₁ : ({ st with memo := m } : State).Points fun k q =>
          q.Sparing ∧ (k = i → q.given.destination? ≠ none) := by
        intro k q hq
        refine ⟨hst k q hq, ?_⟩
        rintro rfl hnone
        cases hp.symm.trans hq
        cases hdst.symm.trans ((hst k p hp).becomes.destination?_eq_none hnone)
      have hst' := hupward.assign ?_ hst₁ hassign
      · exact fun k q hq => (hst' k q hq).1
      · rintro k q x t' hk _ _ ⟨hsparing, hsome⟩
        cases hk
        exact ⟨⟨hsparing.becomes, by simpa using hsparing.size,
          fun hnone => absurd hnone (hsome rfl)⟩, hsome⟩
    · cases said_of_effect heffect with
      | @initialise args ctor _ u _ hinstr hname hobject hu hn =>
        have hnew : u.newClass? = some n := by
          rcases hn with ⟨site, rfl⟩ | rfl <;> rfl
        have hst₁ : ({ st with memo := m } : State).Points fun _ => Point.Sparing := hst
        refine sparing_of_initialise hst₁ hp (u := u) ⟨?_, ?_, ?_⟩ hnew hinit
        · rw [hinstr]
          exact beq_iff_eq.2 hname
        · rw [hinstr]
          exact hobject
        · exact .inl (Point.typeBefore_ok.1 hu)

end Subject

section Analysed

variable {cp : ClassPath} {options : Options} {cls : ClassDef} {method : MethodDef} {m m' : Memo}
  {a : Analysed} {i r : Nat} {p : Point}

theorem sparing_of_analysed (h : analyseMethod cp options cls method m = .ok a m')
    (hp : a.points[i]? = some p) : p.Sparing :=
  (Subject.stable_sparing a.subject).analysed h
    (fun _ => ⟨.same, by simp [Point.ofLine], fun _ r => .kept rfl⟩) hp

/-- A constructor call whose receiver holds a new object leaves alone every register with another
type, be it another new object of the same class. -/
theorem constructor_call_spares_others {object : Reg} {u v : RegType}
    (h : analyseMethod cp options cls method m = .ok a m') (hp : a.points[i]? = some p)
    (hcall : p.instr.isConstructorCall = true) (hobject : p.instr.receiver? = some object)
    (hu : a.typeBefore? i object.index = some u) (hnew : u.newClass?.isSome = true)
    (hv : a.typeBefore? i r = some v) (hne : v ≠ u) : a.typeAfter? (.instr i) r = some v := by
  have hsparing := sparing_of_analysed h hp
  obtain ⟨hnone, hgiven⟩ := hsparing.becomes.mayInitialise? hcall
  simp only [Analysed.typeBefore?, Analysed.typeAfter?, hp, Option.bind_some] at hu hv ⊢
  cases hsparing.left hnone r with
  | kept hkept => exact hkept.trans hv
  | receiver ho hr =>
    cases ho.symm.trans (hgiven.trans hobject)
    subst hr
    exact absurd (Option.some.inj (hv.symm.trans hu)) hne
  | copy ho hv' _ _ hreceiver =>
    cases ho.symm.trans (hgiven.trans hobject)
    cases hv.symm.trans hv'
    rcases hreceiver with hreceiver | hconflicted
    · exact absurd (Option.some.inj (hreceiver.symm.trans hu)) hne
    · cases hconflicted.symm.trans hu
      cases hnew

/-- A constructor that makes two objects of its class and calls the constructor of the first. -/
def makingTwo : MethodDef :=
  ⟨Instr.constructorName, [], .void, .ofList [.constructor],
    some (.assemble 3 [.newInstance ⟨0⟩ (.cls "A"), .newInstance ⟨1⟩ (.cls "A"),
      .invoke .direct (.list [⟨0⟩]) ⟨.cls "A", Instr.constructorName, [], .void⟩,
      .returnVoid] [])⟩

/-- Its call initialises the first object, but not the second one and not the receiver. -/
theorem makingTwo_spares_others :
    ∃ a m', analyseMethod (.ofClasses [emptyClass] 15) {} emptyClass makingTwo .empty = .ok a m' ∧
      a.typeBefore? 2 0 = some (.uninitRef (.cls "LA;") 0) ∧
      a.typeAfter? (.instr 2) 0 = some (.reference (.cls "LA;")) ∧
      a.typeAfter? (.instr 2) 1 = some (.uninitRef (.cls "LA;") 1) ∧
      a.typeAfter? (.instr 2) 2 = some (.uninitThis (.cls "LA;")) := by
  have hrun : ∃ a m', analyseMethod (.ofClasses [emptyClass] 15) {} emptyClass makingTwo .empty =
        .ok a m' ∧
      (a.points[2]?).map (fun p => (p.instr.isConstructorCall, p.instr.receiver?)) =
        some (true, some ⟨0⟩) ∧
      a.typeBefore? 2 0 = some (.uninitRef (.cls "LA;") 0) ∧
      a.typeAfter? (.instr 2) 0 = some (.reference (.cls "LA;")) ∧
      a.typeBefore? 2 1 = some (.uninitRef (.cls "LA;") 1) ∧
      a.typeBefore? 2 2 = some (.uninitThis (.cls "LA;")) := by
    decide +kernel
  obtain ⟨a, m', h, hcall, hu, hu', h₁, h₂⟩ := hrun
  obtain ⟨p, hp, hpair⟩ := Option.map_eq_some_iff.1 hcall
  obtain ⟨hcall, hobject⟩ := Prod.mk.inj hpair
  exact ⟨a, m', h, hu, hu',
    constructor_call_spares_others h hp hcall hobject hu rfl h₁ (by decide),
    constructor_call_spares_others h hp hcall hobject hu rfl h₂ (by decide)⟩

end Analysed

/-! ## Instructions with a destination -/

/-- The instruction of the point can write a wide value: it names a wide type, or it moves what is
the first half of a wide value, or was one before it conflicted. -/
def Point.Spills (p : Point) (previous? : Option Instr) : Prop :=
  (∃ ty, fetchedTy? previous? p.instr = some ty ∧ ty.isWide = true) ∨
    ∃ w form dst src t, p.instr = .move w form dst src ∧ p.before[src.index]? = some t ∧
      (t.high?.isSome = true ∨ t = .conflicted)

namespace Subject

variable {s : Subject} {i r : Nat} {p : Point} {t high old new : RegType} {st st' : State}
  {m m' : Memo}

theorem high?_exceptionType {addr : Addr} (h : s.exceptionType addr m = .ok t m') :
    t.high? = none := by
  refine of_exceptionType (Q := fun t => t.high? = none) rfl (fun _ _ => rfl)
    (fun _ _ _ _ _ _ _ _ _ _ _ _ hjoin => ?_) h
  cases RegType.joined_of_join hjoin <;> rfl

/-- What writes a wide value is an instruction for wide values, or it spills. -/
theorem spills_of_effect {previous? : Option Instr}
    (h : s.effect i p previous? m = .ok (.write t) m') (hhigh : t.high? = some high) :
    p.instr.setsWide = true ∨ p.Spills previous? := by
  cases said_of_effect h with
  | made => cases hhigh
  | moved hinstr ht =>
    exact .inr (.inr ⟨_, _, _, _, t, hinstr, Point.typeBefore_ok.1 ht, .inl (by rw [hhigh]; rfl)⟩)
  | caught _ ht => cases (high?_exceptionType ht).symm.trans hhigh
  | number ht => exact (ht.wide_of_high? hhigh).imp_right .inl
  | reference => cases hhigh

end Subject

/-- What can be known of a register beside the destination of an instruction. -/
def Point.Beside (p : Point) (previous? : Option Instr) (dst r : Nat) : Prop :=
  p.after[r]? = p.before[r]? ∨ (r = dst + 1 ∧ (p.instr.setsWide = true ∨
    (p.Spills previous? ∧
      (p.after[r]? = some (.half .longHi) ∨ p.after[r]? = some (.half .doubleHi)))))

namespace Point

variable {p : Point} {previous? : Option Instr} {x : Nat} {old new t : RegType} {cp : ClassPath}
  {m m' : Memo}

theorem Spills.mono {known? : Option Instr} (h : p.Spills previous?)
    (hknown : ∀ previous, previous? = some previous → known? = some previous) :
    p.Spills known? := by
  rcases h with ⟨ty, hty, hwide⟩ | hmove
  · refine .inl ⟨ty, ?_, hwide⟩
    cases hi : p.instr with
    | moveResult =>
      rw [hi] at hty
      obtain ⟨previous, hprevious, hresult⟩ := Option.bind_eq_some_iff.1 hty
      exact Option.bind_eq_some_iff.2 ⟨previous, hknown previous hprevious, hresult⟩
    | instanceAccess dir kind | staticAccess dir kind =>
      rw [hi] at hty
      cases dir with
      | put => cases hty
      | get =>
        cases kind with
        | object => exact hty
        | _ => cases hty
    | _ =>
      rw [hi] at hty
      exact hty
  · exact .inr hmove

theorem Spills.raise (h : p.Spills previous?) (hold : p.before[x]? = some old)
    (hjoin : old.join cp t m = .ok new m') : (p.raise x new).Spills previous? := by
  rcases h with hnamed | ⟨w, form, dst, src, u, hinstr, hu, hfirst⟩
  · left
    rwa [raise_instr]
  · right
    rw [raise_instr]
    by_cases hx : src.index = x
    · -- A first half stays one, or conflicts.
      subst hx
      cases hold.symm.trans hu
      refine ⟨w, form, dst, src, new, hinstr, raise_before_self hold, ?_⟩
      rcases hfirst with hfirst | rfl
      · cases RegType.joined_of_join hjoin with
        | same | unknown_right => exact .inl hfirst
        | @half y z _ hjoin =>
          left
          cases y with
          | longLo | doubleLo => cases z <;> cases hjoin <;> rfl
          | longHi | doubleHi => cases hfirst
        | conflict => exact .inr rfl
        | _ => cases hfirst
      · exact .inr (RegType.conflicted_join hjoin)
    · exact ⟨w, form, dst, src, u, hinstr, by rwa [raise_before_ne hx], hfirst⟩

end Point

namespace Subject

variable {s : Subject} {i : Nat} {p : Point} {st st' : State}

/-- A point of plain code whose instruction, if it has a destination, changes that register and
perhaps the next one. -/
structure Contained (s : Subject) (i : Nat) (p : Point) : Prop where
  line : s.body.instrs[i]? = some p.given
  plain : p.given.odexOnly = false
  instr : p.instr = p.given
  before : p.before.size = s.body.registers
  after : p.after.size = s.body.registers
  beside : ∀ {dst : Reg}, p.instr.destination? = some dst → ∀ {r}, r ≠ dst.index →
    p.Beside s.body.instrs[i - 1]? dst.index r

theorem Contained.raise {x : Nat} {old t new : RegType} {m m' : Memo} (h : s.Contained i p)
    (hold : p.before[x]? = some old) (hjoin : old.join s.classPath t m = .ok new m') :
    s.Contained i (p.raise x new) where
  line := by
    rw [Point.raise_given]
    exact h.line
  plain := by
    rw [Point.raise_given]
    exact h.plain
  instr := by
    rw [Point.raise_given, Point.raise_instr]
    exact h.instr
  before := by simpa using h.before
  after := by
    rw [Point.raise_after]
    split <;> simp [h.after]
  beside := by
    intro dst hdst r hr
    rw [Point.raise_instr] at hdst
    by_cases hx : r = x
    · subst hx
      rcases Point.raise_after_self new (h.before.trans h.after.symm) hold with
        hafter | ⟨hsets, _⟩
      · exact .inl (hafter.trans (Point.raise_before_self hold).symm)
      · rw [Point.sets_of_destination (by rwa [Point.raise_instr]), beq_false_of_ne hr,
          Bool.false_or, Bool.and_eq_true, beq_iff_eq] at hsets
        exact .inr ⟨hsets.2, .inl hsets.1⟩
    · unfold Point.Beside
      rw [Point.raise_after_ne hx, Point.raise_before_ne hx, Point.raise_instr]
      rcases h.beside hdst hr with hkept | ⟨hnext, hwide | ⟨hspills, hhigh⟩⟩
      · exact .inl hkept
      · exact .inr ⟨hnext, .inl hwide⟩
      · exact .inr ⟨hnext, .inr ⟨hspills.raise hold hjoin, hhigh⟩⟩

/-- The instruction before a point is the one in the body. -/
theorem previous?_of_contained {previous : Instr} (hst : st.Points s.Contained)
    (h : previous? st i = some previous) : s.body.instrs[i - 1]? = some previous := by
  cases i with
  | zero => cases h
  | succ j =>
    obtain ⟨q, hq, rfl⟩ := Option.map_eq_some_iff.1 h
    have hq' := hst j q hq
    rw [hq'.instr]
    exact hq'.line

/-- A destination, and why the type that is written may be wide. -/
structure Writing (s : Subject) (i : Nat) (dst : Reg) (t : RegType) (p : Point) : Prop where
  destination : p.instr.destination? = some dst
  wide : t.high?.isSome = true → p.instr.setsWide = true ∨ p.Spills s.body.instrs[i - 1]?

theorem Writing.raise {dst : Reg} {x : Nat} {u old t new : RegType} {m m' : Memo}
    (h : s.Writing i dst u p) (hold : p.before[x]? = some old)
    (hjoin : old.join s.classPath t m = .ok new m') : s.Writing i dst u (p.raise x new) where
  destination := by
    rw [Point.raise_instr]
    exact h.destination
  wide := by
    intro hwide
    rw [Point.raise_instr]
    exact (h.wide hwide).imp id fun hspills => hspills.raise hold hjoin

/-- What an instruction writes stays in its destination, but for the second half of a wide value. -/
theorem Contained.write {dst : Reg} {t t' : RegType} {x : Nat} (h : s.Contained i p)
    (hwriting : s.Writing i dst t p) (hx : x < s.body.registers)
    (ht' : (x = dst.index ∧ t' = t) ∨ (x = dst.index + 1 ∧ t.high? = some t')) :
    s.Contained i { p with after := p.after.setIfInBounds x t' } where
  line := h.line
  plain := h.plain
  instr := h.instr
  before := h.before
  after := by simpa using h.after
  beside := by
    intro dst' hdst' r hr
    cases hdst'.symm.trans hwriting.destination
    by_cases hrx : r = x
    · subst hrx
      obtain ⟨rfl, hhigh⟩ := ht'.resolve_left fun h => hr h.1
      refine .inr ⟨rfl, (hwriting.wide (by rw [hhigh]; rfl)).imp id fun hspills => ⟨hspills, ?_⟩⟩
      rw [Array.getElem?_setIfInBounds_self_of_lt (h.after ▸ hx)]
      cases t with
      | half y =>
        cases y with
        | longLo =>
          cases hhigh
          exact .inl rfl
        | doubleLo =>
          cases hhigh
          exact .inr rfl
        | _ => cases hhigh
      | _ => cases hhigh
    · unfold Point.Beside
      rw [Array.getElem?_setIfInBounds_ne (Ne.symm hrx)]
      exact h.beside hdst' hr

theorem contained_of_write {dst : Reg} {t : RegType} {u : Unit} (hst : st.Points s.Contained)
    (hp : st.points[i]? = some p) (hwriting : s.Writing i dst t p)
    (h : s.assign (.instr i) dst.index t st = .ok u st') : st'.Points s.Contained := by
  have hupward : s.Upward fun k q => s.Contained k q ∧ (k = i → s.Writing i dst t q) :=
    Upward.and ⟨fun h hold hjoin _ => h.raise hold hjoin⟩
      (Upward.only ⟨fun h hold hjoin _ => h.raise hold hjoin⟩ i)
  have hst₁ : st.Points fun k q => s.Contained k q ∧ (k = i → s.Writing i dst t q) := by
    intro k q hq
    refine ⟨hst k q hq, ?_⟩
    rintro rfl
    cases hp.symm.trans hq
    exact hwriting
  have hst' := hupward.assign ?_ hst₁ h
  · exact fun k q hq => (hst' k q hq).1
  · rintro k q x t' hk ht' hx ⟨hcontained, hwriting⟩
    cases hk
    have hwriting := hwriting rfl
    exact ⟨hcontained.write hwriting hx ht', fun _ => ⟨hwriting.destination, hwriting.wide⟩⟩

/-- A call has no destination. -/
theorem contained_of_initialise {object : Reg} {n : TypeNode} {rs : List Nat} {u : Unit}
    (hst : st.Points s.Contained) (hp : st.points[i]? = some p)
    (hnone : p.instr.destination? = none)
    (h : s.initialiseFrom i object n rs st = .ok u st') : st'.Points s.Contained := by
  have hupward : s.Upward fun k q => s.Contained k q ∧ (k = i → q.instr.destination? = none) := by
    refine Upward.and ⟨fun h hold hjoin _ => h.raise hold hjoin⟩ (Upward.only ⟨fun h _ _ _ => ?_⟩ i)
    rwa [Point.raise_instr]
  have done := initialiseFrom_keeps (I := fun _ st => st.Points fun k q =>
    s.Contained k q ∧ (k = i → q.instr.destination? = none)) ?_ (fun hst _ _ => hst) ?_ h
  · obtain ⟨_, hst', _⟩ := done
    exact fun k q hq => (hst' k q hq).1
  · intro r rest q _ st st' hst _ _ hassign
    refine hupward.assign ?_ hst hassign
    rintro k q x t' hk _ _ ⟨hcontained, hnone⟩
    cases hk
    have hnone := hnone rfl
    refine ⟨⟨hcontained.line, hcontained.plain, hcontained.instr, hcontained.before,
      by simpa using hcontained.after, fun hdst => ?_⟩, fun _ => hnone⟩
    cases hnone.symm.trans hdst
  · intro k q hq
    refine ⟨hst k q hq, ?_⟩
    rintro rfl
    cases hp.symm.trans hq
    exact hnone

theorem stable_contained (s : Subject) : s.Stable s.Contained where
  raise h hold hjoin _ := h.raise hold hjoin
  becomes h := h.instr ▸ .same
  replace := by
    intro i p j h hj
    have hj := (hj.eq_of_plain h.plain).trans h.instr.symm
    subst hj
    exact h
  transfer := by
    intro i p done st st' hst hp h
    obtain ⟨e, m, heffect, happly⟩ := transfer_ok h
    have hst₁ : ({ st with memo := m } : State).Points s.Contained := hst
    obtain ⟨_, _, rfl⟩ | ⟨_, _, rfl⟩ | ⟨t, dst, rfl, hdst, _, hassign⟩ |
      ⟨object, n, rfl, _, hinit⟩ :=
      apply_ok happly
    · exact hst
    · exact hst
    · refine contained_of_write hst₁ hp ⟨hdst, fun hwide => ?_⟩ hassign
      obtain ⟨high, hhigh⟩ := Option.isSome_iff_exists.1 hwide
      exact (spills_of_effect heffect hhigh).imp id fun hspills =>
        hspills.mono fun previous hprevious => previous?_of_contained hst hprevious
    · cases said_of_effect heffect with
      | initialise hinstr => exact contained_of_initialise hst₁ hp (hinstr ▸ rfl) hinit

end Subject

/-! ## Registers that are not written -/

namespace Point

/-- The register after the destination got the second half of a wide value, though the instruction
writes one register. -/
def Spilled (p : Point) (previous? : Option Instr) (r : Nat) (half : WideHalf) : Prop :=
  ∃ dst, p.instr.destination? = some dst ∧ r = dst.index + 1 ∧ p.Spills previous? ∧
    (half = .longHi ∨ half = .doubleHi) ∧ p.after[r]? = some (.half half)

/-- The register held a copy of the new object in the receiver of a constructor call when the call
wrote it, and the receiver conflicts by now. -/
def Forsaken (p : Point) (r : Nat) : Prop :=
  ∃ object v n, p.instr.isConstructorCall = true ∧ p.instr.receiver? = some object ∧
    p.before[object.index]? = some .conflicted ∧ p.before[r]? = some v ∧
    v.newClass? = some n ∧ (p.after[r]? = some .unknown ∨ p.after[r]? = some (.reference n))

end Point

section Analysed

variable {cp : ClassPath} {options : Options} {cls : ClassDef} {method : MethodDef} {b : Body}
  {m m' : Memo} {a : Analysed} {i r : Nat} {p : Point}

theorem contained_of_analysed (hplain : ∀ l ∈ a.subject.body.lines, l.instr.odexOnly = false)
    (h : analyseMethod cp options cls method m = .ok a m') (hp : a.points[i]? = some p) :
    a.subject.Contained i p := by
  refine (Subject.stable_contained a.subject).analysed h ?_ hp
  intro k l hl
  refine ⟨?_, hplain l (List.mem_of_getElem? hl), rfl, by simp [Point.ofLine],
    by simp [Point.ofLine], fun _ _ _ => .inl rfl⟩
  simp [Body.instrs, hl, Point.ofLine]

/-- In plain code, a register that an instruction does not write has the same type before and
after it, with two exceptions: it got the second half of a wide value that it did not hold before,
or it held a copy of a new object whose register conflicts by now. -/
theorem unwritten_kept_iff (hbody : method.body? = some b)
    (hplain : ∀ l ∈ b.lines, l.instr.odexOnly = false)
    (h : analyseMethod cp options cls method m = .ok a m') (hp : a.points[i]? = some p)
    (hr : p.sets r = false) :
    a.typeAfter? (.instr i) r = a.typeBefore? i r ↔
      (∀ half, p.Spilled b.instrs[i - 1]? r half → a.typeBefore? i r = some (.half half)) ∧
        ¬ p.Forsaken r := by
  have hbody' := body_of_analysed hbody h
  subst hbody'
  have hsparing := sparing_of_analysed h hp
  have hcontained := contained_of_analysed hplain h hp
  simp only [Analysed.typeBefore?, Analysed.typeAfter?, hp, Option.bind_some]
  constructor
  · intro hkept
    constructor
    · rintro half ⟨_, _, _, _, _, hafter⟩
      exact hkept.symm.trans hafter
    · rintro ⟨_, v, n, _, _, _, hv, hn, hunknown | hreference⟩
      · cases hunknown.symm.trans (hkept.trans hv)
        cases hn
      · cases hreference.symm.trans (hkept.trans hv)
        cases hn
  · rintro ⟨hspilled, hforsaken⟩
    cases hdst : p.instr.destination? with
    | some dst =>
      have hne : r ≠ dst.index := by
        rintro rfl
        rw [Subject.sets_destination hdst rfl] at hr
        cases hr
      rcases hcontained.beside hdst hne with hkept | ⟨hnext, hwide | ⟨hspills, hhigh⟩⟩
      · exact hkept
      · rw [Point.sets_of_destination hdst, hwide, hnext] at hr
        simp at hr
      · rcases hhigh with hhigh | hhigh
        · exact hhigh.trans (hspilled _ ⟨dst, hdst, hnext, hspills, .inl rfl, hhigh⟩).symm
        · exact hhigh.trans (hspilled _ ⟨dst, hdst, hnext, hspills, .inr rfl, hhigh⟩).symm
    | none =>
      have call : ∀ {o}, p.given.mayInitialise? = some o →
          p.instr.isConstructorCall = true ∧ p.instr.receiver? = some o :=
        fun ho => hcontained.instr ▸ Instr.call_of_mayInitialise? hcontained.plain ho
      cases hsparing.left (hcontained.instr ▸ hdst) r with
      | kept hkept => exact hkept
      | receiver ho hro =>
        obtain ⟨hcall, hobject⟩ := call ho
        rw [Point.sets_of_call hcall hobject, hro] at hr
        simp at hr
      | copy ho hv hn hafter hreceiver =>
        obtain ⟨hcall, hobject⟩ := call ho
        rcases hreceiver with hreceiver | hconflicted
        · rw [Point.sets_of_call hcall hobject,
            Point.sameNewObject_iff.2 ⟨_, _, hn, hv, hreceiver⟩, Bool.or_true] at hr
          cases hr
        · exact absurd ⟨_, _, _, hcall, hobject, hconflicted, hv, hn, hafter⟩ hforsaken

end Analysed

/-- A method that makes an object, copies it and calls its constructor again and again. -/
def recalling : MethodDef :=
  ⟨"m", [.int], .void, .ofList [.static],
    some (.assemble 3 [.newInstance ⟨0⟩ (.cls "A"), .move .object .near ⟨1⟩ ⟨0⟩,
      .invoke .direct (.list [⟨0⟩]) ⟨.cls "A", Instr.constructorName, [], .void⟩,
      .goto .eight (-3)] [])⟩

/-- Its call comes to a receiver that conflicts.  The parameter is left alone, but the copy is not
what it was before the call. -/
theorem recalling_keeps_parameter :
    ∃ a m', analyseMethod (.ofClasses [emptyClass] 15) {} emptyClass recalling .empty = .ok a m' ∧
      a.typeAfter? (.instr 2) 2 = a.typeBefore? 2 2 ∧
      a.typeAfter? (.instr 2) 1 ≠ a.typeBefore? 2 1 := by
  have hrun : ∃ a m', analyseMethod (.ofClasses [emptyClass] 15) {} emptyClass recalling .empty =
        .ok a m' ∧
      (a.points[2]?).map (fun p => (p.instr, p.sets 1, p.sets 2)) =
        some (.invoke .direct (.list [⟨0⟩]) ⟨.cls "A", Instr.constructorName, [], .void⟩,
          false, false) ∧
      (a.points[2]?).map (fun p => (p.before, p.after[1]?)) =
        some (#[.conflicted, .uninitRef (.cls "LA;") 0, .narrow .integer], some .unknown) := by
    decide +kernel
  obtain ⟨a, m', h, hpoint, htypes⟩ := hrun
  obtain ⟨p, hp, hparts⟩ := Option.map_eq_some_iff.1 hpoint
  simp only [hp, Option.map_some, Option.some.injEq, Prod.mk.injEq] at hparts htypes
  obtain ⟨hinstr, hsets₁, hsets₂⟩ := hparts
  obtain ⟨hbefore, hafter⟩ := htypes
  refine ⟨a, m', h, ?_, ?_⟩
  · refine (unwritten_kept_iff rfl (by decide) h hp hsets₂).2 ⟨?_, ?_⟩
    · rintro half ⟨dst, hdst, _⟩
      rw [hinstr] at hdst
      cases hdst
    · rintro ⟨_, v, n, _, _, _, hv, hn, _⟩
      rw [hbefore] at hv
      cases hv
      cases hn
  · rw [Ne, unwritten_kept_iff rfl (by decide) h hp hsets₁]
    rintro ⟨_, hforsaken⟩
    refine hforsaken ⟨⟨0⟩, .uninitRef (.cls "LA;") 0, .cls "LA;", ?_, ?_, ?_, ?_, rfl, .inl hafter⟩
    · rw [hinstr]
      rfl
    · rw [hinstr]
      rfl
    · rw [hbefore]
      rfl
    · rw [hbefore]
      rfl

/-- A method that moves the first half of its parameter alone. -/
def movingHalf : MethodDef :=
  ⟨"m", [.long], .void, .ofList [.static],
    some (.assemble 4 [.move .narrow .near ⟨0⟩ ⟨2⟩, .returnVoid] [])⟩

/-- The second half comes along, into a register that the instruction does not write. -/
theorem movingHalf_spills :
    ∃ a m', analyseMethod (.ofClasses [emptyClass] 15) {} emptyClass movingHalf .empty =
        .ok a m' ∧ a.subject.graph.isReachable 0 = true ∧
      (a.points[0]?).map (fun p => p.sets 1) = some false ∧
      a.typeBefore? 0 1 = some .uninit ∧
      a.typeAfter? (.instr 0) 1 = some (.half .longHi) := by
  decide +kernel

end Analysis

end Dalvik
