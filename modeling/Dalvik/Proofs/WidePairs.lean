import Dalvik.Proofs.Entry
import Dalvik.Proofs.Untouched

/-!
# The halves of a wide value

A wide value is in two registers.  The second half is written only if the first one is new, so it
has to stay where it is as long as the first does.  It does, for an instruction for wide values
writes both registers: no type that comes in gets past it for either of them, in its odexed form
and in the standard one alike (`Point.Shaped.after_raise`).  While a value is written the halves
are not together, and all that is known of the point is that the first one is there
(`Point.Begun`).

A wide parameter is entered as both of its halves.
-/

namespace Dalvik

/-- The two halves of a wide value. -/
inductive WideHalf.Pair : WideHalf → WideHalf → Prop where
  | long : Pair .longLo .longHi
  | double : Pair .doubleLo .doubleHi

theorem WideHalf.Pair.high? {lo hi : WideHalf} (h : Pair lo hi) :
    RegType.high? (.half lo) = some (.half hi) := by
  cases h <;> rfl

namespace Instr

variable {given i : Instr} {d : Reg}

/-- A standard form writes a pair of registers if the odexed form does. -/
theorem Standard.setsWide (h : given.Standard i) : i.setsWide = given.setsWide := by
  cases h with
  | @instanceVolatile dir w _ _ f _ hw | @staticVolatile dir w _ f _ hw
  | @instanceQuick dir w _ _ _ f hw =>
    obtain ⟨_, _, ty⟩ := f
    cases dir <;> cases ty <;> cases hw <;> rfl
  | _ => rfl

/-- What an instruction with a destination was before it got its last form. -/
theorem Becomes.destination? (h : given.Becomes i) (hd : i.destination? = some d) :
    given.destination? = some d ∧ given.setsWide = i.setsWide := by
  cases h with
  | same => exact ⟨hd, rfl⟩
  | standard h => exact ⟨h.destination?.symm.trans hd, h.setsWide.symm⟩
  | marker => cases hd

end Instr

namespace Analysis

/-! ## Points -/

namespace Point

variable {p : Point} {registers x r : Nat} {old new t high : RegType} {d : Reg}

/-- A point whose instruction writes the registers that the given one writes. -/
structure Shaped (registers : Nat) (p : Point) : Prop where
  becomes : p.given.Becomes p.instr
  destination : p.instr.destination? = p.given.destination?
  wide : p.instr.setsWide = p.given.setsWide
  size : p.after.size = registers

/-- A point after which the halves of a wide value are together where they are written. -/
structure Paired (registers : Nat) (p : Point) : Prop extends Shaped registers p where
  pair : ∀ {d lo hi}, p.given.destination? = some d → p.given.setsWide = true →
    WideHalf.Pair lo hi → p.after[d.index]? = some (.half lo) →
    p.after[d.index + 1]? = some (.half hi)

/-- A point after which a type is written to its destination, but no second half yet. -/
structure Begun (registers : Nat) (d : Reg) (t : RegType) (p : Point) : Prop
    extends Shaped registers p where
  given : p.given.destination? = some d
  written : p.after[d.index]? = some t

theorem Shaped.raise (h : p.Shaped registers) : (p.raise x new).Shaped registers where
  becomes := by
    rw [raise_given, raise_instr]
    exact h.becomes
  destination := by
    rw [raise_given, raise_instr]
    exact h.destination
  wide := by
    rw [raise_given, raise_instr]
    exact h.wide
  size := by
    rw [raise_after]
    split <;> simp [h.size]

theorem Shaped.setAfter (h : p.Shaped registers) :
    Shaped registers { p with after := p.after.setIfInBounds r t } where
  becomes := h.becomes
  destination := h.destination
  wide := h.wide
  size := by simpa using h.size

/-- Types that come in do not get past an instruction that writes the register. -/
theorem Shaped.after_raise (h : p.Shaped registers) (hd : p.given.destination? = some d)
    (hr : r = d.index ∨ p.given.setsWide = true ∧ r = d.index + 1) :
    (p.raise x new).after[r]? = p.after[r]? := by
  by_cases hx : r = x
  · subst hx
    have hdst : (p.entered r new).instr.destination? = some d := h.destination.trans hd
    have hsets : (p.entered r new).sets r = true := by
      rw [sets_of_destination hdst]
      rcases hr with rfl | ⟨hwide, rfl⟩
      · simp
      · have hwide : (p.entered (d.index + 1) new).instr.setsWide = true := h.wide.trans hwide
        simp [hwide]
    rw [raise_after, if_pos hsets]
  · exact raise_after_ne hx

theorem Paired.raise (h : p.Paired registers) : (p.raise x new).Paired registers where
  toShaped := h.toShaped.raise
  pair := by
    intro d lo hi hd hwide hpair hlo
    rw [raise_given] at hd hwide
    rw [h.after_raise hd (.inl rfl)] at hlo
    rw [h.after_raise hd (.inr ⟨hwide, rfl⟩)]
    exact h.pair hd hwide hpair hlo

theorem Begun.raise (h : p.Begun registers d t) : (p.raise x new).Begun registers d t where
  toShaped := h.toShaped.raise
  given := by
    rw [raise_given]
    exact h.given
  written := by
    rw [h.after_raise h.given (.inl rfl)]
    exact h.written

theorem Shaped.begun (h : p.Shaped registers) (hd : p.given.destination? = some d)
    (hlt : d.index < registers) :
    Begun registers d t { p with after := p.after.setIfInBounds d.index t } where
  toShaped := h.setAfter
  given := hd
  written := Array.getElem?_setIfInBounds_self_of_lt (h.size ▸ hlt)

/-- A value that is not wide is written at once. -/
theorem Begun.paired_of_narrow (h : p.Begun registers d t) (ht : t.high? = none) :
    p.Paired registers where
  toShaped := h.toShaped
  pair := by
    intro d' lo hi hd' _ hpair hlo
    cases h.given.symm.trans hd'
    cases h.written.symm.trans hlo
    cases ht.symm.trans hpair.high?

/-- With the second half, the value is complete. -/
theorem Begun.paired (h : p.Begun registers d t) (ht : t.high? = some high)
    (hlt : d.index + 1 < registers) :
    Paired registers { p with after := p.after.setIfInBounds (d.index + 1) high } where
  toShaped := h.setAfter
  pair := by
    intro d' lo hi hd' _ hpair hlo
    cases h.given.symm.trans hd'
    rw [Array.getElem?_setIfInBounds_ne (Nat.succ_ne_self d.index)] at hlo
    cases h.written.symm.trans hlo
    cases ht.symm.trans hpair.high?
    exact Array.getElem?_setIfInBounds_self_of_lt (h.size ▸ hlt)

/-- Without destination there is nothing to keep together. -/
theorem Shaped.paired (h : p.Shaped registers) (hnone : p.given.destination? = none) :
    p.Paired registers where
  toShaped := h
  pair := by
    intro d lo hi hd
    cases hnone.symm.trans hd

end Point

/-! ## Passes -/

namespace Subject

variable {s : Subject} {i : Nat} {p : Point} {u : Unit} {st st' : State}

theorem upward_paired (s : Subject) :
    s.Upward fun _ => Point.Paired s.body.registers :=
  ⟨fun h _ _ _ => h.raise⟩

/-- The halves are together at all points but the one where a value is written. -/
def BegunAt (s : Subject) (i : Nat) (d : Reg) (t : RegType) (k : Nat) (p : Point) : Prop :=
  (k ≠ i → p.Paired s.body.registers) ∧ (k = i → p.Begun s.body.registers d t)

/-- Writing the first register leaves it open what is in the second. -/
theorem begun_of_assignOne {d : Reg} {t : RegType} {new : Bool}
    (hst : st.Points fun _ => Point.Paired s.body.registers) (hp : st.points[i]? = some p)
    (hd : p.given.destination? = some d) (hlt : d.index < s.body.registers)
    (h : s.assignOne (.instr i) d.index t st = .ok new st') : st'.Points (s.BegunAt i d t) := by
  have hupward : s.Upward (s.BegunAt i d t) :=
    ⟨fun h _ _ _ => ⟨fun hk => (h.1 hk).raise, fun hk => (h.2 hk).raise⟩⟩
  refine hupward.assignOne_at ?_ ?_ h
  · intro k q hk hq
    cases hk
    cases hp.symm.trans hq
    exact ⟨fun hne => absurd rfl hne, fun _ => (hst i p hp).toShaped.begun hd hlt⟩
  · intro k q hk hq
    exact ⟨fun _ => hst k q hq, fun hki => absurd (congrArg NodeId.instr hki.symm) hk⟩

/-- An instruction that writes its destination keeps the halves together. -/
theorem paired_of_write {d : Reg} {t : RegType}
    (hst : st.Points fun _ => Point.Paired s.body.registers) (hp : st.points[i]? = some p)
    (hd : p.instr.destination? = some d) (h : s.assign (.instr i) d.index t st = .ok u st') :
    st'.Points fun _ => Point.Paired s.body.registers := by
  obtain ⟨hlt, new, st₁, hone, hrest⟩ := assign_cases h
  have hgiven : p.given.destination? = some d := (hst i p hp).destination.symm.trans hd
  have hst₁ := begun_of_assignOne hst hp hgiven hlt hone
  obtain ⟨hor, rfl⟩ | ⟨high, new', _, hhigh, hlt', hone'⟩ := hrest
  · rcases hor with rfl | hnone
    · -- The first half was there, and so was the second.
      obtain ⟨_, _, rfl⟩ | ⟨hfalse, _⟩ := assignOne_ok hone
      · exact hst
      · cases hfalse
    · intro k q hq
      by_cases hk : k = i
      · exact ((hst₁ k q hq).2 hk).paired_of_narrow hnone
      · exact (hst₁ k q hq).1 hk
  · refine s.upward_paired.assignOne_at ?_ ?_ hone'
    · intro k q hk hq
      cases hk
      exact ((hst₁ i q hq).2 rfl).paired hhigh hlt'
    · intro k q hk hq
      exact (hst₁ k q hq).1 fun hki => hk (congrArg NodeId.instr hki.symm)

/-- A constructor call has no destination. -/
theorem paired_of_initialise {object : Reg} {n : TypeNode} {rs : List Nat}
    (hst : st.Points fun _ => Point.Paired s.body.registers) (hp : st.points[i]? = some p)
    (hnone : p.given.destination? = none) (h : s.initialiseFrom i object n rs st = .ok u st') :
    st'.Points fun _ => Point.Paired s.body.registers := by
  have hupward : s.Upward fun k q => q.Paired s.body.registers ∧
      (k = i → q.given.destination? = none) := by
    refine s.upward_paired.and (Upward.only ⟨fun h _ _ _ => ?_⟩ i)
    rwa [Point.raise_given]
  have done := initialiseFrom_keeps (I := fun _ st => st.Points fun k q =>
    q.Paired s.body.registers ∧ (k = i → q.given.destination? = none)) ?_
    (fun hst _ _ => hst) ?_ h
  · obtain ⟨_, hst', _⟩ := done
    exact fun k q hq => (hst' k q hq).1
  · intro r rest q u st st' hst _ _ hassign
    refine hupward.assign ?_ hst hassign
    rintro k q x t' hk _ _ ⟨hpaired, hq⟩
    cases hk
    exact ⟨hpaired.setAfter.paired (hq rfl), hq⟩
  · intro k q hq
    refine ⟨hst k q hq, ?_⟩
    rintro rfl
    cases hp.symm.trans hq
    exact hnone

theorem steady_paired (s : Subject) : s.Steady fun _ => Point.Paired s.body.registers where
  toUpward := s.upward_paired
  becomes h := h.becomes
  given h := ⟨⟨.same, rfl, rfl, h.size⟩, h.pair⟩
  standard h hj := ⟨⟨.standard hj, hj.destination?, hj.setsWide, h.size⟩, h.pair⟩
  transfer := by
    intro i p done st st' hst hp h
    obtain ⟨e, m, heffect, happly⟩ := transfer_ok h
    have hst₁ : ({ st with memo := m } : State).Points
        fun _ => Point.Paired s.body.registers := hst
    obtain ⟨_, _, rfl⟩ | ⟨_, _, rfl⟩ | ⟨t, d, _, hd, _, hassign⟩ | ⟨object, n, rfl, _, hinit⟩ :=
      apply_ok happly
    · exact hst
    · exact hst
    · exact paired_of_write hst₁ hp hd hassign
    · cases said_of_effect heffect with
      | initialise hinstr hname =>
        have hcall : p.instr.isConstructorCall = true := by
          rw [hinstr]
          exact beq_iff_eq.2 hname
        have hnone := ((hst i p hp).becomes.mayInitialise? hcall).1
        exact paired_of_initialise hst₁ hp hnone hinit

end Subject

/-! ## Analysed methods -/

section Analysed

variable {cp : ClassPath} {options : Options} {cls : ClassDef} {method : MethodDef} {m m' : Memo}
  {a : Analysed}

theorem pair_of_analysed {i : Nat} {p : Point} {d : Reg} {lo hi : WideHalf}
    (h : analyseMethod cp options cls method m = .ok a m') (hp : a.points[i]? = some p)
    (hd : p.instr.destination? = some d) (hwide : p.instr.setsWide = true)
    (hpair : WideHalf.Pair lo hi) (hlo : p.after[d.index]? = some (.half lo)) :
    p.after[d.index + 1]? = some (.half hi) := by
  have hfirst : ∀ {i : Nat} {l : Line}, a.subject.body.lines[i]? = some l →
      Point.Paired a.subject.body.registers (.ofLine a.subject.body.registers l) := by
    intro i l _
    refine ⟨⟨.same, rfl, rfl, Array.size_replicate⟩, fun _ _ _ hlo => ?_⟩
    cases Array.eq_of_mem_replicate (Array.mem_of_getElem? hlo)
  obtain ⟨hbecomes, j, hpaired⟩ := (Subject.steady_paired a.subject).analysed h hfirst hp
  obtain ⟨hgiven, hgivenWide⟩ := hbecomes.destination? hd
  exact hpaired.pair hgiven (hgivenWide.trans hwide) hpair hlo

/-- A wide parameter has two registers. -/
theorem registerTypes_of_isWide {ty : Ty} (h : ty.isWide = true) :
    ∃ lo hi, WideHalf.Pair lo hi ∧ RegType.ofTy ty = .ok (.half lo) ∧
      ty.registerTypes = [.half lo, .half hi] := by
  cases ty with
  | long => exact ⟨_, _, .long, rfl, rfl⟩
  | double => exact ⟨_, _, .double, rfl, rfl⟩
  | _ => cases h

/-- The halves of a wide value are together after the instruction that writes it, and those of a
wide parameter when the method is entered. -/
theorem wide_halves_together (h : analyseMethod cp options cls method m = .ok a m') :
    (∀ {i : Nat} {p : Point} {d : Reg} {lo hi : WideHalf}, a.points[i]? = some p →
        p.instr.destination? = some d → p.instr.setsWide = true → WideHalf.Pair lo hi →
        a.typeAfter? (.instr i) d.index = some (.half lo) →
        a.typeAfter? (.instr i) (d.index + 1) = some (.half hi)) ∧
      ∀ {k : Nat} {ty : Ty}, method.params[k]? = some ty → ty.isWide = true →
        ∃ lo hi, WideHalf.Pair lo hi ∧ RegType.ofTy ty = .ok (.half lo) ∧
          a.typeAfter? .start (firstRegister a.subject.body method.params k) = some (.half lo) ∧
          a.typeAfter? .start (firstRegister a.subject.body method.params k + 1) =
            some (.half hi) := by
  constructor
  · intro i p d lo hi hp hd hwide hpair hlo
    simp only [Analysed.typeAfter?, hp, Option.bind_some] at hlo ⊢
    exact pair_of_analysed h hp hd hwide hpair hlo
  · intro k ty hk hwide
    obtain ⟨before, rest, hentry, hlength⟩ := entry_of_param h hk
    obtain ⟨lo, hi, hpair, hty, htypes⟩ := registerTypes_of_isWide hwide
    refine ⟨lo, hi, hpair, hty, ?_, ?_⟩
    · rw [Analysed.typeAfter?, ← Array.getElem?_toList, hentry, htypes, ← hlength]
      simp
    · rw [Analysed.typeAfter?, ← Array.getElem?_toList, hentry, htypes, ← hlength]
      simp

/-- A method that copies one of its two wide parameters over the first. -/
def eitherWide : MethodDef :=
  ⟨"m", [.long, .double, .int], .void, .ofList [.static],
    some (.assemble 7 [.move .wide .near ⟨0⟩ ⟨2⟩, .branchZero .eq ⟨6⟩ 3,
      .move .wide .near ⟨0⟩ ⟨4⟩, .move .wide .near ⟨2⟩ ⟨0⟩, .returnVoid] [])⟩

/-- The join of both is together again, and so is the second parameter. -/
theorem eitherWide_together :
    ∃ a m', analyseMethod (.ofClasses [emptyClass] 15) {} emptyClass eitherWide .empty = .ok a m' ∧
      a.typeAfter? (.instr 3) 2 = some (.half .longLo) ∧
      a.typeAfter? (.instr 3) 3 = some (.half .longHi) ∧
      a.typeAfter? .start 4 = some (.half .doubleLo) ∧
      a.typeAfter? .start 5 = some (.half .doubleHi) := by
  have hrun : ∃ a m', analyseMethod (.ofClasses [emptyClass] 15) {} emptyClass eitherWide .empty =
        .ok a m' ∧
      (a.points[3]?).map (fun p => (p.instr.destination?, p.instr.setsWide)) =
        some (some ⟨2⟩, true) ∧
      a.typeAfter? (.instr 3) 2 = some (.half .longLo) ∧ a.subject.body.registers = 7 := by
    decide +kernel
  obtain ⟨a, m', h, hmove, hlo, hregisters⟩ := hrun
  obtain ⟨p, hp, hform⟩ := Option.map_eq_some_iff.1 hmove
  obtain ⟨hd, hwide⟩ := Prod.mk.inj hform
  obtain ⟨htogether, hparams⟩ := wide_halves_together h
  have hdouble : eitherWide.params[1]? = some .double := rfl
  obtain ⟨lo, hi, hpair, hty, hstart, hnext⟩ := hparams hdouble rfl
  have hfirst : firstRegister a.subject.body eitherWide.params 1 = 4 := by
    rw [firstRegister, hregisters]
    rfl
  rw [hfirst] at hstart hnext
  cases hty
  cases hpair
  exact ⟨a, m', h, hlo, htogether hp hd hwide .long hlo, hstart, hnext⟩

end Analysed

end Analysis

end Dalvik
