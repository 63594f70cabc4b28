import Dalvik.Proofs.Copies
import Dalvik.Proofs.Rewriting

/-!
# Constructor calls in straight code

When a constructor call is analysed, the new object in its receiver becomes an object of its class,
in all registers that hold it.  A copy that went past the call before is then both new and
initialised behind it, which do not go together.

So of the registers that hold the object before the call, those are initialised behind it that
were not written last before the receiver was.  This needs that the analysis gets to the call, and
that the call was one from the start (`constructor_call_initialises_iff`).
-/

namespace Dalvik

/-! ## Forms of a call -/

namespace Instr

variable {i j : Instr}

theorem Standard.destination? (h : i.Standard j) : j.destination? = i.destination? := by
  cases h with
  | @instanceVolatile dir | @staticVolatile dir | @instanceQuick dir => cases dir <;> rfl
  | _ => rfl

theorem writes_destination {dst : Reg} (h : i.destination? = some dst) :
    i.writes dst.index = true := by
  simp [writes, h]

theorem finalForm_of_marked {r : Reg} (hform : i.plainForm? = .ok none)
    (hr : i.markedRegister? = some r) : i.finalForm = .ok (.unresolvedOdex r i.size) := by
  unfold finalForm
  rw [hform, hr]
  rfl

/-- What an instruction is when its effect is carried out: itself or its standard form. -/
inductive Resolves (i : Instr) : Instr → Prop where
  | same (h : i.hasStandardForm = false) : Resolves i i
  | standard {j : Instr} (h : i.Standard j) : Resolves i j

namespace Resolves

theorem destination? (h : i.Resolves j) : j.destination? = i.destination? := by
  cases h with
  | same => rfl
  | standard h => exact h.destination?

/-- What goes on is resolved for good. -/
theorem final (h : i.Resolves j) (hi : i.canContinue = true) :
    j.odexOnly = false ∧ j.canContinue = true := by
  cases h with
  | same h =>
    refine ⟨?_, hi⟩
    cases i with
    | throwVerificationError => cases hi
    | _ => exact h
  | standard h => exact ⟨h.not_odexOnly, h.canContinue.trans hi⟩

end Resolves

end Instr

namespace Analysis

namespace Subject

variable {s : Subject} {p : Point} {i j k o x : Nat} {t u : RegType} {done : Bool}
  {st st' : State}

/-- What becomes a constructor call was one with the same receiver, or an inlined call. -/
theorem mayCall_of_becomes {given : Instr} {args : Args} {ctor : MethodRef} {object : Reg}
    (h : given.Becomes (.invoke .direct args ctor)) (hname : ctor.name = Instr.constructorName)
    (hobject : args.first? = some object) : MayCall given object.index := by
  generalize hj : Instr.invoke .direct args ctor = j at h
  cases h with
  | same =>
    cases hj
    exact .inl ⟨beq_iff_eq.2 hname, hobject⟩
  | standard h =>
    cases h with
    | directEmpty =>
      cases hj
      exact .inl ⟨beq_iff_eq.2 hname, hobject⟩
    | objectInit h =>
      cases hj
      refine .inl ⟨beq_iff_eq.2 hname, ?_⟩
      rcases h with ⟨hcount, rfl⟩ | rfl
      · rw [← hobject]
        simp [Instr.receiver?, RegRange.first?, hcount, Args.first?]
      · exact hobject
    | @quick dispatch => cases dispatch <;> cases hj
    | inlined => exact .inr ⟨rfl, rfl⟩
    | _ => cases hj
  | marker => cases hj

/-- What has to wait for its standard form ends as a marker. -/
theorem finalForm_of_waiting {m m' : Memo} (hform : p.instr.hasStandardForm = true)
    (h : s.standardForm? p m = .ok none m') :
    ∃ r, p.instr.finalForm = .ok (.unresolvedOdex r p.instr.size) := by
  unfold standardForm? at h
  cases hi : p.instr with
  | instanceQuick _ _ _ object _ => exact ⟨object, rfl⟩
  | invokeQuick dispatch args index =>
    simp only [hi, quickCall?] at h
    cases hfirst : args.first? with
    | none =>
      simp only [hfirst] at h
      cases h
    | some object =>
      cases args with
      | list regs => exact ⟨object, Instr.finalForm_of_marked rfl hfirst⟩
      | range r => exact ⟨r.start, rfl⟩
  | executeInline args index =>
    simp only [hi] at h
    obtain ⟨_, _, hnone⟩ := except_map_ok.1 (Rule.lift_ok.1 h).1
    cases hnone
  | instanceVolatile | staticVolatile =>
    simp only [hi] at h
    obtain ⟨_, _, hnone⟩ := except_map_ok.1 (Rule.lift_ok.1 h).1
    cases hnone
  | returnVoidBarrier | invokeDirectEmpty =>
    simp only [hi] at h
    cases (Rule.lift_ok.1 h).1
  | invokeObjectInit range method =>
    simp only [hi, Instr.plainForm?] at h
    split at h <;> cases (Rule.lift_ok.1 h).1
  | _ =>
    rw [hi] at hform
    cases hform

/-! ## Passes -/

/-- A pass over a point whose instruction is as it was given.  It is carried out, or the point waits
and will end as a marker. -/
inductive Passed (s : Subject) (k : Nat) (st : State) : Bool → State → Prop where
  | absent (hp : st.points[k]? = none) : Passed s k st true st
  | stuck {p : Point} {r : Reg} {m : Memo} (hp : st.points[k]? = some p)
    (hodex : p.instr.odexOnly = true)
    (hfinal : p.instr.finalForm = .ok (.unresolvedOdex r p.instr.size)) :
    Passed s k st false { st with memo := m }
  | moved {p : Point} {instr : Instr} {m : Memo} {done : Bool} {st' : State}
    (hp : st.points[k]? = some p) (hinstr : p.instr.Resolves instr)
    (h : s.transfer k { p with instr := instr }
      (({ st with memo := m } : State).setInstr k instr) = .ok done st') : Passed s k st done st'

theorem setInstr_same {instr : Instr} (h : ∀ p, st.points[k]? = some p → p.instr = instr) :
    st.setInstr k instr = st := by
  have hpoints : (st.setInstr k instr).points = st.points := by
    refine Array.ext_getElem? fun j => ?_
    rw [State.setInstr_points]
    split
    · next heq =>
      subst heq
      cases hp : st.points[k]? with
      | none => rfl
      | some p =>
        cases h p hp
        rfl
    · rfl
  show { st with points := (st.setInstr k instr).points } = st
  rw [hpoints]

theorem passed_of_pass (hgiven : ∀ p, st.points[k]? = some p → p.instr = p.given)
    (hpass : s.pass k st = .ok done st') : s.Passed k st done st' := by
  have hrestore : restore st k = st := by
    unfold restore
    split
    · next p hp =>
      split
      · refine setInstr_same fun q hq => ?_
        cases hp.symm.trans hq
        exact hgiven p hp
      · rfl
    · rfl
  have hanalyse := pass_ok hpass
  rw [hrestore] at hanalyse
  obtain ⟨hp, rfl, rfl⟩ | ⟨p, hp, ⟨hform, m, hnone, rfl, rfl⟩ | ⟨_, instr, m, hform, h⟩ |
    ⟨hform, h⟩⟩ := analyse_ok hanalyse
  · exact .absent hp
  · obtain ⟨r, hfinal⟩ := finalForm_of_waiting hform hnone
    exact .stuck hp (Instr.odexOnly_of_hasStandardForm hform) hfinal
  · exact .moved hp (.standard (standard_of_standardForm? hform)) h
  · have hsame : st.setInstr k p.instr = st := setInstr_same fun q hq => by
      cases hp.symm.trans hq
      rfl
    exact .moved (m := st.memo) hp (.same hform) (hsame.symm ▸ h)

theorem instrs_of_transfer (h : s.transfer k p st = .ok done st') : st'.instrs = st.instrs := by
  obtain ⟨e, m, _, happly⟩ := transfer_ok h
  obtain ⟨_, _, rfl⟩ | ⟨_, _, rfl⟩ | ⟨t, dst, _, _, _, hassign⟩ | ⟨object, n, _, _, hinit⟩ :=
    apply_ok happly
  · rfl
  · rfl
  · exact (frame_of_assign hassign).2
  · have hstart : ({ st with memo := m } : State).instrs = st.instrs := rfl
    obtain ⟨_, hinstrs, _⟩ := initialiseFrom_keeps (I := fun _ st' => st'.instrs = st.instrs)
      (fun hI _ _ hassign => (frame_of_assign hassign).2.trans hI) (fun hI _ _ => hI) hstart hinit
    exact hinstrs

/-- A point that has to wait is stuck, if the one before it is resolved. -/
theorem Passed.stuck_of_waiting (h : s.Passed k st false st')
    (hprevious : ∀ j q, k = j + 1 → st.points[j]? = some q → q.instr.odexOnly = false) :
    ∃ p r m, st.points[k]? = some p ∧ p.instr.odexOnly = true ∧
      p.instr.finalForm = .ok (.unresolvedOdex r p.instr.size) ∧ st' = { st with memo := m } := by
  cases h with
  | stuck hp hodex hfinal => exact ⟨_, _, _, hp, hodex, hfinal, rfl⟩
  | @moved p instr m _ _ hp _ h =>
    obtain ⟨e, m', heffect, happly⟩ := transfer_ok h
    obtain ⟨rfl, _, _⟩ | ⟨_, hdone, _⟩ | ⟨_, _, _, _, hdone, _⟩ | ⟨_, _, _, hdone, _⟩ :=
      apply_ok happly
    · cases said_of_effect heffect with
      | waiting hprev hsets hresult =>
        cases k with
        | zero => cases hprev
        | succ j =>
          simp only [previous?, State.setInstr_points, if_neg (Nat.succ_ne_self j),
            Option.map_eq_some_iff] at hprev
          obtain ⟨q, hq, rfl⟩ := hprev
          exact absurd hresult (resultType?_ne_none hsets (hprevious j q rfl hq))
    all_goals cases hdone

/-- A point that was analysed is resolved for good if it goes on. -/
theorem Passed.resolved (h : s.Passed k st true st') {q : Point} (hq : st'.points[k]? = some q)
    (hcont : ∀ p, st.points[k]? = some p → p.instr.canContinue = true) :
    q.instr.odexOnly = false ∧ q.instr.canContinue = true := by
  cases h with
  | absent hp => cases hp.symm.trans hq
  | @moved p instr m _ _ hp hinstr h =>
    have hat := congrArg (·[k]?) (instrs_of_transfer h)
    simp only [State.instrs, List.getElem?_map, Array.getElem?_toList, hq, State.setInstr_points,
      if_true, hp, Option.map_some, Option.some.injEq] at hat
    rw [hat]
    exact hinstr.final (hcont p hp)

/-! ## Before the call -/

section Before

variable {l : Line}

theorem points_initial (b : Body) (m : Memo) (k : Nat) :
    (State.initial b m).points[k]? = (b.lines[k]?).map (Point.ofLine b.registers) := by
  simp [State.initial]

/-- At first nothing is known. -/
theorem typeBefore?_initial {b : Body} {m : Memo}
    (h : (State.initial b m).typeBefore? k x = some t) : t = .unknown := by
  unfold State.typeBefore? at h
  obtain ⟨p, hp, ht⟩ := Option.bind_eq_some_iff.1 h
  rw [points_initial] at hp
  obtain ⟨l, _, rfl⟩ := Option.map_eq_some_iff.1 hp
  exact Array.eq_of_mem_replicate (Array.mem_of_getElem? ht)

theorem awaiting_initial (hat : s.CallAt i o l) (m : Memo) :
    s.Awaiting i o 0 (.initial s.body m) where
  frame := rfl
  given j _ := by
    simp only [State.instrs, Body.instrs, List.getElem?_map, Array.getElem?_toList, points_initial,
      Option.map_map]
    rfl
  fresh x hx := by
    obtain ⟨l', hnext⟩ : ∃ l', s.body.lines[i + 1]? = some l' :=
      ⟨_, List.getElem?_eq_getElem hat.lt⟩
    simp only [State.typeBefore?, points_initial, hat.line, Option.map_some,
      Option.bind_some] at hx
    constructor
    · simp only [State.typeAfter?, points_initial, hat.line, Option.map_some, Option.bind_some]
      exact hx
    · simp only [State.typeBefore?, points_initial, hnext, Option.map_some, Option.bind_some]
      exact hx
  alone x u c hu hx _ := by
    cases typeBefore?_initial hx
    cases hu
  shared x u c hu hx _ := by
    cases typeBefore?_initial hx
    cases hu
  blocked _ _ _ _ _ _ ht := typeBefore?_initial ht

/-- The type of a value is never that of a new object. -/
theorem newClass?_of_ofTy {ty : Ty} (h : RegType.ofTy ty = .ok t) : t.newClass? = none := by
  cases ty with
  | cls | array =>
    obtain ⟨_, _, rfl⟩ := except_map_ok.1 h
    rfl
  | void => cases h
  | _ =>
    cases h
    rfl

/-- The receiver of the method is the first object that is there. -/
theorem awaiting_of_enter {isStatic : Bool} {locals : Nat} {v : Unit} (hs : s.Linear)
    (hat : s.CallAt i o l) {m : Memo}
    (h : s.enter isStatic locals (.initial s.body m) = .ok v st') : s.Awaiting i o 0 st' := by
  have other : ∀ {r t v st st'}, s.Awaiting i o 0 st → t.newClass? = none →
      s.assign .start r t st = .ok v st' → s.Awaiting i o 0 st' := by
    intro r t v st st' hI hnew hassign
    refine hI.assign (n := .start) hs (Nat.zero_le i) (Nat.le_refl 0) hat (fun c hc => ?_) hassign
    cases hnew.symm.trans hc
  refine enter_keeps_from (fun hI hty hassign => other hI (newClass?_of_ofTy hty) hassign)
    (fun _ hassign => ?_) (fun hI hassign => other hI rfl hassign) h (awaiting_initial hat m)
  refine (awaiting_initial hat m).assign (n := .start) hs (Nat.zero_le i) (Nat.le_refl 0) hat
    (fun c hc => ⟨fun _ ho => ?_, fun _ y _ hy => ?_⟩) hassign
  · rw [typeBefore?_initial ho] at hc
    cases hc
  · rw [typeBefore?_initial hy] at hc
    cases hc

/-- A type that is written where no type came through yet comes to the call in order. -/
theorem Awaiting.inOrder {c : TypeNode} (h : s.Awaiting i o k st) (hk : k < i)
    (hwrites : s.body.Writes k x) (hnew : t.newClass? = some c) : s.InOrder i o x t st where
  copy _ ho := by
    rintro ⟨j, hj, hwrites', hnever⟩
    have hkj : k ≤ j := Nat.le_of_not_lt fun hjk => hnever k hk (Nat.le_of_lt hjk) hwrites
    cases h.blocked o j hkj hj hwrites' t ho
    cases hnew
  receiver hx y _ hy := by
    subst hx
    refine ⟨k, hk, hwrites, fun j hj hkj hwrites' => ?_⟩
    cases h.blocked y j hkj hj hwrites' t hy
    cases hnew

theorem Awaiting.memo (h : s.Awaiting i o k st) (m : Memo) :
    s.Awaiting i o k { st with memo := m } :=
  h.of_points rfl rfl rfl rfl

/-- The point whose turn it is gets another instruction. -/
theorem Awaiting.setInstr (h : s.Awaiting i o k st) (instr : Instr) :
    s.Awaiting i o (k + 1) (st.setInstr k instr) := by
  refine h.congr (Nat.le_succ k) State.setInstr_frame (fun j hj => ?_)
    (fun y => State.typeBefore?_setInstr) fun y t hp => ?_
  · exact (Beyond.setInstr k st instr).instrs j hj
  · exact ⟨State.typeAfter?_setInstr.trans hp.after, State.typeBefore?_setInstr.trans hp.next⟩

/-- Only what writes a new object says something of the copies. -/
theorem Awaiting.transfer (hs : s.Linear) (hat : s.CallAt i o l)
    (h : s.Awaiting i o (k + 1) st) (hk : k < i)
    (horder : ∀ dst t c, p.instr.destination? = some dst → t.newClass? = some c →
      s.InOrder i o dst.index t st)
    (htransfer : s.transfer k p st = .ok done st') : s.Awaiting i o (k + 1) st' := by
  obtain ⟨e, m, _, happly⟩ := transfer_ok htransfer
  obtain ⟨_, _, rfl⟩ | ⟨_, _, rfl⟩ | ⟨t, dst, _, hdst, _, hassign⟩ | ⟨object, n, _, _, hinit⟩ :=
    apply_ok happly
  · exact h.memo m
  · exact h.memo m
  · exact (h.memo m).assign (n := .instr k) hs hk (Nat.le_refl _) hat
      (fun c hc => (horder dst t c hdst hc).congr fun _ => rfl) hassign
  · obtain ⟨_, hI, _⟩ := initialiseFrom_keeps (I := fun _ st' => s.Awaiting i o (k + 1) st')
      (fun hI _ _ hassign => hI.assign (n := .instr k) hs hk (Nat.le_refl _) hat
        (fun c hc => by cases hc) hassign) (fun hI _ _ => hI) (h.memo m) hinit
    exact hI

/-- No copy of the object in the receiver is initialised before the call is analysed. -/
theorem Awaiting.not_initialised {c c' : TypeNode} (h : s.Awaiting i o k st)
    (hu : u.newClass? = some c) (hx : st.typeBefore? i x = some u)
    (ho : st.typeBefore? i o = some u) : st.typeBefore? (i + 1) x ≠ some (.reference c') := by
  intro href
  rcases h.shared x u c hu hx ho with ⟨_, hpast⟩ | ⟨_, hpast⟩
  · cases hpast.next.symm.trans href
    cases hu
  · cases hpast.next.symm.trans href

/-- The point whose turn it is has the instruction that was given. -/
theorem Awaiting.line (h : s.Awaiting i o k st) (hp : st.points[k]? = some p) :
    ∃ l, s.body.lines[k]? = some l ∧ p.instr = l.instr ∧ p.given = l.instr := by
  obtain ⟨l, hl, hgiven⟩ := line_of_frame_initial h.frame hp
  exact ⟨l, hl, instr_of_given (h.given k (Nat.le_refl k)) hp hl, hgiven⟩

theorem Awaiting.passed (h : s.Awaiting i o k st) (hpass : s.pass k st = .ok done st') :
    s.Passed k st done st' := by
  refine passed_of_pass (fun p hp => ?_) hpass
  obtain ⟨l, _, hinstr, hgiven⟩ := h.line hp
  exact hinstr.trans hgiven.symm

/-- A point before the call is analysed. -/
theorem Awaiting.pass (hs : s.Linear) (hat : s.CallAt i o l) (h : s.Awaiting i o k st)
    (hk : k < i) (hpass : s.pass k st = .ok true st') : s.Awaiting i o (k + 1) (st'.settle k) := by
  suffices hnext : s.Awaiting i o (k + 1) st' from hnext.of_points rfl rfl rfl rfl
  cases h.passed hpass with
  | absent => exact h.congr (Nat.le_succ k) rfl (fun _ _ => rfl) (fun _ => rfl) fun _ _ => id
  | @moved p instr m _ _ hp hinstr htransfer =>
    refine ((h.memo m).setInstr instr).transfer hs hat hk (fun dst t c hdst hc => ?_) htransfer
    obtain ⟨l, hl, hline, _⟩ := h.line hp
    have hwrites : s.body.Writes k dst.index :=
      ⟨l, hl, Instr.writes_destination (hline ▸ hinstr.destination? ▸ hdst)⟩
    exact (h.inOrder hk hwrites hc).congr fun y => State.typeBefore?_setInstr

end Before

/-! ## The call -/

section Call

variable {l : Line} {n : TypeNode} {todo : List Nat} {st₀ : State}

/-- The copies of the object in the receiver are initialised one after another.  Those to do are as
the call found them.  The others are initialised, but not those that went past the call. -/
structure Calling (s : Subject) (i o : Nat) (u : RegType) (n : TypeNode) (st₀ : State)
    (todo : List Nat) (st : State) : Prop where
  nodup : todo.Nodup
  instrs : st.instrs = st₀.instrs
  before : ∀ y, st.typeBefore? i y = st₀.typeBefore? i y
  ahead : ∀ x ∈ todo, st₀.typeBefore? i x = some u →
    (s.Escapes i o x ∧ Past i st x u) ∨ (¬ s.Escapes i o x ∧ Past i st x .unknown)
  done : ∀ x, x ∉ todo → st₀.typeBefore? i x = some u →
    (st.typeBefore? (i + 1) x = some (.reference n) ↔ ¬ s.Escapes i o x)

/-- Behind a point, a type that is new after it is joined with what was there. -/
theorem joined_of_assignOne {v : RegType} {new : Bool} (hs : s.Linear)
    (hi : s.graph.successors (.instr i) = [i + 1]) (hpast : Past i st x v) (hne : v ≠ t)
    (h : s.assignOne (.instr i) x t st = .ok new st') :
    ∃ w m m', v.join s.classPath t m = .ok w m' ∧ st'.typeBefore? (i + 1) x = some w := by
  obtain ⟨hsame, _⟩ | ⟨hlast | hnone, _⟩ | hcarried := carried_of_assignOne hs h
  · cases hpast.after.symm.trans hsame
    exact absurd rfl hne
  · rw [hi] at hlast
    cases hlast
  · cases hpast.after.symm.trans hnone
  · obtain ⟨w, m', hjoin, hw⟩ := hcarried.joined (State.typeBefore?_setAfter.trans hpast.next)
    exact ⟨w, _, m', hjoin, hw⟩

theorem Calling.assign {v : Unit} (hs : s.Linear) (hat : s.CallAt i o l)
    (hu : u.newClass? = some n) (h : s.Calling i o u n st₀ (x :: todo) st)
    (hassign : s.assign (.instr i) x (.reference n) st = .ok v st') :
    s.Calling i o u n st₀ todo st' := by
  obtain ⟨_, new, st₁, hone, rfl | ⟨_, _, _, hhigh, _⟩⟩ := assign_ok hassign
  · obtain ⟨hx, hnodup⟩ := List.nodup_cons.1 h.nodup
    refine ⟨hnodup, (frame_of_assign hassign).2.trans h.instrs,
      fun y => ((beyond_of_assign hs hassign).before y).trans (h.before y), fun y hy hbefore => ?_,
      fun y hy hbefore => ?_⟩
    · have hyx : y ≠ x := fun heq => hx (heq ▸ hy)
      have hpast : ∀ {w}, Past i st y w → Past i st' y w := fun hp =>
        ⟨(typeAfter?_of_assignOne_ne hyx hone).trans hp.after,
          (typeBefore?_of_assignOne hyx hone).trans hp.next⟩
      exact (h.ahead y (List.mem_cons_of_mem x hy) hbefore).imp (And.imp_right hpast)
        (And.imp_right hpast)
    · by_cases hyx : y = x
      · subst hyx
        rcases h.ahead y List.mem_cons_self hbefore with ⟨he, hp⟩ | ⟨he, hp⟩
        · obtain ⟨w, _, _, hjoin, hw⟩ :=
            joined_of_assignOne hs hat.next hp (fun heq => by cases heq; cases hu) hone
          rw [hw, RegType.new_join_reference hu hjoin]
          simp [he]
        · obtain ⟨w, _, _, hjoin, hw⟩ :=
            joined_of_assignOne hs hat.next hp (fun heq => by cases heq) hone
          rw [hw, RegType.unknown_join hjoin]
          simp [he]
      · rw [typeBefore?_of_assignOne hyx hone]
        exact h.done y (fun hmem => (List.mem_cons.1 hmem).elim hyx hy) hbefore
  · cases hhigh

theorem Calling.skip (h : s.Calling i o u n st₀ (x :: todo) st)
    (hx : st₀.typeBefore? i x ≠ some u) : s.Calling i o u n st₀ todo st where
  nodup := (List.nodup_cons.1 h.nodup).2
  instrs := h.instrs
  before := h.before
  ahead y hy := h.ahead y (List.mem_cons_of_mem x hy)
  done y hy hbefore := by
    refine h.done y (fun hmem => ?_) hbefore
    rcases List.mem_cons.1 hmem with rfl | hmem
    · exact hx hbefore
    · exact hy hmem

/-- What is known after a constructor call was analysed. -/
def Called (s : Subject) (i o : Nat) (st : State) : Prop :=
  ∀ args ctor u n x, st.instrs[i]? = some (.invoke .direct args ctor) →
    ctor.name = Instr.constructorName → args.first? = some ⟨o⟩ → u.newClass? = some n →
    st.typeBefore? i o = some u → st.typeBefore? i x = some u →
    (st.typeBefore? (i + 1) x = some (.reference n) ↔ ¬ s.Escapes i o x)

/-- The rule of a constructor call on a new object. -/
theorem directCall_new {args : Args} {ctor : MethodRef} (hname : ctor.name = Instr.constructorName)
    (hobject : args.first? = some ⟨o⟩) (hu : u.newClass? = some n) (ho : p.before[o]? = some u) :
    directCall p args ctor = .ok (.initialise ⟨o⟩ n) := by
  have htype : p.typeBefore ⟨o⟩ = .ok u := Point.typeBefore_ok.2 ho
  unfold directCall
  rw [if_pos hname, hobject]
  simp only [htype]
  cases u with
  | uninitRef | uninitThis =>
    cases hu
    rfl
  | _ => cases hu

/-- A register that holds the object in the receiver is not passed over. -/
theorem Calling.not_skipped {args : Args} {ctor : MethodRef}
    (h : s.Calling i o u n st₀ todo st)
    (hinstr : st₀.instrs[i]? = some (.invoke .direct args ctor))
    (hname : ctor.name = Instr.constructorName) (hobject : args.first? = some ⟨o⟩)
    (hu : u.newClass? = some n) (ho : st₀.typeBefore? i o = some u) (hp : st.points[i]? = some p)
    (hskip : (x == o || p.sets x) = false) : st₀.typeBefore? i x ≠ some u := by
  intro hx
  rw [← h.before] at ho hx
  simp only [State.typeBefore?, hp, Option.bind_some] at ho hx
  have hcall : p.instr = .invoke .direct args ctor := by
    rw [← h.instrs] at hinstr
    simpa [State.instrs, hp] using hinstr
  have hnew : (∃ site, u = .uninitRef n site) ∨ u = .uninitThis n := by
    cases u with
    | uninitRef c site =>
      cases hu
      exact .inl ⟨site, rfl⟩
    | uninitThis c =>
      cases hu
      exact .inr rfl
    | _ => cases hu
  rw [(sets_call_iff hcall hname hobject hnew ho).2 hx] at hskip
  cases hskip

/-- When the call is analysed, what did not go past it is initialised. -/
theorem called_of_transfer (hs : s.Linear) (hat : s.CallAt i o l)
    (hregisters : ∀ x t, st.typeBefore? i x = some t → x < s.body.registers)
    (hshared : ∀ x u c, u.newClass? = some c → st.typeBefore? i x = some u →
      st.typeBefore? i o = some u →
      (s.Escapes i o x ∧ Past i st x u) ∨ (¬ s.Escapes i o x ∧ Past i st x .unknown))
    (hp : st.points[i]? = some p) (h : s.transfer i p st = .ok done st') : s.Called i o st' := by
  intro args ctor u n x hinstr hname hobject hu ho hx
  rw [(beyond_of_transfer hs h).before] at ho hx
  rw [instrs_of_transfer h] at hinstr
  have hcall : p.instr = .invoke .direct args ctor := by
    simpa [State.instrs, hp] using hinstr
  have ho' : p.before[o]? = some u := by
    simpa only [State.typeBefore?, hp, Option.bind_some] using ho
  obtain ⟨e, m, heffect, happly⟩ := transfer_ok h
  have he : e = .initialise ⟨o⟩ n := by
    unfold Subject.effect at heffect
    simp only [hcall, directCall_new hname hobject hu ho'] at heffect
    cases heffect
    rfl
  subst he
  obtain ⟨hfalse, _⟩ | ⟨hfalse, _⟩ | ⟨_, _, hfalse, _⟩ | ⟨_, _, heq, _, hinit⟩ := apply_ok happly
  · cases hfalse
  · cases hfalse
  · cases hfalse
  cases heq
  have hstart : s.Calling i o u n st (List.range s.body.registers) { st with memo := m } := by
    refine ⟨List.nodup_range, rfl, fun _ => rfl, fun y _ hy => ?_, fun y hy hbefore => ?_⟩
    · exact (hshared y u n hu hy ho).imp (And.imp_right fun hp => ⟨hp.after, hp.next⟩)
        (And.imp_right fun hp => ⟨hp.after, hp.next⟩)
    · exact absurd (List.mem_range.2 (hregisters y u hbefore)) hy
  obtain ⟨rest, hcalling, rfl | hnone⟩ := initialiseFrom_keeps (I := s.Calling i o u n st)
    (fun hI _ _ hassign => Calling.assign hs hat hu hI hassign)
    (fun hI hq hskip => hI.skip (hI.not_skipped hinstr hname hobject hu ho hq hskip)) hstart hinit
  · exact hcalling.done x List.not_mem_nil hx
  · rw [← hcalling.before] at hx
    simp only [State.typeBefore?, hnone, Option.bind_none] at hx
    cases hx

end Call

/-! ## A whole run -/

section Run

variable {l : Line}

theorem Called.beyond (h : s.Called i o st) (hk : i < k) (hbeyond : Beyond k st st') :
    s.Called i o st' := by
  have hpoint := hbeyond.points i hk
  have hnext : ∀ y, st'.typeBefore? (i + 1) y = st.typeBefore? (i + 1) y := by
    intro y
    rcases Nat.lt_or_eq_of_le hk with hlt | rfl
    · exact State.typeBefore?_of_points (hbeyond.points (i + 1) hlt)
    · exact hbeyond.before y
  intro args ctor u n x hinstr hname hobject hu ho hx
  rw [State.typeBefore?_of_points hpoint] at ho hx
  rw [hnext]
  refine h args ctor u n x ?_ hname hobject hu ho hx
  simpa [State.instrs, hpoint] using hinstr

/-- The call is analysed. -/
theorem Awaiting.called (hs : s.Linear) (hat : s.CallAt i o l) (h : s.Awaiting i o i st)
    (hpass : s.pass i st = .ok true st') : s.Called i o st' := by
  obtain ⟨p, hp, _, hbefore, _⟩ := point_of_frame_initial h.frame hat.line
  cases h.passed hpass with
  | absent hnone => cases hnone.symm.trans hp
  | @moved q instr m _ _ hq _ htransfer =>
    cases hp.symm.trans hq
    refine called_of_transfer hs hat (fun x t hx => ?_) (fun x u c hu hx ho => ?_) ?_ htransfer
    · rw [State.typeBefore?_setInstr] at hx
      simp only [State.typeBefore?, hp, Option.bind_some] at hx
      obtain ⟨hlt, _⟩ := Array.getElem?_eq_some_iff.1 hx
      exact hbefore ▸ hlt
    · rw [State.typeBefore?_setInstr] at hx ho
      have hpast : ∀ {w}, Past i st x w →
          Past i (({ st with memo := m } : State).setInstr i instr) x w := fun hw =>
        ⟨State.typeAfter?_setInstr.trans hw.after, State.typeBefore?_setInstr.trans hw.next⟩
      exact (h.shared x u c hu hx ho).imp (And.imp_right hpast) (And.imp_right hpast)
    · rw [State.setInstr_points, if_pos rfl, hp]
      rfl

/-- What holds before it is the turn of the point at an index. -/
structure Running (s : Subject) (i o k : Nat) (st : State) : Prop where
  awaiting : k ≤ i → s.Awaiting i o k st
  resolved : ∀ j p, j < k → j ≤ i → st.points[j]? = some p →
    p.instr.odexOnly = false ∧ p.instr.canContinue = true
  called : i < k → s.Called i o st

/-- A point that ends as a marker. -/
def Stuck (k : Nat) (st : State) : Prop :=
  ∃ p r, st.points[k]? = some p ∧ p.instr.odexOnly = true ∧
    p.instr.finalForm = .ok (.unresolvedOdex r p.instr.size)

namespace Running

theorem pass_done (hs : s.Linear) (hat : s.CallAt i o l) (h : s.Running i o k st)
    (hpass : s.pass k st = .ok true st') : s.Running i o (k + 1) (st'.settle k) where
  awaiting hk := (h.awaiting (Nat.le_of_succ_le hk)).pass hs hat hk hpass
  resolved j p hj hji hp := by
    have hp : st'.points[j]? = some p := hp
    rcases Nat.lt_succ_iff_lt_or_eq.1 hj with hlt | rfl
    · rw [(beyond_of_pass hs hpass).points j hlt] at hp
      exact h.resolved j p hlt hji hp
    · refine ((h.awaiting hji).passed hpass).resolved hp fun q hq => ?_
      obtain ⟨l', hl', hinstr, _⟩ := (h.awaiting hji).line hq
      exact hinstr ▸ hat.continues j l' hji hl'
  called hik := by
    suffices hcalled : s.Called i o st' from hcalled
    rcases Nat.lt_succ_iff_lt_or_eq.1 hik with hlt | rfl
    · exact (h.called hlt).beyond hlt (beyond_of_pass hs hpass)
    · exact (h.awaiting (Nat.le_refl i)).called hs hat hpass

theorem pass_waiting (hs : s.Linear) (h : s.Running i o k st)
    (hpass : s.pass k st = .ok false st') :
    s.Running i o k st' ∧ (k ≤ i → Stuck k st') := by
  by_cases hk : k ≤ i
  · obtain ⟨p, r, m, hp, hodex, hfinal, rfl⟩ :=
      ((h.awaiting hk).passed hpass).stuck_of_waiting fun j q hj hq =>
        (h.resolved j q (by omega) (by omega) hq).1
    exact ⟨⟨fun _ => (h.awaiting hk).memo m, h.resolved, fun hik => absurd hk (by omega)⟩,
      fun _ => ⟨p, r, hp, hodex, hfinal⟩⟩
  · have hik : i < k := Nat.lt_of_not_le hk
    have hbeyond := beyond_of_pass hs hpass
    refine ⟨⟨fun hki => absurd hki hk, fun j p hj hji hp => ?_, fun _ => ?_⟩, fun hki =>
      absurd hki hk⟩
    · rw [hbeyond.points j hj] at hp
      exact h.resolved j p hj hji hp
    · exact (h.called hik).beyond hik hbeyond

end Running

/-- The run gets past the call, or it is stuck at a point before it or at the call. -/
theorem run_to_call {passes? : Option Nat} {v : Unit} (hs : s.Linear) (hat : s.CallAt i o l)
    (hi : s.graph.isReachable i = true) (h : s.Awaiting i o 0 st) (hst : ∀ j, j ∉ st.settled)
    (hrun : s.run passes? st = .ok v st') :
    ∃ k, s.Running i o k st' ∧ (i < k ∨ (k ≤ i ∧ Stuck k st')) := by
  have hstart : s.Running i o 0 st :=
    ⟨fun _ => h, fun j p hj => absurd hj (Nat.not_lt_zero j), fun hi => absurd hi
      (Nat.not_lt_zero i)⟩
  obtain ⟨k, hk, hstuck⟩ := run_keeps hs (fun hI => hI.pass_done hs hat)
    (fun hI => hI.pass_waiting hs) hstart hst hrun
  refine ⟨k, hk, ?_⟩
  rcases Nat.lt_or_ge i k with hik | hki
  · exact .inl hik
  · have hreach : s.graph.isReachable k = true := by
      rcases Nat.lt_or_eq_of_le hki with hlt | rfl
      · exact (hs.continues hi k hlt).1
      · exact hi
    exact .inr ⟨hki, hstuck hreach hki⟩

end Run

/-! ## The last replacements -/

section Finish

variable {is : List Nat} {v : Unit}

theorem typeBefore?_of_finishFrom (h : s.finishFrom is st = .ok v st') :
    st'.typeBefore? k x = st.typeBefore? k x :=
  finishFrom_keeps (I := fun st' => st'.typeBefore? k x = st.typeBefore? k x)
    (fun hI _ _ _ => State.typeBefore?_setInstr.trans hI) rfl h

theorem size_of_finishFrom (h : s.finishFrom is st = .ok v st') :
    st'.points.size = st.points.size :=
  finishFrom_keeps (I := fun st' => st'.points.size = st.points.size)
    (fun hI _ _ _ => Array.size_modify.trans hI) rfl h

/-- What is resolved stays. -/
theorem points_of_finishFrom (hp : st.points[j]? = some p) (hodex : p.instr.odexOnly = false)
    (h : s.finishFrom is st = .ok v st') : st'.points[j]? = some p := by
  refine finishFrom_keeps (I := fun st => st.points[j]? = some p) ?_ hp h
  intro k q instr st hI hq hodex' _
  rw [State.setInstr_points]
  split
  · next heq =>
    subst heq
    cases hI.symm.trans hq
    cases hodex.symm.trans hodex'
  · exact hI

/-- What is not resolved is replaced. -/
theorem finalForm_of_finishFrom {instr : Instr} (hodex : p.instr.odexOnly = true)
    (hform : p.instr.finalForm = .ok instr) (hinstr : instr.odexOnly = false) :
    ∀ {is : List Nat} {st : State}, j ∈ is → (∀ k ∈ is, k < st.points.size) →
      st.points[j]? = some p → s.finishFrom is st = .ok v st' →
      st'.points[j]? = some { p with instr := instr }
  | k :: rest, st, hj, hall, hp, h => by
    obtain ⟨hnone, _⟩ | ⟨q, hq, ⟨hplain, h⟩ | ⟨_, instr', hform', h⟩⟩ := finishFrom_cons h
    · exact absurd (hall k List.mem_cons_self) (Nat.not_lt.2 (Array.getElem?_eq_none_iff.1 hnone))
    · rcases List.mem_cons.1 hj with rfl | hj
      · cases hp.symm.trans hq
        cases hplain.symm.trans hodex
      · exact finalForm_of_finishFrom hodex hform hinstr hj
          (fun k hk => hall k (List.mem_cons_of_mem _ hk)) hp h
    · by_cases hkj : k = j
      · subst hkj
        cases hp.symm.trans hq
        cases hform.symm.trans hform'
        refine points_of_finishFrom ?_ hinstr h
        rw [State.setInstr_points, if_pos rfl, hp]
        rfl
      · refine finalForm_of_finishFrom hodex hform hinstr
          ((List.mem_cons.1 hj).resolve_left (Ne.symm hkj)) (fun k' hk' => ?_) ?_ h
        · exact Array.size_modify.symm ▸ hall k' (List.mem_cons_of_mem _ hk')
        · rw [State.setInstr_points, if_neg hkj]
          exact hp

/-- The points behind were no markers, and stay as they are. -/
theorem Running.kept (h : s.Running i o k st) (hjk : j < k) (hji : j ≤ i)
    (hfinish : s.finishFrom is st = .ok v st') (hp : st'.points[j]? = some p) :
    st.points[j]? = some p ∧ p.instr.isUnresolved = false := by
  obtain ⟨hlt, _⟩ := Array.getElem?_eq_some_iff.1 hp
  obtain ⟨q, hq⟩ : ∃ q, st.points[j]? = some q :=
    ⟨_, Array.getElem?_eq_getElem (size_of_finishFrom hfinish ▸ hlt)⟩
  obtain ⟨hodex, hcont⟩ := h.resolved j q hjk hji hq
  cases hp.symm.trans (points_of_finishFrom hq hodex hfinish)
  refine ⟨hq, Bool.eq_false_iff.2 fun hmarker => ?_⟩
  rw [Instr.canContinue_of_isUnresolved hmarker] at hcont
  cases hcont

/-- A point that is stuck becomes a marker. -/
theorem Stuck.marked (h : Stuck k st) (hk : k ∈ is) (hall : ∀ j ∈ is, j < st.points.size)
    (hfinish : s.finishFrom is st = .ok v st') :
    ∃ q, st'.points[k]? = some q ∧ q.instr.isUnresolved = true := by
  obtain ⟨p, r, hp, hodex, hform⟩ := h
  exact ⟨_, finalForm_of_finishFrom hodex hform rfl hk hall hp hfinish, rfl⟩

end Finish

end Subject

/-! ## Analysed calls -/

section Analysed

variable {cp : ClassPath} {options : Options} {cls : ClassDef} {method : MethodDef} {b : Body}
  {m m' : Memo} {a : Analysed} {i : Nat} {p : Point} {args : Args} {ctor : MethodRef}
  {object : Reg} {u : RegType} {n : TypeNode}

/-- A constructor call that is reached was given as a call or an inlined call. -/
theorem callAt_of_analysed (hb : a.subject.body.Linear)
    (h : analyseMethod cp options cls method m = .ok a m')
    (hi : a.subject.graph.isReachable i = true) (hp : a.points[i]? = some p)
    (hinstr : p.instr = .invoke .direct args ctor) (hname : ctor.name = Instr.constructorName)
    (hobject : args.first? = some object) :
    ∃ l, a.subject.CallAt i object.index l ∧ p.given = l.instr := by
  obtain ⟨hbuild, _⟩ := graph_of_analysed h
  obtain ⟨handlers, hg⟩ := FlowGraph.built_of_build hbuild
  obtain ⟨_, hframe⟩ := Subject.Invariant.analysed h
    (a.subject.frame_invariant (.initial a.subject.body m)) rfl
  obtain ⟨l, hl, hgiven⟩ := Subject.line_of_frame_initial hframe hp
  have hbecomes := becomes_of_analysed h hp
  rw [hgiven, hinstr] at hbecomes
  have hcont : l.instr.canContinue = true := (hbecomes.canContinue rfl).symm
  have hnext : a.subject.graph.successors (.instr i) = [i + 1] := by
    obtain ⟨l', hl', ⟨_, hnext⟩ | ⟨hnot, _⟩⟩ :=
      hg.successors_of_linear hb (hg.isReachable_iff.1 hi)
    · exact hnext
    · cases hl.symm.trans hl'
      cases hcont.symm.trans hnot
  refine ⟨l, ⟨hl, Subject.mayCall_of_becomes hbecomes hname hobject, hnext, ?_, ?_⟩, hgiven⟩
  · exact FlowGraph.successors_lt_of_build hbuild (i + 1) (hnext ▸ List.mem_singleton_self (i + 1))
  · intro j l' hj hl'
    rcases Nat.lt_or_eq_of_le hj with hlt | rfl
    · have hs := Subject.linear_of_build hb hbuild
      exact hg.canContinue_of_next hb (hs.continues hi j hlt).2 hl'
    · exact hg.canContinue_of_next hb hnext hl'

/-- An analysis ends past a call or stuck, and then replaces what is left. -/
theorem run_of_analysed {o : Nat} {l : Line} (hs : a.subject.Linear)
    (hat : a.subject.CallAt i o l) (h : analyseMethod cp options cls method m = .ok a m')
    (hi : a.subject.graph.isReachable i = true) :
    ∃ k st settled, a.subject.Running i o k st ∧ (i < k ∨ (k ≤ i ∧ Subject.Stuck k st)) ∧
      a.subject.finish st = .ok () (a.final m' settled) := by
  obtain ⟨_, isStatic, locals, limit, settled, st₁, st₂, henter, hrun, hfinish⟩ :=
    analyseMethod_ok h
  have hopen : ∀ j, j ∉ st₁.settled := fun j hj =>
    Worklist.not_mem_empty ((Subject.touched_of_enter henter).settled hj)
  obtain ⟨k, hrunning, hwhere⟩ :=
    Subject.run_to_call hs hat hi (Subject.awaiting_of_enter hs hat henter) hopen hrun
  exact ⟨k, st₂, settled, hrunning, hwhere, hfinish⟩

theorem not_escapes_iff {s : Subject} {o r : Nat} {l : Line} (hl : s.body.lines[i]? = some l) :
    ¬ s.Escapes i o r ↔ l.instr.isConstructorCall = true ∧ ¬ s.body.Older i r o := by
  unfold Subject.Escapes
  rw [not_or, and_congr_left_iff]
  intro _
  constructor
  · exact fun hnot => Bool.not_eq_false _ ▸ fun hfalse => hnot ⟨l, hl, hfalse⟩
  · rintro hcall ⟨l', hl', hfalse⟩
    cases hl.symm.trans hl'
    cases hcall.symm.trans hfalse

/-- In straight code, take a constructor call on a new object.  A register with this object before
the call has an object of its class behind it if and only if three things hold: all instructions
before the call were resolved, the call was given as one, and the register was not last written
before the receiver was. -/
theorem constructor_call_initialises_iff (hbody : method.body? = some b) (hb : b.Linear)
    (h : analyseMethod cp options cls method m = .ok a m')
    (hi : a.subject.graph.isReachable i = true) (hp : a.points[i]? = some p)
    (hinstr : p.instr = .invoke .direct args ctor) (hname : ctor.name = Instr.constructorName)
    (hobject : args.first? = some object) (hu : a.typeBefore? i object.index = some u)
    (hn : u.newClass? = some n) :
    i + 1 < a.points.size ∧ ∀ r, a.typeBefore? i r = some u →
      (a.typeBefore? (i + 1) r = some (.reference n) ↔
        (∀ (j : Nat) (q : Point), j < i → a.points[j]? = some q → q.instr.isUnresolved = false) ∧
          p.given.isConstructorCall = true ∧ ¬ b.Older i r object.index) := by
  have hbody' := body_of_analysed hbody h
  subst hbody'
  obtain ⟨l, hat, hgiven⟩ := callAt_of_analysed hb h hi hp hinstr hname hobject
  have hs := Subject.linear_of_build hb (graph_of_analysed h).1
  obtain ⟨k, st, settled, hrunning, hwhere, hfinish⟩ := run_of_analysed hs hat h hi
  have htypes : ∀ j x, a.typeBefore? j x = st.typeBefore? j x :=
    fun j x => Subject.typeBefore?_of_finishFrom hfinish
  have hsize : a.points.size = st.points.size := Subject.size_of_finishFrom hfinish
  have hlength : ∀ j < a.subject.body.lines.length, j < a.points.size := by
    intro j hj
    obtain ⟨q, hq, _⟩ := (points_of_analysed h).2 j hj
    exact (Array.getElem?_eq_some_iff.1 hq).1
  refine ⟨hlength (i + 1) hat.lt, fun r hr => ?_⟩
  rw [htypes] at hu hr ⊢
  rcases hwhere with hik | ⟨hki, hstuck⟩
  · -- The run got past the call.
    have hkept := fun j q (hj : j ≤ i) hq =>
      hrunning.kept (j := j) (p := q) (Nat.lt_of_le_of_lt hj hik) hj hfinish hq
    have hcall : st.instrs[i]? = some (.invoke .direct args ctor) := by
      simp [State.instrs, (hkept i p (Nat.le_refl i) hp).1, hinstr]
    rw [hrunning.called hik args ctor u n r hcall hname hobject hn hu hr,
      not_escapes_iff hat.line, hgiven]
    exact ⟨fun hr => ⟨fun j q hj hq => (hkept j q (Nat.le_of_lt hj) hq).2, hr⟩, And.right⟩
  · -- The run is stuck, so the call was not analysed.
    obtain ⟨q, hq, hmarker⟩ := hstuck.marked
      (List.mem_range.2 (Nat.lt_of_le_of_lt hki (Nat.lt_of_succ_lt hat.lt)))
      (fun j hj => hsize ▸ hlength j (List.mem_range.1 hj)) hfinish
    rcases Nat.lt_or_eq_of_le hki with hlt | rfl
    · refine ⟨fun href => absurd href ((hrunning.awaiting hki).not_initialised hn hr hu),
        fun hall => ?_⟩
      rw [hall.1 k q hlt hq] at hmarker
      cases hmarker
    · cases hp.symm.trans hq
      rw [hinstr] at hmarker
      cases hmarker

end Analysed

/-- A method that makes an object, copies it and calls its constructor on one of the copies. -/
def copying (registers : Nat) (copies : List Instr) (object : Reg) : MethodDef :=
  ⟨"m", [], .void, .ofList [.static],
    some (.assemble registers (.newInstance ⟨0⟩ (.cls "A") :: copies ++
      [.invoke .direct (.list [object]) ⟨.cls "A", Instr.constructorName, [], .void⟩,
        .returnVoid]) [])⟩

/-- If the constructor is called on the second of three copies, that one and the third are
initialised.  The first is not. -/
theorem later_copies_initialised :
    ∃ a m', analyseMethod (.ofClasses [emptyClass] 15) {} emptyClass
        (copying 3 [.move .object .near ⟨1⟩ ⟨0⟩, .move .object .near ⟨2⟩ ⟨1⟩] ⟨1⟩) .empty =
          .ok a m' ∧
      (∀ r < 3, a.typeBefore? 3 r = some (.uninitRef (.cls "LA;") 0)) ∧
      a.typeBefore? 4 0 ≠ some (.reference (.cls "LA;")) ∧
      a.typeBefore? 4 1 = some (.reference (.cls "LA;")) ∧
      a.typeBefore? 4 2 = some (.reference (.cls "LA;")) := by
  have hrun : ∃ a m', analyseMethod (.ofClasses [emptyClass] 15) {} emptyClass
      (copying 3 [.move .object .near ⟨1⟩ ⟨0⟩, .move .object .near ⟨2⟩ ⟨1⟩] ⟨1⟩) .empty =
        .ok a m' ∧ a.subject.graph.isReachable 3 = true ∧
      ((a.points[3]?).map fun p => (p.instr, p.given.isConstructorCall)) =
        some (.invoke .direct (.list [⟨1⟩]) ⟨.cls "A", Instr.constructorName, [], .void⟩, true) ∧
      (∀ r < 3, a.typeBefore? 3 r = some (.uninitRef (.cls "LA;") 0)) ∧
      ∀ j < 3, ∀ q ∈ a.points[j]?, q.instr.isUnresolved = false := by
    decide +kernel
  obtain ⟨a, m', h, hreach, hcall, htypes, hresolved⟩ := hrun
  obtain ⟨p, hp, hpair⟩ := Option.map_eq_some_iff.1 hcall
  obtain ⟨hinstr, hgiven⟩ := Prod.mk.inj hpair
  obtain ⟨_, hiff⟩ := constructor_call_initialises_iff rfl ⟨rfl, by decide⟩ h hreach hp hinstr rfl
    rfl (htypes 1 (by decide)) rfl
  have hresolved : ∀ (j : Nat) (q : Point), j < 3 → a.points[j]? = some q →
      q.instr.isUnresolved = false := fun j q hj hq => hresolved j hj q hq
  refine ⟨a, m', h, htypes, fun hold => ?_, ?_, ?_⟩
  · exact ((hiff 0 (htypes 0 (by decide))).1 hold).2.2 (by decide)
  · exact (hiff 1 (htypes 1 (by decide))).2 ⟨hresolved, hgiven, by decide⟩
  · exact (hiff 2 (htypes 2 (by decide))).2 ⟨hresolved, hgiven, by decide⟩

/-- If the constructor is called on the second of two copies, the first one conflicts behind the
call with what it was before. -/
theorem older_copy_conflicts :
    ∃ a m', analyseMethod (.ofClasses [emptyClass] 15) {} emptyClass
        (copying 2 [.move .object .near ⟨1⟩ ⟨0⟩] ⟨1⟩) .empty = .ok a m' ∧
      a.subject.graph.isReachable 2 = true ∧
      (a.points[2]?).map Point.instr =
        some (.invoke .direct (.list [⟨1⟩]) ⟨.cls "A", Instr.constructorName, [], .void⟩) ∧
      a.typeBefore? 2 1 = some (.uninitRef (.cls "LA;") 0) ∧
      a.typeBefore? 2 0 = some (.uninitRef (.cls "LA;") 0) ∧
      a.typeBefore? 3 0 = some .conflicted := by
  decide +kernel

end Analysis

end Dalvik
