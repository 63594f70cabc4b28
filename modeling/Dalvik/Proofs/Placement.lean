import Dalvik.Proofs.Steps

/-!
# Instructions keep their places

Jumps, tables and try ranges name code by address, so an analysis may only put an instruction in
the place of one of the same size.  Every replacement is of this kind: the standard forms of
odexed instructions, the markers of those that were not resolved, and the given instruction that
is put back before a point is analysed again.

Hence the body that comes out has the size of the body that went in at every address
(`analysed_body_keeps_places`).
-/

namespace Dalvik

/-! ## Bodies that are laid out -/

/-- Where an instruction stands, and how many units it takes. -/
def Line.place (l : Line) : Addr × Nat := (l.addr, l.instr.size)

namespace Body

variable {b b' : Body} {a : Addr} {is js : List Instr} {ls ls' : List Line}

/-- Each instruction starts where the one before it ends. -/
def LaidOut (b : Body) : Prop := b.lines = layOut .entry b.instrs

/-- The instructions of lines that were laid out. -/
theorem map_instr_layOut (a : Addr) (is : List Instr) : (layOut a is).map Line.instr = is := by
  induction is generalizing a with
  | nil => rfl
  | cons i rest ih => exact congrArg (i :: ·) (ih _)

/-- Assembled bodies are laid out. -/
theorem laidOut_assemble (registers : Nat) (is : List Instr) (tries : List TryRange) :
    (assemble registers is tries).LaidOut :=
  congrArg (layOut .entry) (map_instr_layOut .entry is).symm

/-- An instruction in the place of one of the same size moves no other. -/
theorem layOut_set {l : Line} {instr : Instr} {i : Nat} (hl : (layOut a is)[i]? = some l)
    (hsize : l.instr.size = instr.size) :
    layOut a (is.set i instr) = (layOut a is).set i ⟨l.addr, instr⟩ := by
  induction is generalizing a i with
  | nil => rfl
  | cons j rest ih =>
    cases i with
    | zero =>
      cases hl
      simp only [layOut, List.set_cons_zero]
      rw [show j.size = instr.size from hsize]
    | succ i => exact congrArg (⟨a, j⟩ :: ·) (ih hl)

/-- What the search for an address finds is at the address. -/
theorem line_of_find? {i : Nat} (h : b.find? a = some i) :
    ∃ l, b.lines[i]? = some l ∧ l.addr = a := by
  have haddr := getElem?_of_search? h
  rw [List.getElem?_map, Option.map_eq_some_iff] at haddr
  obtain ⟨l, hl, ha⟩ := haddr
  exact ⟨l, hl, Addr.toNat_inj ha⟩

/-- A replacement where the search finds nothing. -/
theorem replaceAt_of_none {instr : Instr} (h : b.find? a = none) :
    b.replaceAt a instr = .error (.noInstruction a) := by
  simp only [replaceAt, indexAt, h]
  rfl

/-- A replacement where the search finds a line. -/
theorem replaceAt_of_line {instr : Instr} {l : Line} {i : Nat} (hi : b.find? a = some i)
    (hl : b.lines[i]? = some l) : b.replaceAt a instr =
      if l.instr.size = instr.size then .ok { b with lines := b.lines.set i ⟨l.addr, instr⟩ }
      else .error (.sizeMismatch a l.instr.size instr.size) := by
  simp only [replaceAt, indexAt, lineAt, hi, Option.bind_some, hl]
  rfl

/-- A replacement leaves a body laid out. -/
theorem laidOut_replaceAt {instr : Instr} (hb : b.LaidOut) (h : b.replaceAt a instr = .ok b') :
    b'.LaidOut := by
  cases hi : b.find? a with
  | none =>
    rw [replaceAt_of_none hi] at h
    cases h
  | some i =>
    obtain ⟨l, hl, _⟩ := line_of_find? hi
    rw [replaceAt_of_line hi hl] at h
    split at h
    · next hsize =>
      cases h
      have hinstrs : (b.lines.set i ⟨l.addr, instr⟩).map Line.instr = b.instrs.set i instr :=
        List.map_set
      rw [LaidOut, instrs, hinstrs, layOut_set (hb ▸ hl) hsize, ← hb]
    · cases h

/-! ## Lines at the same places -/

/-- Instructions of the same sizes are laid out at the same places. -/
theorem map_place_layOut (h : is.map Instr.size = js.map Instr.size) :
    (layOut a is).map Line.place = (layOut a js).map Line.place := by
  induction is generalizing a js with
  | nil =>
    cases js with
    | nil => rfl
    | cons j js => cases h
  | cons i is ih =>
    cases js with
    | nil => cases h
    | cons j js =>
      obtain ⟨hsize, hrest⟩ := List.cons.inj h
      simp only [layOut, List.map_cons, Line.place]
      rw [hsize, ih hrest]

/-- Lines at the same places are found at the same addresses. -/
theorem find?_of_map_place (h : b.lines.map Line.place = b'.lines.map Line.place) :
    b.find? = b'.find? := by
  have haddrs := congrArg (List.map fun place => place.1.toNat) h
  rw [List.map_map, List.map_map] at haddrs
  funext a
  exact congrArg (search? a.toNat) haddrs

/-- Lines at the same places end at the same address. -/
theorem units_of_map_place (h : b.lines.map Line.place = b'.lines.map Line.place) :
    b.units = b'.units := by
  have hlast := congrArg List.getLast? h
  rw [List.getLast?_map, List.getLast?_map] at hlast
  unfold units
  cases hb : b.lines.getLast? with
  | none =>
    rw [hb] at hlast
    rw [Option.map_eq_none_iff.1 hlast.symm]
  | some l =>
    rw [hb] at hlast
    obtain ⟨l', hl', hplace⟩ := Option.map_eq_some_iff.1 hlast.symm
    rw [hl']
    obtain ⟨haddr, hsize⟩ := Prod.mk.inj hplace
    simp only [Line.next]
    rw [haddr, hsize]

end Body

/-! ## Replacements of the same size -/

namespace Instr

variable {i j : Instr}

/-- An odexed instruction, and a standard instruction in its place. -/
inductive Standard : Instr → Instr → Prop where
  | barrier : Standard .returnVoidBarrier .returnVoid
  | directEmpty {regs : List Reg} {m : MethodRef} :
    Standard (.invokeDirectEmpty regs m) (.invoke .direct (.list regs) m)
  | objectInit {range : RegRange} {m : MethodRef} {args : Args}
    (h : range.count = 1 ∧ args = .list [range.start] ∨ args = .range range) :
    Standard (.invokeObjectInit range m) (.invoke .direct args m)
  | instanceVolatile {dir : Direction} {w : Width} {value object : Reg} {f f' : FieldRef}
    (h : Width.ofTy? f.ty = some w) : Standard (.instanceVolatile dir w value object f')
      (.instanceAccess dir (.ofTy f.ty) value object f)
  | staticVolatile {dir : Direction} {w : Width} {value : Reg} {f f' : FieldRef}
    (h : Width.ofTy? f.ty = some w) : Standard (.staticVolatile dir w value f')
      (.staticAccess dir (.ofTy f.ty) value f)
  | instanceQuick {dir : Direction} {w : Width} {value object : Reg} {offset : Nat} {f : FieldRef}
    (h : Width.ofTy? f.ty = some w) : Standard (.instanceQuick dir w value object offset)
      (.instanceAccess dir (.ofTy f.ty) value object f)
  | quick {dispatch : QuickDispatch} {args : Args} {index : Nat} {m : MethodRef} :
    Standard (.invokeQuick dispatch args index) (.invoke dispatch.dispatch args m)
  | inlined {d : Dispatch} {args : Args} {index : Nat} {m : MethodRef} :
    Standard (.executeInline args index) (.invoke d args m)

theorem Standard.size (h : i.Standard j) : j.size = i.size := by
  cases h <;> rfl

theorem standard_of_accessField {f : FieldRef} (h : i.accessField f = .ok j) : i.Standard j := by
  unfold accessField at h
  cases i with
  | instanceVolatile | instanceQuick | staticVolatile =>
    simp only [odexedAccess?] at h
    split at h
    · next hw =>
      cases h
      constructor
      exact hw
    · cases h
  | _ => cases h

theorem standard_of_plainForm? (h : i.plainForm? = .ok (some j)) : i.Standard j := by
  unfold plainForm? at h
  split at h
  · cases h
    exact .barrier
  · cases h
    exact .directEmpty
  · split at h
    · next hone =>
      cases h
      exact .objectInit (.inl ⟨hone.1, rfl⟩)
    · cases h
      exact .objectInit (.inr rfl)
  · obtain ⟨_, h, hj⟩ := except_map_ok.1 h
    cases hj
    exact standard_of_accessField h
  · obtain ⟨_, h, hj⟩ := except_map_ok.1 h
    cases hj
    exact standard_of_accessField h
  · cases h

/-- The ways to put the last form in the place of an odexed instruction. -/
theorem finalForm_ok (h : i.finalForm = .ok j) :
    i.Standard j ∨ (∃ r, i.markedRegister? = some r ∧ j = .unresolvedOdex r i.size) ∨ j = i := by
  unfold finalForm at h
  obtain ⟨form?, hform, h⟩ := except_bind_ok.1 h
  cases form? with
  | some standard =>
    cases h
    exact .inl (standard_of_plainForm? hform)
  | none =>
    cases hr : i.markedRegister? with
    | some r =>
      simp only [hr] at h
      cases h
      exact .inr (.inl ⟨r, rfl, rfl⟩)
    | none =>
      simp only [hr] at h
      cases h
      exact .inr (.inr rfl)

theorem size_of_finalForm (h : i.finalForm = .ok j) : j.size = i.size := by
  rcases finalForm_ok h with hstandard | ⟨r, _, rfl⟩ | rfl
  · exact hstandard.size
  · rfl
  · rfl

end Instr

namespace Analysis

namespace Subject

variable {s : Subject}

theorem standard_of_standardForm? {p : Point} {instr : Instr} {m m' : Memo}
    (h : s.standardForm? p m = .ok (some instr) m') : p.instr.Standard instr := by
  obtain ⟨_, _, _, object, offset, _, h⟩ | ⟨dispatch, args, index, hi, h⟩ |
    ⟨args, index, hi, h, _⟩ | ⟨h, _⟩ := standardForm?_ok h
  · obtain ⟨_, _, f, _, _, haccess⟩ := quickField?_ok h
    exact Instr.standard_of_accessField haccess
  · obtain ⟨_, _, _, method, _, _, _, rfl⟩ := quickCall?_ok h
    rw [hi]
    exact .quick
  · obtain ⟨_, hcall, hj⟩ := except_map_ok.1 h
    cases hj
    rw [hi]
    unfold inlineCall at hcall
    split at hcall
    · cases hcall
    · obtain ⟨method, _, hcall⟩ := except_bind_ok.1 hcall
      cases hcall
      exact .inlined
  · exact Instr.standard_of_plainForm? h

/-- The state has the given lines, and instructions of their sizes. -/
def InPlace (s : Subject) (st : State) : Prop :=
  (st.points.toList.map fun p => (⟨p.addr, p.given⟩ : Line)) = s.body.lines ∧
    st.instrs.map Instr.size = s.body.instrs.map Instr.size

end Subject

namespace State

variable {st : State} {i : Nat} {p : Point} {instr : Instr}

/-- A replacement of the same size changes no size. -/
theorem map_size_setInstr (hp : st.points[i]? = some p) (hsize : instr.size = p.instr.size) :
    (st.setInstr i instr).instrs.map Instr.size = st.instrs.map Instr.size := by
  apply List.ext_getElem?
  intro j
  simp only [instrs, List.getElem?_map, Array.getElem?_toList]
  rw [setInstr_points]
  split
  · next hij =>
    subst hij
    simp [hp, hsize]
  · rfl

/-- The lines that are given are part of the frame. -/
theorem given_of_frame {st' : State} (h : st'.frame = st.frame) :
    (st'.points.toList.map fun p => (⟨p.addr, p.given⟩ : Line)) =
      st.points.toList.map fun p => (⟨p.addr, p.given⟩ : Line) := by
  have := congrArg (fun f => f.2.map fun q => (⟨q.1, q.2.1⟩ : Line)) h
  simpa only [frame, List.map_map, Function.comp_def] using this

end State

namespace Subject

variable {s : Subject} {i : Nat} {p : Point} {instr : Instr} {st : State}

/-- At each point the instruction has the size of the given one. -/
theorem InPlace.size_given (h : s.InPlace st) (hp : st.points[i]? = some p) :
    p.given.size = p.instr.size := by
  have hgiven := congrArg (fun ls => (ls.map fun l => l.instr.size)[i]?) h.1
  have hinstr := congrArg (·[i]?) h.2
  simp only [State.instrs, Body.instrs, List.map_map, List.getElem?_map, Array.getElem?_toList,
    Function.comp_apply, hp, Option.map_some] at hgiven hinstr
  exact Option.some.inj (hgiven.trans hinstr.symm)

/-- Replacements of the same size leave the instructions in place. -/
theorem InPlace.setInstr (h : s.InPlace st) (hp : st.points[i]? = some p)
    (hsize : instr.size = p.instr.size) : s.InPlace (st.setInstr i instr) :=
  ⟨(State.given_of_frame State.setInstr_frame).trans h.1,
    (State.map_size_setInstr hp hsize).trans h.2⟩

/-- No step of an analysis moves an instruction. -/
theorem inPlace_invariant (s : Subject) : s.Invariant (fun _ => True) s.InPlace where
  assign h _ hassign := by
    obtain ⟨hframe, hinstrs⟩ := frame_of_assign hassign
    exact ⟨(State.given_of_frame hframe).trans h.1, (congrArg _ hinstrs).trans h.2⟩
  effect := by
    intro i p e m st h _ _
    exact ⟨h, by cases e <;> trivial⟩
  wait h _ _ := h
  standard h hp _ hform := InPlace.setInstr h hp (standard_of_standardForm? hform).size
  restore := by
    intro i st h
    unfold restore
    split
    · next p hp =>
      split
      · exact h.setInstr hp (h.size_given hp)
      · exact h
    · exact h
  settle h := h
  final h hp _ hform := h.setInstr hp (Instr.size_of_finalForm hform)
  param _ := trivial
  receiver _ := ⟨trivial, trivial⟩
  uninit := trivial

end Subject

/-! ## Analysed bodies -/

section Analysed

variable {cp : ClassPath} {options : Options} {cls : ClassDef} {method : MethodDef} {b : Body}
  {m m' : Memo} {a : Analysed}

/-- What was analysed is the body of the method. -/
theorem body_of_analysed (hbody : method.body? = some b)
    (h : analyseMethod cp options cls method m = .ok a m') : a.subject.body = b := by
  obtain ⟨hsubject, _⟩ := analyseMethod_ok h
  obtain ⟨body, graph, hbody', _, hs⟩ := subjectOf_ok hsubject
  rw [hs]
  exact Option.some.inj (hbody'.symm.trans hbody)

theorem inPlace_of_analysed (h : analyseMethod cp options cls method m = .ok a m') :
    ∃ settled, a.subject.InPlace (a.final m' settled) := by
  refine Subject.Invariant.analysed h (Subject.inPlace_invariant _) ⟨?_, ?_⟩
  · simp [State.initial, Point.ofLine, Function.comp_def]
  · simp [State.initial, State.instrs, Body.instrs, Point.ofLine, Function.comp_def]

/-- An analysed body has its instructions at the places of those that were given. -/
theorem map_place_of_analysed (hbody : method.body? = some b) (hb : b.LaidOut)
    (h : analyseMethod cp options cls method m = .ok a m') :
    a.body.lines.map Line.place = b.lines.map Line.place := by
  obtain ⟨settled, hplaced⟩ := inPlace_of_analysed h
  have hsizes : a.instrs.map Instr.size = b.instrs.map Instr.size :=
    body_of_analysed hbody h ▸ hplaced.2
  rw [hb]
  exact Body.map_place_layOut hsizes

end Analysed

/-- An analysed body has the registers and try ranges of the body that was given, and at every
index an instruction of the same size at the same address.  So it has as many units, and each
address leads to the same instruction. -/
theorem analysed_body_keeps_places {cp : ClassPath} {options : Options} {cls : ClassDef}
    {method : MethodDef} {b : Body} {m m' : Memo} {a : Analysed} (hbody : method.body? = some b)
    (hb : b.LaidOut) (h : analyseMethod cp options cls method m = .ok a m') :
    a.body.registers = b.registers ∧ a.body.tries = b.tries ∧
      a.body.lines.length = b.lines.length ∧
      (∀ i : Nat, (a.body.lines[i]?).map Line.place = (b.lines[i]?).map Line.place) ∧
      a.body.units = b.units ∧ ∀ addr, a.body.indexAt addr = b.indexAt addr := by
  have hb' := body_of_analysed hbody h
  have hplaces := map_place_of_analysed hbody hb h
  refine ⟨?_, ?_, ?_, ?_, ?_, ?_⟩
  · exact hb' ▸ rfl
  · exact hb' ▸ rfl
  · simpa using congrArg List.length hplaces
  · intro i
    simpa using congrArg (·[i]?) hplaces
  · exact Body.units_of_map_place hplaces
  · intro addr
    unfold Body.indexAt
    rw [Body.find?_of_map_place hplaces]

/-- A class with an odexed method: it reads a field by offset and returns after a barrier. -/
def barrierClass : ClassDef where
  ty := .cls "A"
  fields := [⟨"x", .int, .none⟩]

/-- The odexed method. -/
def barrierMethod : MethodDef :=
  ⟨"m", [.cls "A"], .void, .ofList [.static],
    some (.assemble 2 [.instanceQuick .get .narrow ⟨0⟩ ⟨1⟩ 8, .returnVoidBarrier] [])⟩

/-- Both instructions are replaced, and stay in place. -/
theorem barrierMethod_keeps_places :
    ∃ a m', analyseMethod (.ofClasses [barrierClass] 15) {} barrierClass barrierMethod .empty =
        .ok a m' ∧
      a.instrs = [.instanceAccess .get .word ⟨0⟩ ⟨1⟩ ⟨.cls "A", "x", .int⟩, .returnVoid] ∧
      a.body.units = 3 ∧ a.body.indexAt ⟨2⟩ = .ok 1 := by
  have hrun : ∃ a m', analyseMethod (.ofClasses [barrierClass] 15) {} barrierClass barrierMethod
      .empty = .ok a m' ∧ a.instrs =
        [.instanceAccess .get .word ⟨0⟩ ⟨1⟩ ⟨.cls "A", "x", .int⟩, .returnVoid] := by
    decide +kernel
  obtain ⟨a, m', h, hinstrs⟩ := hrun
  obtain ⟨_, _, _, _, hunits, hindex⟩ :=
    analysed_body_keeps_places rfl (Body.laidOut_assemble 2 _ []) h
  exact ⟨a, m', h, hinstrs, hunits.trans rfl,
    (hindex ⟨2⟩).trans (ok_of_toOption (by decide +kernel))⟩

end Analysis

end Dalvik
