import Dalvik.Proofs.Tables

/-!
# Cells of answers

The interfaces, the vtable and the layout of a class are cells that are filled on demand.  A cell
is marked while it is being filled, and whoever asks for a marked cell has met a cycle.  In
`ClassPath.interfacesFrom`, `vtableFrom` and `layoutFrom` the marks are an argument.  Here they are
part of the memory, next to the answers: `Cells.fill` sets a mark, and has to take it away again
whether the answer is found or not.  How an answer is put together from others is the same for both
memories.  The questions are asked to a bounded depth, and the memory shows if they go deeper.

With enough depth the two ways agree (`performs_interfaces`, `performs_vtable`,
`performs_layout`): a question ends, and leaves the marks that it found.  An outside caller finds
none and leaves none.  Such a caller never hears of a cycle from the interfaces or the vtable of a
class, and hears of it from a layout if and only if there is one above the class.
-/

namespace Dalvik

open Relation (ReflTransGen TransGen)

variable {α β : Type}

/-! ## Cells -/

/-- An answer about a class that is kept once it is found. -/
inductive Cell where
  | interfaces (d : String)
  | vtable (d : String)
  | layout (d : String)
  deriving DecidableEq, Repr

namespace Cell

/-- The class of a cell. -/
def owner : Cell → String
  | .interfaces d | .vtable d | .layout d => d

/-- The question for the content of a cell. -/
def question : Cell → ClassPath.Question
  | .interfaces d => .interfaces d
  | .vtable d => .vtable d
  | .layout d => .layout d

end Cell

/-- What was found, and the marks of the cells that are being filled. -/
structure Cells where
  memo : Memo
  marks : List Cell
  /-- Whether a question went deeper than it may. -/
  exceeded : Bool
  deriving Repr

/-- A question that marks the cells it fills. -/
abbrev Working := Asking Cells

namespace Cells

/-- Nothing was asked yet. -/
def fresh : Cells := ⟨.empty, [], false⟩

/-- The same cells with one mark more. -/
def mark (s : Cells) (cell : Cell) : Cells := { s with marks := cell :: s.marks }

/-- The same cells without a mark. -/
def unmark (s : Cells) (cell : Cell) : Cells := { s with marks := s.marks.filter (· ≠ cell) }

/-- The content of a cell.  It is computed unless it is known, and kept unless that fails. -/
def fill (cell : Cell) (known? : Memo → Option α) (add : α → Memo → Memo) (compute : Working α) :
    Working α := fun s =>
  match known? s.memo with
  | some known => .ok known s
  | none =>
    if cell ∈ s.marks then .error (.cycle cell.owner) s
    else
      match compute (s.mark cell) with
      | .ok found s => .ok found { s.unmark cell with memo := add found s.memo }
      | .error e s => .error e (s.unmark cell)

/-- Gives a question up that goes too deep. -/
def giveUp (d : String) : Working α := fun s => .error (.cycle d) { s with exceeded := true }

/-- The interfaces a class implements, to a depth. -/
def interfaces (cp : ClassPath) : Nat → String → Working Interfaces
  | 0, d => giveUp d
  | depth + 1, d =>
    fill (.interfaces d) (·.interfaces.lookup d) (fun i m => m.addInterfaces d i)
      (match cp.def? d with
      | none => throw (.unresolvedClass d)
      | some c => cp.collectInterfaces (interfaces cp depth) d c)

/-- The vtable of a class, to a depth.  That of a class that is not defined is the vtable of the
root class. -/
def vtable (cp : ClassPath) : Nat → String → Working Vtable
  | 0, d => giveUp d
  | depth + 1, d =>
    fill (.vtable d) (·.vtables.lookup d) (fun v m => m.addVtable d v)
      (match cp.def? d with
      | some c => cp.collectVtable (interfaces cp depth) (vtable cp depth) d c
      | none => do
        let above ← vtable cp depth objectClass
        pure ⟨above.slots, false⟩)

/-- The layout of the objects of a class, to a depth. -/
def layout (cp : ClassPath) : Nat → String → Working Layout
  | 0, d => giveUp d
  | depth + 1, d =>
    fill (.layout d) (·.layouts.lookup d) (fun l m => m.addLayout d l)
      (match cp.def? d with
      | none => throw (.unresolvedClass d)
      | some c => ClassPath.collectLayout (layout cp depth) c)

/-- The cells after the content of one was asked for. -/
def ask (cp : ClassPath) (depth : Nat) (s : Cells) : Cell → Cells
  | .interfaces d => (interfaces cp depth d).after s
  | .vtable d => (vtable cp depth d).after s
  | .layout d => (layout cp depth d).after s

end Cells

/-! ## Marks are taken away -/

/-- How a question ends that has not gone too deep, with marks next to what is remembered. -/
def marked (marks : List Cell) :
    EStateM.Result HierarchyError Memo α → EStateM.Result HierarchyError Cells α
  | .ok a m => .ok a ⟨m, marks, false⟩
  | .error e m => .error e ⟨m, marks, false⟩

/-- A question ends like another one, and leaves the marks as they are. -/
def Performs (marks : List Cell) (w : Working α) (q : Query α) : Prop :=
  ∀ m, w ⟨m, marks, false⟩ = marked marks (q m)

namespace Performs

variable {marks : List Cell} {w : Working α} {q : Query α}

theorem pure (a : α) : Performs marks (Pure.pure a) (Pure.pure a) := fun _ => rfl

theorem throw (e : HierarchyError) :
    Performs marks (MonadExcept.throw e : Working α) (MonadExcept.throw e) := fun _ => rfl

theorem lift (r : Except HierarchyError α) : Performs marks (Asking.lift r) (Asking.lift r) := by
  intro m
  cases r <;> rfl

/-- They do so where a failure is an answer too. -/
theorem attempt (h : Performs marks w q) : Performs marks w.attempt q.attempt := by
  intro m
  unfold Asking.attempt
  rw [h m]
  cases q m <;> rfl

/-- Questions that end alike do so one after the other. -/
theorem bind {f : α → Working β} {g : α → Query β} (h : Performs marks w q)
    (hf : ∀ a, Performs marks (f a) (g a)) : Performs marks (w >>= f) (q >>= g) := by
  intro m
  rw [bind_apply, bind_apply, h m]
  cases q m with
  | ok a m' => exact hf a m'
  | error e m' => rfl

/-- A cell without a mark has none in the end. -/
theorem fill {cell : Cell} {known? : Memo → Option α} {add : α → Memo → Memo}
    (hcell : cell ∉ marks)
    (h : ∀ m, known? m = none → w ⟨m, cell :: marks, false⟩ = marked (cell :: marks) (q m)) :
    Performs marks (Cells.fill cell known? add w) (ClassPath.recalled known? add q) := by
  have hmarks : (cell :: marks).filter (· ≠ cell) = marks := by
    rw [List.filter_cons_of_neg (by simp), List.filter_eq_self]
    intro c hc
    simpa using fun heq : c = cell => hcell (heq ▸ hc)
  intro m
  unfold Cells.fill ClassPath.recalled
  simp only
  cases hknown : known? m with
  | some known => rfl
  | none =>
    simp only [hcell, if_false, Cells.mark]
    rw [h m hknown]
    cases q m with
    | ok a m' => simp only [marked, Cells.unmark, hmarks]
    | error e m' => simp only [marked, Cells.unmark, hmarks]

/-- A cell with a mark is not filled. -/
theorem fill_marked {cell : Cell} {known? : Memo → Option α} {add : α → Memo → Memo}
    (hcell : cell ∈ marks) :
    Performs marks (Cells.fill cell known? add w)
      (ClassPath.recalled known? add (MonadExcept.throw (.cycle cell.owner))) := by
  intro m
  unfold Cells.fill ClassPath.recalled
  simp only
  cases known? m with
  | some known => rfl
  | none =>
    simp only [hcell, if_true]
    rfl

end Performs

namespace Cells

variable {cp : ClassPath} {marks : List Cell} {open_ : List String} {d : String} {c : ClassDef}

section Interfaces

variable {w : String → Working Interfaces} {q : String → Query Interfaces}
  (h : ∀ name, Performs marks (w name) (q name))
include h

/-- The walk over declared interfaces with marks. -/
theorem performs_addDeclared : ∀ (ts : List Ty) (acc : Interfaces),
    Performs marks (cp.addDeclared w ts acc) (cp.addDeclared q ts acc)
  | [], acc => .pure acc
  | t :: rest, acc => by
    unfold ClassPath.addDeclared
    split
    · exact performs_addDeclared rest acc
    · refine .bind (.lift _) fun n => ?_
      cases n with
      | cls name =>
        refine .bind (h name).attempt fun r => ?_
        cases r with
        | ok more => exact performs_addDeclared rest _
        | error e =>
          simp only
          split
          · exact .pure _
          · exact .throw e
      | _ => exact .pure _

theorem performs_addInherited (superclass? : Option Ty) (acc : Interfaces) :
    Performs marks (ClassPath.addInherited w superclass? acc)
      (ClassPath.addInherited q superclass? acc) := by
  unfold ClassPath.addInherited
  cases superclass? with
  | none => exact .pure acc
  | some s =>
    refine .bind (.lift _) fun n => ?_
    cases n with
    | cls name =>
      refine .bind (h name).attempt fun r => ?_
      cases r with
      | ok more => exact .pure _
      | error e =>
        simp only
        split
        · exact .pure _
        · exact .throw e
    | _ => exact .pure acc

/-- The search for interfaces ends alike if the questions for other classes do. -/
theorem performs_collectInterfaces (d : String) (c : ClassDef) :
    Performs marks (cp.collectInterfaces w d c) (cp.collectInterfaces q d c) :=
  .bind (performs_addDeclared h _ _) fun _ => performs_addInherited h _ _

end Interfaces

/-- The marks of a kind of cells are on the classes that are being asked for. -/
theorem mem_mark_iff {kind : String → Cell} (hkind : ∀ d e, kind d = kind e → d = e)
    (h : ∀ d, kind d ∈ marks ↔ d ∈ open_) (e : String) :
    kind e ∈ kind d :: marks ↔ e ∈ d :: open_ := by
  rw [List.mem_cons, List.mem_cons, h e]
  exact or_congr_left ⟨hkind e d, congrArg kind⟩

/-- The marked search for interfaces ends like the one that keeps the open questions in a list, if
it may go deep enough.  The marks are the open questions. -/
theorem performs_interfaces {depth : Nat} (hmarks : ∀ d, .interfaces d ∈ marks ↔ d ∈ open_)
    (hdepth : cp.unmet open_ < depth) (d : String) :
    Performs marks (interfaces cp depth d) (cp.interfacesFrom open_ d) := by
  induction depth generalizing marks open_ d with
  | zero => omega
  | succ depth ih =>
    rw [interfaces, ClassPath.interfacesFrom_eq]
    by_cases hopen : d ∈ open_
    · rw [if_pos hopen]
      exact .fill_marked ((hmarks d).2 hopen)
    rw [if_neg hopen]
    refine .fill (fun hmem => hopen ((hmarks d).1 hmem)) fun m _ => ?_
    cases hdef : cp.def? d with
    | none => rfl
    | some c =>
      have hless := ClassPath.unmet_cons_lt hdef hopen
      exact performs_collectInterfaces
        (ih (mem_mark_iff (fun _ _ => Cell.interfaces.inj) hmarks) (by omega)) d c m

/-- The marked search for a layout ends like the one with a list of open questions. -/
theorem performs_layout {depth : Nat} (hmarks : ∀ d, .layout d ∈ marks ↔ d ∈ open_)
    (hdepth : cp.unmet open_ < depth) (d : String) :
    Performs marks (layout cp depth d) (cp.layoutFrom open_ d) := by
  induction depth generalizing marks open_ d with
  | zero => omega
  | succ depth ih =>
    rw [layout, ClassPath.layoutFrom_eq]
    by_cases hopen : d ∈ open_
    · rw [if_pos hopen]
      exact .fill_marked ((hmarks d).2 hopen)
    rw [if_neg hopen]
    refine .fill (fun hmem => hopen ((hmarks d).1 hmem)) fun m _ => ?_
    cases hdef : cp.def? d with
    | none => rfl
    | some c =>
      have hless := ClassPath.unmet_cons_lt hdef hopen
      have hin : ∀ name, Performs (.layout d :: marks) (layout cp depth name)
          (cp.layoutFrom (d :: open_) name) :=
        ih (mem_mark_iff (fun _ _ => Cell.layout.inj) hmarks) (by omega)
      unfold ClassPath.collectLayout
      simp only
      cases c.superclass? with
      | none => rfl
      | some s =>
        refine Performs.bind (.lift _) (fun n => ?_) m
        cases n with
        | cls name => exact .bind (hin name) fun above => .pure _
        | _ => exact .pure _

/-! ### Vtables -/

section Vtables

variable {wi : String → Working Interfaces} {qi : String → Query Interfaces}
  (hi : ∀ name, Performs marks (wi name) (qi name))
include hi

/-- A vtable is extended alike if the questions for interfaces end alike. -/
theorem performs_extendVtable (d : String) (c : ClassDef) (slots : List Slot) :
    Performs marks (cp.extendVtable wi d c slots) (cp.extendVtable qi d c slots) := by
  unfold ClassPath.extendVtable
  split
  · exact .pure _
  · refine .bind ?_ fun _ => .pure _
    refine .bind (hi d) fun i => ?_
    split
    · exact .pure _
    · exact .throw _

/-- The search for a vtable ends alike if the questions for other classes do. -/
theorem performs_collectVtable {w : String → Working Vtable} {q : String → Query Vtable}
    (h : ∀ name, Performs marks (w name) (q name)) (d : String) (c : ClassDef) :
    Performs marks (cp.collectVtable wi w d c) (cp.collectVtable qi q d c) := by
  unfold ClassPath.collectVtable
  cases c.superclass? with
  | none => exact performs_extendVtable hi d c []
  | some s =>
    refine .bind (.lift _) fun n => ?_
    cases n with
    | cls name =>
      refine .bind (h name).attempt fun r => ?_
      cases r with
      | ok above =>
        simp only
        split
        · exact performs_extendVtable hi d c above.slots
        · exact .pure _
      | error e =>
        cases e with
        | cycle => exact .pure _
        | _ => exact .throw _
    | _ => exact .throw _

end Vtables

/-- The marked search for a vtable ends like the one with a list of open questions.  It asks for
interfaces below, so none of these may be open. -/
theorem performs_vtable {depth : Nat} (hmarks : ∀ d, .vtable d ∈ marks ↔ d ∈ open_)
    (hfree : ∀ d, .interfaces d ∉ marks) (d : String)
    (hdepth : 2 * cp.unmet open_ + cp.gap d + cp.unmet [] + 1 < depth) :
    Performs marks (vtable cp depth d) (cp.vtableFrom open_ d) := by
  induction depth generalizing marks open_ d with
  | zero => omega
  | succ depth ih =>
    rw [vtable, ClassPath.vtableFrom_eq]
    by_cases hopen : d ∈ open_
    · rw [if_pos hopen]
      exact .fill_marked ((hmarks d).2 hopen)
    rw [if_neg hopen]
    refine .fill (fun hmem => hopen ((hmarks d).1 hmem)) fun m hknown => ?_
    have hmarks' := mem_mark_iff (d := d) (fun _ _ => Cell.vtable.inj) hmarks
    have hfree' : ∀ e, .interfaces e ∉ Cell.vtable d :: marks := by
      intro e hmem
      cases hmem with
      | tail _ hmem => exact hfree e hmem
    cases hdef : cp.def? d with
    | some c =>
      have hless := ClassPath.unmet_cons_lt hdef hopen
      refine performs_collectVtable (fun name => ?_) (fun name => ih hmarks' hfree' name ?_) d c m
      · -- the interfaces are asked for from outside, with no mark on them
        exact performs_interfaces (fun e => iff_of_false (hfree' e) List.not_mem_nil) (by omega)
          name
      · have hgap := cp.gap_le name
        omega
    | none =>
      by_cases hroot : d = objectClass
      · -- The cell of the root class is marked already.
        subst hroot
        obtain ⟨depth, rfl⟩ : ∃ k, depth = k + 1 := ⟨depth - 1, by omega⟩
        have hcycle : vtable cp (depth + 1) objectClass ⟨m, .vtable objectClass :: marks, false⟩ =
            .error (.cycle objectClass) ⟨m, .vtable objectClass :: marks, false⟩ := by
          rw [vtable, Performs.fill_marked List.mem_cons_self m, ClassPath.recalled, hknown]
          rfl
        simp only [if_true]
        rw [bind_apply, hcycle]
        rfl
      · simp only [hroot, if_false]
        have hle := cp.unmet_cons_le d open_
        have hgap : cp.gap d = 1 := by simp [ClassPath.gap, hdef, hroot]
        have hgap' : cp.gap objectClass = 0 := by simp [ClassPath.gap]
        exact Performs.bind (ih hmarks' hfree' objectClass (by omega)) (fun above => .pure _) m

end Cells

/-! ## Cycles that are heard of -/

/-- The answer is no complaint about a cycle. -/
def Uncycled (r : Except HierarchyError α) : Prop := ∀ x, r ≠ .error (.cycle x)

theorem uncycled_ok (a : α) : Uncycled (.ok a : Except HierarchyError α) := by
  intro x h
  cases h

theorem Uncycled.error {r : Except HierarchyError α} {e : HierarchyError} (h : Uncycled r)
    (he : r = .error e) : Uncycled (.error e : Except HierarchyError β) := by
  rintro x ⟨⟩
  exact h x he

/-- Only an unresolved hierarchy complains about cycles. -/
theorem uncycled_of_resolved {e : HierarchyError} (h : e.isUnresolved ≠ true) :
    Uncycled (.error e : Except HierarchyError α) := by
  rintro x ⟨⟩
  exact h rfl

theorem uncycled_ofTy (t : Ty) : Uncycled (TypeNode.ofTy t) := by
  intro x h
  unfold TypeNode.ofTy TypeNode.ofDescriptor at h
  split at h
  · cases h
  split at h
  · cases h
  split at h
  · split at h <;> cases h
  · cases h
  · cases h

/-- No answer complains about a cycle if no run does. -/
theorem uncycled_answer_iff {q : Query α} {m : Memo} :
    Uncycled (q.answer m) ↔ ∀ x m', q m ≠ .error (.cycle x) m' := by
  unfold Uncycled Asking.answer
  cases q m with
  | ok a m' => simp
  | error e m' => simp

/-- From a class that is not quiet one comes to a cycle. -/
theorem not_quiet_iff {E : String → String → Prop} {d : String} :
    ¬ Quiet E d ↔ ∃ e, ReflTransGen E d e ∧ TransGen E e e := by
  simp [Quiet]

/-- Any question ends in some way. -/
theorem yields_any (q : Query α) : Yields (fun _ => True) q fun _ => True := by
  intro m _
  cases q m <;> exact ⟨trivial, trivial⟩

namespace ClassPath

variable {cp : ClassPath}

/-- A cycle among the declared interfaces is not heard of. -/
theorem uncycled_addDeclared (inherited : String → Query Interfaces) :
    ∀ (ts : List Ty) (acc : Interfaces),
      Yields (fun _ => True) (cp.addDeclared inherited ts acc) Uncycled
  | [], acc => .pure (uncycled_ok acc)
  | t :: rest, acc => by
    unfold addDeclared
    split
    · exact uncycled_addDeclared inherited rest acc
    · refine .bind_lift (fun n _ => ?_) fun e he => (uncycled_ofTy t).error he
      cases n with
      | cls name =>
        refine (yields_any _).bind_attempt fun r _ => ?_
        cases r with
        | ok more => exact uncycled_addDeclared inherited rest _
        | error e =>
          simp only
          split
          · exact .pure (uncycled_ok _)
          · next he => exact .throw (uncycled_of_resolved he)
      | _ => exact .pure (uncycled_ok _)

theorem uncycled_addInherited (inherited : String → Query Interfaces) (superclass? : Option Ty)
    (acc : Interfaces) :
    Yields (fun _ => True) (addInherited inherited superclass? acc) Uncycled := by
  unfold addInherited
  cases superclass? with
  | none => exact .pure (uncycled_ok acc)
  | some s =>
    refine .bind_lift (fun n _ => ?_) fun e he => (uncycled_ofTy s).error he
    cases n with
    | cls name =>
      refine (yields_any _).bind_attempt fun r _ => ?_
      cases r with
      | ok more => exact .pure (uncycled_ok _)
      | error e =>
        simp only
        split
        · exact .pure (uncycled_ok _)
        · next he => exact .throw (uncycled_of_resolved he)
    | _ => exact .pure (uncycled_ok acc)

/-- A cycle among interfaces is taken for one that is not known. -/
theorem uncycled_interfacesOf (cp : ClassPath) (d : String) :
    Yields (fun _ => True) (cp.interfacesOf d) Uncycled := by
  rw [interfacesOf, interfacesFrom_eq, if_neg List.not_mem_nil]
  refine .recalled (fun _ _ => uncycled_ok _) ?_ fun _ _ => trivial
  split
  · exact .throw fun x h => by cases h
  · next c _ =>
    refine (uncycled_addDeclared _ _ _).bind (fun declared _ => ?_) fun e he => he.error rfl
    exact uncycled_addInherited _ _ _

/-- Extending a vtable hears of no cycle. -/
theorem uncycled_extendVtable (d : String) (c : ClassDef) (slots : List Slot) :
    Yields (fun _ => True) (cp.extendVtable cp.interfacesOf d c slots) Uncycled := by
  unfold extendVtable
  split
  · exact .pure (uncycled_ok _)
  · have hdirect : Yields (fun _ => True) (cp.directInterfaces d) Uncycled := by
      refine (cp.uncycled_interfacesOf d).bind (fun i _ => ?_) fun e he => he.error rfl
      split
      · exact .pure (uncycled_ok _)
      · exact .throw fun x h => by cases h
    exact hdirect.bind (fun _ _ => .pure (uncycled_ok _)) fun e he => he.error rfl

/-- Below a cyclic superclass the vtable is not known. -/
theorem uncycled_collectVtable (inherited : String → Query Vtable) (d : String) (c : ClassDef) :
    Yields (fun _ => True) (cp.collectVtable cp.interfacesOf inherited d c) Uncycled := by
  unfold collectVtable
  cases c.superclass? with
  | none => exact uncycled_extendVtable d c []
  | some s =>
    refine .bind_lift (fun n _ => ?_) fun e he => (uncycled_ofTy s).error he
    cases n with
    | cls name =>
      refine (yields_any _).bind_attempt fun r _ => ?_
      cases r with
      | ok above =>
        simp only
        split
        · exact uncycled_extendVtable d c above.slots
        · exact .pure (uncycled_ok _)
      | error e =>
        cases e with
        | cycle => exact .pure (uncycled_ok _)
        | _ => exact .throw fun x h => by cases h
    | _ => exact .throw fun x h => by cases h

/-- The vtable of a class with a definition hears of no cycle. -/
theorem uncycled_vtableFrom {c : ClassDef} {open_ : List String} {d : String} (hopen : d ∉ open_)
    (hd : cp.def? d = some c) : Yields (fun _ => True) (cp.vtableFrom open_ d) Uncycled := by
  rw [vtableFrom_eq, if_neg hopen, hd]
  exact .recalled (fun _ _ => uncycled_ok _) (uncycled_collectVtable _ d c) fun _ _ => trivial

/-- Where the root class is defined, the vtable of a class that is not defined is known. -/
theorem uncycled_vtableOf {root : ClassDef} (hroot : cp.def? objectClass = some root)
    (d : String) : Yields (fun _ => True) (cp.vtableOf d) Uncycled := by
  cases hd : cp.def? d with
  | some c => exact uncycled_vtableFrom List.not_mem_nil hd
  | none =>
    have hne : d ≠ objectClass := by
      rintro rfl
      cases hd.symm.trans hroot
    rw [vtableOf, vtableFrom_eq, if_neg List.not_mem_nil, hd]
    simp only [hne, if_false]
    refine .recalled (fun _ _ => uncycled_ok _) ?_ fun _ _ => trivial
    refine (uncycled_vtableFrom (fun h => hne (List.mem_singleton.1 h).symm) hroot).bind
      (fun _ _ => .pure (uncycled_ok _)) fun e he => he.error rfl

/-! ### Layouts -/

/-- The layout of a class complains about a cycle if and only if there is one above. -/
def Complains (cp : ClassPath) (d : String) (r : Except HierarchyError Layout) : Prop :=
  ¬ Uncycled r ↔ ¬ Quiet cp.Extends d

/-- Where there is no cycle, none may be heard of. -/
theorem complains_of_quiet {d : String} {r : Except HierarchyError Layout}
    (hquiet : Quiet cp.Extends d) (hr : Uncycled r) : cp.Complains d r :=
  iff_of_false (fun h => h hr) fun h => h hquiet

/-- The layout of a class complains if that of its superclass does. -/
theorem complains_collectLayout {I : Memo → Prop} {inherited : String → Query Layout} {d : String}
    {c : ClassDef} (hd : cp.def? d = some c)
    (hin : ∀ name, cp.Extends d name → Yields I (inherited name) (cp.Complains name)) :
    Yields I (collectLayout inherited c) (cp.Complains d) := by
  unfold collectLayout
  cases hs : c.superclass? with
  | none =>
    refine .pure (complains_of_quiet (quiet_of_no_step fun name hname => ?_) (uncycled_ok _))
    obtain ⟨s, hs', _⟩ := superclass_of_extends hd hname
    cases hs.symm.trans hs'
  | some s =>
    have step : ∀ {name}, cp.Extends d name → TypeNode.ofTy s = .ok (.cls name) := by
      intro name hname
      obtain ⟨s', hs', hn⟩ := superclass_of_extends hd hname
      cases hs.symm.trans hs'
      exact hn
    have top : ∀ {n}, TypeNode.ofTy s = .ok n → (∀ name, n ≠ .cls name) → Quiet cp.Extends d :=
      fun hn hcls => quiet_of_no_step fun name hname =>
        hcls name (Except.ok.inj (hn.symm.trans (step hname)))
    refine .bind_lift (fun n hn => ?_) fun e he => ?_
    · cases n with
      | cls name =>
        have hextends : cp.Extends d name := parent?_of_superclass hd hs hn
        have hquiet : Quiet cp.Extends d ↔ Quiet cp.Extends name := by
          refine ⟨fun h => h.of_step hextends, fun h => quiet_of_next fun name' hname' => ?_⟩
          cases hn.symm.trans (step hname')
          exact h
        refine (hin name hextends).bind (fun above h => .pure ?_) fun e h => ?_
        · exact complains_of_quiet (hquiet.2 (Classical.not_not.1 fun hnot =>
            h.2 hnot (uncycled_ok _))) (uncycled_ok _)
        · rw [Complains, hquiet]
          exact (not_congr ⟨fun he => he.error rfl, fun he => he.error rfl⟩).trans h
      | _ => exact .pure (complains_of_quiet (top hn fun _ h => by cases h) (uncycled_ok _))
    · refine complains_of_quiet (quiet_of_no_step fun name hname => ?_)
        ((uncycled_ofTy s).error he)
      cases he.symm.trans (step hname)

/-- A layout complains about a cycle exactly if there is one above the class. -/
theorem complains_layoutOf (cp : ClassPath) (d : String) :
    Yields (fun m => Remembers m.layouts cp.Complains) (cp.layoutOf d) (cp.Complains d) := by
  refine yields_layoutFrom (fun hm h => hm _ _ h) ?_ ?_ complains_collectLayout
    (fun hm h => hm.add h) [] d (List.forall_mem_nil _)
  · intro d hcycle
    exact iff_of_true (fun h => h d rfl) (not_quiet_of_cycle hcycle)
  · intro d hd
    refine complains_of_quiet (quiet_of_no_step fun name hname => ?_) fun x h => by cases h
    obtain ⟨c, _, hc, _⟩ := hname.superclass
    cases hd.symm.trans hc

/-- Layouts that are remembered have no cycle above them, whatever was asked. -/
theorem complains_of_asked {m : Memo} (h : cp.Asked .empty m) :
    Remembers m.layouts cp.Complains := by
  have hi : ∀ d, Keeps (fun m => Remembers m.layouts cp.Complains) (cp.interfacesOf d) :=
    keeps_interfacesOf fun _ _ hm => hm
  exact h.keeps ⟨hi, keeps_vtableOf hi fun _ hm => hm, fun d => (cp.complains_layoutOf d).keeps⟩
    .nil

/-! ## Every history -/

/-- How deep questions go at most: through all classes for a vtable, with a class that is not
defined in between, and then once more for its interfaces. -/
def levels (cp : ClassPath) : Nat := 3 * cp.defs.length + 3

theorem unmet_le (cp : ClassPath) (met : List String) : cp.unmet met ≤ cp.defs.length := by
  have hle : cp.unmet met ≤ (cp.defs.map Prod.fst).length := List.countP_le_length
  rwa [List.length_map] at hle

section Outside

variable {depth : Nat} (hdepth : cp.levels ≤ depth)
include hdepth

/-- Where there are no marks, all questions end without marks. -/
theorem performs_of_levels (d : String) :
    Performs [] (Cells.interfaces cp depth d) (cp.interfacesOf d) ∧
      Performs [] (Cells.vtable cp depth d) (cp.vtableOf d) ∧
      Performs [] (Cells.layout cp depth d) (cp.layoutOf d) := by
  have hunmet := cp.unmet_le []
  have hgap := cp.gap_le d
  unfold levels at hdepth
  refine ⟨Cells.performs_interfaces ?_ (by omega) d,
    Cells.performs_vtable ?_ ?_ d (by omega), Cells.performs_layout ?_ (by omega) d⟩
  · exact fun d => iff_of_false List.not_mem_nil List.not_mem_nil
  · exact fun d => iff_of_false List.not_mem_nil List.not_mem_nil
  · exact fun d => List.not_mem_nil
  · exact fun d => iff_of_false List.not_mem_nil List.not_mem_nil

/-- A query ends without marks, and has remembered what the question remembers. -/
theorem ask_eq (m : Memo) (cell : Cell) :
    Cells.ask cp depth ⟨m, [], false⟩ cell = ⟨cell.question.after cp m, [], false⟩ := by
  have after : ∀ {α : Type} {w : Working α} {q : Query α}, Performs [] w q →
      w.after ⟨m, [], false⟩ = ⟨q.after m, [], false⟩ := by
    intro α w q h
    unfold Asking.after
    rw [h m]
    cases q m <;> rfl
  cases cell with
  | interfaces d => exact after (performs_of_levels hdepth d).1
  | vtable d => exact after (performs_of_levels hdepth d).2.1
  | layout d => exact after (performs_of_levels hdepth d).2.2

/-- So does a list of queries. -/
theorem ask_history (history : List Cell) :
    history.foldl (Cells.ask cp depth) .fresh =
      ⟨cp.remembered (history.map Cell.question), [], false⟩ := by
  have run : ∀ (history : List Cell) (m : Memo), history.foldl (Cells.ask cp depth) ⟨m, [], false⟩ =
      ⟨(history.map Cell.question).foldl (Question.after cp) m, [], false⟩ := by
    intro history
    induction history with
    | nil => exact fun m => rfl
    | cons cell rest ih =>
      intro m
      rw [List.foldl_cons, ask_eq hdepth, ih, List.map_cons, List.foldl_cons]
  exact run history .empty

end Outside

/-- The root class is always defined. -/
theorem def?_objectClass (classes : List ClassDef) (level : Nat) (check : Bool) :
    ∃ root, ((ofClasses classes level).withPackageCheck check).def? objectClass = some root := by
  have hmem : (objectClass, CoreClasses.object.flat) ∈
      (classes ++ CoreClasses.all).map fun c => (c.descriptor, c.flat) :=
    List.mem_map.2 ⟨CoreClasses.object, List.mem_append_right _ List.mem_cons_self, rfl⟩
  refine Option.ne_none_iff_exists'.1 fun hnone => ?_
  simpa using List.lookup_eq_none_iff.1 hnone _ hmem

/-- Whatever was asked before, a question to a class path ends and leaves no cell marked, with an
answer or with a failure.  The interfaces and the vtable of a class never fail for a cycle.  The
layout of a class does if and only if there is a cycle on the way up from the class. -/
theorem questions_end_unmarked (classes : List ClassDef) (level extra : Nat) (check : Bool)
    (history : List Cell) (d : String) :
    let cp := (ofClasses classes level).withPackageCheck check
    let depth := cp.levels + extra
    let s := history.foldl (Cells.ask cp depth) .fresh
    s = ⟨cp.remembered (history.map Cell.question), [], false⟩ ∧
      (Cells.interfaces cp depth d s = marked [] (cp.interfacesOf d s.memo) ∧
        ∀ x m, cp.interfacesOf d s.memo ≠ .error (.cycle x) m) ∧
      (Cells.vtable cp depth d s = marked [] (cp.vtableOf d s.memo) ∧
        ∀ x m, cp.vtableOf d s.memo ≠ .error (.cycle x) m) ∧
      Cells.layout cp depth d s = marked [] (cp.layoutOf d s.memo) ∧
        ((∃ x m, cp.layoutOf d s.memo = .error (.cycle x) m) ↔
          ∃ e, ReflTransGen cp.Extends d e ∧ TransGen cp.Extends e e) := by
  intro cp depth s
  have hdepth : cp.levels ≤ depth := Nat.le_add_right _ _
  have hs : s = ⟨cp.remembered (history.map Cell.question), [], false⟩ := ask_history hdepth history
  obtain ⟨root, hroot⟩ := def?_objectClass classes level check
  obtain ⟨hinterfaces, hvtable, hlayout⟩ := performs_of_levels hdepth d
  have hasked : cp.Asked .empty s.memo := hs ▸ cp.asked_remembered (history.map Cell.question)
  have hcycle : ¬ Uncycled ((cp.layoutOf d).answer s.memo) ↔ ¬ Quiet cp.Extends d :=
    (cp.complains_layoutOf d).answer (complains_of_asked hasked)
  refine ⟨hs, ⟨?_, ?_⟩, ⟨?_, ?_⟩, ?_, ?_⟩
  · rw [hs]
    exact hinterfaces _
  · exact uncycled_answer_iff.1 ((cp.uncycled_interfacesOf d).answer trivial)
  · rw [hs]
    exact hvtable _
  · exact uncycled_answer_iff.1 ((uncycled_vtableOf hroot d).answer trivial)
  · rw [hs]
    exact hlayout _
  · rw [← not_quiet_iff, ← hcycle, uncycled_answer_iff]
    simp

end ClassPath

end Dalvik
