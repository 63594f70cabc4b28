import Dalvik.Proofs.Below
import Dalvik.Proofs.Lasting

/-!
# Inherited members

The layout of a class starts with that of its superclass, and its vtable has the slots of its
superclass at the same indices, with the same signatures.  A class only adds members of its own
and puts methods of its own into slots.  So a member is found at the same place in the class that
defines it (`Table.Inherits.owned`), and in every class between that class and the one it was
found in (`Table.Inherited.member_of_up`).

Layouts and vtables are alike in this, and are treated as two cases of a `Table`.  They differ in
two respects.  The layout of a class leaves out a superclass that is an array, where there is no
vtable at all.  And a class below a cycle has an empty vtable, where there is no layout at all.
-/

namespace Dalvik

namespace MethodRef

variable {a b c : MethodRef}

/-- Two methods have the same signature if name, result and parameters are the same. -/
theorem sameSignature_iff :
    a.sameSignature b = true ↔ a.name = b.name ∧ a.result = b.result ∧ a.params = b.params := by
  simp [sameSignature, and_assoc]

theorem sameSignature_refl (a : MethodRef) : a.sameSignature a = true :=
  sameSignature_iff.2 ⟨rfl, rfl, rfl⟩

theorem sameSignature_symm (h : a.sameSignature b = true) : b.sameSignature a = true := by
  obtain ⟨hname, hresult, hparams⟩ := sameSignature_iff.1 h
  exact sameSignature_iff.2 ⟨hname.symm, hresult.symm, hparams.symm⟩

theorem sameSignature_trans (h₁ : a.sameSignature b = true) (h₂ : b.sameSignature c = true) :
    a.sameSignature c = true := by
  obtain ⟨hname₁, hresult₁, hparams₁⟩ := sameSignature_iff.1 h₁
  obtain ⟨hname₂, hresult₂, hparams₂⟩ := sameSignature_iff.1 h₂
  exact sameSignature_iff.2
    ⟨hname₁.trans hname₂, hresult₁.trans hresult₂, hparams₁.trans hparams₂⟩

end MethodRef

namespace ClassPath

/-! ## Layouts -/

section Layouts

variable {α : Type} {p : α → Bool}

/-- A split puts a list back together. -/
theorem eq_of_splitLast? {l before after : List α} {y : α}
    (h : splitLast? p l = some (before, y, after)) : l = before ++ y :: after := by
  induction l generalizing before y after with
  | nil => cases h
  | cons x rest ih =>
    unfold splitLast? at h
    split at h
    · next hrest =>
      cases h
      rw [ih hrest, List.cons_append]
    · split at h
      · cases h
        rfl
      · cases h

theorem perm_exchange (x y : α) (before after : List α) :
    (y :: (before ++ x :: after)).Perm (x :: (before ++ y :: after)) :=
  (List.perm_middle.cons y).trans ((List.Perm.swap x y _).trans (List.perm_middle.symm.cons x))

/-- Bringing an element forward loses none. -/
theorem perm_bringForward (p : α → Bool) (l : List α) : (bringForward p l).Perm l := by
  fun_induction bringForward p l with
  | case1 => exact .refl _
  | case2 x rest hx ih => exact ih.cons x
  | case3 => exact .refl _
  | case4 x rest hx before y after hrest ih =>
    rw [eq_of_splitLast? hrest, List.cons_append]
    exact ((ih.append_right _).cons y).trans (perm_exchange x y before after)

/-- Filling the gap before wide fields loses no field. -/
theorem perm_fillGap (fields : List FieldRef) :
    ((fillGap fields).1 ++ (fillGap fields).2).Perm fields := by
  unfold fillGap
  split
  · exact .refl _
  · next x rest =>
    split
    · split
      · next before y after hrest =>
        rw [eq_of_splitLast? hrest]
        exact perm_exchange x y before after
      · exact .refl _
    · exact .refl _

/-- Fields are only brought into another order. -/
theorem perm_arrange (start : Nat) (fields : List FieldRef) :
    (arrange start fields).Perm fields := by
  let sorted := fields.mergeSort fun a b =>
    Text.listLe [a.name, a.ty.descriptor] [b.name, b.ty.descriptor]
  let grouped := bringForward isReferenceField sorted
  let others := grouped.dropWhile isReferenceField
  let filled := if (start + 4 * (grouped.takeWhile isReferenceField).length) % 8 ≠ 0
    then fillGap others else ([], others)
  have hgrouped : grouped.Perm fields :=
    (perm_bringForward _ sorted).trans (List.mergeSort_perm fields _)
  have hfilled : (filled.1 ++ filled.2).Perm others := by
    simp only [filled]
    split
    · exact perm_fillGap others
    · exact .refl _
  calc arrange start fields
    _ = grouped.takeWhile isReferenceField ++ filled.1 ++ bringForward isWideField filled.2 := rfl
    List.Perm _ (grouped.takeWhile isReferenceField ++ (filled.1 ++ filled.2)) := by
      rw [List.append_assoc]
      exact ((perm_bringForward _ _).append_left _).append_left _
    List.Perm _ (grouped.takeWhile isReferenceField ++ others) := hfilled.append_left _
    _ = grouped := List.takeWhile_append_dropWhile
    List.Perm _ fields := hgrouped

/-- All fields are placed, in their order. -/
theorem map_field_placeFields (offset : Nat) (aligned : Bool) (fields : List FieldRef) :
    (placeFields offset aligned fields).map Placed.field = fields := by
  induction fields generalizing offset aligned with
  | nil => rfl
  | cons f rest ih =>
    unfold placeFields
    split
    · simp only [List.map_cons, ih]
    · simp only [List.map_cons, ih]

variable {c : ClassDef} {above : Layout} {offset : Nat} {f : FieldRef}

/-- A field of the superclass stays where it is. -/
theorem fieldAt?_extendLayout (h : above.fieldAt? offset = some f) :
    (extendLayout c above).fieldAt? offset = some f := by
  obtain ⟨placed, hplaced, rfl⟩ := Option.map_eq_some_iff.1 h
  unfold Layout.fieldAt? extendLayout
  rw [List.find?_append, hplaced]
  rfl

/-- A field of a class is one of its superclass or its own. -/
theorem of_fieldAt?_extendLayout (h : (extendLayout c above).fieldAt? offset = some f) :
    above.fieldAt? offset = some f ∨ f.definer = c.ty := by
  obtain ⟨placed, hplaced, rfl⟩ := Option.map_eq_some_iff.1 h
  unfold extendLayout at hplaced
  rw [List.find?_append] at hplaced
  cases habove : above.fields.find? fun p => p.offset == offset with
  | some placed' =>
    rw [habove] at hplaced
    cases hplaced
    exact .inl (by rw [Layout.fieldAt?, habove]; rfl)
  | none =>
    rw [habove] at hplaced
    have hmem := List.mem_map_of_mem (f := Placed.field) (List.mem_of_find?_eq_some hplaced)
    rw [map_field_placeFields, (perm_arrange _ _).mem_iff, List.mem_map] at hmem
    obtain ⟨g, _, hg⟩ := hmem
    exact .inr (hg ▸ rfl)

end Layouts

/-! ## Vtables -/

/-- A list of slots has those of another at the same indices, as they were or replaced by methods
of a class with the same signature.  All others are methods of the class too. -/
structure Covers (ty : Ty) (slots slots' : List Slot) : Prop where
  owned : ∀ {k : Nat} {x : Slot}, slots'[k]? = some x →
    slots[k]? = some x ∨ x.method.definer = ty
  kept : ∀ {k : Nat} {y : Slot}, slots[k]? = some y →
    ∃ x, slots'[k]? = some x ∧ x.method.sameSignature y.method = true

namespace Covers

variable {ty : Ty} {slots slots₁ slots₂ : List Slot}

theorem refl : Covers ty slots slots :=
  ⟨.inl, fun {_ y} hy => ⟨y, hy, y.method.sameSignature_refl⟩⟩

theorem trans (h₁ : Covers ty slots slots₁) (h₂ : Covers ty slots₁ slots₂) :
    Covers ty slots slots₂ := by
  refine ⟨fun hx => ?_, fun hz => ?_⟩
  · rcases h₂.owned hx with hx | hx
    · exact h₁.owned hx
    · exact .inr hx
  · obtain ⟨y, hy, hyz⟩ := h₁.kept hz
    obtain ⟨x, hx, hxy⟩ := h₂.kept hy
    exact ⟨x, hx, MethodRef.sameSignature_trans hxy hyz⟩

theorem cons (slot : Slot) (h : Covers ty slots slots₁) :
    Covers ty (slot :: slots) (slot :: slots₁) := by
  refine ⟨fun {k x} hx => ?_, fun {k y} hy => ?_⟩
  · cases k with
    | zero => exact .inl hx
    | succ k => exact h.owned hx
  · cases k with
    | zero => exact ⟨y, hy, y.method.sameSignature_refl⟩
    | succ k => exact h.kept hy

/-- A method takes a slot of its signature, or a new one. -/
theorem place {entry : Slot} (o : Overriding) (replace : Bool) (hentry : entry.method.definer = ty)
    (slots : List Slot) : Covers ty slots (ClassPath.place o replace entry slots) := by
  induction slots with
  | nil =>
    refine ⟨fun {k x} hx => ?_, nofun⟩
    cases k with
    | zero =>
      cases hx
      exact .inr hentry
    | succ k => cases hx
  | cons slot rest ih =>
    unfold ClassPath.place
    split
    · next hallows =>
      split
      · have hsame := (Bool.and_eq_true_iff.1 hallows).1
        refine ⟨fun {k x} hx => ?_, fun {k y} hy => ?_⟩
        · cases k with
          | zero =>
            cases hx
            exact .inr hentry
          | succ k => exact .inl hx
        · cases k with
          | zero =>
            cases hy
            exact ⟨entry, rfl, MethodRef.sameSignature_symm hsame⟩
          | succ k => exact ⟨y, hy, y.method.sameSignature_refl⟩
      · exact refl
    · exact ih.cons slot

/-- Slots stay covered over many steps. -/
theorem foldl {β : Type} {f : List Slot → β → List Slot} {xs : List β}
    (h : ∀ x ∈ xs, ∀ slots, Covers ty slots (f slots x)) (slots : List Slot) :
    Covers ty slots (xs.foldl f slots) := by
  induction xs generalizing slots with
  | nil => exact refl
  | cons x xs ih =>
    obtain ⟨hx, hxs⟩ := List.forall_mem_cons.1 h
    exact (hx slots).trans (ih hxs _)

/-- Slots stay covered when the methods of a class are placed. -/
theorem slotsOf (o : Overriding) (replace : Bool) (c : ClassDef) (slots : List Slot) :
    Covers ty slots (placeAll o replace (ClassPath.slotsOf c ty) slots) := by
  refine foldl (fun entry hentry => place o replace ?_) slots
  obtain ⟨m, _, rfl⟩ := List.mem_map.1 ((List.mergeSort_perm _ _).mem_iff.1 hentry)
  rfl

end Covers

end ClassPath

/-- A node is above another, with nothing but classes below it on the way. -/
inductive ClassPath.Up (cp : ClassPath) : TypeNode → TypeNode → Prop where
  | refl (n : TypeNode) : Up cp n n
  | step {d : String} {n k : TypeNode} (hparent : cp.parent? (.cls d) = .ok (some n))
    (h : Up cp n k) : Up cp (.cls d) k

/-! ## Tables of members -/

/-- A kind of answers about classes, which tell what is at which place of an object. -/
structure Table (α β : Type) where
  /-- The member at a place. -/
  member? : α → Nat → Option β
  /-- The class that defines a member. -/
  definer : β → Ty
  /-- Whether two members have the same name and type. -/
  same : β → β → Prop
  same_refl : ∀ x, same x x
  same_trans : ∀ {x y z}, same x y → same y z → same x z
  /-- Whether this is the answer for a class below a cycle. -/
  blank : α → Prop
  /-- Whether a class below an array has an answer. -/
  skipsArrays : Prop

namespace Table

/-- Fields by offset. -/
def fields : Table Layout FieldRef where
  member? := Layout.fieldAt?
  definer := FieldRef.definer
  same f g := f.name = g.name ∧ f.ty = g.ty
  same_refl _ := ⟨rfl, rfl⟩
  same_trans h h' := ⟨h.1.trans h'.1, h.2.trans h'.2⟩
  blank _ := False
  skipsArrays := True

/-- Virtual methods by index. -/
def methods : Table Vtable Slot where
  member? v k := v.slots[k]?
  definer s := s.method.definer
  same s s' := s.method.sameSignature s'.method = true
  same_refl s := s.method.sameSignature_refl
  same_trans := MethodRef.sameSignature_trans
  blank v := v = ⟨[], false⟩
  skipsArrays := False

variable {α β : Type} (T : Table α β) (cp : ClassPath) (answers : List (String × α)) (d : String)
  (a : α)

/-- An answer for a class has all members that the answer for its superclass has. -/
structure Follows : Prop where
  kept : ∀ {name}, cp.parent? (.cls d) = .ok (some (.cls name)) → T.blank a ∨
    ∃ above, answers.lookup name = some above ∧ ¬ T.blank above ∧
      ∀ k y, T.member? above k = some y → ∃ x, T.member? a k = some x ∧ T.same x y
  array : ∀ {dims elem}, cp.parent? (.cls d) = .ok (some (.array dims elem)) → T.skipsArrays

/-- All other members are its own. -/
structure Extends : Prop extends T.Follows cp answers d a where
  owned : ∀ {k x}, T.member? a k = some x → (∃ c, cp.def? d = some c ∧ T.definer x = c.ty) ∨
    ∃ name above, TypeNode.Named (.cls name) ∧ answers.lookup name = some above ∧
      T.member? above k = some x

/-- Each member is found at the same place in the class that defines it. -/
structure Inherits : Prop extends T.Follows cp answers d a where
  owned : ∀ {k x}, T.member? a k = some x →
    ∃ owner c own, (owner = d ∨ TypeNode.Named (.cls owner)) ∧ cp.def? owner = some c ∧
      T.definer x = c.ty ∧ answers.lookup owner = some own ∧ T.member? own k = some x

/-- This is so for all answers in a memory. -/
def Inherited : Prop :=
  ∀ d a, answers.lookup d = some a → T.Inherits cp answers d a

variable {T cp answers d a} {m' : Memo}

/-- What follows from some answers follows from more. -/
theorem Follows.mono (h : T.Follows cp answers d a)
    (hwithin : ∀ d a, answers.lookup d = some a → answers'.lookup d = some a) :
    T.Follows cp answers' d a := by
  refine ⟨fun hparent => ?_, h.array⟩
  obtain hblank | ⟨above, habove, hkept⟩ := h.kept hparent
  · exact .inl hblank
  · exact .inr ⟨above, hwithin _ _ habove, hkept⟩

/-- A new answer that extends the others goes with them. -/
theorem Inherited.add (hm : T.Inherited cp answers) (hd : answers.lookup d = none)
    (ha : T.Extends cp answers d a) :
    T.Inherited cp ((d, a) :: answers) := by
  have hwithin : ∀ e b, answers.lookup e = some b → ((d, a) :: answers).lookup e = some b :=
    fun e b hb => lookup_cons_of_fresh hd hb
  intro e b hb
  rw [List.lookup_cons] at hb
  split at hb
  · next heq =>
    cases hb
    cases beq_iff_eq.1 heq
    refine ⟨ha.toFollows.mono hwithin, fun hx => ?_⟩
    obtain ⟨c, hc, hdefiner⟩ | ⟨name, above, hnamed, habove, hx⟩ := ha.owned hx
    · exact ⟨d, c, a, .inl rfl, hc, hdefiner, List.lookup_cons_self, hx⟩
    · obtain ⟨owner, c, own, howner, hc, hdefiner, hown, hx⟩ := (hm name above habove).owned hx
      refine ⟨owner, c, own, .inr ?_, hc, hdefiner, hwithin _ _ hown, hx⟩
      exact howner.elim (fun h => h ▸ hnamed) id
  · obtain ⟨hfollows, howned⟩ := hm e b hb
    refine ⟨hfollows.mono hwithin, fun hx => ?_⟩
    obtain ⟨owner, c, own, howner, hc, hdefiner, hown, hx⟩ := howned hx
    exact ⟨owner, c, own, howner, hc, hdefiner, hwithin _ _ hown, hx⟩

/-- All classes on the way up have answers, and the class that the way starts from has the members
of the last of them. -/
theorem Inherited.last_of_up (hm : T.Inherited cp answers) {k : TypeNode}
    (hup : cp.Up (.cls d) k) (ha : answers.lookup d = some a) (hblank : ¬ T.blank a) :
    ∃ e b, answers.lookup e = some b ∧
      (∀ j y, T.member? b j = some y → ∃ x, T.member? a j = some x ∧ T.same x y) ∧
      (k = .cls e ∨ cp.parent? (.cls e) = .ok (some k) ∧ ∀ name, k ≠ .cls name) := by
  generalize hn : TypeNode.cls d = n at hup
  induction hup generalizing d a with
  | refl n => exact ⟨d, a, ha, fun _ y hy => ⟨y, hy, T.same_refl y⟩, .inl hn.symm⟩
  | @step d₁ n k hparent h ih =>
    cases hn
    have other (hne : ∀ name, n ≠ .cls name) : ∃ e b, answers.lookup e = some b ∧
        (∀ j y, T.member? b j = some y → ∃ x, T.member? a j = some x ∧ T.same x y) ∧
        (k = .cls e ∨ cp.parent? (.cls e) = .ok (some k) ∧ ∀ name, k ≠ .cls name) := by
      cases h with
      | refl =>
        exact ⟨d₁, a, ha, fun _ y hy => ⟨y, hy, T.same_refl y⟩, .inr ⟨hparent, hne⟩⟩
      | step => exact absurd rfl (hne _)
    cases n with
    | cls name =>
      obtain hblank' | ⟨above, habove, hnot, hkept⟩ := (hm d₁ a ha).kept hparent
      · exact absurd hblank' hblank
      obtain ⟨e, b, hb, hmembers, hk⟩ := ih habove hnot rfl
      refine ⟨e, b, hb, fun j y hy => ?_, hk⟩
      obtain ⟨x, hx, hxy⟩ := hmembers j y hy
      obtain ⟨x', hx', hx'x⟩ := hkept j x hx
      exact ⟨x', hx', T.same_trans hx'x hxy⟩
    | primitive d => exact other nofun
    | unknown => exact other nofun
    | array dims elem => exact other nofun

end Table

/-! ## New answers -/

namespace ClassPath

open Table

variable {cp : ClassPath} {m m' : Memo} {d name : String} {c : ClassDef}

/-- A layout extends that of the superclass. -/
theorem extends_of_layout {above : Layout} (hd : cp.def? d = some c)
    (hparent : cp.parent? (.cls d) = .ok (some (.cls name)))
    (habove : m.layouts.lookup name = some above) :
    fields.Extends cp m.layouts d (extendLayout c above) where
  kept h := by
    cases hparent.symm.trans h
    exact .inr ⟨above, habove, id, fun _ y hy => ⟨y, fieldAt?_extendLayout hy, rfl, rfl⟩⟩
  array _ := trivial
  owned hx := by
    rcases of_fieldAt?_extendLayout hx with hx | hx
    · exact .inr ⟨name, above, named_of_parent? hparent, habove, hx⟩
    · exact .inl ⟨c, hd, hx⟩

theorem extends_of_no_layout (hd : cp.def? d = some c)
    (hparent : ∀ name, cp.parent? (.cls d) ≠ .ok (some (.cls name))) :
    fields.Extends cp m.layouts d (extendLayout c ⟨[]⟩) where
  kept h := absurd h (hparent _)
  array _ := trivial
  owned hx := by
    rcases of_fieldAt?_extendLayout hx with hx | hx
    · cases hx
    · exact .inl ⟨c, hd, hx⟩

/-- The layout that is collected for a class extends that of its superclass. -/
theorem finds_collectLayout {I : Memo → Prop} {inherited : String → Query Layout}
    (hd : cp.def? d = some c)
    (hin : ∀ name, Finds I (fun l m => m.layouts.lookup name = some l) (inherited name)) :
    Finds I (fun l m => fields.Extends cp m.layouts d l) (collectLayout inherited c) := by
  unfold collectLayout
  split
  · next hs =>
    refine .pure fun m _ => extends_of_no_layout hd fun name h => ?_
    rw [parent?_of_none hd hs] at h
    cases h
  · next s hs =>
    refine Finds.bind (.lift _) fun n hn => ?_
    obtain ⟨_, _, hn⟩ := hn
    have hparent := parent?_of_superclass hd hs hn
    have other (hne : ∀ name, n ≠ .cls name) :
        Finds I (fun l m => fields.Extends cp m.layouts d l)
          (pure (extendLayout c ⟨[]⟩) : Query Layout) := by
      refine .pure fun m _ => extends_of_no_layout hd fun name h => hne name ?_
      cases hparent.symm.trans h
      rfl
    cases n with
    | cls name =>
      exact Triple.bind (hin name) fun above m hm => ⟨hm.1, extends_of_layout hd hparent hm.2⟩
    | primitive d => exact other nofun
    | unknown => exact other nofun
    | array dims elem => exact other nofun

/-- The layout of a class is remembered behind those it extends. -/
theorem finds_layoutOf (cp : ClassPath) (d : String) :
    Finds (fun m => fields.Inherited cp m.layouts) (fun l m => m.layouts.lookup d = some l)
      (cp.layoutOf d) := by
  refine Unanswered.finds Memo.layouts ?_
  refine finds_layoutFrom (I := Unanswered Memo.layouts (fun m => fields.Inherited cp m.layouts))
    (Q := fun d l m => m.layouts.lookup d = some l)
    (R := fun d l m => fields.Extends cp m.layouts d l)
    (fun _ h => h) .enter .leave (fun hd hin => finds_collectLayout hd hin) ?_ [] d
  intro open_ d l m hopen hm hl
  exact ⟨hm.add hopen rfl fun hnone hI => hI.add hnone hl, List.lookup_cons_self⟩

/-! ## New vtables -/

/-- A vtable that covers that of the superclass extends it. -/
theorem extends_of_vtable {above v : Vtable} (hd : cp.def? d = some c)
    (hparent : cp.parent? (.cls d) = .ok (some (.cls name)))
    (habove : m.vtables.lookup name = some above) (hblank : ¬ methods.blank above)
    (hcovers : Covers c.ty above.slots v.slots) : methods.Extends cp m.vtables d v where
  kept h := by
    cases hparent.symm.trans h
    exact .inr ⟨above, habove, hblank, fun _ _ hy => hcovers.kept hy⟩
  array h := by cases hparent.symm.trans h
  owned hx := by
    rcases hcovers.owned hx with hx | hx
    · exact .inr ⟨name, above, named_of_parent? hparent, habove, hx⟩
    · exact .inl ⟨c, hd, hx⟩

theorem extends_of_no_vtable {v : Vtable} (hd : cp.def? d = some c)
    (hparent : cp.parent? (.cls d) = .ok none) (hcovers : Covers c.ty [] v.slots) :
    methods.Extends cp m.vtables d v where
  kept h := by cases hparent.symm.trans h
  array h := by cases hparent.symm.trans h
  owned hx := by
    rcases hcovers.owned hx with hx | hx
    · cases hx
    · exact .inl ⟨c, hd, hx⟩

theorem extends_of_blank (hparent : cp.parent? (.cls d) = .ok (some (.cls name))) :
    methods.Extends cp m.vtables d ⟨[], false⟩ where
  kept _ := .inl rfl
  array h := by cases hparent.symm.trans h
  owned hx := by cases hx

/-- A missing class has the vtable of the root class, not resolved. -/
theorem extends_of_missing {above : Vtable} (hd : cp.def? d = none)
    (habove : m.vtables.lookup objectClass = some above) :
    methods.Extends cp m.vtables d ⟨above.slots, false⟩ where
  kept h := by cases (parent?_of_missing hd).symm.trans h
  array h := by cases (parent?_of_missing hd).symm.trans h
  owned hx := .inr ⟨objectClass, above, TypeNode.named_object, habove, hx⟩

/-- An extended vtable is resolved, and covers the slots it extends. -/
theorem finds_extendVtable {I : Memo → Prop} (hi : ∀ d, Keeps I (cp.interfacesOf d)) (d : String)
    (c : ClassDef) (inherited : List Slot) :
    Finds I (fun v _ => v.resolved = true ∧ Covers c.ty inherited v.slots)
      (cp.extendVtable cp.interfacesOf d c inherited) := by
  unfold extendVtable
  split
  · exact .pure fun _ _ => ⟨rfl, .refl⟩
  · refine Finds.bind (Q := fun _ _ => True) ?_ fun interfaces _ => .pure fun _ _ => ⟨rfl, ?_⟩
    · exact (keeps_directInterfaces hi d).finds
    · exact (Covers.slotsOf _ true c inherited).trans
        (.foldl (fun i _ slots => .slotsOf _ false i slots) _)

/-- Below a superclass with a vtable. -/
theorem finds_vtable_below {I : Memo → Prop} {above : Vtable}
    (hi : ∀ d, Keeps (fun m => I m ∧ m.vtables.lookup name = some above) (cp.interfacesOf d))
    (hd : cp.def? d = some c) (hparent : cp.parent? (.cls d) = .ok (some (.cls name))) :
    Triple (fun m => I m ∧ m.vtables.lookup name = some above)
      (if above.resolved then cp.extendVtable cp.interfacesOf d c above.slots
        else pure ⟨above.slots, false⟩)
      (fun v m => I m ∧ methods.Extends cp m.vtables d v) fun _ m => I m := by
  split
  · next hresolved =>
    refine Triple.mono (finds_extendVtable hi d c above.slots) (fun _ hm => hm) ?_
      fun _ _ hm => hm.1
    rintro v m ⟨⟨hm, habove⟩, _, hcovers⟩
    refine ⟨hm, extends_of_vtable hd hparent habove ?_ hcovers⟩
    rintro rfl
    cases hresolved
  · next hresolved =>
    refine Triple.pure fun m hm => ⟨hm.1, ?_⟩
    by_cases hblank : methods.blank above
    · cases hblank
      exact extends_of_blank hparent
    · exact extends_of_vtable hd hparent hm.2 hblank .refl

/-- The vtable that is collected for a class extends that of its superclass. -/
theorem finds_collectVtable {I : Memo → Prop} {inherited : String → Query Vtable}
    (hi : ∀ name above d,
      Keeps (fun m => I m ∧ m.vtables.lookup name = some above) (cp.interfacesOf d))
    (hi' : ∀ d, Keeps I (cp.interfacesOf d)) (hd : cp.def? d = some c)
    (hin : ∀ name, Finds I (fun v m => m.vtables.lookup name = some v) (inherited name)) :
    Finds I (fun v m => methods.Extends cp m.vtables d v)
      (cp.collectVtable cp.interfacesOf inherited d c) := by
  unfold collectVtable
  split
  · next hs =>
    exact (finds_extendVtable hi' d c []).mono fun v m _ hv =>
      extends_of_no_vtable hd (parent?_of_none hd hs) hv.2
  · next s hs =>
    refine Finds.bind (.lift _) fun n hn => ?_
    obtain ⟨_, _, hn⟩ := hn
    have hparent := parent?_of_superclass hd hs hn
    cases n with
    | cls name =>
      refine Triple.bind (hin name).attempt fun answer m hm => ?_
      obtain ⟨hm, hanswer⟩ := hm
      cases answer with
      | ok above => exact finds_vtable_below (hi name above) hd hparent m ⟨hm, hanswer above rfl⟩
      | error e =>
        cases e with
        | cycle d => exact ⟨hm, extends_of_blank hparent⟩
        | _ => exact hm
    | primitive d => exact .throw _
    | unknown => exact .throw _
    | array dims elem => exact .throw _

/-- The vtable of a class is remembered behind those it extends. -/
theorem finds_vtableOf (cp : ClassPath) (d : String) :
    Finds (fun m => methods.Inherited cp m.vtables) (fun v m => m.vtables.lookup d = some v)
      (cp.vtableOf d) := by
  refine Unanswered.finds Memo.vtables ?_
  refine finds_vtableFrom (I := Unanswered Memo.vtables (fun m => methods.Inherited cp m.vtables))
    (Q := fun d v m => m.vtables.lookup d = some v)
    (R := fun d v m => methods.Extends cp m.vtables d v)
    (fun _ h => h) .enter .leave ?_ (fun hd _ h => extends_of_missing hd h) ?_ [] d
  · intro open_ d c inherited hd hin
    exact finds_collectVtable (fun _ _ => keeps_interfacesOf fun _ _ hm => hm)
      (keeps_interfacesOf fun _ _ hm => hm) hd hin
  · intro open_ d v m hopen hm hv
    exact ⟨hm.add hopen rfl fun hnone hI => hI.add hnone hv, List.lookup_cons_self⟩

/-! ## Asked memories -/

/-- Whatever was asked, the layouts that are remembered extend each other. -/
theorem inherited_fields (h : cp.Asked .empty m) : fields.Inherited cp m.layouts := by
  have hi : ∀ d, Keeps (fun m => fields.Inherited cp m.layouts) (cp.interfacesOf d) :=
    keeps_interfacesOf fun _ _ hm => hm
  refine h.keeps (I := fun m => fields.Inherited cp m.layouts)
    ⟨hi, keeps_vtableOf hi fun _ hm => hm, fun d => (finds_layoutOf cp d).keeps⟩ ?_
  intro d l hl
  cases hl

/-- Whatever was asked, the vtables that are remembered extend each other. -/
theorem inherited_methods (h : cp.Asked .empty m) : methods.Inherited cp m.vtables := by
  refine h.keeps (I := fun m => methods.Inherited cp m.vtables)
    ⟨keeps_interfacesOf fun _ _ hm => hm, fun d => (finds_vtableOf cp d).keeps,
      keeps_layoutOf fun _ hm => hm⟩ ?_
  intro d v hv
  cases hv

end ClassPath

end Dalvik
