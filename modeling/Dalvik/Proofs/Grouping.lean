import Dalvik.Proofs.Layouts

/-!
# Layouts are grouped and compact

A class places its fields in four groups: its references, at most one narrow field that fills the
gap after them, its wide fields, and its other narrow fields.  The gap is there if the references
end halfway between two multiples of eight, and it stays open only if the class has no narrow field
(`grouped_arrange`).

So the number of fields of each kind says where the fields of a class end (`Grouped.placeEnd_eq`).
No byte is lost but the gap, and the gap only before a wide field.
-/

namespace Dalvik

namespace ClassPath

variable {start : Nat} {fields refs gap wides rest : List FieldRef} {f : FieldRef}

/-! ## Groups -/

/-- Fields that are put into groups, for the first free offset. -/
structure Grouped (start : Nat) (fields refs gap wides rest : List FieldRef) : Prop where
  perm : (refs ++ gap ++ (wides ++ rest)).Perm fields
  references : ∀ f ∈ refs, isReferenceField f = true
  narrowGap : ∀ f ∈ gap, isNarrowField f = true
  wide : ∀ f ∈ wides, isWideField f = true
  narrow : ∀ f ∈ rest, isNarrowField f = true
  filled : gap.length =
    if (start + 4 * refs.length) % 8 ≠ 0 ∧ 0 < fields.countP isNarrowField then 1 else 0

theorem isNarrowField_iff :
    isNarrowField f = true ↔ isReferenceField f = false ∧ isWideField f = false := by
  simp [isNarrowField]

theorem not_isNarrowField_of_isWideField (h : isWideField f = true) : isNarrowField f = false := by
  simp [isNarrowField, h]

theorem not_isNarrowField_of_isReferenceField (h : isReferenceField f = true) :
    isNarrowField f = false := by
  simp [isNarrowField, h]

theorem not_isReferenceField_of_isWideField (h : isWideField f = true) :
    isReferenceField f = false := by
  cases href : isReferenceField f with
  | false => rfl
  | true => cases h.symm.trans (not_isWideField_of_isReferenceField href)

theorem takeWhile_dropWhile_append {α : Type} {p : α → Bool} {front back : List α}
    (hfront : ∀ x ∈ front, p x = true) (hback : ∀ x ∈ back, p x = false) :
    (front ++ back).takeWhile p = front ∧ (front ++ back).dropWhile p = back := by
  have hcut : back.takeWhile p = [] ∧ back.dropWhile p = back := by
    cases back with
    | nil => exact ⟨rfl, rfl⟩
    | cons x back => simp [hback x]
  rw [List.takeWhile_append_of_pos hfront, List.dropWhile_append_of_pos hfront, hcut.1, hcut.2]
  simp

/-- Among fields that are no references, a gap is filled if one of them is narrow. -/
theorem length_fillGap (h : ∀ f ∈ fields, isReferenceField f = false) :
    (∀ f ∈ (fillGap fields).1, isNarrowField f = true) ∧
      (fillGap fields).1.length = if 0 < fields.countP isNarrowField then 1 else 0 := by
  cases fields with
  | nil => exact ⟨List.forall_mem_nil _, rfl⟩
  | cons x others =>
    obtain ⟨hx, hothers⟩ := List.forall_mem_cons.1 h
    simp only [fillGap]
    by_cases hwide : isWideField x = true
    · rw [if_pos hwide]
      have hcount : (x :: others).countP isNarrowField = others.countP isNarrowField :=
        List.countP_cons_of_neg (by simp [not_isNarrowField_of_isWideField hwide])
      rw [hcount]
      cases hcut : splitLast? isNarrowField others with
      | none =>
        refine ⟨List.forall_mem_nil _, ?_⟩
        rw [List.countP_eq_zero.2 fun f hf => by simp [not_mem_of_splitLast?_none hcut f hf]]
        rfl
      | some cut =>
        obtain ⟨before, y, after⟩ := cut
        have hy := (last_of_splitLast? hcut).1
        have hmem : y ∈ others := by rw [eq_of_splitLast? hcut]; simp
        refine ⟨by simpa using hy, ?_⟩
        rw [if_pos (List.countP_pos_iff.2 ⟨y, hmem, hy⟩)]
        rfl
    · rw [if_neg hwide]
      have hnarrow : isNarrowField x = true := isNarrowField_iff.2 ⟨hx, Bool.eq_false_iff.2 hwide⟩
      refine ⟨by simpa using hnarrow, ?_⟩
      rw [if_pos (List.countP_pos_iff.2 ⟨x, List.mem_cons_self, hnarrow⟩)]
      rfl

theorem countP_none {α : Type} {p : α → Bool} {l : List α} (h : ∀ x ∈ l, p x = false) :
    l.countP p = 0 :=
  List.countP_eq_zero.2 fun x hx => by simp [h x hx]

/-- The references of a class, the others, and the field that fills the gap after them. -/
theorem arrange_eq (start : Nat) (fields : List FieldRef) :
    ∃ refs others, (refs ++ others).Perm fields ∧ (∀ f ∈ refs, isReferenceField f = true) ∧
      (∀ f ∈ others, isReferenceField f = false) ∧
      ∀ filled, filled = (if (start + 4 * refs.length) % 8 ≠ 0 then fillGap others
        else ([], others)) →
        arrange start fields = refs ++ filled.1 ++ bringForward isWideField filled.2 := by
  obtain ⟨refs, others, hgrouped, hrefs, hothers⟩ :=
    bringForward_eq_append isReferenceField (fields.mergeSort fun a b =>
      Text.listLe [a.name, a.ty.descriptor] [b.name, b.ty.descriptor])
  obtain ⟨htake, hdrop⟩ := takeWhile_dropWhile_append hrefs hothers
  refine ⟨refs, others, ?_, hrefs, hothers, ?_⟩
  · rw [← hgrouped]
    exact (perm_bringForward _ _).trans (List.mergeSort_perm fields _)
  · rintro _ rfl
    simp only [arrange, hgrouped, htake, hdrop]

/-- The fields of a class are arranged in groups. -/
theorem grouped_arrange (start : Nat) (fields : List FieldRef) :
    ∃ refs gap wides rest, arrange start fields = refs ++ gap ++ (wides ++ rest) ∧
      Grouped start fields refs gap wides rest := by
  obtain ⟨refs, others, hperm, hrefs, hothers, harrange⟩ := arrange_eq start fields
  have hcount : others.countP isNarrowField = fields.countP isNarrowField := by
    rw [← hperm.countP_eq, List.countP_append, countP_none fun f hf =>
      not_isNarrowField_of_isReferenceField (hrefs f hf), Nat.zero_add]
  generalize hfilled : (if (start + 4 * refs.length) % 8 ≠ 0 then fillGap others
    else ([], others)) = filled at harrange
  have hgap : (∀ f ∈ filled.1, isNarrowField f = true) ∧ (filled.1 ++ filled.2).Perm others ∧
      filled.1.length = if (start + 4 * refs.length) % 8 ≠ 0 ∧ 0 < fields.countP isNarrowField
        then 1 else 0 := by
    rw [← hfilled, ← hcount]
    split
    · next hodd =>
      obtain ⟨hnarrow, hlength⟩ := length_fillGap hothers
      refine ⟨hnarrow, perm_fillGap others, ?_⟩
      simp only [hlength, hodd, ne_eq, not_false_eq_true, true_and]
    · next heven => exact ⟨List.forall_mem_nil _, .refl _, by simp [heven]⟩
  obtain ⟨hnarrow, hothersPerm, hlength⟩ := hgap
  obtain ⟨wides, rest, hwides, hwide, hrest⟩ := bringForward_eq_append isWideField filled.2
  have hmem : ∀ f ∈ rest, f ∈ others := by
    intro f hf
    refine hothersPerm.mem_iff.1 (List.mem_append_right _ ?_)
    exact (perm_bringForward isWideField filled.2).mem_iff.1 (by simp [hwides, hf])
  have heq : arrange start fields = refs ++ filled.1 ++ (wides ++ rest) := by
    rw [harrange filled rfl, hwides]
  refine ⟨refs, filled.1, wides, rest, heq, ?_, hrefs, hnarrow, hwide, fun f hf => ?_, hlength⟩
  · rw [← heq]
    exact perm_arrange start fields
  · exact isNarrowField_iff.2 ⟨hothers f (hmem f hf), hrest f hf⟩

/-- The groups are as long as there are fields of their kinds. -/
theorem Grouped.lengths (h : Grouped start fields refs gap wides rest) :
    refs.length = fields.countP isReferenceField ∧ wides.length = fields.countP isWideField ∧
      gap.length + rest.length = fields.countP isNarrowField := by
  simp only [← h.perm.countP_eq, List.countP_append]
  refine ⟨?_, ?_, ?_⟩
  · rw [List.countP_eq_length.2 h.references,
      countP_none fun f hf => (isNarrowField_iff.1 (h.narrowGap f hf)).1,
      countP_none fun f hf => not_isReferenceField_of_isWideField (h.wide f hf),
      countP_none fun f hf => (isNarrowField_iff.1 (h.narrow f hf)).1]
    rfl
  · rw [List.countP_eq_length.2 h.wide,
      countP_none fun f hf => not_isWideField_of_isReferenceField (h.references f hf),
      countP_none fun f hf => (isNarrowField_iff.1 (h.narrowGap f hf)).2,
      countP_none fun f hf => (isNarrowField_iff.1 (h.narrow f hf)).2]
    omega
  · rw [List.countP_eq_length.2 h.narrowGap, List.countP_eq_length.2 h.narrow,
      countP_none fun f hf => not_isNarrowField_of_isReferenceField (h.references f hf),
      countP_none fun f hf => not_isNarrowField_of_isWideField (h.wide f hf)]
    omega

/-! ## Where the fields of a class end -/

/-- The offset after fields that are placed from an offset on. -/
def placeEnd (offset : Nat) (aligned : Bool) : List FieldRef → Nat
  | [] => offset
  | f :: rest =>
    if f.ty.isWide then
      placeEnd ((if !aligned && offset % 8 != 0 then offset + 4 else offset) + 8) true rest
    else placeEnd (offset + 4) aligned rest

/-- The layout with these fields on top ends there. -/
theorem next_placeFields (fields : List FieldRef) (aligned : Bool) {offset : Nat}
    {ps : List Placed} (h : (⟨ps⟩ : Layout).next = offset) :
    (⟨ps ++ placeFields offset aligned fields⟩ : Layout).next = placeEnd offset aligned fields := by
  induction fields generalizing offset aligned ps with
  | nil => simpa [placeFields, placeEnd] using h
  | cons f fields ih =>
    have hnext (p : Placed) : (⟨ps ++ [p]⟩ : Layout).next = p.offset + p.size :=
      Layout.next_of_append rfl
    cases hwide : f.ty.isWide with
    | true =>
      simp only [placeFields, placeEnd, hwide, if_true]
      rw [List.append_cons]
      exact ih true ((hnext _).trans (by simp [Placed.size, hwide]))
    | false =>
      simp only [placeFields, placeEnd, hwide, Bool.false_eq_true, if_false]
      rw [List.append_cons]
      exact ih aligned ((hnext _).trans (by simp [Placed.size, hwide]))

theorem placeEnd_narrow {offset : Nat} {aligned : Bool} {before : List FieldRef}
    (h : ∀ f ∈ before, isWideField f = false) (fields : List FieldRef) :
    placeEnd offset aligned (before ++ fields) =
      placeEnd (offset + 4 * before.length) aligned fields := by
  induction before generalizing offset with
  | nil => rfl
  | cons f before ih =>
    obtain ⟨hf, hbefore⟩ := List.forall_mem_cons.1 h
    have hwide : f.ty.isWide = false := hf
    simp only [List.cons_append, placeEnd, hwide, Bool.false_eq_true, if_false, ih hbefore,
      List.length_cons]
    congr 1
    omega

theorem placeEnd_aligned {offset : Nat} {block : List FieldRef}
    (h : ∀ f ∈ block, isWideField f = true) (fields : List FieldRef) :
    placeEnd offset true (block ++ fields) = placeEnd (offset + 8 * block.length) true fields := by
  induction block generalizing offset with
  | nil => rfl
  | cons f block ih =>
    obtain ⟨hf, hblock⟩ := List.forall_mem_cons.1 h
    have hwide : f.ty.isWide = true := hf
    simp only [List.cons_append, placeEnd, hwide, if_true, Bool.not_true, Bool.false_and,
      Bool.false_eq_true, if_false, ih hblock, List.length_cons]
    congr 1
    omega

/-- Before the first wide field a word may be left free. -/
theorem placeEnd_wides {offset : Nat} (hwides : ∀ f ∈ wides, isWideField f = true)
    (hrest : ∀ f ∈ rest, isWideField f = false) :
    placeEnd offset false (wides ++ rest) =
      offset + (if 0 < wides.length ∧ offset % 8 ≠ 0 then 4 else 0) + 8 * wides.length +
        4 * rest.length := by
  have hend (offset : Nat) (aligned : Bool) :
      placeEnd offset aligned rest = offset + 4 * rest.length := by
    rw [← List.append_nil rest, placeEnd_narrow hrest]
    simp [placeEnd]
  cases wides with
  | nil => simp [hend]
  | cons f wides =>
    obtain ⟨hf, hwides⟩ := List.forall_mem_cons.1 hwides
    have hwide : f.ty.isWide = true := hf
    simp only [List.cons_append, placeEnd, hwide, if_true, Bool.not_false, Bool.true_and,
      bne_iff_ne, placeEnd_aligned hwides, hend, List.length_cons, Nat.zero_lt_succ, true_and]
    split <;> omega

/-- The fields of a class take the bytes of their sizes, and a word more if there is a gap before
the wide fields and nothing to fill it. -/
theorem Grouped.placeEnd_eq (h : Grouped start fields refs gap wides rest) (hstart : 4 ∣ start) :
    placeEnd start false (refs ++ gap ++ (wides ++ rest)) =
      start + 4 * fields.countP isReferenceField + 8 * fields.countP isWideField +
        4 * fields.countP isNarrowField +
        (if 0 < fields.countP isWideField ∧ fields.countP isNarrowField = 0 ∧
          (start + 4 * fields.countP isReferenceField) % 8 ≠ 0 then 4 else 0) := by
  obtain ⟨hrefs, hwides, hnarrow⟩ := h.lengths
  have hfilled := h.filled
  have hbefore : ∀ f ∈ refs ++ gap, isWideField f = false :=
    List.forall_mem_append.2 ⟨fun f hf => not_isWideField_of_isReferenceField (h.references f hf),
      fun f hf => (isNarrowField_iff.1 (h.narrowGap f hf)).2⟩
  have hrest : ∀ f ∈ rest, isWideField f = false :=
    fun f hf => (isNarrowField_iff.1 (h.narrow f hf)).2
  rw [placeEnd_narrow hbefore, placeEnd_wides h.wide hrest, List.length_append, ← hrefs, ← hwides,
    ← hnarrow]
  rw [← hnarrow] at hfilled
  split at hfilled <;> split <;> split <;> omega

/-! ## Layouts of classes -/

variable {cp : ClassPath} {d : String} {l : Layout} {m m' : Memo}

/-- The layout of a class is that of its superclass with its own fields on top. -/
theorem extends_of_layoutOf (hm : cp.Asked .empty m) (h : cp.layoutOf d m = .ok l m') :
    ∃ c above, cp.def? d = some c ∧ l = extendLayout c above ∧
      Stacked Layout.header above.fields ∧
      (∀ name, cp.Extends d name → ∀ m₁, cp.Asked .empty m₁ →
        (cp.layoutOf name).answer m₁ = .ok above) ∧
      ((∀ name, ¬ cp.Extends d name) → above = ⟨[]⟩) := by
  obtain ⟨hquiet, hdetermined⟩ := determined_of_layoutOf hm (Asking.answer_ok h)
  generalize hr : (Except.ok l : Except HierarchyError Layout) = r at hdetermined
  obtain ⟨hnext⟩ := hdetermined
  obtain ⟨c, above, hd, rfl, ⟨name, hname, href⟩ | ⟨hnone, rfl⟩⟩ := layoutBy_ok hr.symm
  · have habove := href ▸ hnext name hname
    refine ⟨c, above, hd, rfl, stacked_of_determined habove rfl, fun name' hname' m₁ hm₁ => ?_,
      fun hnone => absurd hname (hnone name)⟩
    cases hname.symm.trans hname'
    exact layoutOf_of_determined (hquiet.of_step hname) habove hm₁
  · exact ⟨c, ⟨[]⟩, hd, rfl, .nil, fun name hname => absurd hname (hnone name), fun _ => rfl⟩

/-- The fields that a class declares lie in groups above those of its superclass: all references,
then one narrow field if the references end halfway between two multiples of eight and there is
one, then all wide fields, then the other narrow fields.  They take the bytes of their sizes, and
one word more if wide fields follow such a gap and there is no narrow field. -/
theorem layout_grouped (hm : cp.Asked .empty m) (h : cp.layoutOf d m = .ok l m') :
    ∃ c above own, cp.def? d = some c ∧ l.fields = above.fields ++ own ∧
      (∀ name, cp.Extends d name → ∀ m₁, cp.Asked .empty m₁ →
        (cp.layoutOf name).answer m₁ = .ok above) ∧
      ((∀ name, ¬ cp.Extends d name) → above.next = 8) ∧
      own.Pairwise (fun p q => p.offset < q.offset) ∧
      (own.map Placed.field).Perm (c.instanceFields.map fun f => f.ref c.ty) ∧
      let s := above.next
      let r := c.instanceFields.countP fun f => f.ty.isReference
      let w := c.instanceFields.countP fun f => f.ty.isWide
      let o := c.instanceFields.countP fun f => !f.ty.isReference && !f.ty.isWide
      (∃ refs gap wides rest, own.map Placed.field = refs ++ gap ++ (wides ++ rest) ∧
        (∀ f ∈ refs, f.ty.isReference = true) ∧ refs.length = r ∧
        (∀ f ∈ gap, f.ty.isReference = false ∧ f.ty.isWide = false) ∧
        gap.length = (if (s + 4 * r) % 8 ≠ 0 ∧ 0 < o then 1 else 0) ∧
        (∀ f ∈ wides, f.ty.isWide = true) ∧ wides.length = w ∧
        (∀ f ∈ rest, f.ty.isReference = false ∧ f.ty.isWide = false) ∧
        gap.length + rest.length = o) ∧
      l.next = s + 4 * r + 8 * w + 4 * o +
        (if 0 < w ∧ o = 0 ∧ (s + 4 * r) % 8 ≠ 0 then 4 else 0) := by
  obtain ⟨c, above, hd, rfl, hstacked, habove, hnone⟩ := extends_of_layoutOf hm h
  let fields := c.instanceFields.map fun f => f.ref c.ty
  have hword : 4 ∣ above.next := (Layout.next_of_stacked hstacked).2.1
  obtain ⟨refs, gap, wides, rest, harrange, hgrouped⟩ := grouped_arrange above.next fields
  obtain ⟨hrefs, hwides, hnarrow⟩ := hgrouped.lengths
  have hown := stacked_placeFields hword (together_arrange above.next fields)
  refine ⟨c, above, placeFields above.next false (arrange above.next fields), hd, rfl, habove,
    fun hroot => ?_, hown.increasing, ?_, ?_⟩
  · rw [hnone hroot]
    rfl
  · rw [map_field_placeFields]
    exact perm_arrange _ _
  intro s r w o
  have hr : fields.countP isReferenceField = r := List.countP_map
  have hw : fields.countP isWideField = w := List.countP_map
  have ho : fields.countP isNarrowField = o := List.countP_map
  have hfilled := hgrouped.filled
  have hend := hgrouped.placeEnd_eq hword
  rw [hr] at hrefs
  rw [hrefs, ho] at hfilled
  rw [hr, hw, ho, ← harrange] at hend
  refine ⟨⟨refs, gap, wides, rest, (map_field_placeFields _ _ _).trans harrange,
    hgrouped.references, hrefs, fun f hf => isNarrowField_iff.1 (hgrouped.narrowGap f hf), hfilled,
    hgrouped.wide, hwides.trans hw, fun f hf => isNarrowField_iff.1 (hgrouped.narrow f hf),
    hnarrow.trans ho⟩, ?_⟩
  exact (next_placeFields _ false rfl).trans hend

/-- A class with fields of all kinds whose reference ends halfway between two multiples of eight,
and a class below it with a wide field only. -/
def gapped : ClassPath := .ofClasses
  [{ ty := .cls "A", fields := [⟨"a", .long, .none⟩, ⟨"b", .int, .none⟩, ⟨"c", .cls "A", .none⟩,
      ⟨"d", .boolean, .none⟩] },
    { ty := .cls "B", superclass? := some (.cls "A"), fields := [⟨"e", .double, .none⟩] }]
  defaultLevel

/-- The gap of the first class is filled, and that of the second stays open. -/
theorem layout_grouped_gapped :
    ∃ l m l' m', gapped.layoutOf "LA;" .empty = .ok l m ∧ gapped.layoutOf "LB;" .empty = .ok l' m' ∧
      (∃ above own refs gap wides rest, l.fields = above ++ own ∧
        own.map Placed.field = refs ++ gap ++ (wides ++ rest) ∧
        refs.length = 1 ∧ gap.length = 1 ∧ wides.length = 1 ∧ gap.length + rest.length = 2) ∧
      l.next = 28 ∧ l'.next = 40 := by
  have hA : ∃ l m, gapped.layoutOf "LA;" .empty = .ok l m := by decide +kernel
  have hB : ∃ l m, gapped.layoutOf "LB;" .empty = .ok l m := by decide +kernel
  obtain ⟨l, m, hl⟩ := hA
  obtain ⟨l', m', hl'⟩ := hB
  have hroot : gapped.parent? (.cls "LA;") = .ok none := rfl
  have hnone : ∀ name, ¬ gapped.Extends "LA;" name := fun name h => by cases hroot.symm.trans h
  obtain ⟨c, above, own, hc, hfields, _, hstart, _, _, hgroups, hnext⟩ := layout_grouped .refl hl
  obtain ⟨c', above', _, hc', _, habove, _, _, _, _, hnext'⟩ := layout_grouped .refl hl'
  cases (rfl : gapped.def? "LA;" = some _).symm.trans hc
  cases (rfl : gapped.def? "LB;" = some _).symm.trans hc'
  rw [hstart hnone] at hnext hgroups
  have hA : l.next = 28 := hnext
  cases (habove "LA;" rfl .empty .refl).symm.trans (Asking.answer_ok hl)
  rw [hA] at hnext'
  obtain ⟨refs, gap, wides, rest, hown, _, hrefs, _, hgap, _, hwides, _, hrest⟩ := hgroups
  exact ⟨l, m, l', m', hl, hl', ⟨above.fields, own, refs, gap, wides, rest, hfields, hown, hrefs,
    hgap, hwides, hrest⟩, hA, hnext'⟩

end ClassPath

end Dalvik
