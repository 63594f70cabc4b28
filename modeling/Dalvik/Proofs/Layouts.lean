import Dalvik.Proofs.Tables
import Dalvik.Search
import Mathlib.Data.List.Basic

/-!
# Well-formed layouts

In a layout no two fields share a byte, and no field lies across a boundary that its size forbids.
Fields are placed one after another, and only the first wide field of a class is aligned.  That is
enough, since the wide fields of a class stand together (`Together`): after the first of them each
starts where the one before it ends.

`Stacked` is what holds of a list of placed fields from an offset on.  It is kept when a class puts
its fields on top of those of its superclass, so it holds along every chain of superclasses
(`stacked_of_determined`).
-/

namespace Dalvik

/-- The bytes that a field takes. -/
def Placed.bytes (p : Placed) : List Nat := List.range' p.offset p.size

/-- Fields placed from an offset on, one above the other, each where its size allows. -/
structure Stacked (start : Nat) (ps : List Placed) : Prop where
  above : ∀ p ∈ ps, start ≤ p.offset
  words : ∀ p ∈ ps, 4 ∣ p.offset
  wide : ∀ p ∈ ps, p.field.ty.isWide = true → 8 ∣ p.offset
  apart : ps.Pairwise fun p q => p.offset + p.size ≤ q.offset

theorem Placed.size_pos (p : Placed) : 0 < p.size := by
  simp only [Placed.size]
  split <;> omega

theorem Placed.four_dvd_size (p : Placed) : 4 ∣ p.size := by
  simp only [Placed.size]
  split <;> omega

namespace Stacked

variable {start stop : Nat} {p q : Placed} {ps qs : List Placed}

theorem nil : Stacked start [] := ⟨by simp, by simp, by simp, .nil⟩

/-- A field below the others. -/
theorem cons (hstart : start ≤ p.offset) (hword : 4 ∣ p.offset)
    (hwide : p.field.ty.isWide = true → 8 ∣ p.offset) (h : Stacked (p.offset + p.size) ps) :
    Stacked start (p :: ps) where
  above := by
    intro q hq
    rcases List.mem_cons.1 hq with rfl | hq
    · exact hstart
    · have := h.above q hq
      omega
  words := List.forall_mem_cons.2 ⟨hword, h.words⟩
  wide := List.forall_mem_cons.2 ⟨hwide, h.wide⟩
  apart := List.pairwise_cons.2 ⟨h.above, h.apart⟩

/-- Some fields on top of others. -/
theorem append (h : Stacked start ps) (hstop : start ≤ stop)
    (hends : ∀ p ∈ ps, p.offset + p.size ≤ stop) (h' : Stacked stop qs) :
    Stacked start (ps ++ qs) where
  above := List.forall_mem_append.2 ⟨h.above, fun q hq => Nat.le_trans hstop (h'.above q hq)⟩
  words := List.forall_mem_append.2 ⟨h.words, h'.words⟩
  wide := List.forall_mem_append.2 ⟨h.wide, h'.wide⟩
  apart := List.pairwise_append.2
    ⟨h.apart, h'.apart, fun p hp q hq => Nat.le_trans (hends p hp) (h'.above q hq)⟩

theorem increasing (h : Stacked start ps) : ps.Pairwise fun p q => p.offset < q.offset := by
  refine h.apart.imp fun {p q} hpq => ?_
  have := p.size_pos
  omega

theorem disjoint (h : Stacked start ps) : ps.Pairwise fun p q => p.bytes.Disjoint q.bytes := by
  refine h.apart.imp fun {p q} hpq byte hp hq => ?_
  simp only [Placed.bytes, List.mem_range'_1] at hp hq
  omega

/-- At an offset lies the field that was placed there, and no other. -/
theorem find?_eq_some_iff (h : Stacked start ps) {offset : Nat} :
    ps.find? (fun p => p.offset == offset) = some p ↔ p ∈ ps ∧ p.offset = offset := by
  constructor
  · intro hfind
    exact ⟨List.mem_of_find?_eq_some hfind, by simpa using List.find?_some hfind⟩
  · rintro ⟨hp, rfl⟩
    induction ps with
    | nil => cases hp
    | cons q ps ih =>
      obtain ⟨hq, hps⟩ := List.pairwise_cons.1 h.increasing
      rcases List.mem_cons.1 hp with rfl | hp
      · simp
      · have hne : q.offset ≠ p.offset := Nat.ne_of_lt (hq p hp)
        have hrest : Stacked start ps :=
          ⟨fun q hq => h.above q (.tail _ hq), fun q hq => h.words q (.tail _ hq),
            fun q hq => h.wide q (.tail _ hq), (List.pairwise_cons.1 h.apart).2⟩
        simpa [hne] using ih hrest hp

end Stacked

namespace Layout

variable {l : Layout}

theorem next_of_append {ps : List Placed} {p : Placed} (h : l.fields = ps ++ [p]) :
    l.next = p.offset + p.size := by
  simp [next, h]

/-- All fields end before the next free offset, which is a multiple of a word. -/
theorem next_of_stacked (h : Stacked header l.fields) :
    header ≤ l.next ∧ 4 ∣ l.next ∧ ∀ p ∈ l.fields, p.offset + p.size ≤ l.next := by
  rcases List.eq_nil_or_concat l.fields with hnil | ⟨ps, last, hlast⟩
  · simp [next, hnil, header]
  · rw [List.concat_eq_append] at hlast
    rw [next_of_append hlast]
    have hmem : last ∈ l.fields := by simp [hlast]
    refine ⟨?_, ?_, fun p hp => ?_⟩
    · have := h.above last hmem
      omega
    · exact Nat.dvd_add (h.words last hmem) last.four_dvd_size
    · have hapart := h.apart
      rw [hlast] at hp hapart
      rcases List.mem_append.1 hp with hp | hp
      · have hend := (List.pairwise_append.1 hapart).2.2 p hp last (by simp)
        omega
      · cases List.mem_singleton.1 hp
        exact Nat.le_refl _

/-- At an offset there is the field that is listed with it. -/
theorem fieldAt?_eq_some_iff (h : Stacked header l.fields) {offset : Nat} {f : FieldRef} :
    l.fieldAt? offset = some f ↔ ⟨offset, f⟩ ∈ l.fields := by
  simp only [fieldAt?, Option.map_eq_some_iff, h.find?_eq_some_iff]
  constructor
  · rintro ⟨p, ⟨hp, rfl⟩, rfl⟩
    exact hp
  · exact fun hmem => ⟨_, ⟨hmem, rfl⟩, rfl⟩

/-- The field that a search for its offset by halves ends at. -/
def searchField? (l : Layout) (offset : Nat) : Option FieldRef :=
  (search? offset (l.fields.map Placed.offset)).bind fun i => (l.fields[i]?).map Placed.field

/-- Halving finds the field at an offset, since offsets increase. -/
theorem fieldAt?_eq_searchField? (h : Stacked header l.fields) (offset : Nat) :
    l.fieldAt? offset = l.searchField? offset := by
  have hincreasing : (l.fields.map Placed.offset).Pairwise (· < ·) :=
    List.pairwise_map.2 h.increasing
  refine Option.ext fun f => (fieldAt?_eq_some_iff h).trans ?_
  simp only [searchField?, Option.bind_eq_some_iff, search?_eq_some_iff hincreasing,
    List.getElem?_map, Option.map_eq_some_iff, List.mem_iff_getElem?]
  constructor
  · rintro ⟨i, hi⟩
    exact ⟨i, ⟨_, hi, rfl⟩, _, hi, rfl⟩
  · rintro ⟨i, ⟨p, hp, rfl⟩, q, hq, rfl⟩
    cases hp.symm.trans hq
    exact ⟨i, hp⟩

end Layout

namespace ClassPath

/-! ## Fields that stand together -/

/-- The elements with a property stand next to each other. -/
def Together {α : Type} (p : α → Bool) (l : List α) : Prop :=
  ∃ before block after, l = before ++ (block ++ after) ∧ (∀ x ∈ before, p x = false) ∧
    (∀ x ∈ block, p x = true) ∧ ∀ x ∈ after, p x = false

section Grouping

variable {α : Type} {p : α → Bool} {l before after : List α} {y : α}

theorem not_mem_of_splitLast?_none (h : splitLast? p l = none) : ∀ x ∈ l, p x = false := by
  induction l with
  | nil => simp
  | cons x rest ih =>
    cases hrest : splitLast? p rest with
    | some cut => simp [splitLast?, hrest] at h
    | none =>
      simp only [splitLast?, hrest] at h
      split at h
      · cases h
      · next hx => exact List.forall_mem_cons.2 ⟨Bool.eq_false_iff.2 hx, ih hrest⟩

/-- The element at which a list is cut has the property, and none after it has. -/
theorem last_of_splitLast? (h : splitLast? p l = some (before, y, after)) :
    p y = true ∧ ∀ x ∈ after, p x = false := by
  induction l generalizing before with
  | nil => cases h
  | cons x rest ih =>
    cases hrest : splitLast? p rest with
    | some cut =>
      simp only [splitLast?, hrest, Option.some.injEq, Prod.mk.injEq] at h
      obtain ⟨_, rfl, rfl⟩ := h
      exact ih hrest
    | none =>
      simp only [splitLast?, hrest] at h
      split at h
      · next hx =>
        cases h
        exact ⟨hx, not_mem_of_splitLast?_none hrest⟩
      · cases h

/-- The elements with the property come first. -/
theorem bringForward_eq_append (p : α → Bool) (l : List α) :
    ∃ front back, bringForward p l = front ++ back ∧ (∀ x ∈ front, p x = true) ∧
      ∀ x ∈ back, p x = false := by
  fun_induction bringForward p l with
  | case1 => exact ⟨[], [], rfl, by simp, by simp⟩
  | case2 x rest hx ih =>
    obtain ⟨front, back, heq, hfront, hback⟩ := ih
    exact ⟨x :: front, back, by rw [heq, List.cons_append],
      List.forall_mem_cons.2 ⟨hx, hfront⟩, hback⟩
  | case3 x rest hx hnone =>
    exact ⟨[], x :: rest, rfl, by simp, List.forall_mem_cons.2
      ⟨Bool.eq_false_iff.2 hx, not_mem_of_splitLast?_none hnone⟩⟩
  | case4 x rest hx before y after hcut ih =>
    obtain ⟨front, back, heq, hfront, hback⟩ := ih
    obtain ⟨hy, hafter⟩ := last_of_splitLast? hcut
    refine ⟨y :: front, back ++ x :: after, by simp [heq],
      List.forall_mem_cons.2 ⟨hy, hfront⟩, List.forall_mem_append.2 ⟨hback, ?_⟩⟩
    exact List.forall_mem_cons.2 ⟨Bool.eq_false_iff.2 hx, hafter⟩

theorem together_append_bringForward (h : ∀ x ∈ before, p x = false) :
    Together p (before ++ bringForward p l) := by
  obtain ⟨front, back, heq, hfront, hback⟩ := bringForward_eq_append p l
  exact ⟨before, front, back, by rw [heq], h, hfront, hback⟩

end Grouping

theorem not_isWideField_of_isReferenceField {f : FieldRef} (h : isReferenceField f = true) :
    isWideField f = false := by
  unfold isReferenceField at h
  unfold isWideField
  cases hty : f.ty with
  | cls | array => rfl
  | _ =>
    rw [hty] at h
    cases h

/-- What fills a gap is narrow. -/
theorem narrow_of_fillGap {fields : List FieldRef} :
    ∀ f ∈ (fillGap fields).1, isWideField f = false := by
  cases fields with
  | nil => simp [fillGap]
  | cons x rest =>
    simp only [fillGap]
    split
    · split
      · next before y after hcut =>
        have hy := (last_of_splitLast? hcut).1
        simp only [isNarrowField, Bool.and_eq_true, Bool.not_eq_true'] at hy
        simpa using hy.2
      · simp
    · next hx => simpa using hx

/-- References and what fills the gap after them come first, then the wide fields. -/
theorem together_arrange (start : Nat) (fields : List FieldRef) :
    Together isWideField (arrange start fields) := by
  simp only [arrange]
  refine together_append_bringForward (List.forall_mem_append.2 ⟨fun f hf => ?_, fun f hf => ?_⟩)
  · exact not_isWideField_of_isReferenceField (List.all_eq_true.1 List.all_takeWhile f hf)
  · split at hf
    · exact narrow_of_fillGap f hf
    · cases hf

/-! ## Placing fields -/

section Place

variable {offset : Nat} {aligned : Bool} {before block after : List FieldRef}

theorem placeFields_cons_narrow {f : FieldRef} (hf : isWideField f = false)
    (rest : List FieldRef) :
    placeFields offset aligned (f :: rest) = ⟨offset, f⟩ :: placeFields (offset + 4) aligned rest :=
  by simp [placeFields, show f.ty.isWide = false from hf]

/-- Narrow fields are placed below what is placed after them. -/
theorem stacked_narrow {rest : List FieldRef} (hoffset : 4 ∣ offset)
    (hbefore : ∀ f ∈ before, isWideField f = false)
    (hrest : ∀ {offset}, 4 ∣ offset → Stacked offset (placeFields offset aligned rest)) :
    Stacked offset (placeFields offset aligned (before ++ rest)) := by
  induction before generalizing offset with
  | nil => exact hrest hoffset
  | cons f before ih =>
    obtain ⟨hf, hbefore⟩ := List.forall_mem_cons.1 hbefore
    have hwide : f.ty.isWide = false := hf
    rw [List.cons_append, placeFields_cons_narrow hf]
    have hsize : (⟨offset, f⟩ : Placed).size = 4 := by simp [Placed.size, hwide]
    refine .cons (Nat.le_refl _) hoffset (by simp [hwide]) ?_
    rw [hsize]
    exact ih (show 4 ∣ offset + 4 by omega) hbefore

theorem stacked_all_narrow (hoffset : 4 ∣ offset) (hafter : ∀ f ∈ after, isWideField f = false) :
    Stacked offset (placeFields offset aligned after) := by
  have hend : Stacked offset (placeFields offset aligned (after ++ [])) :=
    stacked_narrow hoffset hafter fun _ => .nil
  simpa using hend

/-- Once they are aligned, wide fields stay aligned. -/
theorem stacked_block (hoffset : 8 ∣ offset) (hblock : ∀ f ∈ block, isWideField f = true)
    (hafter : ∀ f ∈ after, isWideField f = false) :
    Stacked offset (placeFields offset true (block ++ after)) := by
  induction block generalizing offset with
  | nil => exact stacked_all_narrow (show 4 ∣ offset by omega) hafter
  | cons f block ih =>
    obtain ⟨hf, hblock⟩ := List.forall_mem_cons.1 hblock
    have hwide : f.ty.isWide = true := hf
    have hsize : (⟨offset, f⟩ : Placed).size = 8 := by simp [Placed.size, hwide]
    simp only [List.cons_append, placeFields, hwide, if_true, Bool.not_true, Bool.false_and]
    refine .cons (Nat.le_refl _) (show 4 ∣ offset by omega) (fun _ => hoffset) ?_
    rw [show (if false = true then offset + 4 else offset) = offset from rfl, hsize]
    exact ih (show 8 ∣ offset + 8 by omega) hblock

/-- The first wide field is aligned. -/
theorem stacked_aligned (hoffset : 4 ∣ offset) (hblock : ∀ f ∈ block, isWideField f = true)
    (hafter : ∀ f ∈ after, isWideField f = false) :
    Stacked offset (placeFields offset false (block ++ after)) := by
  cases block with
  | nil => exact stacked_all_narrow hoffset hafter
  | cons f block =>
    obtain ⟨hf, hblock⟩ := List.forall_mem_cons.1 hblock
    have hwide : f.ty.isWide = true := hf
    simp only [List.cons_append, placeFields, hwide, if_true, Bool.not_false, Bool.true_and,
      bne_iff_ne]
    generalize hat : (if offset % 8 ≠ 0 then offset + 4 else offset) = place
    have hplace : offset ≤ place ∧ 8 ∣ place := by
      split at hat <;> omega
    have hsize : (⟨place, f⟩ : Placed).size = 8 := by simp [Placed.size, hwide]
    refine .cons hplace.1 (show 4 ∣ place by omega) (fun _ => hplace.2) ?_
    rw [hsize]
    exact stacked_block (show 8 ∣ place + 8 by omega) hblock hafter

theorem stacked_placeFields {fields : List FieldRef} (hoffset : 4 ∣ offset)
    (h : Together isWideField fields) : Stacked offset (placeFields offset false fields) := by
  obtain ⟨before, block, after, rfl, hbefore, hblock, hafter⟩ := h
  exact stacked_narrow hoffset hbefore fun hoffset => stacked_aligned hoffset hblock hafter

end Place

/-! ## Chains of superclasses -/

variable {cp : ClassPath} {c : ClassDef} {d name : String} {l : Layout} {m m' : Memo}

/-- A class puts its fields on top of those of its superclass. -/
theorem stacked_extendLayout {above : Layout} (h : Stacked Layout.header above.fields) :
    Stacked Layout.header (extendLayout c above).fields := by
  obtain ⟨hstart, hword, hends⟩ := Layout.next_of_stacked h
  exact h.append hstart hends (stacked_placeFields hword (together_arrange _ _))

theorem fields_extendLayout (c : ClassDef) (above : Layout) :
    ∃ own, (extendLayout c above).fields = above.fields ++ own ∧
      (own.map Placed.field).Perm (c.instanceFields.map fun f => f.ref c.ty) := by
  refine ⟨_, rfl, ?_⟩
  rw [map_field_placeFields]
  exact perm_arrange _ _

/-- The layout of a class is that of its superclass, with its own fields on top.  A superclass that
is no class has no fields. -/
theorem layoutBy_ok {ref : String → Except HierarchyError Layout}
    (h : cp.layoutBy d ref = .ok l) :
    ∃ c above, cp.def? d = some c ∧ l = extendLayout c above ∧
      ((∃ name, cp.Extends d name ∧ ref name = .ok above) ∨
        (∀ name, ¬ cp.Extends d name) ∧ above = ⟨[]⟩) := by
  cases hd : cp.def? d with
  | none =>
    simp only [layoutBy, hd] at h
    cases h
  | some c =>
    simp only [layoutBy, hd] at h
    obtain ⟨m', h⟩ := Asking.ok_of_answer h
    refine ⟨c, ?_⟩
    cases hs : c.superclass? with
    | none =>
      simp only [collectLayout, hs] at h
      cases h
      refine ⟨⟨[]⟩, rfl, rfl, .inr ⟨fun name hname => ?_, rfl⟩⟩
      simp only [Extends, parent?_of_none hd hs] at hname
      cases hname
    | some s =>
      simp only [collectLayout, hs] at h
      obtain ⟨n, m₁, hn, h⟩ := bind_ok.1 h
      have hparent := parent?_of_superclass hd hs (Asking.lift_ok.1 hn).1
      have other (hne : ∀ name, n ≠ .cls name) : ∀ name, ¬ cp.Extends d name := by
        intro name hname
        cases hparent.symm.trans hname
        exact hne name rfl
      cases n with
      | cls name =>
        obtain ⟨above, m₂, habove, h⟩ := bind_ok.1 h
        cases h
        exact ⟨above, rfl, rfl, .inl ⟨name, hparent, (Asking.lift_ok.1 habove).1⟩⟩
      | primitive _ =>
        cases h
        exact ⟨⟨[]⟩, rfl, rfl, .inr ⟨other fun _ hne => (by cases hne), rfl⟩⟩
      | unknown =>
        cases h
        exact ⟨⟨[]⟩, rfl, rfl, .inr ⟨other fun _ hne => (by cases hne), rfl⟩⟩
      | array _ _ =>
        cases h
        exact ⟨⟨[]⟩, rfl, rfl, .inr ⟨other fun _ hne => (by cases hne), rfl⟩⟩

/-- Along a chain of superclasses all layouts are stacked. -/
theorem stacked_of_determined {r : Except HierarchyError Layout}
    (h : Determined cp.Extends cp.layoutBy d r) (hr : r = .ok l) :
    Stacked Layout.header l.fields := by
  induction h generalizing l with
  | of_next _ ih =>
    obtain ⟨c, above, _, rfl, ⟨name, hname, habove⟩ | ⟨_, rfl⟩⟩ := layoutBy_ok hr
    · exact stacked_extendLayout (ih name hname habove)
    · exact stacked_extendLayout .nil

/-- A layout that was found does not depend on what was asked before. -/
theorem determined_of_layoutOf (hm : cp.Asked .empty m) (h : (cp.layoutOf d).answer m = .ok l) :
    Quiet cp.Extends d ∧ Determined cp.Extends cp.layoutBy d (.ok l) := by
  have hlaid : cp.Laid d (.ok l) :=
    h ▸ (cp.laid_layoutFrom [] d nofun).answer (laidAll_of_asked hm)
  have hquiet : Quiet cp.Extends d := by
    by_contra hcyclic
    obtain ⟨e, he⟩ := hlaid.cyclic hcyclic
    cases he
  exact ⟨hquiet, hlaid.quiet hquiet⟩

theorem layoutOf_of_determined (hquiet : Quiet cp.Extends d)
    (h : Determined cp.Extends cp.layoutBy d (.ok l)) (hm : cp.Asked .empty m) :
    (cp.layoutOf d).answer m = .ok l := by
  have hlaid : cp.Laid d ((cp.layoutOf d).answer m) :=
    (cp.laid_layoutFrom [] d nofun).answer (laidAll_of_asked hm)
  exact (hlaid.quiet hquiet).unique cp.local_layoutBy h

/-- The fields of an object lie after its header at multiples of four bytes, and those of eight
bytes at multiples of eight.  They are listed in the order of their offsets and share no byte.  The
layout of a class is that of its superclass, if that is a class, followed by the fields that the
class declares in some order.  At an offset there is the field that is listed with it, and a search
by halves finds it. -/
theorem layout_well_formed (hm : cp.Asked .empty m) (h : cp.layoutOf d m = .ok l m') :
    (∀ p ∈ l.fields, 8 ≤ p.offset ∧ 4 ∣ p.offset ∧ (p.field.ty.isWide = true → 8 ∣ p.offset)) ∧
      l.fields.Pairwise (fun p q => p.offset < q.offset) ∧
      l.fields.Pairwise (fun p q => p.bytes.Disjoint q.bytes) ∧
      (∃ c above own, cp.def? d = some c ∧ l.fields = above.fields ++ own ∧
        (own.map Placed.field).Perm (c.instanceFields.map fun f => f.ref c.ty) ∧
        (∀ name, cp.Extends d name → ∀ m₁, cp.Asked .empty m₁ →
          (cp.layoutOf name).answer m₁ = .ok above) ∧
        ((∀ name, ¬ cp.Extends d name) → above.fields = [])) ∧
      ∀ offset, l.fieldAt? offset = l.searchField? offset ∧
        ∀ f, l.fieldAt? offset = some f ↔ ⟨offset, f⟩ ∈ l.fields := by
  obtain ⟨hquiet, hdetermined⟩ := determined_of_layoutOf hm (Asking.answer_ok h)
  have hstacked := stacked_of_determined hdetermined rfl
  refine ⟨fun p hp => ⟨hstacked.above p hp, hstacked.words p hp, hstacked.wide p hp⟩,
    hstacked.increasing, hstacked.disjoint, ?_, fun offset =>
    ⟨Layout.fieldAt?_eq_searchField? hstacked offset,
      fun _ => Layout.fieldAt?_eq_some_iff hstacked⟩⟩
  generalize hr : (Except.ok l : Except HierarchyError Layout) = r at hdetermined
  obtain ⟨hnext⟩ := hdetermined
  obtain ⟨c, above, hd, rfl, habove⟩ := layoutBy_ok hr.symm
  obtain ⟨own, hfields, hperm⟩ := fields_extendLayout c above
  refine ⟨c, above, own, hd, hfields, hperm, fun name hname m₁ hm₁ => ?_, fun hnone => ?_⟩
  · obtain ⟨name', hname', href⟩ | ⟨hnone, _⟩ := habove
    · cases hname.symm.trans hname'
      exact layoutOf_of_determined (hquiet.of_step hname) (href ▸ hnext name hname) hm₁
    · exact absurd hname (hnone name)
  · obtain ⟨name, hname, _⟩ | ⟨_, rfl⟩ := habove
    · exact absurd hname (hnone name)
    · rfl

/-- A class with a wide field between classes with a narrow one. -/
def layered : ClassPath := .ofClasses
  [{ ty := .cls "A", fields := [⟨"x", .int, .none⟩] },
    { ty := .cls "B", superclass? := some (.cls "A"), fields := [⟨"y", .long, .none⟩] },
    { ty := .cls "C", superclass? := some (.cls "B"), fields := [⟨"z", .cls "A", .none⟩] }]
  defaultLevel

/-- The wide field leaves a gap of one word after the field above it. -/
theorem layout_well_formed_layered :
    ∃ l m', layered.layoutOf "LC;" .empty = .ok l m' ∧
      l.fields.map (fun p => (p.offset, p.size)) = [(8, 4), (16, 8), (24, 4)] ∧
      (∀ p ∈ l.fields,
        8 ≤ p.offset ∧ 4 ∣ p.offset ∧ (p.field.ty.isWide = true → 8 ∣ p.offset)) ∧
      l.fields.Pairwise (fun p q => p.offset < q.offset) ∧
      l.fields.Pairwise (fun p q => p.bytes.Disjoint q.bytes) ∧
      ∀ offset, l.fieldAt? offset = l.searchField? offset ∧
        ∀ f, l.fieldAt? offset = some f ↔ ⟨offset, f⟩ ∈ l.fields := by
  have hlayout : ∃ l m', layered.layoutOf "LC;" .empty = .ok l m' ∧
      l.fields.map (fun p => (p.offset, p.size)) = [(8, 4), (16, 8), (24, 4)] := by
    decide +kernel
  obtain ⟨l, m', hl, hplaces⟩ := hlayout
  obtain ⟨hoffsets, hincreasing, hdisjoint, _, hat⟩ := layout_well_formed .refl hl
  exact ⟨l, m', hl, hplaces, hoffsets, hincreasing, hdisjoint, hat⟩

end ClassPath

end Dalvik
