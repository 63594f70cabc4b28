import Dalvik.ClassPath.Basic

/-!
# Descriptors

A descriptor that can be read is the one of the type it is read as (`Ty.chars_of_ofChars?`), and
the one of the node it stands for (`TypeNode.descriptor_of_ofDescriptor`).  So a node that comes
from a descriptor is the node of its own descriptor (`TypeNode.Named`).

Different types may have one descriptor, but only one of them is flat
(`Ty.flat_eq_of_descriptor`).
-/

namespace Dalvik

/-! ## Brackets -/

namespace Ty

/-- The brackets and what follows them make up the text. -/
theorem append_splitBrackets (cs : List Char) :
    List.replicate (splitBrackets cs).1 '[' ++ (splitBrackets cs).2 = cs := by
  fun_induction splitBrackets cs with
  | case1 rest n elem hsplit ih =>
    rw [hsplit] at ih
    simp only [List.replicate_succ, List.cons_append, ih]
  | case2 elem => rfl

/-- No bracket is left behind the brackets. -/
theorem head?_splitBrackets (cs : List Char) : (splitBrackets cs).2.head? ≠ some '[' := by
  fun_induction splitBrackets cs with
  | case1 rest n elem hsplit ih =>
    rw [hsplit] at ih
    exact ih
  | case2 elem h =>
    intro hhead
    cases elem with
    | nil => cases hhead
    | cons c rest =>
      cases hhead
      exact h rest rfl

theorem splitBrackets_eq {elem : List Char} (helem : elem.head? ≠ some '[') :
    splitBrackets elem = (0, elem) := by
  unfold splitBrackets
  split
  · exact absurd rfl helem
  · rfl

/-- The brackets before an element are counted. -/
theorem splitBrackets_replicate {elem : List Char} (n : Nat) (helem : elem.head? ≠ some '[') :
    splitBrackets (List.replicate n '[' ++ elem) = (n, elem) := by
  induction n with
  | zero => exact splitBrackets_eq helem
  | succ n ih =>
    rw [List.replicate_succ, List.cons_append, splitBrackets, ih]

/-! ## Reading and writing -/

theorem chars_of_className? {cs : List Char} {name : String} (h : className? cs = some name) :
    (Ty.cls name).chars = cs := by
  unfold className? at h
  split at h
  · split at h
    · next rest hrest =>
      cases h
      obtain ⟨name, rfl⟩ := List.getLast?_eq_some_iff.1 hrest.1
      simp only [chars, String.toList_ofList, List.dropLast_concat, List.cons_append]
    · cases h
  · cases h

/-- A type that is not an array is written as it was read. -/
theorem chars_of_ofElement? {cs : List Char} {t : Ty} (h : ofElement? cs = some t) :
    t.chars = cs := by
  unfold ofElement? at h
  split at h
  case h_10 =>
    obtain ⟨name, hname, rfl⟩ := Option.map_eq_some_iff.1 h
    exact chars_of_className? hname
  all_goals
    cases h
    rfl

/-- An array is written as its element behind brackets. -/
theorem chars_arrayOf (t : Ty) (dims : Nat) :
    (t.arrayOf dims).chars = List.replicate dims '[' ++ t.chars := by
  unfold arrayOf
  split
  · next n elem =>
    rw [chars, chars, ← List.append_assoc, List.replicate_append_replicate, Nat.add_comm]
  · rfl
  · rfl

/-- A descriptor is the one of the type that it is read as. -/
theorem chars_of_ofChars? {cs : List Char} {t : Ty} (h : ofChars? cs = some t) : t.chars = cs := by
  have hsplit := append_splitBrackets cs
  unfold ofChars? at h
  split at h
  next dims elem heq =>
  rw [heq] at hsplit
  split at h
  · cases h
  · obtain ⟨e, he, rfl⟩ := Option.map_eq_some_iff.1 h
    rw [chars_arrayOf, chars_of_ofElement? he]
    exact hsplit

/-- A type is written as it was read. -/
theorem descriptor_of_read {text : String} {t : Ty} (h : read text = .ok t) :
    t.descriptor = text := by
  unfold read readChars at h
  split at h
  · next hread =>
    cases h
    rw [descriptor, chars_of_ofChars? hread, String.ofList_toList]
  · cases h

/-! ## Flat types -/

theorem element_ne_array (t : Ty) (n : Nat) (e : Ty) : t.element ≠ .array n e := by
  induction t with
  | array m elem ih => exact ih
  | _ => simp [element]

/-- A descriptor is that of the element behind one bracket per dimension. -/
theorem chars_eq (t : Ty) : t.chars = List.replicate t.dims '[' ++ t.element.chars := by
  induction t with
  | array n elem ih =>
    rw [chars, ih, dims, element, ← List.replicate_append_replicate, List.append_assoc]
  | _ => rfl

theorem head?_element (t : Ty) : t.element.chars.head? ≠ some '[' := by
  cases h : t.element with
  | array n e => exact absurd h (element_ne_array t n e)
  | _ => simp [chars]

/-- The dimensions and the element of a type can be read from its text. -/
theorem splitBrackets_chars (t : Ty) : splitBrackets t.chars = (t.dims, t.element.chars) := by
  rw [chars_eq]
  exact splitBrackets_replicate t.dims (head?_element t)

/-- Types that are no arrays are the same if they are written alike. -/
theorem eq_of_chars {e e' : Ty} (he : ∀ n t, e ≠ .array n t) (he' : ∀ n t, e' ≠ .array n t)
    (h : e.chars = e'.chars) : e = e' := by
  cases e with
  | array n t => exact absurd rfl (he n t)
  | cls name =>
    cases e' with
    | array n t => exact absurd rfl (he' n t)
    | cls name' =>
      simp only [chars, List.cons_append, List.cons.injEq, true_and,
        List.append_cancel_right_eq] at h
      rw [String.toList_inj.1 h]
    | _ => simp [chars] at h
  | _ =>
    cases e' with
    | array n t => exact absurd rfl (he' n t)
    | cls name' => simp [chars] at h
    | _ => simp_all [chars]

/-- A descriptor names one flat type. -/
theorem flat_eq_of_descriptor {t t' : Ty} (h : t.descriptor = t'.descriptor) :
    t.flat = t'.flat := by
  have hchars : t.chars = t'.chars := String.ofList_injective h
  have hsplit : (t.dims, t.element.chars) = (t'.dims, t'.element.chars) := by
    rw [← splitBrackets_chars, ← splitBrackets_chars, hchars]
  obtain ⟨hdims, helement⟩ := Prod.mk.inj hsplit
  rw [flat, flat, hdims, eq_of_chars (element_ne_array t) (element_ne_array t') helement]

/-- Lists of types that are written alike are the same up to nested arrays. -/
theorem map_flat_eq_of_descriptors {ts ts' : List Ty}
    (h : ts.map descriptor = ts'.map descriptor) : ts.map flat = ts'.map flat := by
  induction ts generalizing ts' with
  | nil => rw [List.map_eq_nil_iff.1 h.symm]
  | cons t ts ih =>
    cases ts' with
    | nil => cases h
    | cons t' ts' =>
      obtain ⟨hhead, htail⟩ := List.cons.inj h
      rw [List.map_cons, List.map_cons, flat_eq_of_descriptor hhead, ih htail]

end Ty

/-! ## Nodes that descriptors name -/

/-- A node that its descriptor names. -/
def TypeNode.Named (n : TypeNode) : Prop := TypeNode.ofDescriptor n.descriptor = .ok n

namespace TypeNode

variable {d elem : String} {n : TypeNode} {dims : Nat}

theorem named_object : Named (.cls objectClass) := rfl

/-- A node has the descriptor by which it was found. -/
theorem descriptor_of_ofDescriptor (h : ofDescriptor d = .ok n) : n.descriptor = d := by
  unfold ofDescriptor at h
  split at h
  · next hd =>
    cases h
    exact hd.symm
  split at h
  · cases h
    rfl
  have hsplit := Ty.append_splitBrackets d.toList
  split at h
  · split at h
    · cases h
      rfl
    · cases h
  · cases h
  · next dims elem _ _ heq =>
    cases h
    rw [heq] at hsplit
    simp only [descriptor, arrayDescriptor, String.toList_ofList, hsplit, String.ofList_toList]

/-- A descriptor that names no node is the one that is refused. -/
theorem error_of_ofDescriptor {e : HierarchyError} (h : ofDescriptor d = .error e) :
    e = .invalidType d := by
  unfold ofDescriptor at h
  split at h
  · cases h
  split at h
  · cases h
  split at h
  · split at h
    · cases h
    · cases h
      rfl
  · cases h
    rfl
  · cases h

/-- A node that was found by its descriptor is found by it again. -/
theorem named_of_ofDescriptor (h : ofDescriptor d = .ok n) : n.Named := by
  unfold Named
  rw [descriptor_of_ofDescriptor h, h]

/-- What can follow the brackets of an array. -/
def IsElementText (elem : String) : Prop := elem ≠ "" ∧ elem.toList.head? ≠ some '['

/-- A descriptor names an array over an element, or is itself the text of an element. -/
theorem isElementText_of_ofDescriptor (h : ofDescriptor d = .ok n) :
    (∃ dims elem, n = .array dims elem ∧ 0 < dims ∧ IsElementText elem) ∨
      (∀ dims elem, n ≠ .array dims elem) ∧ IsElementText d := by
  unfold ofDescriptor at h
  split at h
  · next hd =>
    cases h
    exact .inr ⟨nofun, hd ▸ ⟨by decide, by decide⟩⟩
  split at h
  · next hd =>
    cases h
    have hall : ∀ d ∈ primitiveDescriptors, d ≠ "" ∧ d.toList.head? ≠ some '[' := by decide
    exact .inr ⟨nofun, hall d (List.contains_iff_mem.1 hd)⟩
  have hsplit := Ty.append_splitBrackets d.toList
  have hhead := Ty.head?_splitBrackets d.toList
  split at h
  · next elem heq =>
    rw [heq] at hsplit hhead
    split at h
    · next hname =>
      cases h
      simp only [List.replicate_zero, List.nil_append] at hsplit
      rw [hsplit] at hhead hname
      refine .inr ⟨nofun, ?_, hhead⟩
      rintro rfl
      cases hname
    · cases h
  · cases h
  · next dims elem hdims hne heq =>
    cases h
    rw [heq] at hhead
    exact .inl ⟨dims, _, rfl, Nat.pos_of_ne_zero hdims,
      fun hempty => hne (String.ofList_eq_empty_iff.1 hempty), by simpa using hhead⟩

/-- The descriptor of an array is read as the array. -/
theorem ofDescriptor_arrayDescriptor (hdims : 0 < dims) (helem : IsElementText elem) :
    ofDescriptor (arrayDescriptor dims elem) = .ok (.array dims elem) := by
  have htext : (arrayDescriptor dims elem).toList = List.replicate dims '[' ++ elem.toList :=
    String.toList_ofList
  have hhead : (arrayDescriptor dims elem).toList.head? = some '[' := by
    obtain ⟨n, rfl⟩ := Nat.exists_eq_add_one.2 hdims
    rw [htext, List.replicate_succ]
    rfl
  have hunknown : arrayDescriptor dims elem ≠ unknownClass := by
    intro h
    rw [h] at hhead
    exact absurd hhead (by decide)
  have hprimitive : ¬ primitiveDescriptors.contains (arrayDescriptor dims elem) = true := by
    intro h
    have hall : ∀ d ∈ primitiveDescriptors, d.toList.head? ≠ some '[' := by decide
    exact hall _ (List.contains_iff_mem.1 h) hhead
  rw [ofDescriptor, if_neg hunknown, if_neg hprimitive, htext,
    Ty.splitBrackets_replicate dims helem.2]
  split
  · next heq => exact absurd (Prod.mk.inj heq).1 (Nat.ne_of_gt hdims)
  · next heq => exact absurd (String.toList_eq_nil_iff.1 (Prod.mk.inj heq).2) helem.1
  · next heq =>
    cases heq
    rw [String.ofList_toList]

/-- An array has a name if it has a dimension and something to follow the brackets. -/
theorem named_array_iff : Named (.array dims elem) ↔ 0 < dims ∧ IsElementText elem := by
  constructor
  · intro hn
    obtain ⟨_, _, heq, h⟩ | ⟨hdims, h⟩ := isElementText_of_ofDescriptor hn
    · cases heq
      exact h
    · exact absurd rfl (hdims dims elem)
  · intro h
    exact ofDescriptor_arrayDescriptor h.1 h.2

theorem named_arrayOf (hdims : 0 < dims) (hn : n.Named) : (arrayOf dims n).Named := by
  obtain ⟨k, elem, rfl, hk, helem⟩ | ⟨hne, htext⟩ := isElementText_of_ofDescriptor hn
  · exact named_array_iff.2 ⟨Nat.add_pos_left hdims k, helem⟩
  · cases n with
    | array k elem => exact absurd rfl (hne k elem)
    | primitive d => exact named_array_iff.2 ⟨hdims, htext⟩
    | unknown => exact named_array_iff.2 ⟨hdims, htext⟩
    | cls d => exact named_array_iff.2 ⟨hdims, htext⟩

end TypeNode

end Dalvik
