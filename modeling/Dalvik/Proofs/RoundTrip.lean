import Dalvik.Proofs.Descriptors
import Dalvik.Proofs.Monads
import Dalvik.Ref

/-!
# Reading what was written

A reader and a writer belong together: what is read is what was written, and nothing else is
read.  For descriptors the types that can be written are the canonical ones
(`Ty.readChars_eq_ok_iff`).

A parameter list has nothing between its descriptors.  It is cut at the first `;` after an `L`, so
it can be read if no class name in it has a `;` (`Ty.readParamChars_eq_ok_iff`).  Both readers are
described as wholes by `Ty.descriptors_round_trip`.

A method reference is cut at the first arrow and at the first parentheses behind it.  It can be
read if the parts do not have these inside (`MethodRef.Legible`).
-/

namespace Dalvik

namespace Ty

variable {t : Ty} {cs rest : List Char} {whole : String}

/-! ## Descriptors -/

/-- Whether a type is an array. -/
def isArray : Ty → Bool
  | .array _ _ => true
  | _ => false

theorem canonical_array {dims : Nat} {elem : Ty} :
    (Ty.array dims elem).Canonical ↔
      1 ≤ dims ∧ dims ≤ maxDims ∧ elem ≠ .void ∧ elem.isArray = false ∧ elem.Canonical := by
  cases elem with
  | array n e => simp [Canonical, isArray]
  | _ => simp [Canonical, isArray]

/-- The name of a class is read from what is written for it. -/
theorem className?_chars {name : String} (hname : name ≠ "") :
    className? (Ty.cls name).chars = some name := by
  have hne : name.toList ≠ [] := fun h => hname (String.toList_eq_nil_iff.1 h)
  simp [chars, className?, hne]

/-- A type that is no array is read as it was written. -/
theorem ofElement?_chars (ht : t.Canonical) (helem : t.isArray = false) :
    ofElement? t.chars = some t := by
  cases t with
  | array n e => cases helem
  | cls name =>
    have hread := className?_chars ht
    unfold ofElement?
    split
    case h_10 => rw [hread, Option.map_some]
    -- A name between `L` and `;` is no single letter.
    all_goals
      next hletter => simp [chars] at hletter
  | _ => rfl

/-- Only canonical types are read. -/
theorem canonical_of_ofElement? (h : ofElement? cs = some t) :
    t.Canonical ∧ t.isArray = false := by
  unfold ofElement? at h
  split at h
  case h_10 =>
    obtain ⟨name, hname, rfl⟩ := Option.map_eq_some_iff.1 h
    refine ⟨?_, rfl⟩
    rintro rfl
    unfold className? at hname
    split at hname
    · obtain ⟨hcond, hempty⟩ := Option.ite_none_right_eq_some.1 hname
      exact hcond.2 (String.ofList_eq_empty_iff.1 (Option.some.inj hempty))
    · cases hname
  all_goals
    cases h
    exact ⟨trivial, rfl⟩

theorem head?_chars_of_element (helem : t.isArray = false) : t.chars.head? ≠ some '[' := by
  cases t with
  | array n e => cases helem
  | _ => simp [chars]

theorem arrayOf_zero (t : Ty) : t.arrayOf 0 = t := by
  cases t <;> rfl

/-- One more dimension makes an array. -/
theorem arrayOf_succ (helem : t.isArray = false) (n : Nat) :
    t.arrayOf (n + 1) = .array (n + 1) t := by
  cases t with
  | array n e => cases helem
  | _ => rfl

theorem canonical_of_ofChars? (h : ofChars? cs = some t) : t.Canonical := by
  unfold ofChars? at h
  split at h
  next dims elem heq =>
  split at h
  · cases h
  · next hbad =>
    obtain ⟨e, he, rfl⟩ := Option.map_eq_some_iff.1 h
    obtain ⟨hcanonical, helem⟩ := canonical_of_ofElement? he
    cases dims with
    | zero =>
      rw [arrayOf_zero]
      exact hcanonical
    | succ n =>
      rw [arrayOf_succ helem]
      refine canonical_array.2 ⟨Nat.le_add_left 1 n, ?_, ?_, helem, hcanonical⟩
      · exact Nat.le_of_not_lt fun hmax => hbad (.inl hmax)
      · rintro rfl
        exact hbad (.inr ⟨Nat.succ_pos n, (chars_of_ofElement? he).symm⟩)

/-- The descriptor of a canonical type is read as that type. -/
theorem ofChars?_chars (ht : t.Canonical) : ofChars? t.chars = some t := by
  cases harray : t.isArray with
  | false =>
    simp only [ofChars?, splitBrackets_eq (head?_chars_of_element harray), Nat.not_lt_zero,
      false_and, or_self, if_false, ofElement?_chars ht harray, Option.map_some, arrayOf_zero]
  | true =>
    cases t with
    | array dims elem =>
      obtain ⟨hpos, hmax, hvoid, helem, hcanonical⟩ := canonical_array.1 ht
      obtain ⟨n, rfl⟩ := Nat.exists_eq_add_of_le' hpos
      have hgood : ¬ (maxDims < n + 1 ∨ 0 < n + 1 ∧ elem.chars = ['V']) := by
        rintro (hlt | ⟨_, hV⟩)
        · exact Nat.not_lt.2 hmax hlt
        · have hread := ofElement?_chars hcanonical helem
          rw [hV] at hread
          exact hvoid (Option.some.inj hread).symm
      simp only [ofChars?, chars, splitBrackets_replicate (n + 1) (head?_chars_of_element helem),
        hgood, if_false, ofElement?_chars hcanonical helem, Option.map_some, arrayOf_succ helem]
    | _ => cases harray

/-- Reading a descriptor accepts exactly what writing a canonical type produces. -/
theorem readChars_eq_ok_iff : readChars cs = .ok t ↔ t.Canonical ∧ t.chars = cs := by
  unfold readChars
  constructor
  · intro h
    split at h
    · next hread =>
      cases h
      exact ⟨canonical_of_ofChars? hread, chars_of_ofChars? hread⟩
    · cases h
  · rintro ⟨ht, rfl⟩
    rw [ofChars?_chars ht]

/-! ## Parameter lists -/

/-- The class name in a descriptor: that of a class, or of the element of an array. -/
def elementName? : Ty → Option String
  | .cls name => some name
  | .array _ elem => elem.elementName?
  | _ => none

/-- The descriptor of the type ends at the first `;`, where a parameter list is cut. -/
def Separable (t : Ty) : Prop := ∀ name, t.elementName? = some name → ';' ∉ name.toList

/-- The name of a class ends at the first semicolon. -/
theorem nameLength?_eq_some_iff {n : Nat} :
    nameLength? cs = some n ↔ ∃ name rest, ';' ∉ name ∧ cs = name ++ ';' :: rest ∧
      n = name.length + 1 := by
  constructor
  · intro h
    fun_induction nameLength? cs generalizing n with
    | case1 => cases h
    | case2 rest =>
      cases h
      exact ⟨[], rest, List.not_mem_nil, rfl, rfl⟩
    | case3 c rest hc ih =>
      obtain ⟨k, hk, rfl⟩ := Option.map_eq_some_iff.1 h
      obtain ⟨name, after, hname, rfl, rfl⟩ := ih hk
      refine ⟨c :: name, after, ?_, rfl, rfl⟩
      intro hmem
      rcases List.mem_cons.1 hmem with rfl | hmem
      · exact hc rfl
      · exact hname hmem
  · rintro ⟨name, rest, hname, rfl, rfl⟩
    induction name with
    | nil => rfl
    | cons c name ih =>
      obtain ⟨hc, hname⟩ := not_or.1 (mt List.mem_cons.2 hname)
      rw [List.cons_append, nameLength?, ih hname]
      · rfl
      · exact fun h => hc h.symm

/-- A canonical type is written as brackets before the descriptor of an element. -/
theorem exists_element (ht : t.Canonical) :
    ∃ (dims : Nat) (elem : Ty), t.chars = List.replicate dims '[' ++ elem.chars ∧
      elem.isArray = false ∧ t.elementName? = elem.elementName? := by
  cases harray : t.isArray with
  | false => exact ⟨0, t, rfl, harray, rfl⟩
  | true =>
    cases t with
    | array dims elem => exact ⟨dims, elem, rfl, (canonical_array.1 ht).2.2.2.1, rfl⟩
    | _ => cases harray

theorem splitBrackets_replicate_chars (dims : Nat) {elem : Ty} (rest : List Char)
    (helem : elem.isArray = false) :
    splitBrackets (List.replicate dims '[' ++ elem.chars ++ rest) = (dims, elem.chars ++ rest) := by
  rw [List.append_assoc, splitBrackets_replicate]
  cases elem with
  | array n e => cases helem
  | _ => simp [chars]

/-- The first parameter ends with its name, if it is a class or an array of classes. -/
theorem firstLength_of_cls {dims n : Nat} {name : String}
    (hn : nameLength? (name.toList ++ ';' :: rest) = some n) :
    firstLength whole (List.replicate dims '[' ++ (Ty.cls name).chars ++ rest) =
      .ok (dims + 1 + n) := by
  have helem : (Ty.cls name).isArray = false := rfl
  rw [firstLength, splitBrackets_replicate_chars dims rest helem]
  simp only [chars, List.cons_append, List.append_assoc, List.nil_append, hn]

/-- A parameter list is cut behind its first descriptor. -/
theorem firstLength_chars (ht : t.Canonical) (hsep : t.Separable) :
    firstLength whole (t.chars ++ rest) = .ok t.chars.length := by
  obtain ⟨dims, elem, hchars, helem, hname⟩ := exists_element ht
  rw [hchars]
  cases elem with
  | array n e => cases helem
  | cls name =>
    have hn := nameLength?_eq_some_iff.2 ⟨name.toList, rest, hsep name hname, rfl, rfl⟩
    rw [firstLength_of_cls hn]
    simp only [chars, List.length_append, List.length_replicate, List.length_cons,
      List.length_nil, Except.ok.injEq]
    omega
  | _ =>
    rw [firstLength, splitBrackets_replicate_chars dims rest helem]
    simp [chars, Char.utf8Size]

/-- A descriptor that was cut off has no `;` before its end. -/
theorem separable_of_firstLength {n : Nat} (hn : firstLength whole cs = .ok n)
    (hread : readChars (cs.take n) = .ok t) : t.Separable := by
  intro name hname hmem
  obtain ⟨ht, htake⟩ := readChars_eq_ok_iff.1 hread
  obtain ⟨dims, elem, hchars, helem, helement⟩ := exists_element ht
  obtain rfl : elem = .cls name := by
    cases elem with
    | array n e => cases helem
    | cls name' =>
      cases helement.symm.trans hname
      rfl
    | _ => cases helement.symm.trans hname
  -- The cut is at the first `;`, so the text up to it is shorter than the descriptor.
  obtain ⟨before, after, hsplit, hbefore⟩ := List.eq_append_cons_of_mem hmem
  have hcs : cs = List.replicate dims '[' ++ (Ty.cls name).chars ++ cs.drop n := by
    rw [← hchars, htake, List.take_append_drop]
  have hlength : nameLength? (name.toList ++ ';' :: cs.drop n) = some (before.length + 1) :=
    nameLength?_eq_some_iff.2 ⟨before, after ++ ';' :: cs.drop n, hbefore, by simp [hsplit], rfl⟩
  rw [hcs, firstLength_of_cls hlength] at hn
  have hle : t.chars.length ≤ n := htake ▸ List.length_take_le n cs
  rw [hchars] at hle
  simp only [chars, hsplit, List.length_append, List.length_replicate, List.length_cons,
    List.length_nil] at hle
  cases hn
  omega

/-- The parameters are read one by one. -/
theorem readParamChars_of_first {n : Nat} {ts : List Ty} (hne : cs ≠ [])
    (hn : firstLength whole cs = .ok n) (hread : readChars (cs.take n) = .ok t)
    (htail : readParamChars whole (cs.drop n) = .ok ts) :
    readParamChars whole cs = .ok (t :: ts) := by
  cases cs with
  | nil => exact absurd rfl hne
  | cons c rest =>
    rw [readParamChars]
    split
    · next hn' => cases hn.symm.trans hn'
    · next hn' =>
      cases hn.symm.trans hn'
      rw [hread]
      simp only [htail]

/-- A type is not written as nothing. -/
theorem chars_ne_nil (ht : t.Canonical) : t.chars ≠ [] := by
  obtain ⟨dims, elem, hchars, helem, _⟩ := exists_element ht
  rw [hchars]
  cases elem with
  | array n e => cases helem
  | _ => simp [chars]

/-- Reading a parameter list accepts exactly what writing types that can be cut apart produces. -/
theorem readParamChars_eq_ok_iff {ts : List Ty} :
    readParamChars whole cs = .ok ts ↔
      (∀ t ∈ ts, t.Canonical ∧ t.Separable) ∧ ts.flatMap chars = cs := by
  constructor
  · intro h
    fun_induction readParamChars whole cs generalizing ts with
    | case1 =>
      cases h
      exact ⟨by simp, rfl⟩
    | case2 | case3 | case4 => cases h
    | case5 c rest n hn t hread ts' htail ih =>
      cases h
      obtain ⟨ht, htake⟩ := readChars_eq_ok_iff.1 hread
      obtain ⟨hts, htext⟩ := ih htail
      refine ⟨List.forall_mem_cons.2 ⟨⟨ht, separable_of_firstLength hn hread⟩, hts⟩, ?_⟩
      rw [List.flatMap_cons, htake, htext, List.take_append_drop]
  · rintro ⟨hts, rfl⟩
    induction ts with
    | nil => simp [readParamChars]
    | cons t ts ih =>
      obtain ⟨⟨ht, hsep⟩, hts⟩ := List.forall_mem_cons.1 hts
      rw [List.flatMap_cons]
      refine readParamChars_of_first ?_ (firstLength_chars ht hsep) ?_ ?_
      · exact List.append_ne_nil_of_left_ne_nil (chars_ne_nil ht) _
      · rw [List.take_left]
        exact readChars_eq_ok_iff.2 ⟨ht, rfl⟩
      · rw [List.drop_left]
        exact ih hts

/-- The parameters of a method are written side by side. -/
theorem toList_join_descriptors (ts : List Ty) :
    (String.join (ts.map descriptor)).toList = ts.flatMap chars := by
  simp only [String.toList_join, List.flatMap_map, descriptor, String.toList_ofList]

/-- A text is read as a type exactly if the type is canonical and the text is its descriptor.  It is
read as a list of types exactly if these are canonical, no class name among them has a `;`, and the
text is their descriptors one after another. -/
theorem descriptors_round_trip (s : String) :
    (∀ t, read s = .ok t ↔ t.Canonical ∧ t.descriptor = s) ∧
      ∀ ts, readParams s = .ok ts ↔
        (∀ t ∈ ts, t.Canonical ∧ t.Separable) ∧ String.join (ts.map descriptor) = s := by
  refine ⟨fun t => ?_, fun ts => ?_⟩
  · rw [read, readChars_eq_ok_iff, ← String.toList_inj, descriptor, String.toList_ofList]
  · rw [readParams, readParamChars_eq_ok_iff, ← String.toList_inj, toList_join_descriptors]

/-- A parenthesis in a descriptor stands in the class name. -/
theorem parenthesis_mem_chars :
    ')' ∈ t.chars ↔ ∃ name, t.elementName? = some name ∧ ')' ∈ name.toList := by
  induction t with
  | array dims elem ih => simp [chars, elementName?, ih]
  | cls name => simp [chars, elementName?]
  | _ => simp [chars, elementName?]

end Ty

/-! ## Method references -/

namespace MethodRef

variable {cs before after : List Char} {p : Parts} {m : MethodRef}

/-- A text is cut at the first occurrence of a character. -/
theorem splitAt_eq_some_iff {sep : Char} :
    splitAt sep cs = some (before, after) ↔ sep ∉ before ∧ cs = before ++ sep :: after := by
  constructor
  · intro h
    fun_induction splitAt sep cs generalizing before with
    | case1 => cases h
    | case2 rest =>
      cases h
      exact ⟨List.not_mem_nil, rfl⟩
    | case3 c rest hc ih =>
      obtain ⟨⟨before, after⟩, hsplit, heq⟩ := Option.map_eq_some_iff.1 h
      cases heq
      obtain ⟨hbefore, rfl⟩ := ih hsplit
      exact ⟨List.not_mem_cons_of_ne_of_not_mem (Ne.symm hc) hbefore, rfl⟩
  · rintro ⟨hsep, rfl⟩
    induction before with
    | nil => simp [splitAt]
    | cons c before ih =>
      obtain ⟨hc, hsep⟩ := not_or.1 (mt List.mem_cons.2 hsep)
      rw [List.cons_append, splitAt, if_neg (Ne.symm hc), ih hsep, Option.map_some]

/-- The sign between the definer and the name of a method. -/
def arrow : List Char := ['-', '>']

/-- An arrow begins at the first character or later. -/
theorem arrow_infix_cons {c : Char} :
    arrow <:+: c :: before ↔ (c = '-' ∧ before.head? = some '>') ∨ arrow <:+: before := by
  rw [List.infix_cons_iff, arrow]
  cases before with
  | nil => simp
  | cons d before => simp [List.cons_prefix_cons, eq_comm]

/-- A text is cut at its first arrow. -/
theorem splitArrow_eq_some_iff :
    splitArrow cs = some (before, after) ↔ ¬ arrow <:+: before ∧ cs = before ++ arrow ++ after := by
  constructor
  · intro h
    fun_induction splitArrow cs generalizing before with
    | case1 rest =>
      cases h
      exact ⟨by simp [arrow], rfl⟩
    | case2 c rest hc ih =>
      obtain ⟨⟨before, after⟩, hsplit, heq⟩ := Option.map_eq_some_iff.1 h
      cases heq
      obtain ⟨hbefore, rfl⟩ := ih hsplit
      refine ⟨?_, rfl⟩
      rw [arrow_infix_cons]
      rintro (⟨rfl, hhead⟩ | hinfix)
      · obtain ⟨before, rfl⟩ := List.head?_eq_some_iff.1 hhead
        exact hc _ rfl rfl
      · exact hbefore hinfix
    | case3 => cases h
  · rintro ⟨harrow, rfl⟩
    induction before with
    | nil => rfl
    | cons c before ih =>
      obtain ⟨hc, hbefore⟩ := not_or.1 (mt arrow_infix_cons.2 harrow)
      rw [List.cons_append, List.cons_append, splitArrow, ih hbefore, Option.map_some]
      -- The first two characters are no arrow: the one of the text begins later.
      intro rest hminus hrest
      cases before with
      | nil => simp [arrow] at hrest
      | cons d before =>
        obtain ⟨rfl, _⟩ := List.cons.inj hrest
        exact hc ⟨hminus, rfl⟩

/-- The text that is cut into four parts. -/
def Parts.chars (p : Parts) : List Char :=
  p.definer ++ arrow ++ (p.name ++ '(' :: (p.params ++ ')' :: p.result))

/-- A reference to a method is cut at the first arrow and at its parentheses, in one way. -/
theorem parts?_eq_some_iff :
    parts? cs = some p ↔ (¬ arrow <:+: p.definer ∧ '(' ∉ p.name ∧ ')' ∉ p.params ∧ p.name ≠ []) ∧
      p.chars = cs := by
  unfold parts?
  constructor
  · intro h
    obtain ⟨⟨definer, rest⟩, hdefiner, h⟩ := Option.bind_eq_some_iff.1 h
    obtain ⟨⟨name, rest'⟩, hparen, h⟩ := Option.bind_eq_some_iff.1 h
    obtain ⟨⟨params, result⟩, hparams, h⟩ := Option.bind_eq_some_iff.1 h
    obtain ⟨hname, heq⟩ := Option.ite_none_left_eq_some.1 h
    cases heq
    obtain ⟨harrow, hcs⟩ := splitArrow_eq_some_iff.1 hdefiner
    obtain ⟨hopen, hrest⟩ := splitAt_eq_some_iff.1 hparen
    obtain ⟨hclose, hrest'⟩ := splitAt_eq_some_iff.1 hparams
    refine ⟨⟨harrow, hopen, hclose, hname⟩, ?_⟩
    rw [hcs, hrest, hrest', Parts.chars]
  · rintro ⟨⟨harrow, hopen, hclose, hname⟩, rfl⟩
    refine Option.bind_eq_some_iff.2 ⟨_, splitArrow_eq_some_iff.2 ⟨harrow, rfl⟩, ?_⟩
    refine Option.bind_eq_some_iff.2 ⟨_, splitAt_eq_some_iff.2 ⟨hopen, rfl⟩, ?_⟩
    refine Option.bind_eq_some_iff.2 ⟨_, splitAt_eq_some_iff.2 ⟨hclose, rfl⟩, ?_⟩
    exact if_neg hname

/-- The parts of the written form of a method. -/
def writtenParts (m : MethodRef) : Parts :=
  ⟨m.definer.chars, m.name.toList, m.params.flatMap Ty.chars, m.result.chars⟩

/-- The parts of a method make up its text. -/
theorem chars_writtenParts (m : MethodRef) : m.writtenParts.chars = m.chars := by
  simp [Parts.chars, writtenParts, chars, protoChars, arrow]

/-- The parts that are read are those that are written for canonical types. -/
theorem ofParts_eq_ok_iff :
    ofParts p = .ok m ↔ (m.definer.Canonical ∧ (∀ t ∈ m.params, t.Canonical ∧ t.Separable) ∧
      m.result.Canonical) ∧ p = m.writtenParts := by
  unfold ofParts
  constructor
  · intro h
    obtain ⟨definer, hdefiner, h⟩ := except_bind_ok.1 h
    obtain ⟨params, hparams, h⟩ := except_bind_ok.1 h
    obtain ⟨result, hresult, h⟩ := except_bind_ok.1 h
    cases h
    obtain ⟨hdefiner, hdefiner'⟩ := Ty.readChars_eq_ok_iff.1 hdefiner
    obtain ⟨hparams, hparams'⟩ := Ty.readParamChars_eq_ok_iff.1 hparams
    obtain ⟨hresult, hresult'⟩ := Ty.readChars_eq_ok_iff.1 hresult
    refine ⟨⟨hdefiner, hparams, hresult⟩, ?_⟩
    rw [String.toList_ofList] at hparams'
    simp only [writtenParts, hdefiner', hparams', hresult', String.toList_ofList]
  · rintro ⟨⟨hdefiner, hparams, hresult⟩, rfl⟩
    refine except_bind_ok.2 ⟨m.definer, Ty.readChars_eq_ok_iff.2 ⟨hdefiner, rfl⟩, ?_⟩
    refine except_bind_ok.2 ⟨m.params, Ty.readParamChars_eq_ok_iff.2 ⟨hparams, ?_⟩, ?_⟩
    · exact String.toList_ofList.symm
    refine except_bind_ok.2 ⟨m.result, Ty.readChars_eq_ok_iff.2 ⟨hresult, rfl⟩, ?_⟩
    simp only [writtenParts, String.ofList_toList]
    rfl

/-- A method whose written form shows where its parts begin and end. -/
structure Legible (m : MethodRef) : Prop where
  /-- Descriptors name the types. -/
  canonical : m.definer.Canonical ∧ (∀ t ∈ m.params, t.Canonical) ∧ m.result.Canonical
  /-- The first arrow is behind the definer. -/
  definer : ¬ arrow <:+: m.definer.chars
  /-- The first parenthesis is behind the name. -/
  name : m.name ≠ "" ∧ '(' ∉ m.name.toList
  /-- The class names among the parameters end neither their descriptor nor the list. -/
  params : ∀ t ∈ m.params, ∀ name, t.elementName? = some name →
    ';' ∉ name.toList ∧ ')' ∉ name.toList

/-- Only the name of a class can bring in a closing parenthesis. -/
theorem parenthesis_notMem_params :
    ')' ∉ m.params.flatMap Ty.chars ↔
      ∀ t ∈ m.params, ∀ name, t.elementName? = some name → ')' ∉ name.toList := by
  simp only [List.mem_flatMap, Ty.parenthesis_mem_chars, not_exists, not_and]

/-- A text is read as a method exactly if it is the written form of the method and the method is
legible. -/
theorem parse_eq_ok_iff (s : String) (m : MethodRef) :
    parse s = .ok m ↔ m.Legible ∧ m.text = s := by
  constructor
  · intro h
    unfold parse at h
    cases hparts : parts? s.toList with
    | none =>
      rw [hparts] at h
      cases h
    | some p =>
      rw [hparts] at h
      obtain ⟨⟨hdefiner, hparams, hresult⟩, rfl⟩ := ofParts_eq_ok_iff.1 h
      obtain ⟨⟨harrow, hopen, hclose, hname⟩, hchars⟩ := parts?_eq_some_iff.1 hparts
      rw [chars_writtenParts] at hchars
      refine ⟨⟨⟨hdefiner, fun t ht => (hparams t ht).1, hresult⟩, harrow, ⟨?_, hopen⟩, ?_⟩, ?_⟩
      · exact fun hempty => hname (String.toList_eq_nil_iff.2 hempty)
      · exact fun t ht name hn =>
          ⟨(hparams t ht).2 name hn, parenthesis_notMem_params.1 hclose t ht name hn⟩
      · rw [text, hchars, String.ofList_toList]
  · rintro ⟨⟨⟨hdefiner, hparams, hresult⟩, harrow, ⟨hname, hopen⟩, hnames⟩, rfl⟩
    have hclose := parenthesis_notMem_params.2 fun t ht name hn => (hnames t ht name hn).2
    have hparts : parts? m.text.toList = some m.writtenParts := by
      rw [text, String.toList_ofList]
      refine parts?_eq_some_iff.2 ⟨⟨harrow, hopen, hclose, ?_⟩, chars_writtenParts m⟩
      exact fun hempty => hname (String.toList_eq_nil_iff.1 hempty)
    rw [parse, hparts]
    refine ofParts_eq_ok_iff.2 ⟨⟨hdefiner, fun t ht => ⟨hparams t ht, ?_⟩, hresult⟩, rfl⟩
    exact fun name hn => (hnames t ht name hn).1

end MethodRef

end Dalvik
