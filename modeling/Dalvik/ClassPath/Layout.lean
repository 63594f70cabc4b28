import Dalvik.ClassPath.Memo
import Dalvik.Text.Order

/-!
# Layouts of objects

The fields of an object follow its header: those of the superclass, then those of the class.
The fields of a class are sorted by name and type and then grouped.  References come first.
Then come the wide fields, at multiples of eight bytes, and then all others.  If the references
end halfway between two multiples of eight, one narrow field moves up into the gap.

Grouping is not stable.  `bringForward` exchanges each field that has to go with the last one
that has to come, and this decides which field has which offset.
-/

namespace Dalvik.ClassPath

/-! ## Grouping -/

/-- Cuts a list at its last element with a property: what stands before it, the element, what
stands after it. -/
def splitLast? {α : Type} (p : α → Bool) : List α → Option (List α × α × List α)
  | [] => none
  | x :: rest =>
    match splitLast? p rest with
    | some (before, y, after) => some (x :: before, y, after)
    | none => if p x then some ([], x, rest) else none

/-- What stands before the last element with a property is shorter than the list. -/
theorem length_lt_of_splitLast? {α : Type} {p : α → Bool} {l before after : List α} {y : α}
    (h : splitLast? p l = some (before, y, after)) : before.length < l.length := by
  induction l generalizing before y after with
  | nil => cases h
  | cons x rest ih =>
    unfold splitLast? at h
    split at h
    · next hrest =>
      simp only [Option.some.injEq, Prod.mk.injEq] at h
      obtain ⟨rfl, _, _⟩ := h
      have := ih hrest
      simp only [List.length_cons]
      omega
    · split at h
      · simp only [Option.some.injEq, Prod.mk.injEq] at h
        obtain ⟨rfl, _, _⟩ := h
        simp
      · cases h

/-- Brings the elements with a property to the front.  From the left, each element without it
changes places with the last element that has it. -/
def bringForward {α : Type} (p : α → Bool) (l : List α) : List α :=
  match l with
  | [] => []
  | x :: rest =>
    if p x then x :: bringForward p rest
    else
      match _h : splitLast? p rest with
      | none => x :: rest
      | some (before, y, after) => y :: bringForward p before ++ x :: after
termination_by l.length
decreasing_by
  · simp
  · have := length_lt_of_splitLast? _h
    simp only [List.length_cons]
    omega

/-- Whether a field holds a reference. -/
def isReferenceField (f : FieldRef) : Bool := f.ty.isReference

/-- Whether a field takes eight bytes. -/
def isWideField (f : FieldRef) : Bool := f.ty.isWide

/-- Whether a field holds a number of four bytes. -/
def isNarrowField (f : FieldRef) : Bool := !isReferenceField f && !isWideField f

/-- Moves a narrow field to the front of fields that are not references.  If the first one is
wide it changes places with the last narrow one, if there is one. -/
def fillGap (fields : List FieldRef) : List FieldRef × List FieldRef :=
  match fields with
  | [] => ([], [])
  | x :: rest =>
    if isWideField x then
      match splitLast? isNarrowField rest with
      | some (before, y, after) => ([y], before ++ x :: after)
      | none => ([], fields)
    else ([x], rest)

/-- The fields of a class in the order of their offsets, when the first free offset is given. -/
def arrange (start : Nat) (fields : List FieldRef) : List FieldRef :=
  let sorted := fields.mergeSort fun a b =>
    Text.listLe [a.name, a.ty.descriptor] [b.name, b.ty.descriptor]
  let grouped := bringForward isReferenceField sorted
  let refs := grouped.takeWhile isReferenceField
  let others := grouped.dropWhile isReferenceField
  let (gap, rest) :=
    if (start + 4 * refs.length) % 8 ≠ 0 then fillGap others else ([], others)
  refs ++ gap ++ bringForward isWideField rest

/-- Gives fields their offsets from an offset on.  The first wide field is aligned. -/
def placeFields (offset : Nat) (aligned : Bool) : List FieldRef → List Placed
  | [] => []
  | f :: rest =>
    if f.ty.isWide then
      let at_ := if !aligned && offset % 8 != 0 then offset + 4 else offset
      ⟨at_, f⟩ :: placeFields (at_ + 8) true rest
    else ⟨offset, f⟩ :: placeFields (offset + 4) aligned rest

/-- The layout of a class over that of its superclass. -/
def extendLayout (c : ClassDef) (above : Layout) : Layout :=
  let own := c.instanceFields.map fun f => f.ref c.ty
  ⟨above.fields ++ placeFields above.next false (arrange above.next own)⟩

/-! ## Layouts of classes -/

/-- The layout of a defined class, when that of its superclass is given.  A superclass that is
not a class has no fields. -/
def collectLayout {σ : Type} (inherited : String → Asking σ Layout) (c : ClassDef) :
    Asking σ Layout :=
  match c.superclass? with
  | none => pure (extendLayout c ⟨[]⟩)
  | some s => do
    match ← Asking.lift (TypeNode.ofTy s) with
    | .cls name =>
      let above ← inherited name
      pure (extendLayout c above)
    | _ => pure (extendLayout c ⟨[]⟩)

/-- The layout of the objects of a class.  `open_` are the classes whose layouts are being
computed. -/
def layoutFrom (cp : ClassPath) (open_ : List String) (d : String) : Query Layout := fun m =>
  match m.layouts.lookup d with
  | some known => .ok known m
  | none =>
    if _hopen : d ∈ open_ then .error (.cycle d) m
    else
      match _hdef : cp.def? d with
      | none => .error (.unresolvedClass d) m
      | some c =>
        match collectLayout (fun name => layoutFrom cp (d :: open_) name) c m with
        | .ok found m => .ok found (m.addLayout d found)
        | .error e m => .error e m
termination_by cp.unmet open_
decreasing_by exact unmet_cons_lt _hdef _hopen

/-- The layout of the objects of a class. -/
def layoutOf (cp : ClassPath) (d : String) : Query Layout := cp.layoutFrom [] d

/-- The one field of an array that has a place: its length, right after the header. -/
def arrayField? (dims : Nat) (element : String) (offset : Nat) : Option FieldRef :=
  if offset = Layout.header then
    (Ty.ofChars? (TypeNode.arrayDescriptor dims element).toList).map fun t => ⟨t, "length", .int⟩
  else none

/-- The field at an offset into the objects of a node.  Of an unknown class, the fields of the
root class are known. -/
def fieldAt? (cp : ClassPath) (n : TypeNode) (offset : Nat) : Query (Option FieldRef) :=
  let lookup (d : String) : Query (Option FieldRef) := do
    let l ← cp.layoutOf d
    return l.fieldAt? offset
  match n with
  | .cls d => lookup d
  | .array dims element => pure (arrayField? dims element offset)
  | .unknown => lookup objectClass
  | .primitive _ => pure none

end Dalvik.ClassPath
