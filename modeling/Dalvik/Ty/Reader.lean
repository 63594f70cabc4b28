import Dalvik.ModelError

/-!
# Reading descriptors

A descriptor is brackets followed by an element: one letter, or `L`, a name that is not empty,
and `;`.  Nothing else is asked of the name of a single type, which may hold any character.

A parameter list is descriptors one after another.  Each is cut off before it is read.  After
its brackets an element that starts with `L` goes to the next `;`, any other is one byte long.
A cut inside a character that takes several bytes is a failure of its own.
-/

namespace Dalvik

namespace Ty

/-- The brackets a text starts with, counted, and what follows them. -/
def splitBrackets : List Char → Nat × List Char
  | '[' :: rest => let (n, elem) := splitBrackets rest; (n + 1, elem)
  | elem => (0, elem)

/-- The name of a class descriptor without its brackets: what stands between `L` and a final
`;`, if that is not empty. -/
def className? : List Char → Option String
  | 'L' :: rest =>
    if rest.getLast? = some ';' ∧ rest.dropLast ≠ [] then some (String.ofList rest.dropLast)
    else none
  | _ => none

/-- The type a text without brackets names. -/
def ofElement? : List Char → Option Ty
  | ['V'] => some .void
  | ['Z'] => some .boolean
  | ['B'] => some .byte
  | ['S'] => some .short
  | ['C'] => some .char
  | ['I'] => some .int
  | ['J'] => some .long
  | ['F'] => some .float
  | ['D'] => some .double
  | elem => (className? elem).map .cls

/-- The type a descriptor names. -/
def ofChars? (cs : List Char) : Option Ty :=
  let (dims, elem) := splitBrackets cs
  if maxDims < dims ∨ (0 < dims ∧ elem = ['V']) then none
  else (ofElement? elem).map (·.arrayOf dims)

/-- Reads a descriptor given as characters. -/
def readChars (cs : List Char) : Except ModelError Ty :=
  match ofChars? cs with
  | some t => .ok t
  | none => .error (.unreadable (String.ofList cs) .type)

/-- Reads a descriptor. -/
def read (text : String) : Except ModelError Ty := readChars text.toList

/-- The length of what a text has up to and including the first `;`. -/
def nameLength? : List Char → Option Nat
  | [] => none
  | ';' :: _ => some 1
  | _ :: rest => (nameLength? rest).map (· + 1)

/-- The number of characters of the first parameter of a list.  `whole` is the list in
messages. -/
def firstLength (whole : String) (cs : List Char) : Except ModelError Nat :=
  match splitBrackets cs with
  | (dims, 'L' :: rest) =>
    match nameLength? rest with
    | some n => .ok (dims + 1 + n)
    | none => .error (.unreadable whole .parameters)
  | (dims, c :: _) => if c.utf8Size = 1 then .ok (dims + 1) else .error .insideCharacter
  | (_, []) => .error (.unreadable whole .parameters)

/-- The first parameter of a list is not empty. -/
theorem firstLength_pos {whole : String} {cs : List Char} {n : Nat}
    (h : firstLength whole cs = .ok n) : 0 < n := by
  unfold firstLength at h
  split at h
  · split at h
    · injection h with h
      omega
    · cases h
  · split at h
    · injection h with h
      omega
    · cases h
  · cases h

/-- Reads the parameters of a list, given as characters.  `whole` is the list in messages. -/
def readParamChars (whole : String) (cs : List Char) : Except ModelError (List Ty) :=
  match cs with
  | [] => .ok []
  | c :: rest =>
    match _h : firstLength whole (c :: rest) with
    | .error e => .error e
    | .ok n =>
      match readChars ((c :: rest).take n) with
      | .error e => .error e
      | .ok t =>
        match readParamChars whole ((c :: rest).drop n) with
        | .error e => .error e
        | .ok ts => .ok (t :: ts)
termination_by cs.length
decreasing_by
  have := firstLength_pos _h
  simp only [List.length_drop, List.length_cons]
  omega

/-- Reads a parameter list. -/
def readParams (text : String) : Except ModelError (List Ty) :=
  readParamChars text text.toList

/-- The internal name of a class type. -/
def asClassName : Ty → Except ModelError String
  | .cls name => .ok name
  | t => .error (.notAClass t)

end Ty

end Dalvik
