import Dalvik.AnalysisError

/-!
# Inline tables

The optimiser replaces calls to a few methods by an index into a table of the virtual machine.
Two versions of the machine have a built-in table.  In the second, two indices stand for
different methods on different devices, which are told apart by the number of registers that
are passed.  A table can also be given as text, one method per line.
-/

namespace Dalvik

/-- A method an index stands for. -/
structure InlineMethod where
  /-- The method. -/
  method : MethodRef
  /-- Its access flags, which decide how it is called. -/
  flags : Flags .method
  deriving DecidableEq, Repr

namespace InlineMethod

/-- Whether the method has no receiver. -/
def isStatic (m : InlineMethod) : Bool := m.flags.has .static

/-- Whether only the class of the method sees it. -/
def isPrivate (m : InlineMethod) : Bool := m.flags.has .priv

/-- The written form of a method with its flags. -/
def text (m : InlineMethod) : String := m.flags.text ++ m.method.text

end InlineMethod

/-- What an index stands for. -/
inductive InlineEntry where
  /-- One method. -/
  | fixed (m : InlineMethod)
  /-- A method for each of some numbers of argument registers. -/
  | byCount (choices : List (Nat × InlineMethod))
  deriving DecidableEq, Repr

/-- The method of an entry that stands for one only. -/
def InlineEntry.fixed? : InlineEntry → Option InlineMethod
  | .fixed m => some m
  | .byCount _ => none

/-- The methods of a virtual machine by index. -/
structure InlineTable where
  /-- The entries, in order of index. -/
  entries : List InlineEntry
  deriving DecidableEq, Repr

namespace InlineTable

/-- The method an index stands for in a call with a number of argument registers. -/
def resolve (t : InlineTable) (index count : Nat) : Except AnalysisError InlineMethod :=
  match t.entries[index]? with
  | none => .error (.inlineIndex index)
  | some (.fixed m) => .ok m
  | some (.byCount choices) =>
    match choices.lookup count with
    | some m => .ok m
    | none => .error .inlineAmbiguous

/-! ## Built-in tables -/

/-- A method of a class that is called without receiver. -/
def static (cls name : String) (params : List Ty) (result : Ty) : InlineMethod :=
  ⟨⟨.cls cls, name, params, result⟩, .ofList [.static]⟩

/-- A public method of strings. -/
def string (name : String) (params : List Ty) (result : Ty) : InlineMethod :=
  ⟨⟨.cls "java/lang/String", name, params, result⟩, .ofList [.pub]⟩

/-- A private method of strings. -/
def privateString (name : String) (params : List Ty) (result : Ty) : InlineMethod :=
  ⟨⟨.cls "java/lang/String", name, params, result⟩, .ofList [.priv]⟩

/-- The methods that start both tables. -/
def common : List InlineMethod :=
  [static "org/apache/harmony/dalvik/NativeTestTarget" "emptyInlineMethod" [] .void,
    string "charAt" [.int] .char,
    string "compareTo" [.cls "java/lang/String"] .int,
    string "equals" [.cls "java/lang/Object"] .boolean]

/-- The methods on lengths and numbers of both tables. -/
def numeric : List InlineMethod :=
  [string "length" [] .int,
    static "java/lang/Math" "abs" [.int] .int,
    static "java/lang/Math" "abs" [.long] .long,
    static "java/lang/Math" "abs" [.float] .float,
    static "java/lang/Math" "abs" [.double] .double,
    static "java/lang/Math" "min" [.int, .int] .int,
    static "java/lang/Math" "max" [.int, .int] .int,
    static "java/lang/Math" "sqrt" [.double] .double,
    static "java/lang/Math" "cos" [.double] .double,
    static "java/lang/Math" "sin" [.double] .double]

/-- The methods on representations of numbers, and the strict ones. -/
def bitwise : List InlineMethod :=
  [static "java/lang/Float" "floatToIntBits" [.float] .int,
    static "java/lang/Float" "floatToRawIntBits" [.float] .int,
    static "java/lang/Float" "intBitsToFloat" [.int] .float,
    static "java/lang/Double" "doubleToLongBits" [.double] .long,
    static "java/lang/Double" "doubleToRawLongBits" [.double] .long,
    static "java/lang/Double" "longBitsToDouble" [.long] .double,
    static "java/lang/StrictMath" "abs" [.int] .int,
    static "java/lang/StrictMath" "abs" [.long] .long,
    static "java/lang/StrictMath" "abs" [.float] .float,
    static "java/lang/StrictMath" "abs" [.double] .double,
    static "java/lang/StrictMath" "min" [.int, .int] .int,
    static "java/lang/StrictMath" "max" [.int, .int] .int,
    static "java/lang/StrictMath" "sqrt" [.double] .double]

/-- The two entries told apart by the number of argument registers. -/
def searches : List InlineEntry :=
  [.byCount [(2, string "indexOf" [.int] .int), (3, privateString "fastIndexOf" [.int, .int] .int)],
    .byCount [(3, string "indexOf" [.int, .int] .int), (1, string "isEmpty" [] .boolean)]]

/-- The table of version 35. -/
def version35 : InlineTable := ⟨(common ++ numeric).map .fixed⟩

/-- The table of version 36. -/
def version36 : InlineTable :=
  ⟨common.map .fixed ++ searches ++ (numeric ++ bitwise).map .fixed⟩

/-- The table of a version of the virtual machine. -/
def ofVersion (version : Nat) : Except AnalysisError InlineTable :=
  match version with
  | 35 => .ok version35
  | 36 => .ok version36
  | v => .error (.unsupportedVersion v)

/-! ## Tables given as text -/

/-- The lines of a text.  A line ends with a line feed, before which a carriage return does not
count.  `line` has the characters of the current line, last first. -/
def linesFrom (line : List Char) : List Char → List (List Char)
  | [] => if line = [] then [] else [line.reverse]
  | '\n' :: rest =>
    (match line with
      | '\r' :: before => before.reverse
      | all => all.reverse) :: linesFrom [] rest
  | c :: rest => linesFrom (c :: line) rest

/-- The lines of a text that are not empty. -/
def lines (text : String) : List String :=
  ((linesFrom [] text.toList).filter fun l => l ≠ []).map String.ofList

/-- Cuts a line into the parts of a method reference.  The definer is a class whose name has no
`;`, and the result is not empty. -/
def parts? (line : List Char) : Option MethodRef.Parts :=
  match line with
  | 'L' :: rest => do
    let (cls, rest) ← MethodRef.splitAt ';' rest
    match rest with
    | '-' :: '>' :: rest => do
      let (name, rest) ← MethodRef.splitAt '(' rest
      let (params, result) ← MethodRef.splitAt ')' rest
      if cls = [] ∨ name = [] ∨ result = [] then none
      else some ⟨'L' :: cls ++ [';'], name, params, result⟩
    | _ => none
  | _ => none

/-- The method a line names, which has to be declared by its class. -/
def readLine (cp : ClassPath) (line : String) : Except AnalysisError InlineMethod :=
  match parts? line.toList with
  | none => .error (.invalidInlineDescriptor line)
  | some p =>
    match MethodRef.ofParts p with
    | .error e => .error (.model e)
    | .ok m =>
      match (cp.def? (String.ofList p.definer)).bind fun c =>
          c.methods.find? fun d => (d.ref m.definer).sameSignature m with
      | some d => .ok ⟨m, d.flags⟩
      | none => .error (.unresolvedInline line)

/-- The table of a text, one method per line that is not empty. -/
def ofText (cp : ClassPath) (text : String) : Except AnalysisError InlineTable := do
  let methods ← (lines text).mapM (readLine cp)
  return ⟨methods.map .fixed⟩

end InlineTable

end Dalvik
