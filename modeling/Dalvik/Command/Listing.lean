import Dalvik.Command.Request
import Dalvik.InlineTable

/-!
# Listings

The listing of an inline table has one line per index.  An index that stands for several methods
is marked in red.  With a filter, only the methods whose line matches are listed.

The methods of a table in a file are looked up in the classes of the built-in table.
-/

namespace Dalvik.Command

/-! ## Filters -/

/-- A pattern for lines: characters in a row, perhaps at the start or at the end of the line.  A
point stands for any character. -/
structure Filter where
  /-- Whether the line has to start with the characters. -/
  atStart : Bool
  /-- The characters, or nothing for any character. -/
  chars : List (Option Char)
  /-- Whether the line has to end with the characters. -/
  atEnd : Bool
  deriving DecidableEq, Repr

namespace Filter

/-- The character a filter has for a character of its text. -/
def charOf (c : Char) : Option Char := if c = '.' then none else some c

/-- Reads a filter.  A group or a class that is opened has to be closed, and neither is
supported. -/
def ofText? (text : String) : Option Filter :=
  let (atStart, rest) :=
    match text.toList with
    | '^' :: rest => (true, rest)
    | all => (false, all)
  let (atEnd, middle) :=
    match rest.reverse with
    | '$' :: before => (true, before.reverse)
    | _ => (false, rest)
  if middle.any fun c => c == '(' || c == ')' || c == '[' then none
  else some ⟨atStart, middle.map charOf, atEnd⟩

/-- Whether characters start with those of a filter, and end with them if they have to. -/
def matchesHere (atEnd : Bool) : List (Option Char) → List Char → Bool
  | [], rest => !atEnd || rest.isEmpty
  | _ :: _, [] => false
  | p :: ps, c :: cs => (p.isNone || p == some c) && matchesHere atEnd ps cs

/-- Whether characters hold those of a filter somewhere. -/
def matchesSomewhere (f : Filter) : List Char → Bool
  | [] => matchesHere f.atEnd f.chars []
  | c :: cs => matchesHere f.atEnd f.chars (c :: cs) || matchesSomewhere f cs

/-- Whether a line matches a filter. -/
def accepts (f : Filter) (line : String) : Bool :=
  if f.atStart then matchesHere f.atEnd f.chars line.toList else f.matchesSomewhere line.toList

end Filter

/-! ## Lines -/

/-- An index, set to the right of three columns. -/
def indexText (i : Nat) : String :=
  let digits := toString i
  String.ofList (List.replicate (3 - digits.length) ' ') ++ digits

/-- A text in red. -/
def red (s : String) : String := "\x1b[31m" ++ s ++ "\x1b[0m"

/-- The line of an entry, unless the filter leaves it out. -/
def entryLine? (filter? : Option Filter) (i : Nat) (e : InlineEntry) : Option String :=
  match e.fixed?, filter? with
  | some m, none => some (indexText i ++ ": " ++ m.text)
  | some m, some f =>
    let line := indexText i ++ ": " ++ m.text
    if f.accepts line then some line else none
  | none, none => some (red (indexText i ++ ": <resolved by arguments count>"))
  | none, some _ => none

/-- The lines of a table. -/
def tableLines (filter? : Option Filter) (t : InlineTable) : List String :=
  t.entries.zipIdx.filterMap fun (e, i) => entryLine? filter? i e

/-! ## Answers -/

/-- Why a request fails. -/
inductive Failure where
  /-- The file cannot be read. -/
  | unreadable
  /-- The filter is malformed. -/
  | filter
  /-- There is no such table. -/
  | table (e : AnalysisError)
  deriving DecidableEq, Repr

/-- The wording of a failure. -/
def Failure.message : Failure → String
  | .unreadable => "cannot read the inline table"
  | .filter => "cannot read the filter"
  | .table e => e.message

/-- The class of some methods. -/
def classOfMethods (definer : Ty) (methods : List InlineMethod) : ClassDef where
  ty := definer
  flags := .ofList [.pub]
  superclass? := some (.cls "java/lang/Object")
  methods := methods.map fun m => ⟨m.method.name, m.method.params, m.method.result, m.flags, none⟩

/-- The classes of the methods of the built-in table. -/
def frameworkPath : ClassPath :=
  let methods := InlineTable.version36.entries.filterMap InlineEntry.fixed?
  let definers := (methods.map fun m => m.method.definer).eraseDups
  let classes := definers.map fun t =>
    classOfMethods t (methods.filter fun m => m.method.definer = t)
  .ofClasses classes defaultLevel

/-- The table of a source, when the text of its file is given. -/
def Source.table (s : Source) (contents? : Option String) : Except Failure InlineTable :=
  match s, contents? with
  | .version n, _ => (InlineTable.ofVersion n).mapError .table
  | .file _, none => .error .unreadable
  | .file _, some text => (InlineTable.ofText frameworkPath text).mapError .table

/-- The lines that answer a request, when the text of its file is given. -/
def Request.listing (r : Request) (contents? : Option String) : Except Failure (List String) := do
  let table ← r.source.table contents?
  match r.filter? with
  | none => return tableLines none table
  | some text =>
    match Filter.ofText? text with
    | none => throw .filter
    | some f => return tableLines (some f) table

end Dalvik.Command
