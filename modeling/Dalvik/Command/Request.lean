/-!
# Requests

The arguments of the command that lists an inline table.  A table is chosen by the version of
the virtual machine or by a file, never by both.  A filter selects the methods to list.

A long option has its value in the next argument, or behind an equals sign.  Short options have
no value and can be grouped.  No option is given twice, and every argument belongs to an
option.
-/

namespace Dalvik.Command

/-! ## Options -/

/-- An option that takes a value. -/
inductive Setting where
  | version
  | file
  | filter
  deriving DecidableEq, Repr

/-- An option without a value. -/
inductive Switch where
  | debug
  | verbose
  | structured
  deriving DecidableEq, Repr

/-- What a long name stands for. -/
inductive LongOption where
  | setting (s : Setting)
  | switch (s : Switch)
  deriving DecidableEq, Repr

/-- The option of a long name. -/
def LongOption.ofName? (name : String) : Option LongOption :=
  match name with
  | "vm-version" => some (.setting .version)
  | "inline-table" => some (.setting .file)
  | "filter-method" => some (.setting .filter)
  | "debug" => some (.switch .debug)
  | "verbose" => some (.switch .verbose)
  | "ecslog" => some (.switch .structured)
  | _ => none

/-- The option of a short name. -/
def Switch.ofLetter? (c : Char) : Option Switch :=
  match c with
  | 'd' => some .debug
  | 'v' => some .verbose
  | 'e' => some .structured
  | _ => none

/-- The options given so far. -/
structure Given where
  /-- The options with their values. -/
  settings : List (Setting × String) := []
  /-- The options without a value. -/
  switches : List Switch := []
  deriving DecidableEq, Repr

namespace Given

/-- Adds an option with its value, unless it is there. -/
def set? (g : Given) (s : Setting) (value : String) : Option Given :=
  if (g.settings.lookup s).isSome then none
  else some { g with settings := (s, value) :: g.settings }

/-- Adds an option without a value, unless it is there. -/
def switch? (g : Given) (s : Switch) : Option Given :=
  if g.switches.contains s then none else some { g with switches := s :: g.switches }

/-- Adds a group of short options. -/
def letters? (g : Given) (letters : List Char) : Option Given :=
  letters.foldlM (fun g c => (Switch.ofLetter? c).bind g.switch?) g

end Given

/-! ## Arguments -/

/-- What one argument is. -/
inductive Argument where
  /-- The end of the options. -/
  | stop
  /-- A long option, with the value behind its equals sign. -/
  | long (name : String) (attached? : Option String)
  /-- A group of short options. -/
  | short (letters : List Char)
  /-- A value. -/
  | value (text : String)
  deriving DecidableEq, Repr

/-- Takes an argument for what its first characters say.  A lone dash is a value. -/
def Argument.ofText (text : String) : Argument :=
  match text.toList with
  | ['-', '-'] => .stop
  | '-' :: '-' :: rest =>
    match rest.dropWhile (· != '=') with
    | [] => .long (String.ofList rest) none
    | _ :: attached =>
      .long (String.ofList (rest.takeWhile (· != '='))) (some (String.ofList attached))
  | '-' :: c :: letters => .short (c :: letters)
  | _ => .value text

/-- Reads arguments. -/
def collect? (g : Given) : List String → Option Given
  | [] => some g
  | arg :: rest =>
    match Argument.ofText arg with
    | .stop => if rest = [] then some g else none
    | .value _ => none
    | .short letters => (g.letters? letters).bind fun g => collect? g rest
    | .long name attached? =>
      match LongOption.ofName? name, attached?, rest with
      | some (.switch s), none, rest => (g.switch? s).bind fun g => collect? g rest
      | some (.setting s), some v, rest => (g.set? s v).bind fun g => collect? g rest
      | some (.setting s), none, next :: rest =>
        match Argument.ofText next with
        | .value v => (g.set? s v).bind fun g => collect? g rest
        | _ => none
      | _, _, _ => none

/-! ## Requests -/

/-- Where the table comes from. -/
inductive Source where
  | version (n : Nat)
  | file (path : String)
  deriving DecidableEq, Repr

/-- What is asked for. -/
structure Request where
  /-- Where the table comes from. -/
  source : Source
  /-- The filter on the methods. -/
  filter? : Option String
  deriving DecidableEq, Repr

/-- The largest version that can be written. -/
def maxVersion : Nat := 0xFFFFFFFF

/-- The value of decimal digits. -/
def digitsValue (digits : List Char) : Nat :=
  digits.foldl (fun n c => n * 10 + (c.toNat - '0'.toNat)) 0

/-- Reads decimal digits whose value is at most a number. -/
def readDigits? (most : Nat) (digits : List Char) : Option Nat :=
  if digits ≠ [] ∧ digits.all Char.isDigit ∧ digitsValue digits ≤ most then
    some (digitsValue digits)
  else none

/-- Reads a version: decimal digits, after a sign or not.  Only zero can be negative. -/
def readVersion? (text : String) : Option Nat :=
  match text.toList with
  | '+' :: digits => readDigits? maxVersion digits
  | '-' :: digits => readDigits? 0 digits
  | digits => readDigits? maxVersion digits

/-- The source that the options name.  They name exactly one. -/
def Given.source? (g : Given) : Option Source :=
  match g.settings.lookup .version, g.settings.lookup .file with
  | some text, none => (readVersion? text).map .version
  | none, some path => some (.file path)
  | _, _ => none

/-- Reads the arguments of a request. -/
def Request.ofArgs? (args : List String) : Option Request := do
  let g ← collect? {} args
  return ⟨← g.source?, g.settings.lookup .filter⟩

end Dalvik.Command
