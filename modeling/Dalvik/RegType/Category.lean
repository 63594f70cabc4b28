import Dalvik.RegType.Narrow

/-!
# Categories of values

A register holds nothing yet, a narrow number, one half of a wide number, a reference, or an
object before its constructor call.  At the bottom is the category of code that was not reached,
and at the top that of values which do not go together.  `Category.join` is the category of a
value that comes from either of two places.
-/

namespace Dalvik

/-- One register of a pair that holds a wide number. -/
inductive WideHalf where
  | longLo
  | longHi
  | doubleLo
  | doubleHi
  deriving DecidableEq, Repr

namespace WideHalf

/-- The name of a half. -/
def name : WideHalf → String
  | .longLo => "LongLo"
  | .longHi => "LongHi"
  | .doubleLo => "DoubleLo"
  | .doubleHi => "DoubleHi"

/-- The half that follows a first half. -/
def high? : WideHalf → Option WideHalf
  | .longLo => some .longHi
  | .doubleLo => some .doubleHi
  | _ => none

/-- Two low halves, or two high halves, are at least 64 bits of the same place. -/
def join? : WideHalf → WideHalf → Option WideHalf
  | .longLo, .longLo => some .longLo
  | .longLo, .doubleLo => some .longLo
  | .doubleLo, .longLo => some .longLo
  | .doubleLo, .doubleLo => some .doubleLo
  | .longHi, .longHi => some .longHi
  | .longHi, .doubleHi => some .longHi
  | .doubleHi, .longHi => some .longHi
  | .doubleHi, .doubleHi => some .doubleHi
  | _, _ => none

end WideHalf

/-- What kind of value a register holds. -/
inductive Category where
  /-- The code was not reached. -/
  | unknown
  /-- Nothing was written yet. -/
  | uninit
  | narrow (n : Narrow)
  | half (h : WideHalf)
  /-- A new object before its constructor call. -/
  | uninitRef
  /-- The receiver of a constructor before the constructor call of its superclass. -/
  | uninitThis
  | reference
  /-- Values that do not go together. -/
  | conflicted
  deriving DecidableEq, Repr

namespace Category

/-- The name of a category. -/
def name : Category → String
  | .unknown => "Unknown"
  | .uninit => "Uninit"
  | .narrow n => n.name
  | .half h => h.name
  | .uninitRef => "UninitRef"
  | .uninitThis => "UninitThis"
  | .reference => "Reference"
  | .conflicted => "Conflicted"

/-- Every category. -/
def all : List Category :=
  [.unknown, .uninit] ++
  [Narrow.null, .one, .boolean, .byte, .posByte, .short, .posShort, .char, .integer, .float].map
    .narrow ++
  [WideHalf.longLo, .longHi, .doubleLo, .doubleHi].map .half ++
  [.uninitRef, .uninitThis, .reference, .conflicted]

/-- The category of a name. -/
def ofName? (s : String) : Option Category := all.find? fun c => c.name == s

/-- The category of a value that comes from either of two places.  Two new objects never go
together, since each is known by the place that made it. -/
def join : Category → Category → Category
  | .unknown, c => c
  | c, .unknown => c
  | .narrow a, .narrow b => .narrow (a.join b)
  | .half a, .half b =>
    match a.join? b with
    | some h => .half h
    | none => .conflicted
  | .narrow .null, .reference => .reference
  | .reference, .narrow .null => .reference
  | .reference, .reference => .reference
  | .uninit, .uninit => .uninit
  | .uninitThis, .uninitThis => .uninitThis
  | _, _ => .conflicted

end Category

end Dalvik
