/-!
# Access flags

Classes, fields and methods carry flags.  A flag is a bit, and the same bit can mean one thing
on a field and another on a method.  So a set of flags is typed by what carries it, and only the
bits that mean something there are kept.
-/

namespace Dalvik

/-- An access flag. -/
inductive Flag where
  | pub
  | priv
  | prot
  | static
  | final
  | synchronized
  | volatile
  | bridge
  | transient
  | varargs
  | native
  | interface
  | abstract
  | strict
  | synthetic
  | annotated
  | enum
  | constructor
  | declaredSynchronized
  deriving DecidableEq, Repr

namespace Flag

/-- The position of the bit of a flag. -/
def bit : Flag → Nat
  | .pub => 0
  | .priv => 1
  | .prot => 2
  | .static => 3
  | .final => 4
  | .synchronized => 5
  | .volatile | .bridge => 6
  | .transient | .varargs => 7
  | .native => 8
  | .interface => 9
  | .abstract => 10
  | .strict => 11
  | .synthetic => 12
  | .annotated => 13
  | .enum => 14
  | .constructor => 16
  | .declaredSynchronized => 17

/-- The written form of a flag. -/
def text : Flag → String
  | .pub => "public"
  | .priv => "private"
  | .prot => "protected"
  | .static => "static"
  | .final => "final"
  | .synchronized => "synchronized"
  | .volatile => "volatile"
  | .bridge => "bridge"
  | .transient => "transient"
  | .varargs => "varargs"
  | .native => "native"
  | .interface => "interface"
  | .abstract => "abstract"
  | .strict => "strict"
  | .synthetic => "synthetic"
  | .annotated => "annotation"
  | .enum => "enum"
  | .constructor => "constructor"
  | .declaredSynchronized => "declared_synchronized"

end Flag

/-- What carries flags. -/
inductive Carrier where
  | cls
  | field
  | method
  deriving DecidableEq, Repr

/-- The flags that mean something on a carrier, in the order they are written. -/
def Carrier.flags : Carrier → List Flag
  | .cls =>
    [.pub, .priv, .prot, .static, .final, .interface, .abstract, .synthetic, .annotated, .enum]
  | .field => [.pub, .priv, .prot, .static, .final, .volatile, .transient, .synthetic, .enum]
  | .method =>
    [.pub, .priv, .prot, .static, .final, .synchronized, .bridge, .varargs, .native, .abstract,
      .strict, .synthetic, .constructor, .declaredSynchronized]

/-- The flags of a class, a field or a method. -/
structure Flags (k : Carrier) where
  /-- The flags as one number. -/
  bits : Nat
  deriving DecidableEq, Repr, Inhabited

namespace Flags

variable {k : Carrier}

/-- A set of flags, as a number with a bit for each. -/
def ofList (flags : List Flag) : Flags k :=
  ⟨flags.foldl (fun bits f => bits ||| 1 <<< f.bit) 0⟩

/-- The flags a number stands for.  Bits that mean nothing here are dropped. -/
def ofBits (n : Nat) : Flags k := ofList (k.flags.filter fun f => n.testBit f.bit)

/-- No flag. -/
def none : Flags k := ⟨0⟩

/-- Whether a flag is set. -/
def has (flags : Flags k) (f : Flag) : Bool := flags.bits.testBit f.bit

/-- Whether a number has only bits that mean something here. -/
def isExact (k : Carrier) (n : Nat) : Bool := (ofBits n : Flags k).bits == n

/-- The flags that are set, each followed by a space. -/
def text (flags : Flags k) : String :=
  String.join ((k.flags.filter flags.has).map fun f => f.text ++ " ")

/-- Whether only the package of its class sees a member: no other visibility is given. -/
def isPackagePrivate (flags : Flags k) : Bool :=
  !(flags.has .pub || flags.has .priv || flags.has .prot)

end Flags

end Dalvik
