import Dalvik.Text.Quoted

/-!
# Code addresses

An address counts 16-bit code units from the start of a method body, in a machine word.  What goes
past the last address goes on from the first one.
-/

namespace Dalvik

/-- A number of code units in a machine word. -/
instance wordOfNat : Coe Nat UInt64 := ⟨UInt64.ofNat⟩

/-- An address in a method body. -/
structure Addr where
  /-- Code units before it. -/
  units : UInt64
  deriving DecidableEq, Repr, Inhabited

namespace Addr

/-- The number of addresses. -/
def space : Nat := 18446744073709551616

/-- The address of the first instruction. -/
def entry : Addr := ⟨0⟩

/-- The code units before an address. -/
def toNat (a : Addr) : Nat := a.units.toNat

/-- The address a number of units further on. -/
def advance (a : Addr) (n : Nat) : Addr := ⟨a.units + n⟩

/-- The address a signed number of units away, unless it lies before the entry. -/
def offset? (a : Addr) (delta : Int) : Option Addr :=
  if 0 ≤ delta then some (a.advance delta.natAbs)
  else if delta.natAbs ≤ a.toNat then some ⟨(a.toNat - delta.natAbs : Nat)⟩
  else none

/-- Addresses are written in hexadecimal. -/
def text (a : Addr) : String := "0x" ++ String.ofList (Text.hex a.toNat)

instance : ToString Addr := ⟨text⟩

theorem toNat_lt (a : Addr) : a.toNat < space := a.units.toNat_lt

/-- Addresses are told apart by their numbers. -/
theorem toNat_inj {a a' : Addr} (h : a.toNat = a'.toNat) : a = a' :=
  congrArg mk (UInt64.toNat_inj.1 h)

@[simp] theorem toNat_entry : entry.toNat = 0 := rfl

@[simp] theorem toNat_advance (a : Addr) (n : Nat) :
    (a.advance n).toNat = (a.toNat + n) % space := by
  simp [advance, toNat, space]

/-- Away from the last address, units further on are counted as they are. -/
theorem toNat_advance_of_lt {a : Addr} {n : Nat} (h : a.toNat + n < space) :
    (a.advance n).toNat = a.toNat + n := by
  rw [toNat_advance, Nat.mod_eq_of_lt h]

/-- An offset leads to an address that is so many units away, past the last address on from the
first one. -/
theorem offset?_eq_some_iff {a a' : Addr} {delta : Int} :
    a.offset? delta = some a' ↔
      0 ≤ a.toNat + delta ∧ (a'.toNat : Int) = (a.toNat + delta) % space := by
  have ha := a.toNat_lt
  have ha' := a'.toNat_lt
  unfold offset?
  split
  · next hdelta =>
    have hsum : ((a.advance delta.natAbs).toNat : Int) = (a.toNat + delta) % space := by
      rw [toNat_advance]
      simp only [space]
      omega
    rw [Option.some.injEq]
    constructor
    · rintro rfl
      exact ⟨by omega, hsum⟩
    · rintro ⟨_, h⟩
      exact toNat_inj (by omega)
  split
  · next hdelta hle =>
    have hdiff : (⟨(a.toNat - delta.natAbs : Nat)⟩ : Addr).toNat = a.toNat - delta.natAbs :=
      UInt64.toNat_ofNat_of_lt' (by simp only [space, UInt64.size] at *; omega)
    rw [Option.some.injEq]
    constructor
    · rintro rfl
      rw [hdiff]
      simp only [space] at *
      omega
    · rintro ⟨_, h⟩
      refine toNat_inj (hdiff.trans ?_)
      simp only [space] at *
      omega
  · simp only [reduceCtorEq, false_iff]
    omega

end Addr

end Dalvik
