/-!
# Order of texts

Texts are compared by the first character in which they differ, and a text comes before those it
starts.  Lists of texts are compared by the first text in which they differ, in the same way.
-/

namespace Dalvik.Text

/-- Whether characters come before others, or are the same. -/
def charsLe : List Char → List Char → Bool
  | [], _ => true
  | _ :: _, [] => false
  | a :: as, b :: bs => if a = b then charsLe as bs else a.toNat < b.toNat

/-- Whether a text comes before another, or is the same. -/
def le (a b : String) : Bool := charsLe a.toList b.toList

/-- Whether texts come before others, or are the same. -/
def listLe : List String → List String → Bool
  | [], _ => true
  | _ :: _, [] => false
  | a :: as, b :: bs => if a = b then listLe as bs else le a b

end Dalvik.Text
