import Dalvik.Command.Listing

/-!
# The command

Lists the methods that the indices of an inline table stand for.  The exit code is 0 after a
listing, 1 after a failure, and 2 if the arguments are refused.
-/

namespace Dalvik.Command

/-- The text of the file of a source. -/
def Source.read : Source → IO (Option String)
  | .version _ => return none
  | .file path => do
    try return some (← IO.FS.readFile path)
    catch _ => return none

end Dalvik.Command

open Dalvik.Command in
/-- Answers the request of the arguments. -/
def main (args : List String) : IO UInt32 := do
  match Request.ofArgs? args with
  | none =>
    IO.eprintln "usage: [-dve] [--filter-method TEXT] (--vm-version N | --inline-table FILE)"
    return 2
  | some request =>
    match request.listing (← request.source.read) with
    | .ok lines =>
      lines.forM IO.println
      return 0
    | .error failure =>
      IO.eprintln failure.message
      return 1
