import StubTree.Files.Fault

/-!
Why a source gives no types, and why a whole run stops.
-/

namespace StubTree

inductive LoadFault where
  | unreadable (fault : Files.Fault)
  /-- The document at `path` is refused; the reason says where and why. -/
  | undecodable (path reason : String)
  | other (reason : String)
deriving DecidableEq, Repr

namespace LoadFault

def message : LoadFault → String
  | unreadable fault => "IO error: " ++ fault.message
  | undecodable path reason => path ++ " " ++ reason
  | other reason => reason

end LoadFault

inductive Failure where
  /-- The root of the stubs cannot be emptied or made. -/
  | rootUnusable (root : String) (fault : Files.Fault)
  | access (fault : Files.Fault)
  /-- There is no program that shows a directory. -/
  | noBrowser
  | unprintable
deriving DecidableEq, Repr

namespace Failure

/-- The cause behind a failure, in words of its own. -/
def origin : Failure → String
  | rootUnusable _ fault => fault.message
  | access fault => fault.message
  | noBrowser => "no file browser launcher in $PATH"
  | unprintable => "an error occurred when formatting an argument"

def message : Failure → String
  | rootUnusable root fault => s!"cannot prepare output root {root}: {fault.message}"
  | access fault => "IO error: " ++ fault.message
  | noBrowser => "IO error: " ++ noBrowser.origin
  | unprintable => "render error: " ++ unprintable.origin

end Failure

end StubTree
