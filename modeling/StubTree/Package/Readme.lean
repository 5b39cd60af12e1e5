import StubTree.Json.Printer

/-!
The settings that an editor needs to find the stubs, as text for people.
-/

namespace StubTree.Package

open Json (Value)

def readmeFile : String := "readme.md"

/-- A path with slashes only. -/
def withSlashes (path : String) : String :=
  String.ofList (path.toList.map fun c => if c = '\\' then '/' else c)

/-- The settings for stubs below `root`. -/
def settings (root : String) : Value :=
  .object
    [("python.analysis.extraPaths", .list [.string root]),
      ("python.analysis.stubPath", .string root),
      ("python.analysis.autoSearchPaths", .boolean true),
      ("python.analysis.useLibraryCodeForTypes", .boolean true),
      ("python.analysis.typeCheckingMode", .string "basic")]

def readmeIntroduction : String :=
  "Add the following configuration to your editor's `settings.json` so the type checker and " ++
    "auto-completion can find these stubs:\n"

def fence : String := "```"

def readmeText (root : String) : String :=
  readmeIntroduction ++ fence ++ "json\n" ++
    String.ofList ((settings (withSlashes root)).pretty 0) ++ "\n" ++ fence ++ "\n"

end StubTree.Package
