/-!
Names that a stub may declare. Reserved words are told apart by a trailing underscore, and a
parameter without a name gets one.
-/

namespace StubTree.Python

def reservedWords : List String :=
  ["and", "as", "assert", "async", "await", "break", "class", "continue",
    "def", "del", "elif", "else", "except", "finally", "for", "from",
    "global", "if", "import", "in", "is", "lambda", "nonlocal", "not",
    "or", "pass", "raise", "return", "try", "while", "with", "yield",
    "None", "True", "False", "__import__", "__name__", "__doc__"]

def isReserved (name : String) : Bool := reservedWords.contains name

def safeName (name : String) : String :=
  if name.isEmpty then "arg" else if isReserved name then name ++ "_" else name

end StubTree.Python
