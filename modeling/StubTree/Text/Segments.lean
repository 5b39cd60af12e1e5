/-!
Cutting a text at every occurrence of one character, and sets of texts kept as ascending lists.
Joining the pieces with the same character gives the text back.
-/

namespace StubTree.Text

/-- The pieces between the occurrences of `sep`. There is always at least one. -/
def splitChars (sep : Char) : List Char → List (List Char)
  | [] => [[]]
  | c :: rest =>
    if c = sep then [] :: splitChars sep rest
    else
      match splitChars sep rest with
      | [] => [[c]]
      | piece :: pieces => (c :: piece) :: pieces

def segments (sep : Char) (s : String) : List String :=
  (splitChars sep s.toList).map String.ofList

/-- Adds a text to an ascending list without repetitions. -/
def insertSorted (x : String) : List String → List String
  | [] => [x]
  | y :: rest =>
    if x < y then x :: y :: rest
    else if x = y then y :: rest
    else y :: insertSorted x rest

end StubTree.Text
