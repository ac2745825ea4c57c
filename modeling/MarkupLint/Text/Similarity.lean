/-!
# Similar words

Two words are compared by the longest run of characters that they share, then likewise by what is
left of it and what is right of it in both.  Their similarity is the share of the characters in such
runs.
-/

namespace MarkupLint
namespace Text

/-- The number of characters that two texts share at their front. -/
def sharedFront : List Char → List Char → Nat
  | first :: rest, other :: others => if first = other then sharedFront rest others + 1 else 0
  | _, _ => 0

/-- A run that two words share: where it begins in each of them, and its length. -/
structure SharedRun where
  left : Nat
  right : Nat
  length : Nat
deriving DecidableEq, Repr, Inhabited

/-- The longest shared run that begins with the given place of the first word, of several the one
that begins first in the second word. -/
def longestAt (left : Nat) (word : List Char) : Nat → List Char → SharedRun
  | right, [] => ⟨left, right, 0⟩
  | right, char :: rest =>
    let here : SharedRun := ⟨left, right, sharedFront word (char :: rest)⟩
    let later := longestAt left word (right + 1) rest
    if later.length > here.length then later else here

/-- The longest shared run, of several the one that begins first in the first word. -/
def longestFrom (other : List Char) : Nat → List Char → SharedRun
  | left, [] => ⟨left, 0, 0⟩
  | left, char :: rest =>
    let here := longestAt left (char :: rest) 0 other
    let later := longestFrom other (left + 1) rest
    if later.length > here.length then later else here

/-- The number of characters in the shared runs of two words, found in at most the given number of
rounds. -/
def sharedCount : Nat → List Char → List Char → Nat
  | 0, _, _ => 0
  | rounds + 1, word, other =>
    let run := longestFrom other 0 word
    if run.length = 0 then 0
    else
      sharedCount rounds (word.take run.left) (other.take run.right) + run.length +
        sharedCount rounds (word.drop (run.left + run.length))
          (other.drop (run.right + run.length))

/-- The number of characters of a word that are in runs shared with another one. -/
def shared (word other : String) : Nat :=
  sharedCount (word.length + 1) word.toList other.toList

/-- A word that has been compared: the number of its characters in shared runs, and the number of
characters of both words. -/
structure Compared where
  word : String
  shared : Nat
  total : Nat
deriving DecidableEq, Repr, Inhabited

namespace Compared

/-- A word compared with another one. -/
def ofWords (word other : String) : Compared :=
  ⟨word, Text.shared word other, word.length + other.length⟩

/-- Whether at least six tenths of the characters are in shared runs. -/
def isClose (compared : Compared) : Bool := 3 * compared.total ≤ 10 * compared.shared

/-- Whether a word comes in front of another one: it is more similar, or as similar and greater. -/
def precedes (first second : Compared) : Bool :=
  let one := first.shared * second.total
  let other := second.shared * first.total
  other < one || (one = other && second.word < first.word)

/-- Put a compared word into a list that is sorted by similarity. -/
def insert (compared : Compared) : List Compared → List Compared
  | [] => [compared]
  | other :: rest =>
    if compared.precedes other then compared :: other :: rest else other :: insert compared rest

end Compared

/-- The words that are similar to a word, at most three, the most similar first. -/
def similarWords (word : String) (words : List String) : List String :=
  let close := (words.map fun other => Compared.ofWords other word).filter Compared.isClose
  ((close.foldl (fun sorted compared => compared.insert sorted) []).take 3).map (·.word)

end Text
end MarkupLint
