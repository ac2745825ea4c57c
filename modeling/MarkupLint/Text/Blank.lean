import MarkupLint.Text.CodeRanges

/-!
# Blanks between words

The blanks of plain text: the separators of all scripts, the line ends, and the controls that
separate fields.
-/

namespace MarkupLint
namespace Text

/-- The blanks. -/
def blankRanges : CodeRanges :=
  [(0x9, 0xd), (0x1c, 0x20), (0x85, 0x85), (0xa0, 0xa0), (0x1680, 0x1680), (0x2000, 0x200a),
    (0x2028, 0x2029), (0x202f, 0x202f), (0x205f, 0x205f), (0x3000, 0x3000)]

/-- Whether the character is a blank. -/
def isBlank (char : Char) : Bool := blankRanges.holds char

/-- The text without the blanks at its front. -/
def trimStart (text : List Char) : List Char := text.dropWhile isBlank

/-- The text without the blanks at its end. -/
def trimEnd (text : List Char) : List Char := (trimStart text.reverse).reverse

/-- The text without the blanks at both ends. -/
def trim (text : List Char) : List Char := trimEnd (trimStart text)

/-- The maximal runs of other characters, in order, behind a word already begun in reverse. -/
def wordsFrom (begun : List Char) : List Char → List (List Char)
  | [] => if begun.isEmpty then [] else [begun.reverse]
  | char :: rest =>
    if isBlank char then
      if begun.isEmpty then wordsFrom [] rest else begun.reverse :: wordsFrom [] rest
    else wordsFrom (char :: begun) rest

/-- The words of a text: its maximal runs of characters that are no blanks. -/
def words (text : List Char) : List (List Char) := wordsFrom [] text

@[simp] theorem words_nil : words [] = [] := rfl

end Text
end MarkupLint
