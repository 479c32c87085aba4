import FailureTriage.Markup.Event
import Mathlib.Data.List.Infix

/-!
# Writing markup

Tags, character data and the pieces of markup between them as a writer puts them down.  What may
not stand in a piece is part of the type of that piece, so that everything written here is
well-formed.
-/

namespace FailureTriage.Markup

/-! ## Character data -/

/-- The characters with a meaning in markup, and what stands for them. -/
def escapes : List (Char × List Char) :=
  [('<', "&lt;".toList), ('>', "&gt;".toList), ('&', "&amp;".toList), ('"', "&quot;".toList),
    ('\'', "&apos;".toList)]

/-- What stands for a character in running text and in an attribute value. -/
def escapeChar (c : Char) : List Char :=
  (escapes.lookup c).getD [c]

/-- Running text, or an attribute value, in which every special character is escaped. -/
def escape (text : List Char) : List Char :=
  text.flatMap escapeChar

/-- A text without the blanks of markup at its two ends. -/
def inner (text : List Char) : List Char :=
  Text.dropEndWhile isBlank (text.dropWhile isBlank)

/-- A section of character data that stands for itself. -/
structure Section where
  text : String
  closed : ¬ "]]>".toList <:+: text.toList

/-- A section between its marks. -/
def Section.write (s : Section) : List Char :=
  "<![CDATA[".toList ++ (s.text.toList ++ "]]>".toList)

/-- A section of one character. -/
def Section.single (c : Char) : Section where
  text := String.ofList [c]
  closed := by
    rw [@String.toList_ofList [c]]
    intro h
    exact absurd h.length_le (show ¬ 3 ≤ 1 by decide)

/-- The sections with a character put before them, in a section of its own if it would close the
    first one. -/
def Section.push (c : Char) : List Section → List Section
  | [] => [single c]
  | s :: rest =>
    if h : "]]>".toList <:+: c :: s.text.toList then single c :: s :: rest
    else
      ⟨String.ofList (c :: s.text.toList), by rwa [@String.toList_ofList (c :: s.text.toList)]⟩
        :: rest

/-- A text as sections; the characters that would close a section are in two of them. -/
def Section.cut (text : List Char) : List Section :=
  text.foldr push []

/-- A comment. -/
structure Comment where
  text : String
  closed : ¬ "-->".toList <:+: text.toList

/-- A comment between its marks. -/
def Comment.write (c : Comment) : List Char :=
  "<!--".toList ++ (c.text.toList ++ "-->".toList)

/-- An instruction, such as the declaration at the start of a document. -/
structure Instruction where
  text : String
  closed : ¬ "?>".toList <:+: text.toList
  opened : text.toList.head? ≠ some '>'

/-- An instruction between its marks. -/
def Instruction.write (i : Instruction) : List Char :=
  "<?".toList ++ (i.text.toList ++ "?>".toList)

/-! ## Tags -/

/-- A character of a name: no blank, and none that has a meaning inside a tag. -/
def isNameChar (c : Char) : Bool :=
  !(isBlank c || "<>/=!?&\"'".toList.contains c)

/-- The name of an element or of an attribute. -/
structure Name where
  text : String
  nonempty : text.toList ≠ []
  plain : text.toList.all isNameChar = true
  deriving DecidableEq

/-- An attribute. -/
structure Attribute where
  key : Name
  value : String

/-- An attribute after a blank, its value in double quotation marks. -/
def Attribute.write (a : Attribute) : List Char :=
  ' ' :: (a.key.text.toList ++ '=' :: '"' :: (escape a.value.toList ++ ['"']))

/-- The name and the attributes of an element. -/
structure Tag where
  name : Name
  attributes : List Attribute := []

namespace Tag

/-- What follows the name in a tag. -/
def attributeText (tag : Tag) : List Char :=
  tag.attributes.flatMap Attribute.write

/-- The start tag. -/
def opening (tag : Tag) : List Char :=
  '<' :: (tag.name.text.toList ++ tag.attributeText ++ ['>'])

/-- The tag of an element without content. -/
def selfClosed (tag : Tag) : List Char :=
  '<' :: (tag.name.text.toList ++ tag.attributeText ++ ['/', '>'])

/-- The end tag. -/
def closing (tag : Tag) : List Char :=
  '<' :: '/' :: (tag.name.text.toList ++ ['>'])

/-- The attributes as a reader finds them. -/
def pairs (tag : Tag) : Attributes :=
  tag.attributes.map fun a => (a.key.text, a.value)

end Tag

end FailureTriage.Markup
