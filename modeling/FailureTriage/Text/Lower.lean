/-!
# Lower case

Lower case as far as ASCII letters are concerned, for looking up an ASCII word in any case.
-/

namespace FailureTriage.Text

/--
The lower-case form of one character.  Besides the ASCII capitals, the Kelvin sign and the dotted
capital I are the only characters whose lower-case form holds an ASCII letter; every other
character stands for itself.
-/
def lowerChar (c : Char) : List Char :=
  if c.isUpper then [c.toLower]
  else if c = '\u212A' then ['k']
  else if c = '\u0130' then ['i', '\u0307']
  else [c]

/-- The text in lower case, as far as ASCII letters are concerned. -/
def lower (text : List Char) : List Char :=
  text.flatMap lowerChar

end FailureTriage.Text
