import FailureTriage.Markup.Attribute
import FailureTriage.Text.Blank
import FailureTriage.Text.Find

/-!
# Events of a marked-up document

A document read as a sequence of tags and texts.  Tags have to be nested, but a tag may still be
open where the document ends.  The blanks at both ends of a text are dropped, and a text of blanks
alone is no event; comments, instructions and the document type only separate texts.
-/

namespace FailureTriage.Markup

/-- A tag or a text of a document. -/
inductive Event where
  /-- A start tag, with what follows its name. -/
  | start (name : String) (attributes : List Char)
  /-- A tag without content, with what follows its name. -/
  | selfClosed (name : String) (attributes : List Char)
  /-- An end tag. -/
  | close (name : String)
  /-- A text in which references are not resolved. -/
  | text (raw : List Char)
  /-- A text without references. -/
  | verbatim (content : List Char)

/-- The text before and after the first `>` outside quotation marks. -/
def splitTag (text : List Char) (mark : Option Char) (found : List Char) :
    Option (List Char × List Char) :=
  match text, mark with
  | [], _ => none
  | '>' :: rest, none => some (found.reverse, rest)
  | c :: rest, none =>
    splitTag rest (if c = '"' || c = '\'' then some c else none) (c :: found)
  | c :: rest, some m => splitTag rest (if c = m then none else some m) (c :: found)

/-- The text after the `>` that closes a document type, inside which tags are balanced. -/
def afterDocumentType (text : List Char) (depth : Nat) (found : List Char) :
    Option (List Char × List Char) :=
  match text with
  | [] => none
  | '<' :: rest => afterDocumentType rest (depth + 1) ('<' :: found)
  | '>' :: rest =>
    match depth with
    | 0 => some (found.reverse, rest)
    | depth + 1 => afterDocumentType rest depth ('>' :: found)
  | c :: rest => afterDocumentType rest depth (c :: found)

/-- What comes of one piece of markup: maybe an event, the names still open, and the text after. -/
structure Step where
  event : Option Event
  openNames : List (List Char)
  rest : List Char

/-- The piece of markup after `<!`. -/
def readDeclaration (text : List Char) (openNames : List (List Char)) : Option Step :=
  match text with
  | '-' :: '-' :: rest =>
    (Text.splitAtFirst? "-->".toList rest).map fun (_, rest) => ⟨none, openNames, rest⟩
  | '[' :: 'C' :: 'D' :: 'A' :: 'T' :: 'A' :: '[' :: rest =>
    (Text.splitAtFirst? "]]>".toList rest).map fun (content, rest) =>
      ⟨some (.verbatim content), openNames, rest⟩
  | d :: _ =>
    if d.toLower = 'd' then do
      let (content, rest) ← afterDocumentType text 0 []
      let keyword := "doctype".toList
      if (content.take keyword.length).map Char.toLower = keyword
          && (content.drop keyword.length).any (!isBlank ·) then
        some ⟨none, openNames, rest⟩
      else none
    else none
  | [] => none

/-- The piece of markup after `<?`. -/
def readInstruction (text : List Char) (openNames : List (List Char)) : Option Step :=
  match text with
  | '>' :: _ => none
  | _ => (Text.splitAtFirst? "?>".toList text).map fun (_, rest) => ⟨none, openNames, rest⟩

/-- The name of an end tag, from what follows its slash. -/
def endName (content : List Char) : List Char :=
  if content.all isBlank then content else Text.dropEndWhile isBlank content

/-- The piece of markup after `</`, which has to close the innermost open tag. -/
def readEnd (text : List Char) (openNames : List (List Char)) : Option Step := do
  let (content, rest) ← splitTag text none []
  let name := endName content
  match openNames with
  | innermost :: outer =>
    if name = innermost then some ⟨some (.close (String.ofList name)), outer, rest⟩ else none
  | [] => none

/-- The piece of markup after the `<` of a start tag. -/
def readStart (text : List Char) (openNames : List (List Char)) : Option Step := do
  let (content, rest) ← splitTag text none []
  if content.getLast? = some '/' then
    let content := content.dropLast
    some ⟨some (.selfClosed (String.ofList (content.takeWhile (!isBlank ·)))
      (content.dropWhile (!isBlank ·))), openNames, rest⟩
  else
    let name := content.takeWhile (!isBlank ·)
    some ⟨some (.start (String.ofList name) (content.dropWhile (!isBlank ·))),
      name :: openNames, rest⟩

/-- The piece of markup after `<`. -/
def readMarkup (text : List Char) (openNames : List (List Char)) : Option Step :=
  match text with
  | '!' :: rest => readDeclaration rest openNames
  | '?' :: rest => readInstruction rest openNames
  | '/' :: rest => readEnd rest openNames
  | _ => readStart text openNames

/-- The event of a text between two pieces of markup, unless it is all blanks. -/
def textEvent? (raw : List Char) : Option Event :=
  let trimmed := Text.dropEndWhile isBlank (raw.dropWhile isBlank)
  if trimmed.isEmpty then none else some (.text trimmed)

/-- The events of a document, and whether its markup is well-formed to the end. -/
structure EventList where
  /-- The events before the first fault. -/
  events : List Event
  wellFormed : Bool

/-- The events from a place between two pieces of markup on, after those in `found`. -/
def readEvents : (fuel : Nat) → (text : List Char) → (openNames : List (List Char)) →
    (found : List Event) → EventList
  | 0, _, _, found => ⟨found.reverse, true⟩
  | fuel + 1, text, openNames, found =>
    let found := (textEvent? (text.takeWhile (· != '<'))).toList ++ found
    match text.dropWhile (· != '<') with
    | [] => ⟨found.reverse, true⟩
    | _ :: markup =>
      match readMarkup markup openNames with
      | none => ⟨found.reverse, false⟩
      | some step => readEvents fuel step.rest step.openNames (step.event.toList ++ found)

/-- The events of a document; a byte order mark at its start does not count. -/
def events (document : List Char) : EventList :=
  let document := match document with
    | '\uFEFF' :: rest => rest
    | rest => rest
  readEvents (document.length + 1) document [] []

end FailureTriage.Markup
