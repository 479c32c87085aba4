import FailureTriage.Path
import FailureTriage.Pattern.Search
import FailureTriage.Text.Lines

/-!
# Windows into a source text

The lines around the signature of a method.

* `SourceContext` is what is known of a test method's place.
* `Window.around` cuts the lines around the first signature of a method.
-/

namespace FailureTriage

/-- How many lines before and after a signature belong to its window. -/
structure Window where
  linesBefore : Nat := 5
  linesAfter : Nat := 30
  deriving DecidableEq, Repr

/-- Where a method stands, and the lines around it. -/
structure SourceContext where
  /-- Whether the file and the method were found. -/
  found : Bool := false
  path : Option Path := none
  /-- The line with the signature, trimmed. -/
  signature : Option String := none
  /-- The number of the first line of the window, counted from one. -/
  startLine : Option Nat := none
  /-- The number of the last line of the window. -/
  endLine : Option Nat := none
  /-- The lines of the window. -/
  context : Option String := none
  /-- The paths that were tried in vain. -/
  searched : List Path := []
  notes : List String := []
  deriving DecidableEq

/-- The context that was not found, with a note that says why. -/
def SourceContext.missing (note : String) : SourceContext :=
  { notes := [note] }

namespace Window

/-- The words that may stand before the type of a method. -/
def modifiers : List String :=
  ["public", "private", "protected", "static", "final", "synchronized", "abstract", "default"]

/-- A character inside type arguments. -/
def inArguments (c : Char) : Bool :=
  !(c == '(' || c == ')' || c == '\x7b' || c == '\x7d' || c == ';')

open Pattern in
/-- A capitalised type, with type arguments and array brackets or without them. -/
def typePattern : Pattern :=
  sequence [
    .one (fun c => c.isUpper), zeroOrMore (fun c => Text.isWord c || c == '.'),
    opt (sequence [word "<", .run inArguments true, word ">"]),
    .many (word "[]")]

open Pattern in
/-- The signature of a method: modifiers, a type, the name and the parameters. -/
def signaturePattern (method : String) : Pattern :=
  sequence [
    .wordEdge,
    .many (sequence [anyOf (modifiers.map word), oneOrMore (fun c => c == ' ' || c == '\t')]),
    .alt (word "void") typePattern, blanks1, word method, blanks,
    word "(", zeroOrMore (· != ')'), word ")"]

/-- The window of a text around the line with an index, counted from zero. -/
def cut (window : Window) (lines : List (List Char)) (index : Nat) (path : Option Path) :
    SourceContext :=
  let start := index - window.linesBefore
  let stop := min lines.length (index + window.linesAfter + 1)
  { found := true
    path := path
    signature := some (String.ofList (Text.trim (lines[index]?.getD [])))
    startLine := some (start + 1)
    endLine := some stop
    context := some (String.ofList (Text.unlines ((lines.take stop).drop start))) }

/-- The window around the first signature of a method; the path only says where the text is. -/
def around (window : Window) (path : Option Path) (method text : String) : SourceContext :=
  match (signaturePattern method).find? text.toList with
  | none =>
    let origin := (path.map Path.text).getD "source text"
    { SourceContext.missing s!"Method '{method}' not found in {origin}" with path := path }
  | some signature =>
    let characters := text.toList
    let index := (characters.take signature.span.start.index).count '\n'
    window.cut (Text.lines characters) index path

end Window

open Json in
instance : JsonCodec Window where
  encode w := .object
    (member "lines_before" w.linesBefore ++ member "lines_after" w.linesAfter)
  decode? json := do
    let standard : Window := {}
    let [linesBefore, linesAfter] ← fields? [may "lines_before", may "lines_after"] json | none
    some {
      linesBefore := ← withDefault standard.linesBefore linesBefore
      linesAfter := ← withDefault standard.linesAfter linesAfter }

open Json in
instance : JsonCodec SourceContext where
  encode c := .object (
    member "found" c.found ++ member "path" c.path ++
    memberIfSome "method_signature" c.signature ++
    memberIfSome "context_start_line" c.startLine ++
    memberIfSome "context_end_line" c.endLine ++ member "context" c.context ++
    memberIfAny "searched_paths" c.searched ++ memberIfAny "notes" c.notes)
  decode? json := do
    let [found, path, signature, startLine, endLine, context, searched, notes] ← fields? [
        must "found", must "path", may "method_signature", may "context_start_line",
        may "context_end_line", must "context", may "searched_paths", may "notes"] json
      | none
    some {
      found := ← required found
      path := ← nullable path
      signature := ← nullable signature
      startLine := ← nullable startLine
      endLine := ← nullable endLine
      context := ← nullable context
      searched := ← withDefault [] searched
      notes := ← withDefault [] notes }

end FailureTriage
