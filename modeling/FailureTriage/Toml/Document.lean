import FailureTriage.Toml.Scalar

/-!
# TOML documents

A document sets keys line by line, in the table that the last header names; keys with dots and
headers make the tables they pass through.  No key may be set twice, and no table may be defined
in two ways.

* `Node` is a part of the document that is being read, with what is still allowed for it.
* `readToml?` gives the whole document as an object.
-/

namespace FailureTriage

namespace Toml

/-- A part of a document while it is being read. -/
inductive Node where
  /-- A value that a key has been set to. -/
  | value (v : Json)
  /--
  A table.  It is implicit until a header names it, and dotted if the first to pass through it was
  a dotted key.
  -/
  | table (implicit dotted : Bool) (entries : List (String × Node))
  /-- The tables of a header in double brackets. -/
  | tables (items : List Node)

/-- The entries with one of them set. -/
def setEntry (key : String) (node : Node) : List (String × Node) → List (String × Node)
  | [] => [(key, node)]
  | first :: rest => if first.1 = key then (key, node) :: rest else first :: setEntry key node rest

/--
A change of the table at the end of a path.  A path of a dotted key passes only through implicit
tables; every path passes through the last of several tables.
-/
def changeAt (dotted : Bool) (change : Node → Option Node) : List String → Node → Option Node
  | [], node => change node
  | key :: path, .table implicit byDots entries => do
    let child ← match entries.lookup key with
      | none => changeAt dotted change path (.table true dotted [])
      | some (.value _) => none
      | some (.tables items) =>
        match items.getLast? with
        | none => none
        | some last =>
          (changeAt dotted change path last).map fun node => .tables (items.dropLast ++ [node])
      | some (.table childImplicit childDotted childEntries) =>
        if dotted && !childImplicit then none
        else changeAt dotted change path (.table childImplicit childDotted childEntries)
    some (.table implicit byDots (setEntry key child entries))
  | _ :: _, _ => none

/-- Setting a key that is not there yet; a dotted key sets it in a table made by dots. -/
private def setNew (byPath : Bool) (key : String) (v : Json) : Node → Option Node
  | .table implicit dotted entries =>
    if dotted ≠ byPath || (entries.lookup key).isSome then none
    else some (.table implicit dotted (entries ++ [(key, .value v)]))
  | _ => none

/-- Setting a dotted key inside a table. -/
def setKey (key : List String) (v : Json) (table : Node) : Option Node :=
  match key.getLast? with
  | none => none
  | some last => changeAt true (setNew (!key.dropLast.isEmpty) last v) key.dropLast table

/-- A header in single brackets: the table is new, or has only been passed through by headers. -/
private def openTable (key : String) : Node → Option Node
  | .table implicit dotted entries =>
    match entries.lookup key with
    | none => some (.table implicit dotted (setEntry key (.table false false []) entries))
    | some (.table true false inner) =>
      some (.table implicit dotted (setEntry key (.table false false inner) entries))
    | some _ => none
  | _ => none

/-- A header in double brackets: one more table under its key. -/
private def openItem (key : String) : Node → Option Node
  | .table implicit dotted entries =>
    match entries.lookup key with
    | none => some (.table implicit dotted (setEntry key (.tables [.table false false []]) entries))
    | some (.tables items) =>
      some (.table implicit dotted
        (setEntry key (.tables (items ++ [.table false false []])) entries))
    | some _ => none
  | _ => none

mutual

/-- A node as a value. -/
def Node.toJson : Node → Json
  | .value v => v
  | .table _ _ entries => .object (entriesToJson entries)
  | .tables items => .array (itemsToJson items)

/-- The entries of a table as members of an object. -/
def entriesToJson : List (String × Node) → List (Option String × Json)
  | [] => []
  | (key, node) :: rest => (some key, node.toJson) :: entriesToJson rest

/-- Tables as the items of an array. -/
def itemsToJson : List Node → List Json
  | [] => []
  | node :: rest => node.toJson :: itemsToJson rest

end

/-! ## Values -/

mutual

/-- The value at the start of a text, and the text after it; `depth` is the nesting still left. -/
def readValue : (fuel : Nat) → (depth : Nat) → List Char → Option (Json × List Char)
  | 0, _, _ => none
  | fuel + 1, depth, text =>
    match text, depth with
    | '"' :: _, _ => (string? text).map fun (s, rest) => (.text s, rest)
    | '\'' :: _, _ => (string? text).map fun (s, rest) => (.text s, rest)
    | '[' :: rest, depth + 1 => readArray fuel depth rest []
    | '\x7b' :: rest, depth + 1 =>
      match skipBlanks rest with
      | '\x7d' :: rest => some (.object [], rest)
      | rest => readInline fuel depth rest (.table false false [])
    | _, _ => scalar? text

/-- The rest of an array, after the items in `found`. -/
def readArray : (fuel : Nat) → (depth : Nat) → List Char → List Json →
    Option (Json × List Char)
  | 0, _, _, _ => none
  | fuel + 1, depth, text, found =>
    match skipLines text.length text with
    | ']' :: rest => some (.array found.reverse, rest)
    | next =>
      match readValue fuel depth next with
      | none => none
      | some (item, rest) =>
        match skipLines rest.length rest with
        | ',' :: rest => readArray fuel depth rest (item :: found)
        | ']' :: rest => some (.array (item :: found).reverse, rest)
        | _ => none

/-- The rest of a table in braces, from the next key on. -/
def readInline : (fuel : Nat) → (depth : Nat) → List Char → Node → Option (Json × List Char)
  | 0, _, _, _ => none
  | fuel + 1, depth, text, table =>
    match key? text with
    | some (key, '=' :: rest) =>
      match readValue fuel depth (skipBlanks rest) with
      | none => none
      | some (v, rest) =>
        match setKey key v table, skipBlanks rest with
        | some table, ',' :: rest => readInline fuel depth rest table
        | some table, '\x7d' :: rest => some (table.toJson, rest)
        | _, _ => none
    | _ => none

end

/-! ## Lines -/

/-- The text after the end of a line, which may hold a comment. -/
private def lineEnd? (text : List Char) : Option (List Char) :=
  let rest := match skipBlanks text with
    | '#' :: comment => comment.dropWhile isPrintable
    | rest => rest
  if rest.isEmpty then some [] else newline? rest

/-- A header: its key, whether it is in double brackets, and the text after it. -/
private def header? (text : List Char) : Option (List String × Bool × List Char) :=
  match text with
  | '[' :: '[' :: rest =>
    match key? rest with
    | some (key, ']' :: ']' :: rest) => some (key, true, rest)
    | _ => none
  | '[' :: rest =>
    match key? rest with
    | some (key, ']' :: rest) => some (key, false, rest)
    | _ => none
  | _ => none

/-- The rest of a document, given what has been read and the table that its keys are set in. -/
private def readLines : (fuel : Nat) → List Char → Node → List String → Option Node
  | 0, _, _, _ => none
  | fuel + 1, text, document, location =>
    match skipLines text.length text with
    | [] => some document
    | '[' :: rest => do
      let (key, double, rest) ← header? ('[' :: rest)
      let last ← key.getLast?
      let change := if double then openItem last else openTable last
      let document ← changeAt false change key.dropLast document
      readLines fuel (← lineEnd? rest) document key
    | line =>
      match key? line with
      | some (key, '=' :: rest) => do
        let (v, rest) ← readValue (2 * rest.length + 2) depthLimit (skipBlanks rest)
        let document ← changeAt false (setKey key v) location document
        readLines fuel (← lineEnd? rest) document location
      | _ => none

end Toml

open Toml in
/-- The object that a TOML document stands for; a byte order mark at its start does not count. -/
def readToml? (text : String) : Option Json :=
  let characters := match text.toList with
    | '\uFEFF' :: rest => rest
    | rest => rest
  (readLines (characters.length + 1) characters (.table false false []) []).map Node.toJson

end FailureTriage
