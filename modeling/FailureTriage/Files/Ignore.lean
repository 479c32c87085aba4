import FailureTriage.Files.Glob
import FailureTriage.Files.Tree
import FailureTriage.Text.Lines

/-!
# Ignore files

Which entries of a file tree are left out when sources are looked for.

A directory may hold a file `.ignore` and, inside a repository, a file `.gitignore`; the repository
itself may have a file `info/exclude`.  Each line of such a file is a rule for the entries below
the directory.  The rules of `.ignore` come before those of `.gitignore`, and those before the
rules of the repository; among rules of one kind a deeper directory comes before a shallower one,
and a later line before an earlier one.  The first rule that fits decides, and an entry that no
rule fits is left out if its name starts with a dot.

A rule is about the path from its directory to an entry.  That path is found by comparing how the
two are spelled, see `Path.seenFrom`.

* `IgnoreRule.ofLine?` reads a rule.
* `RuleBook.ofTree` collects the rules of a file tree.
* `DirectoryRules.ofTree_congr`: what the rules of a directory depend on.
* `RuleBook.skips` decides about an entry.
-/

namespace FailureTriage

/-- A rule of an ignore file. -/
structure IgnoreRule where
  /-- The paths, seen from the directory of the rule, that it is about. -/
  pattern : Pattern
  /-- Whether what fits is kept, not left out. -/
  keeps : Bool
  /-- Whether the rule is about directories alone. -/
  onlyDirectories : Bool

namespace IgnoreRule

/-- The text without a separator at its end, and whether there was one. -/
private def splitEnd (text : List Char) : List Char × Bool :=
  match Text.dropFragmentEnd? ['/'] text with
  | some before => ((Text.dropFragmentEnd? ['\\'] before).getD before, true)
  | none => (text, false)

/-- The glob for a rule; one without a separator may fit at any depth. -/
private def globOf (anchored : Bool) (text : List Char) : List Char :=
  let deep := text = "**".toList || Text.startsWith "**/".toList text
  let text := if anchored || text.contains '/' || deep then text else "**/".toList ++ text
  if Text.endsWith "/**".toList text then text ++ "/*".toList else text

/-- The rule on a line; none if the line is empty, a comment or no glob. -/
def ofLine? (line : List Char) : Option IgnoreRule := do
  if line.head? = some '#' then none
  let line := if Text.endsWith "\\ ".toList line then line else Text.trimEnd line
  if line = [] then none
  let escaped := Text.startsWith "\\!".toList line || Text.startsWith "\\#".toList line
  let keeps := !escaped && line.head? = some '!'
  let line := if escaped || keeps then line.drop 1 else line
  let anchored := !escaped && line.head? = some '/'
  let line := if anchored then line.drop 1 else line
  let (text, onlyDirectories) := splitEnd line
  let parts ← Glob.parse? (globOf anchored text)
  some ⟨Glob.pattern parts, keeps, onlyDirectories⟩

/-- Whether the rule fits an entry, given its path from the directory of the rule as bytes. -/
def fits (rule : IgnoreRule) (path : List Char) (isDirectory : Bool) : Bool :=
  (isDirectory || !rule.onlyDirectories) && rule.pattern.matchesWhole path

end IgnoreRule

/-! ## Paths as rules see them -/

namespace Path

/-- The absolute path of a location. -/
def ofLocation (place : Location) : Path :=
  ⟨"/" ++ "/".intercalate place⟩

/-- The path without one `./` at its start. -/
def withoutDot (path : Path) : Path :=
  match Text.dropFragment? ['.', '/'] path.text.toList with
  | some rest => ⟨String.ofList rest⟩
  | none => path

/-- What a path has after the spelling of a directory and a separator, if it starts with that. -/
private def after (dir path : Path) : Path :=
  match Text.dropFragment? dir.text.toList path.text.toList with
  | some ('/' :: rest) => ⟨String.ofList rest⟩
  | some rest => ⟨String.ofList rest⟩
  | none => path

/--
The path of an entry seen from a directory with rules.  Both lose one `./` at their start first; a
path that does not start with the spelling of the directory is taken as it is, and so is one from
the current directory.
-/
def seenFrom (path dir : Path) : Path :=
  let path := path.withoutDot
  let dir := dir.withoutDot
  if dir.same ⟨"."⟩ || !path.text.toList.contains '/' then path else after dir path

/-- The path of an entry below the root of a walk seen from that root. -/
def withinRoot (path root : Path) : Path :=
  if root.same ⟨"."⟩ then path else after root.withoutDot path

end Path

/-- A directory from which a walk goes down. -/
structure WalkRoot where
  /-- How it is spelled. -/
  path : Path
  /-- Where it lies. -/
  place : Location

/-- The path of an entry below the root, as the walk spells it. -/
def WalkRoot.pathTo (root : WalkRoot) (names : Location) : Path :=
  names.foldl (fun path name => path.join ⟨name⟩) root.path

/-! ## Rules of directories -/

/-- The lines of a file before the first that is no text. -/
private def readableLines (content : ByteArray) : List (List Char) :=
  let pieces := (content.toList.splitOn 0x0A).map fun piece => String.fromUTF8? ⟨piece.toArray⟩
  let texts := (pieces.takeWhile Option.isSome).map fun piece => (piece.getD "").toList
  Text.lines <|
    if texts.length < pieces.length then texts.flatMap (· ++ ['\n']) else Text.unlines texts

/-- The rules of an ignore file, the last line first. -/
def ignoreRules (content : ByteArray) : List IgnoreRule :=
  let lines := match readableLines content with
    | first :: rest => first.dropWhile (· == '\uFEFF') :: rest
    | [] => []
  (lines.filterMap IgnoreRule.ofLine?).reverse

/-- The rules that a directory holds. -/
structure DirectoryRules where
  /-- The rules of `.ignore`, the last one first. -/
  plain : List IgnoreRule := []
  /-- The rules of `.gitignore`. -/
  shared : List IgnoreRule := []
  /-- The rules of the repository whose top the directory is. -/
  excluded : List IgnoreRule := []
  /-- Whether the directory is the top of a repository. -/
  isRepository : Bool := false

namespace DirectoryRules

/-- The rules of a file, for a path seen from a directory. -/
private def ofFile (tree : FileTree) (dir : Location) (path : Path) : List IgnoreRule :=
  match tree.readFrom dir path with
  | .ok content => ignoreRules content
  | .error _ => []

/-- The first line of a file, if there is one and it is text. -/
private def firstLine? (tree : FileTree) (dir : Location) (path : Path) : Option String :=
  match tree.readFrom dir path with
  | .ok content => (readableLines content).head?.map String.ofList
  | .error _ => none

/-- The directory with the data of a repository, given what lies at its `.git`. -/
private def repositoryDir? (tree : FileTree) (dir : Location) : FileEntry → Option (Location × Path)
  | .file _ => do
    let pointer ← firstLine? tree dir ⟨".git"⟩
    let target ← Text.dropFragment? "gitdir: ".toList pointer.toList
    let data : Path := ⟨String.ofList target⟩
    let shared ← firstLine? tree tree.workingDir (data.join ⟨"commondir"⟩)
    some (tree.workingDir, if shared.toList.head? = some '.' then data.join ⟨shared⟩ else ⟨shared⟩)
  | _ => some (dir, ⟨".git"⟩)

/-- The rules that a directory of a tree holds. -/
def ofTree (tree : FileTree) (dir : Location) : DirectoryRules :=
  let repository := (tree.findFrom? dir ⟨".git"⟩).map (·.2)
  let data := repository.bind (repositoryDir? tree dir)
  let other := tree.findFrom? dir ⟨".jj"⟩
  { plain := ofFile tree dir ⟨".ignore"⟩
    shared := ofFile tree dir ⟨".gitignore"⟩
    excluded := match data with
      | some (start, path) => ofFile tree start (path.join ⟨"info/exclude"⟩)
      | none => []
    isRepository := repository.isSome || other.isSome }

/-- The paths at which the rules of a directory are looked for, seen from that directory or from
    the data of its repository. -/
inductive IsRulePath : Path → Prop where
  | ignore : IsRulePath ⟨".ignore"⟩
  | shared : IsRulePath ⟨".gitignore"⟩
  | repository : IsRulePath ⟨".git"⟩
  | other : IsRulePath ⟨".jj"⟩
  | common (data : Path) : IsRulePath (data.join ⟨"commondir"⟩)
  | excluded (data : Path) : IsRulePath (data.join ⟨"info/exclude"⟩)

section
variable {tree tree' : FileTree} {dir : Location} {path : Path}

private theorem ofFile_congr (h : tree'.findFrom? dir path = tree.findFrom? dir path) :
    ofFile tree' dir path = ofFile tree dir path := by
  have hfile : ∀ tree : FileTree, ofFile tree dir path
      = ((tree.readFrom dir path).toOption.map ignoreRules).getD [] := by
    intro tree
    rw [ofFile]
    cases tree.readFrom dir path <;> rfl
  rw [hfile, hfile, FileTree.toOption_readFrom, FileTree.toOption_readFrom, h]

private theorem firstLine?_congr (h : tree'.findFrom? dir path = tree.findFrom? dir path) :
    firstLine? tree' dir path = firstLine? tree dir path := by
  have hline : ∀ tree : FileTree, firstLine? tree dir path
      = (tree.readFrom dir path).toOption.bind fun content =>
        (readableLines content).head?.map String.ofList := by
    intro tree
    rw [firstLine?]
    cases tree.readFrom dir path <;> rfl
  rw [hline, hline, FileTree.toOption_readFrom, FileTree.toOption_readFrom, h]

/-- **The rules of a directory** depend on what is found where they are looked for. -/
theorem ofTree_congr (hworking : tree'.workingDir = tree.workingDir)
    (h : ∀ start path, IsRulePath path → tree'.findFrom? start path = tree.findFrom? start path)
    (dir : Location) : ofTree tree' dir = ofTree tree dir := by
  have hdata : repositoryDir? tree' dir = repositoryDir? tree dir := by
    funext entry
    cases entry with
    | file content =>
        have hpointer := firstLine?_congr (h dir _ .repository)
        have hcommon := fun data : Path => firstLine?_congr (h tree.workingDir _ (.common data))
        simp only [repositoryDir?, hpointer, hworking, hcommon]
    | link target => rfl
    | directory => rfl
  rw [ofTree, ofTree, h dir _ .repository, h dir _ .other, hdata, ofFile_congr (h dir _ .ignore),
    ofFile_congr (h dir _ .shared)]
  congr 1
  cases ((tree.findFrom? dir ⟨".git"⟩).map (·.2)).bind (repositoryDir? tree dir) with
  | none => rfl
  | some found => exact ofFile_congr (h found.1 _ (.excluded found.2))

end

end DirectoryRules

/-- The rules of every directory that has some. -/
abbrev RuleBook := List (Location × DirectoryRules)

namespace RuleBook

/-- Names of entries that make rules. -/
def ruleNames : List String := [".ignore", ".gitignore", ".git", ".jj"]

/-- The rules of a file tree. -/
def ofTree (tree : FileTree) : RuleBook :=
  let places := (tree.entries.map (·.1)).filter fun place =>
    ruleNames.any fun name => place.getLast? = some name
  (places.map List.dropLast).eraseDups.map fun dir => (dir, DirectoryRules.ofTree tree dir)

/-- The rules of the directory at a location. -/
def rulesAt (book : RuleBook) (place : Location) : DirectoryRules :=
  (book.lookup place).getD {}

/-- The rules of a directory and the path from it to an entry, for one level. -/
structure Level where
  rules : DirectoryRules
  /-- The bytes of the path. -/
  path : List Char

/-- The level of a directory for an entry, from how the two are spelled. -/
private def levelOf (rules : DirectoryRules) (dir path : Path) : Level :=
  ⟨rules, Glob.bytesOf (path.seenFrom dir).text⟩

/--
The levels of an entry, from its own directory up.  From the root of the walk down, directories are
spelled as the walk meets them; above it they are spelled by their locations.
-/
def levels (book : RuleBook) (root : WalkRoot) (names : Location) : List Level :=
  let path := (root.pathTo names).withoutDot
  let below := (List.range names.length).reverse.map fun depth =>
    levelOf (book.rulesAt (root.place ++ names.take depth)) (root.pathTo (names.take depth)) path
  let fromTop := (Path.ofLocation root.place).join (path.withinRoot root.path)
  let above := (List.range root.place.length).reverse.map fun depth =>
    levelOf (book.rulesAt (root.place.take depth)) (Path.ofLocation (root.place.take depth)) fromTop
  below ++ above

/-- The first rule that fits an entry at one of its levels. -/
private def firstFit? (levels : List Level) (isDirectory : Bool)
    (rulesOf : DirectoryRules → List IgnoreRule) : Option IgnoreRule :=
  levels.findSome? fun level => (rulesOf level.rules).find? (·.fits level.path isDirectory)

/-- The levels up to the top of the nearest repository; none outside a repository. -/
private def inRepository : List Level → List Level
  | [] => []
  | level :: rest =>
    if level.rules.isRepository then [level]
    else match inRepository rest with
      | [] => []
      | found => level :: found

/-- Whether an entry below the root of a walk is left out. -/
def skips (book : RuleBook) (root : WalkRoot) (names : Location) (isDirectory : Bool) : Bool :=
  let all := book.levels root names
  let inside := inRepository all
  let decision := firstFit? all isDirectory (·.plain)
    <|> firstFit? inside isDirectory (·.shared)
    <|> firstFit? inside isDirectory (·.excluded)
  match decision with
  | some rule => !rule.keeps
  | none => (names.getLast?.bind fun name => name.toList.head?) = some '.'

end RuleBook

end FailureTriage
