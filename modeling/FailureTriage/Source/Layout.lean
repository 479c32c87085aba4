import FailureTriage.Path

/-!
# Source layouts

Where the test sources and the production sources of a project lie, and how test classes are named.
-/

namespace FailureTriage

/-- The layout of a project's sources. -/
structure SourceLayout where
  /-- The directory that every relative root is resolved against. -/
  baseDir : Path := ⟨"."⟩
  /-- The directories of test sources; the first that holds a test class counts. -/
  testRoots : List String := ["bank/src/test/java", "src/test/java", "test"]
  /-- The directories that may hold source roots; `.` stands for the base directory. -/
  sourceRootPrefixes : List String := [".", "bank", "src", "main"]
  /-- Where a source root lies in each of those directories. -/
  sourceRootSuffixes : List String := ["src/main/java", "main/java", "java"]
  /-- The extension of a source file, without its dot. -/
  sourceExtension : String := "java"
  /-- What the name of a test class may end in; only the first that fits is taken off. -/
  testSuffixes : List String := ["Test", "Tests", "IT", "Integration"]
  /-- What the names of a class's companions end in. -/
  companionSuffixes : List String := ["Service", "Controller", "Repository", "Manager"]
  deriving DecidableEq

namespace SourceLayout

instance : Inhabited SourceLayout := ⟨{}⟩

/-- The standard layout in another directory. -/
def rootedAt (baseDir : Path) : SourceLayout :=
  { baseDir }

/-- A relative path seen from the base directory, which is not spelled out if it is `.`. -/
def resolve (layout : SourceLayout) (relative : Path) : Path :=
  if layout.baseDir.isEmpty || layout.baseDir.same ⟨"."⟩ then relative
  else layout.baseDir.join relative

/-- Whether a name ends as the name of a test class does. -/
def hasTestSuffix (layout : SourceLayout) (name : String) : Bool :=
  layout.testSuffixes.any fun suffix => Text.endsWith suffix.toList name.toList

/-- The name without the first test suffix that it ends in. -/
def stripTestSuffix (layout : SourceLayout) (name : String) : String :=
  let stripped := layout.testSuffixes.findSome? fun suffix =>
    Text.dropFragmentEnd? suffix.toList name.toList
  (stripped.map String.ofList).getD name

end SourceLayout

open Json in
instance : JsonCodec SourceLayout where
  encode l := .object (
    member "base_dir" l.baseDir ++ member "test_roots" l.testRoots ++
    member "source_root_prefixes" l.sourceRootPrefixes ++
    member "source_root_suffixes" l.sourceRootSuffixes ++
    member "source_extension" l.sourceExtension ++ member "test_suffixes" l.testSuffixes ++
    member "companion_suffixes" l.companionSuffixes)
  decode? json := do
    let standard : SourceLayout := {}
    let [baseDir, testRoots, prefixes, suffixes, extension, testSuffixes, companions] ← fields? [
        may "base_dir", may "test_roots", may "source_root_prefixes",
        may "source_root_suffixes", may "source_extension", may "test_suffixes",
        may "companion_suffixes"] json
      | none
    some {
      baseDir := ← withDefault standard.baseDir baseDir
      testRoots := ← withDefault standard.testRoots testRoots
      sourceRootPrefixes := ← withDefault standard.sourceRootPrefixes prefixes
      sourceRootSuffixes := ← withDefault standard.sourceRootSuffixes suffixes
      sourceExtension := ← withDefault standard.sourceExtension extension
      testSuffixes := ← withDefault standard.testSuffixes testSuffixes
      companionSuffixes := ← withDefault standard.companionSuffixes companions }

end FailureTriage
