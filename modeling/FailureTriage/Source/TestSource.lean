import FailureTriage.Log
import FailureTriage.Source.Workspace

/-!
# Test sources

Finding the source of a failing test method.  The first test root that holds the file of the test
class counts, whatever the later ones hold.
-/

namespace FailureTriage.Workspace

/-- The window around a test method in its source, or what is known if there is none. -/
def locateTest (w : Workspace) (testClass testMethod : String) : Logged SourceContext :=
  let searched := w.testCandidates testClass
  match searched.find? w.files.isFile with
  | none =>
    let missing := SourceContext.missing s!"Source file not found for {testClass}"
    pure { missing with searched := searched }
  | some path =>
    match w.files.readText path with
    | .ok text => pure (w.window.around (some path) testMethod text)
    | .error fault => do
      let note := s!"Could not read source file {path.text}: {fault.message}"
      Logged.warn note
      return { SourceContext.missing note with path := some path }

end FailureTriage.Workspace
