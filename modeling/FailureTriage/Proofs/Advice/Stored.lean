import FailureTriage.Advice.Reply
import FailureTriage.Proofs.Json.Laws

/-!
# Reports that are read back

A report of fixes always comes back from its own text: it holds texts and small numbers only.

* `decode?_lineRef`: a line number comes back as a number and a text as a text.
* `decode?_report`: a report comes back.
-/

namespace FailureTriage

open Json

/-- **A line reference** comes back as what it is: a number as a number, a text as a text. -/
theorem decode?_lineRef (ref : LineRef) : decode? (encode ref).reread = some ref := by
  cases ref with
  | number n =>
    have hn : decode? (encode n).reread = some n := (decode?_reread_iff n n).mpr ⟨trivial, rfl⟩
    show (decode? (encode n).reread).map LineRef.number = _
    rw [hn, Option.map_some]
  | text s => rfl

instance : NeverNull LineRef where
  reread_ne_null ref := by cases ref <;> nofun

instance : LawfulCodec LineRef where
  Storable _ := True
  decode?_reread_iff ref found := by
    rw [decode?_lineRef, Option.some.injEq, true_and]

@[simp] theorem storable_lineRef (ref : LineRef) : Storable ref ↔ True := Iff.rfl

instance : LawfulCodec SuggestedFix where
  Storable _ := True
  decode?_reread_iff f found := by
    rw [show decode? (encode f).reread = _ from decode?_record (by decide) [
      stored f.filePath, storedIfSome f.line, storedIfSome f.currentCode, storedIfSome f.fixedCode,
      storedIfSome f.testClass, storedIfSome f.testMethod, stored f.rootCause,
      stored f.verification, storedIfSome f.notes] rfl (by simp)]
    simp

instance : LawfulCodec FixMetadata where
  Storable _ := True
  decode?_reread_iff m found := by
    rw [show decode? (encode m).reread = _ from decode?_record (by decide) [
      stored m.generatedAt, stored m.totalFailures, stored m.model] rfl (by simp)]
    simp

@[simp] theorem storable_fix (f : SuggestedFix) : Storable f ↔ True := Iff.rfl
@[simp] theorem storable_fixMetadata (m : FixMetadata) : Storable m ↔ True := Iff.rfl

instance : LawfulCodec FixReport where
  Storable _ := True
  decode?_reread_iff r found := by
    rw [show decode? (encode r).reread = _ from decode?_record (by decide) [
      stored r.metadata, stored r.fixes, stored r.rawReply] rfl (by simp)]
    simp

/-- **A report** comes back. -/
theorem decode?_report (r : FixReport) : decode? (encode r).reread = some r :=
  (decode?_reread_iff r r).mpr ⟨trivial, rfl⟩

end FailureTriage
