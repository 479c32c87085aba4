import FailureTriage.Proofs.Suite.Totals
import FailureTriage.Suite.Directory

/-!
# What is loaded from a reports directory

The steps from the bytes of a report to the suites of a directory.

* `readReport_eq_ok_iff`: when a report is taken, and as which suites.
* `readReport_of_read`: what the bytes of a report decide, and what its log adds.
* `readReport_eq_error`, `infix_rejection`: why a report is not taken, and what is said then.
* `suitesOrWarning_eq`: a report gives suites or a warning, never both.
* `ReportSet.value_takeIn`, `ReportSet.messages_takeIn`: what several reports give.
* `ReportSet.load_eq`: what a directory with reports gives; `ReportSet.totalled_load`: its totals.
-/

namespace FailureTriage

variable {files : FileTree} {dir file : Path} {suites : List TestSuite}

/-- Bytes are decoded exactly if they are a text. -/
theorem Utf8.decode_eq_ok_iff {bytes : ByteArray} {text : String} :
    decode bytes = .ok text ↔ String.fromUTF8? bytes = some text := by
  rw [decode]
  cases String.fromUTF8? bytes with
  | none => exact iff_of_false (by rintro ⟨⟩) (by rintro ⟨⟩)
  | some found =>
      exact ⟨fun h => congrArg some (Except.ok.inj h), fun h => by rw [Option.some.inj h]⟩

/-- **A report is taken** exactly if its bytes are a text and the text is accepted.  Its suites are
    completed, each with the same excerpt of the log. -/
theorem readReport_eq_ok_iff :
    readReport files file = .ok suites
      ↔ ∃ content, files.read file = .ok content
        ∧ ∃ document, String.fromUTF8? content = some document
        ∧ ∃ parsed, parseReport file document = .ok parsed
        ∧ suites = parsed.map (·.complete (logExcerpt? files file suiteLogLimit)) := by
  have hlast : ∀ completed : List TestSuite,
      (return completed : Except TriageFault _) = .ok suites ↔ suites = completed :=
    fun completed => ⟨fun h => (Except.ok.inj h).symm, fun h => congrArg Except.ok h.symm⟩
  simp only [readReport, mapError_bind_eq_ok, Utf8.decode_eq_ok_iff, hlast]

/-- The suites of a report from its bytes alone, or why there are none. -/
def suitesOfBytes (file : Path) (content : ByteArray) : Except TriageFault (List TestSuite) := do
  let text ← (Utf8.decode content).mapError fun fault => .malformedReport file fault.message
  (parseReport file text).mapError fun fault => .malformedReport file fault.message

/-- A report that can be read is taken or left out because of its bytes; the log is only added. -/
theorem readReport_of_read {content : ByteArray} (h : files.read file = .ok content) :
    readReport files file = (suitesOfBytes file content).map fun suites =>
      suites.map (·.complete (logExcerpt? files file suiteLogLimit)) := by
  simp only [readReport, h, suitesOfBytes, Except.mapError, bind, Except.bind]
  cases Utf8.decode content with
  | error fault => rfl
  | ok document => cases parseReport file document <;> rfl

/-- Bytes that give no suites are blamed on the report. -/
theorem suitesOfBytes_eq_error {content : ByteArray} {fault : TriageFault}
    (h : suitesOfBytes file content = .error fault) :
    ∃ text, fault = .malformedReport file text := by
  simp only [suitesOfBytes, Except.mapError, bind, Except.bind] at h
  cases hdecode : Utf8.decode content with
  | error cause =>
      rw [hdecode] at h
      exact ⟨cause.message, (Except.error.inj h).symm⟩
  | ok document =>
      rw [hdecode] at h
      cases hparse : parseReport file document with
      | error cause =>
          simp only [hparse] at h
          exact ⟨cause.message, (Except.error.inj h).symm⟩
      | ok parsed =>
          simp only [hparse] at h
          cases h

/-- **A report is not taken** because of its file or because of what is written in it. -/
theorem readReport_eq_error {fault : TriageFault} (h : readReport files file = .error fault) :
    (∃ cause, fault = .file cause) ∨ ∃ text, fault = .malformedReport file text := by
  cases hread : files.read file with
  | error cause =>
      simp only [readReport, hread, Except.mapError, bind, Except.bind] at h
      exact Or.inl ⟨cause, (Except.error.inj h).symm⟩
  | ok content =>
      rw [readReport_of_read hread] at h
      cases hbytes : suitesOfBytes file content with
      | error cause =>
          rw [hbytes] at h
          obtain rfl := Except.error.inj h
          exact Or.inr (suitesOfBytes_eq_error hbytes)
      | ok suites =>
          rw [hbytes] at h
          cases h

/-- The warning about a report that is not taken names it. -/
theorem infix_rejection {fault : TriageFault} (h : readReport files file = .error fault) :
    file.text.toList <:+: (rejection file fault).toList := by
  have hbetween : ∀ before after : String,
      file.text.toList <:+: (before ++ file.text ++ after).toList := by
    intro before after
    rw [String.toList_append, String.toList_append]
    exact List.infix_append _ _ _
  rcases readReport_eq_error h with ⟨cause, rfl⟩ | ⟨text, rfl⟩
  · have htext : rejection file (.file cause)
        = "Could not read " ++ file.text ++ (": " ++ TriageFault.message (.file cause)) :=
      String.append_assoc ..
    rw [htext]
    exact hbetween _ _
  · have htext : rejection file (.malformedReport file text)
        = "Could not parse " ++ file.text ++ (": " ++ text) := String.append_assoc ..
    rw [htext]
    exact hbetween _ _

/-- Either a report gives its suites and no warning, or a warning and no suites. -/
theorem suitesOrWarning_eq (files : FileTree) (file : Path) :
    suitesOrWarning files file
      = match readReport files file with
        | .ok suites => ⟨suites, []⟩
        | .error fault => ⟨[], [⟨.warning, rejection file fault⟩]⟩ := by
  rw [suitesOrWarning]
  cases readReport files file <;> rfl

namespace ReportSet

/-- **Several reports** give what all their suites give, one after the other. -/
theorem value_takeIn (files : FileTree) (set : ReportSet) (reports : List Path) :
    (takeIn files set reports).value
      = set.pushAll (reports.flatMap fun file => (suitesOrWarning files file).value) := by
  induction reports generalizing set with
  | nil => rfl
  | cons file reports ih =>
      rw [takeIn, Logged.value_bind, List.flatMap_cons, pushAll_append]
      cases set.pushAll (suitesOrWarning files file).value with
      | error fault => rfl
      | ok between => exact ih between

/-- Unless a sum is too large, something is said about each of them. -/
theorem messages_takeIn {set after : ReportSet} {reports : List Path}
    (h : (takeIn files set reports).value = .ok after) :
    (takeIn files set reports).messages
      = reports.flatMap fun file => (suitesOrWarning files file).messages := by
  induction reports generalizing set with
  | nil => rfl
  | cons file reports ih =>
      rw [takeIn, Logged.value_bind] at h
      rw [takeIn, Logged.messages_bind, List.flatMap_cons]
      cases hpush : set.pushAll (suitesOrWarning files file).value with
      | error fault =>
          rw [hpush] at h
          cases h
      | ok between =>
          rw [hpush] at h
          exact congrArg (_ ++ ·) (ih h)

/-- The suites of several reports, in order. -/
def ofReports (files : FileTree) (dir : Path) (reports : List Path) :
    Except TriageFault ReportSet :=
  ({ reportsDir := dir } : ReportSet).pushAll
    (reports.flatMap fun file => (suitesOrWarning files file).value)

/-- **What a directory gives** is what its reports give, as long as there is one. -/
theorem load_eq {reports : List Path} (hdir : files.isDirectory dir = true)
    (hreports : reportFiles files dir = .ok reports) (hsome : reports ≠ []) :
    (load files dir).value = ofReports files dir reports
      ∧ (∀ set, ofReports files dir reports = .ok set →
        (load files dir).messages
          = ⟨.info, s!"Found {reports.length} test report files"⟩
            :: reports.flatMap fun file => (suitesOrWarning files file).messages) := by
  rw [load, hdir, if_neg (by decide), hreports]
  cases reports with
  | nil => exact absurd rfl hsome
  | cons first rest =>
      have hvalue := value_takeIn files { reportsDir := dir } (first :: rest)
      exact ⟨hvalue, fun set hset => congrArg (_ :: ·) (messages_takeIn (hvalue.trans hset))⟩

/-- A directory that is loaded gives what its reports give. -/
theorem exists_of_load {set : ReportSet} (h : (load files dir).value = .ok set) :
    ∃ reports, reportFiles files dir = .ok reports ∧ ofReports files dir reports = .ok set := by
  have hfound := h
  rw [load] at hfound
  split at hfound
  · cases hfound
  rename_i hdir
  split at hfound
  · cases hfound
  · cases hfound
  · rename_i reports hsome hreports
    rw [(load_eq (by simpa using hdir) hreports hsome).1] at h
    exact ⟨reports, hreports, h⟩

/-- **The totals** of a directory are the sums of the counts of its suites. -/
theorem totalled_load {set : ReportSet} (h : (load files dir).value = .ok set) :
    set.Totalled := by
  obtain ⟨reports, -, hset⟩ := exists_of_load h
  exact (totalled_nil dir).pushAll hset

end ReportSet

end FailureTriage
