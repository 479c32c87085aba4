import FailureTriage.Context.Bundle
import FailureTriage.Proofs.Summary.Stored

/-!
# Contexts that are read back

A failure context comes back from its own text exactly if its numbers and its timestamp do.

* `FailureContext.sizes`: the sizes and positions of a context.
* `decode?_context_iff`, `decode?_contexts_iff`: when one context comes back, and when a list does.
* `not_summary_of_contexts`: contexts are never read as a summary.
-/

namespace FailureTriage

open Json

/-! ## What a context says -/

instance : LawfulCodec FailureRecord where
  Storable f := Storable f.duration
  decode?_reread_iff f found := by
    rw [show decode? (encode f).reread = _ from decode?_record (by decide) [
      stored f.testClass, stored f.testMethod, stored f.kind, stored f.failureType,
      stored f.message, stored f.stackTrace, stored f.duration, stored f.systemOut,
      stored f.systemErr, stored f.rawText] rfl (by simp)]
    simp

instance : LawfulCodec SuspicionKind where
  Storable _ := True
  decode?_reread_iff kind found := by
    have hkind : decode? (encode kind).reread = some kind := by cases kind <;> rfl
    rw [hkind, Option.some.injEq, true_and]

instance : LawfulCodec Confidence where
  Storable _ := True
  decode?_reread_iff confidence found := by
    have hconfidence : decode? (encode confidence).reread = some confidence := by
      cases confidence <;> rfl
    rw [hconfidence, Option.some.injEq, true_and]

@[simp] theorem storable_failureRecord (f : FailureRecord) :
    Storable f ↔ f.duration.isFinite = true := Iff.rfl
@[simp] theorem storable_suspicionKind (kind : SuspicionKind) : Storable kind ↔ True := Iff.rfl
@[simp] theorem storable_confidence (confidence : Confidence) :
    Storable confidence ↔ True := Iff.rfl

instance : LawfulCodec Suspicion where
  Storable s := Storable s.lineNumber
  decode?_reread_iff s found := by
    rw [show decode? (encode s).reread = _ from decode?_record (by decide) [
      stored s.lineNumber, stored s.lineContent, stored s.kind, stored s.description,
      stored s.suggestedFix, stored s.confidence] rfl (by simp)]
    simp

instance : LawfulCodec RelatedSource where
  Storable s := Storable s.suspicions
  decode?_reread_iff s found := by
    rw [show decode? (encode s).reread = _ from decode?_record (by decide) [
      stored s.path, stored s.content, storedUnless s.suspicions.isEmpty s.suspicions] rfl
      (by simp)]
    simp

@[simp] theorem storable_suspicion (s : Suspicion) :
    Storable s ↔ s.lineNumber ≤ Text.maxWord64 := Iff.rfl
@[simp] theorem storable_relatedSource (s : RelatedSource) :
    Storable s ↔ ∀ suspicion ∈ s.suspicions, Storable suspicion := Iff.rfl

/-! ## Timestamps -/

/-- A timestamp is read from its text. -/
private theorem decode?_text (text : String) :
    decode? (Json.text text).reread = Timestamp.parse? text :=
  rfl

/-- A record that ends in its timestamp comes back if that is a point in time of the calendar. -/
private theorem required_timestamp_iff {α : Type} (t : Timestamp) (next : Timestamp → α)
    (hnext : Function.Injective next) :
    required (stored t) >>= (fun read => some (next read)) = some (next t) ↔ t.Valid := by
  have hread : required (stored t) = Timestamp.parse? t.text := by
    rw [stored, required, Option.bind_some, show encode t = Json.text t.text from rfl, decode?_text]
  rw [hread, Option.bind_eq_bind, Option.bind_eq_some_iff]
  constructor
  · rintro ⟨read, hparse, heq⟩
    rw [← hnext (Option.some.inj heq)]
    exact Timestamp.valid_of_parse? hparse
  · exact fun hvalid => ⟨t, Timestamp.parse?_text hvalid, rfl⟩

/-! ## Contexts -/

/-- The line numbers of a context. -/
def FailureContext.sizes (c : FailureContext) : List Nat :=
  c.testSource.sizes ++ c.related.flatMap fun source => source.suspicions.map (·.lineNumber)

/-- **A context** comes back if its duration is finite, its line numbers are words and its timestamp
    is one of the calendar. -/
theorem decode?_context_iff (c : FailureContext) :
    decode? (encode c).reread = some c
      ↔ c.failure.duration.isFinite = true ∧ (∀ n ∈ c.sizes, n ≤ Text.maxWord64)
        ∧ c.generatedAt.Valid := by
  have htime := required_timestamp_iff c.generatedAt (fun generatedAt => { c with generatedAt })
    fun t other h => congrArg FailureContext.generatedAt h
  rw [show decode? (encode c).reread = _ from decode?_record (by decide) [
    stored c.failure, stored c.testSource, stored c.related, stored c.dependencies,
    storedIfSome c.assertion, storedIfSome c.location, stored c.generatedAt] rfl (by simp)]
  simp only [↓required_bind_iff, ↓withDefault_bind_iff, ↓nullable_ifSome_bind_iff, ↓htime]
  simp only [storable_failureRecord, storable_sourceContext, storable_list, storable_relatedSource,
    storable_suspicion, storable_nameSet, storable_option, storable_assertion, storable_location,
    FailureContext.sizes, List.forall_mem_append, List.forall_mem_flatMap, List.forall_mem_map,
    implies_true, true_and, and_assoc]

/-- **A list of contexts** comes back if all of them do. -/
theorem decode?_contexts_iff (contexts : List FailureContext) :
    decode? (encode contexts).reread = some contexts
      ↔ (∀ c ∈ contexts, c.failure.duration.isFinite = true)
        ∧ (∀ c ∈ contexts, ∀ n ∈ c.sizes, n ≤ Text.maxWord64)
        ∧ ∀ c ∈ contexts, c.generatedAt.Valid := by
  rw [decode?_list_iff, List.forall₂_same]
  simp only [decode?_context_iff, imp_and, forall_and]

/-! ## No summary -/

/-- A context has no field for the directory of the reports. -/
private theorem member?_context (context : FailureContext) :
    ∃ members, (encode context).reread = .object members
      ∧ Json.member? members "reports_directory" = some none := by
  obtain ⟨failure, testSource, related, dependencies, assertion, location, generatedAt⟩ := context
  -- two of the fields are written only if they have a value
  cases assertion <;> cases location <;> exact ⟨_, rfl, rfl⟩

/-- No context is read as what a summary says about itself. -/
private theorem not_metadata_of_context (context : FailureContext) (metadata : SummaryMetadata) :
    decode? (encode context).reread ≠ some metadata := by
  intro h
  obtain ⟨members, hcontext, hmember⟩ := member?_context context
  rw [hcontext] at h
  obtain ⟨values, hvalues, hread⟩ := Option.bind_eq_some_iff.mp h
  rw [fields?] at hvalues
  split at hvalues
  · simp only [List.mapM_cons, List.mapM_nil, Option.bind_eq_bind, Option.bind_eq_some_iff]
      at hvalues
    obtain ⟨first, -, _, ⟨second, hsecond, _, ⟨third, -, _, hnil, hthird⟩, hrest⟩, hall⟩ := hvalues
    cases hnil
    cases hthird
    cases hrest
    cases hall
    rw [show Json.member? members (must "reports_directory").name = _ from hmember] at hsecond
    cases hsecond
    simp only [Option.bind_eq_bind, Option.bind_eq_some_iff] at hread
    obtain ⟨_, -, _, hdirectory, -⟩ := hread
    cases hdirectory
  · cases hvalues

/-- **Contexts** are never read as a summary. -/
theorem not_summary_of_contexts (contexts : List FailureContext) (summary : ErrorSummary) :
    decode? (encode contexts).reread ≠ some summary := by
  intro h
  obtain ⟨values, hvalues, hread⟩ := Option.bind_eq_some_iff.mp h
  cases contexts with
  | nil => cases hvalues
  | cons context contexts =>
      -- the first item would be the metadata of a summary written without names
      obtain ⟨others, -, rfl⟩ := Option.map_eq_some_iff.mp hvalues
      split at hread
      · rename_i metadata _ _ _ heq
        obtain ⟨rfl, -⟩ := List.cons.inj heq
        simp only [Option.bind_eq_bind, Option.bind_eq_some_iff] at hread
        obtain ⟨metadata, hmetadata, -⟩ := hread
        exact not_metadata_of_context context metadata hmetadata
      · cases hread

end FailureTriage
