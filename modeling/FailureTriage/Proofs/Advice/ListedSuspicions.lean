import FailureTriage.Proofs.Advice.PromptParts

/-!
# Which suspicions are listed

A request for fixes lists every suspicion about a failure once, by its rank, with the path of its
own source and everything that was found out about it.

* `Prompt.shows_contextBlock`: what is said about a context.
* `Prompt.build_ranked`: the suspicions that a request for fixes lists.
-/

namespace FailureTriage.Prompt

/-- The context that is found for a failure is the first one of its class and method. -/
theorem contextOf?_eq (contexts : List FailureContext) (failure : FailureSummary) :
    contextOf? contexts failure
      = contexts.find? fun context => context.failure.testClass = failure.testClass
          ∧ context.failure.testMethod = failure.testMethod := by
  rw [contextOf?]
  congr 1
  funext context
  rw [Bool.eq_iff_iff, decide_eq_true_iff, Bool.and_eq_true, beq_iff_eq, beq_iff_eq]

/-- Related sources without a content take up no room. -/
theorem join_relatedBlocks (related : List RelatedSource) :
    String.join (related.map relatedBlock)
      = String.join ((related.filter fun source => source.content ≠ "").map relatedBlock) := by
  induction related with
  | nil => rfl
  | cons source related ih =>
      rw [List.map_cons, String.join_cons, ih, List.filter_cons]
      split
      next => rw [List.map_cons, String.join_cons]
      next hnone =>
        have hempty : source.content = "" := by simpa using hnone
        rw [relatedBlock, hempty]
        exact String.empty_append

/-- **What is said about a context** are its sources and, by their rank, its suspicions. -/
theorem shows_contextBlock (context : FailureContext) : Shows context (contextBlock context) := by
  have hranked := context.rankedFrom_discovered .low
  rw [context.discovered_low] at hranked
  refine ⟨(context.related.filter fun source => source.content ≠ "").map relatedBlock,
    (context.ranked .low).map suspicionBlock, context.ranked .low, ?_, ?_, hranked, ?_⟩
  · rw [contextBlock, join_relatedBlocks]
    simp only [List.isEmpty_iff, List.map_eq_nil_iff]
  · rw [List.forall₂_map_right_iff, List.forall₂_same]
    exact fun source hsource =>
      isShown_relatedBlock (of_decide_eq_true (List.mem_filter.mp hsource).2)
  · rw [List.forall₂_map_right_iff, List.forall₂_same]
    exact fun item _ => isListed_suspicionBlock item

/-- **Suspicions are ranked** by their confidence, in one way only, and each failure of a summary is
    followed by the ranking of all suspicions of the first context of its class and method: one
    block for each of them, which gives the path of its own source, the line and what was found
    out. -/
theorem build_ranked (summary : ErrorSummary) (contexts : List FailureContext) :
    (∀ (context : FailureContext) (least : Confidence) (ranking : List (Path × Suspicion)),
      RankedFrom (context.discovered least) ranking ↔ ranking = context.ranked least)
    ∧ (∃ texts : List String,
      build summary contexts = buildWith summary texts
      ∧ List.Forall₂ (fun failure text =>
          match contexts.find? fun context => context.failure.testClass = failure.testClass
              ∧ context.failure.testMethod = failure.testMethod with
          | none => text = ""
          | some context => Shows context text) summary.failures texts)
    ∧ ∀ context : FailureContext,
        RankedFrom
          (context.related.flatMap fun source => source.suspicions.map fun s => (source.path, s))
          (context.ranked .low) := by
  refine ⟨fun context least ranking => ?_, ?_, fun context => ?_⟩
  · have hranked := context.rankedFrom_discovered least
    constructor
    · exact fun hranking => hranking.unique hranked
    · rintro rfl
      exact hranked
  · refine ⟨_, build_eq_buildWith summary contexts, ?_⟩
    rw [List.forall₂_map_right_iff, List.forall₂_same]
    intro failure _
    rw [contextText, contextOf?_eq]
    split
    next hnone => rw [hnone, Option.map_none, Option.getD_none]
    next context hfound =>
      rw [hfound, Option.map_some, Option.getD_some]
      exact shows_contextBlock context
  · have hranked := context.rankedFrom_discovered .low
    rwa [context.discovered_low] at hranked

end FailureTriage.Prompt
