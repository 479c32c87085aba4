import FailureTriage.Context.Bundle

/-!
# How suspicions are ranked

The suspicions of a context are ranked by their confidence, and those of one confidence stay in the
order in which they were discovered: that of the related sources, and for each source that of its
own suspicions.

* `RankedFrom`: a ranking, which is all that there is to say about the order.
* `RankedFrom.unique`: there is only one ranking.
* `FailureContext.rankedFrom_discovered`: the suspicions of a context are ranked.
-/

namespace FailureTriage

/-- Whether suspicions are ranked: all of them, the more confident ones first, and those of one
    confidence in the order in which they are given. -/
structure RankedFrom (items ranked : List (Path × Suspicion)) : Prop where
  complete : ranked.Perm items
  descending : ranked.Pairwise fun a b => b.2.confidence.rank ≤ a.2.confidence.rank
  stable : ∀ c : Confidence,
    ranked.filter (fun s => s.2.confidence = c) = items.filter fun s => s.2.confidence = c

namespace RankedFrom

variable {items ranked other : List (Path × Suspicion)}

/-- Suspicions that are sorted by their confidence are ranked. -/
theorem of_mergeSort (items : List (Path × Suspicion)) :
    RankedFrom items
      (items.mergeSort fun a b => b.2.confidence.rank ≤ a.2.confidence.rank) := by
  let before (a b : Path × Suspicion) : Bool := b.2.confidence.rank ≤ a.2.confidence.rank
  have htrans : ∀ a b c, before a b → before b c → before a c := by
    intro a b c hab hbc
    exact decide_eq_true (Nat.le_trans (of_decide_eq_true hbc) (of_decide_eq_true hab))
  have htotal : ∀ a b, before a b || before b a := by
    intro a b
    rw [Bool.or_eq_true, decide_eq_true_iff, decide_eq_true_iff]
    exact Nat.le_total ..
  have hperm := items.mergeSort_perm before
  refine ⟨hperm, (items.pairwise_mergeSort htrans htotal).imp of_decide_eq_true, fun c => ?_⟩
  -- the suspicions of one confidence are in order already, so they are kept as they stand
  have hsame : (items.filter fun s => s.2.confidence = c).Pairwise (before · ·) := by
    refine List.pairwise_of_forall_mem_list fun a ha b hb => decide_eq_true (Nat.le_of_eq ?_)
    rw [of_decide_eq_true (List.mem_filter.mp ha).2, of_decide_eq_true (List.mem_filter.mp hb).2]
  have hkept := (List.sublist_mergeSort htrans htotal hsame List.filter_sublist).filter
    fun s => decide (s.2.confidence = c)
  rw [List.filter_filter] at hkept
  simp only [Bool.and_self] at hkept
  exact (hkept.eq_of_length (hperm.filter _).length_eq.symm).symm

/-- What is sorted by confidence are the suspicions of each confidence in turn. -/
theorem eq_append_of_descending
    (h : ranked.Pairwise fun a b => b.2.confidence.rank ≤ a.2.confidence.rank) :
    ranked = ranked.filter (fun s => s.2.confidence = .high)
      ++ (ranked.filter (fun s => s.2.confidence = .medium)
        ++ ranked.filter fun s => s.2.confidence = .low) := by
  induction ranked with
  | nil => rfl
  | cons s ranked ih =>
      obtain ⟨hfirst, hrest⟩ := List.pairwise_cons.mp h
      -- no suspicion that follows is more confident than the first one
      have hnone : ∀ c : Confidence, s.2.confidence.rank < c.rank →
          ranked.filter (fun s => s.2.confidence = c) = [] := by
        intro c hc
        refine List.filter_eq_nil_iff.mpr fun t ht hconfidence => ?_
        have hle := hfirst t ht
        rw [of_decide_eq_true hconfidence] at hle
        exact absurd hc (Nat.not_lt.mpr hle)
      have ih := ih hrest
      cases hs : s.2.confidence with
      | high => simpa [List.filter_cons, hs] using ih
      | medium =>
          rw [hs] at hnone
          simpa [List.filter_cons, hs, hnone .high (by decide)] using ih
      | low =>
          rw [hs] at hnone
          simpa [List.filter_cons, hs, hnone .high (by decide), hnone .medium (by decide)] using ih

/-- **There is only one ranking.** -/
theorem unique (h : RankedFrom items ranked) (hother : RankedFrom items other) :
    ranked = other := by
  rw [eq_append_of_descending h.descending, eq_append_of_descending hother.descending,
    h.stable, h.stable, h.stable, hother.stable, hother.stable, hother.stable]

end RankedFrom

namespace FailureContext

/-- The suspicions of at least a confidence, each with the path of its source, in the order in which
    they were discovered. -/
def discovered (context : FailureContext) (least : Confidence) : List (Path × Suspicion) :=
  context.related.flatMap fun source =>
    (source.suspicions.filter fun s => least.rank ≤ s.confidence.rank).map fun s => (source.path, s)

/-- The suspicions of a context are ranked from those of sufficient confidence. -/
theorem rankedFrom_discovered (context : FailureContext) (least : Confidence) :
    RankedFrom (context.discovered least) (context.ranked least) := by
  have hfilter : context.suspicions.filter (fun s => least.rank ≤ s.2.confidence.rank)
      = context.discovered least := by
    rw [suspicions, discovered, List.filter_flatMap]
    refine congrArg (List.flatMap · context.related) (funext fun source => ?_)
    rw [List.filter_map]
    rfl
  rw [ranked, hfilter]
  exact RankedFrom.of_mergeSort _

/-- Every suspicion is of low confidence at least. -/
theorem discovered_low (context : FailureContext) :
    context.discovered .low = context.suspicions := by
  rw [discovered, suspicions]
  refine congrArg (List.flatMap · context.related) (funext fun source => ?_)
  have hall : source.suspicions.filter (fun s => Confidence.low.rank ≤ s.confidence.rank)
      = source.suspicions :=
    List.filter_eq_self.mpr fun s _ => decide_eq_true (Nat.zero_le s.confidence.rank)
  rw [hall]

end FailureContext

end FailureTriage
