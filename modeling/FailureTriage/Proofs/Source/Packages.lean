import FailureTriage.Proofs.Text.Segments
import FailureTriage.Source.Package

/-!
# Packages of production classes by their segments

The package of a production class is guessed by replacements in the text of the package of a test
class.  The first guess leaves out whole segments; each of the others replaces a text that ends
inside of a segment if that one merely begins with `search`, `junit` or `test`.

* `swaps`: the segments that are replaced for all guesses but the first one.
* `productionPackages_segments`: the guesses, and when they are made of whole segments.
-/

namespace FailureTriage

/-! ## Guesses -/

/-- The segment of tests. -/
def testSegment : Segment := "test".toList

/-- The segment of a kind of tests. -/
def junitSegment : Segment := "junit".toList

/-- The segment that stands in the place of segments for tests. -/
def serviceSegment : Segment := "service".toList

/-- Tests of a search become a service. -/
def searchSwap : Swap where
  before := [testSegment, junitSegment]
  last := "search".toList
  new := [serviceSegment]
  undotted := by decide
  shorter := by decide
  apart := by decide

/-- Tests of the kind become a service. -/
def junitSwap : Swap where
  before := [testSegment]
  last := junitSegment
  new := [serviceSegment]
  undotted := by decide
  shorter := by decide
  apart := by decide

/-- Tests are left out. -/
def testSwap : Swap where
  before := []
  last := testSegment
  new := []
  undotted := by decide
  shorter := by decide
  apart := by decide

/-- What is replaced for the guesses behind the first one. -/
def swaps : List Swap :=
  [searchSwap, junitSwap, testSwap]

namespace PackagedName

variable (name : PackagedName)

/-- The package with other segments behind the first one. -/
def spelled (segments : List Segment) : String :=
  String.ofList (name.first ++ dotted segments)

/-- The segments of a package that is spelled. -/
theorem splitOn_spelled {segments : List Segment} (h : ∀ segment ∈ segments, '.' ∉ segment) :
    Text.splitOn '.' (name.spelled segments).toList = name.first :: segments := by
  rw [spelled, String.toList_ofList]
  exact splitOn_dotted name.undotted_first h

/-- The segments of the first guess, behind the first one. -/
def innerKept : List Segment :=
  dropInner [testSegment] (dropInner [testSegment, junitSegment] name.rest)

/-- The package with the text of a run of segments replaced wherever it stands. -/
def swapped (swap : Swap) : String :=
  String.ofList (Text.replace (dotted swap.run) (dotted swap.new) name.package)

theorem innerKept_sublist : name.innerKept.Sublist name.rest :=
  (sublist_dropInner (by decide) _).trans (sublist_dropInner (by decide) _)

/-- The first guess. -/
theorem replace_inner :
    Text.replace ".test.".toList ".".toList
        (Text.replace ".test.junit.".toList ".".toList name.package)
      = name.first ++ dotted name.innerKept := by
  have hinner : ∀ (run segments : List Segment), run ≠ [] → (∀ segment ∈ run, '.' ∉ segment) →
      (∀ segment ∈ segments, '.' ∉ segment) →
      Text.replace (dotted run ++ ['.']) ['.'] (name.first ++ dotted segments)
        = name.first ++ dotted (dropInner run segments) := by
    intro run segments hrun hundotted hsegments
    obtain ⟨lead, tail, rfl⟩ := List.exists_cons_of_ne_nil hrun
    rw [← replace_dotted_inner hrun hundotted hsegments]
    exact Text.replace_append_of_not_mem name.undotted_first _ _
  have hpair := hinner [testSegment, junitSegment] name.rest (by decide) (by decide)
    name.undotted_rest
  have hsingle := hinner [testSegment] (dropInner [testSegment, junitSegment] name.rest)
    (by decide) (by decide) fun segment hsegment =>
      name.undotted_rest segment ((sublist_dropInner (by decide) _).subset hsegment)
  rw [innerKept, ← hsingle, ← hpair]
  rfl

/-- The guesses for the package of a class. -/
theorem productionPackages_eq :
    productionPackages name.text
      = ((name.spelled name.innerKept :: swaps.map name.swapped).filter (· ≠ "")).eraseDups := by
  have hpackage : Text.beforeLast? '.' name.text.toList = some name.package := by
    rw [text, String.toList_ofList]
    exact Text.beforeLast?_append_cons name.undotted_simple name.package
  rw [productionPackages, hpackage]
  dsimp only
  rw [replace_inner]
  rfl

/-- A guess is one of whole segments exactly if it cuts none. -/
theorem swapped_eq_iff (swap : Swap) :
    name.swapped swap = name.spelled (swapRuns swap.run swap.new name.rest)
      ↔ ¬ swap.Cuts name.rest := by
  obtain ⟨stem, hstem⟩ := swap.exists_stem
  have hfirst : Text.replace (dotted swap.run) (dotted swap.new) name.package
      = name.first ++ swap.replaced name.rest := by
    rw [Swap.replaced, hstem]
    exact Text.replace_append_of_not_mem name.undotted_first _ _
  rw [← Swap.replaced_eq_iff name.undotted_rest, swapped, spelled, hfirst, String.ofList_inj,
    List.append_right_inj]

end PackagedName

/-- The first of equal ones are different ones. -/
private theorem nodup_eraseDups (texts : List String) : texts.eraseDups.Nodup := by
  cases texts with
  | nil => exact List.nodup_nil
  | cons text texts =>
      rw [List.eraseDups_cons, List.nodup_cons]
      refine ⟨?_, nodup_eraseDups (texts.filter fun other => !other == text)⟩
      rw [List.mem_eraseDups, List.mem_filter]
      simp
termination_by texts.length
decreasing_by exact Nat.lt_succ_of_le (List.length_filter_le _ texts)

/-- **The production packages of a test class.**  They are different names that are not empty: the
    first guess leaves out whole segments, and has the segment `test` left inside exactly if it
    stood there twice, one behind the other; each of the others replaces whole segments exactly if
    no segment merely begins with the last one it looks for, behind the ones before that.  Where no
    segment does, all packages are made of segments of the package and of `service`. -/
theorem productionPackages_segments {testClass : String} (hdot : '.' ∈ testClass.toList) :
    (∃ name : PackagedName, name.text = testClass)
    ∧ ∀ name : PackagedName, name.text = testClass →
      productionPackages testClass
          = ((name.spelled name.innerKept :: swaps.map name.swapped).filter (· ≠ "")).eraseDups
      ∧ (productionPackages testClass).Nodup ∧ "" ∉ productionPackages testClass
      ∧ name.innerKept.Sublist name.rest
      ∧ (testSegment ∈ name.innerKept.dropLast
        ↔ ∃ next, [testSegment, testSegment, next]
            <:+: dropInner [testSegment, junitSegment] name.rest)
      ∧ (∀ swap ∈ swaps, name.swapped swap = name.spelled (swapRuns swap.run swap.new name.rest)
        ↔ ¬ swap.Cuts name.rest)
      ∧ ((∀ swap ∈ swaps, ¬ swap.Cuts name.rest) →
        ∀ package ∈ productionPackages testClass, ∀ segment ∈ Text.splitOn '.' package.toList,
          segment ∈ name.first :: name.rest ∨ segment = serviceSegment) := by
  refine ⟨PackagedName.exists_text_eq hdot, ?_⟩
  rintro name rfl
  have hguesses := name.productionPackages_eq
  refine ⟨hguesses, hguesses ▸ nodup_eraseDups _, ?_, name.innerKept_sublist,
    mem_dropLast_dropInner_iff, fun swap _ => name.swapped_eq_iff swap, ?_⟩
  · rw [hguesses, List.mem_eraseDups, List.mem_filter]
    exact fun h => absurd rfl (of_decide_eq_true h.2)
  · intro hwhole package hpackage segment hsegment
    rw [hguesses, List.mem_eraseDups, List.mem_filter] at hpackage
    -- every guess spells segments of the package and of the new ones
    have hspelled : ∀ segments : List Segment,
        (∀ s ∈ segments, s ∈ name.rest ∨ s = serviceSegment) → package = name.spelled segments →
        segment ∈ name.first :: name.rest ∨ segment = serviceSegment := by
      rintro segments hsegments rfl
      have hundotted : ∀ s ∈ segments, '.' ∉ s := by
        intro s hs
        rcases hsegments s hs with hrest | rfl
        · exact name.undotted_rest s hrest
        · decide
      rw [name.splitOn_spelled hundotted] at hsegment
      rcases List.mem_cons.mp hsegment with rfl | hmem
      · exact Or.inl List.mem_cons_self
      · exact (hsegments segment hmem).imp_left (List.mem_cons_of_mem _)
    rcases List.mem_cons.mp hpackage.1 with hinner | hswapped
    · exact hspelled _ (fun s hs => Or.inl (name.innerKept_sublist.subset hs)) hinner
    · obtain ⟨swap, hswap, rfl⟩ := List.mem_map.mp hswapped
      refine hspelled (swapRuns swap.run swap.new name.rest) (fun s hs => ?_)
        ((name.swapped_eq_iff swap).mpr (hwhole swap hswap))
      refine (mem_of_mem_swapRuns hs).imp_right fun hnew => ?_
      have hall : ∀ swap ∈ swaps, ∀ s ∈ swap.new, s = serviceSegment := by
        simp [swaps, searchSwap, junitSwap, testSwap]
      exact hall swap hswap s hnew

/-- The name of a class of tests of a search. -/
def searchTest : PackagedName where
  first := "com".toList
  rest := ["bank".toList, testSegment, junitSegment, "search".toList]
  simple := "AtmLocationSearchTest".toList
  undotted := by decide

/-- Tests of a search have whole segments in all their production packages. -/
theorem productionPackages_search :
    '.' ∈ searchTest.text.toList ∧ (∀ swap ∈ swaps, ¬ swap.Cuts searchTest.rest)
    ∧ productionPackages searchTest.text
        = ["com.bank.search", "com.bank.service", "com.bank.service.search",
          "com.bank.junit.search"]
    ∧ ∀ package ∈ productionPackages searchTest.text,
        ∀ segment ∈ Text.splitOn '.' package.toList,
          segment ∈ searchTest.first :: searchTest.rest ∨ segment = serviceSegment := by
  have hdot : '.' ∈ searchTest.text.toList := by decide
  have hwhole : ∀ swap ∈ swaps, ¬ swap.Cuts searchTest.rest := by decide
  obtain ⟨-, hevery⟩ := productionPackages_segments hdot
  obtain ⟨-, -, -, -, -, -, hsegments⟩ := hevery searchTest rfl
  exact ⟨hdot, hwhole, by decide +kernel, hsegments hwhole⟩

/-- A segment that merely begins with `test` is cut, and its end is joined to the segment before. -/
theorem productionPackages_testing :
    productionPackages "com.bank.testing.FooTest" = ["com.bank.testing", "com.banking"]
    ∧ productionPackages "a.test.test.b.FooTest" = ["a.test.b", "a.test.test.b", "a.b"] := by
  decide +kernel

end FailureTriage
