import FailureTriage.Proofs.Lists.FirstOfEach
import FailureTriage.Proofs.Text.Words
import FailureTriage.Source.Layout
import FailureTriage.StackTrace

/-!
# Classes that a stack trace leads through

Which classes are taken from the frames of a stack trace: the outermost class of each frame, unless
it has no name or the name of a test, once without its package and once with it.  One step takes
the class of one frame; a list without repetitions of all frames comes of it.

* `StackFrame.Outermost`: the outermost class of a frame, said without cutting its qualifier.
* `StackClasses.addOnce_firstOfEach`, `StackClasses.ofTrace_eq`: what one frame adds, and all of
  them.
* `StackClasses.Collected`, `StackClasses.ofTrace_collected`: which classes are taken.
-/

namespace FailureTriage

/-! ## Outermost classes -/

namespace StackFrame

/-- Whether the outermost class of a frame has a name in a package: the package is empty or ends in
    a dot, and the names of nested classes follow behind a dollar sign. -/
def Outermost (f : StackFrame) (package name : List Char) : Prop :=
  (package = [] ∨ package.getLast? = some '.') ∧ '.' ∉ name ∧ '$' ∉ package ++ name
    ∧ ∃ nested, f.qualifier.toList = package ++ name ++ nested
      ∧ (nested = [] ∨ nested.head? = some '$')

variable {f : StackFrame} {package name : List Char}

theorem toList_className (f : StackFrame) :
    f.className.toList = Text.beforeFirst '$' f.qualifier.toList :=
  String.toList_ofList

theorem toList_simpleClass (f : StackFrame) :
    f.simpleClass.toList = Text.afterLast '.' f.className.toList :=
  String.toList_ofList

/-- The outermost class of a frame is the one that is read from its qualifier. -/
theorem outermost_iff : f.Outermost package name
    ↔ f.className.toList = package ++ name ∧ f.simpleClass.toList = name := by
  rw [toList_simpleClass, toList_className, Text.beforeFirst_eq_iff]
  constructor
  · rintro ⟨hpackage, hname, hplain, hnested⟩
    refine ⟨⟨hplain, hnested⟩, ?_⟩
    rw [Text.beforeFirst_eq_iff.mpr ⟨hplain, hnested⟩]
    exact Text.afterLast_eq_iff.mpr ⟨hname, package, rfl, hpackage⟩
  · rintro ⟨⟨hplain, hnested⟩, hname⟩
    rw [Text.beforeFirst_eq_iff.mpr ⟨hplain, hnested⟩] at hname
    obtain ⟨hname, before, hcut, hbefore⟩ := Text.afterLast_eq_iff.mp hname
    obtain rfl := List.append_cancel_right hcut
    exact ⟨hbefore, hname, hplain, hnested⟩

/-- Every frame has one outermost class. -/
theorem exists_outermost_iff : (∃ package, f.Outermost package name)
    ↔ f.simpleClass.toList = name := by
  refine ⟨fun ⟨_, h⟩ => (outermost_iff.mp h).2, ?_⟩
  rintro rfl
  obtain ⟨-, package, hclass, -⟩ := Text.afterLast_eq_iff.mp f.toList_simpleClass.symm
  exact ⟨package, outermost_iff.mpr ⟨hclass, rfl⟩⟩

/-- The class has a dot in its name exactly if it has a package. -/
theorem Outermost.dot_mem_iff (h : f.Outermost package name) :
    '.' ∈ f.className.toList ↔ package ≠ [] := by
  rw [(outermost_iff.mp h).1, List.mem_append, or_iff_left h.2.1]
  constructor
  · rintro hmem rfl
    cases hmem
  · intro hne
    -- a package that is not empty ends in a dot
    exact List.mem_of_getLast? (h.1.resolve_left hne)

end StackFrame

/-- Whether a name ends like the name of a test. -/
def SourceLayout.NamesTest (layout : SourceLayout) (name : List Char) : Prop :=
  ∃ suffix ∈ layout.testSuffixes, suffix.toList <:+ name

theorem SourceLayout.hasTestSuffix_iff {layout : SourceLayout} {name : String} :
    layout.hasTestSuffix name = true ↔ layout.NamesTest name.toList := by
  simp only [hasTestSuffix, List.any_eq_true, Text.endsWith, List.isSuffixOf_iff_suffix, NamesTest]

namespace StackClasses

variable {isTestClass : String → Bool}

/-! ## What the frames add -/

/-- Whether the name of a class is taken: there is one, and it is not that of a test. -/
def takes (isTestClass : String → Bool) (simple : String) : Bool :=
  simple != "" && !isTestClass simple

/-- Whether the name of a class is taken together with its package. -/
def takesDotted (isTestClass : String → Bool) (name : String) : Bool :=
  name.toList.contains '.' && takes isTestClass (String.ofList (Text.afterLast '.' name.toList))

variable {accept : String → Bool} {names : List String} {name : String}

/-- A name that is taken is added to those before it, if it is new. -/
theorem addOnce_firstOfEach (h : accept name = true) :
    addOnce ((firstOfEach id names).filter accept) name
      = (firstOfEach id (names ++ [name])).filter accept := by
  have hmem : name ∈ (firstOfEach id names).filter accept ↔ id name ∈ names.map id := by
    rw [List.mem_filter, mem_firstOfEach_id, and_iff_left h, List.map_id, id_eq]
  rw [firstOfEach_concat, List.filter_append, addOnce]
  by_cases hseen : name ∈ (firstOfEach id names).filter accept
  · rw [if_pos (List.contains_iff_mem.mpr hseen), if_pos (hmem.mp hseen), List.filter_nil,
      List.append_nil]
  · rw [if_neg (fun hcontains => hseen (List.contains_iff_mem.mp hcontains)),
      if_neg (fun hin => hseen (hmem.mpr hin)), List.filter_cons_of_pos h, List.filter_nil]

/-- A name that is not taken changes nothing. -/
theorem firstOfEach_skip (h : accept name = false) :
    (firstOfEach id (names ++ [name])).filter accept = (firstOfEach id names).filter accept := by
  rw [firstOfEach_concat, List.filter_append]
  split
  · rw [List.filter_nil, List.append_nil]
  · rw [List.filter_cons_of_neg (Bool.eq_false_iff.mp h), List.filter_nil, List.append_nil]

/-- The classes of some frames, taken one by one. -/
def ofFrames (isTestClass : String → Bool) (frames : List StackFrame) : StackClasses where
  simple := (firstOfEach id (frames.map StackFrame.simpleClass)).filter (takes isTestClass)
  qualified := (firstOfEach id (frames.map StackFrame.className)).filter (takesDotted isTestClass)

theorem ofFrames_concat (isTestClass : String → Bool) (frames : List StackFrame)
    (f : StackFrame) : ofFrames isTestClass (frames ++ [f])
      = ⟨(firstOfEach id (frames.map StackFrame.simpleClass ++ [f.simpleClass])).filter
            (takes isTestClass),
          (firstOfEach id (frames.map StackFrame.className ++ [f.className])).filter
            (takesDotted isTestClass)⟩ := by
  rw [ofFrames, List.map_append, List.map_append, List.map_singleton, List.map_singleton]

/-- **One more frame** adds its class. -/
theorem addFrame_ofFrames (isTestClass : String → Bool) (frames : List StackFrame)
    (f : StackFrame) :
    addFrame isTestClass (ofFrames isTestClass frames) f
      = ofFrames isTestClass (frames ++ [f]) := by
  have hskip : (decide (f.simpleClass = "") || isTestClass f.simpleClass)
      = !takes isTestClass f.simpleClass := by
    rw [takes, Bool.not_and, Bool.not_not, ← beq_eq_decide, bne, Bool.not_not]
  have hdotted : takesDotted isTestClass f.className
      = (f.className.toList.contains '.' && takes isTestClass f.simpleClass) := rfl
  rw [addFrame, ofFrames_concat]
  dsimp only
  rw [hskip]
  cases htaken : takes isTestClass f.simpleClass with
  | false =>
      rw [htaken, Bool.and_false] at hdotted
      rw [firstOfEach_skip htaken, firstOfEach_skip hdotted]
      rfl
  | true =>
      rw [htaken, Bool.and_true] at hdotted
      rw [← addOnce_firstOfEach htaken]
      cases hdot : f.className.toList.contains '.' with
      | false =>
          rw [firstOfEach_skip (hdotted.trans hdot)]
          rfl
      | true =>
          rw [← addOnce_firstOfEach (hdotted.trans hdot)]
          rfl

/-- **All frames** add their classes. -/
theorem ofTrace_eq (isTestClass : String → Bool) (trace : String) :
    ofTrace isTestClass trace = ofFrames isTestClass (StackFrame.parseAll trace) := by
  rw [ofTrace]
  induction StackFrame.parseAll trace using List.reverseRecOn with
  | nil => rfl
  | append_singleton frames f ih =>
      rw [List.foldl_append, ih, List.foldl_cons, List.foldl_nil, addFrame_ofFrames]

/-! ## Which classes are taken -/

variable {layout : SourceLayout} {frames : List StackFrame}

theorem takes_iff : takes layout.hasTestSuffix name = true
    ↔ name ≠ "" ∧ ¬ layout.NamesTest name.toList := by
  rw [takes, Bool.and_eq_true, bne_iff_ne, Bool.not_eq_true', ← Bool.not_eq_true,
    SourceLayout.hasTestSuffix_iff]

theorem mem_simple_ofFrames : name ∈ (ofFrames isTestClass frames).simple
    ↔ takes isTestClass name = true ∧ ∃ f ∈ frames, f.simpleClass = name := by
  rw [ofFrames, List.mem_filter, mem_firstOfEach_id, List.mem_map, and_comm]

theorem mem_qualified_ofFrames : name ∈ (ofFrames isTestClass frames).qualified
    ↔ ∃ f ∈ frames, f.className = name ∧ '.' ∈ name.toList
      ∧ takes isTestClass f.simpleClass = true := by
  rw [ofFrames, List.mem_filter, mem_firstOfEach_id, List.mem_map, ← exists_and_right]
  refine exists_congr fun f => ?_
  rw [and_assoc]
  refine and_congr_right fun _ => and_congr_right ?_
  rintro rfl
  rw [takesDotted, Bool.and_eq_true, List.contains_iff_mem, StackFrame.simpleClass]

/-- A class is taken with its package exactly if it is taken without. -/
theorem mem_qualified_iff_outermost : name ∈ (ofFrames isTestClass frames).qualified
    ↔ ∃ f ∈ frames, ∃ package simple, f.Outermost package simple ∧ package ≠ []
      ∧ name.toList = package ++ simple
      ∧ String.ofList simple ∈ (ofFrames isTestClass frames).simple := by
  rw [mem_qualified_ofFrames]
  refine exists_congr fun f => and_congr_right fun hf => ?_
  constructor
  · rintro ⟨rfl, hdot, htaken⟩
    obtain ⟨package, houter⟩ := StackFrame.exists_outermost_iff.mpr (Eq.refl f.simpleClass.toList)
    refine ⟨package, f.simpleClass.toList, houter, houter.dot_mem_iff.mp hdot,
      (StackFrame.outermost_iff.mp houter).1, ?_⟩
    rw [String.ofList_toList]
    exact mem_simple_ofFrames.mpr ⟨htaken, f, hf, rfl⟩
  · rintro ⟨package, simple, houter, hpackage, hname, hsimple⟩
    obtain ⟨hclass, rfl⟩ := StackFrame.outermost_iff.mp houter
    obtain rfl := String.toList_inj.mp (hname.trans hclass.symm)
    rw [String.ofList_toList] at hsimple
    exact ⟨rfl, houter.dot_mem_iff.mpr hpackage, (mem_simple_ofFrames.mp hsimple).1⟩

variable {f : StackFrame} {package simple : List Char}

theorem mem_of_outermost (hf : f ∈ frames) (houter : f.Outermost package simple)
    (htaken : takes isTestClass (String.ofList simple) = true) :
    String.ofList simple ∈ (ofFrames isTestClass frames).simple
      ∧ (package ≠ [] →
        String.ofList (package ++ simple) ∈ (ofFrames isTestClass frames).qualified) := by
  obtain ⟨hclass, rfl⟩ := StackFrame.outermost_iff.mp houter
  rw [String.ofList_toList] at htaken ⊢
  rw [← hclass, String.ofList_toList]
  exact ⟨mem_simple_ofFrames.mpr ⟨htaken, f, hf, rfl⟩, fun hpackage =>
    mem_qualified_ofFrames.mpr ⟨f, hf, rfl, houter.dot_mem_iff.mpr hpackage, htaken⟩⟩

theorem notMem_of_outermost (houter : f.Outermost package simple)
    (hskipped : ¬ takes isTestClass (String.ofList simple) = true) :
    String.ofList simple ∉ (ofFrames isTestClass frames).simple
      ∧ String.ofList (package ++ simple) ∉ (ofFrames isTestClass frames).qualified := by
  obtain ⟨hclass, rfl⟩ := StackFrame.outermost_iff.mp houter
  rw [String.ofList_toList] at hskipped ⊢
  rw [← hclass, String.ofList_toList]
  refine ⟨fun h => hskipped (mem_simple_ofFrames.mp h).1, ?_⟩
  intro h
  refine hskipped ?_
  -- another frame may show the same class, and then it has the same name without the package
  obtain ⟨g, -, hsame, -, htaken⟩ := mem_qualified_ofFrames.mp h
  rwa [StackFrame.simpleClass, hsame, ← StackFrame.simpleClass] at htaken

/-- What the classes of frames are. -/
structure Collected (layout : SourceLayout) (frames : List StackFrame) (classes : StackClasses) :
    Prop where
  /-- The names without a package are those of the outermost classes of the frames, without the
      empty name and the names of tests. -/
  mem_simple : ∀ name, name ∈ classes.simple ↔ name ≠ "" ∧ ¬ layout.NamesTest name.toList
    ∧ ∃ f ∈ frames, ∃ package, f.Outermost package name.toList
  /-- The names with a package are those of the outermost classes whose names are taken. -/
  mem_qualified : ∀ name, name ∈ classes.qualified ↔ ∃ f ∈ frames, ∃ package simple,
    f.Outermost package simple ∧ package ≠ [] ∧ name.toList = package ++ simple
      ∧ String.ofList simple ∈ classes.simple
  nodup_simple : classes.simple.Nodup
  nodup_qualified : classes.qualified.Nodup
  /-- The names stand in the order in which the frames show them first. -/
  simple_order : classes.simple.Pairwise fun a b =>
    (frames.map StackFrame.simpleClass).idxOf a < (frames.map StackFrame.simpleClass).idxOf b
  qualified_order : classes.qualified.Pairwise fun a b =>
    (frames.map StackFrame.className).idxOf a < (frames.map StackFrame.className).idxOf b
  /-- No class is lost. -/
  complete : ∀ f ∈ frames, ∀ package name, f.Outermost package name → name ≠ [] →
    ¬ layout.NamesTest name → String.ofList name ∈ classes.simple
      ∧ (package ≠ [] → String.ofList (package ++ name) ∈ classes.qualified)
  /-- No test class is taken, whatever is nested in it, and no class without a name. -/
  sound : ∀ f ∈ frames, ∀ package name, f.Outermost package name →
    name = [] ∨ layout.NamesTest name → String.ofList name ∉ classes.simple
      ∧ String.ofList (package ++ name) ∉ classes.qualified

theorem collected_ofFrames (layout : SourceLayout) (frames : List StackFrame) :
    Collected layout frames (ofFrames layout.hasTestSuffix frames) := by
  have htakes : ∀ simple : List Char,
      takes layout.hasTestSuffix (String.ofList simple) = true
        ↔ simple ≠ [] ∧ ¬ layout.NamesTest simple := by
    intro simple
    rw [takes_iff, String.toList_ofList, Ne, String.ofList_eq_empty_iff]
  refine {
    mem_simple := fun name => ?_
    mem_qualified := fun name => mem_qualified_iff_outermost
    nodup_simple := (nodup_firstOfEach_id _).filter _
    nodup_qualified := (nodup_firstOfEach_id _).filter _
    simple_order := (pairwise_firstOfEach_id _).filter _
    qualified_order := (pairwise_firstOfEach_id _).filter _
    complete := fun f hf package name houter hname htest =>
      mem_of_outermost hf houter ((htakes name).mpr ⟨hname, htest⟩)
    sound := fun f hf package name houter hdropped => notMem_of_outermost houter ?_ }
  · rw [mem_simple_ofFrames, takes_iff, and_assoc]
    simp only [StackFrame.exists_outermost_iff, String.toList_inj]
  · rw [htakes]
    rintro ⟨hname, htest⟩
    exact hdropped.elim hname htest

/-- **The classes of a stack trace** are the outermost classes of its frames, each once and in the
    order of its first frame, without those that have no name or the name of a test. -/
theorem ofTrace_collected (layout : SourceLayout) (trace : String) :
    Collected layout (StackFrame.parseAll trace) (ofTrace layout.hasTestSuffix trace) := by
  rw [ofTrace_eq]
  exact collected_ofFrames layout _

end StackClasses

end FailureTriage
