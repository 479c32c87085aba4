import FailureTriage.Files.Tree

/-!
# Steps as a relation

Taking the steps of a path is a run: the steps are taken one after the other until none is left,
or until the last one ends at something that is no directory.  What holds of every path that leads
somewhere follows from what one step does.

* `Move`, `Ends`: what one step does, and where a run ends.
* `Leads`: what a run leads to.
* `takeStepsFollowing_eq_ok_iff`, `reachFrom_eq_ok_iff`: steps and paths lead where a run does.
* `Leads.exists_stop`: where a run is when a first part of its steps is taken.
-/

namespace FailureTriage.FileTree

/-- Where a run is. -/
structure Way where
  /-- How many links may still be followed. -/
  links : Nat
  dir : Location
  /-- The steps to come. -/
  steps : List PathStep

/-- The start of the run of a path. -/
def Way.ofPath (dir : Location) (path : Path) : Way :=
  ⟨mostLinks, startOf path dir, stepsOf path⟩

/-- Whether a step to a name can be taken if other steps come after it. -/
structure MayEnter (ending : Ending) (name : String) (rest : List PathStep) : Prop where
  short : name.utf8ByteSize ≤ longestName
  place : ¬ (ending = .file ∧ rest = [.inside])

/-- A step after which the run goes on. -/
inductive Move (tree : FileTree) (ending : Ending) : Way → Way → Prop
  | stay {links dir rest} : Move tree ending ⟨links, dir, .stay :: rest⟩ ⟨links, dir, rest⟩
  | inside {links dir rest} : Move tree ending ⟨links, dir, .inside :: rest⟩ ⟨links, dir, rest⟩
  | up {links dir rest} : Move tree ending ⟨links, dir, .up :: rest⟩ ⟨links, dir.dropLast, rest⟩
  | directory {links dir name rest} (henter : MayEnter ending name rest)
      (hentry : tree.entryAt? (dir ++ [name]) = some .directory) :
      Move tree ending ⟨links, dir, .into name :: rest⟩ ⟨links, dir ++ [name], rest⟩
  | link {links dir name target rest} (henter : MayEnter ending name rest)
      (hentry : tree.entryAt? (dir ++ [name]) = some (.link target))
      (hfollowed : rest = [] → ending ≠ .link) :
      Move tree ending ⟨links + 1, dir, .into name :: rest⟩
        ⟨links, startOf target dir, stepsOf target ++ rest⟩

/-- An end of the run. -/
inductive Ends (tree : FileTree) (ending : Ending) : Way → Spot → Prop
  | here {links dir} : Ends tree ending ⟨links, dir, []⟩ (.entry dir .directory)
  | vacant {links dir name} (henter : MayEnter ending name [])
      (hentry : tree.entryAt? (dir ++ [name]) = none) :
      Ends tree ending ⟨links, dir, [.into name]⟩ (.vacant (dir ++ [name]))
  | file {links dir name content} (henter : MayEnter ending name [])
      (hentry : tree.entryAt? (dir ++ [name]) = some (.file content)) :
      Ends tree ending ⟨links, dir, [.into name]⟩ (.entry (dir ++ [name]) (.file content))
  | link {links dir name target} (henter : MayEnter ending name [])
      (hentry : tree.entryAt? (dir ++ [name]) = some (.link target)) (hending : ending = .link) :
      Ends tree ending ⟨links, dir, [.into name]⟩ (.entry (dir ++ [name]) (.link target))

/-- What a run leads to. -/
inductive Leads (tree : FileTree) (ending : Ending) : Way → Spot → Prop
  | done {way spot} (hends : Ends tree ending way spot) : Leads tree ending way spot
  | step {way next spot} (hmove : Move tree ending way next) (hrest : Leads tree ending next spot) :
      Leads tree ending way spot

variable {tree : FileTree} {ending : Ending} {links : Nat} {dir place : Location} {name : String}
  {entry : FileEntry} {way next : Way} {spot : Spot} {steps first rest idle : List PathStep}
  {path : Path} {onLink : Location → Path → List PathStep → Except FileFault Spot}

/-! ## Taking steps -/

theorem mayEnter_of_ne (hending : ending ≠ .file) (hshort : name.utf8ByteSize ≤ longestName) :
    MayEnter ending name rest :=
  ⟨hshort, fun h => hending h.1⟩

theorem mayEnter_nil (hshort : name.utf8ByteSize ≤ longestName) : MayEnter ending name [] :=
  ⟨hshort, fun h => nomatch h.2⟩

private theorem takeSteps_into (henter : MayEnter ending name rest) :
    tree.takeSteps ending onLink dir (.into name :: rest)
      = match tree.entryAt? (dir ++ [name]) with
        | none => if rest = [] then .ok (.vacant (dir ++ [name])) else .error .notFound
        | some .directory => tree.takeSteps ending onLink (dir ++ [name]) rest
        | some (.file content) =>
          if rest = [] then .ok (.entry (dir ++ [name]) (.file content)) else .error .notDirectory
        | some (.link target) =>
          if rest = [] && ending = .link then .ok (.entry (dir ++ [name]) (.link target))
          else onLink dir target rest := by
  have hplace : ¬ (decide (ending = .file) && decide (rest = [.inside])) = true := by
    simpa using henter.place
  rw [takeSteps]
  exact (if_neg hplace).trans (if_neg (Nat.not_lt.mpr henter.short))

private theorem mayEnter_of_takeSteps
    (h : tree.takeSteps ending onLink dir (.into name :: rest) = .ok spot) :
    MayEnter ending name rest := by
  rw [takeSteps] at h
  split at h
  · cases h
  split at h
  · cases h
  rename_i hplace hshort
  exact ⟨Nat.not_lt.mp hshort, by simpa using hplace⟩

/-- What is given under a condition only. -/
private theorem ite_eq_ok_iff {α : Type} {condition : Prop} [Decidable condition] {value found : α}
    {fault : FileFault} :
    (if condition then Except.ok value else Except.error fault) = .ok found
      ↔ condition ∧ value = found := by
  by_cases h : condition
  · rw [if_pos h, Except.ok.injEq, and_iff_right h]
  · rw [if_neg h]
    exact iff_of_false nofun fun hfound => h hfound.1

/-- How links are gone on with does not matter for a step that is no link. -/
private theorem exists_takeSteps (tree : FileTree) (ending : Ending) (links : Nat) :
    ∃ onLink, tree.takeStepsFollowing ending links = tree.takeSteps ending onLink := by
  cases links with
  | zero => exact ⟨_, rfl⟩
  | succ links => exact ⟨_, rfl⟩

/-- A step of a run leads nowhere else. -/
theorem Move.takeStepsFollowing_eq (h : Move tree ending way next) :
    tree.takeStepsFollowing ending way.links way.dir way.steps
      = tree.takeStepsFollowing ending next.links next.dir next.steps := by
  obtain ⟨onLink, honLink⟩ := exists_takeSteps tree ending way.links
  cases h with
  | stay | inside | up => rw [honLink, takeSteps]
  | directory henter hentry => rw [honLink, takeSteps_into henter, hentry]
  | link henter hentry hfollowed =>
      rw [takeStepsFollowing, takeSteps_into henter, hentry]
      exact if_neg (by simpa using hfollowed)

theorem Ends.takeStepsFollowing_eq (h : Ends tree ending way spot) :
    tree.takeStepsFollowing ending way.links way.dir way.steps = .ok spot := by
  obtain ⟨onLink, honLink⟩ := exists_takeSteps tree ending way.links
  rw [honLink]
  cases h with
  | here => rfl
  | vacant henter hentry | file henter hentry =>
      rw [takeSteps_into henter, hentry]
      exact if_pos rfl
  | link henter hentry hending =>
      rw [takeSteps_into henter, hentry]
      exact if_pos (by simpa using hending)

/-- Steps that are taken are a run, if a run is what links are gone on with. -/
private theorem leads_of_takeSteps
    (hlink : ∀ dir name target rest, MayEnter ending name rest →
      tree.entryAt? (dir ++ [name]) = some (.link target) → (rest = [] → ending ≠ .link) →
      onLink dir target rest = .ok spot →
      tree.Leads ending ⟨links, dir, .into name :: rest⟩ spot)
    (h : tree.takeSteps ending onLink dir steps = .ok spot) :
    tree.Leads ending ⟨links, dir, steps⟩ spot := by
  induction steps generalizing dir with
  | nil =>
      cases h
      exact .done .here
  | cons step rest ih =>
      cases step with
      | stay => exact .step .stay (ih h)
      | inside => exact .step .inside (ih h)
      | up => exact .step .up (ih h)
      | into name =>
          have henter := mayEnter_of_takeSteps h
          rw [takeSteps_into henter] at h
          cases hentry : tree.entryAt? (dir ++ [name]) with
          | none =>
              rw [hentry] at h
              obtain ⟨rfl, rfl⟩ := ite_eq_ok_iff.mp h
              exact .done (.vacant henter hentry)
          | some found =>
              rw [hentry] at h
              cases found with
              | directory => exact .step (.directory henter hentry) (ih h)
              | file content =>
                  obtain ⟨rfl, rfl⟩ := ite_eq_ok_iff.mp h
                  exact .done (.file henter hentry)
              | link target =>
                  by_cases hlast : rest = [] ∧ ending = .link
                  · obtain ⟨rfl, rfl⟩ := hlast
                    cases h
                    exact .done (.link henter hentry rfl)
                  · dsimp only at h
                    rw [if_neg (by simpa using hlast)] at h
                    exact hlink dir name target rest henter hentry (not_and.mp hlast) h

/-- **Taking steps** is a run. -/
theorem takeStepsFollowing_eq_ok_iff :
    tree.takeStepsFollowing ending links dir steps = .ok spot
      ↔ tree.Leads ending ⟨links, dir, steps⟩ spot := by
  constructor
  · intro h
    induction links generalizing dir steps with
    | zero =>
        refine leads_of_takeSteps (fun _ _ _ _ _ _ _ hnone => ?_) h
        cases hnone
    | succ links ih =>
        exact leads_of_takeSteps
          (fun _ _ _ _ henter hentry hfollowed h => .step (.link henter hentry hfollowed) (ih h)) h
  · intro h
    have hrun : ∀ way spot, tree.Leads ending way spot →
        tree.takeStepsFollowing ending way.links way.dir way.steps = .ok spot := by
      intro way spot h
      induction h with
      | done hends => exact hends.takeStepsFollowing_eq
      | step hmove _ ih => exact hmove.takeStepsFollowing_eq.trans ih
    exact hrun _ _ h

/-- A step of a run can be taken in another tree that has the same directories and links. -/
theorem Move.of_entries {tree' : FileTree}
    (h : ∀ place entry, (∀ content, entry ≠ .file content) → tree.entryAt? place = some entry →
      tree'.entryAt? place = some entry) (hmove : Move tree ending way next) :
    Move tree' ending way next := by
  cases hmove with
  | stay => exact .stay
  | inside => exact .inside
  | up => exact .up
  | directory henter hentry => exact .directory henter (h _ _ nofun hentry)
  | link henter hentry hfollowed => exact .link henter (h _ _ nofun hentry) hfollowed

/-- A run leads to one spot only. -/
theorem Leads.unique {other : Spot} (h : tree.Leads ending way spot)
    (hother : tree.Leads ending way other) : spot = other :=
  Except.ok.inj ((takeStepsFollowing_eq_ok_iff.mpr h).symm.trans
    (takeStepsFollowing_eq_ok_iff.mpr hother))

/-- Whether a path is fit to lead anywhere. -/
structure Usable (path : Path) : Prop where
  valid : path.text.toList.contains '\x00' = false
  nonempty : path.isEmpty = false
  short : path.text.utf8ByteSize ≤ longestPath

/-- **What a path leads to** is what its run leads to. -/
theorem reachFrom_eq_ok_iff :
    tree.reachFrom ending dir path = .ok spot
      ↔ Usable path ∧ tree.Leads ending (.ofPath dir path) spot := by
  rw [Way.ofPath, ← takeStepsFollowing_eq_ok_iff, reachFrom]
  constructor
  · intro h
    split at h
    · cases h
    split at h
    · cases h
    split at h
    · cases h
    rename_i hvalid hnonempty hshort
    exact ⟨⟨Bool.not_eq_true _ |>.mp hvalid, Bool.not_eq_true _ |>.mp hnonempty,
      Nat.not_lt.mp hshort⟩, h⟩
  · intro ⟨husable, h⟩
    rw [husable.valid, husable.nonempty, if_neg Bool.false_ne_true, if_neg Bool.false_ne_true,
      if_neg (Nat.not_lt.mpr husable.short), h]

theorem findFrom?_eq_some_iff :
    tree.findFrom? dir path = some (place, entry)
      ↔ Usable path ∧ tree.Leads .target (.ofPath dir path) (.entry place entry) := by
  rw [← reachFrom_eq_ok_iff, findFrom?]
  cases tree.reachFrom .target dir path with
  | error fault => simp
  | ok spot => cases spot <;> simp

/-- What a path leads to from the working directory. -/
theorem find?_eq_some_iff :
    tree.find? path = some (place, entry)
      ↔ Usable path ∧ tree.Leads .target (.ofPath tree.workingDir path) (.entry place entry) :=
  findFrom?_eq_some_iff

/-! ## Steps one after the other -/

/-- A run ends with the last step at the latest. -/
theorem Ends.length_le_one (h : Ends tree ending way spot) : way.steps.length ≤ 1 := by
  cases h <;> simp

/-- A step can be taken whatever comes after it, but for a file to be written. -/
theorem Move.append (h : Move tree .target ⟨links, dir, steps⟩ next) (rest : List PathStep) :
    Move tree .target ⟨links, dir, steps ++ rest⟩ ⟨next.links, next.dir, next.steps ++ rest⟩ := by
  cases h with
  | stay => exact .stay
  | inside => exact .inside
  | up => exact .up
  | directory henter hentry => exact .directory (mayEnter_of_ne nofun henter.short) hentry
  | link henter hentry =>
      dsimp only
      rw [List.append_assoc]
      exact .link (mayEnter_of_ne nofun henter.short) hentry nofun

/-- A step leaves alone what comes after it. -/
theorem Move.of_append (hne : first ≠ [])
    (h : Move tree .target ⟨links, dir, first ++ rest⟩ next) :
    ∃ steps, Move tree .target ⟨links, dir, first⟩ ⟨next.links, next.dir, steps⟩
      ∧ next.steps = steps ++ rest := by
  obtain ⟨step, first, rfl⟩ := List.exists_cons_of_ne_nil hne
  cases h with
  | stay => exact ⟨first, .stay, rfl⟩
  | inside => exact ⟨first, .inside, rfl⟩
  | up => exact ⟨first, .up, rfl⟩
  | directory henter hentry =>
      exact ⟨first, .directory (mayEnter_of_ne nofun henter.short) hentry, rfl⟩
  | link henter hentry =>
      exact ⟨_, .link (mayEnter_of_ne nofun henter.short) hentry nofun,
        (List.append_assoc ..).symm⟩

/-- **Steps** that can be taken lead to a directory before the last of them. -/
theorem Leads.exists_stop (hrest : rest ≠ [])
    (h : tree.Leads .target ⟨links, dir, first ++ rest⟩ spot) :
    ∃ stop left, tree.Leads .target ⟨links, dir, first⟩ (.entry stop .directory)
      ∧ tree.Leads .target ⟨left, stop, rest⟩ spot := by
  generalize hway : (⟨links, dir, first ++ rest⟩ : Way) = way at h
  induction h generalizing links dir first with
  | done hends =>
      subst hway
      obtain rfl : first = [] := by
        have hlength := hends.length_le_one
        have hpos := List.length_pos_iff.mpr hrest
        rw [List.length_append] at hlength
        exact List.length_eq_zero_iff.mp (by omega)
      exact ⟨dir, links, .done .here, .done hends⟩
  | step hmove hleads ih =>
      subst hway
      by_cases hfirst : first = []
      · subst hfirst
        exact ⟨dir, links, .done .here, .step hmove hleads⟩
      · obtain ⟨steps, hstep, hsteps⟩ := hmove.of_append hfirst
        obtain ⟨stop, left, hstop, hlast⟩ := ih (congrArg (Way.mk _ _) hsteps.symm)
        exact ⟨stop, left, .step hstep hstop, hlast⟩

/-- Steps that do not end with a name lead to a directory. -/
theorem Leads.directory_of_last {last : PathStep} (hlast : ∀ name, last ≠ .into name)
    (h : tree.Leads .target ⟨links, dir, steps ++ [last]⟩ spot) :
    ∃ place, spot = .entry place .directory := by
  obtain ⟨stop, left, -, hrest⟩ := h.exists_stop (List.cons_ne_nil _ _)
  cases last with
  | stay => exact ⟨_, hrest.unique (.step .stay (.done .here))⟩
  | inside => exact ⟨_, hrest.unique (.step .inside (.done .here))⟩
  | up => exact ⟨_, hrest.unique (.step .up (.done .here))⟩
  | into name => exact absurd rfl (hlast name)

/-! ## Steps that stay -/

/-- Whether steps leave a directory as it is. -/
def Idle (steps : List PathStep) : Prop :=
  ∀ step ∈ steps, step = .stay ∨ step = .inside

/-- Idle steps lead nowhere else. -/
theorem Idle.leads (h : Idle steps) :
    tree.Leads ending ⟨links, dir, steps⟩ (.entry dir .directory) := by
  induction steps with
  | nil => exact .done .here
  | cons step steps ih =>
      have hrest := ih fun other hother => h other (List.mem_cons_of_mem _ hother)
      rcases h step List.mem_cons_self with rfl | rfl
      · exact .step .stay hrest
      · exact .step .inside hrest

/-- Idle steps may be taken at the end of a path to a directory. -/
theorem Leads.append_idle (hidle : Idle idle)
    (h : tree.Leads .target ⟨links, dir, steps⟩ (.entry place .directory)) :
    tree.Leads .target ⟨links, dir, steps ++ idle⟩ (.entry place .directory) := by
  generalize hway : (⟨links, dir, steps⟩ : Way) = way at h
  generalize hspot : Spot.entry place .directory = spot at h
  induction h generalizing links dir steps with
  | done hends =>
      subst hway
      cases hends with
      | here =>
          cases hspot
          exact hidle.leads
      | vacant | file | link => cases hspot
  | step hmove _ ih =>
      subst hway
      exact .step (hmove.append idle) (ih rfl hspot)

/-- Idle steps at the end of a path to a directory may be left out. -/
theorem Leads.of_idle (hidle : Idle idle)
    (h : tree.Leads .target ⟨links, dir, steps ++ idle⟩ (.entry place .directory)) :
    tree.Leads .target ⟨links, dir, steps⟩ (.entry place .directory) := by
  by_cases hnil : idle = []
  · rwa [hnil, List.append_nil] at h
  · obtain ⟨stop, left, hfirst, hrest⟩ := h.exists_stop hnil
    cases hrest.unique hidle.leads
    exact hfirst

end FailureTriage.FileTree
