import FailureTriage.Proofs.Json.Records
import FailureTriage.Settings

/-!
# Where a setting takes its value from

The layers that may give a setting are, from the lowest up, what is built in, a variable of the
environment, the configuration text and the command line.

* `FromHighest`: a value comes from the highest layer that gives one.
* `Layered`: this holds of every setting but the base directory.
* `BaseDirLost`: when the base directory of the environment does not reach the settings.
* `layered_of_ofText?`: which settings come from their highest layer.
-/

namespace FailureTriage.Settings

open Json (given? withDefault fields? may)

/-! ## Layers -/

/-- A table of the configuration text: its name, and the names of its settings in their order. -/
structure Table where
  name : String
  settings : List String

def layoutTable : Table where
  name := "locator"
  settings := ["base_dir", "test_roots", "source_root_prefixes", "source_root_suffixes",
    "source_extension", "test_suffixes", "companion_suffixes"]

def windowTable : Table where
  name := "window"
  settings := ["lines_before", "lines_after"]

def endpointTable : Table where
  name := "endpoint"
  settings := ["url", "model", "api_key", "temperature", "max_completion_tokens", "timeout_secs"]

/-- The names at the top of the configuration text. -/
def topNames : List String :=
  ["reports_dir", "output_dir", "locator", "window", "endpoint"]

/-- What the configuration text gives at its top. -/
def atTop? (toml : Option Json) (name : String) : Option Json :=
  toml.bind (given? topNames name)

/-- What the configuration text gives in one of its tables. -/
def inTable? (toml : Option Json) (table : Table) (name : String) : Option Json :=
  (atTop? toml table.name).bind (given? table.settings name)

section

variable {α : Type} [JsonCodec α]

/-- Whether a value is what the highest layer gives of those that give one. -/
def FromHighest (flag : Option α) (toml : Option Json) (fromEnv : Option α)
    (builtIn value : α) : Prop :=
  match flag, toml with
  | some given, _ => value = given
  | none, some json => JsonCodec.decode? json = some value
  | none, none => value = fromEnv.getD builtIn

variable {flag : Option α} {toml : Option Json} {fromEnv : Option α} {builtIn value : α}

/-- A setting that is read with a default comes from the layers below the command line. -/
theorem fromHighest_of_withDefault (h : withDefault (fromEnv.getD builtIn) toml = some value) :
    FromHighest none toml fromEnv builtIn value := by
  cases toml with
  | none => exact (Option.some.inj h).symm
  | some json => exact h

/-- The command line has the last word. -/
theorem fromHighest_getD (h : FromHighest none toml fromEnv builtIn value) :
    FromHighest flag toml fromEnv builtIn (flag.getD value) := by
  cases flag with
  | none => exact h
  | some given => exact rfl

end

/-! ## Tables -/

/-- The settings of the layout that only a configuration text can change. -/
structure LayoutLayered (toml : Option Json) (layout : SourceLayout) : Prop where
  testRoots : FromHighest none (inTable? toml layoutTable "test_roots") none
    ["bank/src/test/java", "src/test/java", "test"] layout.testRoots
  sourceRootPrefixes : FromHighest none (inTable? toml layoutTable "source_root_prefixes") none
    [".", "bank", "src", "main"] layout.sourceRootPrefixes
  sourceRootSuffixes : FromHighest none (inTable? toml layoutTable "source_root_suffixes") none
    ["src/main/java", "main/java", "java"] layout.sourceRootSuffixes
  sourceExtension : FromHighest none (inTable? toml layoutTable "source_extension") none
    "java" layout.sourceExtension
  testSuffixes : FromHighest none (inTable? toml layoutTable "test_suffixes") none
    ["Test", "Tests", "IT", "Integration"] layout.testSuffixes
  companionSuffixes : FromHighest none (inTable? toml layoutTable "companion_suffixes") none
    ["Service", "Controller", "Repository", "Manager"] layout.companionSuffixes

/-- The settings of the window, which only a configuration text can change. -/
structure WindowLayered (toml : Option Json) (window : Window) : Prop where
  linesBefore : FromHighest none (inTable? toml windowTable "lines_before") none 5
    window.linesBefore
  linesAfter : FromHighest none (inTable? toml windowTable "lines_after") none 30 window.linesAfter

/-- The key of the environment; an empty one is none. -/
def apiKeyOf (env : Environment) : Option String :=
  (env "TRIAGE_API_KEY").filter (· ≠ "")

/-- The timeout of the environment, if it is a number of 64 bits. -/
def timeoutOf (env : Environment) : Option UInt64 :=
  ((env "TRIAGE_TIMEOUT_SECS").bind fun text =>
    Text.readNat? Text.maxWord64 text.toList).map UInt64.ofNat

/-- The settings of the endpoint. -/
structure EndpointLayered (env : Environment) (toml : Option Json) (endpoint : Endpoint) :
    Prop where
  url : FromHighest none (inTable? toml endpointTable "url") (env "TRIAGE_API_URL")
    "http://localhost:8080/v1" endpoint.url
  model : FromHighest none (inTable? toml endpointTable "model") (env "TRIAGE_MODEL")
    "mistralai/mistral-medium-2505" endpoint.model
  apiKey : FromHighest none (inTable? toml endpointTable "api_key") ((apiKeyOf env).map some)
    none endpoint.apiKey
  temperature : FromHighest none (inTable? toml endpointTable "temperature") none
    0.1 endpoint.temperature
  maxCompletionTokens : FromHighest none (inTable? toml endpointTable "max_completion_tokens") none
    16384 endpoint.maxCompletionTokens
  timeoutSecs : FromHighest none (inTable? toml endpointTable "timeout_secs") (timeoutOf env)
    120 endpoint.timeoutSecs

variable {env : Environment} {toml : Option Json} {json : Json}

/-- A table is read from what it gives for its settings. -/
private theorem read_of_table {table : Table} (hnodup : table.settings.Nodup) {β : Type}
    {read : List (Option Json) → Option β} {value : β}
    (h : (fields? (table.settings.map may) json).bind read = some value)
    (hgiven : ∀ name ∈ table.settings,
      given? table.settings name json = inTable? toml table name) :
    read (table.settings.map (inTable? toml table)) = some value := by
  have hread := Json.read_of_fields? hnodup h
  rwa [List.map_congr_left hgiven] at hread

/-- The table of the layout is read as what it gives, over the standard layout. -/
private theorem layout_of_decode? {layout : SourceLayout}
    (h : JsonCodec.decode? json = some layout)
    (hgiven : ∀ name ∈ layoutTable.settings,
      given? layoutTable.settings name json = inTable? toml layoutTable name) :
    LayoutLayered toml layout
      ∧ withDefault ⟨"."⟩ (inTable? toml layoutTable "base_dir") = some layout.baseDir := by
  have hread := read_of_table (show layoutTable.settings.Nodup by decide) h hgiven
  dsimp only [layoutTable, List.map] at hread
  simp only [Option.bind_eq_bind, Option.bind_eq_some_iff] at hread
  obtain ⟨_, hbase, _, htest, _, hprefix, _, hsuffix, _, hextension, _, hends, _, hcompanions,
    heq⟩ := hread
  obtain rfl := Option.some.inj heq
  exact ⟨{
    testRoots := fromHighest_of_withDefault htest
    sourceRootPrefixes := fromHighest_of_withDefault hprefix
    sourceRootSuffixes := fromHighest_of_withDefault hsuffix
    sourceExtension := fromHighest_of_withDefault hextension
    testSuffixes := fromHighest_of_withDefault hends
    companionSuffixes := fromHighest_of_withDefault hcompanions }, hbase⟩

private theorem window_of_decode? {window : Window} (h : JsonCodec.decode? json = some window)
    (hgiven : ∀ name ∈ windowTable.settings,
      given? windowTable.settings name json = inTable? toml windowTable name) :
    WindowLayered toml window := by
  have hread := read_of_table (show windowTable.settings.Nodup by decide) h hgiven
  dsimp only [windowTable, List.map] at hread
  simp only [Option.bind_eq_bind, Option.bind_eq_some_iff] at hread
  obtain ⟨_, hbefore, _, hafter, heq⟩ := hread
  obtain rfl := Option.some.inj heq
  exact {
    linesBefore := fromHighest_of_withDefault hbefore
    linesAfter := fromHighest_of_withDefault hafter }

/-- The key of the environment is the standard one, if there is none. -/
private theorem apiKey_standard :
    (Endpoint.standard env).apiKey = ((apiKeyOf env).map some).getD none := by
  show apiKeyOf env = _
  cases apiKeyOf env <;> rfl

private theorem endpoint_of_decode? {endpoint : Endpoint}
    (h : Endpoint.decode? env json = some endpoint)
    (hgiven : ∀ name ∈ endpointTable.settings,
      given? endpointTable.settings name json = inTable? toml endpointTable name) :
    EndpointLayered env toml endpoint := by
  have hread := read_of_table (show endpointTable.settings.Nodup by decide) h hgiven
  dsimp only [endpointTable, List.map] at hread
  simp only [Option.bind_eq_bind, Option.bind_eq_some_iff, apiKey_standard] at hread
  obtain ⟨_, hurl, _, hmodel, _, hkey, _, htemperature, _, htokens, _, htimeout, heq⟩ := hread
  obtain rfl := Option.some.inj heq
  exact {
    url := fromHighest_of_withDefault hurl
    model := fromHighest_of_withDefault hmodel
    apiKey := fromHighest_of_withDefault hkey
    temperature := fromHighest_of_withDefault htemperature
    maxCompletionTokens := fromHighest_of_withDefault htokens
    timeoutSecs := fromHighest_of_withDefault htimeout }

/-! ## Tables that are not there -/

/-- A table that is not there gives nothing. -/
private theorem inTable?_of_none {table : Table} (h : atTop? toml table.name = none)
    (name : String) : inTable? toml table name = none := by
  rw [inTable?, h]
  rfl

private theorem layout_standard (env : Environment) (h : atTop? toml layoutTable.name = none) :
    LayoutLayered toml (standard env).layout := by
  have hlayout : LayoutLayered toml {} :=
    (@layout_of_decode? _ (.object []) {} rfl
      fun name _ => (inTable?_of_none h name).symm).1
  rw [standard]
  cases env "TRIAGE_BASE_DIR" with
  | none => exact hlayout
  | some dir => exact { hlayout with }

private theorem window_standard (env : Environment) (h : atTop? toml windowTable.name = none) :
    WindowLayered toml (standard env).window :=
  @window_of_decode? _ (.object []) _ rfl fun name _ => (inTable?_of_none h name).symm

private theorem endpoint_standard (env : Environment) (h : atTop? toml endpointTable.name = none) :
    EndpointLayered env toml (standard env).endpoint :=
  @endpoint_of_decode? _ _ (.object []) _ rfl fun name _ => (inTable?_of_none h name).symm

/-! ## What is left over in a table -/

/-- A value of the configuration text without what is left over. -/
private def shortened (key : Option String) (value : Json) : Json :=
  match tableSize? key, value with
  | some size, .array items => .array (items.take size)
  | _, _ => value

private theorem withoutSurplus_object (members : List (Option String × Json)) :
    withoutSurplus (.object members) = .object (members.map fun m => (m.1, shortened m.1 m.2)) := by
  rw [withoutSurplus]
  refine congrArg Json.object (List.map_congr_left fun m _ => ?_)
  obtain ⟨key, value⟩ := m
  unfold shortened
  cases hsize : tableSize? key <;> cases value <;> simp only [hsize]

/-- What is given at the top is shortened, or the text is no object and stays as it is. -/
private theorem given?_withoutSurplus (name : String) :
    given? topNames name (withoutSurplus json)
        = (given? topNames name json).map (shortened (some name))
      ∨ given? topNames name (withoutSurplus json) = given? topNames name json := by
  cases json with
  | object members =>
      left
      rw [withoutSurplus_object, given?, given?, List.find?_map, Option.map_map, Option.map_map]
      show (members.find? fun m => m.1 == some name).map _
        = (members.find? fun m => m.1 == some name).map _
      cases hfound : members.find? fun m => m.1 == some name with
      | none => rfl
      | some m =>
          -- the member that was found has the name that was looked for
          have hpred : (m.1 == some name) = true := by simpa using List.find?_some hfound
          have hkey : m.1 = some name := beq_iff_eq.mp hpred
          show some (shortened m.1 m.2) = some (shortened (some name) m.2)
          rw [hkey]
  | _ => exact Or.inr rfl

/-- What is left over in a table gives none of its settings. -/
private theorem given?_shortened {table : Table}
    (hsize : tableSize? (some table.name) = some table.settings.length) {name : String}
    (hname : name ∈ table.settings) :
    given? table.settings name (shortened (some table.name) json)
      = given? table.settings name json := by
  unfold shortened
  rw [hsize]
  cases json with
  | array items =>
      -- the place of a setting lies before what is left over
      show (items.take table.settings.length)[table.settings.idxOf name]? = items[_]?
      exact List.getElem?_take_of_lt (List.idxOf_lt_length_of_mem hname)
  | _ => rfl

/-- A table gives the same settings with and without what is left over. -/
private theorem table_withoutSurplus {table : Table}
    (hsize : tableSize? (some table.name) = some table.settings.length) {read : Json}
    (h : given? topNames table.name (withoutSurplus json) = some read) :
    ∀ name ∈ table.settings,
      given? table.settings name read = inTable? (some json) table name := by
  intro name hname
  rw [inTable?]
  show _ = (given? topNames table.name json).bind _
  rcases @given?_withoutSurplus json table.name with hmap | hsame
  · rw [h] at hmap
    obtain ⟨written, hwritten, rfl⟩ := Option.map_eq_some_iff.mp hmap.symm
    rw [hwritten]
    exact given?_shortened hsize hname
  · rw [← hsame, h]
    rfl

/-- A table that is not read is not there. -/
private theorem atTop?_of_none {name : String}
    (h : given? topNames name (withoutSurplus json) = none) : atTop? (some json) name = none := by
  rcases @given?_withoutSurplus json name with hmap | hsame
  · exact Option.map_eq_none_iff.mp (hmap.symm.trans h)
  · exact hsame.symm.trans h

/-- What is no table stays as it is. -/
private theorem atTop?_withoutSurplus {name : String} (hname : tableSize? (some name) = none) :
    given? topNames name (withoutSurplus json) = atTop? (some json) name := by
  rcases @given?_withoutSurplus json name with hmap | hsame
  · have hid : shortened (some name) = id := by
      funext value
      unfold shortened
      rw [hname]
      rfl
    rw [hmap, hid, Option.map_id]
    rfl
  · exact hsame

/-! ## All settings -/

/-- The settings of a configuration text, or the standard ones if there is none. -/
def ofText? (env : Environment) : Option String → Option Settings
  | some text => ofToml? env text
  | none => some (standard env)

/-- What a configuration text gives, if there is one. -/
def tomlOf (text : Option String) : Option Json :=
  text.bind readToml?

/-- Every setting but the base directory is what the highest layer gives. -/
structure Layered (env : Environment) (toml : Option Json) (flags : Overrides)
    (settings : Settings) : Prop where
  reportsDir : FromHighest flags.reportsDir (atTop? toml "reports_dir")
    ((env "TRIAGE_REPORTS_DIR").map Path.mk) ⟨"bank/target/surefire-reports"⟩ settings.reportsDir
  outputDir : FromHighest flags.outputDir (atTop? toml "output_dir")
    ((env "TRIAGE_OUTPUT_DIR").map Path.mk) ⟨"output"⟩ settings.outputDir
  layout : LayoutLayered toml settings.layout
  window : WindowLayered toml settings.window
  endpoint : EndpointLayered env toml settings.endpoint

/-- The base directory is what the highest layer gives. -/
def BaseDirLayered (env : Environment) (toml : Option Json) (flags : Overrides)
    (settings : Settings) : Prop :=
  FromHighest flags.baseDir (inTable? toml layoutTable "base_dir")
    ((env "TRIAGE_BASE_DIR").map Path.mk) ⟨"."⟩ settings.layout.baseDir

/-- The environment gives a base directory, and the table of the layout, which gives none, puts the
    built-in one in its place. -/
def BaseDirLost (env : Environment) (toml : Option Json) (flags : Overrides) : Prop :=
  flags.baseDir = none ∧ (atTop? toml layoutTable.name).isSome = true
    ∧ inTable? toml layoutTable "base_dir" = none
    ∧ ∃ dir, env "TRIAGE_BASE_DIR" = some dir ∧ dir ≠ "."

private theorem reportsDir_standard :
    (standard env).reportsDir
      = ((env "TRIAGE_REPORTS_DIR").map Path.mk).getD ⟨"bank/target/surefire-reports"⟩ := by
  rw [standard]
  cases env "TRIAGE_REPORTS_DIR" <;> rfl

private theorem outputDir_standard :
    (standard env).outputDir = ((env "TRIAGE_OUTPUT_DIR").map Path.mk).getD ⟨"output"⟩ := by
  rw [standard]
  cases env "TRIAGE_OUTPUT_DIR" <;> rfl

private theorem baseDir_standard :
    (standard env).layout.baseDir = ((env "TRIAGE_BASE_DIR").map Path.mk).getD ⟨"."⟩ := by
  rw [standard]
  cases env "TRIAGE_BASE_DIR" <;> rfl

/-- Without a table of the layout the standard base directory stays. -/
private theorem baseDirLayered_of_none {flags : Overrides} {settings : Settings}
    (hnone : atTop? toml layoutTable.name = none)
    (hdir : settings.layout.baseDir = (standard env).layout.baseDir) :
    BaseDirLayered env toml flags (settings.override flags) ∧ ¬ BaseDirLost env toml flags := by
  constructor
  · refine fromHighest_getD ?_
    rw [inTable?_of_none hnone, hdir, baseDir_standard]
    rfl
  · rintro ⟨-, hsome, -⟩
    rw [hnone] at hsome
    cases hsome

/-- With a table of the layout the base directory is that of the table or the built-in one. -/
private theorem baseDirLayered_of_table {flags : Overrides} {settings : Settings}
    (htable : (atTop? toml layoutTable.name).isSome = true)
    (hdir : withDefault ⟨"."⟩ (inTable? toml layoutTable "base_dir")
      = some settings.layout.baseDir) :
    BaseDirLayered env toml flags (settings.override flags) ↔ ¬ BaseDirLost env toml flags := by
  rw [BaseDirLayered, BaseDirLost, htable]
  show FromHighest flags.baseDir _ _ _ (flags.baseDir.getD settings.layout.baseDir) ↔ _
  cases hflag : flags.baseDir with
  | some given =>
      exact iff_of_true rfl fun h => nomatch h.1
  | none =>
      cases hgiven : inTable? toml layoutTable "base_dir" with
      | some json =>
          rw [hgiven] at hdir
          exact iff_of_true hdir fun h => nomatch h.2.2.1
      | none =>
          rw [hgiven] at hdir
          obtain hbuiltIn : ⟨"."⟩ = settings.layout.baseDir := Option.some.inj hdir
          rw [Option.getD_none, ← hbuiltIn]
          -- the built-in directory is in place of that of the environment, if there is one
          cases henv : env "TRIAGE_BASE_DIR" with
          | none => exact iff_of_true rfl fun h => nomatch h.2.2.2.choose_spec.1
          | some dir =>
              show Path.mk "." = Path.mk dir ↔ _
              constructor
              · rintro heq ⟨-, -, -, other, hother, hne⟩
                exact hne ((Option.some.inj hother).symm.trans (congrArg Path.text heq).symm)
              · intro hkept
                by_contra hne
                exact hkept ⟨rfl, rfl, rfl, dir, rfl, fun h => hne (h ▸ rfl)⟩

/-- The layout of a text with tables: that of its table, or the standard one. -/
private theorem layout_of_withDefault {layout : SourceLayout}
    (h : withDefault (standard env).layout (given? topNames layoutTable.name (withoutSurplus json))
      = some layout) :
    LayoutLayered (some json) layout
      ∧ (atTop? (some json) layoutTable.name = none ∧ layout = (standard env).layout
        ∨ (atTop? (some json) layoutTable.name).isSome = true
          ∧ withDefault ⟨"."⟩ (inTable? (some json) layoutTable "base_dir")
            = some layout.baseDir) := by
  cases hread : given? topNames layoutTable.name (withoutSurplus json) with
  | none =>
      rw [hread] at h
      obtain rfl := Option.some.inj h
      have hnone := atTop?_of_none hread
      exact ⟨layout_standard env hnone, Or.inl ⟨hnone, rfl⟩⟩
  | some read =>
      rw [hread] at h
      obtain ⟨hlayout, hdir⟩ := layout_of_decode? h (table_withoutSurplus rfl hread)
      have hsome : (atTop? (some json) layoutTable.name).isSome = true := by
        refine Option.isSome_iff_ne_none.mpr fun hnone => ?_
        have hwritten : given? topNames layoutTable.name json = none := hnone
        rcases @given?_withoutSurplus json layoutTable.name with hmap | hsame
        · rw [hread, hwritten] at hmap
          cases hmap
        · rw [hread, hwritten] at hsame
          cases hsame
      exact ⟨hlayout, Or.inr ⟨hsome, hdir⟩⟩

private theorem window_of_withDefault {window : Window}
    (h : withDefault (standard env).window (given? topNames windowTable.name (withoutSurplus json))
      = some window) : WindowLayered (some json) window := by
  cases hread : given? topNames windowTable.name (withoutSurplus json) with
  | none =>
      rw [hread] at h
      obtain rfl := Option.some.inj h
      exact window_standard env (atTop?_of_none hread)
  | some read =>
      rw [hread] at h
      exact window_of_decode? h (table_withoutSurplus rfl hread)

private theorem endpoint_of_decoded {endpoint : Endpoint}
    (h : ((given? topNames endpointTable.name (withoutSurplus json)).map
      (Endpoint.decode? env)).getD (some (standard env).endpoint) = some endpoint) :
    EndpointLayered env (some json) endpoint := by
  cases hread : given? topNames endpointTable.name (withoutSurplus json) with
  | none =>
      rw [hread] at h
      obtain rfl := Option.some.inj h
      exact endpoint_standard env (atTop?_of_none hread)
  | some read =>
      rw [hread] at h
      exact endpoint_of_decode? h (table_withoutSurplus rfl hread)

/-- **The layers of the settings**: every setting is what the highest layer gives that gives one,
    except for the base directory, which is if and only if it is not lost. -/
theorem layered_of_ofText? {env : Environment} {text : Option String} {flags : Overrides}
    {settings : Settings} (h : ofText? env text = some settings) :
    Layered env (tomlOf text) flags (settings.override flags)
      ∧ (BaseDirLayered env (tomlOf text) flags (settings.override flags)
        ↔ ¬ BaseDirLost env (tomlOf text) flags) := by
  cases text with
  | none =>
      -- without a text no table is there, and the settings are the standard ones
      obtain rfl := Option.some.inj h
      have hnone : ∀ name, atTop? (tomlOf none) name = none := fun _ => rfl
      obtain ⟨hlayered, hkept⟩ := @baseDirLayered_of_none env _ flags _ (hnone _) rfl
      exact ⟨{
        reportsDir := fromHighest_getD (reportsDir_standard.trans rfl)
        outputDir := fromHighest_getD (outputDir_standard.trans rfl)
        layout := { layout_standard env (hnone _) with }
        window := window_standard env (hnone _)
        endpoint := endpoint_standard env (hnone _) }, iff_of_true hlayered hkept⟩
  | some text =>
      obtain ⟨json, hjson, hdecode⟩ := Option.bind_eq_some_iff.mp h
      rw [show tomlOf (some text) = some json from hjson]
      have hread := Json.read_of_fields? (show topNames.Nodup by decide) hdecode
      dsimp only [topNames, List.map] at hread
      simp only [Option.bind_eq_bind, Option.bind_eq_some_iff] at hread
      obtain ⟨_, hreports, _, houtput, _, hlayout, _, hwindow, _, hendpoint, heq⟩ := hread
      obtain rfl := Option.some.inj heq
      obtain ⟨hlayered, hdir⟩ := layout_of_withDefault hlayout
      rw [reportsDir_standard] at hreports
      rw [outputDir_standard] at houtput
      refine ⟨{
        reportsDir := fromHighest_getD (fromHighest_of_withDefault ?_)
        outputDir := fromHighest_getD (fromHighest_of_withDefault ?_)
        layout := { hlayered with }
        window := window_of_withDefault hwindow
        endpoint := endpoint_of_decoded hendpoint }, ?_⟩
      · rw [← atTop?_withoutSurplus rfl]
        exact hreports
      · rw [← atTop?_withoutSurplus rfl]
        exact houtput
      · rcases hdir with ⟨hnone, hstandard⟩ | ⟨hsome, hdir⟩
        · obtain ⟨hkept, hlost⟩ := @baseDirLayered_of_none env _ flags ⟨_, _, _, _, _⟩
            hnone (congrArg SourceLayout.baseDir hstandard)
          exact iff_of_true hkept hlost
        · exact baseDirLayered_of_table hsome hdir

/-- An environment with a base directory and nothing else. -/
def baseDirAlone : Environment :=
  fun name => if name = "TRIAGE_BASE_DIR" then some "/repo" else none

/-- A configuration text that sets one setting of the layout, and not the base directory. -/
def extensionAlone : String :=
  "[locator]\nsource_extension = \"kt\"\n"

private theorem isSome_extensionAlone :
    (ofText? baseDirAlone (some extensionAlone)).isSome = true := by
  decide +kernel

theorem layered_extensionAlone :
    ∃ settings, ofText? baseDirAlone (some extensionAlone) = some settings
      ∧ Layered baseDirAlone (tomlOf (some extensionAlone)) {} (settings.override {})
      ∧ (BaseDirLayered baseDirAlone (tomlOf (some extensionAlone)) {} (settings.override {})
        ↔ ¬ BaseDirLost baseDirAlone (tomlOf (some extensionAlone)) {}) := by
  obtain ⟨settings, h⟩ := Option.isSome_iff_exists.mp isSome_extensionAlone
  exact ⟨settings, h, layered_of_ofText? h⟩

/-- The base directory of the environment does not survive a table that does not mention it. -/
theorem baseDir_lost_extensionAlone :
    ∃ settings, ofText? baseDirAlone (some extensionAlone) = some settings
      ∧ inTable? (tomlOf (some extensionAlone)) layoutTable "base_dir" = none
      ∧ (settings.override {}).layout.baseDir = ⟨"."⟩
      ∧ ¬ BaseDirLayered baseDirAlone (tomlOf (some extensionAlone)) {} (settings.override {}) := by
  obtain ⟨settings, h⟩ := Option.isSome_iff_exists.mp isSome_extensionAlone
  have hmap : (ofText? baseDirAlone (some extensionAlone)).map (fun s => s.layout.baseDir)
      = some ⟨"."⟩ := by
    decide +kernel
  have hnone : (inTable? (tomlOf (some extensionAlone)) layoutTable "base_dir").isNone = true := by
    decide +kernel
  rw [h] at hmap
  have hgiven := Option.isNone_iff_eq_none.mp hnone
  have hdir : settings.layout.baseDir = ⟨"."⟩ := Option.some.inj hmap
  refine ⟨settings, h, hgiven, hdir, ?_⟩
  rw [BaseDirLayered, hgiven]
  show settings.layout.baseDir ≠ ⟨"/repo"⟩
  rw [hdir]
  decide

end FailureTriage.Settings
