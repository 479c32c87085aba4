import FailureTriage.CommandLine.Program
import Std.Data.HashMap
import Std.Data.HashSet
import Std.Time.Zoned

/-!
# The executable

Takes a picture of the files that a run may need, runs the program on it, and writes back what the
run has changed.  Everything that decides something is in the program, which is pure.

A picture has the working directory and the directories that the settings name, with all that lies
in them or that a link in them leads to.  Of the directories above these it has the ignore files.
-/

namespace FailureTriage.Disk

/-- The path of a location. -/
def pathOf (place : Location) : String :=
  "/" ++ "/".intercalate place

/-- The location that a path leads to when no link is on its way. -/
def placeOf (dir : Location) (path : Path) : Location :=
  (FileTree.stepsOf path).foldl (fun place step =>
    match step with
    | .stay | .inside => place
    | .up => place.dropLast
    | .into name => place ++ [name]) (FileTree.startOf path dir)

/-- An entry of a directory. -/
def entryOf (dir : Location) (name : String) : IO.FS.DirEntry where
  root := pathOf dir
  fileName := name

/-- The names in a directory; none if it cannot be read. -/
def namesIn (dir : Location) : IO (List String) := do
  try
    return (← (entryOf dir ".").path.readDir).toList.map (·.fileName)
  catch _ => return []

/-- The kind of an entry, if there is one. -/
def kindOf? (dir : Location) (name : String) : IO (Option IO.FS.FileType) := do
  try
    return some (← (entryOf dir name).path.symlinkMetadata).type
  catch _ => return none

/-- Where an entry is when every link is followed; none if a link leads nowhere. -/
def realPlace? (place : Location) : IO (Option Location) := do
  try
    let real ← IO.FS.realPath (pathOf place)
    return some (placeOf [] ⟨real.toString⟩)
  catch _ => return none

/-- A picture of files that is being taken. -/
structure Picture where
  /-- The entries, the last one first. -/
  entries : List (Location × FileEntry) := []
  /-- The locations of the entries. -/
  known : Std.HashSet Location := ∅
  /-- The directories that have been looked into. -/
  entered : Std.HashSet Location := ∅

/-- The picture with an entry, unless it has one at the location. -/
def Picture.add (picture : Picture) (place : Location) (entry : FileEntry) : Picture :=
  if picture.known.contains place then picture
  else { picture with
    entries := (place, entry) :: picture.entries
    known := picture.known.insert place }

/-- Adds a file, if it can be read. -/
def addFile (picture : Picture) (place : Location) : IO Picture := do
  try
    return picture.add place (.file (← IO.FS.readBinFile (pathOf place)))
  catch _ => return picture

/-- Adds what a directory says about ignored files. -/
def addIgnoreFiles (picture : Picture) (dir : Location) : IO Picture := do
  let mut picture := picture
  for name in [".ignore", ".gitignore", ".git"] do
    match ← kindOf? dir name with
    | some .dir =>
      picture := picture.add (dir ++ [name]) .directory
      if (← kindOf? (dir ++ [name, "info"]) "exclude").isSome then
        picture := picture.add (dir ++ [name, "info"]) .directory
        picture ← addFile picture (dir ++ [name, "info", "exclude"])
    | some _ => picture ← addFile picture (dir ++ [name])
    | none => pure ()
  return picture

/-- Adds the directories that a location lies in. -/
def addAbove (picture : Picture) (place : Location) : IO Picture := do
  let mut picture := picture
  for depth in List.range place.length do
    let dir := place.take depth
    if depth > 0 then picture := picture.add dir .directory
    picture ← addIgnoreFiles picture dir
  return picture

mutual

/-- Adds a directory with all that lies in it. -/
partial def addTree (picture : Picture) (dir : Location) : IO Picture := do
  if picture.entered.contains dir then return picture
  let mut picture := { picture with entered := picture.entered.insert dir }
  if dir ≠ [] then picture := picture.add dir .directory
  picture ← addIgnoreFiles picture dir
  for name in ← namesIn dir do
    let place := dir ++ [name]
    if name ≠ ".git" then picture ← addEntry picture dir name place
  return picture

/-- Adds one entry of a directory, with all that lies in it. -/
partial def addEntry (picture : Picture) (dir : Location) (name : String) (place : Location) :
    IO Picture := do
  match ← kindOf? dir name with
  | some .dir => addTree picture place
  | some .file => addFile picture place
  | some .symlink =>
    match ← realPlace? place with
    | none => return picture.add place (.link ⟨pathOf place ++ "/nowhere"⟩)
    | some real =>
      let picture := picture.add place (.link ⟨pathOf real⟩)
      addPlace picture real
  | _ => return picture

/-- Adds what is at a location, and the directories that it lies in. -/
partial def addPlace (picture : Picture) (place : Location) : IO Picture := do
  if picture.entered.contains place || place = [] then return picture
  let picture ← addAbove picture place
  match ← kindOf? place.dropLast (place.getLast?.getD "") with
  | some .dir => addTree picture place
  | some _ => addFile picture place
  | none => return picture

end

/-- Adds what a path leads to. -/
def addPath (picture : Picture) (workingDir : Location) (path : Path) : IO Picture := do
  let place := placeOf workingDir path
  match ← realPlace? place with
  | none => return picture
  | some real =>
    let picture ← addPlace picture real
    if real = place then return picture
    else return (← addAbove picture place).add place (.link ⟨pathOf real⟩)

/-- The files of a picture. -/
def Picture.files (picture : Picture) (workingDir : Location) : FileTree where
  entries := picture.entries.reverse
  workingDir := workingDir

/-- Whether an entry is not what was at its location before. -/
def isNew (former : Option FileEntry) : FileEntry → Bool
  | .file content => match former with
    | some (.file old) => content.data != old.data
    | _ => true
  | .directory => !(former.map FileEntry.isDirectory).getD false
  | .link _ => former.isNone

/-- The entries of a tree that it does not share with the tree that it was made from. -/
def changes (before after : FileTree) : List (Location × FileEntry) :=
  let old := Std.HashMap.ofList before.entries
  after.entries.filter fun (place, entry) => isNew old[place]? entry

/-- Writes what has changed. -/
def write (changes : List (Location × FileEntry)) : IO Unit := do
  for (place, entry) in changes do
    match entry with
    | .directory => IO.FS.createDirAll (pathOf place)
    | .file content => IO.FS.writeBinFile (pathOf place) content
    | .link _ => pure ()

end FailureTriage.Disk

namespace FailureTriage.Program

/-- The names of the variables that the settings depend on. -/
def variableNames : List String :=
  ["TRIAGE_API_URL", "TRIAGE_MODEL", "TRIAGE_API_KEY", "TRIAGE_TIMEOUT_SECS",
    "TRIAGE_BASE_DIR", "TRIAGE_REPORTS_DIR", "TRIAGE_OUTPUT_DIR"]

/-- The environment of the process. -/
def environment : IO Environment := do
  let values ← variableNames.mapM fun name => return (name, ← IO.getEnv name)
  return fun name => (values.lookup name).join

/-- A number with at least two digits. -/
private def twoDigits (n : Nat) : String :=
  if n < 10 then s!"0{n}" else s!"{n}"

/-- The point in time of a date and a time of day. -/
private def instantOf (t : Std.Time.PlainDateTime) : Timestamp where
  year := t.year
  month := t.month.val.toNat
  day := t.day.val.toNat
  hour := t.hour.val.toNat
  minute := t.minute.val.toNat
  second := t.second.val.toNat
  nanosecond := t.nanosecond.val.toNat

/-- The date and the time of day, as documents have them. -/
private def stampOf (t : Timestamp) : String :=
  s!"{t.year}-{twoDigits t.month}-{twoDigits t.day} "
    ++ s!"{twoDigits t.hour}:{twoDigits t.minute}:{twoDigits t.second}"

/-- The time as it is now. -/
def readClock : IO Clock := do
  let now ← Std.Time.Timestamp.now
  let universal := Std.Time.PlainDateTime.ofWallTime
    (.ofNanoseconds now.toNanosecondsSinceUnixEpoch)
  let here ← try Std.Time.PlainDateTime.now catch _ => pure universal
  return { stamp := stampOf (instantOf here), instant := instantOf universal }

/-- The files that a run with the given arguments may need. -/
def takePicture (env : Environment) (arguments : Arguments) : IO FileTree := do
  let workingDir := (← Disk.realPlace? (Disk.placeOf [] ⟨(← IO.currentDir).toString⟩)).getD []
  let picture ← Disk.addPlace {} workingDir
  let picture ← match arguments.config with
    | some path => Disk.addPath picture workingDir path
    | none => pure picture
  let settings := match Settings.load env (picture.files workingDir) arguments.config with
    | .ok settings => settings.override arguments.overrides
    | .error _ => (Settings.standard env).override arguments.overrides
  let mut picture := picture
  for path in [settings.reportsDir, settings.outputDir, settings.layout.baseDir] do
    picture ← Disk.addPath picture workingDir path
  return picture.files workingDir

end FailureTriage.Program

open FailureTriage in
/--
Runs the program.  No endpoint can be reached from here, so that asking for fixes fails once a key
is known.
-/
def main (args : List String) : IO UInt32 := do
  let env ← Program.environment
  let files ← match Arguments.parse args with
    | .ok arguments => Program.takePicture env arguments
    | .error _ => pure {}
  let around : Surroundings := {
    env
    clock := ← Program.readClock
    suggester := fun endpoint =>
      ⟨endpoint.model, fun _ => .error (.unreachable endpoint.requestUrl)⟩ }
  let outcome := Program.run around args files
  for message in outcome.session.messages do
    IO.eprintln s!"{message.level.label} {message.text}"
  Disk.write (Disk.changes files outcome.session.files)
  IO.print outcome.output
  if outcome.complaint ≠ "" then IO.eprintln outcome.complaint
  return outcome.exitCode.toUInt32
