import FailureTriage.Files.StoredDocument
import FailureTriage.Proofs.Files.Growth
import FailureTriage.Proofs.Json.RoundTrip

/-!
# Documents read from where they were written

A document that was written is read from its path, unless another one was written to the same
file since.  Two paths may lead to one file, by way of links.

* `readText_of_written`: the text at the path of a document.
* `readText_of_written_twice`: after one more document.
* `readJson?_writeJson`, `readDocument_eq_ok_iff`: what the text stands for.
-/

namespace FailureTriage

variable {files before after : FileTree} {path other : Path} {text more : String}

/-- Making the directory of a document leaves every entry as it was. -/
theorem onlyMakes_makeDocumentDir (files : FileTree) (path : Path) :
    files.OnlyMakes (makeDocumentDir files path).1 := by
  unfold makeDocumentDir
  split
  · exact files.onlyMakes_makeDirectories _
  · exact .refl files

/-- A document is written after its directory has been made. -/
theorem writeDocumentText_eq_ok (h : writeDocumentText files path text = (after, .ok ())) :
    (makeDocumentDir files path).1.writeText path text = .ok after := by
  unfold writeDocumentText at h
  split at h
  · cases h
  · rename_i made hmade
    rw [hmade]
    split at h
    · rename_i hwritten
      cases h
      exact hwritten
    · cases h

/-- The text of a file is read where a path leads to it. -/
theorem readText_of_reach {place : Location}
    (h : files.reach path = .ok (.entry place (.file text.toUTF8))) :
    files.readText path = .ok text := by
  have hread : files.read path = .ok text.toUTF8 := by
    show files.reachFrom .target files.workingDir path >>= _ = _
    rw [show files.reachFrom .target files.workingDir path = _ from h]
    rfl
  unfold FileTree.readText
  rw [hread]
  dsimp only [bind, Except.bind]
  rw [String.toUTF8, Utf8.decode_toByteArray]
  rfl

theorem find?_of_reach {place : Location} {entry : FileEntry}
    (h : files.reach path = .ok (.entry place entry)) : files.find? path = some (place, entry) := by
  rw [FileTree.find?, FileTree.findFrom?,
    show files.reachFrom .target files.workingDir path = _ from h]

theorem locate?_of_reach {place : Location} {entry : FileEntry}
    (h : files.reach path = .ok (.entry place entry)) : files.locate? path = some place := by
  rw [FileTree.locate?, find?_of_reach h]
  rfl

/-- **A document** is read from where it was written. -/
theorem readText_of_written (h : writeDocumentText files path text = (after, .ok ())) :
    after.readText path = .ok text := by
  obtain ⟨place, -, -, -, hreach⟩ := FileTree.reach_of_write (writeDocumentText_eq_ok h)
  exact readText_of_reach hreach

/-- **After another document** its text is read if both paths lead to one file, and else the text
    that was written first. -/
theorem readText_of_written_twice (h : writeDocumentText files path text = (before, .ok ()))
    (h' : writeDocumentText before other more = (after, .ok ())) :
    after.readText path
      = .ok (if after.locate? path = after.locate? other then more else text) := by
  have hmore := writeDocumentText_eq_ok h'
  have hkeeps := (onlyMakes_makeDocumentDir before other).keeps
  generalize (makeDocumentDir before other).1 = between at hmore hkeeps
  obtain ⟨place, hplace, rfl, -, hreach⟩ := FileTree.reach_of_write (writeDocumentText_eq_ok h)
  obtain ⟨seat, hseat, rfl, hput, hother⟩ := FileTree.reach_of_write hmore
  have hgrows := hkeeps.trans_grows hput
  rw [locate?_of_reach hother]
  -- the second document goes to the file of the first one, or to another one
  by_cases hsame : place = seat
  · have hlater := FileTree.reach_of_grows hgrows hreach
      (by rw [FileTree.entryAt?_put hseat, if_pos hsame])
    rw [locate?_of_reach hlater, if_pos (congrArg some hsame)]
    exact readText_of_reach hlater
  · have hkept := hkeeps.entry place (.file text.toUTF8)
      (by rw [FileTree.entryAt?_put hplace, if_pos rfl])
    have hlater := FileTree.reach_of_grows hgrows hreach
      (by rw [FileTree.entryAt?_put hseat, if_neg hsame, hkept])
    rw [locate?_of_reach hlater, if_neg fun heq => hsame (Option.some.inj heq)]
    exact readText_of_reach hlater

/-- **The text of a value** stands for the value as it comes back. -/
theorem readJson?_writeJson {α β : Type} [JsonCodec α] [JsonCodec β] (value : α) :
    readJson? (α := β) (writeJson value) = decode? (encode value).reread := by
  rw [readJson?, writeJson, Json.read?_write]
  rfl

/-- **A document** is read as what its text stands for. -/
theorem readDocument_eq_ok_iff {α : Type} [JsonCodec α] {value : α}
    (htext : files.readText path = .ok text) :
    readDocument files path = .ok value ↔ readJson? text = some value := by
  rw [readDocument, htext]
  dsimp only
  split
  next found hfound => rw [hfound, Except.ok.injEq, Option.some.injEq]
  next hnone => exact iff_of_false nofun fun h => nomatch hnone.symm.trans h

end FailureTriage
