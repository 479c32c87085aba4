import FailureTriage.Proofs.Markup.CharacterData

/-!
# Pieces of markup read back

A tag, a section, a comment or an instruction that was written is read as what it is, and the
reading goes on right after it.

* `attributes?_attributeText`: the attributes of a tag, in their order.
* `readMarkup_opening`, `readMarkup_selfClosed`, `readMarkup_closing`: the three forms of a tag.
* `readMarkup_section`, `readMarkup_comment`, `readMarkup_instruction`: what stands between tags.
-/

namespace FailureTriage.Markup

/-! ## Names -/

/-- No character of a name has a meaning inside a tag. -/
theorem Name.plain_of_mem (name : Name) {c : Char} (h : c ∈ name.text.toList) :
    isBlank c = false ∧ c ∉ "<>/=!?&\"'".toList := by
  have hc := List.all_eq_true.mp name.plain c h
  rw [isNameChar, Bool.not_eq_true', Bool.or_eq_false_iff] at hc
  exact ⟨hc.1, fun hmem => by rw [List.contains_iff_mem.mpr hmem] at hc; exact nomatch hc.2⟩

/-- A name differs from each character with a meaning inside a tag. -/
theorem Name.ne_of_mem (name : Name) {c d : Char} (h : c ∈ name.text.toList)
    (hd : d ∈ "<>/=!?&\"'".toList) : c ≠ d := by
  rintro rfl
  exact (name.plain_of_mem h).2 hd

/-! ## Attributes -/

private theorem readAttributes_keyText (name : Name) {rest : List Char} {found : Attributes} :
    ∀ (text key : List Char), (∀ c ∈ text, c ∈ name.text.toList) →
      readAttributes (text ++ rest) (.key key) found
        = readAttributes rest (.key (text.reverse ++ key)) found := by
  intro text
  induction text with
  | nil => intro key _; rfl
  | cons c text ih =>
      intro key h
      have hmem := h c List.mem_cons_self
      have hblank : ¬ isBlank c = true := by
        rw [(name.plain_of_mem hmem).1]
        exact Bool.false_ne_true
      rw [List.cons_append, readAttributes, if_neg (name.ne_of_mem hmem (by decide)),
        if_neg hblank, ih (c :: key) (fun d hd => h d (List.mem_cons_of_mem c hd))]
      simp

private theorem readAttributes_valueText {key text rest : List Char} {found : Attributes} :
    ∀ value : List Char, '"' ∉ text →
      readAttributes (text ++ rest) (.value key '"' value) found
        = readAttributes rest (.value key '"' (text.reverse ++ value)) found := by
  induction text with
  | nil => intro value _; rfl
  | cons c text ih =>
      intro value h
      have hc : c ≠ '"' := fun heq => h (heq ▸ List.mem_cons_self)
      rw [List.cons_append, readAttributes, if_neg hc,
        ih (c :: value) (fun hmem => h (List.mem_cons_of_mem c hmem))]
      simp

private theorem quote_not_mem_escape (text : List Char) : '"' ∉ escape text :=
  fun h => (ne_of_mem_escape h).2.2.1 rfl

/-- An attribute that was written is read with its key and its value. -/
theorem readAttributes_write (a : Attribute) (rest : List Char) (found : Attributes) :
    readAttributes (a.write ++ rest) .between found
      = readAttributes rest .between ((a.key.text, a.value) :: found) := by
  obtain ⟨c, text, hname⟩ := List.exists_cons_of_ne_nil a.key.nonempty
  have hc : c ∈ a.key.text.toList := by rw [hname]; exact List.mem_cons_self
  have hblank : ¬ isBlank c = true := by
    rw [(a.key.plain_of_mem hc).1]
    exact Bool.false_ne_true
  rw [Attribute.write, hname]
  simp only [List.cons_append, List.append_assoc, List.nil_append]
  have hkeyText : ∀ d ∈ text, d ∈ a.key.text.toList := by
    intro d hd
    rw [hname]
    exact List.mem_cons_of_mem c hd
  rw [readAttributes, if_pos (by decide), readAttributes, if_neg hblank,
    readAttributes_keyText a.key text [c] hkeyText,
    readAttributes, if_pos rfl, readAttributes, if_neg (by decide), if_pos (by decide),
    readAttributes_valueText [] (quote_not_mem_escape _), readAttributes, if_pos rfl,
    List.append_nil, List.reverse_reverse, unescape?_escape]
  have hkey : String.ofList (text.reverse ++ [c]).reverse = a.key.text := by
    rw [List.reverse_append, List.reverse_reverse, List.reverse_singleton, List.singleton_append,
      ← hname, String.ofList_toList]
  show readAttributes rest .between ((String.ofList _, String.ofList _) :: found) = _
  rw [hkey, String.ofList_toList]

/-- **The attributes of a tag are read back** in their order. -/
theorem attributes?_attributeText (tag : Tag) : attributes? tag.attributeText = some tag.pairs := by
  have hread : ∀ (attributes : List Attribute) (found : Attributes),
      readAttributes (attributes.flatMap Attribute.write) .between found
        = some (found.reverse ++ attributes.map fun a => (a.key.text, a.value)) := by
    intro attributes
    induction attributes with
    | nil => intro found; simp [readAttributes]
    | cons a attributes ih =>
        intro found
        rw [List.flatMap_cons, readAttributes_write, ih, List.reverse_cons, List.append_assoc]
        rfl
  exact hread tag.attributes []

/-! ## The end of a tag -/

/-- A character outside quotation marks that neither ends a tag nor starts a quotation. -/
private theorem splitTag_plain {c : Char} (h1 : c ≠ '>') (h2 : c ≠ '"') (h3 : c ≠ '\'')
    (rest found : List Char) :
    splitTag (c :: rest) none found = splitTag rest none (c :: found) := by
  rw [splitTag]
  · simp [h2, h3]
  · exact h1

private theorem splitTag_quotation {text rest : List Char} :
    ∀ found : List Char, '"' ∉ text →
      splitTag (text ++ '"' :: rest) (some '"') found
        = splitTag rest none ('"' :: (text.reverse ++ found)) := by
  induction text with
  | nil => intro found _; rfl
  | cons c text ih =>
      intro found h
      have hc : c ≠ '"' := fun heq => h (heq ▸ List.mem_cons_self)
      rw [List.cons_append, splitTag, if_neg hc,
        ih (c :: found) (fun hmem => h (List.mem_cons_of_mem c hmem))]
      simp

private theorem splitTag_name (name : Name) {rest : List Char} :
    ∀ (text found : List Char), (∀ c ∈ text, c ∈ name.text.toList) →
      splitTag (text ++ rest) none found = splitTag rest none (text.reverse ++ found) := by
  intro text
  induction text with
  | nil => intro found _; rfl
  | cons c text ih =>
      intro found h
      have hmem := h c List.mem_cons_self
      rw [List.cons_append, splitTag_plain (name.ne_of_mem hmem (by decide))
        (name.ne_of_mem hmem (by decide)) (name.ne_of_mem hmem (by decide)),
        ih (c :: found) (fun d hd => h d (List.mem_cons_of_mem c hd))]
      simp

private theorem splitTag_attribute (a : Attribute) (rest found : List Char) :
    splitTag (a.write ++ rest) none found = splitTag rest none (a.write.reverse ++ found) := by
  rw [Attribute.write]
  simp only [List.cons_append, List.append_assoc, List.nil_append]
  rw [splitTag_plain (by decide) (by decide) (by decide),
    splitTag_name a.key _ _ (fun c hc => hc),
    splitTag_plain (by decide) (by decide) (by decide),
    show ∀ text found, splitTag ('"' :: text) none found = splitTag text (some '"') ('"' :: found)
      from fun _ _ => rfl,
    splitTag_quotation _ (quote_not_mem_escape _)]
  simp

/-- The name and the attributes of a tag reach up to the first end of a tag after them. -/
theorem splitTag_tag (tag : Tag) (rest found : List Char) :
    splitTag (tag.name.text.toList ++ tag.attributeText ++ rest) none found
      = splitTag rest none ((tag.name.text.toList ++ tag.attributeText).reverse ++ found) := by
  have hattributes : ∀ (attributes : List Attribute) (found : List Char),
      splitTag (attributes.flatMap Attribute.write ++ rest) none found
        = splitTag rest none ((attributes.flatMap Attribute.write).reverse ++ found) := by
    intro attributes
    induction attributes with
    | nil => intro found; rfl
    | cons a attributes ih =>
        intro found
        rw [List.flatMap_cons, List.append_assoc, splitTag_attribute, ih]
        simp
  rw [List.append_assoc, splitTag_name tag.name _ _ (fun c hc => hc), Tag.attributeText,
    hattributes]
  simp

/-! ## Tags -/

private theorem takeWhile_tag (tag : Tag) (rest : List Char) (h : rest.head?.all isBlank) :
    (tag.name.text.toList ++ rest).takeWhile (!isBlank ·) = tag.name.text.toList
      ∧ (tag.name.text.toList ++ rest).dropWhile (!isBlank ·) = rest := by
  have hname : ∀ c ∈ tag.name.text.toList, (!isBlank c) = true := by
    intro c hc
    rw [(tag.name.plain_of_mem hc).1]
    rfl
  have hrest : rest.takeWhile (!isBlank ·) = [] ∧ rest.dropWhile (!isBlank ·) = rest := by
    cases rest with
    | nil => exact ⟨rfl, rfl⟩
    | cons c rest =>
        have hc : isBlank c = true := by simpa using h
        simp [hc]
  rw [List.takeWhile_append_of_pos hname, List.dropWhile_append_of_pos hname, hrest.1, hrest.2,
    List.append_nil]
  exact ⟨rfl, rfl⟩

private theorem attributeText_head (tag : Tag) : tag.attributeText.head?.all isBlank := by
  rw [Tag.attributeText]
  cases tag.attributes with
  | nil => rfl
  | cons a attributes =>
      rw [List.flatMap_cons, Attribute.write]
      rfl

/-- What stands in a tag does not end in a slash. -/
private theorem getLast?_tag (tag : Tag) :
    (tag.name.text.toList ++ tag.attributeText).getLast? ≠ some '/' := by
  rw [Tag.attributeText]
  rcases List.eq_nil_or_concat tag.attributes with h | ⟨attributes, a, h⟩
  · rw [h, List.flatMap_nil, List.append_nil]
    intro hlast
    exact tag.name.ne_of_mem (List.mem_of_getLast? hlast) (by decide) rfl
  · have hend : a.write
        = ' ' :: (a.key.text.toList ++ '=' :: '"' :: escape a.value.toList) ++ ['"'] := by
      simp [Attribute.write]
    rw [h, List.concat_eq_append, List.flatMap_append, List.flatMap_singleton, hend,
      ← List.append_assoc, ← List.append_assoc, List.getLast?_concat]
    decide

/-- The text of a tag starts like a name. -/
private theorem readMarkup_name (tag : Tag) (text : List Char) (openNames : List (List Char)) :
    readMarkup (tag.name.text.toList ++ text) openNames
      = readStart (tag.name.text.toList ++ text) openNames := by
  obtain ⟨c, name, hname⟩ := List.exists_cons_of_ne_nil tag.name.nonempty
  have hc : c ∈ tag.name.text.toList := by
    rw [hname]
    exact List.mem_cons_self
  rw [hname, List.cons_append, readMarkup]
  -- the first character of a name opens no other kind of markup
  · exact fun _ h => tag.name.ne_of_mem hc (by decide) (List.head_eq_of_cons_eq h)
  · exact fun _ h => tag.name.ne_of_mem hc (by decide) (List.head_eq_of_cons_eq h)
  · exact fun _ h => tag.name.ne_of_mem hc (by decide) (List.head_eq_of_cons_eq h)

/-- **A start tag** opens its element. -/
theorem readMarkup_opening (tag : Tag) (rest : List Char) (openNames : List (List Char)) :
    readMarkup (tag.name.text.toList ++ tag.attributeText ++ ['>'] ++ rest) openNames
      = some ⟨some (.start tag.name.text tag.attributeText),
          tag.name.text.toList :: openNames, rest⟩ := by
  have hsplit : splitTag (tag.name.text.toList ++ (tag.attributeText ++ '>' :: rest)) none []
      = some (tag.name.text.toList ++ tag.attributeText, rest) := by
    rw [← List.append_assoc, splitTag_tag, splitTag, List.append_nil, List.reverse_reverse]
  simp only [List.append_assoc, List.singleton_append]
  rw [readMarkup_name, readStart, hsplit]
  show (if (tag.name.text.toList ++ tag.attributeText).getLast? = some '/' then _ else _) = _
  rw [if_neg (getLast?_tag tag), (takeWhile_tag tag _ (attributeText_head tag)).1,
    (takeWhile_tag tag _ (attributeText_head tag)).2, String.ofList_toList]

/-- **A tag without content** opens nothing. -/
theorem readMarkup_selfClosed (tag : Tag) (rest : List Char) (openNames : List (List Char)) :
    readMarkup (tag.name.text.toList ++ tag.attributeText ++ ['/', '>'] ++ rest) openNames
      = some ⟨some (.selfClosed tag.name.text tag.attributeText), openNames, rest⟩ := by
  have hsplit : splitTag (tag.name.text.toList ++ (tag.attributeText ++ '/' :: '>' :: rest)) none []
      = some (tag.name.text.toList ++ tag.attributeText ++ ['/'], rest) := by
    rw [← List.append_assoc, splitTag_tag, splitTag_plain (by decide) (by decide) (by decide),
      splitTag, List.append_nil, List.reverse_cons, List.reverse_reverse]
  simp only [List.append_assoc, List.cons_append, List.nil_append]
  rw [readMarkup_name, readStart, hsplit]
  show (if (tag.name.text.toList ++ tag.attributeText ++ ['/']).getLast? = some '/'
    then _ else _) = _
  rw [if_pos (by simp), List.dropLast_concat, (takeWhile_tag tag _ (attributeText_head tag)).1,
    (takeWhile_tag tag _ (attributeText_head tag)).2, String.ofList_toList]

/-- **An end tag** closes the innermost element. -/
theorem readMarkup_closing (tag : Tag) (rest : List Char) (openNames : List (List Char)) :
    readMarkup ('/' :: (tag.name.text.toList ++ ['>'] ++ rest))
        (tag.name.text.toList :: openNames)
      = some ⟨some (.close tag.name.text), openNames, rest⟩ := by
  have hsplit : splitTag (tag.name.text.toList ++ ['>'] ++ rest) none []
      = some (tag.name.text.toList, rest) := by
    rw [List.append_assoc, splitTag_name tag.name _ _ (fun c hc => hc), List.singleton_append,
      splitTag, List.append_nil, List.reverse_reverse]
  have hname : endName tag.name.text.toList = tag.name.text.toList := by
    rw [endName]
    split
    · rfl
    · exact Text.dropEndWhile_eq_self fun c hc => (tag.name.plain_of_mem hc).1
  rw [readMarkup, readEnd, hsplit]
  show (if endName tag.name.text.toList = tag.name.text.toList then _ else _) = _
  rw [hname, if_pos rfl, String.ofList_toList]

/-! ## Between tags -/

/-- **A section** is read as it stands. -/
theorem readMarkup_section (s : Section) (rest : List Char) (openNames : List (List Char)) :
    readMarkup ("![CDATA[".toList ++ (s.text.toList ++ "]]>".toList) ++ rest) openNames
      = some ⟨some (.verbatim s.text.toList), openNames, rest⟩ := by
  have hsplit : Text.splitAtFirst? "]]>".toList (s.text.toList ++ "]]>".toList ++ rest)
      = some (s.text.toList, rest) :=
    Text.splitAtFirst?_append [']', ']'] '>' (by decide) s.closed rest
  show (Text.splitAtFirst? "]]>".toList (s.text.toList ++ "]]>".toList ++ rest)).map _ = _
  rw [hsplit]
  rfl

/-- **A comment** is passed over. -/
theorem readMarkup_comment (c : Comment) (rest : List Char) (openNames : List (List Char)) :
    readMarkup ("!--".toList ++ (c.text.toList ++ "-->".toList) ++ rest) openNames
      = some ⟨none, openNames, rest⟩ := by
  have hsplit : Text.splitAtFirst? "-->".toList (c.text.toList ++ "-->".toList ++ rest)
      = some (c.text.toList, rest) :=
    Text.splitAtFirst?_append ['-', '-'] '>' (by decide) c.closed rest
  show (Text.splitAtFirst? "-->".toList (c.text.toList ++ "-->".toList ++ rest)).map _ = _
  rw [hsplit]
  rfl

/-- **An instruction** is passed over. -/
theorem readMarkup_instruction (i : Instruction) (rest : List Char)
    (openNames : List (List Char)) :
    readMarkup ('?' :: (i.text.toList ++ "?>".toList) ++ rest) openNames
      = some ⟨none, openNames, rest⟩ := by
  have hsplit : Text.splitAtFirst? "?>".toList (i.text.toList ++ "?>".toList ++ rest)
      = some (i.text.toList, rest) :=
    Text.splitAtFirst?_append ['?'] '>' (by decide) i.closed rest
  have hstart : ∀ tail, i.text.toList ++ "?>".toList ++ rest ≠ '>' :: tail := by
    intro tail h
    cases htext : i.text.toList with
    | nil => rw [htext] at h; cases h
    | cons c text =>
        rw [htext] at h
        have hc : c = '>' := List.head_eq_of_cons_eq h
        exact i.opened (by rw [htext, hc]; rfl)
  rw [List.cons_append, readMarkup, readInstruction, hsplit]
  · rfl
  · exact hstart

end FailureTriage.Markup
