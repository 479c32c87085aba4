/-!
# Fragments of a text

Looking for a fragment, cutting a text at it and replacing it.  Occurrences are taken from left to
right and do not overlap.

* `replace_fragment_append`, `replace_cons_eq_cons`: what becomes of the start of a text.
* `eq_of_beforeLast?`, `beforeLast?_append_cons`: a text cut at the last of its separators.
-/

namespace FailureTriage.Text

/-- What follows `fragment` in a text that starts with it. -/
def dropFragment? : (fragment text : List Char) → Option (List Char)
  | [], text => some text
  | _ :: _, [] => none
  | f :: fragment, c :: text => if f = c then dropFragment? fragment text else none

/-- Whether the text starts with `fragment`. -/
def startsWith (fragment text : List Char) : Bool :=
  fragment.isPrefixOf text

/-- Whether the text ends with `fragment`. -/
def endsWith (fragment text : List Char) : Bool :=
  fragment.isSuffixOf text

/-- The text before `fragment`, if it ends with it. -/
def dropFragmentEnd? (fragment text : List Char) : Option (List Char) :=
  (dropFragment? fragment.reverse text.reverse).map List.reverse

/-- The texts before and after the first occurrence of `fragment`, after those in `passed`. -/
def splitAtFirstFrom? (fragment text passed : List Char) : Option (List Char × List Char) :=
  match dropFragment? fragment text with
  | some rest => some (passed.reverse, rest)
  | none =>
    match text with
    | [] => none
    | c :: rest => splitAtFirstFrom? fragment rest (c :: passed)

/-- The texts before and after the first occurrence of `fragment`. -/
def splitAtFirst? (fragment text : List Char) : Option (List Char × List Char) :=
  splitAtFirstFrom? fragment text []

/-- Whether `fragment` occurs in the text. -/
def contains (fragment : List Char) : List Char → Bool
  | [] => fragment.isEmpty
  | c :: text => fragment.isPrefixOf (c :: text) || contains fragment text

/-- Replacement while `skipped` characters of the last occurrence are still to be passed over. -/
private def replaceFrom (fragment replacement : List Char) : Nat → List Char → List Char
  | _, [] => []
  | skipped + 1, _ :: text => replaceFrom fragment replacement skipped text
  | 0, c :: text =>
    if fragment.isPrefixOf (c :: text) then
      replacement ++ replaceFrom fragment replacement (fragment.length - 1) text
    else
      c :: replaceFrom fragment replacement 0 text

/-- The text with each occurrence of the non-empty `fragment` replaced. -/
def replace (fragment replacement text : List Char) : List Char :=
  replaceFrom fragment replacement 0 text

/-- In the empty text there is nothing to replace. -/
@[simp] theorem replace_nil (fragment replacement : List Char) :
    replace fragment replacement [] = [] :=
  rfl

/-- A fragment that a text starts with is replaced as a whole, and then the rest of the text. -/
theorem replace_fragment_append {fragment : List Char} (hne : fragment ≠ [])
    (replacement text : List Char) :
    replace fragment replacement (fragment ++ text)
      = replacement ++ replace fragment replacement text := by
  obtain ⟨c, stem, rfl⟩ := List.exists_cons_of_ne_nil hne
  have hskip : ∀ passed : List Char,
      replaceFrom (c :: stem) replacement passed.length (passed ++ text)
        = replaceFrom (c :: stem) replacement 0 text := by
    intro passed
    induction passed with
    | nil => rfl
    | cons d passed ih => exact ih
  have hstart : (c :: stem).isPrefixOf (c :: (stem ++ text)) = true :=
    List.isPrefixOf_iff_prefix.mpr ⟨text, rfl⟩
  rw [replace, List.cons_append, replaceFrom, if_pos hstart]
  exact congrArg (replacement ++ ·) (hskip stem)

/-- A character where the fragment does not start stays. -/
theorem replace_cons_eq_cons {fragment text : List Char} {c : Char}
    (h : ¬ fragment <+: c :: text) (replacement : List Char) :
    replace fragment replacement (c :: text) = c :: replace fragment replacement text := by
  have hstart : ¬ fragment.isPrefixOf (c :: text) = true := fun hprefix =>
    h (List.isPrefixOf_iff_prefix.mp hprefix)
  rw [replace, replaceFrom, if_neg hstart]
  rfl

/-- The parts between the occurrences of one character; at least one part. -/
def splitOn (separator : Char) : List Char → List (List Char)
  | [] => [[]]
  | c :: text =>
    if c = separator then [] :: splitOn separator text
    else match splitOn separator text with
      | [] => [[c]]
      | part :: parts => (c :: part) :: parts

/-- The part after the last occurrence of one character, or the whole text. -/
def afterLast (separator : Char) (text : List Char) : List Char :=
  (text.reverse.takeWhile (· != separator)).reverse

/-- The part before the first occurrence of one character, or the whole text. -/
def beforeFirst (separator : Char) (text : List Char) : List Char :=
  text.takeWhile (· != separator)

/-- The part before the last occurrence of one character, if there is one. -/
def beforeLast? (separator : Char) (text : List Char) : Option (List Char) :=
  match text.reverse.dropWhile (· != separator) with
  | [] => none
  | _ :: before => some before.reverse

/-- A text is what stands before and after the last of its separators. -/
theorem eq_of_beforeLast? {separator : Char} {text before : List Char}
    (h : beforeLast? separator text = some before) :
    text = before ++ separator :: afterLast separator text := by
  have hparts := @List.takeWhile_append_dropWhile _ (· != separator) text.reverse
  rw [beforeLast?] at h
  split at h
  · cases h
  · rename_i c rest hdrop
    have hc : c = separator := by
      have hhead := List.head?_dropWhile_not (· != separator) text.reverse
      rw [hdrop] at hhead
      simpa using hhead
    rw [hdrop, hc] at hparts
    calc text = text.reverse.reverse := (List.reverse_reverse text).symm
      _ = (text.reverse.takeWhile (· != separator) ++ separator :: rest).reverse := by rw [hparts]
      _ = rest.reverse ++ separator :: afterLast separator text := by
        rw [List.reverse_append, List.reverse_cons, List.append_assoc, List.singleton_append]
        rfl
      _ = before ++ separator :: afterLast separator text := by rw [Option.some.inj h]

/-- What stands before the last separator of a text. -/
theorem beforeLast?_append_cons {separator : Char} {after : List Char} (h : separator ∉ after)
    (before : List Char) : beforeLast? separator (before ++ separator :: after) = some before := by
  have hafter : ∀ c ∈ after.reverse, (c != separator) = true := by
    intro c hc
    rw [bne_iff_ne]
    rintro rfl
    exact h (List.mem_reverse.mp hc)
  have hdrop : (before ++ separator :: after).reverse.dropWhile (· != separator)
      = separator :: before.reverse := by
    rw [List.reverse_append, List.reverse_cons, List.append_assoc, List.singleton_append,
      List.dropWhile_append_of_pos hafter, List.dropWhile_cons_of_neg (by simp)]
  rw [beforeLast?, hdrop]
  exact congrArg some (List.reverse_reverse before)

end FailureTriage.Text
