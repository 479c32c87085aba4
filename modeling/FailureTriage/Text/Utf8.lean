import FailureTriage.Text.Digits

/-!
# Bytes of a text

Texts are stored in UTF-8.  Bytes that are no text are either refused, with the place of the first
fault, or read with a replacement character for each part that cannot be read.

* `decode` reads bytes that are a text, and finds the first fault in bytes that are none.
* `decode_toByteArray` says that a text is read back from its own bytes.
* `decodeLossy` reads any bytes.
-/

namespace FailureTriage.Utf8

/-- What bytes begin with. -/
inductive Piece where
  /-- A character, with the number of its bytes. -/
  | character (c : Char) (size : Nat)
  /-- Bytes that a character could begin with, but does not; at least one. -/
  | malformed (size : Nat)
  /-- The first bytes of a character, and nothing after them. -/
  | unfinished

/-- Whether a byte follows another byte in a character. -/
private def isTail (b : UInt8) : Bool :=
  0x80 ≤ b && b ≤ 0xBF

/-- The number that the low bits of a byte after the first one add to a character. -/
private def extend (n : Nat) (b : UInt8) : Nat :=
  n * 64 + (b.toNat - 0x80)

/-- Whether a byte may follow the first byte of a character of three bytes. -/
private def isSecondOfThree (first b : UInt8) : Bool :=
  if first = 0xE0 then 0xA0 ≤ b && b ≤ 0xBF
  else if first = 0xED then 0x80 ≤ b && b ≤ 0x9F
  else isTail b

/-- Whether a byte may follow the first byte of a character of four bytes. -/
private def isSecondOfFour (first b : UInt8) : Bool :=
  if first = 0xF0 then 0x90 ≤ b && b ≤ 0xBF
  else if first = 0xF4 then 0x80 ≤ b && b ≤ 0x8F
  else isTail b

/-- What a byte and the bytes after it begin with. -/
def pieceAt (first : UInt8) (rest : List UInt8) : Piece :=
  let n := first.toNat
  if first < 0x80 then .character (Char.ofNat n) 1
  else if first < 0xC2 then .malformed 1
  else if first < 0xE0 then
    match rest with
    | [] => .unfinished
    | b :: _ =>
      if isTail b then .character (Char.ofNat (extend (n - 0xC0) b)) 2 else .malformed 1
  else if first < 0xF0 then
    match rest with
    | [] => .unfinished
    | b :: rest =>
      if !isSecondOfThree first b then .malformed 1
      else match rest with
        | [] => .unfinished
        | c :: _ =>
          if isTail c then .character (Char.ofNat (extend (extend (n - 0xE0) b) c)) 3
          else .malformed 2
  else if first < 0xF5 then
    match rest with
    | [] => .unfinished
    | b :: rest =>
      if !isSecondOfFour first b then .malformed 1
      else match rest with
        | [] => .unfinished
        | c :: rest =>
          if !isTail c then .malformed 2
          else match rest with
            | [] => .unfinished
            | d :: _ =>
              if isTail d then
                .character (Char.ofNat (extend (extend (extend (n - 0xF0) b) c) d)) 4
              else .malformed 3
  else .malformed 1

/-- The first fault in bytes that are no text. -/
structure Fault where
  /-- How many bytes stand before the fault. -/
  index : Nat
  /-- How many bytes are at fault; none if the bytes end inside a character. -/
  size : Option Nat
  deriving DecidableEq, Repr

/-- The words for a fault. -/
def Fault.message (fault : Fault) : String :=
  match fault.size with
  | some size => s!"invalid utf-8 sequence of {size} bytes from index {fault.index}"
  | none => s!"incomplete utf-8 byte sequence from index {fault.index}"

/--
The first fault from an index on, where `skipped` bytes of the last character are still to be
passed over.
-/
def findFault (index : Nat) : (skipped : Nat) → List UInt8 → Option Fault
  | _, [] => none
  | skipped + 1, _ :: bytes => findFault (index + 1) skipped bytes
  | 0, first :: bytes =>
    match pieceAt first bytes with
    | .character _ size => findFault (index + 1) (size - 1) bytes
    | .malformed size => some ⟨index, some size⟩
    | .unfinished => some ⟨index, none⟩

/-- The text that bytes are, or the first fault in them. -/
def decode (bytes : ByteArray) : Except Fault String :=
  match String.fromUTF8? bytes with
  | some text => .ok text
  | none => .error ((findFault 0 0 bytes.toList).getD ⟨0, none⟩)

/-- The character that stands for bytes that cannot be read. -/
def replacement : Char := '\uFFFD'

/-- The characters of any bytes, where `skipped` bytes are still to be passed over. -/
def readLossy : (skipped : Nat) → List UInt8 → List Char
  | _, [] => []
  | skipped + 1, _ :: bytes => readLossy skipped bytes
  | 0, first :: bytes =>
    match pieceAt first bytes with
    | .character c size => c :: readLossy (size - 1) bytes
    | .malformed size => replacement :: readLossy (size - 1) bytes
    | .unfinished => [replacement]

/-- The text of any bytes, with a replacement character for each part that cannot be read. -/
def decodeLossy (bytes : ByteArray) : String :=
  match String.fromUTF8? bytes with
  | some text => text
  | none => String.ofList (readLossy 0 bytes.toList)

@[simp] theorem fromUTF8?_toByteArray (text : String) :
    String.fromUTF8? text.toByteArray = some text := by
  unfold String.fromUTF8?
  rw [dif_pos text.isValidUTF8]
  rfl

@[simp] theorem decode_toByteArray (text : String) : decode text.toByteArray = .ok text := by
  simp [decode]

end FailureTriage.Utf8
