import LambdaDiagram.Text.Lines
import Mathlib.Data.List.TakeWhile

/-! Streams that were written line by line. The byte of a line feed is part of no other character in
UTF-8, so the lines that are read are those that were written, unless their characters mean
something else in a line. -/
namespace LambdaDiagram.Text

def utf8Bytes (text : String) : List UInt8 :=
  text.toUTF8.data.toList

/-- Texts are encoded character by character, so their bytes are put together
as they are. -/
theorem utf8Bytes_append (first second : String) :
    utf8Bytes (first ++ second) = utf8Bytes first ++ utf8Bytes second := by
  simp [utf8Bytes]

theorem utf8Bytes_ofList (chars : List Char) :
    utf8Bytes (String.ofList chars) = chars.flatMap String.utf8EncodeChar := by
  rw [utf8Bytes, String.toUTF8_eq_toByteArray, String.toByteArray_ofList]
  exact List.toList_data_toByteArray

theorem utf8Bytes_newline : utf8Bytes "\n" = [10] := by
  decide +kernel

theorem fromUTF8?_utf8Bytes (text : String) :
    String.fromUTF8? (utf8Bytes text).toByteArray = some text := by
  have hBytes : (utf8Bytes text).toByteArray = text.toByteArray := by
    apply ByteArray.ext
    rw [List.data_toByteArray]
    rfl
  rw [hBytes]
  exact dif_pos text.isValidUTF8

/-- The mask that marks a byte as part of a longer character makes it larger
than a line feed. -/
theorem newline_ne_or (byte : UInt8) {mask : UInt8} (hMask : 10 < mask) : 10 ≠ byte ||| mask := by
  intro hSame
  have hLe : mask.toNat ≤ (byte ||| mask).toNat := by
    rw [UInt8.toNat_or]
    exact Nat.right_le_or
  rw [← hSame, ← UInt8.le_iff_toNat_le] at hLe
  exact UInt8.not_lt.mpr hLe hMask

/-- Only the line feed itself is encoded with its byte. All bytes of a longer
character are marked. -/
theorem newline_notMem_utf8EncodeChar {c : Char} (hChar : c ≠ '\n') :
    10 ∉ String.utf8EncodeChar c := by
  rcases c.utf8Size_eq with hOne | hTwo | hThree | hFour
  · rw [String.utf8EncodeChar_eq_singleton hOne, List.mem_singleton]
    intro hByte
    have hSmall : c.val.toNat ≤ 127 := UInt32.le_iff_toNat_le.mp (Char.utf8Size_eq_one_iff.mp hOne)
    have hCode : 10 = c.val.toNat % 2 ^ 8 := by
      rw [← UInt32.toNat_toUInt8, ← hByte]
      rfl
    apply hChar
    apply Char.ext
    apply UInt32.toNat_inj.mp
    show c.val.toNat = 10
    omega
  · rw [String.utf8EncodeChar_eq_cons_cons hTwo]
    simp (disch := decide) [newline_ne_or]
  · rw [String.utf8EncodeChar_eq_cons_cons_cons hThree]
    simp (disch := decide) [newline_ne_or]
  · rw [String.utf8EncodeChar_eq_cons_cons_cons_cons hFour]
    simp (disch := decide) [newline_ne_or]

theorem newline_notMem_utf8Bytes {line : String} (hLine : '\n' ∉ line.toList) :
    10 ∉ utf8Bytes line := by
  rw [← String.ofList_toList (s := line), utf8Bytes_ofList, List.mem_flatMap]
  rintro ⟨c, hMem, hByte⟩
  have hChar : c ≠ '\n' := by
    rintro rfl
    exact hLine hMem
  exact newline_notMem_utf8EncodeChar hChar hByte

/-- A line ends with the first byte of a line feed, which belongs to it. -/
theorem rawLines_append_newline {line : List UInt8} (hLine : 10 ∉ line) (rest : List UInt8) :
    rawLines (line ++ 10 :: rest) = (line ++ [10]) :: rawLines rest := by
  induction line with
  | nil => simp [rawLines]
  | cons b line ih =>
      rw [List.mem_cons, not_or] at hLine
      rw [List.cons_append, rawLines, if_neg (Ne.symm hLine.1), ih hLine.2]
      rfl

/-- The first line that is written is the first one that is read, whatever
follows it. -/
theorem rawLines_line_append {line : String} (hNewline : '\n' ∉ line.toList) (rest : List UInt8) :
    rawLines (utf8Bytes (line ++ "\n") ++ rest) = utf8Bytes (line ++ "\n") :: rawLines rest := by
  have hBytes : utf8Bytes (line ++ "\n") = utf8Bytes line ++ [10] := by
    rw [utf8Bytes_append, utf8Bytes_newline]
  rw [hBytes, List.append_assoc, List.singleton_append]
  exact rawLines_append_newline (newline_notMem_utf8Bytes hNewline) rest

/-- Taking off the end of a line gives the line, unless it ended with a
carriage return by itself. -/
theorem chomp_line {line : String} (hReturn : line.toList.getLast? ≠ some '\r') :
    chomp (line ++ "\n").toList = line.toList := by
  simp [chomp, hReturn]

/-- A text that comes back as it was written when it is written as a line. A
line feed in it would end the line, a carriage return at its end would belong
to the end of the line, and a backspace would take back what is before it. -/
structure IsLine (line : String) : Prop where
  no_newline : '\n' ∉ line.toList
  no_backspace : backspace ∉ line.toList
  no_final_return : line.toList.getLast? ≠ some '\r'

/-- The reader gives back every line as it was written, unless its characters
mean something else in a line. -/
def ReadsLines (decode : LineReader) : Prop :=
  ∀ line, IsLine line → decode (utf8Bytes (line ++ "\n")) = .ok line

/-- The reader blames the bytes of a line exactly if they are not valid UTF-8. -/
def RefusesInvalid (decode : LineReader) : Prop :=
  ∀ raw, decode raw = .error .invalidText ↔ String.fromUTF8? raw.toByteArray = none

/-- The program's way to read a line gives it back. Without a backspace
nothing is taken back. -/
theorem readsLines_decodeLine : ReadsLines decodeLine := by
  intro line hLine
  rw [decodeLine, fromUTF8?_utf8Bytes]
  simp only [chomp_line hLine.no_final_return, applyBackspaces_of_notMem hLine.no_backspace,
    String.ofList_toList]

/-- The program blames the bytes of a line if they cannot be decoded, and
otherwise at most a split character. -/
theorem refusesInvalid_decodeLine : RefusesInvalid decodeLine := by
  intro raw
  cases hText : String.fromUTF8? raw.toByteArray with
  | none => simp [decodeLine, hText]
  | some text =>
      cases hKept : applyBackspaces (chomp text.toList) with
      | none => simp [decodeLine, hText, hKept]
      | some line => simp [decodeLine, hText, hKept]

/-- A stream that was written line by line is read line by line. By induction
on the lines, from the first one that is read. -/
theorem readLines_of_isLine {decode : LineReader} (hReads : ReadsLines decode) {lines : List String}
    (hLines : ∀ line ∈ lines, IsLine line) :
    readLines decode (utf8Bytes (String.join (lines.map (· ++ "\n")))) = lines.map .ok := by
  induction lines with
  | nil => rfl
  | cons line lines ih =>
      obtain ⟨hLine, hRest⟩ := List.forall_mem_cons.mp hLines
      rw [List.map_cons, String.join_cons, utf8Bytes_append, readLines,
        rawLines_line_append hLine.no_newline, List.map_cons, hReads line hLine, List.map_cons]
      exact congrArg (_ :: ·) (ih hRest)

/-! The part of a stream that can be read. Lines are decoded one by one, so what comes before the
first line that cannot be read is a stream with the same lines. Not every line of valid UTF-8 can be
read: a backspace after a very long cluster may leave a part of a character. -/

/-- Whether a reader makes a text of the line. The program does if the line is
valid UTF-8 and none of the backspaces in it leaves a part of a character. -/
def isReadable (decode : LineReader) (raw : List UInt8) : Bool :=
  match decode raw with
  | .ok _ => true
  | .error _ => false

/-- The stream up to its first line that cannot be read. -/
def readablePart (decode : LineReader) (bytes : List UInt8) : List UInt8 :=
  ((rawLines bytes).takeWhile (isReadable decode)).flatten

/-- The first lines of a stream, put together, are cut in the same places
again. A byte that is no line feed belongs to the first line of the rest, if
there is one. -/
theorem rawLines_flatten_take (bytes : List UInt8) (count : Nat) :
    rawLines ((rawLines bytes).take count).flatten = (rawLines bytes).take count := by
  induction bytes generalizing count with
  | nil => simp [rawLines]
  | cons b rest ih =>
      cases count with
      | zero => rfl
      | succ count =>
          by_cases hNewline : b = 10
          · rw [rawLines, if_pos hNewline, List.take_succ_cons, List.flatten_cons,
              List.singleton_append, rawLines, if_pos hNewline, ih count]
          · have hRest := ih (count + 1)
            cases hLines : rawLines rest with
            | nil => simp [rawLines, hNewline, hLines]
            | cons line lines =>
                rw [hLines, List.take_succ_cons, List.flatten_cons] at hRest
                rw [rawLines, if_neg hNewline, hLines]
                simp only [List.take_succ_cons, List.flatten_cons, List.cons_append]
                rw [rawLines, if_neg hNewline, hRest]

section Reader

variable {decode : LineReader}

theorem rawLines_readablePart (bytes : List UInt8) :
    rawLines (readablePart decode bytes) = (rawLines bytes).takeWhile (isReadable decode) := by
  rw [readablePart, List.prefix_iff_eq_take.mp (List.takeWhile_prefix (isReadable decode))]
  exact rawLines_flatten_take bytes _

/-- The readable part is read without an error, and the lines after it begin
with one that is not. -/
theorem readLines_eq_append (bytes : List UInt8) :
    readLines decode bytes = readLines decode (readablePart decode bytes) ++
      ((rawLines bytes).dropWhile (isReadable decode)).map decode := by
  rw [readLines, readLines, rawLines_readablePart, ← List.map_append,
    List.takeWhile_append_dropWhile]

theorem exists_map_decode {raws : List (List UInt8)}
    (hReadable : raws.all (isReadable decode) = true) :
    ∃ lines : List String, raws.map decode = lines.map .ok := by
  induction raws with
  | nil => exact ⟨[], rfl⟩
  | cons raw raws ih =>
      rw [List.all_cons, Bool.and_eq_true] at hReadable
      obtain ⟨lines, hLines⟩ := ih hReadable.2
      cases hDecode : decode raw with
      | error e => simp [isReadable, hDecode] at hReadable
      | ok line => exact ⟨line :: lines, by rw [List.map_cons, hDecode, hLines, List.map_cons]⟩

/-- The readable part holds nothing but lines that can be read. -/
theorem exists_readLines_readablePart (decode : LineReader) (bytes : List UInt8) :
    ∃ lines : List String, readLines decode (readablePart decode bytes) = lines.map .ok := by
  rw [readLines, rawLines_readablePart]
  exact exists_map_decode List.all_takeWhile

/-- A line that is valid UTF-8 can only be spoiled by its backspaces. A reader
that blames the bytes of invalid lines only has no other reason. -/
theorem decode_of_not_isReadable (hDecode : RefusesInvalid decode) {raw : List UInt8}
    (hUnreadable : isReadable decode raw = false) :
    decode raw = .error
      (if String.fromUTF8? raw.toByteArray = none then .invalidText else .splitCharacter) := by
  cases hResult : decode raw with
  | ok line => simp [isReadable, hResult] at hUnreadable
  | error e =>
      cases e with
      | invalidText => rw [if_pos ((hDecode raw).mp hResult)]
      | splitCharacter =>
          have hValid : String.fromUTF8? raw.toByteArray ≠ none := by
            intro hNone
            rw [(hDecode raw).mpr hNone] at hResult
            cases hResult
          rw [if_neg hValid]

/-- The readable part ends with the first line that cannot be read. -/
theorem exists_readLines_eq_append_error (hDecode : RefusesInvalid decode) {bytes raw : List UInt8}
    (hFirst : (rawLines bytes).find? (!isReadable decode ·) = some raw) :
    ∃ rest, readLines decode bytes = readLines decode (readablePart decode bytes) ++ .error
        (if String.fromUTF8? raw.toByteArray = none then .invalidText else .splitCharacter) ::
      rest := by
  have hUnreadable : isReadable decode raw = false := by simpa using List.find?_some hFirst
  rw [List.find?_not_eq_head?_dropWhile] at hFirst
  obtain ⟨rest, hRest⟩ := List.head?_eq_some_iff.mp hFirst
  refine ⟨rest.map decode, ?_⟩
  rw [readLines_eq_append, hRest, List.map_cons, decode_of_not_isReadable hDecode hUnreadable]

end Reader

/-- Characters that a cluster takes in without a change of its state all end
up in it. -/
theorem clustersFrom_replicate {state : ClusterState} {c : Char} (hJoins : state.joins c = true)
    (hSame : state.extend c = state) (count : Nat) (current rest : List Char) :
    clustersFrom state current (List.replicate count c ++ rest) =
      clustersFrom state (List.replicate count c ++ current) rest := by
  induction count generalizing current with
  | zero => rfl
  | succ count ih =>
      rw [List.replicate_succ, List.cons_append, clustersFrom, if_pos hJoins, hSame, ih,
        ← List.replicate_succ, List.replicate_succ', List.append_assoc, List.singleton_append]

def accented (count : Nat) : List Char :=
  'a' :: List.replicate count '\u0301'

/-- A letter with its accents is a single cluster, however many there are. -/
theorem clusters_accented_backspace (count : Nat) :
    clusters (accented (count + 1) ++ [backspace]) = [accented (count + 1), [backspace]] := by
  have hFirst : (ClusterState.start 'a').joins '\u0301' = true := by decide +kernel
  have hJoins : ((ClusterState.start 'a').extend '\u0301').joins '\u0301' = true := by
    decide +kernel
  have hSame : ((ClusterState.start 'a').extend '\u0301').extend '\u0301' =
      (ClusterState.start 'a').extend '\u0301' := by decide +kernel
  have hLast : ((ClusterState.start 'a').extend '\u0301').joins backspace = false := by
    decide +kernel
  rw [accented, List.replicate_succ, List.cons_append, clusters, List.cons_append, clustersFrom,
    if_pos hFirst, clustersFrom_replicate hJoins hSame, clustersFrom, if_neg (by simp [hLast])]
  simp [clustersFrom]

/-- Of the 257 bytes of a letter with 128 accents a backspace takes back one,
and that is half an accent. -/
theorem applyBackspaces_accented : applyBackspaces (accented 128 ++ [backspace]) = none := by
  have hMem : backspace ∈ accented 128 ++ [backspace] := by simp
  have hEnter : Kept.step {} (accented 128) = some ⟨(accented 128).reverse, [1]⟩ := by
    decide +kernel
  have hTakeBack : Kept.step ⟨(accented 128).reverse, [1]⟩ [backspace] = none := by
    have hChars : (accented 128).reverse = '\u0301' :: (accented 127).reverse := by decide +kernel
    have hSize : Char.utf8Size '\u0301' = 2 := by decide
    rw [Kept.step, if_pos rfl, hChars]
    simp [Kept.takeBack, dropBytes, hSize]
  rw [applyBackspaces, if_pos hMem, clusters_accented_backspace 127]
  simp [hEnter, hTakeBack]

theorem newline_notMem_accented (count : Nat) :
    '\n' ∉ (String.ofList (accented count ++ [backspace])).toList := by
  simp [accented, backspace]

theorem getLast?_accented (count : Nat) :
    (String.ofList (accented count ++ [backspace])).toList.getLast? = some backspace := by
  rw [String.toList_ofList, List.getLast?_concat]

/-- A line is refused if a backspace leaves part of a character in it,
although its bytes are valid. -/
theorem decodeLine_of_split {line : String} (hReturn : line.toList.getLast? ≠ some '\r')
    (hSplit : applyBackspaces line.toList = none) :
    decodeLine (utf8Bytes (line ++ "\n")) = .error .splitCharacter := by
  rw [decodeLine, fromUTF8?_utf8Bytes]
  simp only [chomp_line hReturn, hSplit]

/-- A line can be valid UTF-8 and not be readable. -/
theorem decodeLine_accented :
    decodeLine (utf8Bytes (String.ofList (accented 128 ++ [backspace]) ++ "\n")) =
      .error .splitCharacter := by
  apply decodeLine_of_split
  · rw [getLast?_accented]
    decide
  · rw [String.toList_ofList]
    exact applyBackspaces_accented

end LambdaDiagram.Text
