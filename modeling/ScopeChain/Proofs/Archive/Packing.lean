import Mathlib.Algebra.Group.Nat.Defs
import ScopeChain.Proofs.Archive.Spans
import ScopeChain.Proofs.Text.Encoding

/-! # Writing a plain tar archive

A plain archive has for each file a header and the data, padded to whole blocks, and two blocks of zeros at
its end. The numbers of a header are written in octal, or in big-endian bytes where the places of the field
do not suffice. What is written here is what the headers are read for: the numbers
(`number_sizeField`), the checksum (`PackedFile.statedChecksum_header`), the type and the name
(`PackedFile.memberName_header`).
-/

namespace ScopeChain

namespace Bytes

/-- The bytes between two others. -/
theorem range_append {front middle back : Bytes} {offset count : Nat} (starts : front.length = offset)
    (ends : middle.length = count) : (front ++ middle ++ back).range offset count = middle := by
  rw [range, List.append_assoc, List.drop_left' starts, List.take_left' ends]

/-- Zeros behind bytes without a zero are not read. -/
theorem untilZero_append_replicate {bytes : Bytes} (clean : 0 ∉ bytes) (count : Nat) :
    (bytes ++ List.replicate count 0).untilZero = bytes := by
  have all : ∀ byte ∈ bytes, (decide (byte ≠ 0)) = true := by
    intro byte inside
    exact decide_eq_true fun zero => clean (zero ▸ inside)
  rw [untilZero, List.takeWhile_append_of_pos all]
  cases count <;> simp [List.replicate_succ]

private theorem total_append (front back : Bytes) : total (front ++ back) = total front + total back := by
  have shifted (bytes : Bytes) (start : Nat) :
      bytes.foldl (fun sum byte => sum + byte.toNat) start = start + total bytes := by
    induction bytes generalizing start with
    | nil => rfl
    | cons byte rest ih => rw [total, List.foldl_cons, List.foldl_cons, ih, ih (0 + byte.toNat)]; omega
  rw [total, List.foldl_append, shifted, ← total]

private theorem total_le (bytes : Bytes) : total bytes ≤ 255 * bytes.length := by
  induction bytes with
  | nil => exact Nat.le_refl _
  | cons byte rest ih =>
    have single : total [byte] = byte.toNat := Nat.zero_add _
    have small := byte.toNat_lt
    rw [← List.singleton_append, total_append, single, List.length_append, List.length_singleton]
    omega

end Bytes

/-- A text without white space is not trimmed. -/
private theorem Text.trim_of_clean {text : List Char} (clean : ∀ c ∈ text, isBlank c = false) :
    trim text = text := by
  have kept {list : List Char} (unblank : ∀ c ∈ list, isBlank c = false) :
      list.dropWhile isBlank = list := by
    cases list with
    | nil => rfl
    | cons c rest => simp [unblank c List.mem_cons_self]
  rw [trim, kept clean, kept (fun c inside => clean c (List.mem_reverse.mp inside)), List.reverse_reverse]

namespace Tar

/-! ## Numbers -/

/-- The last places of a number in a base, the highest first. -/
def places (base : Nat) : Nat → Nat → List Nat
  | 0, _ => []
  | width + 1, value => places base width (value / base) ++ [value % base]

theorem length_places (base width value : Nat) : (places base width value).length = width := by
  induction width generalizing value with
  | zero => rfl
  | succ width ih => rw [places, List.length_append, ih, List.length_singleton]

private theorem lt_of_mem_places {base width value place : Nat} (positive : 0 < base)
    (inside : place ∈ places base width value) : place < base := by
  induction width generalizing value with
  | zero => cases inside
  | succ width ih =>
    rcases List.mem_append.mp inside with higher | last
    · exact ih higher
    · rw [List.mem_singleton.mp last]
      exact Nat.mod_lt value positive

/-- A number that its places suffice for is read from their digits. -/
private theorem digitsValue?_places {base bound width value : Nat} (positive : 0 < base) (small : base ≤ 16)
    (fits : value < base ^ width) (bounded : value < bound) :
    Text.digitsValue? base bound ((places base width value).map Text.Hex.digit) = some value := by
  induction width generalizing value with
  | zero =>
    rw [Nat.pow_zero, Nat.lt_one_iff] at fits
    rw [fits]
    rfl
  | succ width ih =>
    have last := Nat.mod_lt value positive
    have higher : value / base < base ^ width := by
      rwa [Nat.div_lt_iff_lt_mul positive, ← Nat.pow_succ]
    have whole : base * (value / base) + value % base = value := Nat.div_add_mod value base
    have read := ih higher (Nat.lt_of_le_of_lt (Nat.div_le_self value base) bounded)
    rw [Text.digitsValue?] at read ⊢
    rw [places, List.map_append, List.foldlM_append, read]
    simp only [List.map_cons, List.map_nil, List.foldlM_cons, List.foldlM_nil, Option.bind_eq_bind,
      Option.bind_some, Text.Hex.digit?_digit _ (Nat.lt_of_lt_of_le last small), whole,
      if_pos (And.intro last bounded)]
    rfl

/-- Eight bytes suffice for any number of sixty-four bits, and so on. -/
private theorem bigEndian_places {width value : Nat} (fits : value < 256 ^ width) :
    Bytes.bigEndian ((places 256 width value).map UInt8.ofNat) = value := by
  induction width generalizing value with
  | zero =>
    rw [Nat.pow_zero, Nat.lt_one_iff] at fits
    rw [fits]
    rfl
  | succ width ih =>
    have higher : value / 256 < 256 ^ width := by
      rwa [Nat.div_lt_iff_lt_mul (by decide), ← Nat.pow_succ]
    have last : (UInt8.ofNat (value % 256)).toNat = value % 256 :=
      UInt8.toNat_ofNat_of_lt' (Nat.mod_lt value (by decide))
    have read := ih higher
    rw [Bytes.bigEndian] at read ⊢
    rw [places, List.map_append, List.foldl_append, read, List.map_singleton, List.foldl_cons, last,
      List.foldl_nil]
    exact Nat.div_add_mod value 256

def octalText (width value : Nat) : List Char := (places 8 width value).map Text.Hex.digit

/-- A field that holds a number in octal: digits and a zero byte. -/
def octalField (width value : Nat) : Bytes := Text.Utf8.encode (octalText width value) ++ [0]

/-- What is used of octal digits: they are neither white space, nor a plus sign, nor a zero, and each is
written as one byte below 128. -/
private theorem digit_plain : ∀ place < 8, Text.isBlank (Text.Hex.digit place) = false ∧
    Text.Hex.digit place ≠ '+' ∧ Text.Hex.digit place ≠ '\x00' ∧
    ∃ byte < 0x80, String.utf8EncodeChar (Text.Hex.digit place) = [byte] := by
  have cases : ∀ place < 8, Text.isBlank (Text.Hex.digit place) = false ∧
      Text.Hex.digit place ≠ '+' ∧ Text.Hex.digit place ≠ '\x00' ∧
      (UInt8.ofNat (0x30 + place) < 0x80 ∧
        String.utf8EncodeChar (Text.Hex.digit place) = [UInt8.ofNat (0x30 + place)]) := by decide
  intro place small
  obtain ⟨visible, unsigned, nonzero, low, written⟩ := cases place small
  exact ⟨visible, unsigned, nonzero, _, low, written⟩

private theorem plain_of_mem_octalText {width value : Nat} {c : Char} (inside : c ∈ octalText width value) :
    Text.isBlank c = false ∧ c ≠ '+' ∧ c ≠ '\x00' ∧ ∃ byte < 0x80, String.utf8EncodeChar c = [byte] := by
  obtain ⟨place, there, rfl⟩ := List.mem_map.mp inside
  exact digit_plain place (lt_of_mem_places (by decide) there)

theorem length_octalField (width value : Nat) : (octalField width value).length = width + 1 := by
  have single : ∀ c ∈ octalText width value, (String.utf8EncodeChar c).length = 1 := by
    intro c inside
    obtain ⟨byte, -, written⟩ := (plain_of_mem_octalText inside).2.2.2
    rw [written, List.length_singleton]
  have digits : (Text.Utf8.encode (octalText width value)).length = width := by
    rw [Text.Utf8.encode, List.length_flatMap, List.map_congr_left single, List.map_const',
      List.sum_replicate_nat, Nat.mul_one, octalText, List.length_map, length_places]
  rw [octalField, List.length_append, digits, List.length_singleton]

private theorem headD_octalField_lt (width value : Nat) : (octalField width value).headD 0 < 0x80 := by
  have low : ∀ byte ∈ octalField width value, byte < 0x80 := by
    intro byte inside
    rcases List.mem_append.mp inside with digit | zero
    · obtain ⟨c, there, written⟩ := List.mem_flatMap.mp digit
      obtain ⟨only, small, spelt⟩ := (plain_of_mem_octalText there).2.2.2
      rw [spelt, List.mem_singleton] at written
      rwa [written]
    · rw [List.mem_singleton.mp zero]
      decide
  cases spelt : octalField width value with
  | nil => decide
  | cons byte rest => exact low byte (spelt ▸ List.mem_cons_self)

/-- A number is read from its octal field. -/
theorem octal_octalField {width value : Nat} (positive : 0 < width) (fits : value < 8 ^ width)
    (bounded : value < numberBound) (use : FieldUse) : octal (octalField width value) use = .ok value := by
  have clean : 0 ∉ Text.Utf8.encode (octalText width value) := by
    rw [Text.Utf8.zero_mem_encode_iff]
    exact fun inside => (plain_of_mem_octalText inside).2.2.1 rfl
  have stored : (octalField width value).untilZero = Text.Utf8.encode (octalText width value) :=
    Bytes.untilZero_append_replicate clean 1
  have trimmed : Text.trim (octalText width value) = octalText width value :=
    Text.trim_of_clean fun c inside => (plain_of_mem_octalText inside).1
  have read : Text.numeral? 8 numberBound (octalText width value) = some value := by
    have digits := digitsValue?_places (by decide : 0 < 8) (by decide) fits bounded
    rw [← octalText] at digits
    cases spelt : octalText width value with
    | nil =>
      have empty := congrArg List.length spelt
      rw [octalText, List.length_map, length_places] at empty
      exact absurd empty (Nat.ne_of_gt positive)
    | cons c rest =>
      have unsigned : c ≠ '+' := (plain_of_mem_octalText (spelt ▸ List.mem_cons_self)).2.1
      rw [spelt] at digits
      rw [Text.numeral?]
      · exact digits
      · rintro rest' ⟨⟩
        exact unsigned rfl
  simp only [octal, stored, Text.Utf8.decode?_encode, trimmed, read]

/-- A field of twelve bytes that holds a size. -/
def sizeField (size : Nat) : Bytes :=
  if size < 8 ^ 11 then octalField 11 size
  else [0x80, 0, 0, 0] ++ (places 256 8 size).map UInt8.ofNat

theorem length_sizeField (size : Nat) : (sizeField size).length = 12 := by
  rw [sizeField]
  split
  · exact length_octalField 11 size
  · rw [List.length_append, List.length_map, length_places]
    rfl

theorem number_sizeField {size : Nat} (bounded : size < numberBound) (use : FieldUse) :
    number (sizeField size) use = .ok size := by
  rw [sizeField]
  split
  · rename_i short
    have low : ¬ (0x80 ≤ (octalField 11 size).headD 0) := UInt8.not_le.mpr (headD_octalField_lt 11 size)
    rw [number, if_neg low]
    exact octal_octalField (by decide) short bounded use
  · rw [number, if_pos (by simp)]
    exact congrArg _ (bigEndian_places bounded)

/-! ## Headers -/

/-- The parts of a header that say nothing about the name, the place or the size of the data. What would be
read as the beginning of the name is empty. -/
structure Details where
  owner : Bytes
  modified : Bytes
  typeByte : UInt8
  further : Bytes
  length_owner : owner.length = 24
  length_modified : modified.length = 12
  regular : typeByte = 0 ∨ typeByte = 0x30
  length_further : further.length = 355
  unprefixed : further.range 100 8 = [0x75, 0x73, 0x74, 0x61, 0x72, 0, 0x30, 0x30] →
    (further.range 188 155).untilZero = []

/-- A file as it goes into an archive: its name has from one to a hundred bytes and no zero. -/
structure PackedFile where
  name : String
  data : Bytes
  details : Details
  named : Text.Utf8.encode name.toList ≠ []
  short : (Text.Utf8.encode name.toList).length ≤ 100
  clean : '\x00' ∉ name.toList

namespace PackedFile

def nameBytes (file : PackedFile) : Bytes := Text.Utf8.encode file.name.toList

/-- The fields before the checksum. -/
def front (file : PackedFile) : Bytes :=
  file.nameBytes ++ List.replicate (100 - file.nameBytes.length) 0 ++ file.details.owner ++
    sizeField file.data.length ++ file.details.modified

/-- The fields behind the checksum. -/
def back (file : PackedFile) : Bytes := file.details.typeByte :: file.details.further

def sum (file : PackedFile) : Nat := Bytes.total file.front + Bytes.total file.back + 8 * 0x20

def header (file : PackedFile) : Header := ⟨file.front ++ octalField 7 file.sum ++ file.back⟩

/-- What an archive holds of a file: the header, the data, and zeros to the end of the block. -/
def bytes (file : PackedFile) : Bytes :=
  file.header.bytes ++ file.data ++ List.replicate (roundUp file.data.length - file.data.length) 0

end PackedFile

def pack (files : List PackedFile) : Bytes :=
  files.flatMap PackedFile.bytes ++ List.replicate (2 * blockSize) 0

theorem pack_cons (file : PackedFile) (rest : List PackedFile) :
    pack (file :: rest) = file.bytes ++ pack rest := by
  rw [pack, List.flatMap_cons, List.append_assoc, ← pack]

namespace PackedFile

variable (file : PackedFile)

theorem zero_not_mem_nameBytes : 0 ∉ file.nameBytes := by
  rw [nameBytes, Text.Utf8.zero_mem_encode_iff]
  exact file.clean

theorem length_paddedName :
    (file.nameBytes ++ List.replicate (100 - file.nameBytes.length) 0).length = 100 := by
  have short : file.nameBytes.length ≤ 100 := file.short
  rw [List.length_append, List.length_replicate]
  omega

theorem length_front : file.front.length = 148 := by
  rw [front, List.length_append, List.length_append, List.length_append, length_paddedName,
    file.details.length_owner, length_sizeField, file.details.length_modified]

theorem length_back : file.back.length = 356 := by
  rw [back, List.length_cons, file.details.length_further]

theorem length_header : file.header.bytes.length = blockSize := by
  rw [header, List.length_append, List.length_append, length_front, length_octalField, length_back]
  rfl

theorem length_bytes : file.bytes.length = blockSize + roundUp file.data.length := by
  have padded := le_roundUp file.data.length
  rw [bytes, List.length_append, List.length_append, length_header, List.length_replicate]
  omega

/-- A field behind the checksum. -/
theorem field_back {offset width : Nat} (behind : 156 ≤ offset) :
    file.header.field offset width = file.back.range (offset - 156) width := by
  have skipped : (file.front ++ octalField 7 file.sum).length = 156 := by
    rw [List.length_append, length_front, length_octalField]
  rw [Header.field, Bytes.range, header, List.drop_append, skipped,
    List.drop_eq_nil_of_le (skipped ▸ behind), List.nil_append, Bytes.range]

private theorem field_name : file.header.field 0 100 =
    file.nameBytes ++ List.replicate (100 - file.nameBytes.length) 0 := by
  rw [Header.field, header, front]
  simp only [List.append_assoc]
  rw [Bytes.range, List.drop_zero, ← List.append_assoc, List.take_left' file.length_paddedName]

/-- The size that a header states is that of the data. -/
theorem statedSize_header (bounded : file.data.length < numberBound) :
    file.header.statedSize = .ok file.data.length := by
  have stated : file.header.field 124 12 = sizeField file.data.length := by
    have before : (file.nameBytes ++ List.replicate (100 - file.nameBytes.length) 0 ++
        file.details.owner).length = 124 := by
      rw [List.length_append, length_paddedName, file.details.length_owner]
    rw [Header.field, header, front, List.append_assoc _ file.details.modified, List.append_assoc,
      List.append_assoc, ← List.append_assoc (_ ++ _ ++ _)]
    exact Bytes.range_append before (length_sizeField _)
  rw [Header.statedSize, stated, number_sizeField bounded]

private theorem sum_lt : file.sum < 8 ^ 7 := by
  have front := Bytes.total_le file.front
  have back := Bytes.total_le file.back
  rw [length_front] at front
  rw [length_back] at back
  rw [sum]
  omega

private theorem checksum_header : file.header.checksum = file.sum := by
  have behind : (file.front ++ octalField 7 file.sum).length = 156 := by
    rw [List.length_append, length_front, length_octalField]
  rw [Header.checksum, header, List.drop_left' behind, List.append_assoc, List.take_left' file.length_front,
    ← sum]

/-- The checksum that a header states is that of its bytes. -/
theorem statedChecksum_header : file.header.statedChecksum = .ok file.header.checksum := by
  have small := file.sum_lt
  have stated : file.header.field 148 8 = octalField 7 file.sum :=
    Bytes.range_append file.length_front (length_octalField 7 file.sum)
  have read := octal_octalField (by decide) small (Nat.lt_trans small (by decide))
    (.checksum file.header.shownName)
  have low : file.sum % 0x100000000 = file.sum := Nat.mod_eq_of_lt (Nat.lt_trans small (by decide))
  rw [Header.statedChecksum, stated, read, checksum_header, Except.map, low]

theorem kind_header : file.header.kind = .regular := by
  have byte : file.header.typeByte = file.details.typeByte := by
    rw [Header.typeByte, field_back file (Nat.le_refl 156)]
    rfl
  simp only [Header.kind, byte]
  rcases file.details.regular with same | same <;> rw [same] <;> rfl

/-- The name that a header gives is that of the file. -/
theorem memberName_header : file.header.memberName {} = file.nameBytes := by
  have name : (file.header.field 0 100).untilZero = file.nameBytes := by
    rw [field_name, Bytes.untilZero_append_replicate file.zero_not_mem_nameBytes]
  have magic : file.header.field 257 8 = file.details.further.range 100 8 :=
    file.field_back (by decide)
  have beginning : file.header.field 345 155 = file.details.further.range 188 155 :=
    file.field_back (by decide)
  have whole : file.header.nameBytes = file.nameBytes := by
    rw [Header.nameBytes, name, if_neg]
    rintro ⟨ustar, more⟩
    rw [Header.format, magic] at ustar
    rw [beginning] at more
    split at ustar
    · exact more (file.details.unprefixed ‹_›)
    · split at ustar <;> cases ustar
  simpa only [Header.memberName, Option.bind_none, Option.getD_none] using whole

end PackedFile

end Tar

end ScopeChain
