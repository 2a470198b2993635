import Mathlib.Tactic.SplitIfs
import ScopeChain.Text.Utf8

/-! # Text that is written and read back

Reading the bytes of a text gives the text back (`Text.Utf8.decode?_encode`, `Text.Utf8.decodeLossy_encode`),
since each character is read as a piece of its own. A zero byte comes from a zero character only.
-/

namespace ScopeChain.Text.Utf8

private theorem width?_eq (first : UInt8) : width? first =
    if first.toNat ≤ 0x7F then some 1
    else if 0xC2 ≤ first.toNat ∧ first.toNat ≤ 0xDF then some 2
    else if 0xE0 ≤ first.toNat ∧ first.toNat ≤ 0xEF then some 3
    else if 0xF0 ≤ first.toNat ∧ first.toNat ≤ 0xF4 then some 4
    else none := by
  simp [width?, UInt8.le_iff_toNat_le]

theorem isTail_iff (byte : UInt8) :
    isTail byte = true ↔ 0x80 ≤ byte.toNat ∧ byte.toNat ≤ 0xBF := by
  simp [isTail, UInt8.le_iff_toNat_le]

theorem secondAllowed_iff (first second : UInt8) : secondAllowed first second = true ↔
    (0x80 ≤ second.toNat ∧ second.toNat ≤ 0xBF) ∧
      (first.toNat = 0xE0 → 0xA0 ≤ second.toNat) ∧ (first.toNat = 0xED → second.toNat ≤ 0x9F) ∧
      (first.toNat = 0xF0 → 0x90 ≤ second.toNat) ∧ (first.toNat = 0xF4 → second.toNat ≤ 0x8F) := by
  have literal (byte : UInt8) (value : Nat) (small : value < 256) :
      byte = UInt8.ofNat value ↔ byte.toNat = value := by
    rw [← UInt8.toNat_inj, UInt8.toNat_ofNat_of_lt' small]
  have e0 := literal first 0xE0 (by decide)
  have ed := literal first 0xED (by decide)
  have f0 := literal first 0xF0 (by decide)
  have f4 := literal first 0xF4 (by decide)
  simp only [UInt8.reduceOfNat] at e0 ed f0 f4
  simp only [secondAllowed, e0, ed, f0, f4]
  split_ifs <;> simp [isTail_iff, UInt8.le_iff_toNat_le] <;> omega

/-- The bytes of a character are read as that character. -/
private theorem piece_utf8EncodeChar (c : Char) : ∃ first tails, String.utf8EncodeChar c = first :: tails ∧
    ∀ rest, piece first (tails ++ rest) = (some c, tails.length) := by
  have value : Char.ofNat c.val.toNat = c := c.ofNat_toNat
  have valid : c.val.toNat < 0xD800 ∨ 0xDFFF < c.val.toNat ∧ c.val.toNat < 0x110000 := c.valid
  have byte (n : Nat) (small : n < 256) : (UInt8.ofNat n).toNat = n := UInt8.toNat_ofNat_of_lt' small
  simp only [String.utf8EncodeChar]
  generalize c.val.toNat = v at value valid
  split
  · have first := byte v (by omega)
    refine ⟨_, _, rfl, fun rest => ?_⟩
    have width : width? (UInt8.ofNat v) = some 1 := by rw [width?_eq, first, if_pos (by omega)]
    simp only [piece, width, first, value, List.length_nil]
  · split
    · have first := byte (v / 64 % 32 + 192) (by omega)
      have second := byte (v % 64 + 128) (by omega)
      refine ⟨_, _, rfl, fun rest => ?_⟩
      have width : width? (UInt8.ofNat (v / 64 % 32 + 192)) = some 2 := by
        rw [width?_eq, first, if_neg (by omega), if_pos (by omega)]
      have allowed : secondAllowed (UInt8.ofNat (v / 64 % 32 + 192)) (UInt8.ofNat (v % 64 + 128)) = true := by
        rw [secondAllowed_iff, first, second]
        omega
      have whole : (v / 64 % 32 + 192) % 0x20 * 0x40 + (v % 64 + 128) % 0x40 = v := by omega
      simp only [piece, width, List.cons_append, allowed, if_true, tailBits, first, second, whole, value,
        List.length_cons, List.length_nil]
    · split
      · have first := byte (v / 4096 % 16 + 224) (by omega)
        have second := byte (v / 64 % 64 + 128) (by omega)
        have third := byte (v % 64 + 128) (by omega)
        refine ⟨_, _, rfl, fun rest => ?_⟩
        have width : width? (UInt8.ofNat (v / 4096 % 16 + 224)) = some 3 := by
          rw [width?_eq, first, if_neg (by omega), if_neg (by omega), if_pos (by omega)]
        have allowed : secondAllowed (UInt8.ofNat (v / 4096 % 16 + 224))
            (UInt8.ofNat (v / 64 % 64 + 128)) = true := by
          rw [secondAllowed_iff, first, second]
          omega
        have tail : isTail (UInt8.ofNat (v % 64 + 128)) = true := by
          rw [isTail_iff, third]
          omega
        have whole : ((v / 4096 % 16 + 224) % 0x10 * 0x40 + (v / 64 % 64 + 128) % 0x40) * 0x40 +
            (v % 64 + 128) % 0x40 = v := by omega
        simp only [piece, width, List.cons_append, allowed, tail, if_true, tailBits, first, second, third,
          whole, value, List.length_cons, List.length_nil]
      · have first := byte (v / 262144 % 8 + 240) (by omega)
        have second := byte (v / 4096 % 64 + 128) (by omega)
        have third := byte (v / 64 % 64 + 128) (by omega)
        have fourth := byte (v % 64 + 128) (by omega)
        refine ⟨_, _, rfl, fun rest => ?_⟩
        have width : width? (UInt8.ofNat (v / 262144 % 8 + 240)) = some 4 := by
          rw [width?_eq, first, if_neg (by omega), if_neg (by omega), if_neg (by omega), if_pos (by omega)]
        have allowed : secondAllowed (UInt8.ofNat (v / 262144 % 8 + 240))
            (UInt8.ofNat (v / 4096 % 64 + 128)) = true := by
          rw [secondAllowed_iff, first, second]
          omega
        have tail : isTail (UInt8.ofNat (v / 64 % 64 + 128)) = true := by
          rw [isTail_iff, third]
          omega
        have last : isTail (UInt8.ofNat (v % 64 + 128)) = true := by
          rw [isTail_iff, fourth]
          omega
        have whole : (((v / 262144 % 8 + 240) % 0x8 * 0x40 + (v / 4096 % 64 + 128) % 0x40) * 0x40 +
            (v / 64 % 64 + 128) % 0x40) * 0x40 + (v % 64 + 128) % 0x40 = v := by omega
        simp only [piece, width, List.cons_append, allowed, tail, last, if_true, tailBits, first, second,
          third, fourth, whole, value, List.length_cons, List.length_nil]

/-- Each character of a text is a piece. -/
theorem pieces_encode (text : List Char) : pieces (encode text) = text.map some := by
  induction text with
  | nil => simp [encode, pieces]
  | cons c rest ih =>
    obtain ⟨first, tails, spelt, read⟩ := piece_utf8EncodeChar c
    rw [encode, List.flatMap_cons, ← encode, spelt, List.cons_append, pieces, read]
    simp [ih]

theorem decode?_encode (text : List Char) : decode? (encode text) = some text := by
  rw [decode?, pieces_encode, List.mapM_map]
  induction text with
  | nil => rfl
  | cons c rest ih => simp_all

theorem decodeLossy_encode (text : List Char) : decodeLossy (encode text) = text := by
  rw [decodeLossy, pieces_encode, List.map_map]
  exact List.map_id'' (fun _ => rfl) text

/-- Only a zero character is written with a zero byte. -/
theorem zero_mem_utf8EncodeChar_iff (c : Char) : 0 ∈ String.utf8EncodeChar c ↔ c = '\x00' := by
  have byte (n : Nat) (small : n < 256) : (0 : UInt8) = UInt8.ofNat n ↔ n = 0 := by
    rw [← UInt8.toNat_inj, UInt8.toNat_ofNat_of_lt' small]
    exact eq_comm
  have value : c = '\x00' ↔ c.val.toNat = 0 := by
    rw [Char.ext_iff, ← UInt32.toNat_inj]
    rfl
  have valid : c.val.toNat < 0xD800 ∨ 0xDFFF < c.val.toNat ∧ c.val.toNat < 0x110000 := c.valid
  rw [value]
  simp only [String.utf8EncodeChar]
  generalize c.val.toNat = v at valid
  split
  · rw [List.mem_singleton, byte v (by omega)]
  · split
    · simp only [List.mem_cons, List.not_mem_nil, or_false]
      rw [byte _ (by omega), byte _ (by omega)]
      omega
    · split
      · simp only [List.mem_cons, List.not_mem_nil, or_false]
        rw [byte _ (by omega), byte _ (by omega), byte _ (by omega)]
        omega
      · simp only [List.mem_cons, List.not_mem_nil, or_false]
        rw [byte _ (by omega), byte _ (by omega), byte _ (by omega), byte _ (by omega)]
        omega

theorem zero_mem_encode_iff {text : List Char} : 0 ∈ encode text ↔ '\x00' ∈ text := by
  simp [encode, zero_mem_utf8EncodeChar_iff]

end ScopeChain.Text.Utf8
