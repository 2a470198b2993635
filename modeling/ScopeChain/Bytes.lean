/-! # Bytes

File contents are lists of bytes. `length_range_eq_iff` says when as many bytes are taken as are asked
for, and `behind?_eq_some_iff` that passing over bytes drops exactly as many as are asked for, and
fails only where there are fewer.
-/

namespace ScopeChain

/-- The contents of a file, an entry or a unit. -/
abbrev Bytes := List UInt8

namespace Bytes

/-- The number that bytes stand for, the most significant byte first. -/
def bigEndian (bytes : Bytes) : Nat := bytes.foldl (fun value byte => 256 * value + byte.toNat) 0

def total (bytes : Bytes) : Nat := bytes.foldl (fun sum byte => sum + byte.toNat) 0

def untilZero (bytes : Bytes) : Bytes := bytes.takeWhile (· ≠ 0)

/-- The `count` bytes from `offset` on, or as many of them as there are. -/
def range (bytes : Bytes) (offset count : Nat) : Bytes := (bytes.drop offset).take count

theorem length_range_eq_iff {bytes : Bytes} {offset count : Nat} (begun : offset ≤ bytes.length) :
    (bytes.range offset count).length = count ↔ offset + count ≤ bytes.length := by
  rw [range, List.length_take, List.length_drop]
  omega

/-- The bytes behind the first `count`, if there are so many. -/
def behind? : Nat → Bytes → Option Bytes
  | 0, bytes => some bytes
  | _ + 1, [] => none
  | count + 1, _ :: rest => behind? count rest

theorem behind?_eq_some_iff {count : Nat} {bytes rest : Bytes} :
    bytes.behind? count = some rest ↔ count ≤ bytes.length ∧ rest = bytes.drop count := by
  fun_induction behind? count bytes with
  | case1 => simp [eq_comm]
  | case2 => simp
  | case3 count byte bytes ih => simp [ih]

end Bytes

end ScopeChain
