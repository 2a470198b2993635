import ScopeChain.Tar.Header

/-! # Sparse members

A sparse member lists the parts of a file that its data holds. No sparse member is ever used, but
one whose list is not consistent ends the reading of the archive.
-/

namespace ScopeChain.Tar

/-- How far the list of a sparse member has been checked: where the parts so far end, how much data
is left for further ones, and how many blocks behind the header have been read. -/
structure SparseProgress where
  covered : Nat
  left : Nat
  blocks : Nat
  deriving DecidableEq, Repr

/-- Takes the next part of the list into account; `size` is the size of the data. -/
def SparseProgress.addPart (size : Nat) (progress : SparseProgress) (part : Bytes) :
    Except Fault SparseProgress := do
  if part.headD 0 = 0 ∨ (part.drop 12).headD 0 = 0 then return progress
  let offset ← number (part.take 12) .sparseOffset
  let length ← number ((part.drop 12).take 12) .sparseLength
  if length ≠ 0 ∧ (size - progress.left) % blockSize ≠ 0 then throw .sparseUnaligned
  if offset < progress.covered then throw .sparseOverlap
  if numberBound ≤ offset + length then throw .sparseBeyondNumbers
  if progress.left < length then throw .sparseBeyondData
  return { progress with covered := offset + length, left := progress.left - length }

/-- The parts in a block, from an offset on. -/
def sparseParts (block : Bytes) (offset count : Nat) : List Bytes :=
  (List.range count).map fun i => block.range (offset + 24 * i) 24

/-- Reads the blocks that continue the list while each says that another follows. -/
def readSparseBlocks (size : Nat) (more : Bool) (progress : SparseProgress) (bytes : Bytes) :
    Except Fault (SparseProgress × Bytes) :=
  if more then
    match _read : readBlock bytes with
    | .atEnd => .error .sparseExtensionMissing
    | .incomplete => .error .incompleteBlock
    | .block block rest => do
      let progress ← (sparseParts block 0 21).foldlM (SparseProgress.addPart size)
        { progress with blocks := progress.blocks + 1 }
      readSparseBlocks size ((block.drop 504).headD 0 = 1) progress rest
  else .ok (progress, bytes)
termination_by bytes.length
decreasing_by
  have := (length_of_readBlock _read).2
  simp only [blockSize] at this
  omega

/-- The name by which reports call a sparse member. -/
def Header.ownerText (header : Header) : String × String :=
  (String.ofList (Text.Utf8.decodeLossy (header.field 297 32).untilZero),
    String.ofList (Text.Utf8.decodeLossy (header.field 265 32).untilZero))

/-- Checks that the parts end where the file does and use all of the data. -/
def Header.checkSparseEnd (header : Header) (progress : SparseProgress) : Except Fault Unit := do
  let realSize ← number (header.field 483 12) (.realSize header.ownerText.1 header.ownerText.2)
  if progress.covered ≠ realSize then throw .sparseSizeMismatch
  if 0 < progress.left then throw .sparseDataMismatch

/-- Checks the list of a sparse member whose data has the given size, and gives the number of the
blocks that continue the list and the bytes behind them. -/
def checkSparse (header : Header) (size : Nat) (bytes : Bytes) : Except Fault (Nat × Bytes) :=
  if header.format ≠ .gnu then .error .sparseHeaderKind
  else
    match (sparseParts header.bytes 386 4).foldlM (SparseProgress.addPart size) ⟨0, size, 0⟩ with
    | .error fault => .error fault
    | .ok progress =>
      match readSparseBlocks size ((header.field 482 1).headD 0 = 1) progress bytes with
      | .error fault => .error fault
      | .ok (progress, rest) =>
        (header.checkSparseEnd progress).map fun _ => (progress.blocks, rest)

private theorem length_of_readSparseBlocks {size : Nat} {more : Bool} {progress : SparseProgress}
    {bytes : Bytes} {result : SparseProgress × Bytes}
    (read : readSparseBlocks size more progress bytes = .ok result) :
    result.2.length ≤ bytes.length := by
  fun_induction readSparseBlocks size more progress bytes with
  | case1 => cases read
  | case2 => cases read
  | case3 progress bytes block rest taken ih =>
    simp only [bind, Except.bind] at read
    split at read
    · cases read
    · have := ih _ read
      have := (length_of_readBlock taken).2
      omega
  | case4 => cases read; exact Nat.le_refl _

theorem length_of_checkSparse {header : Header} {size blocks : Nat} {bytes rest : Bytes}
    (checked : checkSparse header size bytes = .ok (blocks, rest)) :
    rest.length ≤ bytes.length := by
  unfold checkSparse at checked
  split at checked
  · cases checked
  · split at checked
    · cases checked
    · split at checked
      · cases checked
      · rename_i progress behind read
        cases ended : header.checkSparseEnd progress with
        | error fault => rw [ended] at checked; cases checked
        | ok _ =>
          rw [ended] at checked
          cases checked
          exact length_of_readSparseBlocks read

end ScopeChain.Tar
