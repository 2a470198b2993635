/-! # Why reading a tar archive stops

The causes, and the one place where they are worded.
-/

namespace ScopeChain.Tar

/-- What a numeric header field is read for. -/
inductive FieldUse where
  | checksum (member : String)
  | size (member : String)
  | realSize (group user : String)
  | sparseOffset
  | sparseLength
  deriving DecidableEq, Repr

/-- Why no further member can be read. -/
inductive Fault where
  | cutShort
  | incompleteBlock
  | checksumMismatch
  | fieldNotText (text : String) (use : FieldUse)
  | fieldNotNumber (text : String) (use : FieldUse)
  | sizeOverflow
  | repeatedLongName
  | repeatedRecords
  | missingMember
  | sparseHeaderKind
  | sparseUnaligned
  | sparseOverlap
  | sparseBeyondNumbers
  | sparseBeyondData
  | sparseExtensionMissing
  | sparseSizeMismatch
  | sparseDataMismatch
  deriving DecidableEq, Repr

def FieldUse.message : FieldUse → String
  | .checksum member => " when getting cksum for " ++ member
  | .size member => " when getting size for " ++ member
  | .realSize group user => " when getting real_size for " ++ group ++ ":" ++ user
  | .sparseOffset => " when getting offset from sparse header"
  | .sparseLength => " when getting length from sparse header"

def Fault.message : Fault → String
  | .cutShort => "unexpected EOF during skip"
  | .incompleteBlock => "failed to read entire block"
  | .checksumMismatch => "archive header checksum mismatch"
  | .fieldNotText text use => "numeric field did not have utf-8 text: " ++ text ++ use.message
  | .fieldNotNumber text use => "numeric field was not a number: " ++ text ++ use.message
  | .sizeOverflow => "size overflow"
  | .repeatedLongName => "two long name entries describing the same member"
  | .repeatedRecords => "two pax extensions entries describing the same member"
  | .missingMember => "members found describing a future member but no future member found"
  | .sparseHeaderKind => "sparse entry type listed but not GNU header"
  | .sparseUnaligned => "previous block in sparse file was not aligned to 512-byte boundary"
  | .sparseOverlap => "out of order or overlapping sparse blocks"
  | .sparseBeyondNumbers => "more bytes listed in sparse file than u64 can hold"
  | .sparseBeyondData => "sparse file consumed more data than the header listed"
  | .sparseExtensionMissing => "failed to read extension"
  | .sparseSizeMismatch => "mismatch in sparse file chunks and size in header"
  | .sparseDataMismatch => "mismatch in sparse file chunks and entry size in header"

end ScopeChain.Tar
