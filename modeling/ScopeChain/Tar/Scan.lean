import ScopeChain.Tar.Records
import ScopeChain.Tar.Sparse

/-! # The members of a tar archive

Reading an archive gives its members in order and, if reading stops before the end of the archive,
the fault that stopped it. The members before the fault are the same as without it, so a reader who
finds what it wants among them never learns of the fault.

Some headers describe the member that follows them: its long name, the long name of what it links
to, or records that override its header. They are kept until that member comes.
-/

namespace ScopeChain.Tar

/-- A member: its name, whether it is a regular file, and where its data stands. -/
structure Member where
  name : Bytes
  isRegular : Bool
  offset : Nat
  size : Nat
  deriving DecidableEq, Repr

/-- The data of a member, as far as the archive holds it. -/
def Member.data (member : Member) (archive : Bytes) : Bytes :=
  archive.range member.offset member.size

/-- What has been said of the member to come. -/
structure Pending where
  longName : Option Bytes := none
  hasLongLink : Bool := false
  records : Option Bytes := none
  deriving DecidableEq, Repr

/-- Whether nothing has been said of the member to come. -/
def Pending.isEmpty (pending : Pending) : Bool :=
  pending.longName.isNone && !pending.hasLongLink && pending.records.isNone

/-- The types of headers. -/
inductive Kind where
  | longName
  | longLink
  | records
  | sharedRecords
  | regular
  | sparse
  | other
  deriving DecidableEq, Repr

def Header.kind (header : Header) : Kind :=
  let byte := header.typeByte
  if byte = 0x4C then .longName
  else if byte = 0x4B then .longLink
  else if byte = 0x78 then .records
  else if byte = 0x67 then .sharedRecords
  else if byte = 0 ∨ byte = 0x30 then .regular
  else if byte = 0x53 then .sparse
  else .other

/-- Whether records before a header of this type override its size. -/
def Kind.heedsRecords : Kind → Bool
  | .longName => false
  | .longLink => false
  | .records => false
  | .sharedRecords => false
  | _ => true

/-- The size of the data behind a header. -/
def Header.dataSize (header : Header) (pending : Pending) : Except Fault Nat :=
  header.statedSize.map fun stated =>
    if header.kind.heedsRecords then (pending.records.bind recordedSize?).getD stated else stated

/-- Without its last byte if that is zero. -/
def dropFinalZero (bytes : Bytes) : Bytes :=
  if bytes.getLast? = some 0 then bytes.dropLast else bytes

/-- The name of the member that a header describes, what has been said of it taken into account. -/
def Header.memberName (header : Header) (pending : Pending) : Bytes :=
  match pending.longName with
  | some name => dropFinalZero name
  | none => (pending.records.bind recordedPath?).getD header.nameBytes

/-- What a header adds: something about the member to come, or the member itself, the number of the
blocks that continue its header, and the bytes behind those. -/
inductive Reading where
  | about (pending : Pending)
  | member (member : Member) (blocks : Nat) (behind : Bytes)

/-- The size of the data behind a header that stands at a position, once the header has been
checked. -/
def Header.check (header : Header) (position : Nat) (pending : Pending) : Except Fault Nat := do
  let stated ← header.statedChecksum
  if stated ≠ header.checksum then throw .checksumMismatch
  let size ← header.dataSize pending
  if numberBound ≤ position + blockSize + roundUp size then throw .sizeOverflow
  return size

/-- What a checked header adds, given the size of its data and the bytes behind it. -/
def Header.read (header : Header) (position size : Nat) (pending : Pending) (behind : Bytes) :
    Except Fault Reading :=
  if header.kind = .longName ∧ header.format ≠ .old then
    if pending.longName.isSome then .error .repeatedLongName
    else .ok (.about { pending with longName := some (behind.take size) })
  else if header.kind = .longLink ∧ header.format ≠ .old then
    if pending.hasLongLink then .error .repeatedLongName
    else .ok (.about { pending with hasLongLink := true })
  else if header.kind = .records ∧ header.format ≠ .old then
    if pending.records.isSome then .error .repeatedRecords
    else .ok (.about { pending with records := some (behind.take size) })
  else
    let member := ⟨header.memberName pending, header.kind = .regular, position + blockSize, size⟩
    if header.kind = .sparse then
      (checkSparse header size behind).map fun (blocks, rest) => .member member blocks rest
    else .ok (.member member 0 behind)

private theorem length_of_read {header : Header} {position size blocks : Nat} {pending : Pending}
    {behind rest : Bytes} {member : Member}
    (read : header.read position size pending behind = .ok (.member member blocks rest)) :
    rest.length ≤ behind.length := by
  unfold Header.read at read
  split at read
  · split at read <;> cases read
  · split at read
    · split at read <;> cases read
    · split at read
      · split at read <;> cases read
      · simp only at read
        split at read
        · cases checked : checkSparse header size behind with
          | error fault => rw [checked] at read; cases read
          | ok taken =>
            rw [checked] at read
            cases read
            exact length_of_checkSparse checked
        · cases read; exact Nat.le_refl _

/-- How an archive ends when something has been said of a member that does not come. -/
def Pending.atEnd (pending : Pending) : Option Fault :=
  if pending.isEmpty then none else some .missingMember

/-- Where the reading of an archive stands: the position of the next header, what has been said of
the member to come, and the bytes from there on. -/
structure Cursor where
  position : Nat
  pending : Pending
  bytes : Bytes

/-- The cursor behind data of a size and its padding, if the bytes hold them. -/
def Cursor.behindData (cursor : Cursor) (size : Nat) : Option Cursor :=
  (cursor.bytes.behind? (roundUp size)).map fun rest =>
    ⟨cursor.position + roundUp size, cursor.pending, rest⟩

/-- What reading one header comes to: the end, with or without a fault, or perhaps a member and the
cursor behind its data; no cursor if the archive is cut short there. -/
inductive Step where
  | ended (fault : Option Fault)
  | went (member : Option Member) (next : Option Cursor)

def Cursor.step (cursor : Cursor) : Step :=
  match readBlock cursor.bytes with
  | .atEnd => .ended cursor.pending.atEnd
  | .incomplete => .ended (some .incompleteBlock)
  | .block content behind =>
    if content.all (· = 0) then .ended cursor.pending.atEnd
    else
      let header := Header.mk content
      match header.check cursor.position cursor.pending with
      | .error fault => .ended (some fault)
      | .ok size =>
        match header.read cursor.position size cursor.pending behind with
        | .error fault => .ended (some fault)
        | .ok (.about pending) =>
          .went none (Cursor.behindData ⟨cursor.position + blockSize, pending, behind⟩ size)
        | .ok (.member member blocks behind) =>
          let position := cursor.position + blockSize * (1 + blocks)
          .went (some member) (Cursor.behindData ⟨position, {}, behind⟩ size)

private theorem Cursor.length_of_behindData {cursor next : Cursor} {size : Nat}
    (skipped : cursor.behindData size = some next) : next.bytes.length ≤ cursor.bytes.length := by
  obtain ⟨rest, taken, rfl⟩ := Option.map_eq_some_iff.mp skipped
  have dropped := (Bytes.behind?_eq_some_iff.mp taken).2
  simp [dropped]

private theorem Cursor.length_of_step {cursor next : Cursor} {member : Option Member}
    (step : cursor.step = .went member (some next)) :
    next.bytes.length < cursor.bytes.length := by
  unfold Cursor.step at step
  split at step
  · cases step
  · cases step
  · rename_i content behind block
    have taken := (length_of_readBlock block).2
    have positive : 0 < blockSize := by decide
    split at step
    · cases step
    · simp only at step
      split at step
      · cases step
      · split at step
        · cases step
        · injection step with _ skipped
          have := length_of_behindData skipped
          simp only at this
          omega
        · rename_i blocks unread reading
          injection step with _ skipped
          have := length_of_behindData skipped
          have := length_of_read reading
          simp only at *
          omega

/-- Reads on from a cursor to the end. -/
def scanFrom (cursor : Cursor) : List Member × Option Fault :=
  match _step : cursor.step with
  | .ended fault => ([], fault)
  | .went member none => (member.toList, some .cutShort)
  | .went member (some next) =>
    let behind := scanFrom next
    (member.toList ++ behind.1, behind.2)
termination_by cursor.bytes.length
decreasing_by exact Cursor.length_of_step _step

/-- The members of an archive in order, and the fault that ends their reading, if one does. -/
def scan (archive : Bytes) : List Member × Option Fault := scanFrom ⟨0, {}, archive⟩

end ScopeChain.Tar
