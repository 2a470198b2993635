import ScopeChain.Archive.Resolution
import ScopeChain.Proofs.Archive.Lists
import ScopeChain.Proofs.Archive.Spans

/-! # How an archive list is resolved

What opening one archive gives is said without reference to how it is done: the opened archive
(`ListedArchive.Yields`) or the fault (`ListedArchive.Fails`), and the state that the collaborator leaves. A list
is opened if each of its archives yields one in the state that those before it left, and fails where the first of
them fails (`ListedArchive.openAll_eq_ok_iff`, `ListedArchive.openAll_eq_error_iff`). All questions to the
collaborator can be kept on record (`ContainerAccess.recorded`), so that
`ListedArchive.resolveList_recorded` also tells which containers are asked for.
-/

namespace ScopeChain

variable {σ : Type} {access : ContainerAccess σ} {disk : Disk} {path : String} {fault : ArchiveFault}

/-- The same handling of containers with a record of those that have been asked for. -/
def ContainerAccess.recorded (access : ContainerAccess σ) : ContainerAccess (σ × List String) where
  disk state := access.disk state.1
  locate container state :=
    ((access.locate container state.1).1, (access.locate container state.1).2, state.2 ++ [container])

/-- Why no archive is opened at a path: no regular file is there, or one whose headers cannot all be read. -/
inductive Disk.Unopenable (disk : Disk) (path : String) : ArchiveFault → Prop where
  | noFile (noFile : disk.isFile path = false) : Unopenable disk path .notRegularFile
  | corrupt {contents : Bytes} {fault : Tar.Fault} (read : disk.read path = .ok contents)
      (corrupt : EntryTable.ofArchive contents = .error fault) : Unopenable disk path (.unreadable (.tar fault))

theorem ArchiveSource.openFor_eq_error_iff {origin : ListedArchive} {error : LoadError} :
    openFor disk origin path = .error error ↔
      ∃ fault, disk.Unopenable path fault ∧ error = .invalidArchive path fault := by
  rw [openFor]
  constructor
  · intro failed
    split at failed
    · rename_i file
      split at failed
      · rename_i unread
        rw [Disk.isFile] at file
        rw [Disk.read] at unread
        split at file
        · rename_i found
          rw [found] at unread
          cases unread
        · cases file
      · split at failed
        · cases failed
          exact ⟨_, .corrupt ‹_› ‹_›, rfl⟩
        · cases failed
    · rename_i noFile
      cases failed
      exact ⟨_, .noFile (Bool.not_eq_true _ ▸ noFile), rfl⟩
  · rintro ⟨fault, unopenable, rfl⟩
    cases unopenable with
    | noFile noFile => rw [noFile, if_neg Bool.false_ne_true]
    | corrupt read corrupt => simp only [Disk.isFile_of_read read, ↓reduceIte, read, corrupt]

namespace ListedArchive

variable {listed : ListedArchive} {archives : List ListedArchive} {state next last : σ}
  {source : ArchiveSource} {sources : List ArchiveSource} {error : LoadError} {calls record : List String}

/-! ## One archive -/

/-- An archive of a list yields an opened one: a direct archive is opened itself, without a question, and of a
container the archive that the collaborator names, on the disk that it leaves. -/
inductive Yields (access : ContainerAccess σ) (listed : ListedArchive) (state : σ) :
    ArchiveSource → σ → Prop where
  | direct {contents : Bytes} {entries : EntryTable} (kind : listed.kind = .direct)
      (read : (access.disk state).read listed.path = .ok contents)
      (readable : EntryTable.ofArchive contents = .ok entries) :
      Yields access listed state ⟨listed, listed.path, entries⟩ state
  | container {path : String} {next : σ} {contents : Bytes} {entries : EntryTable}
      (kind : listed.kind = .container) (located : access.locate listed.path state = (.ok path, next))
      (read : (access.disk next).read path = .ok contents)
      (readable : EntryTable.ofArchive contents = .ok entries) :
      Yields access listed state ⟨listed, path, entries⟩ next

/-- An archive of a list fails: itself if it is direct; else the collaborator refuses it, or names an archive that
does not exist or that cannot be opened. -/
inductive Fails (access : ContainerAccess σ) (listed : ListedArchive) (state : σ) : LoadError → σ → Prop where
  | direct {fault : ArchiveFault} (kind : listed.kind = .direct)
      (unopenable : (access.disk state).Unopenable listed.path fault) :
      Fails access listed state (.invalidArchive listed.path fault) state
  | refused {error : ContainerError} {next : σ} (kind : listed.kind = .container)
      (refused : access.locate listed.path state = (.error error, next)) :
      Fails access listed state (.invalidArchive listed.path (.container error)) next
  | missing {path : String} {next : σ} (kind : listed.kind = .container)
      (located : access.locate listed.path state = (.ok path, next))
      (missing : (access.disk next).exists? path = false) :
      Fails access listed state (.invalidArchive listed.path (.embeddedMissing path)) next
  | embedded {path : String} {next : σ} {fault : ArchiveFault} (kind : listed.kind = .container)
      (located : access.locate listed.path state = (.ok path, next))
      (there : (access.disk next).exists? path = true)
      (unopenable : (access.disk next).Unopenable path fault) :
      Fails access listed state (.invalidArchive path fault) next

theorem Yields.origin_eq (yields : listed.Yields access state source next) : source.origin = listed := by
  cases yields <;> rfl

private theorem Yields.archive_eq (yields : listed.Yields access state source next) (kind : listed.kind = .direct) :
    source.archive = listed.path := by
  cases yields with
  | direct => rfl
  | container other => cases kind.symm.trans other

private theorem Fails.invalid (fails : listed.Fails access state error next) :
    ∃ path fault, error = .invalidArchive path fault := by
  cases fails <;> exact ⟨_, _, rfl⟩

/-- A direct archive is opened as it is. -/
theorem opened_direct (kind : listed.kind = .direct) (access : ContainerAccess σ) (state : σ) :
    listed.opened access state =
      (ArchiveSource.openFor (access.disk state) listed listed.path, state) := by
  rw [opened, searched, kind]

/-- A container is opened where its embedded archive is found. -/
theorem opened_container (kind : listed.kind = .container) (access : ContainerAccess σ) (state : σ) :
    listed.opened access state =
      let next := (access.locate listed.path state).2
      (match (access.locate listed.path state).1 with
        | .error error => .error (.invalidArchive listed.path (.container error))
        | .ok path =>
          if (access.disk next).exists? path then ArchiveSource.openFor (access.disk next) listed path
          else .error (.invalidArchive listed.path (.embeddedMissing path)), next) := by
  rw [opened, searched, kind]
  rcases located : access.locate listed.path state with ⟨error | path, next⟩
  · rfl
  · dsimp only
    split_ifs <;> rfl

theorem opened_eq_ok_iff :
    listed.opened access state = (.ok source, next) ↔ listed.Yields access state source next := by
  cases kind : listed.kind with
  | direct =>
    rw [opened_direct kind, Prod.mk.injEq, ArchiveSource.openFor_eq_ok_iff]
    constructor
    · rintro ⟨⟨contents, entries, read, readable, rfl⟩, rfl⟩
      exact .direct kind read readable
    · rintro (⟨-, read, readable⟩ | ⟨other⟩)
      · exact ⟨⟨_, _, read, readable, rfl⟩, rfl⟩
      · cases kind.symm.trans other
  | container =>
    rw [opened_container kind]
    constructor
    · intro opened
      rcases located : access.locate listed.path state with ⟨error | path, after⟩
      · simp [located] at opened
      · simp only [located, Prod.mk.injEq] at opened
        obtain ⟨success, rfl⟩ := opened
        split at success
        · obtain ⟨contents, entries, read, readable, rfl⟩ := ArchiveSource.openFor_eq_ok_iff.mp success
          exact .container kind located read readable
        · cases success
    · rintro (⟨other⟩ | ⟨-, located, read, readable⟩)
      · cases kind.symm.trans other
      · simp only [located, Disk.exists?_of_read read, ↓reduceIte]
        rw [ArchiveSource.openFor_eq_ok_iff.mpr ⟨_, _, read, readable, rfl⟩]

theorem opened_eq_error_iff :
    listed.opened access state = (.error error, next) ↔ listed.Fails access state error next := by
  cases kind : listed.kind with
  | direct =>
    rw [opened_direct kind, Prod.mk.injEq, ArchiveSource.openFor_eq_error_iff]
    constructor
    · rintro ⟨⟨fault, unopenable, rfl⟩, rfl⟩
      exact .direct kind unopenable
    · intro fails
      cases fails with
      | direct _ unopenable => exact ⟨⟨_, unopenable, rfl⟩, rfl⟩
      | refused other | missing other | embedded other => cases kind.symm.trans other
  | container =>
    rw [opened_container kind]
    constructor
    · intro opened
      rcases located : access.locate listed.path state with ⟨error | path, after⟩
      · simp only [located, Prod.mk.injEq, Except.error.injEq] at opened
        obtain ⟨rfl, rfl⟩ := opened
        exact .refused kind located
      · simp only [located, Prod.mk.injEq] at opened
        obtain ⟨failed, rfl⟩ := opened
        split at failed
        · obtain ⟨fault, unopenable, rfl⟩ := ArchiveSource.openFor_eq_error_iff.mp failed
          exact .embedded kind located ‹_› unopenable
        · rename_i missing
          cases failed
          exact .missing kind located (Bool.not_eq_true _ ▸ missing)
    · intro fails
      cases fails with
      | direct other => cases kind.symm.trans other
      | refused _ refused => simp only [refused]
      | missing _ located missing => simp [located, missing]
      | embedded _ located there unopenable =>
        simp only [located, there, ↓reduceIte]
        rw [ArchiveSource.openFor_eq_error_iff.mpr ⟨_, unopenable, rfl⟩]

/-! ## Archives in order -/

/-- The containers that are asked for when an archive is opened. -/
def asked (listed : ListedArchive) : List String :=
  match listed.kind with
  | .direct => []
  | .container => [listed.path]

/-- Opening an archive with a record asks for what its kind says, once, and does the same as without. -/
theorem opened_recorded (access : ContainerAccess σ) (listed : ListedArchive) (state : σ) (calls : List String) :
    listed.opened access.recorded (state, calls) =
      ((listed.opened access state).1, (listed.opened access state).2, calls ++ listed.asked) := by
  cases kind : listed.kind with
  | direct => rw [opened_direct kind, opened_direct kind, asked, kind, List.append_nil]; rfl
  | container => rw [opened_container kind, opened_container kind, asked, kind]; rfl

/-- Archives are opened in order, each in the state that the one before left. -/
inductive Opens (access : ContainerAccess σ) : σ → List ListedArchive → List ArchiveSource → σ → Prop where
  | nil (state : σ) : Opens access state [] [] state
  | cons {listed : ListedArchive} {rest : List ListedArchive} {source : ArchiveSource}
      {sources : List ArchiveSource} {state next last : σ} (first : listed.Yields access state source next)
      (others : Opens access next rest sources last) :
      Opens access state (listed :: rest) (source :: sources) last

private theorem Opens.origins_eq (opens : Opens access state archives sources last) :
    sources.map (·.origin) = archives := by
  induction opens with
  | nil => rfl
  | cons first _ ih => rw [List.map_cons, first.origin_eq, ih]

private theorem Opens.archive_eq (opens : Opens access state archives sources last) :
    ∀ source ∈ sources, source.origin.kind = .direct → source.archive = source.origin.path := by
  induction opens with
  | nil => simp
  | cons first _ ih =>
    rintro source (_ | ⟨_, inside⟩) kind
    · rw [first.origin_eq] at kind ⊢
      exact first.archive_eq kind
    · exact ih source inside kind

/-- All archives are opened, and the containers among them are asked for. -/
theorem openAll_eq_ok_iff : openAll access.recorded archives (state, calls) = (.ok sources, last, record) ↔
    Opens access state archives sources last ∧ record = calls ++ archives.flatMap asked := by
  induction archives generalizing state calls sources with
  | nil =>
    rw [openAll, List.flatMap_nil, List.append_nil]
    constructor
    · rintro ⟨⟩
      exact ⟨.nil _, rfl⟩
    · rintro ⟨⟨⟩, rfl⟩
      rfl
  | cons listed rest ih =>
    rw [openAll, opened_recorded, List.flatMap_cons, ← List.append_assoc]
    rcases opened : listed.opened access state with ⟨error | source, next⟩
    · refine ⟨fun none => (by cases none), fun ⟨opens, _⟩ => ?_⟩
      cases opens with
      | cons first others => cases opened.symm.trans (opened_eq_ok_iff.mpr first)
    · dsimp only
      constructor
      · intro all
        split at all <;> rename_i others
        · cases all
        · cases all
          obtain ⟨opens, rfl⟩ := ih.mp others
          exact ⟨.cons (opened_eq_ok_iff.mp opened) opens, rfl⟩
      · rintro ⟨opens, rfl⟩
        cases opens with
        | cons first others =>
          cases opened.symm.trans (opened_eq_ok_iff.mpr first)
          rw [ih.mpr ⟨others, rfl⟩]

/-- The first archive that fails decides: those before it are opened, and no container behind it is asked for. -/
theorem openAll_eq_error_iff : openAll access.recorded archives (state, calls) = (.error error, last, record) ↔
    ∃ front failing back sources middle, archives = front ++ failing :: back ∧
      Opens access state front sources middle ∧ failing.Fails access middle error last ∧
      record = calls ++ (front ++ [failing]).flatMap asked := by
  induction archives generalizing state calls with
  | nil => simp [openAll]
  | cons listed rest ih =>
    rw [openAll, opened_recorded]
    rcases opened : listed.opened access state with ⟨error | source, next⟩
    · constructor
      · rintro ⟨⟩
        exact ⟨[], listed, rest, [], state, rfl, .nil _, opened_eq_error_iff.mp opened, by simp⟩
      · rintro ⟨front, failing, back, sources, middle, split, opens, fails, rfl⟩
        cases opens with
        | nil =>
          obtain ⟨rfl, rfl⟩ := List.cons.inj split
          cases opened.symm.trans (opened_eq_error_iff.mpr fails)
          simp
        | cons first others =>
          obtain ⟨rfl, -⟩ := List.cons.inj split
          cases opened.symm.trans (opened_eq_ok_iff.mpr first)
    · dsimp only
      constructor
      · intro all
        split at all <;> rename_i others
        · cases all
          obtain ⟨front, failing, back, sources, middle, rfl, opens, fails, rfl⟩ := ih.mp others
          exact ⟨listed :: front, failing, back, source :: sources, middle, rfl,
            .cons (opened_eq_ok_iff.mp opened) opens, fails, by simp⟩
        · cases all
      · rintro ⟨front, failing, back, sources, middle, split, opens, fails, rfl⟩
        cases opens with
        | nil =>
          obtain ⟨rfl, rfl⟩ := List.cons.inj split
          cases opened.symm.trans (opened_eq_error_iff.mpr fails)
        | cons first others =>
          obtain ⟨rfl, rfl⟩ := List.cons.inj split
          cases opened.symm.trans (opened_eq_ok_iff.mpr first)
          rw [ih.mpr ⟨_, _, _, _, _, rfl, others, fails, by simp⟩]

/-- Keeping the record changes nothing else. -/
theorem openAll_recorded (access : ContainerAccess σ) (archives : List ListedArchive) (state : σ)
    (calls : List String) : openAll access archives state =
      ((openAll access.recorded archives (state, calls)).1,
        (openAll access.recorded archives (state, calls)).2.1) := by
  induction archives generalizing state calls with
  | nil => rfl
  | cons listed rest ih =>
    rw [openAll, openAll, opened_recorded]
    rcases listed.opened access state with ⟨error | source, next⟩
    · rfl
    · dsimp only
      rw [ih next (calls ++ listed.asked)]
      rcases openAll access.recorded rest (next, calls ++ listed.asked) with ⟨error | sources, last⟩ <;> rfl

/-- Whatever is wrong with an archive of a list is reported as an invalid archive. -/
theorem invalid_of_openAll (failed : (openAll access archives state).1 = .error error) :
    ∃ path fault, error = .invalidArchive path fault := by
  rw [openAll_recorded access archives state []] at failed
  have whole : openAll access.recorded archives (state, []) = (.error error, _, _) := Prod.ext failed rfl
  obtain ⟨_, _, _, _, _, _, _, fails, _⟩ := openAll_eq_error_iff.mp whole
  exact fails.invalid

/-! ## Lists -/

/-- The whole list is read first: if any segment is malformed, then the first such one is reported, whatever the
disk holds and the collaborator would say, and no question is put to it. Else the archives are taken in order. All
are opened exactly if each yields an opened one, with a question for each container; an error is that of the
first archive that fails, and the containers up to that one have been asked for. -/
theorem resolveList_recorded (access : ContainerAccess σ) (separator : Char) (extensions : List String)
    (list : String) (state : σ) (calls : List String) :
    let archives := named separator extensions list
    let resolved := resolveList access.recorded separator extensions list (state, calls)
    (∀ piece, (pieces separator list).find? (Malformed ·) = some piece →
      resolved = (.error (.invalidArchive (Text.quoted (String.ofList piece)) .malformedPath), state, calls)) ∧
    ((pieces separator list).find? (Malformed ·) = none →
      (∀ sources last record, resolved = (.ok sources, last, record) ↔
        Opens access state archives sources last ∧ record = calls ++ archives.flatMap asked) ∧
      ∀ error last record, resolved = (.error error, last, record) ↔
        ∃ front failing back sources middle, archives = front ++ failing :: back ∧
          Opens access state front sources middle ∧ failing.Fails access middle error last ∧
          record = calls ++ (front ++ [failing]).flatMap asked) ∧
    (∀ sources, resolved.1 = .ok sources → sources.map (·.origin) = archives ∧
      ∀ source ∈ sources, source.origin.kind = .direct → source.archive = source.origin.path) ∧
    (∀ error, resolved.1 = .error error → ∃ path fault, error = .invalidArchive path fault) ∧
    resolveList access separator extensions list state = (resolved.1, resolved.2.1) := by
  intro archives resolved
  cases first : (pieces separator list).find? (Malformed ·) with
  | some piece =>
    have parsed := parseList_of_malformed extensions first
    have reported : resolved =
        (.error (.invalidArchive (Text.quoted (String.ofList piece)) .malformedPath), state, calls) := by
      simp only [resolved, resolveList, parsed]
    rw [reported, resolveList, parsed]
    simp
  | none =>
    have parsed := parseList_of_sound extensions first
    have all : resolved = openAll access.recorded archives (state, calls) := by
      simp only [resolved, resolveList, parsed, archives]
    have plain : resolveList access separator extensions list state = openAll access archives state := by
      simp only [resolveList, parsed, archives]
    rw [all, plain]
    refine ⟨by simp, fun _ => ⟨fun sources last record => openAll_eq_ok_iff,
      fun error last record => openAll_eq_error_iff⟩, ?_, ?_, openAll_recorded access archives state calls⟩
    · intro sources success
      have opened : openAll access.recorded archives (state, calls) = (.ok sources, _, _) :=
        Prod.ext success rfl
      obtain ⟨opens, -⟩ := openAll_eq_ok_iff.mp opened
      exact ⟨opens.origins_eq, opens.archive_eq⟩
    · intro error failure
      exact invalid_of_openAll failure

/-- A disk with an empty archive. -/
def bareDisk : Disk := (Disk.provide ⟨Table.empty, [], 9⟩ "/a.t" [] 5).2

/-- One container embeds that archive, and others embed none. The state counts the questions. -/
def bareAccess : ContainerAccess Nat where
  disk _ := bareDisk
  locate container count :=
    (if container = "b.k" then .ok "/a.t" else .error (.noArchive container), count + 1)

theorem bareAccess_resolves :
    resolveList bareAccess.recorded ':' ["t"] "/a.t:b.k::c.k:b.k" (0, []) =
      (.error (.invalidArchive "c.k" (.container (.noArchive "c.k"))), 2, ["b.k", "c.k"]) ∧
    resolveList bareAccess.recorded ':' ["t"] "b.k:/a.t: :c.k" (0, []) =
      (.error (.invalidArchive "\" \"" .malformedPath), 0, []) := by
  have read : bareDisk.read "/a.t" = .ok [] := by decide +kernel
  have readable : EntryTable.ofArchive [] = .ok Table.empty := by
    rw [EntryTable.ofArchive, Tar.scan, Tar.scanFrom]
    rfl
  constructor
  · have opens : Opens bareAccess 0 [⟨"/a.t", .direct⟩, ⟨"b.k", .container⟩] [⟨_, _, _⟩, ⟨_, _, _⟩] 1 :=
      .cons (.direct rfl read readable) (.cons (.container rfl rfl read readable) (.nil 1))
    have resolved := (resolveList_recorded bareAccess ':' ["t"] "/a.t:b.k::c.k:b.k" 0 []).2.1 (by decide)
    exact (resolved.2 _ _ _).mpr ⟨_, ⟨"c.k", .container⟩, [⟨"b.k", .container⟩], _, 1, by decide, opens,
      .refused rfl rfl, rfl⟩
  · have quoted : Text.quoted (String.ofList [' ']) = "\" \"" := by decide +kernel
    rw [← quoted]
    exact (resolveList_recorded bareAccess ':' ["t"] "b.k:/a.t: :c.k" 0 []).1 [' '] (by decide)

end ListedArchive

end ScopeChain
