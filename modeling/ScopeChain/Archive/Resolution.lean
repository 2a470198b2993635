import ScopeChain.Archive.Source

/-! # From archive lists to opened archives

The list is read as a whole before anything is opened. Its archives are then opened in order, and
the first that cannot be ends the work. What a container embeds is asked of a collaborator, which
may be any function with a state of its own; the disk is part of that state, because finding an
embedded archive may put it there.
-/

namespace ScopeChain

/-- How containers are handled: the disk as it stands, and where the archive is that a container
embeds. -/
structure ContainerAccess (σ : Type) where
  disk : σ → Disk
  locate : String → σ → Except ContainerError String × σ

namespace ListedArchive

variable {σ : Type} (access : ContainerAccess σ)

/-- The file to be searched for a listed archive. -/
def searched (listed : ListedArchive) (state : σ) : Except LoadError String × σ :=
  match listed.kind with
  | .direct => (.ok listed.path, state)
  | .container =>
    match access.locate listed.path state with
    | (.error error, state) => (.error (.invalidArchive listed.path (.container error)), state)
    | (.ok path, state) =>
      if (access.disk state).exists? path then (.ok path, state)
      else (.error (.invalidArchive listed.path (.embeddedMissing path)), state)

def opened (listed : ListedArchive) (state : σ) : Except LoadError ArchiveSource × σ :=
  match listed.searched access state with
  | (.error error, state) => (.error error, state)
  | (.ok path, state) => (ArchiveSource.openFor (access.disk state) listed path, state)

def openAll : List ListedArchive → σ → Except LoadError (List ArchiveSource) × σ
  | [], state => (.ok [], state)
  | listed :: rest, state =>
    match listed.opened access state with
    | (.error error, state) => (.error error, state)
    | (.ok source, state) =>
      match openAll rest state with
      | (.error error, state) => (.error error, state)
      | (.ok sources, state) => (.ok (source :: sources), state)

def resolveList (separator : Char) (extensions : List String) (list : String) (state : σ) :
    Except LoadError (List ArchiveSource) × σ :=
  match parseList separator extensions list with
  | .error error => (.error error, state)
  | .ok listed => openAll access listed state

end ListedArchive

end ScopeChain
