import ScopeChain.Archive.Container
import ScopeChain.Archive.Resolution
import ScopeChain.Config.Basic
import ScopeChain.Loader.Basic

/-! # Loaders from configurations

A scope is built over the archives that a configuration lists. It is built as a whole or not at all.
-/

namespace ScopeChain

def Extractor.ofConfig (config : Config) : Extractor :=
  ⟨config.extractionDirectory, config.directExtensions, config.embeddedEntry⟩

def Extractor.access (extractor : Extractor) : ContainerAccess Disk := ⟨id, extractor.locate⟩

namespace Config

variable {σ : Type}

def openArchives (config : Config) (access : ContainerAccess σ) (state : σ) :
    Except LoadError (List ArchiveSource) × σ :=
  ListedArchive.resolveList access config.separator config.directExtensions config.archivePath state

end Config

namespace Scope

/-- A scope over an index that lists no archives as its own. -/
def overIndex {ι : Type} (key : Nat) (name : String) (index : ι) (parentFirst : List String) :
    Scope ι :=
  ⟨key, name, index, [], parentFirst⟩

def overSources (key : Nat) (name : String) (config : Config) (sources : List ArchiveSource) :
    Scope ArchiveIndex :=
  ⟨key, name, ⟨sources, config.unitExtension⟩, sources, config.parentFirst⟩

def ofConfig {σ : Type} (key : Nat) (name : String) (config : Config) (access : ContainerAccess σ)
    (state : σ) : Except LoadError (Scope ArchiveIndex) × σ :=
  let (sources, state) := config.openArchives access state
  (sources.map (overSources key name config), state)

end Scope

end ScopeChain
