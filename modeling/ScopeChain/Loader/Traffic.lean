import ScopeChain.Loader.Inquiry

/-! # Threads that load at the same time

Each thread loads one unit. While a scope asks its parent, the call to the parent lies on top of the
call to the scope, so a thread is a stack of calls of which only the topmost moves. A traffic is the
memory of all loaders with the threads that use them; it goes on by one move of one thread at a
time, in any order.
-/

namespace ScopeChain

variable {ι : Type}

/-- A call to a scope in front of a parent. -/
structure Call (ι : Type) where
  scope : Scope ι
  parent : Loader ι
  stage : Stage Inquiry := .entering

/-- A thread that loads a unit: the calls that it is in, the topmost first; when there are none
left, its outcome, or none if it was broken off. -/
structure Thread (ι : Type) where
  name : UnitName
  calls : List (Call ι)
  outcome : Option Outcome := none

/-- What a thread does next: a step of its own, or a step upon what a search has found, or upon the
search or the parent breaking off. -/
inductive Move where
  | advance
  | search (found : Except LoadError (Option UnitMatch))
  | breakOff

/-- The memory of the loaders and the threads that use them. -/
structure Traffic (ι : Type) where
  memory : Memory
  threads : List (Thread ι)

namespace Call

def step? (call : Call ι) (name : UnitName) (memory : Memory) (report : Option Report) :
    Option (Call ι × Memory) :=
  (call.stage.step? call.scope.procedure name (memory.cache call.scope.key) report).map
    fun (stage, cache) =>
      ({ call with stage }, memory.alterCache call.scope.key fun _ => cache)

/-- The step of a call whose search is over. -/
def afterSearch? (call : Call ι) (name : UnitName) (memory : Memory)
    (found : Except LoadError (Option UnitMatch)) : Option (Call ι × Memory) :=
  let (found, memory) :=
    (memory.noteSearch call.scope.key name).makeFound call.scope.key name found
  call.step? name memory (some (.found found))

end Call

namespace Thread

/-- A thread that is about to load a unit. -/
def start (loader : Loader ι) (name : UnitName) : Thread ι :=
  match loader with
  | .root bootstrap => ⟨name, [], some (bootstrap.load name)⟩
  | .scoped scope parent => ⟨name, [⟨scope, parent, .entering⟩], none⟩

/-- A step that a thread takes by itself. -/
def advance? (thread : Thread ι) (memory : Memory) : Option (Thread ι × Memory) :=
  match thread.calls with
  | [] => none
  | call :: outer =>
    let moved (change : Option (Call ι × Memory)) (below : List (Call ι)) :=
      change.map fun (call, memory) => ({ thread with calls := call :: below }, memory)
    match call.stage with
    | .finished outcome =>
      match outer with
      | [] => some ({ thread with calls := [], outcome }, memory)
      | caller :: below =>
        moved (caller.step? thread.name memory (some (.ofParent outcome))) below
    | .resolving _ (.delegating _) =>
      match call.parent with
      | .root bootstrap =>
        moved (call.step? thread.name memory (some (.answered (bootstrap.load thread.name)))) outer
      | .scoped scope parent =>
        some ({ thread with calls := ⟨scope, parent, .entering⟩ :: call :: outer }, memory)
    | _ => moved (call.step? thread.name memory none) outer

def move? (thread : Thread ι) (memory : Memory) : Move → Option (Thread ι × Memory)
  | .advance => thread.advance? memory
  | .search found =>
    match thread.calls with
    | [] => none
    | call :: outer =>
      (call.afterSearch? thread.name memory found).map fun (call, memory) =>
        ({ thread with calls := call :: outer }, memory)
  | .breakOff =>
    match thread.calls with
    | [] => none
    | call :: outer =>
      (call.step? thread.name memory (some .brokenOff)).map fun (call, memory) =>
        ({ thread with calls := call :: outer }, memory)

/-- The search that a thread is in, if it is in one. -/
def searching? (thread : Thread ι) : Option (Scope ι) :=
  match thread.calls with
  | ⟨scope, _, .resolving _ .searching⟩ :: _ => some scope
  | _ => none

/-- Whether a thread searches the archives of the loader that it started with. -/
def atOwnSearch (thread : Thread ι) : Bool := thread.calls.length == 1 && thread.searching?.isSome

/-- The next move of a thread whose searches find what `find` says. -/
def nextMove (find : ι → UnitName → Except LoadError (Option UnitMatch)) (thread : Thread ι) :
    Move :=
  match thread.searching? with
  | some scope => .search (find scope.index thread.name)
  | none => .advance

end Thread

namespace Traffic

def step? (traffic : Traffic ι) (number : Nat) (move : Move) : Option (Traffic ι) := do
  let thread ← traffic.threads[number]?
  let (thread, memory) ← thread.move? traffic.memory move
  return ⟨memory, traffic.threads.set number thread⟩

/-- Lets one thread go on for as long as it can, at most `moves` moves and not beyond where `pause`
holds. -/
def proceed (find : ι → UnitName → Except LoadError (Option UnitMatch))
    (pause : Thread ι → Bool) (number : Nat) : Nat → Traffic ι → Traffic ι
  | 0, traffic => traffic
  | moves + 1, traffic =>
    match traffic.threads[number]? with
    | none => traffic
    | some thread =>
      if pause thread then traffic
      else
        match traffic.step? number (thread.nextMove find) with
        | none => traffic
        | some traffic => traffic.proceed find pause number moves

end Traffic

namespace Loader

/-- How many moves a call makes at most in each scope of a chain. -/
def movesPerScope : Nat := 16

/-- Loads one unit in `count` threads. The first goes ahead as far as the search of the loader's own
archives; the others follow as far as they can, and then the first goes on, and they after it. -/
def loadTogether (find : ι → UnitName → Except LoadError (Option UnitMatch)) (loader : Loader ι)
    (name : UnitName) (count : Nat) (memory : Memory) : List Outcome × Memory :=
  let moves := movesPerScope * loader.depth
  let follow (traffic : Traffic ι) : Traffic ι :=
    (List.range' 1 (count - 1)).foldl
      (fun traffic number => traffic.proceed find (fun _ => false) number moves) traffic
  let begun : Traffic ι := ⟨memory, List.replicate count (Thread.start loader name)⟩
  let ahead := follow (begun.proceed find Thread.atOwnSearch 0 moves)
  let finished := follow (ahead.proceed find (fun _ => false) 0 moves)
  (finished.threads.filterMap Thread.outcome, finished.memory)

end Loader

end ScopeChain
