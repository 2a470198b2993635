import Mathlib.Data.List.Nodup
import ScopeChain.Loader.Traffic
import ScopeChain.Proofs.Crowd.SingleFlight
import ScopeChain.Proofs.Delegation.Loads

/-! # The crowds of a traffic

The calls of all threads to one scope are a crowd in front of the cache of that scope: a move of a
thread is a step of the call that moves, and the crowds of the other scopes stay as they were. So
every traffic is, at each scope of its chains, what a run of a crowd leads to
(`Traffic.crowd_of_assembled`), and what is true of all such runs is true of the scope. The threads
may use different chains as long as a scope is known by its key (`Kindred`), such as the branches of a
tree of loaders. At no time do two threads of one chain resolve the same name for the same scope
(`Traffic.resolves_alone`).
-/

namespace ScopeChain

variable {ι : Type}

private theorem Memory.cache_alterCache (memory : Memory) (key : Nat) (change : Cache → Cache) (other : Nat) :
    (memory.alterCache key change).cache other =
      if key = other then change (memory.cache key) else memory.cache other := by
  rw [cache, alterCache, recollection_alter]
  split <;> rfl

@[simp] theorem Memory.cache_noteSearch (memory : Memory) (key : Nat) (name : UnitName)
    (other : Nat) : (memory.noteSearch key name).cache other = memory.cache other := by
  rw [cache, recollection_noteSearch]
  split
  · rename_i same
    rw [← same]
    rfl
  · rfl

@[simp] theorem Memory.cache_makeFound (memory : Memory) (key : Nat) (name : UnitName)
    (found : Except LoadError (Option UnitMatch)) (other : Nat) :
    (memory.makeFound key name found).2.cache other = memory.cache other := by
  match found with
  | .error _ | .ok none => rfl
  | .ok (some found) =>
    rw [makeFound, cache, recollection_makeUnit]
    split
    · rename_i same
      rw [← same]
      rfl
    · rfl

/-- A step of a call is a step of its stage in front of the cache of its scope. -/
private theorem Call.step_of_step? {call after : Call ι} {name : UnitName} {memory next : Memory}
    {report : Option Report} (taken : call.step? name memory report = some (after, next)) :
    ∃ stage cache, call.stage.step? call.scope.procedure name (memory.cache call.scope.key) report =
        some (stage, cache) ∧ after = { call with stage } ∧
      ∀ key, next.cache key = if call.scope.key = key then cache else memory.cache key := by
  obtain ⟨⟨stage, cache⟩, stepped, reached⟩ := Option.map_eq_some_iff.mp taken
  cases reached
  exact ⟨stage, cache, stepped, rfl, fun key => memory.cache_alterCache call.scope.key _ key⟩

/-- A resolution whose parent has answered or broken off is over. -/
private theorem Stage.rank_of_parent {slot : Nat} {missed : Bool} {parentFirst : List String}
    {name : UnitName} {cache next : Cache} {outcome : Option Outcome} {after : Stage Inquiry}
    (taken : (Stage.resolving slot (Inquiry.delegating missed)).step? (Inquiry.procedure parentFirst)
      name cache (some (.ofParent outcome)) = some (after, next)) : 6 < after.rank := by
  cases outcome with
  | none => cases taken; simp [rank]
  | some outcome => cases outcome <;> cases missed <;> cases taken <;> simp [rank]

/-- The calls that a thread is in, the topmost first, stand in a chain, and `stages` tells the stage
of the thread's call to each scope; a call that has not begun or is over is told too. -/
structure Stacked (chain : Loader ι) (calls : List (Call ι)) (stages : Nat → Stage Inquiry) :
    Prop where
  /-- Every call stands as it is told. -/
  here : ∀ call ∈ calls, stages call.scope.key = call.stage
  /-- To other scopes there is no call yet, or none any more. -/
  away : ∀ key, (∀ call ∈ calls, call.scope.key ≠ key) →
    stages key = .entering ∨ ∃ outcome, stages key = .finished outcome
  /-- The calls below wait for their parents. -/
  waiting : ∀ call ∈ calls.tail, ∃ slot missed, call.stage = .resolving slot (.delegating missed)
  /-- A call stands higher in the chain than those below it. -/
  above : calls.Pairwise fun upper lower =>
    (Loader.scoped upper.scope upper.parent).scopes <:+ lower.parent.scopes
  /-- All calls are to scopes of the chain. -/
  inside : ∀ call ∈ calls, (Loader.scoped call.scope call.parent).scopes <:+ chain.scopes

/-- Before the topmost call has come to an outcome, no scope above it has been called. -/
def Ahead (calls : List (Call ι)) (stages : Nat → Stage Inquiry) : Prop :=
  ∀ call ∈ calls.head?, call.stage.rank ≤ 6 → ∀ key ∈ call.parent.keys, stages key = .entering

namespace Stacked

variable {chain : Loader ι} {calls outer : List (Call ι)} {call caller : Call ι}
  {stages : Nat → Stage Inquiry} {stage : Stage Inquiry}

private theorem start {chain loader : Loader ι} (suffix : loader.scopes <:+ chain.scopes)
    (name : UnitName) : Stacked chain (Thread.start loader name).calls fun _ => .entering := by
  cases loader with
  | root bootstrap =>
    refine ⟨?_, fun _ _ => .inl rfl, ?_, .nil, ?_⟩
    · intro call member
      cases member
    · intro call member
      cases member
    · intro call member
      cases member
  | «scoped» scope parent =>
    refine ⟨?_, fun _ _ => .inl rfl, ?_, List.pairwise_singleton _ _, ?_⟩
    · intro call member
      cases List.mem_singleton.mp member
      rfl
    · intro call member
      cases member
    · intro call member
      cases List.mem_singleton.mp member
      exact suffix

/-- No scope of a chain stands above itself. -/
theorem not_mem_above (distinct : chain.keys.Nodup)
    (inside : (Loader.scoped call.scope call.parent).scopes <:+ chain.scopes) :
    call.scope.key ∉ call.parent.keys :=
  (List.nodup_cons.mp ((inside.map Scope.key).sublist.nodup distinct)).1

/-- The calls below are to other scopes than the topmost call. -/
private theorem key_ne (stacked : Stacked chain (call :: outer) stages) (distinct : chain.keys.Nodup)
    {lower : Call ι} (member : lower ∈ outer) : lower.scope.key ≠ call.scope.key := by
  intro same
  have suffix := (List.pairwise_cons.mp stacked.above).1 lower member
  apply not_mem_above distinct (stacked.inside lower (List.mem_cons_of_mem _ member))
  rw [same]
  exact List.mem_map_of_mem (suffix.subset List.mem_cons_self)

/-- The topmost call has taken a step. -/
theorem stepped (stacked : Stacked chain (call :: outer) stages) (distinct : chain.keys.Nodup)
    (stage : Stage Inquiry) :
    Stacked chain ({ call with stage } :: outer) (Function.update stages call.scope.key stage) := by
  refine ⟨?_, ?_, stacked.waiting, ?_, ?_⟩
  · intro other member
    rcases List.mem_cons.mp member with rfl | below
    · exact Function.update_self ..
    · rw [Function.update_of_ne (stacked.key_ne distinct below)]
      exact stacked.here other (List.mem_cons_of_mem _ below)
  · intro key absent
    have other := absent _ List.mem_cons_self
    rw [Function.update_of_ne other.symm]
    apply stacked.away key
    intro lower member
    rcases List.mem_cons.mp member with rfl | below
    · exact other
    · exact absent lower (List.mem_cons_of_mem _ below)
  · exact List.pairwise_cons.mpr (List.pairwise_cons.mp stacked.above)
  · intro other member
    rcases List.mem_cons.mp member with rfl | below
    · exact stacked.inside call List.mem_cons_self
    · exact stacked.inside other (List.mem_cons_of_mem _ below)

/-- The topmost call has called its parent. -/
private theorem pushed (stacked : Stacked chain (call :: outer) stages) {slot : Nat} {missed : Bool}
    (asks : call.stage = .resolving slot (.delegating missed)) {scope : Scope ι} {parent : Loader ι}
    (above : call.parent = .scoped scope parent) (fresh : stages scope.key = .entering) :
    Stacked chain (⟨scope, parent, .entering⟩ :: call :: outer) stages := by
  have own : (Loader.scoped scope parent).scopes <:+ call.parent.scopes := above ▸ List.suffix_rfl
  refine ⟨?_, ?_, ?_, ?_, ?_⟩
  · intro other member
    rcases List.mem_cons.mp member with rfl | below
    · exact fresh
    · exact stacked.here other below
  · intro key absent
    exact stacked.away key fun other member => absent other (List.mem_cons_of_mem _ member)
  · intro other member
    rcases List.mem_cons.mp member with rfl | below
    · exact ⟨slot, missed, asks⟩
    · exact stacked.waiting other below
  · refine List.pairwise_cons.mpr ⟨?_, stacked.above⟩
    intro lower member
    rcases List.mem_cons.mp member with rfl | below
    · exact own
    · have further := (List.pairwise_cons.mp stacked.above).1 lower below
      exact own.trans ((List.suffix_cons _ _).trans further)
  · intro other member
    rcases List.mem_cons.mp member with rfl | below
    · have inside := stacked.inside call List.mem_cons_self
      exact own.trans ((List.suffix_cons _ _).trans inside)
    · exact stacked.inside other below

/-- The topmost call is over. -/
theorem popped (stacked : Stacked chain (call :: outer) stages) {outcome : Option Outcome}
    (ended : call.stage = .finished outcome) : Stacked chain outer stages := by
  refine ⟨?_, ?_, ?_, (List.pairwise_cons.mp stacked.above).2, ?_⟩
  · intro other member
    exact stacked.here other (List.mem_cons_of_mem _ member)
  · intro key absent
    by_cases same : call.scope.key = key
    · subst same
      exact .inr ⟨outcome, (stacked.here call List.mem_cons_self).trans ended⟩
    · apply stacked.away key
      intro other member
      rcases List.mem_cons.mp member with rfl | below
      · exact same
      · exact absent other below
  · intro other member
    exact stacked.waiting other (List.mem_of_mem_tail member)
  · intro other member
    exact stacked.inside other (List.mem_cons_of_mem _ member)

end Stacked

namespace Ahead

variable {chain : Loader ι} {outer : List (Call ι)} {call : Call ι} {stages : Nat → Stage Inquiry}
  {stage : Stage Inquiry}

private theorem stepped (ahead : Ahead (call :: outer) stages) (outside : call.scope.key ∉ call.parent.keys)
    (further : call.stage.rank ≤ stage.rank) :
    Ahead ({ call with stage } :: outer) (Function.update stages call.scope.key stage) := by
  intro top first early key member
  cases first
  have different : key ≠ call.scope.key := by
    rintro rfl
    exact outside member
  rw [Function.update_of_ne different]
  exact ahead call rfl (Nat.le_trans further early) key member

private theorem pushed (ahead : Ahead (call :: outer) stages) {slot : Nat} {missed : Bool}
    (asks : call.stage = .resolving slot (.delegating missed)) {scope : Scope ι} {parent : Loader ι}
    (above : call.parent = .scoped scope parent) :
    stages scope.key = .entering ∧ Ahead (⟨scope, parent, .entering⟩ :: call :: outer) stages := by
  have fresh := ahead call rfl (by rw [asks]; exact Nat.le_refl 6)
  rw [above] at fresh
  constructor
  · exact fresh _ List.mem_cons_self
  · intro top first _ key member
    cases first
    exact fresh key (List.mem_cons_of_mem _ member)

end Ahead

/-- What the move of a thread is to the crowds of a chain: nothing, or a step of its call to a scope. -/
def StepsAt (chain : Loader ι) (name : UnitName) (memory next : Memory)
    (stages further : Nat → Stage Inquiry) : Prop :=
  ((∀ key, next.cache key = memory.cache key) ∧ further = stages) ∨
    ∃ scope ∈ chain.scopes, ∃ report stage cache,
      (stages scope.key).step? scope.procedure name (memory.cache scope.key) report =
        some (stage, cache) ∧
      (∀ key, next.cache key = if scope.key = key then cache else memory.cache key) ∧
      further = Function.update stages scope.key stage

namespace Thread

variable {chain : Loader ι} {thread after : Thread ι} {call moved : Call ι} {outer : List (Call ι)}
  {stages : Nat → Stage Inquiry} {name : UnitName} {memory middle next : Memory}
  {report : Option Report}

private theorem stepsAt_of_step? (stacked : Stacked chain (call :: outer) stages)
    (same : ∀ key, middle.cache key = memory.cache key)
    (taken : call.step? name middle report = some (moved, next)) :
    ∃ stage cache, call.stage.step? call.scope.procedure name (memory.cache call.scope.key) report =
        some (stage, cache) ∧ moved = { call with stage } ∧
      StepsAt chain name memory next stages (Function.update stages call.scope.key stage) := by
  obtain ⟨stage, cache, stepped, rfl, caches⟩ := Call.step_of_step? taken
  rw [same] at stepped
  refine ⟨stage, cache, stepped, rfl, .inr ⟨call.scope, ?_, report, stage, cache, ?_, ?_, rfl⟩⟩
  · exact (stacked.inside call List.mem_cons_self).subset List.mem_cons_self
  · rw [stacked.here call List.mem_cons_self]
    exact stepped
  · intro key
    rw [caches, same]

/-- A step of the topmost call. -/
private theorem top_moves (distinct : chain.keys.Nodup)
    (stacked : Stacked chain (call :: outer) stages) (ahead : Ahead (call :: outer) stages)
    (same : ∀ key, middle.cache key = memory.cache key)
    (taken : call.step? name middle report = some (moved, next)) :
    ∃ further, StepsAt chain name memory next stages further ∧
      Stacked chain (moved :: outer) further ∧ Ahead (moved :: outer) further := by
  obtain ⟨stage, cache, stepped, rfl, steps⟩ := stepsAt_of_step? stacked same taken
  have outside := Stacked.not_mem_above distinct (stacked.inside call List.mem_cons_self)
  have order := (Stage.step_of_step? stepped).follows.rank
  exact ⟨_, steps, stacked.stepped distinct stage, ahead.stepped outside order⟩

/-- A step of the call below the topmost one, which is over. -/
private theorem below_moves (distinct : chain.keys.Nodup) {top : Call ι}
    (stacked : Stacked chain (top :: call :: outer) stages) {outcome : Option Outcome}
    (ended : top.stage = .finished outcome)
    (taken : call.step? name memory (some (.ofParent outcome)) = some (moved, next)) :
    ∃ further, StepsAt chain name memory next stages further ∧
      Stacked chain (moved :: outer) further ∧ Ahead (moved :: outer) further := by
  have below := stacked.popped ended
  obtain ⟨stage, cache, stepped, rfl, steps⟩ := stepsAt_of_step? below (fun _ => rfl) taken
  refine ⟨_, steps, below.stepped distinct stage, ?_⟩
  obtain ⟨slot, missed, waits⟩ := stacked.waiting call List.mem_cons_self
  rw [waits] at stepped
  have late := Stage.rank_of_parent stepped
  intro first same early
  cases same
  exact absurd late (Nat.not_lt_of_le early)

private theorem advance_moves (distinct : chain.keys.Nodup)
    (stacked : Stacked chain thread.calls stages) (ahead : Ahead thread.calls stages)
    (taken : thread.advance? memory = some (after, next)) :
    after.name = thread.name ∧ ∃ further, StepsAt chain thread.name memory next stages further ∧
      Stacked chain after.calls further ∧ Ahead after.calls further := by
  obtain ⟨name, calls, result⟩ := thread
  unfold advance? at taken
  split at taken
  · cases taken
  · rename_i call outer same
    simp only at same
    subst same
    split at taken
    · rename_i outcome ended
      split at taken
      · cases taken
        refine ⟨rfl, stages, .inl ⟨fun _ => rfl, rfl⟩, stacked.popped ended, ?_⟩
        intro first member
        cases member
      · obtain ⟨⟨moved, memory⟩, stepped, reached⟩ := Option.map_eq_some_iff.mp taken
        cases reached
        exact ⟨rfl, below_moves distinct stacked ended stepped⟩
    · rename_i slot missed asks
      split at taken
      · obtain ⟨⟨moved, memory⟩, stepped, reached⟩ := Option.map_eq_some_iff.mp taken
        cases reached
        exact ⟨rfl, top_moves distinct stacked ahead (fun _ => rfl) stepped⟩
      · rename_i scope parent above
        cases taken
        obtain ⟨fresh, further⟩ := ahead.pushed asks above
        exact ⟨rfl, stages, .inl ⟨fun _ => rfl, rfl⟩, stacked.pushed asks above fresh, further⟩
    · obtain ⟨⟨moved, memory⟩, stepped, reached⟩ := Option.map_eq_some_iff.mp taken
      cases reached
      exact ⟨rfl, top_moves distinct stacked ahead (fun _ => rfl) stepped⟩

/-- A move of a thread is nothing to the crowds, or a step of its call to a scope. -/
private theorem move_steps (distinct : chain.keys.Nodup) (stacked : Stacked chain thread.calls stages)
    (ahead : Ahead thread.calls stages) {move : Move}
    (taken : thread.move? memory move = some (after, next)) :
    after.name = thread.name ∧ ∃ further, StepsAt chain thread.name memory next stages further ∧
      Stacked chain after.calls further ∧ Ahead after.calls further := by
  cases move with
  | advance => exact advance_moves distinct stacked ahead taken
  | search found =>
    obtain ⟨name, calls, result⟩ := thread
    cases calls with
    | nil => cases taken
    | cons call outer =>
      obtain ⟨⟨moved, memory⟩, searched, reached⟩ := Option.map_eq_some_iff.mp taken
      cases reached
      have same (key : Nat) : ((memory.noteSearch call.scope.key name).makeFound call.scope.key name
          found).2.cache key = memory.cache key := by
        rw [Memory.cache_makeFound, Memory.cache_noteSearch]
      exact ⟨rfl, top_moves distinct stacked ahead same searched⟩
  | breakOff =>
    obtain ⟨name, calls, result⟩ := thread
    cases calls with
    | nil => cases taken
    | cons call outer =>
      obtain ⟨⟨moved, memory⟩, stepped, reached⟩ := Option.map_eq_some_iff.mp taken
      cases reached
      exact ⟨rfl, top_moves distinct stacked ahead (fun _ => rfl) stepped⟩

end Thread

/-- Chains that belong together: a scope is known by its key, and in none of the chains does a scope
stand above itself. -/
structure Kindred (chains : List (Loader ι)) : Prop where
  distinct : ∀ chain ∈ chains, chain.keys.Nodup
  single : ∀ first ∈ chains, ∀ second ∈ chains, ∀ one ∈ first.scopes, ∀ other ∈ second.scopes,
    one.key = other.key → one = other

private theorem Kindred.singleton {chain : Loader ι} (distinct : chain.keys.Nodup) : Kindred [chain] := by
  refine ⟨fun only member => ?_, fun first memberOne second memberOther one inOne other inOther => ?_⟩
  · cases List.mem_singleton.mp member
    exact distinct
  · cases List.mem_singleton.mp memberOne
    cases List.mem_singleton.mp memberOther
    exact List.inj_on_of_nodup_map distinct inOne inOther

/-- The crowds of chains, by the keys of their scopes, show a traffic: each has the cache of its scope,
and every thread stands in it as its call to the scope does. -/
structure Shows (chains : List (Loader ι)) (traffic : Traffic ι) (crowds : Nat → Crowd Inquiry) :
    Prop where
  cache : ∀ key, (crowds key).cache = traffic.memory.cache key
  size : ∀ key, (crowds key).callers.length = traffic.threads.length
  threads : ∀ (number : Nat) thread, traffic.threads[number]? = some thread →
    ∃ chain ∈ chains, ∃ stages,
      (∀ key, (crowds key).callers[number]? = some ⟨thread.name, stages key⟩) ∧
      Stacked chain thread.calls stages ∧ Ahead thread.calls stages

namespace Traffic

variable {chains : List (Loader ι)} {chain : Loader ι} {traffic next last : Traffic ι}
  {crowds : Nat → Crowd Inquiry} {number : Nat} {move : Move}

/-- Moves of threads, one after another. -/
def run? (traffic : Traffic ι) : List (Nat × Move) → Option (Traffic ι)
  | [] => some traffic
  | (number, move) :: rest =>
    match traffic.step? number move with
    | none => none
    | some next => next.run? rest

/-- Threads that are about to load units, each by a loader of its own. -/
def assemble (memory : Memory) (requests : List (Loader ι × UnitName)) : Traffic ι :=
  ⟨memory, requests.map fun request => Thread.start request.1 request.2⟩

/-- Threads that are about to load units, each by a loader that stands some levels up a chain. -/
def gather (chain : Loader ι) (memory : Memory) (requests : List (Nat × UnitName)) : Traffic ι :=
  ⟨memory, requests.map fun request => Thread.start (chain.level request.1) request.2⟩

private theorem gather_eq (chain : Loader ι) (memory : Memory) (requests : List (Nat × UnitName)) :
    gather chain memory requests =
      assemble memory (requests.map fun request => (chain.level request.1, request.2)) := by
  rw [gather, assemble, List.map_map]
  rfl

private theorem shows_assemble (memory : Memory) (requests : List (Loader ι × UnitName))
    (inside : ∀ request ∈ requests, ∃ chain ∈ chains, request.1.scopes <:+ chain.scopes) :
    Shows chains (assemble memory requests) fun key =>
      ⟨memory.cache key, requests.map fun request => ⟨request.2, .entering⟩⟩ := by
  refine ⟨fun _ => rfl, fun _ => by simp [assemble], fun number thread present => ?_⟩
  rw [assemble, List.getElem?_map] at present
  obtain ⟨request, there, rfl⟩ := Option.map_eq_some_iff.mp present
  obtain ⟨chain, member, suffix⟩ := inside request (List.mem_of_getElem? there)
  refine ⟨chain, member, fun _ => .entering, fun key => ?_, .start suffix request.2,
    fun _ _ _ _ _ => rfl⟩
  rw [List.getElem?_map, there, Option.map_some]
  cases request.1 <;> rfl

section

variable {thread after : Thread ι} {memory : Memory} {stages : Nat → Stage Inquiry}

/-- The crowds stay as they are if the move of a thread is nothing to them. -/
private theorem shows_of_still (shows : Shows chains traffic crowds) (among : chain ∈ chains)
    (caches : ∀ key, memory.cache key = traffic.memory.cache key)
    (callers : ∀ key, (crowds key).callers[number]? = some ⟨after.name, stages key⟩)
    (stacked : Stacked chain after.calls stages) (ahead : Ahead after.calls stages) :
    Shows chains ⟨memory, traffic.threads.set number after⟩ crowds := by
  refine ⟨fun key => (shows.cache key).trans (caches key).symm, fun key => ?_,
    fun other thread present => ?_⟩
  · rw [shows.size, List.length_set]
  · by_cases same : number = other
    · subst same
      rw [List.getElem?_set_self'] at present
      obtain ⟨_, -, rfl⟩ := Option.map_eq_some_iff.mp present
      exact ⟨chain, among, stages, callers, stacked, ahead⟩
    · rw [List.getElem?_set_ne same] at present
      exact shows.threads other thread present

/-- One crowd takes a step if the thread's call to its scope does. -/
private theorem shows_of_step (shows : Shows chains traffic crowds) (among : chain ∈ chains)
    {key : Nat} {stage : Stage Inquiry} {cache : Cache}
    (caches : ∀ other, memory.cache other = if key = other then cache else traffic.memory.cache other)
    (callers : ∀ other, (crowds other).callers[number]? = some ⟨after.name, stages other⟩)
    (stacked : Stacked chain after.calls (Function.update stages key stage))
    (ahead : Ahead after.calls (Function.update stages key stage)) :
    Shows chains ⟨memory, traffic.threads.set number after⟩ (Function.update crowds key
      ((crowds key).moved number ⟨after.name, stages key⟩ stage cache)) := by
  constructor
  · intro other
    rw [caches]
    by_cases same : key = other
    · subst same
      rw [Function.update_self, if_pos rfl]
      rfl
    · rw [Function.update_of_ne (Ne.symm same), if_neg same]
      exact shows.cache other
  · intro other
    rw [List.length_set, ← shows.size other]
    by_cases same : other = key
    · subst same
      rw [Function.update_self, Crowd.moved, List.length_set]
    · rw [Function.update_of_ne same]
  · intro other thread present
    by_cases same : number = other
    · subst same
      rw [List.getElem?_set_self'] at present
      obtain ⟨_, -, rfl⟩ := Option.map_eq_some_iff.mp present
      refine ⟨chain, among, _, fun here => ?_, stacked, ahead⟩
      by_cases own : here = key
      · subst own
        rw [Function.update_self, Function.update_self, Crowd.moved, List.getElem?_set_self', callers]
        rfl
      · rw [Function.update_of_ne own, Function.update_of_ne own]
        exact callers here
    · rw [List.getElem?_set_ne same] at present
      obtain ⟨own, member, stages, stands, stacked, ahead⟩ := shows.threads other thread present
      refine ⟨own, member, stages, fun here => ?_, stacked, ahead⟩
      by_cases own : here = key
      · subst own
        rw [Function.update_self, Crowd.moved, List.getElem?_set_ne same]
        exact stands here
      · rw [Function.update_of_ne own]
        exact stands here

end

/-- A move of a thread is nothing to the crowd of a scope, or a step of the thread's call to it. -/
private theorem shows_step (kindred : Kindred chains) (shows : Shows chains traffic crowds)
    (taken : traffic.step? number move = some next) :
    ∃ further, Shows chains next further ∧ ∀ chain ∈ chains, ∀ scope ∈ chain.scopes,
      further scope.key = crowds scope.key ∨ ∃ report entry,
        (crowds scope.key).step? scope.procedure number report =
          some (further scope.key, entry) := by
  obtain ⟨thread, present, rest⟩ := Option.bind_eq_some_iff.mp taken
  obtain ⟨⟨after, memory⟩, moved, reached⟩ := Option.bind_eq_some_iff.mp rest
  cases reached
  obtain ⟨chain, among, stages, callers, stacked, ahead⟩ := shows.threads number thread present
  obtain ⟨named, further, steps, stackedAfter, aheadAfter⟩ :=
    Thread.move_steps (kindred.distinct chain among) stacked ahead moved
  rcases steps with ⟨caches, rfl⟩ | ⟨scope, member, report, stage, cache, stepped, caches, rfl⟩
  · refine ⟨crowds, ?_, fun _ _ _ _ => .inl rfl⟩
    exact shows_of_still shows among caches (named ▸ callers) stackedAfter aheadAfter
  · refine ⟨_, shows_of_step shows among caches (named ▸ callers) stackedAfter aheadAfter, ?_⟩
    intro second amongToo other inside
    by_cases same : other.key = scope.key
    · obtain rfl := kindred.single second amongToo chain among other inside scope member same
      refine .inr ⟨report, ⟨number, thread.name, stages other.key, stage⟩, ?_⟩
      rw [Function.update_self, Crowd.step?, callers, named]
      simp only [shows.cache, stepped, Option.map_some]
    · rw [Function.update_of_ne same]
      exact .inl rfl

private theorem shows_run (kindred : Kindred chains) (shows : Shows chains traffic crowds)
    {moves : List (Nat × Move)} (run : traffic.run? moves = some last) :
    ∃ further, Shows chains last further ∧ ∀ chain ∈ chains, ∀ scope ∈ chain.scopes,
      ∃ schedule log,
        (crowds scope.key).run? scope.procedure schedule = some (further scope.key, log) := by
  induction moves generalizing traffic crowds with
  | nil =>
    cases run
    exact ⟨crowds, shows, fun _ _ _ _ => ⟨[], [], rfl⟩⟩
  | cons first rest ih =>
    obtain ⟨number, move⟩ := first
    simp only [run?] at run
    split at run
    · cases run
    · rename_i next taken
      obtain ⟨middle, showsNext, steps⟩ := shows_step kindred shows taken
      obtain ⟨further, showsLast, runs⟩ := ih showsNext run
      refine ⟨further, showsLast, fun chain among scope member => ?_⟩
      obtain ⟨schedule, log, ran⟩ := runs chain among scope member
      rcases steps chain among scope member with same | ⟨report, entry, stepped⟩
      · exact ⟨schedule, log, same ▸ ran⟩
      · exact ⟨(number, report) :: schedule, entry :: log, by simp [Crowd.run?, stepped, ran]⟩

/-- What threads that load through chains have come to is shown by the crowds of the scopes, and each
of these crowds is what a run from the start has led to. -/
theorem shows_of_run (kindred : Kindred chains) (requests : List (Loader ι × UnitName))
    (inside : ∀ request ∈ requests, ∃ chain ∈ chains, request.1.scopes <:+ chain.scopes)
    {moves : List (Nat × Move)} (run : (assemble Table.empty requests).run? moves = some last) :
    ∃ crowds, Shows chains last crowds ∧ ∀ chain ∈ chains, ∀ scope ∈ chain.scopes,
      ∃ schedule log, (Crowd.gather (requests.map Prod.snd)).run? scope.procedure schedule =
        some (crowds scope.key, log) := by
  obtain ⟨crowds, shows, runs⟩ :=
    shows_run kindred (shows_assemble Table.empty requests inside) run
  refine ⟨crowds, shows, fun chain among scope member => ?_⟩
  obtain ⟨schedule, log, ran⟩ := runs chain among scope member
  refine ⟨schedule, log, ?_⟩
  rw [← ran, Crowd.gather, List.map_map]
  rfl

/-- Whatever threads load through kindred chains and in whatever order they move: at each scope, what
they have come to is what a run of a crowd has led to, with the cache of the scope and with callers who
stand as the calls of the threads to the scope do. -/
theorem crowd_of_assembled (kindred : Kindred chains) (requests : List (Loader ι × UnitName))
    (inside : ∀ request ∈ requests, ∃ chain ∈ chains, request.1.scopes <:+ chain.scopes)
    (moves : List (Nat × Move)) (run : (assemble Table.empty requests).run? moves = some last)
    (among : chain ∈ chains) (scope : Scope ι) (member : scope ∈ chain.scopes) :
    ∃ schedule crowd log,
      (Crowd.gather (requests.map Prod.snd)).run? scope.procedure schedule = some (crowd, log) ∧
      crowd.cache = last.memory.cache scope.key ∧
      ∀ (number : Nat) thread, last.threads[number]? = some thread →
        ∃ stage, crowd.callers[number]? = some ⟨thread.name, stage⟩ ∧
          (∀ call ∈ thread.calls, call.scope.key = scope.key → stage = call.stage) ∧
          ((∀ call ∈ thread.calls, call.scope.key ≠ scope.key) →
            stage = .entering ∨ ∃ outcome, stage = .finished outcome) := by
  obtain ⟨crowds, shows, runs⟩ := shows_of_run kindred requests inside run
  obtain ⟨schedule, log, ran⟩ := runs chain among scope member
  refine ⟨schedule, crowds scope.key, log, ran, shows.cache scope.key, ?_⟩
  intro number thread present
  obtain ⟨own, -, stages, stands, stacked, -⟩ := shows.threads number thread present
  refine ⟨stages scope.key, stands scope.key, ?_, stacked.away scope.key⟩
  intro call inside same
  rw [← same]
  exact stacked.here call inside

/-- The same for threads that load through the levels of one chain. -/
private theorem crowd_of_run (chain : Loader ι) (distinct : chain.keys.Nodup)
    (requests : List (Nat × UnitName)) (moves : List (Nat × Move)) (last : Traffic ι)
    (run : (gather chain Table.empty requests).run? moves = some last) (scope : Scope ι)
    (member : scope ∈ chain.scopes) :
    ∃ schedule crowd log,
      (Crowd.gather (requests.map Prod.snd)).run? scope.procedure schedule = some (crowd, log) ∧
      crowd.cache = last.memory.cache scope.key ∧
      ∀ (number : Nat) thread, last.threads[number]? = some thread →
        ∃ stage, crowd.callers[number]? = some ⟨thread.name, stage⟩ ∧
          (∀ call ∈ thread.calls, call.scope.key = scope.key → stage = call.stage) ∧
          ((∀ call ∈ thread.calls, call.scope.key ≠ scope.key) →
            stage = .entering ∨ ∃ outcome, stage = .finished outcome) := by
  rw [gather_eq] at run
  have inside (request) (there : request ∈ requests.map fun request =>
      (chain.level request.1, request.2)) : ∃ own ∈ [chain], request.1.scopes <:+ own.scopes := by
    obtain ⟨asked, -, rfl⟩ := List.mem_map.mp there
    exact ⟨chain, List.mem_singleton_self chain, chain.level_suffix asked.1⟩
  have shown := crowd_of_assembled (.singleton distinct) _ inside moves run
    (List.mem_singleton_self chain) scope member
  rwa [List.map_map] at shown

/-- At no time do two threads resolve the same name for one scope. -/
theorem resolves_alone (chain : Loader ι) (distinct : chain.keys.Nodup)
    (requests : List (Nat × UnitName)) (moves : List (Nat × Move)) (last : Traffic ι)
    (run : (gather chain Table.empty requests).run? moves = some last) (scope : Scope ι)
    (member : scope ∈ chain.scopes) {first second slot further : Nat} {one other : Thread ι}
    (presentOne : last.threads[first]? = some one) (presentOther : last.threads[second]? = some other)
    (same : one.name = other.name) {call again : Call ι} (inOne : call ∈ one.calls)
    (inOther : again ∈ other.calls) (atScope : call.scope.key = scope.key)
    (atScopeToo : again.scope.key = scope.key) (active : call.stage.active? = some slot)
    (activeToo : again.stage.active? = some further) : first = second := by
  obtain ⟨schedule, crowd, log, ran, -, stands⟩ :=
    crowd_of_run chain distinct requests moves last run scope member
  obtain ⟨stage, standsOne, hereOne, -⟩ := stands first one presentOne
  obtain ⟨stageToo, standsOther, hereOther, -⟩ := stands second other presentOther
  rw [← hereOne call inOne atScope] at active
  rw [← hereOther again inOther atScopeToo] at activeToo
  have oneSlot := (Crowd.reached_of_run ran).orderly.oneSlot
  exact (oneSlot first second _ _ standsOne standsOther same).2 slot further active activeToo

end Traffic

end ScopeChain
