import ScopeChain.Proofs.Crowd.Traffic

/-! # Who waits for whom

In a tree of loaders, threads that load at the same time share the scopes above them. A thread that
waits for the lock of a slot waits for one that loads the same name and has the lock in a call to the
same scope (`Traffic.Founded.owner_of_held`). If that thread waits in turn, then in a call further up
the tree, so that not all threads can wait (`Traffic.Founded.exists_unblocked`): the rank of a lock is
how many scopes stand above its own, and who has a lock waits only for locks of lower rank.
-/

namespace ScopeChain

variable {ι : Type}

namespace Loader

/-- The scopes of a chain, each with the loader behind it. -/
def fronts : Loader ι → List (Scope ι × Loader ι)
  | .root _ => []
  | .scoped scope parent => (scope, parent) :: parent.fronts

/-- The scopes of a tree, or of several: a scope is known by its key, and so is the loader behind
it. -/
def Grove (loaders : List (Loader ι)) : Prop :=
  ∀ first ∈ loaders, ∀ second ∈ loaders, ∀ one ∈ first.fronts, ∀ other ∈ second.fronts,
    one.1.key = other.1.key → one = other

theorem map_fst_fronts (loader : Loader ι) : loader.fronts.map Prod.fst = loader.scopes := by
  induction loader with
  | root bootstrap => rfl
  | «scoped» scope parent ih => simp only [fronts, scopes, List.map_cons, ih]

/-- Behind every scope of a chain stand fewer scopes than the chain has. -/
private theorem depth_lt_of_mem_fronts {loader : Loader ι} {front : Scope ι × Loader ι}
    (member : front ∈ loader.fronts) : front.2.depth < loader.depth := by
  induction loader with
  | root bootstrap => cases member
  | «scoped» scope parent ih =>
    rcases List.mem_cons.mp member with rfl | above
    · exact Nat.lt_succ_self _
    · exact Nat.lt_succ_of_lt (ih above)

private theorem mem_fronts_of_suffix {loader : Loader ι} {scope : Scope ι} {above : List (Scope ι)}
    (suffix : scope :: above <:+ loader.scopes) :
    ∃ parent : Loader ι, (scope, parent) ∈ loader.fronts ∧ parent.scopes = above := by
  induction loader with
  | root bootstrap => exact absurd (List.suffix_nil.mp suffix) (List.cons_ne_nil _ _)
  | «scoped» first parent ih =>
    rcases List.suffix_cons_iff.mp suffix with same | further
    · obtain ⟨rfl, rfl⟩ := List.cons.inj same
      exact ⟨parent, List.mem_cons_self, rfl⟩
    · obtain ⟨behind, member, same⟩ := ih further
      exact ⟨behind, List.mem_cons_of_mem _ member, same⟩

variable {loaders : List (Loader ι)}

/-- In a tree no scope stands above itself. -/
private theorem Grove.distinct (grove : Grove loaders) {loader : Loader ι} (member : loader ∈ loaders) :
    loader.keys.Nodup := by
  have alone := grove loader member loader member
  clear grove member
  induction loader with
  | root bootstrap => exact List.nodup_nil
  | «scoped» scope parent ih =>
    refine List.nodup_cons.mpr ⟨?_, ?_⟩
    · intro above
      obtain ⟨again, inside, same⟩ := List.mem_map.mp above
      rw [← map_fst_fronts] at inside
      obtain ⟨front, there, rfl⟩ := List.mem_map.mp inside
      have equal := alone front (List.mem_cons_of_mem _ there) _ List.mem_cons_self same
      rw [equal] at there
      exact Nat.lt_irrefl _ (depth_lt_of_mem_fronts there)
    · refine ih fun one inOne other inOther => ?_
      exact alone one (List.mem_cons_of_mem _ inOne) other (List.mem_cons_of_mem _ inOther)

private theorem Grove.kindred (grove : Grove loaders) : Kindred loaders := by
  refine ⟨fun loader member => grove.distinct member, ?_⟩
  intro first memberOne second memberOther one inOne other inOther same
  rw [← map_fst_fronts] at inOne inOther
  obtain ⟨front, there, rfl⟩ := List.mem_map.mp inOne
  obtain ⟨further, thereToo, rfl⟩ := List.mem_map.mp inOther
  rw [grove first memberOne second memberOther front there further thereToo same]

/-- Above one scope of a tree always stand the same scopes. -/
private theorem Grove.above_eq (grove : Grove loaders) {first second : Loader ι} (one : first ∈ loaders)
    (other : second ∈ loaders) {scope again : Scope ι} {above further : List (Scope ι)}
    (suffix : scope :: above <:+ first.scopes) (suffixToo : again :: further <:+ second.scopes)
    (same : scope.key = again.key) : above = further := by
  obtain ⟨parent, inFirst, rfl⟩ := mem_fronts_of_suffix suffix
  obtain ⟨parentToo, inSecond, rfl⟩ := mem_fronts_of_suffix suffixToo
  have equal := grove first one second other _ inFirst _ inSecond same
  exact congrArg (fun front => front.2.scopes) equal

end Loader

/-- Whether a call waits for the lock of a slot that someone has. -/
def Call.blocked (call : Call ι) (memory : Memory) : Bool :=
  match call.stage with
  | .waiting slot _ => ((memory.cache call.scope.key).slot slot).latest.held
  | _ => false

/-- A call without outcome that is neither blocked nor in a resolution takes a step by itself. -/
private theorem Call.step?_isSome {call : Call ι} {name : UnitName} {memory : Memory}
    (free : call.blocked memory = false)
    (moving : ∀ slot task, call.stage ≠ .resolving slot task)
    (unfinished : ∀ outcome, call.stage ≠ .finished outcome) :
    (call.step? name memory none).isSome := by
  obtain ⟨scope, parent, stage⟩ := call
  rw [step?, Option.isSome_map, Stage.step?]
  cases stage with
  | resolving slot task => exact absurd rfl (moving slot task)
  | finished outcome => exact absurd rfl (unfinished outcome)
  | waiting slot arrived =>
    have unheld : ((memory.cache scope.key).slot slot).latest.held = false := free
    simp only [Stage.advance?, unheld]
    rfl
  | entering | checking | comparing | releasing => simp only [Stage.advance?]; split <;> rfl
  | _ => rfl

/-- A call that waits for its parent goes on upon what the parent has come to. -/
private theorem Call.step?_ofParent {call : Call ι} {slot : Nat} {missed : Bool}
    (asks : call.stage = .resolving slot (.delegating missed)) (name : UnitName) (memory : Memory)
    (outcome : Option Outcome) :
    (call.step? name memory (some (.ofParent outcome))).isSome := by
  rw [step?, Option.isSome_map, asks]
  cases outcome <;> rfl

/-- A search that is over lets its call go on. -/
private theorem Call.afterSearch?_isSome {call : Call ι} {slot : Nat}
    (searches : call.stage = .resolving slot .searching) (name : UnitName) (memory : Memory)
    (found : Except LoadError (Option UnitMatch)) : (call.afterSearch? name memory found).isSome := by
  obtain ⟨scope, parent, stage⟩ := call
  cases searches
  rcases found with error | found
  · rfl
  · cases found <;> rfl

/-- A thread goes on if its topmost call is not blocked and those below wait for their parents. -/
theorem Thread.move?_isSome (find : ι → UnitName → Except LoadError (Option UnitMatch))
    {thread : Thread ι} {memory : Memory} {call : Call ι} {outer : List (Call ι)}
    (top : thread.calls = call :: outer) (free : call.blocked memory = false)
    (waiting : ∀ call ∈ outer, ∃ slot missed, call.stage = .resolving slot (.delegating missed)) :
    (thread.move? memory (thread.nextMove find)).isSome := by
  obtain ⟨name, calls, result⟩ := thread
  cases top
  obtain ⟨scope, parent, stage⟩ := call
  cases stage with
  | resolving slot task =>
    cases task with
    | searching =>
      simp only [nextMove, searching?, move?, Option.isSome_map]
      exact Call.afterSearch?_isSome rfl ..
    | delegating missed =>
      simp only [nextMove, searching?, move?, advance?]
      cases parent with
      | root bootstrap =>
        rw [Option.isSome_map]
        exact Call.step?_ofParent rfl name memory (some _)
      | «scoped» above further => rfl
  | finished outcome =>
    simp only [nextMove, searching?, move?, advance?]
    cases outer with
    | nil => rfl
    | cons caller below =>
      obtain ⟨slot, missed, asks⟩ := waiting caller List.mem_cons_self
      rw [Option.isSome_map]
      exact Call.step?_ofParent asks name memory outcome
  | _ =>
    simp only [nextMove, searching?, move?, advance?, Option.isSome_map]
    exact Call.step?_isSome free (fun _ _ => nofun) fun _ => nofun

namespace Traffic

variable {loaders : List (Loader ι)} {traffic last : Traffic ι} {number : Nat} {thread : Thread ι}
  {call : Call ι} {outer : List (Call ι)}

/-- A traffic that threads have come to who load through a tree: it is shown by crowds at the scopes,
each of which has been reached from the start. -/
def Founded (loaders : List (Loader ι)) (traffic : Traffic ι) : Prop :=
  ∃ crowds, Shows loaders traffic crowds ∧ ∀ loader ∈ loaders, ∀ scope ∈ loader.scopes,
    ∃ log, Crowd.Reached (crowds scope.key) log

theorem founded_of_run (grove : Loader.Grove loaders) (requests : List (Loader ι × UnitName))
    (listed : ∀ request ∈ requests, request.1 ∈ loaders) {moves : List (Nat × Move)}
    (run : (assemble Table.empty requests).run? moves = some last) : Founded loaders last := by
  obtain ⟨crowds, shows, runs⟩ := shows_of_run grove.kindred requests
    (fun request member => ⟨request.1, listed request member, List.suffix_rfl⟩) run
  refine ⟨crowds, shows, fun loader member scope inside => ?_⟩
  obtain ⟨schedule, log, ran⟩ := runs loader member scope inside
  exact ⟨log, Crowd.reached_of_run ran⟩

/-- A thread that has the lock of a slot in one of its calls to a scope. -/
def HasLock (traffic : Traffic ι) (number key slot : Nat) : Prop :=
  ∃ thread, traffic.threads[number]? = some thread ∧
    ∃ call ∈ thread.calls, call.scope.key = key ∧ call.stage.locked? = some slot

/-- Whoever has the lock of a slot that a thread waits for loads the same name, and if the lock is
held, someone has it. -/
theorem Founded.owner_of_held (founded : Founded loaders traffic)
    (present : traffic.threads[number]? = some thread) (member : call ∈ thread.calls)
    {slot arrived : Nat} (waits : call.stage = .waiting slot arrived) :
    (∀ other, HasLock traffic other call.scope.key slot → other ≠ number ∧
      ∃ owner, traffic.threads[other]? = some owner ∧ owner.name = thread.name) ∧
    (((traffic.memory.cache call.scope.key).slot slot).latest.held = true →
      ∃ other, HasLock traffic other call.scope.key slot) := by
  obtain ⟨crowds, shows, reached⟩ := founded
  obtain ⟨loader, among, stages, stands, stacked, -⟩ := shows.threads number thread present
  have inside := (stacked.inside call member).subset List.mem_cons_self
  obtain ⟨log, reached⟩ := reached loader among call.scope inside
  have here := (stacked.here call member).trans waits
  constructor
  · rintro other ⟨owner, presentToo, again, memberToo, same, locked⟩
    obtain ⟨_, -, stagesToo, standsToo, stackedToo, -⟩ := shows.threads other owner presentToo
    have hereToo := stackedToo.here again memberToo
    rw [same] at hereToo
    constructor
    · rintro rfl
      have equal := (stands call.scope.key).symm.trans (standsToo call.scope.key)
      simp only [Option.some.injEq, Caller.mk.injEq, here, hereToo] at equal
      rw [← equal.2] at locked
      cases locked
    · -- a slot belongs to one name, and both callers hold on to it
      obtain ⟨owns, owned⟩ := reached.owned
      have mine := owned.held number _ slot (stands call.scope.key) (by rw [here]; rfl)
      have theirs := owned.held other _ slot (standsToo call.scope.key)
        (by rw [hereToo]; exact Stage.held?_of_used? (Stage.used?_of_locked? locked))
      exact ⟨owner, presentToo, Option.some.inj (theirs.symm.trans mine)⟩
  · intro held
    have counted := reached.orderly.locks slot
    rw [shows.cache, held] at counted
    obtain ⟨caller, memberToo, locked⟩ := List.countP_pos_iff.mp (Nat.lt_of_lt_of_eq Nat.one_pos counted)
    obtain ⟨other, there⟩ := List.mem_iff_getElem?.mp memberToo
    obtain ⟨owner, presentToo⟩ : ∃ owner, traffic.threads[other]? = some owner := by
      have bound := (List.getElem?_eq_some_iff.mp there).1
      rw [shows.size] at bound
      exact ⟨_, List.getElem?_eq_getElem bound⟩
    obtain ⟨_, -, stagesToo, standsToo, stackedToo, -⟩ := shows.threads other owner presentToo
    rw [standsToo] at there
    cases there
    replace locked : (stagesToo call.scope.key).locked? = some slot := by simpa using locked
    -- whoever has a lock is in a call to the scope
    by_contra nobody
    have outside (again) (inCalls : again ∈ owner.calls) : again.scope.key ≠ call.scope.key := by
      intro same
      rw [← same, stackedToo.here again inCalls] at locked
      exact nobody ⟨other, owner, presentToo, again, inCalls, same, locked⟩
    rcases stackedToo.away _ outside with begun | ⟨outcome, ended⟩
    · rw [begun] at locked
      cases locked
    · rw [ended] at locked
      cases locked

/-- Only the topmost call of a thread moves; those below wait for their parents. -/
theorem Founded.below_waits (founded : Founded loaders traffic)
    (present : traffic.threads[number]? = some thread) (top : thread.calls = call :: outer) :
    ∀ lower ∈ outer, ∃ slot missed, lower.stage = .resolving slot (.delegating missed) := by
  obtain ⟨crowds, shows, -⟩ := founded
  obtain ⟨loader, -, stages, -, stacked, -⟩ := shows.threads number thread present
  rw [top] at stacked
  exact stacked.waiting

/-- As long as a thread is in a call, there is one whose topmost call does not wait for a lock that
is held. -/
theorem Founded.exists_unblocked (grove : Loader.Grove loaders) (founded : Founded loaders traffic)
    (present : traffic.threads[number]? = some thread) (top : thread.calls = call :: outer) :
    ∃ (other : Nat) (one : Thread ι) (first : Call ι) (below : List (Call ι)),
      traffic.threads[other]? = some one ∧ one.calls = first :: below ∧
        first.blocked traffic.memory = false := by
  -- whoever has the lock that a call waits for is in a call further up, or can go on
  induction rank : call.parent.scopes.length using Nat.strongRecOn
    generalizing number thread call outer with
  | ind above ih =>
    cases free : call.blocked traffic.memory with
    | false => exact ⟨number, thread, call, outer, present, top, free⟩
    | true =>
      unfold Call.blocked at free
      split at free
      · rename_i slot arrived waits
        have member : call ∈ thread.calls := top ▸ List.mem_cons_self
        obtain ⟨other, owner, presentToo, again, inCalls, same, locked⟩ :=
          (founded.owner_of_held present member waits).2 free
        obtain ⟨first, below, topToo⟩ := List.exists_cons_of_ne_nil (List.ne_nil_of_mem inCalls)
        rw [topToo] at inCalls
        rcases List.mem_cons.mp inCalls with rfl | lower
        · refine ⟨other, owner, again, below, presentToo, topToo, ?_⟩
          unfold Call.blocked
          split
          · rename_i still
            rw [still] at locked
            cases locked
          · rfl
        · refine ih first.parent.scopes.length ?_ presentToo topToo rfl
          obtain ⟨crowds, shows, -⟩ := founded
          obtain ⟨one, amongOne, _, -, stacked, -⟩ := shows.threads number thread present
          obtain ⟨two, amongTwo, _, -, stackedToo, -⟩ := shows.threads other owner presentToo
          rw [topToo] at stackedToo
          have equal := grove.above_eq amongTwo amongOne
            (stackedToo.inside again (List.mem_cons_of_mem _ lower)) (stacked.inside call member) same
          have higher := ((List.pairwise_cons.mp stackedToo.above).1 again lower).length_le
          rw [equal] at higher
          rw [← rank]
          exact higher
      · cases free

end Traffic

end ScopeChain
