import ScopeChain.Loader.Gates
import ScopeChain.Proofs.Crowd.Waiting

/-! # Tables behind locks

With locks around the tables, threads come to the same traffics as without them
(`Gated.reached_iff`); the locks only keep others away from a table that is in use
(`Gated.Kept.exclusive`). Nobody waits for anything while having the lock of a table, so the locks of
tables add nothing to the rank of the slots' locks: in a tree of loaders, somebody can always go on,
also if those who would read a table let those go first who would change it
(`Gated.never_stuck`).
-/

namespace ScopeChain

variable {ι : Type}

/-- A move of a thread leaves the others where they are. -/
private theorem Traffic.threads_of_step? {traffic next : Traffic ι} {number : Nat} {move : Move}
    (taken : traffic.step? number move = some next) :
    (∃ thread, next.threads[number]? = some thread) ∧
      ∀ other, other ≠ number → next.threads[other]? = traffic.threads[other]? := by
  obtain ⟨thread, present, rest⟩ := Option.bind_eq_some_iff.mp taken
  obtain ⟨⟨after, memory⟩, -, reached⟩ := Option.bind_eq_some_iff.mp rest
  cases reached
  refine ⟨⟨after, ?_⟩, fun other different => List.getElem?_set_ne different.symm⟩
  exact List.getElem?_set_self (List.getElem?_eq_some_iff.mp present).1

namespace Gated

variable {gated next last : Gated ι} {number other : Nat} {move : Move}
  {moves : List (Nat × Move)} {grip : Grip} {traffic after : Traffic ι}

/-- The lock of a table can be taken unless someone has it, be it that both only read. -/
theorem admits_iff {key : Nat} {access : Access} : gated.admits key access = true ↔
    ∀ other grip, gated.grips.get? other = some grip → grip.key = key →
      access = .read ∧ grip.access = .read := by
  simp only [admits, List.all_eq_true, Prod.forall, Table.mem_rows_iff, Bool.or_eq_true,
    decide_eq_true_eq, Bool.and_eq_true, ne_eq, or_iff_not_imp_left, not_not]

inductive Step (gated : Gated ι) (number : Nat) (move : Move) : Gated ι → Prop where
  | lock {thread : Thread ι} {grip : Grip} (free : gated.grips.get? number = none)
      (present : gated.traffic.threads[number]? = some thread) (wants : thread.wanted? = some grip)
      (admitted : gated.admits grip.key grip.access = true) :
      Step gated number move { gated with grips := gated.grips.put number grip }
  | use {grip : Grip} {traffic : Traffic ι} (taken : gated.grips.get? number = some grip)
      (unused : grip.used = false) (moved : gated.traffic.step? number move = some traffic) :
      Step gated number move ⟨traffic, gated.grips.put number { grip with used := true }⟩
  | unlock {grip : Grip} (taken : gated.grips.get? number = some grip) (used : grip.used = true) :
      Step gated number move { gated with grips := gated.grips.erase number }
  | pass {traffic : Traffic ι} (free : gated.grips.get? number = none)
      (wants : gated.traffic.threads[number]?.bind Thread.wanted? = none)
      (moved : gated.traffic.step? number move = some traffic) :
      Step gated number move { gated with traffic }

theorem step?_eq_some_iff : gated.step? number move = some next ↔ Step gated number move next := by
  constructor
  · intro taken
    unfold step? at taken
    split at taken
    · rename_i grip has
      split at taken
      · cases taken
        exact .unlock has ‹_›
      · obtain ⟨traffic, moved, rfl⟩ := Option.map_eq_some_iff.mp taken
        exact .use has (Bool.eq_false_iff.mpr ‹_›) moved
    · rename_i free
      split at taken
      · rename_i grip wanted
        obtain ⟨thread, present, wants⟩ := Option.bind_eq_some_iff.mp wanted
        split at taken
        · cases taken
          exact .lock free present wants ‹_›
        · cases taken
      · rename_i wants
        obtain ⟨traffic, moved, rfl⟩ := Option.map_eq_some_iff.mp taken
        exact .pass free wants moved
  · intro step
    cases step with
    | lock free present wants admitted => simp [step?, free, present, wants, admitted]
    | use taken unused moved => simp [step?, taken, unused, moved]
    | unlock taken used => simp [step?, taken, used]
    | pass free wants moved => simp [step?, free, wants, moved]

/-- The locks of tables only keep threads waiting: what they have come to they can come to without. -/
theorem traffic_run_of_run (run : gated.run? moves = some last) :
    ∃ further, gated.traffic.run? further = some last.traffic := by
  induction moves generalizing gated with
  | nil =>
    cases run
    exact ⟨[], rfl⟩
  | cons first rest ih =>
    obtain ⟨next, taken, ran⟩ := Option.bind_eq_some_iff.mp run
    obtain ⟨further, reached⟩ := ih ran
    cases step?_eq_some_iff.mp taken with
    | lock | unlock => exact ⟨further, reached⟩
    | use taken unused moved => exact ⟨first :: further, by simp only [Traffic.run?, moved, reached]⟩
    | pass free wants moved => exact ⟨first :: further, by simp only [Traffic.run?, moved, reached]⟩

private theorem erase_put_put (number : Nat) (first second : Grip) :
    ((Table.empty.put number first).put number second).erase number = Table.empty := by
  simp [Table.put, Table.erase, Table.empty]

/-- A move that uses a table can be made by taking the lock, using the table and letting go. -/
private theorem run_of_step (taken : traffic.step? number move = some after) :
    ∃ moves, (Gated.mk traffic Table.empty).run? moves = some ⟨after, Table.empty⟩ := by
  cases wants : traffic.threads[number]?.bind Thread.wanted? with
  | none =>
    refine ⟨[(number, move)], ?_⟩
    simp [run?, step?, wants, taken]
  | some grip =>
    obtain ⟨thread, -, wanted⟩ := Option.bind_eq_some_iff.mp wants
    have unused : grip.used = false := by
      unfold Thread.wanted? at wanted
      split at wanted
      · cases wanted
      · obtain ⟨access, -, rfl⟩ := Option.map_eq_some_iff.mp wanted
        rfl
    refine ⟨[(number, move), (number, move), (number, move)], ?_⟩
    simp [run?, step?, wants, taken, admits_iff, unused, erase_put_put]

private theorem run?_append {first second : List (Nat × Move)} :
    gated.run? (first ++ second) = (gated.run? first).bind fun middle => middle.run? second := by
  induction first generalizing gated with
  | nil => rfl
  | cons move rest ih => simp only [List.cons_append, run?, Option.bind_assoc, ih]

/-- Threads come to the same traffics with the locks of tables as without them. -/
theorem reached_iff : (∃ moves grips, (Gated.mk traffic Table.empty).run? moves = some ⟨after, grips⟩) ↔
    ∃ moves, traffic.run? moves = some after := by
  constructor
  · rintro ⟨moves, grips, run⟩
    exact traffic_run_of_run run
  · rintro ⟨moves, run⟩
    suffices reached : ∃ moves,
        (Gated.mk traffic Table.empty).run? moves = some ⟨after, Table.empty⟩ by
      obtain ⟨moves, run⟩ := reached
      exact ⟨moves, Table.empty, run⟩
    induction moves generalizing traffic with
    | nil =>
      cases run
      exact ⟨[], rfl⟩
    | cons first rest ih =>
      simp only [Traffic.run?] at run
      split at run
      · cases run
      · rename_i middle taken
        obtain ⟨moves, before⟩ := run_of_step taken
        obtain ⟨further, afterwards⟩ := ih run
        exact ⟨moves ++ further, by rw [run?_append, before]; exact afterwards⟩

/-- The locks of tables do what they are for. -/
structure Kept (gated : Gated ι) : Prop where
  /-- Who has a lock and has not used the table is about to use it. -/
  pending : ∀ number grip, gated.grips.get? number = some grip →
    ∃ thread, gated.traffic.threads[number]? = some thread ∧
      (grip.used = false → thread.wanted? = some grip)
  /-- Two who have the lock of one table both only read it. -/
  exclusive : ∀ number other grip held, gated.grips.get? number = some grip →
    gated.grips.get? other = some held → grip.key = held.key →
      number = other ∨ (grip.access = .read ∧ held.access = .read)

private theorem Kept.start (traffic : Traffic ι) : Kept (Gated.mk traffic Table.empty) :=
  ⟨fun _ _ taken => (nomatch taken), fun _ _ _ _ taken => (nomatch taken)⟩

/-- A thread has put another hold on the lock of a table in the place of its former one. -/
private theorem Kept.exclusive_put (kept : Kept gated) (number : Nat) (grip : Grip)
    (fits : ∀ other held, other ≠ number → gated.grips.get? other = some held →
      grip.key = held.key → grip.access = .read ∧ held.access = .read) :
    ∀ first second one two, (gated.grips.put number grip).get? first = some one →
      (gated.grips.put number grip).get? second = some two → one.key = two.key →
        first = second ∨ (one.access = .read ∧ two.access = .read) := by
  intro first second one two takenOne takenTwo same
  rw [Table.get?_put] at takenOne takenTwo
  split at takenOne <;> split at takenTwo
  · exact .inl (‹number = first›.symm.trans ‹number = second›)
  · cases takenOne
    exact .inr (fits second two (Ne.symm ‹¬number = second›) takenTwo same)
  · cases takenTwo
    exact .inr (fits first one (Ne.symm ‹¬number = first›) takenOne same.symm).symm
  · exact kept.exclusive first second one two takenOne takenTwo same

private theorem Kept.step (kept : Kept gated) (step : Step gated number move next) : Kept next := by
  cases step with
  | @lock thread grip free present wants admitted =>
    refine ⟨fun other held taken => ?_, kept.exclusive_put number grip fun other held _ taken same =>
      admits_iff.mp admitted other held taken same.symm⟩
    rw [Table.get?_put] at taken
    split at taken
    · cases taken
      obtain rfl : number = other := ‹_›
      exact ⟨thread, present, fun _ => wants⟩
    · exact kept.pending other held taken
  | @use grip traffic taken unused moved =>
    obtain ⟨⟨thread, present⟩, others⟩ := Traffic.threads_of_step? moved
    refine ⟨fun other held takenToo => ?_, kept.exclusive_put number _ ?_⟩
    · rw [Table.get?_put] at takenToo
      split at takenToo
      · cases takenToo
        obtain rfl : number = other := ‹_›
        exact ⟨thread, present, fun unused => by cases unused⟩
      · obtain ⟨one, presentToo, wants⟩ := kept.pending other held takenToo
        exact ⟨one, (others other (Ne.symm ‹_›)).trans presentToo, wants⟩
    · intro other held different takenToo same
      exact (kept.exclusive number other grip held taken takenToo same).resolve_left different.symm
  | unlock taken used =>
    refine ⟨fun other held takenToo => ?_, fun first second one two takenOne takenTwo same => ?_⟩
    · rw [Table.get?_erase] at takenToo
      split at takenToo
      · cases takenToo
      · exact kept.pending other held takenToo
    · rw [Table.get?_erase] at takenOne takenTwo
      split at takenOne <;> split at takenTwo
      · cases takenOne
      · cases takenOne
      · cases takenTwo
      · exact kept.exclusive first second one two takenOne takenTwo same
  | pass free wants moved =>
    refine ⟨fun other held taken => ?_, kept.exclusive⟩
    obtain ⟨one, present, wantsToo⟩ := kept.pending other held taken
    have different : other ≠ number := by
      rintro rfl
      cases free.symm.trans taken
    exact ⟨one, ((Traffic.threads_of_step? moved).2 other different).trans present, wantsToo⟩

private theorem kept_of_run (kept : Kept gated) (run : gated.run? moves = some last) : Kept last := by
  induction moves generalizing gated with
  | nil =>
    cases run
    exact kept
  | cons first rest ih =>
    obtain ⟨next, taken, ran⟩ := Option.bind_eq_some_iff.mp run
    exact ih (kept.step (step?_eq_some_iff.mp taken)) ran

/-- The lock of a table that a thread is about to take. -/
def wants? (gated : Gated ι) (number : Nat) : Option Grip :=
  match gated.grips.get? number with
  | some _ => none
  | none => gated.traffic.threads[number]?.bind Thread.wanted?

/-- Whether a thread that would read a table meets another that would change it. -/
def Defers (gated : Gated ι) (number : Nat) : Prop :=
  ∃ key other, gated.wants? number = some ⟨key, .read, false⟩ ∧
    gated.wants? other = some ⟨key, .write, false⟩

/-- Whether a thread can take its next step when searches find what `find` says, even if those who
would read a table let those go first who would change it. -/
def CanGoOn (gated : Gated ι) (find : ι → UnitName → Except LoadError (Option UnitMatch))
    (number : Nat) : Prop :=
  ∃ thread next, gated.traffic.threads[number]? = some thread ∧
    gated.step? number (thread.nextMove find) = some next ∧ ¬ gated.Defers number

variable {find : ι → UnitName → Except LoadError (Option UnitMatch)} {loaders : List (Loader ι)}

private theorem not_defers_of_grip (taken : gated.grips.get? number = some grip) :
    ¬ gated.Defers number := by
  rintro ⟨key, other, wants, -⟩
  rw [wants?, taken] at wants
  cases wants

variable (find) in
/-- A thread goes on if what is behind the locks of tables lets it and it has the lock that it
needs. -/
theorem traffic_goes_on (founded : Traffic.Founded loaders gated.traffic) {thread : Thread ι}
    {call : Call ι} {outer : List (Call ι)}
    (present : gated.traffic.threads[number]? = some thread) (top : thread.calls = call :: outer)
    (free : call.blocked gated.traffic.memory = false) :
    ∃ traffic, gated.traffic.step? number (thread.nextMove find) = some traffic := by
  have moves := Thread.move?_isSome find top free (founded.below_waits present top)
  obtain ⟨⟨after, memory⟩, moved⟩ := Option.isSome_iff_exists.mp moves
  exact ⟨_, by simp only [Traffic.step?, present, moved, Option.bind_eq_bind, Option.bind_some]; rfl⟩

/-- Who has the lock of a table can go on. -/
private theorem holder_goes_on (founded : Traffic.Founded loaders gated.traffic) (kept : Kept gated)
    (taken : gated.grips.get? number = some grip) : gated.CanGoOn find number := by
  obtain ⟨thread, present, wants⟩ := kept.pending number grip taken
  refine ⟨thread, ?_⟩
  cases used : grip.used with
  | true =>
    exact ⟨_, present, step?_eq_some_iff.mpr (.unlock taken used), not_defers_of_grip taken⟩
  | false =>
    have wanted := wants used
    unfold Thread.wanted? at wanted
    split at wanted
    · cases wanted
    · rename_i call outer top
      obtain ⟨access, needs, -⟩ := Option.map_eq_some_iff.mp wanted
      have free : call.blocked gated.traffic.memory = false := by
        unfold Call.blocked
        split
        · rename_i waits
          rw [waits] at needs
          cases needs
        · rfl
      obtain ⟨traffic, moved⟩ := traffic_goes_on find founded present top free
      exact ⟨_, present, step?_eq_some_iff.mpr (.use taken used moved), not_defers_of_grip taken⟩

/-- Who is about to take the lock of a table can, if nobody has it; one who would read may have to
let another go first. -/
private theorem wanter_goes_on (wants : gated.wants? number = some grip)
    (nobody : ∀ other held, gated.grips.get? other = some held → held.key ≠ grip.key)
    (first : ¬ gated.Defers number) : gated.CanGoOn find number := by
  unfold wants? at wants
  split at wants
  · cases wants
  · rename_i free
    obtain ⟨thread, present, wanted⟩ := Option.bind_eq_some_iff.mp wants
    have admitted : gated.admits grip.key grip.access = true :=
      admits_iff.mpr fun other held taken same => absurd same (nobody other held taken)
    exact ⟨thread, _, present, step?_eq_some_iff.mpr (.lock free present wanted admitted), first⟩

/-- As long as a thread is in a call, some thread can go on. -/
private theorem exists_canGoOn (grove : Loader.Grove loaders)
    (founded : Traffic.Founded loaders gated.traffic) (kept : Kept gated) {thread : Thread ι}
    (member : thread ∈ gated.traffic.threads) (unfinished : thread.calls ≠ []) :
    ∃ number, gated.CanGoOn find number := by
  obtain ⟨number, present⟩ := List.mem_iff_getElem?.mp member
  obtain ⟨call, outer, top⟩ := List.exists_cons_of_ne_nil unfinished
  obtain ⟨ready, one, first, below, presentToo, topToo, free⟩ :=
    founded.exists_unblocked grove present top
  cases held : gated.grips.get? ready with
  | some grip => exact ⟨ready, holder_goes_on founded kept held⟩
  | none =>
    cases wanted : one.wanted? with
    | none =>
      -- no table is needed
      obtain ⟨traffic, moved⟩ := traffic_goes_on find founded presentToo topToo free
      have wants : gated.traffic.threads[ready]?.bind Thread.wanted? = none := by
        rw [presentToo]
        exact wanted
      refine ⟨ready, one, _, presentToo, step?_eq_some_iff.mpr (.pass held wants moved), ?_⟩
      rintro ⟨key, other, reads, -⟩
      rw [Gated.wants?, held] at reads
      cases wants.symm.trans reads
    | some grip =>
      have wants : gated.wants? ready = some grip := by
        rw [Gated.wants?, held, presentToo]
        exact wanted
      by_cases somebody : ∃ other held, gated.grips.get? other = some held ∧ held.key = grip.key
      · obtain ⟨other, held, taken, -⟩ := somebody
        exact ⟨other, holder_goes_on founded kept taken⟩
      · have nobody other held (taken : gated.grips.get? other = some held) :
            held.key ≠ grip.key := fun same => somebody ⟨other, held, taken, same⟩
        by_cases defers : gated.Defers ready
        · -- the one who is let go first finds the lock free
          obtain ⟨key, other, reads, writes⟩ := defers
          cases wants.symm.trans reads
          refine ⟨other, wanter_goes_on writes nobody ?_⟩
          rintro ⟨_, _, readsToo, -⟩
          cases writes.symm.trans readsToo
        · exact ⟨ready, wanter_goes_on wants nobody defers⟩

/-- Threads that are about to load units, each by a loader of its own, while nobody has the lock of a
table. -/
def assemble (requests : List (Loader ι × UnitName)) : Gated ι :=
  ⟨Traffic.assemble Table.empty requests, Table.empty⟩

/-- Whatever threads load through the loaders of a tree and in whatever order they go on: as long as
one of them is in a call, some thread can take its next step; and whoever waits for the lock of a
slot that is held waits for another thread, and only for such as load the same name. -/
theorem never_stuck (tree : List (Loader ι)) (grove : Loader.Grove tree)
    (requests : List (Loader ι × UnitName)) (listed : ∀ request ∈ requests, request.1 ∈ tree)
    (moves : List (Nat × Move)) (last : Gated ι) (run : (assemble requests).run? moves = some last) :
    (∀ thread ∈ last.traffic.threads, thread.calls ≠ [] →
      ∀ find, ∃ number, last.CanGoOn find number) ∧
    ∀ number thread, last.traffic.threads[number]? = some thread →
      ∀ call ∈ thread.calls, ∀ slot arrived, call.stage = .waiting slot arrived →
        (((last.traffic.memory.cache call.scope.key).slot slot).latest.held = true →
          ∃ other, last.traffic.HasLock other call.scope.key slot) ∧
        ∀ other, last.traffic.HasLock other call.scope.key slot → other ≠ number ∧
          ∃ owner, last.traffic.threads[other]? = some owner ∧ owner.name = thread.name := by
  obtain ⟨further, ran⟩ := traffic_run_of_run run
  have founded := Traffic.founded_of_run grove requests listed ran
  have kept := kept_of_run (Kept.start _) run
  constructor
  · intro thread member unfinished find
    exact exists_canGoOn grove founded kept member unfinished
  · intro number thread present call member slot arrived waits
    exact (founded.owner_of_held present member waits).symm

/-- Two loaders that share the one behind them. -/
def branches : List (Loader Unit) :=
  let shared : Loader Unit := .scoped ⟨0, "shared", (), [], []⟩ (.root ⟨3, "root", Table.empty, []⟩)
  [.scoped ⟨1, "left", (), [], []⟩ shared, .scoped ⟨2, "right", (), [], []⟩ shared]

/-- A unit that is asked for through both loaders. -/
def sharedRequests : List (Loader Unit × UnitName) :=
  branches.map fun loader => (loader, Crowd.commonName)

/-- The first thread comes to search the archives of the shared loader, and the second to wait for it
there. -/
def meeting : List (Nat × Move) :=
  List.replicate 10 (0, .advance) ++ (0, .search (.ok none)) :: List.replicate 11 (0, .advance) ++
    List.replicate 10 (1, .advance) ++ (1, .search (.ok none)) :: List.replicate 5 (1, .advance)

theorem never_stuck_meeting : Loader.Grove branches ∧
    (∀ request ∈ sharedRequests, request.1 ∈ branches) ∧
    ∃ last, (assemble sharedRequests).run? meeting = some last ∧
      (last.traffic.threads.map fun thread =>
          thread.calls.map fun call => (call.scope.key, call.stage)) =
        [[(0, .resolving 0 .searching), (1, .resolving 0 (.delegating true))],
          [(0, .waiting 0 0), (2, .resolving 0 (.delegating true))]] ∧
      ((last.traffic.memory.cache 0).slot 0).latest.held = true ∧
      (∃ other, last.traffic.HasLock other 0 0) ∧ ∀ find, ∃ number, last.CanGoOn find number := by
  have grove : Loader.Grove branches := by
    intro first memberOne second memberOther one inOne other inOther
    simp only [branches, List.mem_cons, List.not_mem_nil, or_false] at memberOne memberOther
    rcases memberOne with rfl | rfl <;> rcases memberOther with rfl | rfl <;>
      simp only [Loader.fronts, List.mem_cons, List.not_mem_nil, or_false] at inOne inOther <;>
      rcases inOne with rfl | rfl <;> rcases inOther with rfl | rfl <;> simp
  have listed : ∀ request ∈ sharedRequests, request.1 ∈ branches := by
    simp [sharedRequests]
  have reached : ((assemble sharedRequests).run? meeting).map (fun last =>
      (last.traffic.threads.map fun thread =>
          thread.calls.map fun call => (call.scope.key, call.stage),
        ((last.traffic.memory.cache 0).slot 0).latest.held)) =
      some ([[(0, .resolving 0 .searching), (1, .resolving 0 (.delegating true))],
          [(0, .waiting 0 0), (2, .resolving 0 (.delegating true))]], true) := by rfl
  obtain ⟨last, run, shown⟩ := Option.map_eq_some_iff.mp reached
  obtain ⟨stages, held⟩ := Prod.ext_iff.mp shown
  obtain ⟨goesOn, waits⟩ := never_stuck branches grove sharedRequests listed meeting last run
  have second := congrArg (fun threads => threads[1]?) stages
  simp only [List.getElem?_map] at second
  obtain ⟨thread, present, calls⟩ := Option.map_eq_some_iff.mp second
  obtain ⟨call, outer, top, here, -⟩ := List.map_eq_cons_iff.mp calls
  obtain ⟨key, stage⟩ := Prod.ext_iff.mp here
  simp only at key stage held
  have member : call ∈ thread.calls := top ▸ List.mem_cons_self
  refine ⟨grove, listed, last, run, stages, held, ?_, ?_⟩
  · have owner := (waits 1 thread present call member 0 0 stage).1
    rw [key] at owner
    exact owner held
  · exact goesOn thread (List.mem_of_getElem? present) (top ▸ List.cons_ne_nil _ _)

end Gated

end ScopeChain
