import ScopeChain.Proofs.Delegation.Resources

/-! # Sequences of matches in use

A sequence of matches answers one call after another. Each call passes archives up to the first that lists the entry
(`ResourceMatches.advance_cases`), so what is still to come is what the archives not yet passed have
(`ResourceMatches.divides_after`). Sequences can be begun anew, copied and called in any order: what is answered
hangs on nothing but the path and the number of calls that lie behind the sequence
(`ResourceMatches.Usage.sequences_stand`).
-/

namespace ScopeChain.ResourceMatches

open ScopeChain.Loader (next_eq_head?)

variable {entry : String} {sources passed rest : List ArchiveSource} {calls : Nat}

/-- Looking through archives passes all of them in vain, or those up to the first that lists the entry. -/
theorem advance_cases (entry : String) (sources : List ArchiveSource) :
    ((∀ source ∈ sources, source.contains entry = false) ∧ advance entry sources = (none, [])) ∨
      ∃ skipped source rest, sources = skipped ++ source :: rest ∧
        (∀ other ∈ skipped, other.contains entry = false) ∧ source.contains entry = true ∧
        advance entry sources = (some (.archive source.archive entry), rest) := by
  induction sources with
  | nil => exact .inl ⟨nofun, rfl⟩
  | cons source rest ih =>
    rw [advance]
    cases listed : source.contains entry with
    | true => exact .inr ⟨[], source, rest, rfl, nofun, listed, rfl⟩
    | false =>
      simp only [Bool.false_eq_true, if_false]
      rcases ih with ⟨nowhere, ended⟩ | ⟨skipped, holder, behind, rfl, before, holds, found⟩
      · exact .inl ⟨List.forall_mem_cons.mpr ⟨listed, nowhere⟩, ended⟩
      · exact .inr ⟨source :: skipped, holder, behind, rfl, List.forall_mem_cons.mpr ⟨listed, before⟩, holds, found⟩

/-- The sequence that some calls leave. -/
def after (sequence : ResourceMatches) : Nat → ResourceMatches
  | 0 => sequence
  | calls + 1 => (sequence.after calls).next.2

/-- A call takes the first match off those to come, if there is one. -/
private theorem toList_next (sequence : ResourceMatches) : sequence.next.2.toList = sequence.toList.tail := by
  by_cases empty : sequence.entry = ""
  · simp [toList, next, empty]
  · simp only [toList, next, empty, if_false]
    rcases advance_cases sequence.entry sequence.remaining with
      ⟨nowhere, ended⟩ | ⟨skipped, holder, behind, whole, before, holds, found⟩
    · have none : sequence.remaining.filter (·.contains sequence.entry) = [] :=
        List.filter_eq_nil_iff.mpr fun source member => by simp [nowhere source member]
      simp [ended, none]
    · have skip : skipped.filter (·.contains sequence.entry) = [] :=
        List.filter_eq_nil_iff.mpr fun source member => by simp [before source member]
      rw [found, whole]
      simp [List.filter_append, skip, holds]

private theorem entry_next (sequence : ResourceMatches) : sequence.next.2.entry = sequence.entry := by
  rw [next]
  split <;> rfl

theorem toList_after (sequence : ResourceMatches) (calls : Nat) :
    (sequence.after calls).toList = sequence.toList.drop calls := by
  induction calls with
  | zero => rfl
  | succ calls ih => rw [after, toList_next, ih, List.tail_drop]

theorem entry_after (sequence : ResourceMatches) (calls : Nat) : (sequence.after calls).entry = sequence.entry := by
  induction calls with
  | zero => rfl
  | succ calls ih => rw [after, entry_next, ih]

/-- Further calls answer with the matches to come, one by one, and with nothing once these are used up. -/
theorem next_after (sequence : ResourceMatches) (further : Nat) :
    (sequence.after further).next.1 = sequence.toList[further]? := by
  rw [next_eq_head?, toList_after, List.head?_drop]

private theorem length_toList_le (sequence : ResourceMatches) : sequence.toList.length ≤ sequence.upperBound := by
  rw [toList]
  split
  · exact Nat.zero_le _
  · rw [List.length_map]
    exact List.length_filter_le ..

/-- How far calls have got: past as many archives that list the entry as there were calls, and not past the last of
them; or past all archives, if too few list it. For the empty path none is passed. -/
def Divides (entry : String) (calls : Nat) (sources passed rest : List ArchiveSource) : Prop :=
  sources = passed ++ rest ∧
    if entry = "" then passed = []
    else (passed.countP (·.contains entry) = calls ∧ ∀ last ∈ passed.getLast?, last.contains entry = true) ∨
      (passed.countP (·.contains entry) < calls ∧ rest = [])

private theorem Divides.next (divides : Divides entry calls sources passed rest) :
    ∃ passed, Divides entry (calls + 1) sources passed (ResourceMatches.next ⟨rest, entry⟩).2.remaining := by
  obtain ⟨rfl, far⟩ := divides
  by_cases empty : entry = ""
  · rw [if_pos empty] at far
    exact ⟨passed, by simp [Divides, ResourceMatches.next, empty, far]⟩
  · rw [if_neg empty] at far
    simp only [ResourceMatches.next, empty, if_false]
    rcases far with ⟨counted, -⟩ | ⟨few, rfl⟩
    · rcases advance_cases entry rest with
        ⟨nowhere, ended⟩ | ⟨skipped, holder, behind, rfl, before, holds, found⟩
      · have none : rest.countP (·.contains entry) = 0 :=
          List.countP_eq_zero.mpr fun source member => by simp [nowhere source member]
        refine ⟨passed ++ rest, by rw [ended, List.append_nil], ?_⟩
        rw [if_neg empty, ended, List.countP_append, none]
        exact .inr ⟨by omega, rfl⟩
      · have none : skipped.countP (·.contains entry) = 0 :=
          List.countP_eq_zero.mpr fun source member => by simp [before source member]
        refine ⟨passed ++ skipped ++ [holder], by rw [found]; simp, ?_⟩
        rw [if_neg empty, List.countP_append, List.countP_append, none, List.countP_singleton, if_pos holds]
        exact .inl ⟨by omega, by simp [holds]⟩
    · refine ⟨passed, by rw [advance], ?_⟩
      rw [if_neg empty, advance]
      exact .inr ⟨by omega, rfl⟩

/-- The archives that calls have passed stand before those that are still to be looked into. -/
theorem divides_after (index : ArchiveIndex) (path : ResourcePath) (calls : Nat) : ∃ passed,
    Divides path.text calls index.sources passed ((index.resourceMatches path).after calls).remaining := by
  induction calls with
  | zero => exact ⟨[], rfl, by simp⟩
  | succ calls ih =>
    obtain ⟨passed, divides⟩ := ih
    have entry : ((index.resourceMatches path).after calls).entry = path.text := entry_after _ calls
    have next := divides.next
    rw [← entry] at next ⊢
    exact next

/-! ## Sequences in use -/

/-- A sequence in use: the path that it was begun for, and how many calls it has answered. One that was copied has the
calls behind it that the other had. -/
structure InUse where
  path : ResourcePath
  calls : Nat
  sequence : ResourceMatches

/-- What is done with sequences: one is begun, one is copied, or one is called for its next match. -/
inductive Use where
  | start (path : ResourcePath)
  | copy (number : Nat)
  | call (number : Nat)

/-- Sequences in use, numbered as they came up, and the calls so far: each with the sequence as it stood, and what was
answered. -/
structure Usage where
  sequences : List InUse := []
  answers : List (InUse × Option Locator) := []

namespace Usage

/-- One use; only sequences that came up can be copied or called. -/
def step? (index : ArchiveIndex) (usage : Usage) : Use → Option Usage
  | .start path =>
    some { usage with sequences := usage.sequences ++ [⟨path, 0, index.resourceMatches path⟩] }
  | .copy number => usage.sequences[number]?.map fun current =>
    { usage with sequences := usage.sequences ++ [current] }
  | .call number => usage.sequences[number]?.map fun current =>
    let (found, sequence) := current.sequence.next
    { sequences := usage.sequences.set number { current with calls := current.calls + 1, sequence }
      answers := usage.answers ++ [(current, found)] }

def run? (index : ArchiveIndex) (usage : Usage) (uses : List Use) : Option Usage := uses.foldlM (step? index) usage

end Usage

/-- A sequence has come by its calls from the one that its path gives. -/
def InUse.IsReached (index : ArchiveIndex) (current : InUse) : Prop :=
  current.sequence = (index.resourceMatches current.path).after current.calls

/-- What a sequence in use has to say: how far it has got through the archives; what is to come, which are the matches
of its path in the archives not yet passed; that further calls answer with these, one by one, and then with nothing for
good; and that they are no more than it says. -/
structure InUse.Stands (index : ArchiveIndex) (current : InUse) : Prop where
  divided : ∃ passed,
    Divides current.path.text current.calls index.sources passed current.sequence.remaining
  upcoming : current.sequence.toList = if current.path.text = "" then [] else
    (current.sequence.remaining.filter (·.contains current.path.text)).map fun source =>
      .archive source.archive current.path.text
  left : current.sequence.toList = (index.resourceMatches current.path).toList.drop current.calls
  answered : ∀ further, (current.sequence.after further).next.1 = current.sequence.toList[further]?
  ended : current.sequence.next.1 = none → ∀ further, (current.sequence.after further).next.1 = none
  bounded : current.sequence.toList.length ≤ current.sequence.upperBound

variable {index : ArchiveIndex} {usage next : Usage} {use : Use} {uses : List Use} {current : InUse} {number : Nat}

private theorem InUse.IsReached.stands (reached : current.IsReached index) : current.Stands index where
  divided := by
    rw [reached]
    exact divides_after index current.path current.calls
  upcoming := by
    have entry : current.sequence.entry = current.path.text := by
      rw [reached]
      exact entry_after _ current.calls
    rw [toList, entry]
  left := by rw [reached, toList_after]
  answered := next_after current.sequence
  ended none further := by
    rw [next_eq_head?, List.head?_eq_none_iff] at none
    rw [next_after, none, List.getElem?_nil]
  bounded := length_toList_le current.sequence

namespace Usage

/-- All sequences have come by their calls from those that their paths give, also those that were called as they stood
then. -/
structure Sound (index : ArchiveIndex) (usage : Usage) : Prop where
  reached : ∀ current ∈ usage.sequences, current.IsReached index
  answered : ∀ call ∈ usage.answers, call.1.IsReached index ∧ call.2 = call.1.sequence.next.1

private theorem Sound.empty : Sound index {} where
  reached _ member := by cases member
  answered _ member := by cases member

private theorem Sound.step (sound : Sound index usage) (step : usage.step? index use = some next) :
    Sound index next := by
  cases use with
  | start path =>
    cases step
    refine ⟨fun current member => ?_, sound.answered⟩
    rcases List.mem_append.mp member with before | new
    · exact sound.reached current before
    · rw [List.mem_singleton.mp new]
      rfl
  | copy number =>
    obtain ⟨original, there, rfl⟩ := Option.map_eq_some_iff.mp step
    refine ⟨fun current member => ?_, sound.answered⟩
    rcases List.mem_append.mp member with before | new
    · exact sound.reached current before
    · rw [List.mem_singleton.mp new]
      exact sound.reached original (List.mem_of_getElem? there)
  | call number =>
    obtain ⟨called, there, rfl⟩ := Option.map_eq_some_iff.mp step
    have reached := sound.reached called (List.mem_of_getElem? there)
    refine ⟨fun current member => ?_, fun call member => ?_⟩
    · rcases List.mem_or_eq_of_mem_set member with before | rfl
      · exact sound.reached current before
      · exact congrArg (·.next.2) reached
    · rcases List.mem_append.mp member with before | new
      · exact sound.answered call before
      · rw [List.mem_singleton.mp new]
        exact ⟨reached, rfl⟩

private theorem Sound.run (sound : Sound index usage) (ran : usage.run? index uses = some next) : Sound index next := by
  induction uses generalizing usage with
  | nil =>
    cases ran
    exact sound
  | cons use rest ih =>
    obtain ⟨middle, step, further⟩ := Option.bind_eq_some_iff.mp ran
    exact ih (sound.step step) further

/-- A sequence is left alone by all that is not a call of it. -/
private theorem getElem?_step (there : usage.sequences[number]? = some current)
    (step : usage.step? index use = some next)
    (other : use ≠ .call number) : next.sequences[number]? = some current := by
  have inside := (List.getElem?_eq_some_iff.mp there).1
  cases use with
  | start path =>
    cases step
    exact (List.getElem?_append_left inside).trans there
  | copy original =>
    obtain ⟨_, -, rfl⟩ := Option.map_eq_some_iff.mp step
    exact (List.getElem?_append_left inside).trans there
  | call called =>
    obtain ⟨_, -, rfl⟩ := Option.map_eq_some_iff.mp step
    have apart : called ≠ number := by
      rintro rfl
      exact other rfl
    exact (List.getElem?_set_ne apart).trans there

private theorem getElem?_run (there : usage.sequences[number]? = some current) (ran : usage.run? index uses = some next)
    (uncalled : .call number ∉ uses) : next.sequences[number]? = some current := by
  induction uses generalizing usage with
  | nil =>
    cases ran
    exact there
  | cons use rest ih =>
    obtain ⟨other, others⟩ := not_or.mp (List.mem_cons.not.mp uncalled)
    obtain ⟨middle, step, further⟩ := Option.bind_eq_some_iff.mp ran
    exact ih (getElem?_step there step (Ne.symm other)) further others

/-- However sequences of matches over some archives are begun, copied and called: every call is answered with that
match of its path which the number of calls behind it tells, and each sequence stands for the matches in the archives
that it has not passed. A copy stands where the other did, and neither is changed by what is done with the other. One
that is begun anew has all matches before it. -/
theorem sequences_stand (index : ArchiveIndex) (uses : List Use) (usage : Usage)
    (ran : run? index {} uses = some usage) :
    (∀ call ∈ usage.answers, call.2 = (index.resourceMatches call.1.path).toList[call.1.calls]?) ∧
    (∀ current ∈ usage.sequences, current.Stands index) ∧
    (∀ (number : Nat) (current : InUse), usage.sequences[number]? = some current →
      ∃ copied, usage.step? index (.copy number) = some copied ∧
        copied.sequences[usage.sequences.length]? = some current ∧
        ∀ (later : List Use) (last : Usage), copied.run? index later = some last →
          (.call number ∉ later → last.sequences[number]? = some current) ∧
          (.call usage.sequences.length ∉ later → last.sequences[usage.sequences.length]? = some current)) ∧
    ∀ path, ∃ started current, usage.step? index (.start path) = some started ∧
      started.sequences[usage.sequences.length]? = some current ∧ current.Stands index ∧
      current.sequence.toList = (index.resourceMatches path).toList := by
  have sound : Sound index usage := Sound.empty.run ran
  refine ⟨?_, fun current member => (sound.reached current member).stands, ?_, ?_⟩
  · intro call member
    obtain ⟨reached, found⟩ := sound.answered call member
    rw [found, reached, next_after]
  · intro number current there
    refine ⟨_, congrArg (Option.map _) there, List.getElem?_concat_length, fun later last further => ?_⟩
    have inside := (List.getElem?_eq_some_iff.mp there).1
    constructor
    · exact getElem?_run ((List.getElem?_append_left inside).trans there) further
    · exact getElem?_run List.getElem?_concat_length further
  · intro path
    have reached : InUse.IsReached index ⟨path, 0, index.resourceMatches path⟩ := rfl
    exact ⟨_, _, rfl, List.getElem?_concat_length, reached.stands, rfl⟩

/-- Three archives, of which the first and the last list an entry. -/
def threeArchives : ArchiveIndex :=
  let opened (archive entry : String) : ArchiveSource :=
    ⟨⟨archive, .direct⟩, archive, Table.empty.put entry ⟨512, 1⟩⟩
  ⟨[opened "/a.tar" "r", opened "/b.tar" "s", opened "/c.tar" "r"], "u"⟩

/-- A sequence is copied after its first call and called to its end; then the copy is called. -/
theorem sequences_stand_copied : ∃ usage, run? threeArchives {} [.start ⟨"r"⟩, .call 0, .copy 0, .call 0, .call 0,
    .call 1] = some usage ∧ usage.answers.map Prod.snd =
      [some (.archive "/a.tar" "r"), some (.archive "/c.tar" "r"), none, some (.archive "/c.tar" "r")] ∧
    ∀ current ∈ usage.sequences, current.Stands threeArchives := by
  refine ⟨_, rfl, by decide, ?_⟩
  exact (sequences_stand threeArchives [.start ⟨"r"⟩, .call 0, .copy 0, .call 0, .call 0, .call 1] _ rfl).2.1

end Usage

end ScopeChain.ResourceMatches
