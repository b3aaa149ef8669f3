import ContractTwins.Corpus.Shared
import ContractTwins.Proofs.CorpusLayout
import Mathlib.Data.List.Basic

/-!
Runs of operations on a shared corpus, in terms of what its sources give when they are read. A load
changes the corpus after its source was read to the end, or not at all.
-/
namespace ContractTwins.SharedCorpus

namespace Operation

def Replaces : Operation → Prop
  | .replace _ => True
  | .extend _ | .load _ _ | .snapshot => False

def added : Operation → List Entry
  | .extend entries => entries
  | .load files source => (source.entries files).toOption.getD []
  | .replace _ | .snapshot => []

end Operation

variable (shared : SharedCorpus)

theorem step_snapshot :
    shared.step .snapshot =
      (.ok 0, { shared with snapshots := shared.snapshots ++ [shared.current] }) := rfl

theorem step_load_ok {files : Files} {source : Source} {entries : List Entry}
    (read : source.entries files = .ok entries) :
    shared.step (.load files source) =
      (.ok entries.length, { shared with current := shared.current.extend entries }) := by
  simp only [step, Operation.perform, read]
  rfl

theorem step_load_error {files : Files} {source : Source} {error : CorpusError}
    (read : source.entries files = .error error) :
    shared.step (.load files source) = (.error error, shared) := by
  simp only [step, Operation.perform, read]
  rfl

theorem step_load (files : Files) (source : Source) :
    shared.step (.load files source) =
      match shared.current.load files source with
      | .ok (next, count) => (.ok count, { shared with current := next })
      | .error error => (.error error, shared) := by
  cases read : source.entries files with
  | ok entries => rw [step_load_ok shared read, Corpus.load, read]
  | error error => rw [step_load_error shared read, Corpus.load, read]

variable {shared}

theorem entries_step {operation : Operation} (grows : ¬operation.Replaces) :
    (shared.step operation).2.current.entries = shared.current.entries ++ operation.added := by
  cases operation with
  | extend entries => rfl
  | replace entries => exact absurd trivial grows
  | load files source =>
    cases read : source.entries files with
    | ok entries =>
      rw [step_load_ok shared read, Operation.added, read]
      rfl
    | error error =>
      rw [step_load_error shared read, Operation.added, read]
      exact (List.append_nil _).symm
  | snapshot => exact (List.append_nil _).symm

theorem snapshots_step (shared : SharedCorpus) (operation : Operation) :
    ∃ taken, (shared.step operation).2.snapshots = shared.snapshots ++ taken := by
  cases operation with
  | extend entries => exact ⟨[], (List.append_nil _).symm⟩
  | replace entries => exact ⟨[], (List.append_nil _).symm⟩
  | load files source =>
    refine ⟨[], ?_⟩
    cases read : source.entries files with
    | ok entries =>
      rw [step_load_ok shared read, List.append_nil]
    | error error => rw [step_load_error shared read, List.append_nil]
  | snapshot => exact ⟨[shared.current], rfl⟩

theorem run_cons (operation : Operation) (rest : List Operation) :
    shared.run (operation :: rest) =
      (((shared.step operation).2.run rest).1,
        (shared.step operation).1 :: ((shared.step operation).2.run rest).2) := rfl

theorem run_append (before after : List Operation) :
    shared.run (before ++ after) =
      (((shared.run before).1.run after).1,
        (shared.run before).2 ++ ((shared.run before).1.run after).2) := by
  induction before generalizing shared with
  | nil => rfl
  | cons operation rest ih => rw [List.cons_append, run_cons, run_cons, ih, List.cons_append]

theorem length_answers (shared : SharedCorpus) (operations : List Operation) :
    (shared.run operations).2.length = operations.length := by
  induction operations generalizing shared with
  | nil => rfl
  | cons operation rest ih => rw [run_cons, List.length_cons, List.length_cons, ih]

/-- An operation in a run answers and leaves what it does by itself, on what came before it. -/
theorem run_middle (before : List Operation) (operation : Operation) (after : List Operation) :
    (shared.run (before ++ operation :: after)).1 =
        (((shared.run before).1.step operation).2.run after).1 ∧
      (shared.run (before ++ operation :: after)).2[before.length]? =
        some ((shared.run before).1.step operation).1 := by
  rw [run_append]
  refine ⟨rfl, ?_⟩
  rw [← length_answers shared before, List.getElem?_append_right (Nat.le_refl _),
    Nat.sub_self, run_cons, List.getElem?_cons_zero]

theorem run_of_step {before after : List Operation} {operation : Operation}
    {answer : Except CorpusError Nat} {next : SharedCorpus}
    (step : (shared.run before).1.step operation = (answer, next)) :
    (shared.run (before ++ operation :: after)).2[before.length]? = some answer ∧
      (shared.run (before ++ [operation])).1 = next := by
  constructor
  · rw [(run_middle before operation after).2, step]
  · rw [(run_middle before operation []).1, step]
    rfl

theorem entries_run {operations : List Operation}
    (grow : ∀ operation ∈ operations, ¬operation.Replaces) :
    (shared.run operations).1.current.entries =
      shared.current.entries ++ operations.flatMap Operation.added := by
  induction operations generalizing shared with
  | nil => exact (List.append_nil _).symm
  | cons operation rest ih =>
    rw [List.forall_mem_cons] at grow
    rw [run_cons, ih grow.2, entries_step grow.1, List.flatMap_cons, List.append_assoc]

theorem snapshots_run (shared : SharedCorpus) (operations : List Operation) :
    ∃ taken, (shared.run operations).1.snapshots = shared.snapshots ++ taken := by
  induction operations generalizing shared with
  | nil => exact ⟨[], (List.append_nil _).symm⟩
  | cons operation rest ih =>
    obtain ⟨first, eqFirst⟩ := snapshots_step shared operation
    obtain ⟨later, eqLater⟩ := ih (shared.step operation).2
    exact ⟨first ++ later, by rw [run_cons, eqLater, eqFirst, List.append_assoc]⟩

theorem snapshot_run (before after : List Operation) :
    (shared.run (before ++ .snapshot :: after)).1.snapshots[(shared.run before).1.snapshots.length]? =
      some (shared.run before).1.current := by
  obtain ⟨taken, kept⟩ := snapshots_run ((shared.run before).1.step .snapshot).2 after
  rw [(run_middle before .snapshot after).1, kept, step_snapshot, List.append_assoc,
    List.getElem?_append_right (Nat.le_refl _), Nat.sub_self, List.singleton_append,
    List.getElem?_cons_zero]

def onePurse : SharedCorpus := ⟨⟨[Entry.plainEntry]⟩, []⟩

end ContractTwins.SharedCorpus
