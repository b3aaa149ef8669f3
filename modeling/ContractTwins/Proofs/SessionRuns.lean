import ContractTwins.Match.Session
import ContractTwins.Proofs.ExactDigest
import ContractTwins.Proofs.Matching

/-!
Runs of a session. A step adds to the results what its comparison finds in the corpus as it is then,
and a comparison that fails adds nothing.
-/
namespace ContractTwins.Session

open Results Syntax

theorem step_change (session : Session) (operation : SharedCorpus.Operation) :
    session.step (.change operation) =
      { session with shared := (session.shared.step operation).2 } := rfl

section Comparing

variable (session : Session) {options : Options} {document : Node} {path : Option String}

theorem compareInto_eq (options : Options) (document : Node) (path : Option String) :
    (compareInto options document path).run session =
      match (Engine.mk options session.shared.current).compareInto document path session.results with
      | .ok results => (.ok (), { session with results })
      | .error error => (.error error, session) := by
  simp only [compareInto, Engine.compareInto, Engine.fingerprint]
  cases taken : fingerprint document options path with
  | ok records => rfl
  | error error => rfl

theorem compareInto_ok {records : List Record}
    (taken : fingerprint document options path = .ok records) :
    (compareInto options document path).run session =
      (.ok (), { session with
        results := session.results.addRecords session.shared.current.entries records }) := by
  rw [compareInto_eq, Engine.compareInto, Engine.fingerprint, taken]
  rfl

theorem compareInto_error {error : FingerprintError}
    (failed : fingerprint document options path = .error error) :
    (compareInto options document path).run session = (.error error, session) := by
  rw [compareInto_eq, Engine.compareInto, Engine.fingerprint, failed]
  rfl

end Comparing

/-- The records that a step compares, beside the entries that are present then. -/
def compared (shared : SharedCorpus) : Step → List Compared
  | .change _ => []
  | .compare options document path =>
    match fingerprint document options path with
    | .ok records => records.map fun record => (record, shared.current.entries)
    | .error _ => []

def changed (shared : SharedCorpus) : Step → SharedCorpus
  | .change operation => (shared.step operation).2
  | .compare _ _ _ => shared

def history (shared : SharedCorpus) : List Step → List Compared
  | [] => []
  | step :: rest => compared shared step ++ history (changed shared step) rest

theorem shared_step (session : Session) (step : Step) :
    (session.step step).shared = changed session.shared step := by
  cases step with
  | change operation => rfl
  | compare options document path =>
    rw [Session.step]
    cases taken : fingerprint document options path with
    | ok records => rw [compareInto_ok session taken, changed]
    | error error => rw [compareInto_error session taken, changed]

theorem gathered_step {session : Session} {past : List Compared}
    (gathered : Gathered session.results past) (step : Step) :
    Gathered (session.step step).results (past ++ compared session.shared step) := by
  cases step with
  | change operation => rwa [step_change, compared, List.append_nil]
  | compare options document path =>
    rw [Session.step, compared]
    cases taken : fingerprint document options path with
    | ok records =>
      rw [compareInto_ok session taken]
      exact gathered_addRecords gathered session.shared.current.entries records
    | error error => rwa [compareInto_error session taken, List.append_nil]

theorem gathered_run {session : Session} {past : List Compared}
    (gathered : Gathered session.results past) (steps : List Step) :
    Gathered (session.run steps).results (past ++ history session.shared steps) := by
  induction steps generalizing session past with
  | nil => rwa [history, List.append_nil]
  | cons step rest ih =>
    rw [history, ← List.append_assoc, ← shared_step]
    exact ih (gathered_step gathered step)

/-- What a session has found, key by key, from its beginning. -/
theorem results_of_run (shared : SharedCorpus) (steps : List Step) :
    SortedMap.Ascending (run ⟨shared, .empty⟩ steps).results.groups ∧
      (∀ key, (run ⟨shared, .empty⟩ steps).results.groups.lookup key = none ↔
        foundUnder key (history shared steps) = []) ∧
      (∀ key group, (run ⟨shared, .empty⟩ steps).results.groups.lookup key = some group →
        group.found = foundUnder key (history shared steps) ∧
          target? key (history shared steps) = some group.target ∧
          ∃ first rest, group.found = first :: rest ∧ first.hash = group.target.hash ∧
            first.options.algorithm = group.target.options.algorithm.name ∧
            first.options.mode = group.target.options.mode.name) ∧
      ∀ session options document path error, fingerprint document options path = .error error →
        (compareInto options document path).run session = (.error error, session) ∧
          session.step (.compare options document path) = session := by
  have start : Gathered (Session.mk shared .empty).results [] := gathered_empty
  have gathered := gathered_run start steps
  rw [List.nil_append] at gathered
  refine ⟨gathered.ascending, fun key => lookup_eq_none_iff gathered, ?_, ?_⟩
  · intro key group present
    obtain ⟨target, found⟩ := found_of_lookup gathered present
    obtain ⟨first, rest, begins, hash, options⟩ := agrees_of_lookup gathered present
    refine ⟨found, target, first, rest, begins, hash, ?_, ?_⟩
    · rw [options, EntryOptions.ofOptions]
    · rw [options, EntryOptions.ofOptions]
  · intro session options document path error failed
    have unchanged := compareInto_error session failed
    exact ⟨unchanged, by rw [Session.step, unchanged]⟩

def exactOnly : Options := ⟨.sha256, [.exact], by decide, by decide⟩

def goldRecord : Record :=
  ⟨Model.ofContract goldVault, goldVault.digest .sha256, ⟨.sha256, .exact⟩, some "gold.sol"⟩

def goldEntry (path : String) : Entry := { goldRecord.toEntry with path := some path }

def goldCorpus : SharedCorpus := ⟨⟨[goldEntry "a.sol"]⟩, []⟩

/-- The gold vault is compared before and after the corpus grows, and in between a document that has
no fingerprint. -/
def goldSteps : List Step :=
  [.compare exactOnly goldVault (some "gold.sol"), .change (.extend [goldEntry "b.sol"]),
    .compare exactOnly (coin "owner" "address") none,
    .compare exactOnly goldVault (some "gold.sol")]

theorem history_goldSteps :
    history goldCorpus goldSteps =
      [(goldRecord, [goldEntry "a.sol"]), (goldRecord, [goldEntry "a.sol", goldEntry "b.sol"])] :=
  rfl

theorem matching_goldRecord (paths : List String) :
    matching goldRecord (paths.map goldEntry) = paths.map goldEntry := by
  rw [matching, List.filter_eq_self]
  intro entry mem
  obtain ⟨path, -, rfl⟩ := List.mem_map.mp mem
  simp [goldEntry, Record.toEntry, EntryOptions.ofOptions]

theorem results_of_goldSteps :
    ∃ group, (run ⟨goldCorpus, .empty⟩ goldSteps).results.get? "gold.sol" "Gold" = some group ∧
      group.found = [goldEntry "a.sol", goldEntry "a.sol", goldEntry "b.sol"] := by
  have found : foundUnder ⟨"gold.sol", "Gold"⟩ (history goldCorpus goldSteps) =
      [goldEntry "a.sol", goldEntry "a.sol", goldEntry "b.sol"] := by
    have named : MatchKey.ofRecord goldRecord = ⟨"gold.sol", "Gold"⟩ := rfl
    have once := matching_goldRecord ["a.sol"]
    have twice := matching_goldRecord ["a.sol", "b.sol"]
    simp only [List.map_cons, List.map_nil] at once twice
    simp [history_goldSteps, foundUnder, named, once, twice]
  obtain ⟨-, absent, groups, -⟩ := results_of_run goldCorpus goldSteps
  cases present : (run ⟨goldCorpus, .empty⟩ goldSteps).results.groups.lookup
      ⟨"gold.sol", "Gold"⟩ with
  | none =>
    rw [absent, found] at present
    cases present
  | some group => exact ⟨group, present, (groups _ _ present).1.trans found⟩

end ContractTwins.Session
