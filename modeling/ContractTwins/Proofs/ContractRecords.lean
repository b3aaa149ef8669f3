import ContractTwins.Proofs.Outcomes
import ContractTwins.Proofs.StructuralDigest

/-!
A contract has a digest under all options, so only a document that is neither a source unit nor a
contract has no records.
-/
namespace ContractTwins

open Outcome Syntax

def contractHash (options : HashOptions) (contract : Node) : String :=
  match options.mode with
  | .exact => contract.digest options.algorithm
  | .structural => options.algorithm.digest (contractBytes options.algorithm contract)

theorem Record.digest_eq {contract : Node} (isContract : isContract contract)
    (options : HashOptions) :
    Record.digest contract options = .ok (contractHash options contract) := by
  obtain ⟨algorithm, mode⟩ := options
  cases mode with
  | exact => rfl
  | structural => exact structural_digest_eq isContract algorithm

def recordOf (options : HashOptions) (path : Option String) (contract : Node) : Record :=
  ⟨Model.ofContract contract, contractHash options contract, options, path⟩

theorem Record.ofNode_eq {contract : Node} (isContract : isContract contract)
    (options : HashOptions) (path : Option String) :
    Record.ofNode contract options path = .ok (recordOf options path contract) := by
  rw [Record.ofNode, if_pos isContract, Record.digest_eq isContract]
  rfl

section Documents

variable {document : Node} {contracts : List Node}

theorem isContract_of_direct (direct : contractsOf document = .ok contracts) :
    ∀ contract ∈ contracts, isContract contract := by
  intro contract mem
  rw [contractsOf] at direct
  split at direct
  · cases direct
    exact (List.mem_filter.mp mem).2
  split at direct
  · rename_i single
    cases direct
    rwa [List.mem_singleton.mp mem]
  · cases direct

theorem fingerprint_eq (direct : contractsOf document = .ok contracts) (options : Options)
    (path : Option String) :
    fingerprint document options path =
      .ok (options.modes.flatMap fun mode =>
        contracts.map (recordOf ⟨options.algorithm, mode⟩ path)) := by
  have byMode : (options.modes.mapM fun mode => contracts.mapM fun contract =>
      Record.ofNode contract ⟨options.algorithm, mode⟩ path) =
        .ok (options.modes.map fun mode =>
          contracts.map (recordOf ⟨options.algorithm, mode⟩ path)) := by
    apply mapM_eq_map
    intro mode _
    apply mapM_eq_map
    intro contract mem
    exact Record.ofNode_eq (isContract_of_direct direct contract mem) _ path
  have parts : fingerprint document options path = (do
      let byMode ← options.modes.mapM fun mode => contracts.mapM fun contract =>
        Record.ofNode contract ⟨options.algorithm, mode⟩ path
      pure byMode.flatten) := by
    rw [fingerprint, direct]
    rfl
  rw [parts, byMode]
  rfl

theorem mem_fingerprint {options : Options} {path : Option String} {records : List Record}
    (taken : fingerprint document options path = .ok records)
    (direct : contractsOf document = .ok contracts) {contract : Node} (mem : contract ∈ contracts)
    {mode : Mode} (requested : mode ∈ options.modes) :
    recordOf ⟨options.algorithm, mode⟩ path contract ∈ records := by
  rw [fingerprint_eq direct] at taken
  cases taken
  exact List.mem_flatMap.mpr ⟨mode, requested, List.mem_map_of_mem mem⟩

end Documents

end ContractTwins
