import ContractTwins.Proofs.ContractRecords
import Mathlib.Data.List.ProdSigma

/-!
A record depends on its contract and its mode alone. So a source unit has the records that the
contracts among its children have by themselves, mode by mode, and nothing else in it counts.
-/
namespace ContractTwins

open Syntax

def Options.single (algorithm : Algorithm) (mode : Mode) : Options :=
  ⟨algorithm, [mode], List.cons_ne_nil _ _, List.nodup_singleton _⟩

def sourceUnit (children : List Node) (attributes : List (String × Tree)) : Node :=
  ⟨"SourceUnit", ("children", .list (children.map Node.tree)) :: attributes⟩

def Record.inMode (mode : Mode) (record : Record) : Bool := decide (record.options.mode = mode)

/-- The records of some contracts mode by mode, and in each mode one contract after the other. Each
is the record of the contract as a document of its own, under this mode alone. -/
def RecordedAlone (options : Options) (path : Option String) (contracts : List Node)
    (records : List Record) : Prop :=
  List.Forall₂ (fun one record =>
      fingerprint one.2 (.single options.algorithm one.1) path = .ok [record])
    (options.modes ×ˢ contracts) records

structure ByContract (options : Options) (path : Option String) : Prop where
  alone : ∀ children attributes, ∃ records,
    fingerprint (sourceUnit children attributes) options path = .ok records ∧
      RecordedAlone options path (children.filter isContract) records
  others : ∀ before child after attributes changed, ¬isContract child = true →
    fingerprint (sourceUnit (before ++ child :: after) attributes) options path =
      fingerprint (sourceUnit (before ++ after) changed) options path
  joined : ∀ first second attributesFirst attributesSecond attributes, ∃ a b both,
    fingerprint (sourceUnit first attributesFirst) options path = .ok a ∧
      fingerprint (sourceUnit second attributesSecond) options path = .ok b ∧
      fingerprint (sourceUnit (first ++ second) attributes) options path = .ok both ∧
      ∀ mode, both.filter (Record.inMode mode) =
        a.filter (Record.inMode mode) ++ b.filter (Record.inMode mode)
  succeeds : ∀ document, document.kind = "SourceUnit" ∨ document.kind = "ContractDefinition" →
    Outcome.Succeeds (fingerprint document options path)
  refused : ∀ document, ¬(document.kind = "SourceUnit" ∨ document.kind = "ContractDefinition") →
    fingerprint document options path = .error (.invalidInput document.kind)

section Documents

variable {children : List Node} {attributes : List (String × Tree)} {document : Node}

theorem trees_of_nodes {items : List Tree} (nodes : ∀ item ∈ items, item.IsNode) :
    ∃ children : List Node, items = children.map Node.tree := by
  induction items with
  | nil => exact ⟨[], rfl⟩
  | cons item rest ih =>
    obtain ⟨⟨kind, members, rfl⟩, later⟩ := List.forall_mem_cons.mp nodes
    obtain ⟨children, rfl⟩ := ih later
    exact ⟨⟨kind, members⟩ :: children, rfl⟩

theorem sourceUnit_of_lifted (lifted : Lifted document) (unit : document.kind = "SourceUnit") :
    ∃ children attributes, document = sourceUnit children attributes := by
  obtain ⟨kind, members⟩ := document
  obtain rfl : kind = "SourceUnit" := unit
  cases wellFormed_of_lifted lifted with
  | node shaped _ =>
    obtain ⟨fields, attributes, rfl, fit, -, -⟩ := shaped
    have schema : fieldsOf "SourceUnit" = [⟨"children", .nodes⟩] := rfl
    rw [schema, List.forall₂_cons_left_iff] at fit
    obtain ⟨⟨name, value⟩, rest, ⟨named, holds⟩, ended, rfl⟩ := fit
    obtain rfl := List.forall₂_nil_left_iff.mp ended
    obtain rfl : name = "children" := named
    cases value with
    | list items =>
      obtain ⟨children, rfl⟩ := trees_of_nodes holds
      exact ⟨children, attributes, rfl⟩
    | null | bool | number | text | map | node => exact holds.elim

theorem nodesAt_children : (sourceUnit children attributes).nodesAt "children" = children := by
  have each : (children.map Node.tree).flatMap Tree.outermost = children := by
    rw [List.flatMap_map]
    exact List.flatMap_singleton' children
  simp only [Node.nodesAt, Node.member?, sourceUnit, List.lookup_cons_self, Tree.outermost,
    outermostItems_eq_flatMap, each]

theorem contractsOf_sourceUnit :
    contractsOf (sourceUnit children attributes) = .ok (children.filter isContract) := by
  have unit : (sourceUnit children attributes).kind = "SourceUnit" := rfl
  rw [contractsOf, if_pos unit, nodesAt_children]

theorem isContract_iff : isContract document = true ↔ document.kind = "ContractDefinition" :=
  beq_iff_eq

theorem contractsOf_contract (contract : isContract document = true) :
    contractsOf document = .ok [document] := by
  have other : document.kind ≠ "SourceUnit" := by simp [isContract_iff.mp contract]
  rw [contractsOf, if_neg other, if_pos contract]

end Documents

section Records

variable (options : Options) (path : Option String)

def recordsOver (contracts : List Node) : List Record :=
  (options.modes ×ˢ contracts).map fun one => recordOf ⟨options.algorithm, one.1⟩ path one.2

theorem fingerprint_over {document : Node} {contracts : List Node}
    (direct : contractsOf document = .ok contracts) :
    fingerprint document options path = .ok (recordsOver options path contracts) := by
  have taken : recordsOver options path contracts = options.modes.flatMap fun mode =>
      contracts.map (recordOf ⟨options.algorithm, mode⟩ path) := by
    simp only [recordsOver, SProd.sprod, List.product, List.map_flatMap, List.map_map,
      Function.comp_def]
  rw [fingerprint_eq direct, taken]

theorem fingerprint_alone {contract : Node} (isOne : isContract contract = true) (mode : Mode) :
    fingerprint contract (.single options.algorithm mode) path =
      .ok [recordOf ⟨options.algorithm, mode⟩ path contract] :=
  fingerprint_over _ path (contractsOf_contract isOne)

theorem recordedAlone {contracts : List Node} (each : ∀ contract ∈ contracts, isContract contract) :
    RecordedAlone options path contracts (recordsOver options path contracts) := by
  rw [RecordedAlone, recordsOver, List.forall₂_map_right_iff, List.forall₂_same]
  rintro ⟨mode, contract⟩ mem
  exact fingerprint_alone options path (each contract (List.mem_product.mp mem).2) mode

/-- As no mode is taken twice, one mode has the records of the contracts once, or none. -/
theorem recordsOver_inMode (contracts : List Node) (mode : Mode) :
    (recordsOver options path contracts).filter (Record.inMode mode) =
      if mode ∈ options.modes then contracts.map (recordOf ⟨options.algorithm, mode⟩ path)
      else [] := by
  rw [recordsOver]
  -- By induction on the modes: the first of them has its records here, and none later on.
  have distinct := options.nodup_modes
  revert distinct
  induction options.modes with
  | nil => exact fun _ => rfl
  | cons first rest ih =>
    intro distinct
    obtain ⟨absent, later⟩ := List.nodup_cons.mp distinct
    have taken : ((first :: rest) ×ˢ contracts).map (fun one =>
        recordOf ⟨options.algorithm, one.1⟩ path one.2) =
          contracts.map (recordOf ⟨options.algorithm, first⟩ path) ++
            (rest ×ˢ contracts).map fun one =>
              recordOf ⟨options.algorithm, one.1⟩ path one.2 := by
      rw [List.product_cons, List.map_append, List.map_map]
      rfl
    rw [taken, List.filter_append, ih later]
    by_cases same : mode = first
    · subst same
      have kept : ∀ record ∈ contracts.map (recordOf ⟨options.algorithm, mode⟩ path),
          Record.inMode mode record = true := by
        simp [Record.inMode, recordOf]
      rw [List.filter_eq_self.mpr kept, if_neg absent, if_pos List.mem_cons_self, List.append_nil]
    · have dropped : ∀ record ∈ contracts.map (recordOf ⟨options.algorithm, first⟩ path),
          ¬Record.inMode mode record = true := by
        simp [Record.inMode, recordOf, Ne.symm same]
      rw [List.filter_eq_nil_iff.mpr dropped, List.nil_append]
      simp only [List.mem_cons, same, false_or]

end Records

theorem byContract (options : Options) (path : Option String) : ByContract options path where
  alone children attributes := by
    refine ⟨_, fingerprint_over options path contractsOf_sourceUnit, ?_⟩
    exact recordedAlone options path fun contract mem => (List.mem_filter.mp mem).2
  others before child after attributes changed other := by
    have same : (before ++ child :: after).filter isContract =
        (before ++ after).filter isContract := by
      rw [List.filter_append, List.filter_cons_of_neg other, List.filter_append]
    rw [fingerprint_over options path contractsOf_sourceUnit,
      fingerprint_over options path contractsOf_sourceUnit, same]
  joined first second attributesFirst attributesSecond attributes := by
    refine ⟨_, _, _, fingerprint_over options path contractsOf_sourceUnit,
      fingerprint_over options path contractsOf_sourceUnit,
      fingerprint_over options path contractsOf_sourceUnit, fun mode => ?_⟩
    simp only [recordsOver_inMode, List.filter_append, List.map_append]
    split
    · rfl
    · rfl
  succeeds document kinds := by
    rcases kinds with unit | contract
    · have direct : contractsOf document =
          .ok ((document.nodesAt "children").filter isContract) := by
        rw [contractsOf, if_pos unit]
      exact ⟨_, fingerprint_over options path direct⟩
    · exact ⟨_, fingerprint_over options path (contractsOf_contract (isContract_iff.mpr contract))⟩
  refused document kinds := by
    obtain ⟨noUnit, noContract⟩ := not_or.mp kinds
    rw [fingerprint, contractsOf, if_neg noUnit, if_neg (mt isContract_iff.mp noContract)]
    rfl

/-- Every source unit that is read is the unit of some children, and documents are taken contract by
contract. -/
theorem documents_by_contract :
    (∀ document, Lifted document → document.kind = "SourceUnit" →
      ∃ children attributes, document = sourceUnit children attributes) ∧
    ∀ options path, ByContract options path :=
  ⟨fun _ => sourceUnit_of_lifted, byContract⟩

def vaultsUnit : Node := sourceUnit [goldVault, coin "spare" "uint", silverVault] []

theorem documents_by_contract_vaults :
    (∃ children attributes, vaultsUnit = sourceUnit children attributes) ∧
      fingerprint vaultsUnit .default none =
        fingerprint (sourceUnit [goldVault, silverVault] [("license", .null)]) .default none ∧
      ∃ a b c d, fingerprint vaultsUnit .default none = .ok [a, b, c, d] ∧
        fingerprint goldVault (.single .default .exact) none = .ok [a] ∧
        fingerprint silverVault (.single .default .exact) none = .ok [b] ∧
        fingerprint goldVault (.single .default .structural) none = .ok [c] ∧
        fingerprint silverVault (.single .default .structural) none = .ok [d] := by
  have law := documents_by_contract.2 .default none
  refine ⟨documents_by_contract.1 vaultsUnit (lifted_of_lift_toJson rfl) rfl, ?_, ?_⟩
  · exact law.others [goldVault] (coin "spare" "uint") [silverVault] [] _ (by decide)
  · obtain ⟨records, taken, each⟩ := law.alone [goldVault, coin "spare" "uint", silverVault] []
    have pairs : Options.default.modes ×ˢ [goldVault, coin "spare" "uint", silverVault].filter
        isContract = [(.exact, goldVault), (.exact, silverVault), (.structural, goldVault),
          (.structural, silverVault)] := rfl
    rw [RecordedAlone, pairs] at each
    obtain _ | ⟨a, _ | ⟨b, _ | ⟨c, _ | ⟨d, ended⟩⟩⟩⟩ := each
    cases ended
    exact ⟨_, _, _, _, taken, a, b, c, d⟩

end ContractTwins
