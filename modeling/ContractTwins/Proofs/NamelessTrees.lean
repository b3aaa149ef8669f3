import ContractTwins.Proofs.ErasedPlaces
import ContractTwins.Proofs.WalkedNodes

/-!
Erasing leaves a tree without names, and it leaves such a tree as it is: in it no call is an
assertion, so messages are not looked for, but those that there were are blank already.
-/
namespace ContractTwins.Syntax

def writtenOver (name : String) : Tree := if name = "isAnonymous" then .null else .text ""

/-- At no depth is there a name, or an event that is anonymous or not. -/
inductive Nameless : Tree → Prop where
  | null : Nameless .null
  | bool (value : Bool) : Nameless (.bool value)
  | number (value : Number) : Nameless (.number value)
  | text (value : String) : Nameless (.text value)
  | list {items : List Tree} (each : ∀ item ∈ items, Nameless item) : Nameless (.list items)
  | map {entries : List (String × Tree)} (each : ∀ entry ∈ entries, Nameless entry.2) :
      Nameless (.map entries)
  | node {kind : String} {members : List (String × Tree)}
      (blank : ∀ member ∈ members, BearsName kind member.1 → member.2 = writtenOver member.1)
      (each : ∀ member ∈ members, Nameless member.2) : Nameless (.node kind members)

section Erased

variable {place : Place} {kind name : String} {asserts : Bool} {value : Tree}

theorem erased?_eq_writtenOver (bears : BearsName kind name) :
    erased? place kind name value = some (writtenOver name) := by
  unfold writtenOver
  by_cases anonymity : name = "isAnonymous"
  · subst anonymity
    have event : kind = "EventDefinition" := by simpa [bearsName_iff, nameFields] using bears
    subst event
    rfl
  · rw [if_neg anonymity]
    exact erased?_of_bearsText bears anonymity

theorem nameless_eraseMember (below : ∀ place, Nameless (value.erase place)) :
    Nameless (eraseMember place kind asserts name value) := by
  unfold eraseMember
  cases erased : erased? place kind name value with
  | none => exact below _
  | some blank =>
    rcases erased?_eq_some erased with ⟨-, rfl⟩ | ⟨-, -, rfl⟩ | ⟨-, -, ⟨-, rfl⟩ | ⟨-, rfl⟩⟩
    · exact .text ""
    · exact .null
    · exact .text ""
    · exact .list nofun

theorem nameless_erase (tree : Tree) (place : Place) : Nameless (tree.erase place) := by
  induction tree generalizing place with
  | null => rw [Tree.erase]; exact .null
  | bool value => rw [Tree.erase]; exact .bool value
  | number value => rw [Tree.erase]; exact .number value
  | text value => rw [Tree.erase]; exact .text value
  | list items ih =>
    rw [Tree.erase, Tree.eraseItems_eq_map]
    apply Nameless.list
    intro item mem
    obtain ⟨original, memItems, rfl⟩ := List.mem_map.mp mem
    exact ih original memItems _
  | map entries ih =>
    rw [Tree.erase, Tree.eraseEntries_eq_map]
    apply Nameless.map
    intro entry mem
    obtain ⟨original, memEntries, rfl⟩ := List.mem_map.mp mem
    exact ih original memEntries _
  | node kind members ih =>
    rw [Tree.erase, Tree.eraseMembers_eq_map]
    apply Nameless.node
    -- What bears a name is written over in every place, also in an assertion.
    · intro member mem bears
      obtain ⟨original, -, rfl⟩ := List.mem_map.mp mem
      unfold eraseMember
      rw [erased?_eq_writtenOver bears]
      rfl
    · intro member mem
      obtain ⟨original, memMembers, rfl⟩ := List.mem_map.mp mem
      exact nameless_eraseMember fun place => ih original memMembers place

end Erased

section Fixed

variable {kind : String} {members : List (String × Tree)} {tree : Tree}

theorem not_isAssertionName_of_nameless (nameless : Nameless tree) :
    isAssertionName tree = false := by
  by_contra named
  rw [Bool.not_eq_false, isAssertionName_iff] at named
  obtain ⟨members, name, rfl, found, required⟩ := named
  cases nameless with
  | node blank each =>
    have written := blank _ (SortedMap.mem_of_lookup_eq_some found) .identifier
    have empty : name = "" := Tree.text.inj written
    subst empty
    simp at required

theorem not_isAssertion_of_nameless (nameless : Nameless (.node kind members)) :
    isAssertion kind members = false := by
  by_contra asserts
  rw [Bool.not_eq_false, isAssertion_iff] at asserts
  obtain ⟨-, callee, found, named⟩ := asserts
  cases nameless with
  | node blank each =>
    have below := each _ (SortedMap.mem_of_lookup_eq_some found)
    rw [not_isAssertionName_of_nameless below] at named
    cases named

theorem eraseMember_of_nameless {member : String × Tree}
    (blank : BearsName kind member.1 → member.2 = writtenOver member.1)
    (fixed : member.2.erase .elsewhere = member.2) :
    eraseMember .elsewhere kind false member.1 member.2 = member.2 := by
  unfold eraseMember
  by_cases bears : BearsName kind member.1
  · rw [erased?_eq_writtenOver bears, blank bears]
    rfl
  · rw [erased?_elsewhere bears]
    exact fixed

theorem erase_of_nameless (nameless : Nameless tree) : tree.erase .elsewhere = tree := by
  induction nameless with
  | null => rw [Tree.erase]
  | bool value => rw [Tree.erase]
  | number value => rw [Tree.erase]
  | text value => rw [Tree.erase]
  | @list items each ih =>
    have fixed := List.map_congr_left ih
    rw [List.map_id'] at fixed
    rw [Tree.erase, Tree.eraseItems_eq_map]
    exact congrArg Tree.list fixed
  | @map entries each ih =>
    have fixed : entries.map (fun entry => (entry.1, entry.2.erase .elsewhere)) =
        entries.map fun entry => entry := by
      apply List.map_congr_left
      intro entry mem
      rw [ih entry mem]
    rw [List.map_id'] at fixed
    rw [Tree.erase, Tree.eraseEntries_eq_map, fixed]
  | @node kind members blank each ih =>
    have fixed : members.map (fun member =>
        (member.1, eraseMember .elsewhere kind false member.1 member.2)) =
          members.map fun member => member := by
      apply List.map_congr_left
      intro member mem
      rw [eraseMember_of_nameless (blank member mem) (ih member mem)]
    rw [List.map_id'] at fixed
    rw [Tree.erase, not_isAssertion_of_nameless (.node blank each), Tree.eraseMembers_eq_map, fixed]

/-- The trees without names are those that erasing leaves as they are. -/
theorem nameless_iff : Nameless tree ↔ tree.erase .elsewhere = tree := by
  constructor
  · exact erase_of_nameless
  · intro fixed
    rw [← fixed]
    exact nameless_erase tree .elsewhere

theorem nameless_of_mem_walk (nameless : Nameless tree) :
    ∀ node ∈ tree.walk, Nameless node.tree := by
  intro node mem
  induction nameless with
  | list each ih =>
    rw [Tree.walk, Tree.walkItems_eq_flatMap_walk] at mem
    obtain ⟨item, memItems, below⟩ := List.mem_flatMap.mp mem
    exact ih item memItems below
  | map each ih =>
    rw [Tree.walk, Tree.walkEntries_eq_flatMap_walk] at mem
    obtain ⟨entry, memEntries, below⟩ := List.mem_flatMap.mp mem
    exact ih entry memEntries below
  | node blank each ih =>
    rw [Tree.walk, Tree.walkEntries_eq_flatMap_walk] at mem
    rcases List.mem_cons.mp mem with rfl | later
    · exact .node blank each
    · obtain ⟨member, memMembers, below⟩ := List.mem_flatMap.mp later
      exact ih member memMembers below
  | _ => cases mem

end Fixed

end ContractTwins.Syntax

namespace ContractTwins

open Syntax

/-- Erasing a node a second time changes nothing, although no node in it is the call of an assertion
any more. So a contract keeps its structural digest when its identifiers are erased. -/
theorem erase_twice (node : Node) :
    node.erase.erase = node.erase ∧
      (∀ below ∈ node.erase.walk, isAssertion below.kind below.members = false) ∧
      ∀ algorithm, Canonical.ofNode node.erase algorithm = Canonical.ofNode node algorithm ∧
        (isContract node → ∃ digest, Record.digest node ⟨algorithm, .structural⟩ = .ok digest ∧
          Record.digest node.erase ⟨algorithm, .structural⟩ = .ok digest) := by
  have nameless : Nameless node.erase.tree := by
    rw [Node.tree_erase]
    exact nameless_erase node.tree .elsewhere
  have fixed : node.erase.erase = node.erase := by
    apply Node.eq_of_tree_eq
    rw [Node.tree_erase]
    exact nameless_iff.mp nameless
  have form : ∀ algorithm,
      Canonical.ofNode node.erase algorithm = Canonical.ofNode node algorithm := by
    intro algorithm
    have kind : isContract node.erase = isContract node := rfl
    unfold Canonical.ofNode
    rw [fixed, kind]
    rfl
  refine ⟨fixed, ?_, ?_⟩
  · intro below mem
    exact not_isAssertion_of_nameless (nameless_of_mem_walk nameless below mem)
  · intro algorithm
    refine ⟨form algorithm, ?_⟩
    intro contract
    -- A contract has a canonical form, so the digest is there to be compared.
    obtain ⟨canonical, made, digest⟩ := structural_digest contract algorithm
    refine ⟨canonical.digest, digest, ?_⟩
    unfold Record.digest
    rw [form algorithm, made]

theorem erase_twice_in_vault :
    isContract goldVault ∧
      (∃ below ∈ goldVault.walk, isAssertion below.kind below.members = true) ∧
      (∀ below ∈ goldVault.erase.walk, isAssertion below.kind below.members = false) ∧
      ∃ digest, Record.digest goldVault ⟨.sha256, .structural⟩ = .ok digest ∧
        Record.digest goldVault.erase ⟨.sha256, .structural⟩ = .ok digest := by
  have contract : isContract goldVault := rfl
  have call : demand "require" "paid" ∈ goldVault.walk := by
    simp [goldVault, vault, deposit, purse, coin, Node.walk, Node.tree, Tree.walk, Tree.walkEntries,
      Tree.walkItems, demand]
  obtain ⟨-, plain, forms⟩ := erase_twice goldVault
  exact ⟨contract, ⟨_, call, rfl⟩, plain, (forms .sha256).2 contract⟩

end ContractTwins
