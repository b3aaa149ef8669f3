import ContractTwins.Proofs.Renaming

/-!
The digests that a canonical form keeps. Which digest stands for a declaration is said apart from
how it is computed: the kinds into which declarations are sorted on the way do not occur in it.
-/
namespace ContractTwins

open Syntax

/-- A digest stands for a declaration if it is taken of the encoding. In a struct the ascending
digests of the members have taken their place. -/
inductive StandsFor (algorithm : Algorithm) (declaration : Node) : String → Prop where
  | plain (other : declaration.kind ≠ "StructDefinition") :
      StandsFor algorithm declaration (algorithm.digest (Text.bytes declaration.encode))
  | struct {digests : List String} (kind : declaration.kind = "StructDefinition")
      (ordered : digests.Pairwise (· ≤ ·))
      (members : digests.Perm ((declaration.nodesAt "members").map fun member =>
        algorithm.digest (Text.bytes member.encode))) :
      StandsFor algorithm declaration
        (algorithm.digest (Text.bytes (declaration.encodeWith "members" digests)))

section Declarations

variable {algorithm : Algorithm} {declaration : Node}

theorem standsFor_declarationDigest :
    StandsFor algorithm declaration (declarationDigest algorithm declaration) := by
  by_cases kind : declaration.kind = "StructDefinition"
  · rw [declarationDigest_struct kind]
    apply StandsFor.struct kind
    · exact pairwise_ascending _
    · exact ascending_perm _
  · unfold declarationDigest
    rw [if_neg kind]
    exact .plain kind

/-- One digest at most stands for a declaration: the members of a struct have one ascending list of
digests. -/
theorem eq_declarationDigest {digest : String} (stands : StandsFor algorithm declaration digest) :
    digest = declarationDigest algorithm declaration := by
  cases stands with
  | plain other =>
    unfold declarationDigest
    rw [if_neg other]
    rfl
  | struct kind ordered members =>
    have same := eq_of_ascending_perm ordered (pairwise_ascending _)
      (members.trans (ascending_perm _).symm)
    rw [declarationDigest_struct kind, same]
    rfl

theorem standsFor_iff {digest : String} :
    StandsFor algorithm declaration digest ↔ declarationDigest algorithm declaration = digest := by
  constructor
  · intro stands
    exact (eq_declarationDigest stands).symm
  · rintro rfl
    exact standsFor_declarationDigest

theorem pairUp_standsFor (algorithm : Algorithm) (declarations : List Node) :
    PairUp (StandsFor algorithm) declarations
      (ascending (declarations.map (declarationDigest algorithm))) := by
  refine ⟨declarations.map (declarationDigest algorithm), (ascending_perm _).symm, ?_⟩
  simp only [standsFor_iff, List.forall₂_map_right_iff, List.forall₂_same, implies_true]

end Declarations

theorem declarations_erase {node : Node} (kind : node.kind = "ContractDefinition") :
    node.erase.nodesAt "subNodes" = (node.nodesAt "subNodes").map Node.erase := by
  apply nodesAt_erase
  · rw [kind]
    decide
  · rw [kind, bearsName_iff]
    decide

namespace Canonical

/-- A contract always has a canonical form. Its digests ascend, and there is exactly one for each
declaration, whatever the kinds of these are: in any other order the declarations would have given
the same digests. A node that is no contract is reported by its kind, and a changed count never
is. -/
theorem one_digest_each (node : Node) (algorithm : Algorithm) :
    (node.kind = "ContractDefinition" →
      ∃ form, ofNode node algorithm = .ok form ∧
        form.declarations.Pairwise (· ≤ ·) ∧
        PairUp (StandsFor algorithm) (node.erase.nodesAt "subNodes") form.declarations ∧
        form.declarations.length = (node.nodesAt "subNodes").length ∧
        ∀ others : List Node, others.Perm (node.erase.nodesAt "subNodes") →
          ascending (others.map (declarationDigest algorithm)) = form.declarations) ∧
      (node.kind ≠ "ContractDefinition" →
        ofNode node algorithm = .error (.notAContract node.kind)) ∧
      ∀ before after, ofNode node algorithm ≠ .error (.declarationCountChanged before after) := by
  by_cases kind : node.kind = "ContractDefinition"
  · have made := ofNode_of_isContract (beq_iff_eq.mpr kind) algorithm
    refine ⟨?_, absurd kind, ?_⟩
    · intro _
      refine ⟨_, made, pairwise_ascending _, pairUp_standsFor algorithm _, ?_, ?_⟩
      · rw [(ascending_perm _).length_eq, declarations_erase kind]
        simp only [List.length_map]
      · intro others perm
        exact ascending_eq_of_perm (perm.map _)
    · intro before after failed
      rw [made] at failed
      cases failed
  · have failed : ofNode node algorithm = .error (.notAContract node.kind) := by
      unfold ofNode
      rw [if_neg]
      simpa [isContract] using kind
    refine ⟨fun contract => absurd contract kind, fun _ => failed, ?_⟩
    intro before after changed
    rw [failed] at changed
    cases changed

theorem one_digest_each_in_vault :
    goldVault.kind = "ContractDefinition" ∧
      (∃ form, ofNode goldVault .sha256 = .ok form ∧ form.declarations.length = 2 ∧
        PairUp (StandsFor .sha256) (goldVault.erase.nodesAt "subNodes") form.declarations ∧
        ascending ((goldVault.erase.nodesAt "subNodes").reverse.map (declarationDigest .sha256)) =
          form.declarations) ∧
      ofNode (coin "owner" "address") .sha256 = .error (.notAContract "VariableDeclaration") := by
  have kind : goldVault.kind = "ContractDefinition" := rfl
  obtain ⟨form, made, -, pairs, count, orders⟩ := (one_digest_each goldVault .sha256).1 kind
  have other : (coin "owner" "address").kind ≠ "ContractDefinition" := by decide
  have reversed := orders _ (List.reverse_perm _)
  exact ⟨kind, ⟨form, made, count, pairs, reversed⟩, (one_digest_each _ .sha256).2.1 other⟩

end Canonical

end ContractTwins
