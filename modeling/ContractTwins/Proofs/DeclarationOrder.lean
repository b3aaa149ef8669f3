import ContractTwins.Canonical.Contract
import Mathlib.Data.List.Perm.Basic

/-!
Declarations are sorted out by their kinds, reduced to their digests, and the digests of all kinds
are put in ascending order. The kinds leave no trace in the outcome.
-/
namespace ContractTwins

open Syntax

section Ascending

variable {as bs : List String}

theorem ascending_perm (digests : List String) : (ascending digests).Perm digests := by
  unfold ascending
  exact List.mergeSort_perm _ _

theorem pairwise_ascending (digests : List String) : (ascending digests).Pairwise (· ≤ ·) := by
  have transitive : ∀ a b c : String, decide (a ≤ b) → decide (b ≤ c) → decide (a ≤ c) := by
    intro a b c lower higher
    exact decide_eq_true (String.le_trans (of_decide_eq_true lower) (of_decide_eq_true higher))
  have total : ∀ a b : String, decide (a ≤ b) || decide (b ≤ a) := by
    intro a b
    simpa using String.le_total a b
  unfold ascending
  exact (List.pairwise_mergeSort transitive total digests).imp of_decide_eq_true

theorem eq_of_ascending_perm (orderedA : as.Pairwise (· ≤ ·)) (orderedB : bs.Pairwise (· ≤ ·))
    (perm : as.Perm bs) : as = bs := by
  refine List.Perm.eq_of_pairwise ?_ orderedA orderedB perm
  intro a b _ _ lower higher
  exact String.le_antisymm lower higher

theorem perm_of_ascending (same : ascending as = ascending bs) : as.Perm bs := by
  have permA := ascending_perm as
  rw [same] at permA
  exact permA.symm.trans (ascending_perm bs)

theorem ascending_eq_of_perm (perm : as.Perm bs) : ascending as = ascending bs := by
  have ordered := ((ascending_perm as).trans perm).trans (ascending_perm bs).symm
  exact eq_of_ascending_perm (pairwise_ascending as) (pairwise_ascending bs) ordered

end Ascending

section Kinds

theorem sortIn_perm (kinds : List (String × List Node)) (node : Node) :
    ((sortIn kinds node).flatMap Prod.snd).Perm (node :: kinds.flatMap Prod.snd) := by
  unfold sortIn
  induction kinds with
  | nil => exact List.Perm.refl _
  | cons kind rest ih =>
    obtain ⟨name, nodes⟩ := kind
    rw [SortedMap.alter]
    -- The kind of the node is lower than all that are there, is the first, or comes later.
    split
    · exact List.Perm.refl _
    · simp only [List.flatMap_cons, Option.getD_some]
      exact List.perm_append_singleton node nodes |>.append_right _
    · simp only [List.flatMap_cons]
      exact (ih.append_left nodes).trans List.perm_middle

theorem foldl_sortIn_perm (kinds : List (String × List Node)) (nodes : List Node) :
    ((nodes.foldl sortIn kinds).flatMap Prod.snd).Perm (kinds.flatMap Prod.snd ++ nodes) := by
  induction nodes generalizing kinds with
  | nil => simp
  | cons node rest ih =>
    rw [List.foldl_cons]
    have sorted := (sortIn_perm kinds node).append_right rest
    exact (ih _).trans (sorted.trans List.perm_middle.symm)

theorem byKind_perm (nodes : List Node) : ((byKind nodes).flatMap Prod.snd).Perm nodes := by
  unfold byKind
  simpa using foldl_sortIn_perm [] nodes

theorem ascending_byKind (digest : Node → String) (nodes : List Node) :
    ascending ((byKind nodes).flatMap fun kind => kind.2.map digest) =
      ascending (nodes.map digest) := by
  apply ascending_eq_of_perm
  rw [← List.map_flatMap]
  exact (byKind_perm nodes).map digest

end Kinds

theorem Canonical.ofNode_of_isContract {node : Node} (contract : isContract node = true)
    (algorithm : Algorithm) :
    ofNode node algorithm =
      .ok ⟨node.erase.withMember "subNodes" (.list []),
        ascending ((node.erase.nodesAt "subNodes").map (declarationDigest algorithm)),
        algorithm⟩ := by
  have count := (ascending_perm
    ((node.erase.nodesAt "subNodes").map (declarationDigest algorithm))).length_eq
  rw [List.length_map] at count
  unfold ofNode
  rw [if_pos contract]
  simp only [ascending_byKind, count, if_true]

end ContractTwins
