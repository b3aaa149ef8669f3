import ContractTwins.Proofs.ModifierNames

/-!
What a structural digest keeps of a modifier. Its name is erased where it is defined, and kept where
functions use it: a use has no typed name. The digest of a contract that uses the modifier changes
with the name, but for a collision.
-/
namespace ContractTwins

open Syntax

section Parts

variable {node : Node} {name member : String}

theorem ne_invocation_of_field {kind : String} {shape : Shape}
    (named : shapeOf? kind member = some shape) : kind ≠ invocation := by
  rintro rfl
  have none : fieldsOf invocation = [] := by decide
  have mem := shapeOf?_eq_some_iff.mp named
  rw [none] at mem
  cases mem

theorem wellShaped_replace {kind : String} {members : List (String × Tree)} {shape : Shape}
    {value : Tree} (shaped : WellShaped kind members) (named : shapeOf? kind member = some shape)
    (holds : shape.Holds value) : WellShaped kind (SortedMap.replace member value members) := by
  rw [SortedMap.replace_eq_map]
  refine wellShaped_map_values (fun key held => if key = member then value else held) shaped ?_
  intro field mem held fits
  by_cases same : field.name = member
  · have shapes := shapeOf?_eq_some_iff.mpr mem
    rw [same, named] at shapes
    rw [if_pos same, ← Option.some.inj shapes]
    exact holds
  · rw [if_neg same]
    exact fits

theorem lifted_withMember {shape : Shape} {value : Tree} (lifted : Lifted node)
    (named : shapeOf? node.kind member = some shape) (holds : shape.Holds value)
    (well : value.WellFormed) : Lifted (node.withMember member value) := by
  rw [lifted_iff_wellFormed] at lifted ⊢
  obtain ⟨kind, members⟩ := node
  cases lifted with
  | node shaped each =>
    refine .node (wellShaped_replace shaped named holds) fun entry mem => ?_
    obtain ⟨original, memMembers, rfl⟩ := List.mem_map.mp mem
    split
    · exact well
    · exact each original memMembers

theorem invokes_iff_outermost {tree : Tree} :
    Invokes tree name ↔ ∃ below ∈ tree.outermost, Invokes below.tree name := by
  rw [Invokes, Tree.walk_eq_flatMap, exists_uses_flatMap]
  rfl

theorem invokes_iff_parts (member : String) (lifted : Lifted node)
    (other : node.kind ≠ invocation) :
    Invokes node.tree name ↔ Invokes (node.withMember member (.list [])).tree name ∨
      ∃ below ∈ node.nodesAt member, Invokes below.tree name := by
  obtain ⟨kind, members⟩ := node
  have distinct : (members.map Prod.fst).Nodup := by
    cases wellFormed_of_lifted lifted with
    | node shaped each => exact nodup_members shaped
  have noUse : ∀ held, ¬(Node.mk kind held).Uses name := fun held uses => other uses.1
  have empty : ¬Invokes (.list []) name := by simp [invokes_list]
  rw [Node.tree, Node.tree, invokes_node, or_iff_right (noUse _), Node.withMember, invokes_node,
    or_iff_right (noUse _)]
  constructor
  · rintro ⟨⟨key, value⟩, mem, invokes⟩
    by_cases same : key = member
    · subst same
      rw [nodesAt_of_mem distinct mem]
      exact .inr (invokes_iff_outermost.mp invokes)
    · exact .inl ⟨_, List.mem_map.mpr ⟨_, mem, if_neg same⟩, invokes⟩
  · rintro (⟨entry, mem, invokes⟩ | ⟨below, mem, invokes⟩)
    · obtain ⟨original, memMembers, rfl⟩ := List.mem_map.mp mem
      split at invokes
      · exact absurd invokes empty
      · exact ⟨original, memMembers, invokes⟩
    · rw [Node.nodesAt] at mem
      split at mem
      · rename_i tree found
        exact ⟨_, SortedMap.mem_of_lookup_eq_some found,
          invokes_iff_outermost.mpr ⟨below, mem, invokes⟩⟩
      · cases mem

end Parts

section Digests

variable {a b d e : Node} {name : String} {algorithm : Algorithm}

theorem invokes_of_parts {kind member : String} {shape : Shape} (liftedD : Lifted d)
    (liftedE : Lifted e) (kindD : d.kind = kind) (kindE : e.kind = kind)
    (named : shapeOf? kind member = some shape) (holds : shape.Holds (.list []))
    (rest : (d.withMember member (.list [])).encode = (e.withMember member (.list [])).encode)
    (parts : ∀ y ∈ e.nodesAt member, Invokes y.tree name →
      ∃ x ∈ d.nodesAt member, Invokes x.tree name)
    (invokes : Invokes e.tree name) : Invokes d.tree name := by
  have nothing : (Tree.list []).WellFormed := .list (by simp)
  have other := ne_invocation_of_field named
  have same := Node.encode_injective
    (lifted_withMember liftedD (kindD ▸ named) holds nothing)
    (lifted_withMember liftedE (kindE ▸ named) holds nothing) rest
  rw [invokes_iff_parts member liftedE (kindE ▸ other), ← same] at invokes
  rw [invokes_iff_parts member liftedD (kindD ▸ other)]
  rcases invokes with outside | ⟨y, mem, inside⟩
  · exact .inl outside
  · exact .inr (parts y mem inside)

theorem invokes_of_sameDeclaration (liftedD : Lifted d) (liftedE : Lifted e)
    (same : SameDeclaration d e) (invokes : Invokes e.tree name) : Invokes d.tree name := by
  rcases same with encoded | ⟨structD, structE, rest, perm⟩
  · rwa [Node.encode_injective liftedD liftedE encoded]
  · have named : shapeOf? "StructDefinition" "members" = some .nodes := by decide
    refine invokes_of_parts liftedD liftedE structD structE named (by simp [Shape.Holds]) rest ?_
      invokes
    intro y mem inside
    have encoded : y.encode ∈ (d.nodesAt "members").map Node.encode :=
      perm.mem_iff.mpr (List.mem_map_of_mem mem)
    obtain ⟨x, memX, same⟩ := List.mem_map.mp encoded
    have tree := Node.encode_injective (lifted_nodesAt liftedD memX) (lifted_nodesAt liftedE mem)
      same
    exact ⟨x, memX, tree ▸ inside⟩

/-- Contracts of one structural digest use the same modifiers, if nothing collides. -/
theorem invokes_of_digest (liftedA : Lifted a) (liftedB : Lifted b) (contractA : isContract a)
    (contractB : isContract b)
    (free : CollisionFree algorithm (structuralInputs algorithm a ++ structuralInputs algorithm b))
    (same : Record.digest a ⟨algorithm, .structural⟩ = Record.digest b ⟨algorithm, .structural⟩)
    (invokes : Invokes b.erase.tree name) : Invokes a.erase.tree name := by
  obtain ⟨rest, paired, perm, pairs⟩ :=
    same_parts_of_digest liftedA liftedB contractA contractB free same
  have named : shapeOf? "ContractDefinition" "subNodes" = some .writtenNodes := by decide
  refine invokes_of_parts (lifted_erase liftedA) (lifted_erase liftedB) (eq_of_beq contractA)
    (eq_of_beq contractB) named (by simp [Shape.Holds]) rest ?_ invokes
  intro e mem inside
  obtain ⟨d, memD, declaration⟩ := Outcome.exists_of_mem_right pairs (perm.mem_iff.mpr mem)
  have liftedD := lifted_nodesAt (lifted_erase liftedA) memD
  have liftedE := lifted_nodesAt (lifted_erase liftedB) mem
  exact ⟨d, memD, invokes_of_sameDeclaration liftedD liftedE declaration inside⟩

end Digests

section Renamed

variable {contract : Node} {old new : String}

theorem erase_renameModifier_of_unused (oldPlain : old ∉ assertionNames)
    (newPlain : new ∉ assertionNames) (unused : Invokes contract.erase.tree old → old = new) :
    (contract.renameModifier old new).erase = contract.erase := by
  apply Node.eq_of_tree_eq
  rw [Node.tree_erase_renameModifier oldPlain newPlain]
  exact rename_eq_self unused

/-- Another name for a modifier leaves the structural digest of a contract if nothing in the
contract uses the modifier, and only then: from a contract that uses it, the renamed one is told
apart by the digest, unless two of the byte strings digested on the way collide. -/
theorem digest_of_renamed_modifier (lifted : Lifted contract) (kind : isContract contract)
    (oldPlain : old ∉ assertionNames) (newPlain : new ∉ assertionNames) (algorithm : Algorithm) :
    ((Invokes contract.erase.tree old → old = new) →
        Record.digest (contract.renameModifier old new) ⟨algorithm, .structural⟩ =
          Record.digest contract ⟨algorithm, .structural⟩) ∧
      (Invokes contract.erase.tree old → old ≠ new →
        Record.digest (contract.renameModifier old new) ⟨algorithm, .structural⟩ =
          Record.digest contract ⟨algorithm, .structural⟩ →
        ∃ x ∈ structuralInputs algorithm (contract.renameModifier old new) ++
            structuralInputs algorithm contract,
          ∃ y ∈ structuralInputs algorithm (contract.renameModifier old new) ++
              structuralInputs algorithm contract, Collide algorithm x y) := by
  have kindRenamed : isContract (contract.renameModifier old new) := kind
  constructor
  · intro unused
    have erased := erase_renameModifier_of_unused oldPlain newPlain unused
    rw [structural_digest_eq kind, structural_digest_eq kindRenamed, contractBytes, contractBytes,
      erased]
  · intro uses different same
    rcases collisionFree_or_collide algorithm
      (structuralInputs algorithm (contract.renameModifier old new) ++
        structuralInputs algorithm contract) with free | clash
    · have invokes := invokes_of_digest (Node.lifted_renameModifier lifted) lifted kindRenamed kind
        free same uses
      rw [Node.tree_erase_renameModifier oldPlain newPlain] at invokes
      exact absurd invokes (not_invokes_rename different _)
    · exact clash

def modifierNamed (name : String) : Node := ⟨"ModifierDefinition", [("name", .text name)]⟩

def guarded (name modifier : String) : Node where
  kind := "FunctionDefinition"
  members := [("name", .text name),
    ("modifiers", .list [.node "ModifierInvocation" [("name", .text modifier)]])]

def guardedVault (modifier : String) : Node :=
  vault "Gold" [modifierNamed modifier, guarded "pay" modifier]

theorem digest_of_renamed_vaults :
    "owned" ∉ assertionNames ∧ "open" ∉ assertionNames ∧
      ¬Invokes (vault "Gold" [modifierNamed "owned"]).erase.tree "owned" ∧
      Record.digest (vault "Gold" [modifierNamed "open"]) ⟨.sha256, .structural⟩ =
        Record.digest (vault "Gold" [modifierNamed "owned"]) ⟨.sha256, .structural⟩ ∧
      Invokes (guardedVault "owned").erase.tree "owned" ∧
      (Record.digest (guardedVault "open") ⟨.sha256, .structural⟩ =
          Record.digest (guardedVault "owned") ⟨.sha256, .structural⟩ →
        ∃ x ∈ structuralInputs .sha256 (guardedVault "open") ++
            structuralInputs .sha256 (guardedVault "owned"),
          ∃ y ∈ structuralInputs .sha256 (guardedVault "open") ++
              structuralInputs .sha256 (guardedVault "owned"), Collide .sha256 x y) := by
  have oldPlain : "owned" ∉ assertionNames := by decide
  have newPlain : "open" ∉ assertionNames := by decide
  have unused : ¬Invokes (vault "Gold" [modifierNamed "owned"]).erase.tree "owned" := by
    rintro ⟨node, mem, use, -⟩
    have kinds : ∀ below ∈ (vault "Gold" [modifierNamed "owned"]).erase.walk,
        below.kind ≠ invocation := by
      decide
    exact kinds node mem use
  have used : Invokes (guardedVault "owned").erase.tree "owned" :=
    ⟨⟨invocation, [("name", .text "owned")]⟩, .tail _ (.tail _ (.tail _ (.head _))), rfl, .head _⟩
  have lifted : Lifted (vault "Gold" [modifierNamed "owned"]) := lifted_of_lift_toJson rfl
  have liftedGuarded : Lifted (guardedVault "owned") := lifted_of_lift_toJson rfl
  have same := (digest_of_renamed_modifier lifted rfl oldPlain newPlain .sha256).1 (absurd · unused)
  have apart := (digest_of_renamed_modifier liftedGuarded rfl oldPlain newPlain .sha256).2 used
    (by decide)
  exact ⟨oldPlain, newPlain, unused, same, used, apart⟩

theorem ascending_pair (a b : String) :
    ascending [a, b] = if a ≤ b then [a, b] else [b, a] := by
  split
  · rename_i lower
    exact eq_of_ascending_perm (pairwise_ascending _) (by simp [lower]) (ascending_perm _)
  · rename_i higher
    have swapped := (ascending_perm [a, b]).trans (.swap b a [])
    exact eq_of_ascending_perm (pairwise_ascending _)
      (by simp [(String.le_total a b).resolve_left higher]) swapped

/-- A vault whose modifier got another name everywhere, and its structural digest with it. -/
theorem guarded_vault_told_apart :
    isContract (guardedVault "owned") ∧ "owned" ∉ assertionNames ∧ "open" ∉ assertionNames ∧
      (guardedVault "owned").renameModifier "owned" "open" = guardedVault "open" ∧
      Record.digest ((guardedVault "owned").renameModifier "owned" "open") ⟨.sha1, .structural⟩ ≠
        Record.digest (guardedVault "owned") ⟨.sha1, .structural⟩ := by
  have renamed : (guardedVault "owned").renameModifier "owned" "open" = guardedVault "open" := rfl
  have bytes : ∀ modifier, contractBytes .sha1 (guardedVault modifier) =
      Text.bytes (((guardedVault modifier).erase.withMember "subNodes" (.list [])).encodeWith
        "subNodes" (ascending [declarationDigest .sha1 (modifierNamed ""),
          declarationDigest .sha1 (guarded "" modifier)])) := fun _ => rfl
  have different : Algorithm.digest .sha1 (contractBytes .sha1 (guardedVault "open")) ≠
      Algorithm.digest .sha1 (contractBytes .sha1 (guardedVault "owned")) := by
    rw [bytes, bytes, ascending_pair, ascending_pair]
    decide +kernel
  refine ⟨rfl, by decide, by decide, renamed, ?_⟩
  rw [renamed, structural_digest_eq rfl, structural_digest_eq rfl]
  exact fun same => different (Except.ok.inj same)

end Renamed

end ContractTwins
