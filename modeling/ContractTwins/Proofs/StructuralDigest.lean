import ContractTwins.Proofs.ExactDigest
import Mathlib.Data.List.Perm.Basic

/-!
What a structural digest determines. The hash function is any of those in use: where two contracts
of one digest differ in more than names, assertion messages and order, two of the byte strings that
were digested on the way collide, and these are listed.
-/
namespace ContractTwins

open Syntax

section Members

variable {a b : Node} {name : String}

theorem toJson_eq_object (node : Node) :
    node.toJson = .object (SortedMap.ofList (nodeMembers node.kind node.members)) :=
  toJson_node node.kind node.members

theorem toJson_withMember (node : Node) (named : name ≠ tagKey) (value : Tree) :
    (node.withMember name value).toJson = node.toJson.replaceMember name value.toJson := by
  have written : Tree.entriesToJson (SortedMap.replace name value node.members) =
      SortedMap.replace name value.toJson (Tree.entriesToJson node.members) := by
    rw [SortedMap.replace_eq_map, SortedMap.replace_eq_map, Tree.entriesToJson_eq_map,
      Tree.entriesToJson_eq_map, List.map_map, List.map_map]
    refine List.map_congr_left fun member _ => ?_
    by_cases same : member.1 = name <;> simp [same]
  have whole : nodeMembers node.kind (SortedMap.replace name value node.members) =
      SortedMap.replace name value.toJson (nodeMembers node.kind node.members) := by
    rw [nodeMembers, written, nodeMembers, SortedMap.replace, SortedMap.replace, List.map_cons,
      if_neg (Ne.symm named)]
  have ordered := congrArg SortedMap.ofList whole
  rw [SortedMap.ofList_replace] at ordered
  rw [toJson_eq_object, toJson_eq_object]
  exact congrArg Json.object ordered

/-- What stood in the place of the digests does not count. -/
theorem encodeWith_withMember (node : Node) (named : name ≠ tagKey) (value : Tree)
    (digests : List String) :
    (node.withMember name value).encodeWith name digests = node.encodeWith name digests := by
  rw [Node.encodeWith, Node.encodeWith, toJson_withMember node named, toJson_eq_object]
  exact congrArg (fun members => Node.versioned (.object members)) (SortedMap.replace_replace _ _ _ _)

theorem present_written (node : Node) (present : name ∈ node.members.map Prod.fst) :
    name ∈ (SortedMap.ofList (nodeMembers node.kind node.members)).map Prod.fst := by
  rw [SortedMap.mem_keys_ofList, nodeMembers, List.map_cons, Tree.keys_entriesToJson]
  exact List.mem_cons_of_mem _ present

theorem digestList_injective {da db : List String}
    (same : Node.digestList da = Node.digestList db) : da = db :=
  List.map_injective_iff.mpr (fun _ _ eq => Json.text.inj eq) (Json.list.inj same)

theorem encodeWith_eq {da db : List String} (presentA : name ∈ a.members.map Prod.fst)
    (presentB : name ∈ b.members.map Prod.fst) (named : name ≠ tagKey)
    (same : a.encodeWith name da = b.encodeWith name db) :
    da = db ∧ (a.withMember name (.list [])).encode = (b.withMember name (.list [])).encode := by
  have objects := Node.versioned_injective same
  rw [toJson_eq_object, toJson_eq_object] at objects
  have replaced : SortedMap.replace name (Node.digestList da) (SortedMap.ofList _) =
      SortedMap.replace name (Node.digestList db) (SortedMap.ofList _) := Json.object.inj objects
  constructor
  · have found : (SortedMap.replace name (Node.digestList da) _).lookup name =
        some (Node.digestList da) := SortedMap.lookup_replace (present_written a presentA)
    rw [replaced, SortedMap.lookup_replace (present_written b presentB)] at found
    exact (digestList_injective (Option.some.inj found)).symm
  · have emptied := congrArg (SortedMap.replace name (Json.list [])) replaced
    rw [SortedMap.replace_replace, SortedMap.replace_replace] at emptied
    rw [Node.encode, Node.encode, toJson_withMember a named, toJson_withMember b named,
      toJson_eq_object, toJson_eq_object]
    exact congrArg (fun members => Node.versioned (.object members)) emptied

theorem present_field {node : Node} (lifted : Lifted node) {field : Field}
    (mem : field ∈ fieldsOf node.kind) : field.name ∈ node.members.map Prod.fst := by
  cases wellFormed_of_lifted lifted with
  | node shaped each =>
    obtain ⟨fields, attributes, eq, holds, -, -⟩ := shaped
    rw [eq, List.map_append, field_keys holds]
    exact List.mem_append_left _ (List.mem_map_of_mem mem)

theorem tag?_object {node : Node} (lifted : Lifted node) :
    tag? (SortedMap.ofList (nodeMembers node.kind node.members)) = some node.kind := by
  cases wellFormed_of_lifted lifted with
  | node shaped each => exact tag?_written shaped

theorem kind_of_encodeWith {digests : List String} (liftedA : Lifted a) (liftedB : Lifted b)
    (named : name ≠ tagKey) (same : a.encodeWith name digests = b.encode) : a.kind = b.kind := by
  have objects := Node.versioned_injective same
  rw [toJson_eq_object, toJson_eq_object] at objects
  have replaced : SortedMap.replace name (Node.digestList digests) (SortedMap.ofList _) =
      SortedMap.ofList _ := Json.object.inj objects
  have tagB := tag?_object liftedB
  rw [← replaced, tag?, SortedMap.lookup_replace_of_ne (Ne.symm named), ← tag?,
    tag?_object liftedA] at tagB
  exact Option.some.inj tagB

end Members

section Nodes

theorem outermostItems_eq_flatMap (items : List Tree) :
    Tree.outermostItems items = items.flatMap Tree.outermost := by
  induction items with
  | nil => rfl
  | cons item rest ih => rw [Tree.outermostItems, ih, List.flatMap_cons]

theorem outermostEntries_eq_flatMap (entries : List (String × Tree)) :
    Tree.outermostEntries entries = entries.flatMap fun entry => entry.2.outermost := by
  induction entries with
  | nil => rfl
  | cons entry rest ih => rw [Tree.outermostEntries, ih, List.flatMap_cons]

theorem wellFormed_outermost {tree : Tree} (well : tree.WellFormed) :
    ∀ node ∈ tree.outermost, node.tree.WellFormed := by
  intro node mem
  induction well with
  | null => cases mem
  | bool value => cases mem
  | number value => cases mem
  | text value => cases mem
  | list each ih =>
    rw [Tree.outermost, outermostItems_eq_flatMap] at mem
    obtain ⟨item, memItems, mem⟩ := List.mem_flatMap.mp mem
    exact ih item memItems mem
  | map ascending untagged each ih =>
    rw [Tree.outermost, outermostEntries_eq_flatMap] at mem
    obtain ⟨entry, memEntries, mem⟩ := List.mem_flatMap.mp mem
    exact ih entry memEntries mem
  | node shaped each ih =>
    rw [Tree.outermost, List.mem_singleton] at mem
    subst mem
    exact .node shaped each

theorem lifted_nodesAt {node below : Node} {name : String} (lifted : Lifted node)
    (mem : below ∈ node.nodesAt name) : Lifted below := by
  rw [Node.nodesAt] at mem
  split at mem
  · rename_i tree found
    cases wellFormed_of_lifted lifted with
    | node shaped each =>
      have held := SortedMap.mem_of_lookup_eq_some found
      exact lifted_iff_wellFormed.mpr (wellFormed_outermost (each _ held) below mem)
  · cases mem

end Nodes

def declarationBytes (algorithm : Algorithm) (node : Node) : List UInt8 :=
  if node.kind = "StructDefinition" then
    Text.bytes (node.encodeWith "members"
      (ascending ((node.nodesAt "members").map fun member => member.digest algorithm)))
  else Text.bytes node.encode

/-- All that is digested for a declaration: of a struct its members too. -/
def declarationInputs (algorithm : Algorithm) (node : Node) : List (List UInt8) :=
  declarationBytes algorithm node ::
    if node.kind = "StructDefinition" then
      (node.nodesAt "members").map fun member => Text.bytes member.encode
    else []

def contractBytes (algorithm : Algorithm) (node : Node) : List UInt8 :=
  Text.bytes ((node.erase.withMember "subNodes" (.list [])).encodeWith "subNodes"
    (ascending ((node.erase.nodesAt "subNodes").map (declarationDigest algorithm))))

/-- All that is digested for the structural digest of a contract. -/
def structuralInputs (algorithm : Algorithm) (node : Node) : List (List UInt8) :=
  contractBytes algorithm node ::
    (node.erase.nodesAt "subNodes").flatMap (declarationInputs algorithm)

theorem declarationDigest_eq (algorithm : Algorithm) (node : Node) :
    declarationDigest algorithm node = algorithm.digest (declarationBytes algorithm node) := by
  rw [declarationDigest, declarationBytes]
  split <;> rfl

theorem structural_digest_eq {node : Node} (contract : isContract node) (algorithm : Algorithm) :
    Record.digest node ⟨algorithm, .structural⟩ =
      .ok (algorithm.digest (contractBytes algorithm node)) := by
  rw [Record.digest, Canonical.ofNode_of_isContract contract]
  rfl

/-- The second list is related to the first item by item once it is put in some other order. -/
def PairUp {α β : Type} (related : α → β → Prop) (as : List α) (bs : List β) : Prop :=
  ∃ paired, paired.Perm bs ∧ List.Forall₂ related as paired

section PairUp

variable {α β : Type} {as bs : List α} {f : α → β}

theorem pairUp_of_perm (perm : (as.map f).Perm (bs.map f)) :
    PairUp (fun a b => f a = f b) as bs := by
  have pairs : List.Forall₂ (fun image b => image = f b) (bs.map f) bs := by
    rw [List.forall₂_map_left_iff, List.forall₂_same]
    exact fun _ _ => rfl
  obtain ⟨paired, related, permuted⟩ := List.perm_comp_forall₂ perm pairs
  exact ⟨paired, permuted, List.forall₂_map_left_iff.mp related⟩

theorem perm_of_pairUp (pairs : PairUp (fun a b => f a = f b) as bs) :
    (as.map f).Perm (bs.map f) := by
  obtain ⟨paired, permuted, related⟩ := pairs
  rw [← List.forall₂_map_right_iff, ← List.forall₂_map_left_iff, List.forall₂_eq_eq_eq] at related
  rw [related]
  exact permuted.map f

theorem PairUp.imp_mem {first second : α → α → Prop}
    (step : ∀ a ∈ as, ∀ b ∈ bs, first a b → second a b) (pairs : PairUp first as bs) :
    PairUp second as bs := by
  obtain ⟨paired, permuted, related⟩ := pairs
  refine ⟨paired, permuted, (Outcome.forall₂_mem related).imp ?_⟩
  rintro a b ⟨memA, memB, holds⟩
  exact step a memA b (permuted.mem_iff.mp memB) holds

end PairUp

def CollisionFree (algorithm : Algorithm) (inputs : List (List UInt8)) : Prop :=
  ∀ x ∈ inputs, ∀ y ∈ inputs, algorithm.digest x = algorithm.digest y → x = y

theorem collisionFree_or_collide (algorithm : Algorithm) (inputs : List (List UInt8)) :
    CollisionFree algorithm inputs ∨ ∃ x ∈ inputs, ∃ y ∈ inputs, Collide algorithm x y := by
  by_cases clash : ∃ x ∈ inputs, ∃ y ∈ inputs, Collide algorithm x y
  · exact .inr clash
  · refine .inl fun x memX y memY digests => ?_
    by_contra different
    exact clash ⟨x, memX, y, memY, different, digests⟩

section Declarations

variable {algorithm : Algorithm} {d e : Node}

/-- Declarations are the same if they are encoded alike. Of two structs the members count as a
multiset. -/
def SameDeclaration (d e : Node) : Prop :=
  d.encode = e.encode ∨
    d.kind = "StructDefinition" ∧ e.kind = "StructDefinition" ∧
      (d.withMember "members" (.list [])).encode = (e.withMember "members" (.list [])).encode ∧
      ((d.nodesAt "members").map Node.encode).Perm ((e.nodesAt "members").map Node.encode)

theorem present_members (lifted : Lifted d) (struct : d.kind = "StructDefinition") :
    "members" ∈ d.members.map Prod.fst := by
  have membersField : (⟨"members", .nodes⟩ : Field) ∈ fieldsOf "StructDefinition" := by decide
  rw [← struct] at membersField
  exact present_field lifted membersField

theorem bytes_mem_declarationInputs : declarationBytes algorithm d ∈ declarationInputs algorithm d := by
  unfold declarationInputs
  exact List.mem_cons_self

theorem mem_declarationInputs {node member : Node} (struct : node.kind = "StructDefinition")
    (mem : member ∈ node.nodesAt "members") :
    Text.bytes member.encode ∈ declarationInputs algorithm node := by
  unfold declarationInputs
  rw [if_pos struct]
  exact List.mem_cons_of_mem _ (List.mem_map_of_mem mem)

theorem encodings_of_digests {as bs : List Node} {inputs : List (List UInt8)}
    (free : CollisionFree algorithm inputs)
    (inputsA : ∀ node ∈ as, Text.bytes node.encode ∈ inputs)
    (inputsB : ∀ node ∈ bs, Text.bytes node.encode ∈ inputs)
    (perm : (as.map fun node => node.digest algorithm).Perm
      (bs.map fun node => node.digest algorithm)) :
    (as.map Node.encode).Perm (bs.map Node.encode) := by
  apply perm_of_pairUp
  apply (pairUp_of_perm perm).imp_mem
  intro a memA b memB same
  rcases digest_eq_cases same with encoded | collision
  · exact encoded
  · exact absurd (free _ (inputsA a memA) _ (inputsB b memB) collision.2) collision.1

theorem sameDeclaration_of_digest (liftedD : Lifted d) (liftedE : Lifted e)
    {inputs : List (List UInt8)} (free : CollisionFree algorithm inputs)
    (inputsD : declarationInputs algorithm d ⊆ inputs)
    (inputsE : declarationInputs algorithm e ⊆ inputs)
    (same : declarationDigest algorithm d = declarationDigest algorithm e) : SameDeclaration d e := by
  rw [declarationDigest_eq, declarationDigest_eq] at same
  have bytes := free _ (inputsD bytes_mem_declarationInputs) _ (inputsE bytes_mem_declarationInputs)
    same
  have named : "members" ≠ tagKey := by decide
  unfold declarationBytes at bytes
  by_cases structD : d.kind = "StructDefinition"
  · by_cases structE : e.kind = "StructDefinition"
    · rw [if_pos structD, if_pos structE] at bytes
      obtain ⟨digests, rest⟩ := encodeWith_eq (present_members liftedD structD)
        (present_members liftedE structE) named (Text.bytes_injective bytes)
      refine Or.inr ⟨structD, structE, rest, ?_⟩
      apply encodings_of_digests free _ _ (perm_of_ascending digests)
      · intro member mem
        exact inputsD (mem_declarationInputs structD mem)
      · intro member mem
        exact inputsE (mem_declarationInputs structE mem)
    · rw [if_pos structD, if_neg structE] at bytes
      have kinds := kind_of_encodeWith liftedD liftedE named (Text.bytes_injective bytes)
      exact absurd (kinds.symm.trans structD) structE
  · by_cases structE : e.kind = "StructDefinition"
    · rw [if_neg structD, if_pos structE] at bytes
      have kinds := kind_of_encodeWith liftedE liftedD named (Text.bytes_injective bytes.symm)
      exact absurd (kinds.symm.trans structE) structD
    · rw [if_neg structD, if_neg structE] at bytes
      exact Or.inl (Text.bytes_injective bytes)

end Declarations

section Contracts

variable {a b : Node} {algorithm : Algorithm}

theorem mem_structuralInputs {node declaration : Node} {bytes : List UInt8}
    (memNode : declaration ∈ node.erase.nodesAt "subNodes")
    (mem : bytes ∈ declarationInputs algorithm declaration) :
    bytes ∈ structuralInputs algorithm node :=
  List.mem_cons_of_mem _ (List.mem_flatMap.mpr ⟨declaration, memNode, mem⟩)

theorem present_subNodes {node : Node} (lifted : Lifted node) (contract : isContract node) :
    "subNodes" ∈ (node.erase.withMember "subNodes" (.list [])).members.map Prod.fst := by
  have kind : node.erase.kind = "ContractDefinition" := eq_of_beq contract
  have subNodesField : (⟨"subNodes", .writtenNodes⟩ : Field) ∈ fieldsOf "ContractDefinition" := by
    decide
  have present := present_field (lifted_erase lifted) (kind ▸ subNodesField)
  rw [← SortedMap.keys_replace "subNodes" (Tree.list [])] at present
  exact present

theorem withMember_withMember (node : Node) (name : String) (first second : Tree) :
    (node.withMember name first).withMember name second = node.withMember name second :=
  congrArg (Node.mk node.kind) (SortedMap.replace_replace name first second node.members)

/-- Without a collision, one structural digest is that of one contract up to names, assertion
messages and order. -/
theorem same_parts_of_digest (liftedA : Lifted a) (liftedB : Lifted b) (contractA : isContract a)
    (contractB : isContract b)
    (free : CollisionFree algorithm (structuralInputs algorithm a ++ structuralInputs algorithm b))
    (same : Record.digest a ⟨algorithm, .structural⟩ = Record.digest b ⟨algorithm, .structural⟩) :
    (a.erase.withMember "subNodes" (.list [])).encode =
        (b.erase.withMember "subNodes" (.list [])).encode ∧
      PairUp SameDeclaration (a.erase.nodesAt "subNodes") (b.erase.nodesAt "subNodes") := by
  rw [structural_digest_eq contractA, structural_digest_eq contractB] at same
  have bytes := free _ (List.mem_append_left _ List.mem_cons_self) _
    (List.mem_append_right _ List.mem_cons_self) (Except.ok.inj same)
  obtain ⟨digests, rest⟩ := encodeWith_eq (present_subNodes liftedA contractA)
    (present_subNodes liftedB contractB) (by decide) (Text.bytes_injective bytes)
  rw [withMember_withMember, withMember_withMember] at rest
  constructor
  · exact rest
  · apply (pairUp_of_perm (perm_of_ascending digests)).imp_mem
    intro d memD e memE digest
    have liftedD := lifted_nodesAt (lifted_erase liftedA) memD
    have liftedE := lifted_nodesAt (lifted_erase liftedB) memE
    apply sameDeclaration_of_digest liftedD liftedE free _ _ digest
    · intro x mem
      exact List.mem_append_left _ (mem_structuralInputs memD mem)
    · intro x mem
      exact List.mem_append_right _ (mem_structuralInputs memE mem)

/-- Two contracts of one structural digest are encoded alike once names, assertion messages and
declarations are gone, and their declarations pair up, or two of the byte strings that were digested
for them collide. -/
theorem structural_digest_determines (liftedA : Lifted a) (liftedB : Lifted b)
    (contractA : isContract a) (contractB : isContract b)
    (same : Record.digest a ⟨algorithm, .structural⟩ = Record.digest b ⟨algorithm, .structural⟩) :
    ((a.erase.withMember "subNodes" (.list [])).encode =
        (b.erase.withMember "subNodes" (.list [])).encode ∧
      PairUp SameDeclaration (a.erase.nodesAt "subNodes") (b.erase.nodesAt "subNodes")) ∨
    ∃ x ∈ structuralInputs algorithm a ++ structuralInputs algorithm b,
      ∃ y ∈ structuralInputs algorithm a ++ structuralInputs algorithm b,
        Collide algorithm x y := by
  rcases collisionFree_or_collide algorithm
    (structuralInputs algorithm a ++ structuralInputs algorithm b) with free | clash
  · exact .inl (same_parts_of_digest liftedA liftedB contractA contractB free same)
  · exact .inr clash

theorem structural_digest_of_vaults :
    Lifted goldVault ∧ Lifted silverVault ∧
      Record.digest goldVault ⟨.sha256, .structural⟩ =
        Record.digest silverVault ⟨.sha256, .structural⟩ ∧
      (((goldVault.erase.withMember "subNodes" (.list [])).encode =
          (silverVault.erase.withMember "subNodes" (.list [])).encode ∧
        PairUp SameDeclaration (goldVault.erase.nodesAt "subNodes")
          (silverVault.erase.nodesAt "subNodes")) ∨
      ∃ x ∈ structuralInputs .sha256 goldVault ++ structuralInputs .sha256 silverVault,
        ∃ y ∈ structuralInputs .sha256 goldVault ++ structuralInputs .sha256 silverVault,
          Collide .sha256 x y) := by
  have erased : goldVault.erase = silverVault.erase := rfl
  have same : Record.digest goldVault ⟨.sha256, .structural⟩ =
      Record.digest silverVault ⟨.sha256, .structural⟩ := by
    rw [structural_digest_eq rfl, structural_digest_eq rfl, contractBytes, contractBytes, erased]
  exact ⟨lifted_goldVault, lifted_silverVault, same,
    structural_digest_determines lifted_goldVault lifted_silverVault rfl rfl same⟩

end Contracts

end ContractTwins
