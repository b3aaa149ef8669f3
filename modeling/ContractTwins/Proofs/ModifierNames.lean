import ContractTwins.Proofs.WalkedNodes

/-!
Another name for a modifier, in its definition, in identifiers and where functions use it. Erasing
takes the name out of definitions and identifiers, and leaves it in the uses.
-/
namespace ContractTwins.Syntax

def invocation : String := "ModifierInvocation"

def modifierKinds : List String := ["ModifierDefinition", "Identifier", invocation]

/-- What is written for a member instead of its value, if that is the old name. -/
def renamed? (kinds : List String) (old new kind name : String) : Tree → Option Tree
  | .text held => if kind ∈ kinds ∧ name = "name" ∧ held = old then some (.text new) else none
  | _ => none

namespace Tree

mutual

def rename (kinds : List String) (old new : String) : Tree → Tree
  | .node kind members => .node kind (renameMembers kinds old new kind members)
  | .list items => .list (renameItems kinds old new items)
  | .map entries => .map (renameEntries kinds old new entries)
  | .null => .null
  | .bool value => .bool value
  | .number value => .number value
  | .text value => .text value

def renameItems (kinds : List String) (old new : String) : List Tree → List Tree
  | [] => []
  | item :: rest => rename kinds old new item :: renameItems kinds old new rest

def renameEntries (kinds : List String) (old new : String) :
    List (String × Tree) → List (String × Tree)
  | [] => []
  | (key, value) :: rest => (key, rename kinds old new value) :: renameEntries kinds old new rest

def renameMembers (kinds : List String) (old new kind : String) :
    List (String × Tree) → List (String × Tree)
  | [] => []
  | (name, value) :: rest =>
    (name, (renamed? kinds old new kind name value).getD (rename kinds old new value)) ::
      renameMembers kinds old new kind rest

end

end Tree

def Node.renameModifier (node : Node) (old new : String) : Node :=
  ⟨node.kind, Tree.renameMembers modifierKinds old new node.kind node.members⟩

section Renaming

variable (kinds : List String) (old new : String)

def renameMember (kind name : String) (value : Tree) : Tree :=
  (renamed? kinds old new kind name value).getD (value.rename kinds old new)

namespace Tree

theorem renameItems_eq_map (items : List Tree) :
    renameItems kinds old new items = items.map (rename kinds old new) := by
  induction items with
  | nil => rfl
  | cons item rest ih => rw [renameItems, ih, List.map_cons]

theorem renameEntries_eq_map (entries : List (String × Tree)) :
    renameEntries kinds old new entries =
      entries.map fun entry => (entry.1, entry.2.rename kinds old new) := by
  induction entries with
  | nil => rfl
  | cons entry rest ih => rw [renameEntries, ih, List.map_cons]

theorem renameMembers_eq_map (kind : String) (members : List (String × Tree)) :
    renameMembers kinds old new kind members =
      members.map fun member => (member.1, renameMember kinds old new kind member.1 member.2) := by
  induction members with
  | nil => rfl
  | cons member rest ih => rw [renameMembers, ih, List.map_cons, renameMember]

end Tree

end Renaming

section Members

variable {kinds : List String} {old new kind name : String} {value : Tree}

theorem renamed?_eq_some_iff {other : Tree} :
    renamed? kinds old new kind name value = some other ↔
      kind ∈ kinds ∧ name = "name" ∧ value = .text old ∧ other = .text new := by
  cases value with
  | text held =>
    simp only [renamed?, Option.ite_none_right_eq_some, Option.some.injEq, Tree.text.injEq,
      eq_comm (a := other), and_assoc]
  | _ => simp [renamed?]

theorem renamed?_eq_none_iff :
    renamed? kinds old new kind name value = none ↔
      ¬(kind ∈ kinds ∧ name = "name" ∧ value = .text old) := by
  rw [Option.eq_none_iff_forall_ne_some]
  simp only [Ne, renamed?_eq_some_iff]
  constructor
  · rintro none ⟨listed, named, held⟩
    exact none _ ⟨listed, named, held, rfl⟩
  · rintro absent other ⟨listed, named, held, -⟩
    exact absent ⟨listed, named, held⟩

theorem renameMember_of_not (kept : ¬(kind ∈ kinds ∧ name = "name" ∧ value = .text old)) :
    renameMember kinds old new kind name value = value.rename kinds old new := by
  rw [renameMember, renamed?_eq_none_iff.mpr kept, Option.getD_none]

theorem renameMember_cases (kinds : List String) (old new kind name : String) (value : Tree) :
    (kind ∈ kinds ∧ name = "name" ∧ value = .text old ∧
        renameMember kinds old new kind name value = .text new) ∨
      ¬(kind ∈ kinds ∧ name = "name" ∧ value = .text old) ∧
        renameMember kinds old new kind name value = value.rename kinds old new := by
  by_cases holds : kind ∈ kinds ∧ name = "name" ∧ value = .text old
  · obtain ⟨listed, named, held⟩ := holds
    have renamed : renamed? kinds old new kind name value = some (.text new) :=
      renamed?_eq_some_iff.mpr ⟨listed, named, held, rfl⟩
    exact .inl ⟨listed, named, held, by rw [renameMember, renamed, Option.getD_some]⟩
  · exact .inr ⟨holds, renameMember_of_not holds⟩

end Members

section Erasing

variable {kinds : List String} {old new kind name : String} {place : Place} {value : Tree}

theorem eq_text_of_rename {text : String} (renamed : value.rename kinds old new = .text text) :
    value = .text text := by
  cases value with
  | text held => rw [Tree.rename] at renamed; exact renamed
  | _ => rw [Tree.rename] at renamed; cases renamed

theorem isList_renameMember :
    (∃ items, renameMember kinds old new kind name value = .list items) ↔
      ∃ items, value = .list items := by
  rcases renameMember_cases kinds old new kind name value with
    ⟨-, -, held, renamed⟩ | ⟨-, renamed⟩
  · rw [renamed, held]
    simp
  · rw [renamed]
    cases value <;> simp [Tree.rename]

/-- Of what is erased nothing depends on the value but whether it is a list. -/
theorem erased?_congr {other : Tree} (lists : (∃ items, value = .list items) ↔
    ∃ items, other = .list items) :
    erased? place kind name value = erased? place kind name other := by
  unfold erased?
  by_cases parts : name = "parts"
  · rw [parts]
    by_cases list : ∃ items, value = .list items
    · obtain ⟨_, rfl⟩ := lists.mp list
      obtain ⟨_, rfl⟩ := list
      rfl
    · have noList := mt lists.mpr list
      cases value with
      | list items => exact absurd ⟨items, rfl⟩ list
      | _ =>
        cases other with
        | list items => exact absurd ⟨items, rfl⟩ noList
        | _ => rfl
  by_cases content : name = "value"
  · rw [content]
    rfl
  -- Under any other name nothing is erased, whatever stands there.
  · split_ifs <;> try rfl
    split
    · exact absurd rfl content
    · exact absurd rfl parts
    · split
      · exact absurd rfl content
      · exact absurd rfl parts
      · rfl

theorem lookup_renameMembers (members : List (String × Tree)) (key : String) :
    (Tree.renameMembers kinds old new kind members).lookup key =
      (members.lookup key).map (renameMember kinds old new kind key) := by
  rw [Tree.renameMembers_eq_map, SortedMap.lookup_map_values (renameMember kinds old new kind)]

theorem isAssertionName_rename (oldPlain : old ∉ assertionNames) (newPlain : new ∉ assertionNames)
    (callee : Tree) : isAssertionName (callee.rename kinds old new) = isAssertionName callee := by
  rw [Bool.eq_iff_iff, isAssertionName_iff, isAssertionName_iff]
  constructor
  · rintro ⟨members, name, renamed, found, asserts⟩
    cases callee with
    | node kind held =>
      rw [Tree.rename] at renamed
      cases renamed
      rw [lookup_renameMembers, Option.map_eq_some_iff] at found
      obtain ⟨value, present, written⟩ := found
      rcases renameMember_cases kinds old new "Identifier" "name" value with
        ⟨-, -, -, renamed⟩ | ⟨-, renamed⟩
      · rw [renamed] at written
        cases written
        exact absurd (by simpa [assertionNames] using asserts) newPlain
      · rw [renamed] at written
        rw [eq_text_of_rename written] at present
        exact ⟨held, name, rfl, present, asserts⟩
    | _ => rw [Tree.rename] at renamed; cases renamed
  · rintro ⟨members, name, rfl, found, asserts⟩
    have other : name ≠ old := by
      rintro rfl
      exact oldPlain (by simpa [assertionNames] using asserts)
    have kept : renameMember kinds old new "Identifier" "name" (.text name) = .text name := by
      rw [renameMember_of_not (by simp [other]), Tree.rename]
    rw [Tree.rename]
    exact ⟨_, name, rfl, by rw [lookup_renameMembers, found, Option.map_some, kept], asserts⟩

theorem isAssertion_renameMembers (oldPlain : old ∉ assertionNames)
    (newPlain : new ∉ assertionNames) (members : List (String × Tree)) :
    isAssertion kind (Tree.renameMembers kinds old new kind members) =
      isAssertion kind members := by
  have callee : ∀ value, renameMember kinds old new kind "expression" value =
      value.rename kinds old new := fun value => renameMember_of_not (by simp)
  rw [Bool.eq_iff_iff, isAssertion_iff, isAssertion_iff]
  simp only [lookup_renameMembers, Option.map_eq_some_iff, callee]
  constructor
  · rintro ⟨call, _, ⟨value, found, rfl⟩, asserts⟩
    rw [isAssertionName_rename oldPlain newPlain] at asserts
    exact ⟨call, value, found, asserts⟩
  · rintro ⟨call, value, found, asserts⟩
    rw [← isAssertionName_rename oldPlain newPlain] at asserts
    exact ⟨call, _, ⟨value, found, rfl⟩, asserts⟩

theorem renameMember_blank {blank : Tree} (erased : erased? place kind name value = some blank) :
    renameMember [invocation] old new kind name blank = blank := by
  have fields : ∀ field ∈ nameFields, field.1 ∉ [invocation] := by decide
  have kept : kind ∉ [invocation] ∧ blank.rename [invocation] old new = blank := by
    rcases erased?_eq_some erased with ⟨named, rfl⟩ | ⟨rfl, -, rfl⟩ | ⟨-, rfl, ⟨-, rfl⟩ | ⟨-, rfl⟩⟩
    · exact ⟨fields _ named, by rw [Tree.rename]⟩
    · exact ⟨by decide, by rw [Tree.rename]⟩
    · exact ⟨by decide, by rw [Tree.rename]⟩
    · exact ⟨by decide, by rw [Tree.rename, Tree.renameItems]⟩
  rw [renameMember_of_not fun both => kept.1 both.1, kept.2]

/-- Of the names of modifiers only those in their uses are left by erasing. -/
theorem eq_invocation_of_kept (listed : kind ∈ modifierKinds)
    (kept : erased? place kind "name" value = none) : kind = invocation := by
  simp only [modifierKinds, List.mem_cons, List.not_mem_nil, or_false] at listed
  rcases listed with rfl | rfl | rfl
  · cases kept
  · cases kept
  · rfl

theorem eraseMember_renameMember {asserts : Bool}
    (inside : ∀ place, (value.rename modifierKinds old new).erase place =
      (value.erase place).rename [invocation] old new) :
    eraseMember place kind asserts name (renameMember modifierKinds old new kind name value) =
      renameMember [invocation] old new kind name (eraseMember place kind asserts name value) := by
  unfold eraseMember
  rw [erased?_congr isList_renameMember]
  cases erased : erased? place kind name value with
  | some blank => rw [Option.getD_some, Option.getD_some, renameMember_blank erased]
  | none =>
    rw [Option.getD_none, Option.getD_none]
    rcases renameMember_cases modifierKinds old new kind name value with
      ⟨listed, rfl, rfl, renamed⟩ | ⟨other, renamed⟩
    · rw [renamed, eq_invocation_of_kept listed erased, Tree.erase, Tree.erase]
      simp [renameMember, renamed?]
    · rw [renamed, inside, renameMember_of_not]
      rintro ⟨listed, named, held⟩
      have uses : kind ∈ modifierKinds := by
        rw [List.mem_singleton.mp listed]
        decide
      exact other ⟨uses, named, Tree.eq_text_of_erase held⟩

theorem erase_rename (oldPlain : old ∉ assertionNames) (newPlain : new ∉ assertionNames)
    (tree : Tree) (place : Place) :
    (tree.rename modifierKinds old new).erase place =
      (tree.erase place).rename [invocation] old new := by
  induction tree generalizing place with
  | node kind members ih =>
    rw [Tree.rename, Tree.erase, isAssertion_renameMembers oldPlain newPlain, Tree.erase,
      Tree.rename]
    simp only [Tree.eraseMembers_eq_map, Tree.renameMembers_eq_map, List.map_map]
    refine congrArg (Tree.node kind) (List.map_congr_left fun member mem => ?_)
    exact congrArg (Prod.mk member.1) (eraseMember_renameMember (ih member mem))
  | list items ih =>
    simp only [Tree.rename, Tree.erase, Tree.eraseItems_eq_map, Tree.renameItems_eq_map,
      List.map_map]
    exact congrArg Tree.list (List.map_congr_left fun item mem => ih item mem _)
  | map entries ih =>
    simp only [Tree.rename, Tree.erase, Tree.eraseEntries_eq_map, Tree.renameEntries_eq_map,
      List.map_map]
    refine congrArg Tree.map (List.map_congr_left fun entry mem => ?_)
    exact congrArg (Prod.mk entry.1) (ih entry mem _)
  | _ => simp only [Tree.rename, Tree.erase]

end Erasing

section Lifted

variable {kinds : List String} {old new kind : String} {tree : Tree}

theorem isNode_rename (node : tree.IsNode) : (tree.rename kinds old new).IsNode := by
  obtain ⟨kind, members, rfl⟩ := node
  rw [Tree.rename]
  exact ⟨_, _, rfl⟩

theorem nodes_renameItems {items : List Tree} (nodes : ∀ item ∈ items, item.IsNode) :
    ∀ item ∈ Tree.renameItems kinds old new items, item.IsNode := by
  rw [Tree.renameItems_eq_map]
  intro item mem
  obtain ⟨original, memItems, rfl⟩ := List.mem_map.mp mem
  exact isNode_rename (nodes original memItems)

theorem holds_rename {shape : Shape} (holds : shape.Holds tree) :
    shape.Holds (tree.rename kinds old new) := by
  cases shape with
  | node => exact isNode_rename holds
  | nodes =>
    cases tree with
    | list items => rw [Tree.rename]; exact nodes_renameItems holds
    | _ => exact False.elim holds
  | writtenNodes =>
    cases tree with
    | list items => rw [Tree.rename]; exact nodes_renameItems holds
    | _ => exact False.elim holds
  | _ => cases tree <;> first | exact False.elim holds | (rw [Tree.rename]; exact holds)

theorem holds_name {field : Field} (mem : field ∈ fieldsOf kind) (named : field.name = "name")
    (text : String) : field.shape.Holds (.text text) := by
  have all : ∀ entry ∈ schema, ∀ field ∈ entry.2, field.name = "name" →
      field.shape = .text ∨ field.shape = .optionalText := by decide
  rcases fieldsOf_cases kind with none | ⟨entry, memSchema, -, fields⟩
  · rw [none] at mem
    cases mem
  · rw [fields] at mem
    rcases all entry memSchema field mem named with shape | shape <;>
      (rw [shape]; trivial)

theorem wellFormed_rename (well : tree.WellFormed) : (tree.rename kinds old new).WellFormed := by
  induction well with
  | null => rw [Tree.rename]; exact .null
  | bool value => rw [Tree.rename]; exact .bool value
  | number value => rw [Tree.rename]; exact .number value
  | text value => rw [Tree.rename]; exact .text value
  | list each ih =>
    rw [Tree.rename, Tree.renameItems_eq_map]
    refine .list fun item mem => ?_
    obtain ⟨original, memItems, rfl⟩ := List.mem_map.mp mem
    exact ih original memItems
  | map ascending untagged each ih =>
    rw [Tree.rename, Tree.renameEntries_eq_map]
    refine .map (SortedMap.ascending_map.mpr ascending) ?_ ?_
    · intro name mem
      obtain ⟨⟨key, value⟩, memEntries, same⟩ := List.mem_map.mp mem
      obtain ⟨rfl, text⟩ := Prod.mk.inj same
      have held : value = .text name := eq_text_of_rename text
      subst held
      exact untagged name memEntries
    · intro entry mem
      obtain ⟨original, memEntries, rfl⟩ := List.mem_map.mp mem
      exact ih original memEntries
  | @node kind members shaped each ih =>
    rw [Tree.rename, Tree.renameMembers_eq_map]
    refine .node (wellShaped_map_values (renameMember kinds old new kind) shaped ?_) ?_
    · intro field memField value held
      rcases renameMember_cases kinds old new kind field.name value with
        ⟨-, named, -, renamed⟩ | ⟨-, renamed⟩
      · rw [renamed]
        exact holds_name memField named new
      · rw [renamed]
        exact holds_rename held
    · intro member mem
      obtain ⟨⟨name, value⟩, memMembers, rfl⟩ := List.mem_map.mp mem
      rcases renameMember_cases kinds old new kind name value with
        ⟨-, -, -, renamed⟩ | ⟨-, renamed⟩
      · rw [renamed]
        exact .text new
      · rw [renamed]
        exact ih _ memMembers

end Lifted

namespace Node

variable {node : Node} {old new : String}

theorem tree_renameModifier :
    (node.renameModifier old new).tree = node.tree.rename modifierKinds old new := by
  rw [Node.tree, Node.tree, Tree.rename, renameModifier]

theorem lifted_renameModifier (lifted : Lifted node) : Lifted (node.renameModifier old new) := by
  rw [lifted_iff_wellFormed, tree_renameModifier]
  exact wellFormed_rename (wellFormed_of_lifted lifted)

theorem tree_erase_renameModifier (oldPlain : old ∉ assertionNames)
    (newPlain : new ∉ assertionNames) :
    (node.renameModifier old new).erase.tree = node.erase.tree.rename [invocation] old new := by
  rw [Node.tree_erase, tree_renameModifier, erase_rename oldPlain newPlain, Node.tree_erase]

end Node

def Node.Uses (node : Node) (name : String) : Prop :=
  node.kind = invocation ∧ ("name", .text name) ∈ node.members

/-- Somewhere in the tree a function uses a modifier of this name. -/
def Invokes (tree : Tree) (name : String) : Prop := ∃ node ∈ tree.walk, node.Uses name

section Invokes

variable {kind name old new : String}

theorem exists_uses_flatMap {α : Type} {list : List α} {nodes : α → List Node} :
    (∃ node ∈ list.flatMap nodes, node.Uses name) ↔
      ∃ a ∈ list, ∃ node ∈ nodes a, node.Uses name := by
  constructor
  · rintro ⟨node, mem, uses⟩
    obtain ⟨a, memList, inside⟩ := List.mem_flatMap.mp mem
    exact ⟨a, memList, node, inside, uses⟩
  · rintro ⟨a, memList, node, inside, uses⟩
    exact ⟨node, List.mem_flatMap.mpr ⟨a, memList, inside⟩, uses⟩

theorem invokes_list {items : List Tree} :
    Invokes (.list items) name ↔ ∃ item ∈ items, Invokes item name := by
  rw [Invokes, Tree.walk, Tree.walkItems_eq_flatMap_walk, exists_uses_flatMap]
  rfl

theorem invokes_map {entries : List (String × Tree)} :
    Invokes (.map entries) name ↔ ∃ entry ∈ entries, Invokes entry.2 name := by
  rw [Invokes, Tree.walk, Tree.walkEntries_eq_flatMap_walk, exists_uses_flatMap]
  rfl

theorem invokes_node {members : List (String × Tree)} :
    Invokes (.node kind members) name ↔
      (Node.mk kind members).Uses name ∨ ∃ member ∈ members, Invokes member.2 name := by
  rw [Invokes, Tree.walk, Tree.walkEntries_eq_flatMap_walk, List.exists_mem_cons_iff,
    exists_uses_flatMap]
  rfl

theorem rename_eq_self {tree : Tree} (unused : Invokes tree old → old = new) :
    tree.rename [invocation] old new = tree := by
  induction tree with
  | node kind members ih =>
    rw [invokes_node] at unused
    have kept : ∀ member ∈ members,
        (member.1, renameMember [invocation] old new kind member.1 member.2) = id member := by
      rintro ⟨name, value⟩ mem
      rcases renameMember_cases [invocation] old new kind name value with
        ⟨listed, rfl, rfl, renamed⟩ | ⟨-, renamed⟩
      · rw [renamed, ← unused (.inl ⟨List.mem_singleton.mp listed, mem⟩), id]
      · rw [renamed, ih _ mem fun invokes => unused (.inr ⟨_, mem, invokes⟩), id]
    rw [Tree.rename, Tree.renameMembers_eq_map, List.map_congr_left kept, List.map_id]
  | list items ih =>
    rw [invokes_list] at unused
    have kept : ∀ item ∈ items, item.rename [invocation] old new = id item := by
      intro item mem
      exact ih item mem fun invokes => unused ⟨item, mem, invokes⟩
    rw [Tree.rename, Tree.renameItems_eq_map, List.map_congr_left kept, List.map_id]
  | map entries ih =>
    rw [invokes_map] at unused
    have kept : ∀ entry ∈ entries, (entry.1, entry.2.rename [invocation] old new) = id entry := by
      intro entry mem
      rw [ih entry mem fun invokes => unused ⟨entry, mem, invokes⟩, id]
    rw [Tree.rename, Tree.renameEntries_eq_map, List.map_congr_left kept, List.map_id]
  | _ => rw [Tree.rename]

theorem not_invokes_rename (different : old ≠ new) (tree : Tree) :
    ¬Invokes (tree.rename [invocation] old new) old := by
  induction tree with
  | node kind members ih =>
    rw [Tree.rename, Tree.renameMembers_eq_map, invokes_node]
    rintro (⟨use, mem⟩ | ⟨member, mem, invokes⟩)
    · obtain ⟨⟨name, value⟩, -, same⟩ := List.mem_map.mp mem
      obtain ⟨rfl, held⟩ := Prod.mk.inj same
      rcases renameMember_cases [invocation] old new kind "name" value with
        ⟨-, -, -, renamed⟩ | ⟨other, renamed⟩
      · rw [renamed] at held
        exact different (Tree.text.inj held).symm
      · rw [renamed] at held
        exact other ⟨List.mem_singleton.mpr use, rfl, eq_text_of_rename held⟩
    · obtain ⟨⟨name, value⟩, memMembers, rfl⟩ := List.mem_map.mp mem
      rcases renameMember_cases [invocation] old new kind name value with
        ⟨-, -, -, renamed⟩ | ⟨-, renamed⟩
      · rw [renamed] at invokes
        obtain ⟨node, inText, -⟩ := invokes
        cases inText
      · rw [renamed] at invokes
        exact ih _ memMembers invokes
  | list items ih =>
    rw [Tree.rename, Tree.renameItems_eq_map, invokes_list]
    rintro ⟨item, mem, invokes⟩
    obtain ⟨original, memItems, rfl⟩ := List.mem_map.mp mem
    exact ih original memItems invokes
  | map entries ih =>
    rw [Tree.rename, Tree.renameEntries_eq_map, invokes_map]
    rintro ⟨entry, mem, invokes⟩
    obtain ⟨original, memEntries, rfl⟩ := List.mem_map.mp mem
    exact ih original memEntries invokes
  | _ =>
    rw [Tree.rename]
    rintro ⟨node, mem, -⟩
    cases mem

end Invokes

end ContractTwins.Syntax
