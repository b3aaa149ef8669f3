import ContractTwins.Proofs.LiftedTree
import ContractTwins.Syntax.Erase

namespace ContractTwins.Syntax

def eraseMember (place : Place) (kind : String) (asserts : Bool) (name : String) (value : Tree) :
    Tree :=
  (erased? place kind name value).getD (value.erase (Place.member asserts name))

namespace Tree

theorem eraseItems_eq_map (place : Place) (items : List Tree) :
    eraseItems place items = items.map (erase place) := by
  induction items with
  | nil => rfl
  | cons item rest ih => rw [eraseItems, ih, List.map_cons]

theorem eraseEntries_eq_map (entries : List (String × Tree)) :
    eraseEntries entries = entries.map fun entry => (entry.1, entry.2.erase .elsewhere) := by
  induction entries with
  | nil => rfl
  | cons entry rest ih => rw [eraseEntries, ih, List.map_cons]

theorem eraseMembers_eq_map (place : Place) (kind : String) (asserts : Bool)
    (members : List (String × Tree)) :
    eraseMembers place kind asserts members =
      members.map fun member => (member.1, eraseMember place kind asserts member.1 member.2) := by
  induction members with
  | nil => rfl
  | cons member rest ih => rw [eraseMembers, ih, List.map_cons, eraseMember]

theorem isNode_erase {tree : Tree} (place : Place) (node : tree.IsNode) :
    (tree.erase place).IsNode := by
  obtain ⟨kind, members, rfl⟩ := node
  rw [erase]
  exact ⟨_, _, rfl⟩

theorem nodes_eraseItems {items : List Tree} (place : Place)
    (nodes : ∀ item ∈ items, item.IsNode) : ∀ item ∈ eraseItems place items, item.IsNode := by
  rw [eraseItems_eq_map]
  intro item mem
  obtain ⟨original, memItems, rfl⟩ := List.mem_map.mp mem
  exact isNode_erase place (nodes original memItems)

theorem eq_text_of_erase {tree : Tree} {place : Place} {text : String}
    (erased : tree.erase place = .text text) : tree = .text text := by
  cases tree with
  | text value => rw [erase] at erased; exact erased
  | _ => rw [erase] at erased; cases erased

end Tree

section Assertions

variable {kind : String} {members : List (String × Tree)}

theorem isAssertionName_iff {callee : Tree} :
    isAssertionName callee = true ↔ ∃ members name, callee = .node "Identifier" members ∧
      members.lookup "name" = some (.text name) ∧ (name = "require" ∨ name = "assert") := by
  constructor
  · intro named
    unfold isAssertionName at named
    split at named
    · split at named
      · rename_i members _ name found
        refine ⟨members, name, rfl, found, ?_⟩
        simpa [assertionNames] using named
      · cases named
    · cases named
  · rintro ⟨members, name, rfl, found, named⟩
    simp only [isAssertionName, found]
    simpa [assertionNames] using named

theorem isAssertion_iff :
    isAssertion kind members = true ↔ kind = "FunctionCall" ∧ ∃ callee,
      members.lookup "expression" = some callee ∧ isAssertionName callee = true := by
  rw [isAssertion, Bool.and_eq_true, beq_iff_eq]
  cases members.lookup "expression" <;> simp

end Assertions

theorem erased?_eq_some {place : Place} {kind name : String} {value blank : Tree}
    (erased : erased? place kind name value = some blank) :
    ((kind, name) ∈ nameFields ∧ blank = .text "") ∨
      (kind = "EventDefinition" ∧ name = "isAnonymous" ∧ blank = .null) ∨
      (place = .argument ∧ kind = "StringLiteral" ∧
        (name = "value" ∧ blank = .text "" ∨ name = "parts" ∧ blank = .list [])) := by
  unfold erased? at erased
  split at erased
  · rename_i named
    exact Or.inl ⟨List.contains_iff_mem.mp named, (Option.some.inj erased).symm⟩
  split at erased
  · rename_i event
    exact Or.inr (Or.inl ⟨event.1, event.2, (Option.some.inj erased).symm⟩)
  split at erased
  · rename_i argument
    refine Or.inr (Or.inr ⟨argument.1, argument.2, ?_⟩)
    split at erased
    · exact Or.inl ⟨rfl, (Option.some.inj erased).symm⟩
    · exact Or.inr ⟨rfl, (Option.some.inj erased).symm⟩
    · cases erased
  · cases erased

theorem shape_of_nameField {kind name : String} (named : (kind, name) ∈ nameFields) :
    shapeOf? kind name = some .text ∨ shapeOf? kind name = some .optionalText := by
  have all : ∀ pair ∈ nameFields, shapeOf? pair.1 pair.2 = some .text ∨
      shapeOf? pair.1 pair.2 = some .optionalText := by decide
  exact all _ named

theorem holds_erase {shape : Shape} {tree : Tree} (place : Place) (holds : shape.Holds tree) :
    shape.Holds (tree.erase place) := by
  cases shape with
  | node => exact Tree.isNode_erase place holds
  | nodes =>
    cases tree with
    | list items => rw [Tree.erase]; exact Tree.nodes_eraseItems _ holds
    | _ => exact False.elim holds
  | writtenNodes =>
    cases tree with
    | list items => rw [Tree.erase]; exact Tree.nodes_eraseItems _ holds
    | _ => exact False.elim holds
  | _ => cases tree <;> first | exact False.elim holds | (rw [Tree.erase]; exact holds)

theorem holds_erased {place : Place} {kind : String} {field : Field} {value blank : Tree}
    (mem : field ∈ fieldsOf kind) (erased : erased? place kind field.name value = some blank) :
    field.shape.Holds blank := by
  have shape := shapeOf?_eq_some_iff.mpr mem
  rcases erased?_eq_some erased with ⟨named, rfl⟩ | ⟨rfl, event, rfl⟩ | ⟨-, rfl, argument⟩
  · rcases shape_of_nameField named with text | text <;>
      (rw [text] at shape; rw [← Option.some.inj shape]; trivial)
  · have flag : shapeOf? "EventDefinition" "isAnonymous" = some .optionalFlag := by decide
    rw [event, flag] at shape
    rw [← Option.some.inj shape]
    trivial
  · rcases argument with ⟨content, rfl⟩ | ⟨content, rfl⟩
    · have text : shapeOf? "StringLiteral" "value" = some .text := by decide
      rw [content, text] at shape
      rw [← Option.some.inj shape]
      trivial
    · have none : shapeOf? "StringLiteral" "parts" = none := by decide
      rw [content, none] at shape
      cases shape

theorem wellFormed_erased {place : Place} {kind name : String} {value blank : Tree}
    (erased : erased? place kind name value = some blank) : blank.WellFormed := by
  rcases erased?_eq_some erased with ⟨-, rfl⟩ | ⟨-, -, rfl⟩ | ⟨-, -, ⟨-, rfl⟩ | ⟨-, rfl⟩⟩
  · exact .text ""
  · exact .null
  · exact .text ""
  · exact .list (by simp)

theorem wellShaped_map_values {kind : String} {members : List (String × Tree)}
    (change : String → Tree → Tree) (shaped : WellShaped kind members)
    (kept : ∀ field ∈ fieldsOf kind, ∀ value, field.shape.Holds value →
      field.shape.Holds (change field.name value)) :
    WellShaped kind (members.map fun member => (member.1, change member.1 member.2)) := by
  obtain ⟨fields, attributes, rfl, holds, ascending, names⟩ := shaped
  refine ⟨_, _, List.map_append, ?_, ?_, ?_⟩
  · rw [List.forall₂_map_right_iff]
    refine (Outcome.forall₂_mem holds).imp ?_
    rintro field ⟨name, value⟩ ⟨memField, -, rfl, held⟩
    exact ⟨rfl, kept field memField value held⟩
  · refine SortedMap.ascending_of_same_keys ?_ ascending
    rw [List.forall₂_map_right_iff, List.forall₂_same]
    exact fun _ _ => rfl
  · intro member mem
    obtain ⟨original, memAttributes, rfl⟩ := List.mem_map.mp mem
    exact names original memAttributes

theorem wellShaped_erase {kind : String} {members : List (String × Tree)} (place : Place)
    (asserts : Bool) (shaped : WellShaped kind members) :
    WellShaped kind
      (members.map fun member =>
        (member.1, eraseMember place kind asserts member.1 member.2)) := by
  apply wellShaped_map_values (eraseMember place kind asserts) shaped
  intro field memField value held
  unfold eraseMember
  cases erased : erased? place kind field.name value with
  | none => exact holds_erase _ held
  | some blank => exact holds_erased memField erased

theorem wellFormed_erase {tree : Tree} (place : Place) (well : tree.WellFormed) :
    (tree.erase place).WellFormed := by
  induction well generalizing place with
  | null => rw [Tree.erase]; exact .null
  | bool value => rw [Tree.erase]; exact .bool value
  | number value => rw [Tree.erase]; exact .number value
  | text value => rw [Tree.erase]; exact .text value
  | list each ih =>
    rw [Tree.erase, Tree.eraseItems_eq_map]
    refine .list fun item mem => ?_
    obtain ⟨original, memItems, rfl⟩ := List.mem_map.mp mem
    exact ih original memItems _
  | map ascending untagged each ih =>
    rw [Tree.erase, Tree.eraseEntries_eq_map]
    refine .map (SortedMap.ascending_map.mpr ascending) ?_ ?_
    · intro name mem
      obtain ⟨⟨key, value⟩, memEntries, same⟩ := List.mem_map.mp mem
      obtain ⟨rfl, text⟩ := Prod.mk.inj same
      have held : value = .text name := Tree.eq_text_of_erase text
      subst held
      exact untagged name memEntries
    · intro entry mem
      obtain ⟨original, memEntries, rfl⟩ := List.mem_map.mp mem
      exact ih original memEntries _
  | @node kind members shaped each ih =>
    rw [Tree.erase, Tree.eraseMembers_eq_map]
    refine .node (wellShaped_erase _ _ shaped) fun member mem => ?_
    obtain ⟨⟨name, value⟩, memMembers, rfl⟩ := List.mem_map.mp mem
    dsimp only [eraseMember]
    cases erased : erased? place kind name value with
    | none => exact ih _ memMembers _
    | some blank => exact wellFormed_erased erased

end ContractTwins.Syntax
