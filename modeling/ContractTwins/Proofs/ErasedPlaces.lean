import ContractTwins.Proofs.InPlaceErasing
import ContractTwins.Proofs.JsonPaths

/-!
What erasing changes in the JSON of a node. The places are those of the node as it was: whether a
call is an assertion is read off its callee before that is erased. Nothing outside of the places
changes.
-/
namespace ContractTwins.Syntax

open Json (DiffersAt Places Step StepDiffers)

/-- The members call `require` or `assert` by its plain name. -/
def CallsAssertion (members : List (String × Json)) : Prop :=
  tag? members = some "FunctionCall" ∧ ∃ callee name,
    members.lookup "expression" = some (.object callee) ∧ tag? callee = some "Identifier" ∧
      callee.lookup "name" = some (.text name) ∧ (name = "require" ∨ name = "assert")

inductive MessagePlace : Json → Places where
  | content {literal : List (String × Json)} (text : tag? literal = some "StringLiteral") :
      MessagePlace (.object literal) [.member "value"] (.text "")
  | parts {literal : List (String × Json)} {parts : List Json}
      (text : tag? literal = some "StringLiteral")
      (list : literal.lookup "parts" = some (.list parts)) :
      MessagePlace (.object literal) [.member "parts"] (.list [])

/-- What is erased in a value, at any depth, and what stands there afterwards. -/
inductive ErasedPlace : Json → Places where
  | name {kind field : String} {members : List (String × Json)} (tagged : tag? members = some kind)
      (bears : BearsName kind field) (text : field ≠ "isAnonymous") :
      ErasedPlace (.object members) [.member field] (.text "")
  | anonymity {members : List (String × Json)} (tagged : tag? members = some "EventDefinition") :
      ErasedPlace (.object members) [.member "isAnonymous"] .null
  | message {members : List (String × Json)} {arguments : List Json} {index : Nat} {argument : Json}
      {path : List Step} {value : Json} (asserts : CallsAssertion members)
      (listed : members.lookup "arguments" = some (.list arguments))
      (stands : arguments[index]? = some argument) (place : MessagePlace argument path value) :
      ErasedPlace (.object members) (.member "arguments" :: .item index :: path) value
  | deeper {json child : Json} {step : Step} {path : List Step} {value : Json}
      (stands : json.child? step = some child) (place : ErasedPlace child path value) :
      ErasedPlace json (step :: path) value

inductive ErasedIn : Place → Json → Places where
  | anywhere {place : Place} {json : Json} {path : List Step} {value : Json}
      (erased : ErasedPlace json path value) : ErasedIn place json path value
  | argument {json : Json} {path : List Step} {value : Json}
      (message : MessagePlace json path value) : ErasedIn .argument json path value
  | arguments {items : List Json} {index : Nat} {json : Json} {path : List Step} {value : Json}
      (stands : items[index]? = some json) (message : MessagePlace json path value) :
      ErasedIn .arguments (.list items) (.item index :: path) value

theorem erasedIn_elsewhere_iff {json : Json} {path : List Step} {value : Json} :
    ErasedIn .elsewhere json path value ↔ ErasedPlace json path value := by
  constructor
  · intro erased
    cases erased with
    | anywhere erased => exact erased
  · exact .anywhere

theorem not_erasedIn_whole {place : Place} {json value : Json} : ¬ErasedIn place json [] value := by
  intro erased
  cases erased with
  | anywhere erased => cases erased
  | argument message => cases message

section Scalars

variable {place : Place} {json : Json}

theorem not_erasedIn_scalar (scalar : ∀ step, json.child? step = none)
    (noObject : ∀ members, json ≠ .object members) (path : List Step) (value : Json) :
    ¬ErasedIn place json path value := by
  intro erased
  cases erased with
  | anywhere erased =>
    cases erased with
    | deeper stands => simp [scalar] at stands
    | _ => exact noObject _ rfl
  | argument message => cases message <;> exact noObject _ rfl
  | @arguments items index =>
    have none : items[index]? = none := scalar (.item index)
    simp_all

end Scalars

section Lists

variable {place : Place} {items : List Json}

theorem erasedIn_list_iff {step : Step} {path : List Step} {value : Json} :
    ErasedIn place (.list items) (step :: path) value ↔
      ∃ child, (Json.list items).child? step = some child ∧
        ErasedIn place.item child path value := by
  constructor
  · intro erased
    cases erased with
    | anywhere erased =>
      cases erased with
      | deeper stands erased => exact ⟨_, stands, .anywhere erased⟩
    | argument message => cases message
    | arguments stands message => exact ⟨_, stands, .argument message⟩
  · rintro ⟨child, stands, erased⟩
    cases step with
    | member key => cases stands
    | item index =>
      generalize item : place.item = inner at erased
      cases erased with
      | anywhere erased => exact .anywhere (.deeper stands erased)
      | argument message =>
        cases place with
        | arguments => exact .arguments stands message
        | _ => cases item
      | arguments => cases place <;> cases item

end Lists

section Maps

variable {place : Place} {members : List (String × Json)}

theorem erasedIn_map_iff (untagged : tag? members = none) {step : Step} {path : List Step}
    {value : Json} :
    ErasedIn place (.object members) (step :: path) value ↔
      ∃ child, (Json.object members).child? step = some child ∧
        ErasedIn .elsewhere child path value := by
  constructor
  · intro erased
    cases erased with
    | anywhere erased =>
      cases erased with
      | name tagged => simp [untagged] at tagged
      | anonymity tagged => simp [untagged] at tagged
      | message asserts => simp [CallsAssertion, untagged] at asserts
      | deeper stands erased => exact ⟨_, stands, .anywhere erased⟩
    | argument message => cases message <;> simp_all
  · rintro ⟨child, stands, erased⟩
    exact .anywhere (.deeper stands (erasedIn_elsewhere_iff.mp erased))

end Maps

section Assertions

variable {kind : String} {members : List (String × Tree)}

theorem callsAssertion_iff (shaped : WellShaped kind members)
    (each : ∀ member ∈ members, member.2.WellFormed) :
    CallsAssertion (SortedMap.ofList (nodeMembers kind members)) ↔
      isAssertion kind members = true := by
  have callee : "expression" ≠ tagKey := by decide
  have name : "name" ≠ tagKey := by decide
  rw [isAssertion_iff]
  constructor
  · rintro ⟨tagged, written, text, found, identifier, named, asserts⟩
    rw [tag?_written shaped] at tagged
    cases tagged
    rw [lookup_written shaped, lookup_withTag callee, Option.map_eq_some_iff] at found
    obtain ⟨tree, held, isObject⟩ := found
    have well := each _ (SortedMap.mem_of_lookup_eq_some held)
    obtain ⟨below, rfl, shapedBelow, rfl⟩ := node_of_written well isObject identifier
    rw [lookup_written shapedBelow, lookup_withTag name, Option.map_eq_some_iff] at named
    obtain ⟨value, heldName, isText⟩ := named
    cases Tree.eq_text_of_toJson isText
    exact ⟨rfl, _, held, isAssertionName_iff.mpr ⟨below, text, rfl, heldName, asserts⟩⟩
  · rintro ⟨rfl, tree, held, asserts⟩
    obtain ⟨below, text, rfl, heldName, named⟩ := isAssertionName_iff.mp asserts
    cases each _ (SortedMap.mem_of_lookup_eq_some held) with
    | node shapedBelow eachBelow =>
      refine ⟨tag?_written shaped, _, text, ?_, tag?_written shapedBelow, ?_, named⟩
      · rw [lookup_written shaped, lookup_withTag callee, held, Option.map_some, toJson_node]
      · rw [lookup_written shapedBelow, lookup_withTag name, heldName]
        rfl

end Assertions

section Members

variable {kind key : String} {members : List (String × Tree)} {place : Place} {value : Tree}

theorem erased?_of_bearsText (bears : BearsName kind key) (text : key ≠ "isAnonymous") :
    erased? place kind key value = some (.text "") := by
  rcases bearsName_iff.mp bears with listed | event
  · unfold erased?
    exact if_pos (List.contains_iff_mem.mpr listed)
  · exact absurd event.2 text

theorem shape_of_bearsName (bears : BearsName kind key) : ∃ shape, shapeOf? kind key = some shape := by
  rcases bearsName_iff.mp bears with listed | ⟨rfl, rfl⟩
  · rcases shape_of_nameField listed with text | text
    · exact ⟨_, text⟩
    · exact ⟨_, text⟩
  · exact ⟨_, rfl⟩

theorem isList_of_toJson {items : List Json} (list : value.toJson = .list items) :
    value.IsList := by
  cases value with
  | list held => exact ⟨held, rfl⟩
  | _ => cases list

theorem lookup_of_found (shaped : WellShaped kind members)
    (found : (withTag kind members).lookup key = some value) :
    (SortedMap.ofList (nodeMembers kind members)).lookup key = some value.toJson := by
  rw [lookup_written shaped, found, Option.map_some]

theorem erasedIn_of_erased? (shaped : WellShaped kind members)
    (found : (withTag kind members).lookup key = some value) {blank : Tree}
    (erased : erased? place kind key value = some blank) :
    ErasedIn place (.object (SortedMap.ofList (nodeMembers kind members))) [.member key]
      blank.toJson := by
  have tagged := tag?_written shaped
  have written := lookup_of_found shaped found
  rcases erased?_eq_some erased with ⟨named, rfl⟩ | ⟨rfl, rfl, rfl⟩ |
    ⟨rfl, rfl, ⟨rfl, rfl⟩ | ⟨rfl, rfl⟩⟩
  · have texts : ∀ pair ∈ nameFields, pair.2 ≠ "isAnonymous" := by decide
    exact .anywhere (.name tagged (bearsName_iff.mpr (.inl named)) (texts _ named))
  · exact .anywhere (.anonymity tagged)
  · exact .argument (.content tagged)
  · by_cases list : value.IsList
    · obtain ⟨items, rfl⟩ := list
      rw [Tree.toJson] at written
      exact .argument (.parts tagged written)
    · have kept := erased?_message (by decide : "parts" ≠ "value") fun parts => list parts.2
      rw [kept] at erased
      cases erased

variable {path : List Step} {json : Json}

theorem erasedIn_of_member (shaped : WellShaped kind members)
    (each : ∀ member ∈ members, member.2.WellFormed)
    (found : (withTag kind members).lookup key = some value)
    (erased : ErasedIn (Place.member (isAssertion kind members) key) value.toJson path json) :
    ErasedIn place (.object (SortedMap.ofList (nodeMembers kind members))) (.member key :: path)
      json := by
  have written := lookup_of_found shaped found
  generalize inner : Place.member (isAssertion kind members) key = stand at erased
  generalize value.toJson = held at written erased
  -- Only what the arguments of an assertion hold is erased for where it stands.
  cases erased with
  | anywhere erased => exact .anywhere (.deeper written erased)
  | argument message =>
    unfold Place.member at inner
    split at inner <;> cases inner
  | arguments stands message =>
    unfold Place.member at inner
    split at inner
    · rename_i asserts
      rw [Bool.and_eq_true, beq_iff_eq] at asserts
      obtain ⟨asserts, rfl⟩ := asserts
      have calls := (callsAssertion_iff shaped each).mpr asserts
      exact .anywhere (.message calls written stands message)
    · cases inner

/-- Under a key of a node either the member as a whole is erased, or what is erased in its value. -/
theorem erasedIn_member_iff (shaped : WellShaped kind members)
    (each : ∀ member ∈ members, member.2.WellFormed)
    (found : (withTag kind members).lookup key = some value) :
    ErasedIn place (.object (SortedMap.ofList (nodeMembers kind members))) (.member key :: path)
        json ↔
      (path = [] ∧ ∃ blank, erased? place kind key value = some blank ∧ json = blank.toJson) ∨
        ErasedIn (Place.member (isAssertion kind members) key) value.toJson path json := by
  have tag := tag?_written shaped
  have written := lookup_of_found shaped found
  constructor
  · intro erased
    cases erased with
    | anywhere erased =>
      cases erased with
      | name tagged bears text =>
        cases tag.symm.trans tagged
        exact .inl ⟨rfl, _, erased?_of_bearsText bears text, rfl⟩
      | anonymity tagged =>
        cases tag.symm.trans tagged
        exact .inl ⟨rfl, _, rfl, rfl⟩
      | message asserts listed stands message =>
        rw [member_arguments ⟨(callsAssertion_iff shaped each).mp asserts, rfl⟩,
          Option.some.inj (written.symm.trans listed)]
        exact .inr (.arguments stands message)
      | deeper stands erased =>
        rw [Option.some.inj (written.symm.trans stands)]
        exact .inr (.anywhere erased)
    | argument message =>
      cases message with
      | content text =>
        cases tag.symm.trans text
        exact .inl ⟨rfl, _, rfl, rfl⟩
      | parts text list =>
        cases tag.symm.trans text
        have isList := isList_of_toJson (Option.some.inj (written.symm.trans list))
        exact .inl ⟨rfl, _, erased?_parts isList, rfl⟩
  · rintro (⟨rfl, blank, erased, rfl⟩ | erased)
    · exact erasedIn_of_erased? shaped found erased
    · exact erasedIn_of_member shaped each found erased

theorem not_erasedIn_absent (shaped : WellShaped kind members)
    (absent : (withTag kind members).lookup key = none) (path : List Step) (json : Json) :
    ¬ErasedIn place (.object (SortedMap.ofList (nodeMembers kind members))) (.member key :: path)
      json := by
  have tag := tag?_written shaped
  have unwritten : (SortedMap.ofList (nodeMembers kind members)).lookup key = none := by
    rw [lookup_written shaped, absent, Option.map_none]
  have noField : ∀ shape, shapeOf? kind key ≠ some shape := by
    intro shape named
    exact lookup_field_ne_none shaped named absent
  intro erased
  cases erased with
  | anywhere erased =>
    cases erased with
    | name tagged bears text =>
      cases tag.symm.trans tagged
      obtain ⟨shape, named⟩ := shape_of_bearsName bears
      exact noField shape named
    | anonymity tagged =>
      cases tag.symm.trans tagged
      exact noField .optionalFlag rfl
    | message asserts listed => cases unwritten.symm.trans listed
    | deeper stands => cases unwritten.symm.trans stands
  | argument message =>
    cases message with
    | content text =>
      cases tag.symm.trans text
      exact noField .text rfl
    | parts text list => cases unwritten.symm.trans list

theorem not_erasedIn_item {written : List (String × Json)} {index : Nat} (path : List Step)
    (json : Json) : ¬ErasedIn place (.object written) (.item index :: path) json := by
  intro erased
  cases erased with
  | anywhere erased =>
    cases erased with
    | deeper stands => cases stands
  | argument message => cases message

end Members

/-- Erasing changes what the tree writes at the places of what is erased only. -/
def ErasesExactly (tree : Tree) : Prop :=
  ∀ place, DiffersAt (ErasedIn place tree.toJson) tree.toJson (tree.erase place).toJson

theorem erasesExactly_scalar {tree : Tree} (kept : ∀ place, tree.erase place = tree)
    (scalar : ∀ step, tree.toJson.child? step = none)
    (noObject : ∀ members, tree.toJson ≠ .object members) : ErasesExactly tree := by
  intro place
  rw [kept]
  exact Json.differsAt_self (not_erasedIn_scalar scalar noObject) _

theorem erasesExactly_list {items : List Tree} (each : ∀ item ∈ items, ErasesExactly item) :
    ErasesExactly (.list items) := by
  intro place
  simp only [Tree.erase, Tree.toJson, Tree.itemsToJson_eq_map, Tree.eraseItems_eq_map,
    List.map_map]
  apply Json.differsAt_of_steps
  · intro value
    exact not_erasedIn_whole
  · simp [Json.shell]
  · intro step
    cases step with
    | member key =>
      exact .nowhere fun path value erased => by
        simpa [Json.child?] using erasedIn_list_iff.mp erased
    | item index =>
      have down : ∀ path value,
          ErasedIn place (.list (items.map Tree.toJson)) (.item index :: path) value ↔
            ∃ item ∈ items[index]?, ErasedIn place.item item.toJson path value := by
        simp [erasedIn_list_iff, Json.child?]
      simp only [Json.child?, List.getElem?_map]
      apply Json.stepDiffers_of_held down
      · intro item value
        exact not_erasedIn_whole
      · intro item held
        exact each item (List.mem_of_getElem? held) place.item

theorem erasesExactly_map {entries : List (String × Tree)}
    (ascending : SortedMap.Ascending entries) (untagged : ∀ name, (tagKey, .text name) ∉ entries)
    (each : ∀ entry ∈ entries, ErasesExactly entry.2) : ErasesExactly (.map entries) := by
  intro place
  have notTagged := tag?_map untagged
  have ascendingErased := SortedMap.ascending_map (f := Tree.erase .elsewhere).mpr ascending
  simp only [Tree.erase, Tree.eraseEntries_eq_map, toJson_map ascending,
    toJson_map ascendingErased]
  apply Json.differsAt_of_steps
  · intro value
    exact not_erasedIn_whole
  · simp [Json.shell, Tree.entriesToJson_eq_map]
  · intro step
    cases step with
    | item index =>
      exact .nowhere fun path value erased => by
        simpa [Json.child?] using (erasedIn_map_iff notTagged).mp erased
    | member key =>
      have down : ∀ path value,
          ErasedIn place (.object (Tree.entriesToJson entries)) (.member key :: path) value ↔
            ∃ held ∈ entries.lookup key, ErasedIn .elsewhere held.toJson path value := by
        simp [erasedIn_map_iff notTagged, Json.child?, lookup_entriesToJson]
      simp only [Json.child?, lookup_entriesToJson, Option.map_map,
        SortedMap.lookup_map_values fun _ => Tree.erase .elsewhere]
      apply Json.stepDiffers_of_held down
      · intro held value
        exact not_erasedIn_whole
      · intro held found
        exact each _ (SortedMap.mem_of_lookup_eq_some found) .elsewhere

section Node

variable {kind : String} {members : List (String × Tree)}

theorem eraseMember_tag (place : Place) (asserts : Bool) :
    eraseMember place kind asserts tagKey (.text kind) = .text kind := by
  have kept : erased? place kind tagKey (.text kind) = none := by
    cases erased : erased? place kind tagKey (.text kind) with
    | none => rfl
    | some blank =>
      have names : ∀ pair ∈ nameFields, pair.2 ≠ tagKey := by decide
      rcases erased?_eq_some erased with ⟨named, -⟩ | ⟨-, event, -⟩ | ⟨-, -, ⟨text, -⟩ | ⟨list, -⟩⟩
      · exact absurd rfl (names _ named)
      · exact absurd event (by decide)
      · exact absurd text (by decide)
      · exact absurd list (by decide)
  rw [eraseMember, kept, Option.getD_none, Tree.erase]

theorem withTag_erased (place : Place) (asserts : Bool) :
    withTag kind (members.map fun member =>
        (member.1, eraseMember place kind asserts member.1 member.2)) =
      (withTag kind members).map fun member =>
        (member.1, eraseMember place kind asserts member.1 member.2) := by
  rw [withTag, withTag, List.map_cons, eraseMember_tag]

theorem keys_written_erased (place : Place) (asserts : Bool) :
    (SortedMap.ofList (nodeMembers kind (members.map fun member =>
        (member.1, eraseMember place kind asserts member.1 member.2)))).map
          (fun member => (member.1, Json.null)) =
      (SortedMap.ofList (nodeMembers kind members)).map fun member => (member.1, Json.null) := by
  have blanked := SortedMap.ofList_map_values (κ := String) fun _ (_ : Json) => Json.null
  simp only [← blanked, nodeMembers, Tree.entriesToJson_eq_map, List.map_cons, List.map_map,
    Function.comp_def]

theorem erasesExactly_text (text : String) : ErasesExactly (.text text) :=
  erasesExactly_scalar (fun _ => rfl) (fun _ => rfl) (fun _ same => by cases same)

theorem stepDiffers_member (shaped : WellShaped kind members)
    (well : ∀ member ∈ members, member.2.WellFormed) {place : Place} {key : String} {value : Tree}
    (found : (withTag kind members).lookup key = some value) (erases : ErasesExactly value) :
    StepDiffers (ErasedIn place (.object (SortedMap.ofList (nodeMembers kind members))))
      (.member key) (some value.toJson)
      (some (eraseMember place kind (isAssertion kind members) key value).toJson) := by
  cases erased : erased? place kind key value with
  | some blank =>
    rw [eraseMember, erased, Option.getD_some]
    apply StepDiffers.place
    intro other
    simp [erasedIn_member_iff shaped well found, erased, not_erasedIn_whole]
  | none =>
    have down : ∀ path json,
        ErasedIn place (.object (SortedMap.ofList (nodeMembers kind members)))
            (.member key :: path) json ↔
          ErasedIn (Place.member (isAssertion kind members) key) value.toJson path json := by
      simp [erasedIn_member_iff shaped well found, erased]
    rw [eraseMember, erased, Option.getD_none]
    apply StepDiffers.below
    · intro other inside
      exact not_erasedIn_whole ((down [] other).mp inside)
    · exact (erases _).congr down

theorem erasesExactly_node (shaped : WellShaped kind members)
    (well : ∀ member ∈ members, member.2.WellFormed)
    (each : ∀ member ∈ members, ErasesExactly member.2) : ErasesExactly (.node kind members) := by
  intro place
  have shapedErased := wellShaped_erase place (isAssertion kind members) shaped
  have all : ∀ member ∈ withTag kind members, ErasesExactly member.2 :=
    List.forall_mem_cons.mpr ⟨erasesExactly_text kind, each⟩
  simp only [Tree.erase, Tree.eraseMembers_eq_map, toJson_node]
  apply Json.differsAt_of_steps
  · intro value
    exact not_erasedIn_whole
  · simp only [Json.shell, keys_written_erased]
  · intro step
    cases step with
    | item index =>
      exact .nowhere fun path value => not_erasedIn_item path value
    | member key =>
      simp only [Json.child?, lookup_written shaped, lookup_written shapedErased, withTag_erased,
        SortedMap.lookup_map_values (eraseMember place kind (isAssertion kind members))]
      cases found : (withTag kind members).lookup key with
      | none => exact .nowhere (not_erasedIn_absent shaped found)
      | some value =>
        exact stepDiffers_member shaped well found
          (all _ (SortedMap.mem_of_lookup_eq_some found))

end Node

theorem erasesExactly {tree : Tree} (well : tree.WellFormed) : ErasesExactly tree := by
  induction well with
  | null | bool | number =>
    exact erasesExactly_scalar (fun _ => rfl) (fun _ => rfl) (fun _ same => by cases same)
  | text value => exact erasesExactly_text value
  | list each ih => exact erasesExactly_list ih
  | map ascending untagged each ih => exact erasesExactly_map ascending untagged ih
  | node shaped each ih => exact erasesExactly_node shaped each ih

/-- A walk that erases each node as it meets it leaves the erased node. What that writes is what the
node wrote but for names, the anonymity of events, and the messages of what were assertions before
anything was erased. -/
theorem erase_differs_exactly {node : Node} (lifted : Lifted node) :
    node.tree.walkWith eraser = node.erase.tree ∧
      DiffersAt (ErasedPlace node.toJson) node.toJson node.erase.toJson := by
  refine ⟨walkWith_eq_erase node, ?_⟩
  have erases := erasesExactly (wellFormed_of_lifted lifted) .elsewhere
  rw [← Node.tree_erase] at erases
  exact erases.congr fun path value => erasedIn_elsewhere_iff.symm

/-- An assertion of what another call gives. The text that the inner call gets is no message. -/
def requireChecked : Node where
  kind := "FunctionCall"
  members :=
    [("expression", .node "Identifier" [("name", .text "require")]),
     ("arguments", .list [(demand "check" "paid").tree, .node "StringLiteral"
       [("value", .text "unpaid"), ("parts", .list [.text "unpaid"])]])]

theorem erase_differs_exactly_in_call :
    Lifted requireChecked ∧
      requireChecked.erase.toJson.at? [.member "arguments", .item 0, .member "arguments", .item 0,
        .member "value"] = some (.text "paid") ∧
      requireChecked.erase.toJson.at? [.member "arguments", .item 1, .member "parts"] =
        some (.list []) ∧
      requireChecked.tree.walkWith eraser = requireChecked.erase.tree ∧
      DiffersAt (ErasedPlace requireChecked.toJson) requireChecked.toJson
        requireChecked.erase.toJson := by
  have lifted : Lifted requireChecked := lifted_of_lift_toJson rfl
  exact ⟨lifted, rfl, rfl, erase_differs_exactly lifted⟩

end ContractTwins.Syntax
