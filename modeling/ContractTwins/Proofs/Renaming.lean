import ContractTwins.Proofs.StructuralDigest

/-!
Contracts that differ in names, in assertion messages and in order. The relation says which members
may differ and leaves open how they are erased. It does not cover the uses of modifiers.
-/
namespace ContractTwins.Syntax

inductive BearsName : String → String → Prop where
  | contract : BearsName "ContractDefinition" "name"
  | function : BearsName "FunctionDefinition" "name"
  | modifier : BearsName "ModifierDefinition" "name"
  | variable : BearsName "VariableDeclaration" "name"
  | identifier : BearsName "Identifier" "name"
  | event : BearsName "EventDefinition" "name"
  | anonymity : BearsName "EventDefinition" "isAnonymous"
  | struct : BearsName "StructDefinition" "name"
  | library : BearsName "UsingForDeclaration" "libraryName"
  | path : BearsName "UserDefinedTypeName" "namePath"
  | access : BearsName "MemberAccess" "memberName"

def Tree.IsList (tree : Tree) : Prop := ∃ items, tree = .list items

/-- The second tree is the first with other names and other assertion messages. Calls that stand at
one place are both assertions or neither is. -/
inductive Renamed : Place → Tree → Tree → Prop where
  | null : Renamed .elsewhere .null .null
  | bool (value : Bool) : Renamed .elsewhere (.bool value) (.bool value)
  | number (value : Number) : Renamed .elsewhere (.number value) (.number value)
  | text (value : String) : Renamed .elsewhere (.text value) (.text value)
  | list {as bs : List Tree} (count : as.length = bs.length)
      (each : ∀ pair ∈ as.zip bs, Renamed .elsewhere pair.1 pair.2) :
      Renamed .elsewhere (.list as) (.list bs)
  | map {as bs : List (String × Tree)} (names : as.map Prod.fst = bs.map Prod.fst)
      (each : ∀ pair ∈ as.zip bs, Renamed .elsewhere pair.1.2 pair.2.2) :
      Renamed .elsewhere (.map as) (.map bs)
  | node {kind : String} {as bs : List (String × Tree)} (names : as.map Prod.fst = bs.map Prod.fst)
      (calls : isAssertion kind as = isAssertion kind bs)
      (each : ∀ pair ∈ as.zip bs, ¬BearsName kind pair.1.1 →
        ¬(isAssertion kind as ∧ pair.1.1 = "arguments") → Renamed .elsewhere pair.1.2 pair.2.2)
      (arguments : isAssertion kind as → ∀ pair ∈ as.zip bs, pair.1.1 = "arguments" →
        Renamed .arguments pair.1.2 pair.2.2) :
      Renamed .elsewhere (.node kind as) (.node kind bs)
  | arguments {as bs : List Tree} (count : as.length = bs.length)
      (each : ∀ pair ∈ as.zip bs, Renamed .argument pair.1 pair.2) :
      Renamed .arguments (.list as) (.list bs)
  | argument {kind : String} {as bs : List (String × Tree)} (other : kind ≠ "StringLiteral")
      (renamed : Renamed .elsewhere (.node kind as) (.node kind bs)) :
      Renamed .argument (.node kind as) (.node kind bs)
  /-- Of the parts of a message only a list may change, and only to another. -/
  | message {as bs : List (String × Tree)} (names : as.map Prod.fst = bs.map Prod.fst)
      (each : ∀ pair ∈ as.zip bs, pair.1.1 ≠ "value" →
        ¬(pair.1.1 = "parts" ∧ pair.1.2.IsList ∧ pair.2.2.IsList) →
        Renamed .elsewhere pair.1.2 pair.2.2) :
      Renamed .argument (.node "StringLiteral" as) (.node "StringLiteral" bs)

section Erased

variable {kind name : String}

theorem bearsName_iff :
    BearsName kind name ↔
      (kind, name) ∈ nameFields ∨ kind = "EventDefinition" ∧ name = "isAnonymous" := by
  constructor
  · intro bears
    cases bears <;> decide
  · rintro (named | ⟨rfl, rfl⟩)
    · simp only [nameFields, List.mem_cons, Prod.mk.injEq, List.not_mem_nil, or_false] at named
      rcases named with ⟨rfl, rfl⟩ | ⟨rfl, rfl⟩ | ⟨rfl, rfl⟩ | ⟨rfl, rfl⟩ | ⟨rfl, rfl⟩ | ⟨rfl, rfl⟩ |
        ⟨rfl, rfl⟩ | ⟨rfl, rfl⟩ | ⟨rfl, rfl⟩ | ⟨rfl, rfl⟩ <;> constructor
    · exact .anonymity

/-- What is written over a name depends neither on the name nor on where it stands. -/
theorem erased?_of_bearsName (bears : BearsName kind name) :
    ∃ blank, ∀ place value, erased? place kind name value = some blank := by
  unfold erased?
  by_cases named : nameFields.contains (kind, name)
  · exact ⟨.text "", fun _ _ => if_pos named⟩
  · rcases bearsName_iff.mp bears with listed | event
    · exact absurd (List.contains_iff_mem.mpr listed) named
    · refine ⟨.null, fun _ _ => ?_⟩
      rw [if_neg named, if_pos event]

theorem erased?_elsewhere {value : Tree} (plain : ¬BearsName kind name) :
    erased? .elsewhere kind name value = none := by
  have kept : ¬(Place.elsewhere = .argument ∧ kind = "StringLiteral") := fun both => nomatch both.1
  rw [bearsName_iff, not_or, ← List.contains_iff_mem] at plain
  unfold erased?
  rw [if_neg plain.1, if_neg plain.2, if_neg kept]

theorem erase_argument {members : List (String × Tree)} (other : kind ≠ "StringLiteral") :
    (Tree.node kind members).erase .argument = (Tree.node kind members).erase .elsewhere := by
  rw [Tree.erase, Tree.erase, Tree.eraseMembers_eq_map, Tree.eraseMembers_eq_map]
  unfold eraseMember erased?
  simp only [other, and_false, if_false]

theorem isList_erase {tree : Tree} (place : Place) : (tree.erase place).IsList ↔ tree.IsList := by
  constructor
  · rintro ⟨items, erased⟩
    cases tree with
    | list held => exact ⟨held, rfl⟩
    | _ => rw [Tree.erase] at erased; cases erased
  · rintro ⟨items, rfl⟩
    rw [Tree.erase]
    exact ⟨_, rfl⟩

theorem erased?_parts {value : Tree} (list : value.IsList) :
    erased? .argument "StringLiteral" "parts" value = some (.list []) := by
  obtain ⟨items, rfl⟩ := list
  rfl

theorem not_bearsName_message : ¬BearsName "StringLiteral" name := by
  rw [bearsName_iff]
  rintro (named | ⟨event, -⟩)
  · simp [nameFields] at named
  · exact absurd event (by decide)

theorem erased?_message {value : Tree} (content : name ≠ "value")
    (plain : ¬(name = "parts" ∧ value.IsList)) :
    erased? .argument "StringLiteral" name value = none := by
  cases erased : erased? .argument "StringLiteral" name value with
  | none => rfl
  | some blank =>
    unfold erased? at erased
    have listed : ¬nameFields.contains ("StringLiteral", name) := fun listed =>
      not_bearsName_message (bearsName_iff.mpr (Or.inl (List.contains_iff_mem.mp listed)))
    rw [if_neg listed, if_neg (fun event => absurd event.1 (by decide)), if_pos ⟨rfl, rfl⟩] at erased
    split at erased
    · exact absurd rfl content
    · exact absurd ⟨rfl, _, rfl⟩ plain
    · cases erased

end Erased

section Pairs

variable {α β γ : Type}

theorem map_eq_map_of_zip {f : α → γ} {g : β → γ} {as : List α} {bs : List β}
    (count : as.length = bs.length) (each : ∀ pair ∈ as.zip bs, f pair.1 = g pair.2) :
    as.map f = bs.map g := by
  induction as generalizing bs with
  | nil =>
    cases bs with
    | nil => rfl
    | cons b bs => cases count
  | cons a as ih =>
    cases bs with
    | nil => cases count
    | cons b bs =>
      have first := each (a, b) List.mem_cons_self
      have later := ih (Nat.succ.inj count) fun pair mem => each pair (List.mem_cons_of_mem _ mem)
      rw [List.map_cons, List.map_cons, later]
      exact congrArg (fun head => head :: bs.map g) first

theorem fst_eq_of_mem_zip {as : List (String × α)} {bs : List (String × β)}
    (names : as.map Prod.fst = bs.map Prod.fst) {pair : (String × α) × (String × β)}
    (mem : pair ∈ as.zip bs) : pair.1.1 = pair.2.1 := by
  induction as generalizing bs with
  | nil => cases mem
  | cons a as ih =>
    cases bs with
    | nil => cases mem
    | cons b bs =>
      obtain ⟨first, later⟩ := List.cons.inj names
      rcases List.mem_cons.mp mem with rfl | mem
      · exact first
      · exact ih later mem

theorem members_eq_of_zip {as bs : List (String × α)} (f : String → α → γ)
    (names : as.map Prod.fst = bs.map Prod.fst)
    (each : ∀ pair ∈ as.zip bs, f pair.1.1 pair.1.2 = f pair.1.1 pair.2.2) :
    as.map (fun member => (member.1, f member.1 member.2)) =
      bs.map (fun member => (member.1, f member.1 member.2)) := by
  have count : as.length = bs.length := by simpa using congrArg List.length names
  apply map_eq_map_of_zip count
  intro pair mem
  have same := fst_eq_of_mem_zip names mem
  rw [each pair mem, same]

end Pairs

theorem eraseMember_eq {kind name : String} {asserts : Bool} {a b : Tree}
    (same : ¬BearsName kind name →
      a.erase (Place.member asserts name) = b.erase (Place.member asserts name)) :
    eraseMember .elsewhere kind asserts name a = eraseMember .elsewhere kind asserts name b := by
  unfold eraseMember
  by_cases bears : BearsName kind name
  · obtain ⟨blank, written⟩ := erased?_of_bearsName bears
    rw [written, written]
    rfl
  · rw [erased?_elsewhere bears, erased?_elsewhere bears]
    exact same bears

/-- Inside of an assertion message a member is erased alike if it is the content, or a list of parts,
or if what it holds is. -/
theorem eraseMember_message_eq {name : String} {asserts : Bool} {a b : Tree}
    (same : name ≠ "value" → ¬(name = "parts" ∧ a.IsList ∧ b.IsList) →
      a.erase .elsewhere = b.erase .elsewhere)
    (call : Place.member asserts name = .elsewhere) :
    eraseMember .argument "StringLiteral" asserts name a =
      eraseMember .argument "StringLiteral" asserts name b := by
  unfold eraseMember
  by_cases content : name = "value"
  · rw [content]
    rfl
  by_cases lists : name = "parts" ∧ a.IsList ∧ b.IsList
  · rw [lists.1, erased?_parts lists.2.1, erased?_parts lists.2.2]
    rfl
  · have erased := same content lists
    have both : a.IsList ↔ b.IsList := by
      rw [← isList_erase .elsewhere, erased, isList_erase]
    rw [erased?_message content (by tauto), erased?_message content (by tauto), call]
    exact erased

theorem not_assertion {kind : String} {members : List (String × Tree)}
    (other : kind ≠ "FunctionCall") : isAssertion kind members = false := by
  rw [isAssertion, beq_eq_false_iff_ne.mpr other, Bool.false_and]

theorem member_arguments {asserts : Bool} {name : String}
    (argument : asserts ∧ name = "arguments") : Place.member asserts name = .arguments := by
  rw [Place.member, argument.1, argument.2]
  rfl

theorem member_elsewhere {asserts : Bool} {name : String}
    (other : ¬(asserts ∧ name = "arguments")) : Place.member asserts name = .elsewhere := by
  rw [Place.member, if_neg]
  simpa using other

theorem erase_eq_of_renamed {place : Place} {a b : Tree} (renamed : Renamed place a b) :
    a.erase place = b.erase place := by
  induction renamed with
  | null => rfl
  | bool value => rfl
  | number value => rfl
  | text value => rfl
  | list count each ih =>
    rw [Tree.erase, Tree.erase, Tree.eraseItems_eq_map, Tree.eraseItems_eq_map]
    exact congrArg Tree.list (map_eq_map_of_zip count ih)
  | map names each ih =>
    rw [Tree.erase, Tree.erase, Tree.eraseEntries_eq_map, Tree.eraseEntries_eq_map]
    exact congrArg Tree.map
      (members_eq_of_zip (fun _ value => value.erase .elsewhere) names ih)
  | @node kind as bs names calls each arguments ih ihArguments =>
    rw [Tree.erase, Tree.erase, Tree.eraseMembers_eq_map, Tree.eraseMembers_eq_map, ← calls]
    refine congrArg (Tree.node kind) (members_eq_of_zip _ names fun pair mem => ?_)
    apply eraseMember_eq
    intro plain
    by_cases argument : isAssertion kind as ∧ pair.1.1 = "arguments"
    · rw [member_arguments argument]
      exact ihArguments argument.1 pair mem argument.2
    · rw [member_elsewhere argument]
      exact ih pair mem plain argument
  | arguments count each ih =>
    rw [Tree.erase, Tree.erase, Tree.eraseItems_eq_map, Tree.eraseItems_eq_map]
    exact congrArg Tree.list (map_eq_map_of_zip count ih)
  | argument other renamed ih =>
    rw [erase_argument other, erase_argument other]
    exact ih
  | @message as bs names each ih =>
    rw [Tree.erase, Tree.erase, Tree.eraseMembers_eq_map, Tree.eraseMembers_eq_map]
    refine congrArg (Tree.node "StringLiteral") (members_eq_of_zip _ names fun pair mem => ?_)
    apply eraseMember_message_eq (ih pair mem)
    rw [not_assertion (by decide)]
    rfl

structure RenamedBut (name : String) (a b : Node) : Prop where
  kind : a.kind = b.kind
  names : a.members.map Prod.fst = b.members.map Prod.fst
  each : ∀ pair ∈ a.members.zip b.members, ¬BearsName a.kind pair.1.1 → pair.1.1 ≠ name →
    Renamed .elsewhere pair.1.2 pair.2.2

/-- The members of a struct may also come in another order. -/
inductive RenamedDeclaration (a b : Node) : Prop where
  | same (renamed : Renamed .elsewhere a.tree b.tree)
  | struct (kind : a.kind = "StructDefinition") (but : RenamedBut "members" a b)
      (members : PairUp (fun x y => Renamed .elsewhere x.tree y.tree)
        (a.nodesAt "members") (b.nodesAt "members"))

/-- The second contract is the first with other names and messages, its declarations and the members
of its structs in another order. -/
structure RenamedContract (a b : Node) : Prop where
  contract : isContract a
  but : RenamedBut "subNodes" a b
  declarations : PairUp RenamedDeclaration (a.nodesAt "subNodes") (b.nodesAt "subNodes")

section Nodes

variable {a b : Node} {name : String}

theorem node_erase_eq (renamed : Renamed .elsewhere a.tree b.tree) : a.erase = b.erase := by
  have trees := erase_eq_of_renamed renamed
  rw [← Node.tree_erase, ← Node.tree_erase] at trees
  exact Node.eq_of_tree_eq trees

theorem erase_withMember_eq (but : RenamedBut name a b) (other : a.kind ≠ "FunctionCall")
    (value : Tree) : a.erase.withMember name value = b.erase.withMember name value := by
  have members : SortedMap.replace name value a.erase.members =
      SortedMap.replace name value b.erase.members := by
    unfold Node.erase
    rw [← but.kind, not_assertion other, not_assertion other, Tree.eraseMembers_eq_map,
      Tree.eraseMembers_eq_map, SortedMap.replace_eq_map, SortedMap.replace_eq_map, List.map_map,
      List.map_map]
    refine members_eq_of_zip (fun key held => if key = name then value else
      eraseMember .elsewhere a.kind false key held) but.names fun pair mem => ?_
    by_cases replaced : pair.1.1 = name
    · rw [if_pos replaced, if_pos replaced]
    · rw [if_neg replaced, if_neg replaced]
      apply eraseMember_eq
      intro plain
      exact erase_eq_of_renamed (but.each pair mem plain replaced)
  exact (Node.mk.injEq ..).mpr ⟨but.kind, members⟩

theorem outermost_erase (tree : Tree) :
    (tree.erase .elsewhere).outermost = tree.outermost.map Node.erase := by
  induction tree with
  | node kind members ih =>
    rw [Tree.erase, Tree.outermost, Tree.outermost]
    rfl
  | list items ih =>
    simp only [Tree.erase, Tree.outermost, Tree.eraseItems_eq_map, outermostItems_eq_flatMap,
      List.flatMap_map, List.map_flatMap]
    exact List.flatMap_congr ih
  | map entries ih =>
    simp only [Tree.erase, Tree.outermost, Tree.eraseEntries_eq_map, outermostEntries_eq_flatMap,
      List.flatMap_map, List.map_flatMap]
    exact List.flatMap_congr ih
  | _ => rw [Tree.erase]; rfl

theorem nodesAt_erase (other : a.kind ≠ "FunctionCall") (plain : ¬BearsName a.kind name) :
    a.erase.nodesAt name = (a.nodesAt name).map Node.erase := by
  have found : a.erase.member? name = (a.member? name).map (Tree.erase .elsewhere) := by
    unfold Node.member? Node.erase
    rw [Tree.eraseMembers_eq_map,
      SortedMap.lookup_map_values (eraseMember .elsewhere a.kind (isAssertion a.kind a.members))]
    refine congrArg (fun change => (a.members.lookup name).map change) (funext fun value => ?_)
    rw [eraseMember, erased?_elsewhere plain, not_assertion other]
    rfl
  unfold Node.nodesAt
  rw [found]
  cases a.member? name with
  | none => rfl
  | some tree => exact outermost_erase tree

end Nodes

end ContractTwins.Syntax

namespace ContractTwins

open Syntax

section Digests

variable {a b : Node} {name : String}

/-- Related nodes in some other order give the same digests once these are put in order. -/
theorem ascending_erased (but : RenamedBut name a b) (other : a.kind ≠ "FunctionCall")
    (plain : ¬BearsName a.kind name) {related : Node → Node → Prop} {digest : Node → String}
    (pairs : PairUp related (a.nodesAt name) (b.nodesAt name))
    (same : ∀ x y, related x y → digest x.erase = digest y.erase) :
    ascending ((a.erase.nodesAt name).map digest) =
      ascending ((b.erase.nodesAt name).map digest) := by
  have otherB := other
  have plainB := plain
  rw [but.kind] at otherB plainB
  rw [nodesAt_erase other plain, nodesAt_erase otherB plainB, List.map_map, List.map_map]
  exact ascending_eq_of_perm (perm_of_pairUp (pairs.imp_mem fun x _ y _ holds => same x y holds))

theorem declarationDigest_struct {node : Node} (struct : node.kind = "StructDefinition")
    (algorithm : Algorithm) :
    declarationDigest algorithm node = node.digestWith "members"
      (ascending ((node.nodesAt "members").map (Node.digest · algorithm))) algorithm := by
  rw [declarationDigest, if_pos struct]

theorem declarationDigest_of_renamed (renamed : RenamedDeclaration a b) (algorithm : Algorithm) :
    declarationDigest algorithm a.erase = declarationDigest algorithm b.erase := by
  cases renamed with
  | same renamed => rw [node_erase_eq renamed]
  | struct kind but members =>
    have structA : a.erase.kind = "StructDefinition" := kind
    have structB : b.erase.kind = "StructDefinition" := but.kind ▸ kind
    have other : a.kind ≠ "FunctionCall" := by
      rw [kind]
      decide
    have plain : ¬BearsName a.kind "members" := by
      rw [kind, bearsName_iff]
      decide
    have digests : ascending ((a.erase.nodesAt "members").map (Node.digest · algorithm)) =
        ascending ((b.erase.nodesAt "members").map (Node.digest · algorithm)) := by
      apply ascending_erased but other plain members
      intro x y same
      rw [node_erase_eq same]
    have named : "members" ≠ tagKey := by decide
    have rest := erase_withMember_eq but other (.list [])
    rw [declarationDigest_struct structA, declarationDigest_struct structB, digests]
    rw [Node.digestWith, Node.digestWith, ← encodeWith_withMember a.erase named (.list []),
      rest, encodeWith_withMember b.erase named]

/-- Contracts that differ in names, assertion messages, and the order of declarations and of struct
members have one canonical form, and with it one structural digest. -/
theorem canonical_of_renamed (renamed : RenamedContract a b) (algorithm : Algorithm) :
    ∃ form, Canonical.ofNode a algorithm = .ok form ∧ Canonical.ofNode b algorithm = .ok form ∧
      Record.digest a ⟨algorithm, .structural⟩ = .ok form.digest ∧
      Record.digest b ⟨algorithm, .structural⟩ = .ok form.digest := by
  have kind : a.kind = "ContractDefinition" := eq_of_beq renamed.contract
  have contractB : isContract b := by
    rw [isContract, ← renamed.but.kind]
    exact renamed.contract
  have other : a.kind ≠ "FunctionCall" := by
    rw [kind]
    decide
  have plain : ¬BearsName a.kind "subNodes" := by
    rw [kind, bearsName_iff]
    decide
  have digests := ascending_erased renamed.but other plain renamed.declarations
    fun d e same => declarationDigest_of_renamed same algorithm
  have formA := Canonical.ofNode_of_isContract renamed.contract algorithm
  have formB := Canonical.ofNode_of_isContract contractB algorithm
  rw [← digests, ← erase_withMember_eq renamed.but other (.list [])] at formB
  refine ⟨_, formA, formB, ?_⟩
  constructor
  · rw [Record.digest, formA]
  · rw [Record.digest, formB]

/-- The silver vault with its declarations and the members of its struct in another order. -/
def turnedVault : Node :=
  vault "Silver" [deposit "store" (demand "assert" "owed"),
    purse "Share" [coin "total" "uint", coin "holder" "address"]]

theorem renamed_coin (first second type : String) :
    Renamed .elsewhere (coin first type).tree (coin second type).tree := by
  have typeName : Renamed .elsewhere (.node "ElementaryTypeName" [("name", .text type)])
      (.node "ElementaryTypeName" [("name", .text type)]) := by
    refine .node rfl rfl ?_ nofun
    simp [Renamed.text]
  refine .node rfl rfl ?_ nofun
  simp [coin, BearsName.variable, typeName]

theorem renamed_purse :
    RenamedDeclaration (purse "Account" [coin "owner" "address", coin "amount" "uint"])
      (purse "Share" [coin "total" "uint", coin "holder" "address"]) := by
  apply RenamedDeclaration.struct rfl
  · refine ⟨rfl, rfl, ?_⟩
    simp [purse, BearsName.struct]
  · refine ⟨[coin "holder" "address", coin "total" "uint"], List.Perm.swap _ _ [], ?_⟩
    exact .cons (renamed_coin _ _ _) (.cons (renamed_coin _ _ _) .nil)

theorem renamed_demand :
    Renamed .elsewhere (demand "require" "paid").tree (demand "assert" "owed").tree := by
  have asserts : isAssertion (demand "require" "paid").kind (demand "require" "paid").members := rfl
  have callee : Renamed .elsewhere (.node "Identifier" [("name", .text "require")])
      (.node "Identifier" [("name", .text "assert")]) := by
    refine .node rfl rfl ?_ nofun
    simp [BearsName.identifier]
  have message : Renamed .argument (.node "StringLiteral" [("value", .text "paid")])
      (.node "StringLiteral" [("value", .text "owed")]) := by
    apply Renamed.message
    · rfl
    · simp
  have arguments : Renamed .arguments (.list [.node "StringLiteral" [("value", .text "paid")]])
      (.list [.node "StringLiteral" [("value", .text "owed")]]) := by
    apply Renamed.arguments
    · rfl
    · simpa using message
  apply Renamed.node
  · rfl
  · rfl
  · rw [asserts]
    simp [demand, callee]
  · simp [demand, arguments]

theorem renamed_deposit :
    RenamedDeclaration (deposit "deposit" (demand "require" "paid"))
      (deposit "store" (demand "assert" "owed")) := by
  have body : Renamed .elsewhere (.list [(demand "require" "paid").tree])
      (.list [(demand "assert" "owed").tree]) := by
    apply Renamed.list
    · rfl
    · simpa using renamed_demand
  refine .same (.node rfl rfl ?_ nofun)
  simp [deposit, BearsName.function, body]

theorem renamed_vaults : RenamedContract goldVault turnedVault where
  contract := rfl
  but := by
    have kept : Renamed .elsewhere (.list []) (.list []) := .list rfl (by simp)
    refine ⟨rfl, rfl, ?_⟩
    simp [goldVault, turnedVault, vault, BearsName.contract, Renamed.text, kept]
  declarations := by
    refine ⟨[purse "Share" [coin "total" "uint", coin "holder" "address"],
      deposit "store" (demand "assert" "owed")], List.Perm.swap _ _ [], ?_⟩
    exact .cons renamed_purse (.cons renamed_deposit .nil)

theorem canonical_of_renamed_vaults :
    Lifted goldVault ∧ Lifted turnedVault ∧ RenamedContract goldVault turnedVault ∧
      ∃ form, Canonical.ofNode goldVault .sha256 = .ok form ∧
        Canonical.ofNode turnedVault .sha256 = .ok form ∧
        Record.digest goldVault ⟨.sha256, .structural⟩ = .ok form.digest ∧
        Record.digest turnedVault ⟨.sha256, .structural⟩ = .ok form.digest :=
  ⟨lifted_goldVault, lifted_of_lift_toJson rfl, renamed_vaults,
    canonical_of_renamed renamed_vaults .sha256⟩

end Digests

end ContractTwins
