import ContractTwins.Fingerprint.Record
import ContractTwins.Proofs.CompactText
import ContractTwins.Proofs.DeclarationOrder
import ContractTwins.Proofs.Relift

namespace ContractTwins.Syntax.Node

theorem versioned_injective {a b : Json} (same : versioned a = versioned b) : a = b :=
  Json.render_injective (String.append_right_inj _ |>.mp same)

theorem toJson_injective {a b : Node} (liftedA : Lifted a) (liftedB : Lifted b)
    (same : a.toJson = b.toJson) : a = b := by
  have back := lift_toJson (wellFormed_of_lifted liftedA)
  rw [same, lift_toJson (wellFormed_of_lifted liftedB)] at back
  exact (Except.ok.inj back).symm

theorem encode_injective {a b : Node} (liftedA : Lifted a) (liftedB : Lifted b)
    (same : a.encode = b.encode) : a = b :=
  toJson_injective liftedA liftedB (versioned_injective same)

end ContractTwins.Syntax.Node

namespace ContractTwins

open Syntax

/-- Two different byte strings with one digest. -/
def Collide (algorithm : Algorithm) (a b : List UInt8) : Prop :=
  a ≠ b ∧ algorithm.digest a = algorithm.digest b

theorem digest_eq_cases {algorithm : Algorithm} {a b : Node} (same : a.digest algorithm = b.digest algorithm) :
    a.encode = b.encode ∨ Collide algorithm (Text.bytes a.encode) (Text.bytes b.encode) := by
  by_cases encoded : Text.bytes a.encode = Text.bytes b.encode
  · exact Or.inl (Text.bytes_injective encoded)
  · exact Or.inr ⟨encoded, same⟩

theorem structural_digest {node : Node} (contract : isContract node) (algorithm : Algorithm) :
    ∃ form, Canonical.ofNode node algorithm = .ok form ∧
      Record.digest node ⟨algorithm, .structural⟩ = .ok form.digest := by
  have form := Canonical.ofNode_of_isContract contract algorithm
  exact ⟨_, form, by rw [Record.digest, form]⟩

/-- The encodings of two lifted nodes are the same bytes only if the nodes are one tree. So two
contracts of one exact digest are the same, with the same structural digest, or their encodings
collide. -/
theorem encoding_unambiguous {a b : Node} (liftedA : Lifted a) (liftedB : Lifted b) :
    (Text.bytes a.encode = Text.bytes b.encode → a = b) ∧
      ∀ algorithm : Algorithm, isContract a → isContract b →
        Record.digest a ⟨algorithm, .exact⟩ = Record.digest b ⟨algorithm, .exact⟩ →
        (a = b ∧ ∃ hash, Record.digest a ⟨algorithm, .structural⟩ = .ok hash ∧
          Record.digest b ⟨algorithm, .structural⟩ = .ok hash) ∨
        Collide algorithm (Text.bytes a.encode) (Text.bytes b.encode) := by
  refine ⟨fun same => Node.encode_injective liftedA liftedB (Text.bytes_injective same), ?_⟩
  intro algorithm contractA _ same
  rcases digest_eq_cases (Except.ok.inj same) with encoded | collision
  · have tree := Node.encode_injective liftedA liftedB encoded
    obtain ⟨form, -, digest⟩ := structural_digest contractA algorithm
    exact Or.inl ⟨tree, form.digest, digest, tree ▸ digest⟩
  · exact Or.inr collision

def coin (name type : String) : Node where
  kind := "VariableDeclaration"
  members := [("name", .text name), ("typeName", .node "ElementaryTypeName" [("name", .text type)])]

def purse (name : String) (coins : List Node) : Node where
  kind := "StructDefinition"
  members := [("name", .text name), ("members", .list (coins.map Node.tree))]

def demand (callee message : String) : Node where
  kind := "FunctionCall"
  members := [("expression", .node "Identifier" [("name", .text callee)]),
    ("arguments", .list [.node "StringLiteral" [("value", .text message)]])]

def deposit (name : String) (call : Node) : Node where
  kind := "FunctionDefinition"
  members := [("name", .text name), ("body", .list [call.tree])]

def vault (name : String) (declarations : List Node) : Node where
  kind := "ContractDefinition"
  members := [("name", .text name), ("kind", .text "contract"), ("baseContracts", .list []),
    ("subNodes", .list (declarations.map Node.tree))]

def goldVault : Node :=
  vault "Gold" [purse "Account" [coin "owner" "address", coin "amount" "uint"],
    deposit "deposit" (demand "require" "paid")]

def silverVault : Node :=
  vault "Silver" [purse "Share" [coin "holder" "address", coin "total" "uint"],
    deposit "store" (demand "assert" "owed")]

theorem lifted_goldVault : Lifted goldVault := lifted_of_lift_toJson rfl

theorem lifted_silverVault : Lifted silverVault := lifted_of_lift_toJson rfl

theorem encoding_of_vaults :
    Lifted goldVault ∧ Lifted silverVault ∧
      Text.bytes goldVault.encode ≠ Text.bytes silverVault.encode ∧
      ((goldVault = goldVault ∧ ∃ hash,
          Record.digest goldVault ⟨.sha256, .structural⟩ = .ok hash ∧
          Record.digest goldVault ⟨.sha256, .structural⟩ = .ok hash) ∨
        Collide .sha256 (Text.bytes goldVault.encode) (Text.bytes goldVault.encode)) := by
  refine ⟨lifted_goldVault, lifted_silverVault, ?_, ?_⟩
  · intro same
    have trees := (encoding_unambiguous lifted_goldVault lifted_silverVault).1 same
    have members := congrArg Node.members trees
    simp [goldVault, silverVault, vault] at members
  · exact (encoding_unambiguous lifted_goldVault lifted_goldVault).2 .sha256 rfl rfl rfl

end ContractTwins
