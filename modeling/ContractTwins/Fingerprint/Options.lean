import ContractTwins.Canonical.Contract
import ContractTwins.Syntax.Lift

/-!
What a fingerprint depends on: the digest algorithm and the mode. Options for a whole run hold
several modes, at least one and none twice.
-/
namespace ContractTwins

inductive Mode where
  | exact
  | structural
  deriving DecidableEq

inductive FingerprintError where
  | invalidTree (error : Syntax.LiftError)
  | invalidInput (kind : String)
  | invariantViolated (error : CanonicalError)
  | unsupportedMode (name : String)
  | unsupportedAlgorithm (name : String)
  | noModes

namespace FingerprintError

def message : FingerprintError → String
  | .invalidTree error => "invalid input: " ++ error.message
  | .invalidInput kind =>
    "invalid input: expected a SourceUnit or ContractDefinition, got " ++ kind
  | .invariantViolated error => "normalization invariant violated: " ++ error.message
  | .unsupportedMode name =>
    "unsupported hash mode `" ++ name ++ "` (expected AST_EXACT or AST_STRUCTURE)"
  | .unsupportedAlgorithm name => "unsupported hash algorithm `" ++ name ++ "`"
  | .noModes => "at least one hash mode is required"

/-- What is no contract is invalid input; any other failure of canonical forms is a broken
invariant. -/
def ofCanonical : CanonicalError → FingerprintError
  | .notAContract kind => .invalidInput kind
  | other => .invariantViolated other

end FingerprintError

namespace Mode

def all : List Mode := [.exact, .structural]

def name : Mode → String
  | .exact => "AST_EXACT"
  | .structural => "AST_STRUCTURE"

def ofName? (text : String) : Option Mode :=
  all.find? fun mode => mode.name == text

def parse? (text : String) : Option Mode :=
  ofName? (String.ofList (Text.trim text.toList))

def parse (text : String) : Except FingerprintError Mode :=
  match parse? text with
  | some mode => .ok mode
  | none => .error (.unsupportedMode text)

def parseList (text : String) : Except FingerprintError (List Mode) :=
  let names := (Text.pieces ',' text.toList).map Text.trim
  (names.filter fun name => !name.isEmpty).mapM fun name => parse (String.ofList name)

theorem ofName?_name (mode : Mode) : ofName? mode.name = some mode := by
  cases mode <;> decide

theorem name_injective {a b : Mode} (same : a.name = b.name) : a = b := by
  have named := ofName?_name a
  rw [same, ofName?_name] at named
  exact (Option.some.inj named).symm

end Mode

def Algorithm.parse (text : String) : Except FingerprintError Algorithm :=
  match Algorithm.parse? text with
  | some algorithm => .ok algorithm
  | none => .error (.unsupportedAlgorithm text)

structure HashOptions where
  algorithm : Algorithm
  mode : Mode
  deriving DecidableEq

def distinct {α : Type} [DecidableEq α] : List α → List α
  | [] => []
  | a :: rest => a :: (distinct rest).filter fun b => b ≠ a

theorem nodup_distinct {α : Type} [DecidableEq α] (items : List α) : (distinct items).Nodup := by
  induction items with
  | nil => exact List.nodup_nil
  | cons a rest ih =>
    rw [distinct, List.nodup_cons]
    exact ⟨by simp, ih.filter _⟩

theorem mem_distinct {α : Type} [DecidableEq α] (items : List α) (a : α) :
    a ∈ distinct items ↔ a ∈ items := by
  induction items with
  | nil => simp [distinct]
  | cons b rest ih =>
    by_cases eq : a = b
    · simp [distinct, eq]
    · simp [distinct, eq, ih]

structure Options where
  algorithm : Algorithm
  modes : List Mode
  modes_ne_nil : modes ≠ []
  nodup_modes : modes.Nodup

namespace Options

def ofModes (algorithm : Algorithm) (modes : List Mode) : Except FingerprintError Options :=
  if nonempty : distinct modes ≠ [] then
    .ok ⟨algorithm, distinct modes, nonempty, nodup_distinct modes⟩
  else .error .noModes

def default : Options := ⟨.default, Mode.all, by decide, by decide⟩

def parse (algorithm modes : String) : Except FingerprintError Options := do
  let algorithm ← Algorithm.parse algorithm
  let modes ← Mode.parseList modes
  ofModes algorithm modes

end Options

end ContractTwins
