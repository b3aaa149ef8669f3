import ContractTwins.Json.Reader
import ContractTwins.Syntax.Lift

/-!
Syntax trees spelled as texts. A text is read, lifted, and only then looked at for what follows the
value: a value that is no tree is reported before anything behind it.
-/
namespace ContractTwins.Syntax

inductive TextError where
  | notJson (fault : Json.Fault)
  | notATree (error : LiftError)

def TextError.message (text : String) : TextError → String
  | .notJson fault => fault.message text
  | .notATree error => error.message

def Node.ofText (text : String) : Except TextError Node :=
  match Json.value Json.depthLimit text.toList with
  | .error fault => .error (.notJson fault)
  | .ok ⟨json, rest, _⟩ =>
    match lift json with
    | .error error => .error (.notATree error)
    | .ok node => ((Json.ending rest).map fun _ => node).mapError .notJson

end ContractTwins.Syntax
