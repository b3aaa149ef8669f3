import ContractTwins.SortedMap
import ContractTwins.Double.Basic

/-!
JSON values. The members of an object are a list, so that it can be written in a chosen order;
`Json.ofMembers` gives the usual form, with ascending keys and no key twice.
-/
namespace ContractTwins

/-- A number as its text gave it: a whole number, or a double where the text had a fraction, an
exponent or too many digits. -/
inductive Number where
  | integer (value : Int)
  | float (value : Double)
  deriving DecidableEq

namespace Number

def same : Number → Number → Bool
  | .integer a, .integer b => a == b
  | .float a, .float b => a.same b
  | _, _ => false

end Number

inductive Json where
  | null
  | bool (value : Bool)
  | number (value : Number)
  | text (value : String)
  | list (items : List Json)
  | object (members : List (String × Json))

namespace Json

@[induction_eliminator]
theorem induction {motive : Json → Prop} (null : motive .null)
    (bool : ∀ value, motive (.bool value)) (number : ∀ value, motive (.number value))
    (text : ∀ value, motive (.text value))
    (list : ∀ items, (∀ item ∈ items, motive item) → motive (.list items))
    (object : ∀ members, (∀ member ∈ members, motive member.2) → motive (.object members)) :
    (json : Json) → motive json
  | .null => null
  | .bool value => bool value
  | .number value => number value
  | .text value => text value
  | .list items => list items fun item _ =>
      induction null bool number text list object item
  | .object members => object members fun (_, value) _ =>
      induction null bool number text list object value
decreasing_by
  · rename_i mem
    have below := List.sizeOf_lt_of_mem mem
    simp only [Json.list.sizeOf_spec]
    omega
  · rename_i mem
    have below := List.sizeOf_lt_of_mem mem
    simp only [Json.object.sizeOf_spec, Prod.mk.sizeOf_spec] at below ⊢
    omega

/-- The object of some members. Of two with one key the later is kept. -/
def ofMembers (members : List (String × Json)) : Json :=
  .object (SortedMap.ofList members)

def replaceMember (json : Json) (key : String) (value : Json) : Json :=
  match json with
  | .object members =>
    .object (members.map fun member => if member.1 = key then (key, value) else member)
  | other => other

end Json

end ContractTwins
