import ContractTwins.Json.Basic
import Mathlib.Data.List.Infix

/-!
Paths into JSON values, and values that differ at certain places only. A place comes with what
stands there afterwards; what lies within a place is gone with it.
-/
namespace ContractTwins.Json

inductive Step where
  | member (key : String)
  | item (index : Nat)

def child? : Json → Step → Option Json
  | .object members, .member key => members.lookup key
  | .list items, .item index => items[index]?
  | _, _ => none

def at? : Json → List Step → Option Json
  | json, [] => some json
  | json, step :: path => (json.child? step).bind fun value => value.at? path

def shell : Json → Json
  | .list items => .list (items.map fun _ => .null)
  | .object members => .object (members.map fun member => (member.1, .null))
  | scalar => scalar

/-- Places in a value, and what they hold after a change. -/
abbrev Places := List Step → Json → Prop

/-- The second value is the first one but for what the places hold. -/
structure DiffersAt (places : Places) (before after : Json) : Prop where
  /-- A place that does not lie within another one holds what is said of it. -/
  replaced : ∀ {path value}, places path value →
    (∀ {place held}, places place held → place <+: path → place = path) →
    after.at? path = some value
  /-- What is no place and lies within none is as it was. -/
  kept : ∀ {path}, (∀ {place held}, places place held → ¬place <+: path) →
    (after.at? path).map shell = (before.at? path).map shell

theorem DiffersAt.congr {places others : Places} {before after : Json}
    (differs : DiffersAt places before after)
    (same : ∀ path value, others path value ↔ places path value) :
    DiffersAt others before after := by
  have eq : others = places := by
    funext path value
    exact propext (same path value)
  rwa [eq]

theorem differsAt_self {places : Places} (nowhere : ∀ path value, ¬places path value)
    (json : Json) : DiffersAt places json json :=
  ⟨fun {path value} place => absurd place (nowhere path value), fun _ => rfl⟩

inductive StepDiffers (places : Places) (step : Step) : Option Json → Option Json → Prop where
  | place {before : Option Json} {value : Json}
      (holds : ∀ other, places [step] other ↔ other = value) :
      StepDiffers places step before (some value)
  | below {before after : Json} (unplaced : ∀ value, ¬places [step] value)
      (differs : DiffersAt (fun path => places (step :: path)) before after) :
      StepDiffers places step (some before) (some after)
  | nowhere (absent : ∀ path value, ¬places (step :: path) value) :
      StepDiffers places step none none

theorem differsAt_of_steps {places : Places} {before after : Json}
    (whole : ∀ value, ¬places [] value) (shells : after.shell = before.shell)
    (steps : ∀ step, StepDiffers places step (before.child? step) (after.child? step)) :
    DiffersAt places before after := by
  constructor
  · intro path value place outermost
    cases path with
    | nil => exact absurd place (whole value)
    | cons step path =>
      have down := steps step
      rw [at?]
      generalize before.child? step = childBefore at down
      generalize after.child? step = childAfter at down
      cases down with
      | place holds =>
        -- What lies deeper is no outermost place, so the path ends here.
        have first := outermost ((holds _).mpr rfl) ⟨path, rfl⟩
        obtain ⟨-, rfl⟩ := List.cons.inj first
        simp [at?, (holds value).mp place]
      | below unplaced differs =>
        apply differs.replaced place
        intro inner held isPlace isPrefix
        have same := outermost isPlace (List.cons_prefix_cons.mpr ⟨rfl, isPrefix⟩)
        exact (List.cons.inj same).2
      | nowhere absent => exact absurd place (absent path value)
  · intro path outside
    cases path with
    | nil => simp [at?, shells]
    | cons step path =>
      have down := steps step
      rw [at?, at?]
      generalize before.child? step = childBefore at down
      generalize after.child? step = childAfter at down
      cases down with
      | place holds => exact absurd ⟨path, rfl⟩ (outside ((holds _).mpr rfl))
      | below unplaced differs =>
        apply differs.kept
        intro inner held isPlace isPrefix
        exact outside isPlace (List.cons_prefix_cons.mpr ⟨rfl, isPrefix⟩)
      | nowhere absent => rfl

theorem stepDiffers_of_held {α : Type} {places : Places} {step : Step} {held : Option α}
    {before after : α → Json} {inner : α → Places}
    (down : ∀ path value, places (step :: path) value ↔ ∃ a ∈ held, inner a path value)
    (whole : ∀ a value, ¬inner a [] value)
    (differs : ∀ a ∈ held, DiffersAt (inner a) (before a) (after a)) :
    StepDiffers places step (held.map before) (held.map after) := by
  cases held with
  | none => exact .nowhere fun path value place => by simpa using (down path value).mp place
  | some a =>
    have same : ∀ path value, places (step :: path) value ↔ inner a path value := by
      simpa using down
    refine .below ?_ ((differs a rfl).congr same)
    intro value place
    exact whole a value ((same [] value).mp place)

end ContractTwins.Json
