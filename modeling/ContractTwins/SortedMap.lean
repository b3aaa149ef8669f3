/-!
Association lists whose keys ascend. The order is a predicate beside the list, so that such a list
can stand inside a recursive type.
-/
namespace ContractTwins.SortedMap

variable {κ α : Type} [Ord κ]

def Ascending (entries : List (κ × α)) : Prop :=
  entries.Pairwise fun a b => compare a.1 b.1 = .lt

/-- Changes what stands under one key: a new key gets `change none`, and one with a value `v` gets
`change (some v)`. -/
def alter (key : κ) (change : Option α → α) : List (κ × α) → List (κ × α)
  | [] => [(key, change none)]
  | (other, value) :: rest =>
    match compare key other with
    | .lt => (key, change none) :: (other, value) :: rest
    | .eq => (key, change (some value)) :: rest
    | .gt => (other, value) :: alter key change rest

def insert (key : κ) (value : α) : List (κ × α) → List (κ × α) :=
  alter key fun _ => value

/-- The ascending list of some entries. Of two with one key the later is kept. -/
def ofList (entries : List (κ × α)) : List (κ × α) :=
  entries.foldl (fun sorted entry => insert entry.1 entry.2 sorted) []

theorem mem_keys_alter [Std.LawfulEqOrd κ] (key : κ) (change : Option α → α)
    (entries : List (κ × α)) (k : κ) :
    k ∈ (alter key change entries).map Prod.fst ↔ k = key ∨ k ∈ entries.map Prod.fst := by
  induction entries with
  | nil => simp [alter]
  | cons entry rest ih =>
    obtain ⟨other, value⟩ := entry
    rw [alter]
    split
    · simp
    · rename_i same
      have : key = other := Std.LawfulEqOrd.eq_of_compare same
      subst this
      simp
    · rw [List.map_cons, List.mem_cons, ih, List.map_cons, List.mem_cons]
      grind

theorem ascending_alter [Std.TransOrd κ] [Std.LawfulEqOrd κ] (key : κ) (change : Option α → α)
    {entries : List (κ × α)} (ascending : Ascending entries) :
    Ascending (alter key change entries) := by
  induction entries with
  | nil => simp [alter, Ascending]
  | cons entry rest ih =>
    obtain ⟨other, value⟩ := entry
    obtain ⟨below, ascendingRest⟩ := List.pairwise_cons.mp ascending
    rw [alter]
    split
    · rename_i lower
      refine List.pairwise_cons.mpr ⟨fun b mem => ?_, ascending⟩
      rcases List.mem_cons.mp mem with rfl | mem
      · exact lower
      · exact Std.TransCmp.lt_trans lower (below b mem)
    · rename_i same
      have : key = other := Std.LawfulEqOrd.eq_of_compare same
      subst this
      exact List.pairwise_cons.mpr ⟨below, ascendingRest⟩
    · rename_i greater
      refine List.pairwise_cons.mpr ⟨fun b mem => ?_, ih ascendingRest⟩
      have key_mem : b.1 ∈ (alter key change rest).map Prod.fst := List.mem_map_of_mem mem
      rcases (mem_keys_alter key change rest b.1).mp key_mem with eq | mem_rest
      · rw [eq]
        exact Std.OrientedCmp.lt_of_gt greater
      · obtain ⟨c, memC, eqC⟩ := List.mem_map.mp mem_rest
        rw [← eqC]
        exact below c memC

theorem ascending_ofList [Std.TransOrd κ] [Std.LawfulEqOrd κ] (entries : List (κ × α)) :
    Ascending (ofList entries) := by
  suffices step : ∀ sorted : List (κ × α), Ascending sorted →
      Ascending (entries.foldl (fun sorted entry => insert entry.1 entry.2 sorted) sorted) from
    step [] List.Pairwise.nil
  induction entries with
  | nil => exact fun _ ascending => ascending
  | cons entry rest ih => exact fun _ ascending => ih _ (ascending_alter entry.1 _ ascending)

end ContractTwins.SortedMap
