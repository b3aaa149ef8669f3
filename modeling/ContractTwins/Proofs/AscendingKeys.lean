import ContractTwins.SortedMap
import Mathlib.Data.List.Forall2
import Mathlib.Data.List.Nodup
import Mathlib.Data.List.Perm.Basic

/-!
Laws of ascending association lists. A list that `ofList` puts in order keeps its entries if their
keys are distinct; nothing is said here of the entries that a repeated key loses.
-/
namespace ContractTwins.SortedMap

variable {κ α β : Type} [Ord κ]

instance (entries : List (κ × α)) : Decidable (Ascending entries) :=
  inferInstanceAs (Decidable (entries.Pairwise fun a b => compare a.1 b.1 = .lt))

theorem insert_perm [Std.LawfulEqOrd κ] {key : κ} (value : α) {entries : List (κ × α)}
    (absent : key ∉ entries.map Prod.fst) :
    (insert key value entries).Perm ((key, value) :: entries) := by
  induction entries with
  | nil => exact List.Perm.refl _
  | cons entry rest ih =>
    obtain ⟨other, held⟩ := entry
    rw [List.map_cons, List.mem_cons, not_or] at absent
    rw [insert, alter]
    split
    · exact List.Perm.refl _
    · rename_i same
      exact absurd (Std.LawfulEqOrd.eq_of_compare same) absent.1
    · exact (List.Perm.cons _ (ih absent.2)).trans (List.Perm.swap _ _ _)

theorem ofList_perm [Std.LawfulEqOrd κ] {entries : List (κ × α)}
    (distinct : (entries.map Prod.fst).Nodup) : (ofList entries).Perm entries := by
  suffices step : ∀ sorted : List (κ × α), ((entries ++ sorted).map Prod.fst).Nodup →
      (entries.foldl (fun sorted entry => insert entry.1 entry.2 sorted) sorted).Perm
        (entries ++ sorted) by
    simpa [ofList] using step [] (by simpa using distinct)
  clear distinct
  induction entries with
  | nil => exact fun _ _ => List.Perm.refl _
  | cons entry rest ih =>
    intro sorted distinct
    rw [List.cons_append, List.map_cons, List.nodup_cons] at distinct
    obtain ⟨absent, distinct⟩ := distinct
    have inserted : (insert entry.1 entry.2 sorted).Perm (entry :: sorted) :=
      insert_perm _ fun mem => absent (by rw [List.map_append]; exact List.mem_append_right _ mem)
    have moved : (rest ++ insert entry.1 entry.2 sorted).Perm (entry :: (rest ++ sorted)) :=
      (inserted.append_left rest).trans List.perm_middle
    have keys := (moved.map Prod.fst).nodup_iff.mpr (List.nodup_cons.mpr ⟨absent, distinct⟩)
    exact (ih _ keys).trans moved

theorem mem_of_mem_insert {key : κ} {value : α} {entries : List (κ × α)} {entry : κ × α}
    (mem : entry ∈ insert key value entries) : entry.2 = value ∨ entry ∈ entries := by
  induction entries with
  | nil => exact Or.inl (by rw [List.mem_singleton.mp mem])
  | cons first rest ih =>
    obtain ⟨other, held⟩ := first
    rw [insert, alter] at mem
    split at mem
    · rcases List.mem_cons.mp mem with rfl | mem
      · exact Or.inl rfl
      · exact Or.inr mem
    · rcases List.mem_cons.mp mem with rfl | mem
      · exact Or.inl rfl
      · exact Or.inr (List.mem_cons_of_mem _ mem)
    · rcases List.mem_cons.mp mem with rfl | mem
      · exact Or.inr List.mem_cons_self
      · exact (ih mem).imp_right (List.mem_cons_of_mem _)

theorem mem_values_ofList {entries : List (κ × α)} {entry : κ × α} (mem : entry ∈ ofList entries) :
    entry.2 ∈ entries.map Prod.snd := by
  suffices step : ∀ sorted : List (κ × α),
      entry ∈ entries.foldl (fun sorted entry => insert entry.1 entry.2 sorted) sorted →
        entry.2 ∈ entries.map Prod.snd ∨ entry ∈ sorted by
    rcases step [] mem with mem | mem
    · exact mem
    · cases mem
  clear mem
  induction entries with
  | nil => exact fun _ mem => Or.inr mem
  | cons first rest ih =>
    intro sorted mem
    rw [List.map_cons, List.mem_cons, or_assoc]
    rcases ih _ mem with mem | mem
    · exact Or.inr (Or.inl mem)
    · exact (mem_of_mem_insert mem).imp_right Or.inr

theorem nodup_of_ascending [Std.TransOrd κ] [Std.LawfulEqOrd κ] {entries : List (κ × α)}
    (ascending : Ascending entries) : (entries.map Prod.fst).Nodup := by
  rw [List.nodup_iff_pairwise_ne, List.pairwise_map]
  refine ascending.imp fun lower same => ?_
  rw [same] at lower
  exact absurd (lower.symm.trans Std.ReflCmp.compare_self) (by decide)

theorem eq_of_perm [Std.TransOrd κ] {a b : List (κ × α)} (ascendingA : Ascending a)
    (ascendingB : Ascending b) (perm : a.Perm b) : a = b := by
  refine List.Perm.eq_of_pairwise (fun x y _ _ lower higher => ?_) ascendingA ascendingB perm
  rw [Std.OrientedCmp.gt_of_lt lower] at higher
  cases higher

theorem ofList_eq_self [Std.TransOrd κ] [Std.LawfulEqOrd κ] {entries : List (κ × α)}
    (ascending : Ascending entries) : ofList entries = entries :=
  eq_of_perm (ascending_ofList entries) ascending (ofList_perm (nodup_of_ascending ascending))

theorem ascending_of_same_keys {a : List (κ × α)} {b : List (κ × β)}
    (same : List.Forall₂ (fun x y => y.1 = x.1) a b) (ascending : Ascending a) : Ascending b := by
  have keys : b.map Prod.fst = a.map Prod.fst := by
    clear ascending
    induction same with
    | nil => rfl
    | cons first later ih => rw [List.map_cons, List.map_cons, first, ih]
  rw [Ascending, ← List.pairwise_map (f := Prod.fst) (R := fun a b => compare a b = .lt)] at *
  rwa [keys]

theorem ascending_map {f : α → β} {entries : List (κ × α)} :
    Ascending (entries.map fun entry => (entry.1, f entry.2)) ↔ Ascending entries := by
  rw [Ascending, List.pairwise_map, Ascending]

omit [Ord κ] in
theorem mem_of_lookup_eq_some [BEq κ] [LawfulBEq κ] {key : κ} {value : α} {entries : List (κ × α)}
    (found : entries.lookup key = some value) : (key, value) ∈ entries := by
  induction entries with
  | nil => cases found
  | cons entry rest ih =>
    obtain ⟨other, held⟩ := entry
    rw [List.lookup_cons] at found
    split at found
    · rename_i same
      rw [beq_iff_eq.mp same, Option.some.inj found]
      exact List.mem_cons_self
    · exact List.mem_cons_of_mem _ (ih found)

omit [Ord κ] in
theorem lookup_eq_some_iff_mem [BEq κ] [LawfulBEq κ] {key : κ} {value : α} {entries : List (κ × α)}
    (distinct : (entries.map Prod.fst).Nodup) :
    entries.lookup key = some value ↔ (key, value) ∈ entries := by
  refine ⟨mem_of_lookup_eq_some, fun mem => ?_⟩
  induction entries with
  | nil => cases mem
  | cons entry rest ih =>
    rw [List.map_cons, List.nodup_cons] at distinct
    rcases List.mem_cons.mp mem with rfl | mem
    · exact List.lookup_cons_self
    · have different : key ≠ entry.1 := fun same =>
        distinct.1 (same ▸ List.mem_map_of_mem mem)
      rw [List.lookup_cons, beq_eq_false_iff_ne.mpr different]
      exact ih distinct.2 mem

theorem eq_of_lookup_eq [BEq κ] [LawfulBEq κ] [Std.TransOrd κ] [Std.LawfulEqOrd κ]
    {a b : List (κ × α)} (ascendingA : Ascending a) (ascendingB : Ascending b)
    (same : ∀ key, a.lookup key = b.lookup key) : a = b := by
  have keysA := nodup_of_ascending ascendingA
  have keysB := nodup_of_ascending ascendingB
  refine eq_of_perm ascendingA ascendingB ?_
  rw [List.perm_ext_iff_of_nodup (List.Nodup.of_map _ keysA) (List.Nodup.of_map _ keysB)]
  rintro ⟨key, value⟩
  rw [← lookup_eq_some_iff_mem keysA, ← lookup_eq_some_iff_mem keysB, same key]

omit [Ord κ] in
theorem lookup_eq_of_perm [BEq κ] [LawfulBEq κ] {a b : List (κ × α)} (perm : a.Perm b)
    (distinct : (a.map Prod.fst).Nodup) (key : κ) : a.lookup key = b.lookup key := by
  have distinctB := (perm.map Prod.fst).nodup_iff.mp distinct
  refine Option.ext fun value => ?_
  rw [lookup_eq_some_iff_mem distinct, lookup_eq_some_iff_mem distinctB, perm.mem_iff]

omit [Ord κ] in
theorem lookup_cons_ite [DecidableEq κ] (key first : κ) (value : α) (rest : List (κ × α)) :
    ((first, value) :: rest).lookup key = if key = first then some value else rest.lookup key := by
  rw [List.lookup_cons]
  by_cases same : key = first
  · simp [same]
  · rw [beq_eq_false_iff_ne.mpr same, if_neg same]

omit [Ord κ] in
theorem lookup_filter_keys [DecidableEq κ] (keep : κ → Bool) (key : κ)
    (entries : List (κ × α)) :
    (entries.filter fun entry => keep entry.1).lookup key =
      if keep key then entries.lookup key else none := by
  induction entries with
  | nil => simp
  | cons entry rest ih =>
    obtain ⟨first, value⟩ := entry
    rw [List.filter_cons]
    by_cases same : key = first
    · subst same
      cases kept : keep key <;> simp [ih, kept]
    · cases keep first <;> simp [lookup_cons_ite, ih, same]

omit [Ord κ] in
theorem lookup_append [DecidableEq κ] (key : κ) (first second : List (κ × α)) :
    (first ++ second).lookup key = (first.lookup key).or (second.lookup key) := by
  induction first with
  | nil => simp
  | cons entry rest ih =>
    rw [List.cons_append, lookup_cons_ite, lookup_cons_ite, ih]
    split <;> rfl

theorem lookup_of_below [DecidableEq κ] [Std.TransOrd κ] [Std.LawfulEqOrd κ] {key : κ}
    {entries : List (κ × α)} (below : ∀ entry ∈ entries, compare key entry.1 = .lt) :
    entries.lookup key = none := by
  rw [List.lookup_eq_none_iff]
  intro entry mem
  have different : key ≠ entry.1 := by
    intro same
    have lower := below entry mem
    rw [← same, Std.LawfulEqOrd.compare_eq_iff_eq.mpr rfl] at lower
    cases lower
  simp [different]

theorem lookup_of_below_head [DecidableEq κ] [Std.TransOrd κ] [Std.LawfulEqOrd κ] {key first : κ}
    {value : α} {rest : List (κ × α)} (lower : compare key first = .lt)
    (ascending : Ascending ((first, value) :: rest)) : ((first, value) :: rest).lookup key = none := by
  obtain ⟨below, -⟩ := List.pairwise_cons.mp ascending
  apply lookup_of_below
  intro entry mem
  rcases List.mem_cons.mp mem with rfl | later
  · exact lower
  · exact Std.TransCmp.lt_trans lower (below entry later)

theorem filter_key [DecidableEq κ] [Std.TransOrd κ] [Std.LawfulEqOrd κ] {key : κ}
    {entries : List (κ × α)} (ascending : Ascending entries) :
    (entries.filter fun entry => entry.1 = key) =
      ((entries.lookup key).map fun value => (key, value)).toList := by
  induction entries with
  | nil => rfl
  | cons entry rest ih =>
    obtain ⟨first, value⟩ := entry
    obtain ⟨below, ascendingRest⟩ := List.pairwise_cons.mp ascending
    rw [List.filter_cons, lookup_cons_ite, ih ascendingRest]
    by_cases same : key = first
    · subst same
      rw [lookup_of_below below]
      simp
    · simp [same, Ne.symm same]

theorem lookup_alter [DecidableEq κ] [Std.TransOrd κ] [Std.LawfulEqOrd κ] (key other : κ)
    (change : Option α → α) {entries : List (κ × α)} (ascending : Ascending entries) :
    (alter key change entries).lookup other =
      if other = key then some (change (entries.lookup key)) else entries.lookup other := by
  induction entries with
  | nil => rw [alter, lookup_cons_ite]; rfl
  | cons entry rest ih =>
    obtain ⟨first, value⟩ := entry
    obtain ⟨below, ascendingRest⟩ := List.pairwise_cons.mp ascending
    rw [alter]
    split
    · rename_i lower
      rw [lookup_of_below_head lower ascending, lookup_cons_ite]
    · rename_i equal
      have same : key = first := Std.LawfulEqOrd.eq_of_compare equal
      subst same
      simp only [lookup_cons_ite, if_true]
      split <;> rfl
    · rename_i greater
      have different : key ≠ first := by
        intro same
        rw [same, Std.LawfulEqOrd.compare_eq_iff_eq.mpr rfl] at greater
        cases greater
      simp only [lookup_cons_ite, ih ascendingRest, if_neg different]
      split
      · rename_i same
        rw [if_neg (fun equal => different (equal.symm.trans same))]
      · rfl

section Related

variable {R : α → β → Prop} {a : List (κ × α)} {b : List (κ × β)}

def Related (R : α → β → Prop) (a : List (κ × α)) (b : List (κ × β)) : Prop :=
  List.Forall₂ (fun x y => x.1 = y.1 ∧ R x.2 y.2) a b

omit [Ord κ] in
theorem keys_of_related (pairs : Related R a b) : a.map Prod.fst = b.map Prod.fst := by
  induction pairs with
  | nil => rfl
  | cons first later ih => rw [List.map_cons, List.map_cons, first.1, ih]

omit [Ord κ] in
theorem lookup_of_related [DecidableEq κ] (pairs : Related R a b) (key : κ) :
    Option.Rel R (a.lookup key) (b.lookup key) := by
  induction pairs with
  | nil => exact .none
  | @cons x y rest others pair later ih =>
    obtain ⟨name, value⟩ := x
    obtain ⟨other, held⟩ := y
    obtain ⟨same, related⟩ := pair
    dsimp only at same related
    subst same
    rw [lookup_cons_ite, lookup_cons_ite]
    split
    · exact .some related
    · exact ih

theorem related_alter {change : Option α → α} {other : Option β → β} (key : κ)
    (changed : ∀ x y, Option.Rel R x y → R (change x) (other y)) (pairs : Related R a b) :
    Related R (alter key change a) (alter key other b) := by
  unfold Related
  induction pairs with
  | nil => exact .cons ⟨rfl, changed _ _ .none⟩ .nil
  | @cons x y rest others pair later ih =>
    obtain ⟨name, value⟩ := x
    obtain ⟨second, held⟩ := y
    obtain ⟨same, related⟩ := pair
    dsimp only at same related
    subst same
    rw [alter, alter]
    cases compare key name with
    | lt => exact .cons ⟨rfl, changed _ _ .none⟩ (.cons ⟨rfl, related⟩ later)
    | eq => exact .cons ⟨rfl, changed _ _ (.some related)⟩ later
    | gt => exact .cons ⟨rfl, related⟩ ih

theorem key_eq_of_lookup [DecidableEq κ] [Std.TransOrd κ] [Std.LawfulEqOrd κ] {first second : κ}
    {value : α} {held : β} (ascendingA : Ascending ((first, value) :: a))
    (ascendingB : Ascending ((second, held) :: b))
    (related : ∀ key, Option.Rel R (((first, value) :: a).lookup key)
      (((second, held) :: b).lookup key)) : first = second := by
  cases order : compare first second with
  | lt =>
    have missing := related first
    rw [List.lookup_cons_self, lookup_of_below_head order ascendingB] at missing
    cases missing
  | eq => exact Std.LawfulEqOrd.eq_of_compare order
  | gt =>
    have missing := related second
    rw [List.lookup_cons_self, lookup_of_below_head (Std.OrientedCmp.lt_of_gt order) ascendingA]
      at missing
    cases missing

theorem related_of_lookup [DecidableEq κ] [Std.TransOrd κ] [Std.LawfulEqOrd κ]
    (ascendingA : Ascending a) (ascendingB : Ascending b)
    (related : ∀ key, Option.Rel R (a.lookup key) (b.lookup key)) : Related R a b := by
  unfold Related
  induction a generalizing b with
  | nil =>
    cases b with
    | nil => exact .nil
    | cons y others =>
      have missing := related y.1
      rw [List.lookup_cons_self] at missing
      cases missing
  | cons x rest ih =>
    cases b with
    | nil =>
      have missing := related x.1
      rw [List.lookup_cons_self] at missing
      cases missing
    | cons y others =>
      obtain ⟨first, value⟩ := x
      obtain ⟨second, held⟩ := y
      have same := key_eq_of_lookup ascendingA ascendingB related
      subst same
      obtain ⟨belowA, ascendingRest⟩ := List.pairwise_cons.mp ascendingA
      obtain ⟨belowB, ascendingOthers⟩ := List.pairwise_cons.mp ascendingB
      refine .cons ⟨rfl, ?_⟩ (ih ascendingRest ascendingOthers ?_)
      · have found := related first
        rw [List.lookup_cons_self, List.lookup_cons_self] at found
        cases found with
        | some pair => exact pair
      · intro key
        by_cases same : key = first
        · rw [same, lookup_of_below belowA, lookup_of_below belowB]
          exact .none
        · have found := related key
          rwa [lookup_cons_ite, lookup_cons_ite, if_neg same, if_neg same] at found

end Related

theorem mem_keys_ofList [Std.LawfulEqOrd κ] {key : κ} {entries : List (κ × α)} :
    key ∈ (ofList entries).map Prod.fst ↔ key ∈ entries.map Prod.fst := by
  suffices step : ∀ sorted : List (κ × α),
      key ∈ (entries.foldl (fun sorted entry => insert entry.1 entry.2 sorted) sorted).map Prod.fst ↔
        key ∈ entries.map Prod.fst ∨ key ∈ sorted.map Prod.fst by
    simpa [ofList] using step []
  induction entries with
  | nil => simp
  | cons entry rest ih =>
    intro sorted
    rw [List.foldl_cons, ih, insert, mem_keys_alter, List.map_cons, List.mem_cons]
    tauto

theorem ofList_map_values [Std.LawfulEqOrd κ] (f : κ → α → β) (entries : List (κ × α)) :
    ofList (entries.map fun entry => (entry.1, f entry.1 entry.2)) =
      (ofList entries).map fun entry => (entry.1, f entry.1 entry.2) := by
  have inserted : ∀ (key : κ) (value : α) (sorted : List (κ × α)),
      insert key (f key value) (sorted.map fun entry => (entry.1, f entry.1 entry.2)) =
        (insert key value sorted).map fun entry => (entry.1, f entry.1 entry.2) := by
    intro key value sorted
    induction sorted with
    | nil => rfl
    | cons entry rest ih =>
      rw [insert, insert] at *
      rw [List.map_cons, alter, alter]
      split
      · rfl
      · rfl
      · rw [ih, List.map_cons]
  suffices step : ∀ sorted : List (κ × α),
      (entries.map fun entry => (entry.1, f entry.1 entry.2)).foldl
          (fun sorted entry => insert entry.1 entry.2 sorted)
          (sorted.map fun entry => (entry.1, f entry.1 entry.2)) =
        (entries.foldl (fun sorted entry => insert entry.1 entry.2 sorted) sorted).map
          fun entry => (entry.1, f entry.1 entry.2) from step []
  induction entries with
  | nil => exact fun _ => rfl
  | cons entry rest ih =>
    intro sorted
    rw [List.map_cons, List.foldl_cons, List.foldl_cons, inserted, ih]

def replace (key : String) (value : α) (entries : List (String × α)) : List (String × α) :=
  entries.map fun entry => if entry.1 = key then (key, value) else entry

theorem replace_eq_map (key : String) (value : α) (entries : List (String × α)) :
    replace key value entries =
      entries.map fun entry => (entry.1, if entry.1 = key then value else entry.2) := by
  refine List.map_congr_left fun entry _ => ?_
  split
  · rename_i same
    rw [same]
  · rfl

theorem keys_replace (key : String) (value : α) (entries : List (String × α)) :
    (replace key value entries).map Prod.fst = entries.map Prod.fst := by
  rw [replace_eq_map, List.map_map]
  rfl

theorem ofList_replace (key : String) (value : α) (entries : List (String × α)) :
    ofList (replace key value entries) = replace key value (ofList entries) := by
  rw [replace_eq_map, replace_eq_map]
  exact ofList_map_values (fun name held => if name = key then value else held) entries

theorem replace_replace (key : String) (first second : α) (entries : List (String × α)) :
    replace key second (replace key first entries) = replace key second entries := by
  rw [replace, replace, List.map_map]
  refine List.map_congr_left fun entry _ => ?_
  by_cases same : entry.1 = key <;> simp [same]

theorem lookup_map_values (f : String → α → β) (key : String) (entries : List (String × α)) :
    (entries.map fun entry => (entry.1, f entry.1 entry.2)).lookup key =
      (entries.lookup key).map (f key) := by
  induction entries with
  | nil => rfl
  | cons entry rest ih =>
    rw [List.map_cons, List.lookup_cons, List.lookup_cons, ih]
    by_cases same : key = entry.1
    · simp [same]
    · rw [beq_eq_false_iff_ne.mpr same]

theorem lookup_replace {key : String} {value : α} {entries : List (String × α)}
    (present : key ∈ entries.map Prod.fst) :
    (replace key value entries).lookup key = some value := by
  rw [replace_eq_map, lookup_map_values fun name held => if name = key then value else held]
  obtain ⟨entry, mem, rfl⟩ := List.mem_map.mp present
  cases found : entries.lookup entry.1 with
  | none =>
    rw [List.lookup_eq_none_iff] at found
    exact absurd (found entry mem) (by simp)
  | some held => simp

theorem lookup_replace_of_ne {key other : String} (different : other ≠ key) (value : α)
    (entries : List (String × α)) : (replace key value entries).lookup other = entries.lookup other := by
  rw [replace_eq_map, lookup_map_values fun name held => if name = key then value else held]
  simp [different]

end ContractTwins.SortedMap
