import Mathlib.Data.List.Forall2

/-!
When a composed computation succeeds: what its parts gave.
-/
namespace ContractTwins.Outcome

variable {ε α β : Type}

theorem map_eq_ok_iff {f : α → β} {result : Except ε α} {b : β} :
    result.map f = .ok b ↔ ∃ a, result = .ok a ∧ f a = b := by
  cases result <;> simp [Except.map]

theorem mapError_eq_ok_iff {φ : Type} {f : ε → φ} {result : Except ε α} {a : α} :
    result.mapError f = .ok a ↔ result = .ok a := by
  cases result <;> simp [Except.mapError]

theorem map_mapError_eq_ok_iff {σ : Type} {f : ε → ε} {result : Except ε α × σ} {a : α}
    {state : σ} :
    Prod.map (Except.mapError f) id result = (.ok a, state) ↔ result = (.ok a, state) := by
  obtain ⟨answer, left⟩ := result
  cases answer <;> simp [Except.mapError]

theorem bind_eq_ok_iff {f : α → Except ε β} {result : Except ε α} {b : β} :
    result >>= f = .ok b ↔ ∃ a, result = .ok a ∧ f a = .ok b := by
  cases result <;> simp [bind, Except.bind]

theorem pure_eq_ok_iff {a b : α} : (pure a : Except ε α) = .ok b ↔ a = b :=
  ⟨Except.ok.inj, fun same => by rw [same]; rfl⟩

theorem keyed_eq_ok_iff {κ : Type} {key : κ} {result : Except ε α} {entry : κ × α} :
    (do let a ← result; pure (key, a)) = .ok entry ↔ entry.1 = key ∧ result = .ok entry.2 := by
  obtain ⟨other, held⟩ := entry
  cases result with
  | error fault => simp [bind, Except.bind]
  | ok a => simp [bind, Except.bind, pure, Except.pure, eq_comm]

theorem exists_of_mem_right {R : α → β → Prop} {list : List α} {results : List β} {b : β}
    (pairs : List.Forall₂ R list results) (mem : b ∈ results) : ∃ a ∈ list, R a b := by
  induction pairs with
  | nil => cases mem
  | cons first later ih =>
    rcases List.mem_cons.mp mem with rfl | mem
    · exact ⟨_, List.mem_cons_self, first⟩
    · obtain ⟨a, memA, related⟩ := ih mem
      exact ⟨a, List.mem_cons_of_mem _ memA, related⟩

theorem forall₂_mem {R : α → β → Prop} {list : List α} {results : List β}
    (pairs : List.Forall₂ R list results) :
    List.Forall₂ (fun a b => a ∈ list ∧ b ∈ results ∧ R a b) list results := by
  induction pairs with
  | nil => exact .nil
  | cons first later ih =>
    refine .cons ⟨List.mem_cons_self, List.mem_cons_self, first⟩ (ih.imp fun a b pair => ?_)
    exact ⟨List.mem_cons_of_mem _ pair.1, List.mem_cons_of_mem _ pair.2.1, pair.2.2⟩

theorem mapM_eq_ok_iff {f : α → Except ε β} {list : List α} {results : List β} :
    list.mapM f = .ok results ↔ List.Forall₂ (fun a b => f a = .ok b) list results := by
  induction list generalizing results with
  | nil => rw [List.mapM_nil, pure_eq_ok_iff, List.forall₂_nil_left_iff, eq_comm]
  | cons a rest ih =>
    simp only [List.mapM_cons, List.forall₂_cons_left_iff, bind_eq_ok_iff, pure_eq_ok_iff, ih]
    constructor
    · rintro ⟨b, first, bs, later, rfl⟩
      exact ⟨b, bs, first, later, rfl⟩
    · rintro ⟨b, bs, first, later, rfl⟩
      exact ⟨b, first, bs, later, rfl⟩

theorem mapM_eq_map {f : α → Except ε β} {g : α → β} {list : List α}
    (succeeds : ∀ a ∈ list, f a = .ok (g a)) : list.mapM f = .ok (list.map g) := by
  rw [mapM_eq_ok_iff, List.forall₂_map_right_iff, List.forall₂_same]
  exact succeeds

theorem mapM_congr {f g : α → Except ε β} {list : List α} (same : ∀ a ∈ list, f a = g a) :
    list.mapM f = list.mapM g := by
  induction list with
  | nil => rfl
  | cons a rest ih =>
    rw [List.forall_mem_cons] at same
    simp only [List.mapM_cons, same.1, ih same.2]

def Succeeds (result : Except ε α) : Prop := ∃ a, result = .ok a

@[simp] theorem succeeds_ok (a : α) : Succeeds (.ok a : Except ε α) := ⟨a, rfl⟩

@[simp] theorem not_succeeds_error (error : ε) : ¬Succeeds (.error error : Except ε α) := by
  rintro ⟨a, same⟩
  cases same

theorem succeeds_map_iff {f : α → β} {result : Except ε α} :
    Succeeds (result.map f) ↔ Succeeds result := by
  cases result <;> simp [Succeeds, Except.map]

theorem succeeds_keyed_iff {κ : Type} {key : κ} {result : Except ε α} :
    Succeeds (do let a ← result; pure (key, a)) ↔ Succeeds result := by
  simp only [Succeeds, keyed_eq_ok_iff]
  constructor
  · rintro ⟨entry, -, read⟩
    exact ⟨entry.2, read⟩
  · rintro ⟨a, read⟩
    exact ⟨(key, a), rfl, read⟩

theorem succeeds_pair_iff {γ : Type} {first : Except ε α} {second : Except ε β} {join : α → β → γ} :
    Succeeds (do let a ← first; let b ← second; pure (join a b)) ↔
      Succeeds first ∧ Succeeds second := by
  simp only [Succeeds, bind_eq_ok_iff, pure_eq_ok_iff]
  constructor
  · rintro ⟨_, a, readA, b, readB, _⟩
    exact ⟨⟨a, readA⟩, b, readB⟩
  · rintro ⟨⟨a, readA⟩, b, readB⟩
    exact ⟨_, a, readA, b, readB, rfl⟩

theorem succeeds_mapM_iff {f : α → Except ε β} {list : List α} :
    Succeeds (list.mapM f) ↔ ∀ a ∈ list, Succeeds (f a) := by
  induction list with
  | nil => exact iff_of_true (succeeds_ok []) (by simp)
  | cons a rest ih => rw [List.mapM_cons, succeeds_pair_iff, ih, List.forall_mem_cons]

theorem mapM_eq_error {f : α → Except ε β} {before : List α} {a : α} {error : ε}
    (succeeds : ∀ b ∈ before, Succeeds (f b)) (fails : f a = .error error) (after : List α) :
    (before ++ a :: after).mapM f = .error error := by
  obtain ⟨results, first⟩ := succeeds_mapM_iff.mpr succeeds
  rw [List.mapM_append, List.mapM_cons, first, fails]
  rfl

theorem all_or_first (P : α → Prop) (list : List α) :
    (∀ a ∈ list, P a) ∨
      ∃ before a after, list = before ++ a :: after ∧ (∀ b ∈ before, P b) ∧ ¬P a := by
  classical
  cases found : list.find? fun a => ¬P a with
  | none => exact .inl (by simpa using found)
  | some a =>
    obtain ⟨without, before, after, cut, each⟩ := List.find?_eq_some_iff_append.mp found
    exact .inr ⟨before, a, after, cut, by simpa using each, by simpa using without⟩

end ContractTwins.Outcome
