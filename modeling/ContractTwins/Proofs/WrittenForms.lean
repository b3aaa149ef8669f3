import ContractTwins.Json.Form
import ContractTwins.Json.Reader
import ContractTwins.Proofs.AscendingKeys
import ContractTwins.Proofs.CompactText

/-!
Forms read what the printer writes. A form spells a value as some JSON if it reads the value off the
compact text of it, whatever follows. Records are spelled by their fields in any order.
-/
namespace ContractTwins.Json

section Scanners

variable {α β : Type} {scan : Scanner α} {text later rest : List Char} {a : α}

theorem reads_map (f : α → β) (read : Reads scan text a rest) :
    Reads (scan.map f) text (f a) rest := by
  obtain ⟨shorter, eq⟩ := read
  exact ⟨shorter, by rw [Scanner.map, eq]; rfl⟩

theorem reads_andThen {next : α → Scanner β} {b : β} (first : Reads scan text a later)
    (second : Reads (next a) later b rest) : Reads (scan.andThen next) text b rest := by
  obtain ⟨shorter, eq⟩ := first
  obtain ⟨shorterRest, eqRest⟩ := second
  exact ⟨Nat.lt_trans shorterRest shorter, by simp [Scanner.andThen, eq, eqRest, Scanned.within]⟩

end Scanners

theorem skipSpace_cons {c : Char} (mark : isSpace c = false) (rest : List Char) :
    skipSpace (c :: rest) = c :: rest := by
  rw [skipSpace, List.dropWhile_cons_of_neg (by simp [mark])]

theorem quoted_cons (text : String) (rest : List Char) :
    quoted text ++ rest = '"' :: (text.toList.flatMap escape ++ '"' :: rest) := by
  simp [quoted]

theorem reads_quotedTail (text : String) (rest : List Char) :
    Reads quotedTail (text.toList.flatMap escape ++ '"' :: rest) text rest := by
  have read := reads_map String.ofList (reads_quotedChars text.toList rest)
  rwa [String.ofList_toList] at read

theorem reads_colon (rest : List Char) : Reads colon (':' :: rest) () rest :=
  ⟨Nat.lt_succ_self _, rfl⟩

theorem reads_key (name : String) (rest : List Char) :
    Reads key (quoted name ++ rest) name rest := by
  rw [quoted_cons]
  obtain ⟨shorter, read⟩ := reads_quotedTail name rest
  refine ⟨Nat.lt_succ_of_lt shorter, ?_⟩
  simp only [key, read]
  rfl

theorem nextKey?_first (tail : List Char) :
    nextKey? true ('"' :: tail) = (key ('"' :: tail)).map some := by
  have start : skipSpace ('"' :: tail) = '"' :: tail := skipSpace_cons rfl tail
  unfold nextKey?
  split
  · rename_i eq
    cases start.symm.trans eq
  · rename_i eq
    cases start.symm.trans eq
  · rename_i c rest _ eq
    cases start.symm.trans eq
    cases key ('"' :: tail) <;> rfl

theorem nextKey?_later (tail : List Char) :
    nextKey? false (',' :: '"' :: tail) =
      (key ('"' :: tail)).map fun scanned => some (scanned.within (Nat.le_succ _)) := by
  have start : skipSpace (',' :: '"' :: tail) = ',' :: '"' :: tail := skipSpace_cons rfl _
  have named : skipSpace ('"' :: tail) = '"' :: tail := skipSpace_cons rfl tail
  unfold nextKey?
  split
  · rename_i eq
    cases start.symm.trans eq
  · rename_i eq
    cases start.symm.trans eq
  · rename_i c rest _ eq
    cases start.symm.trans eq
    rw [if_neg (by decide), if_pos rfl]
    split
    · rename_i eq _
      cases named.symm.trans eq
    · rename_i eq _
      cases named.symm.trans eq
    · -- The key is read off a text that depends on itself: first the text, then the key.
      generalize skipSpace ('"' :: tail) = text at *
      subst named
      cases key ('"' :: tail) <;> rfl

theorem nextKey?_close (first : Bool) (rest : List Char) :
    nextKey? first ('\x7d' :: rest) = .ok none := rfl

section Members

variable {σ : Type} {member : String → σ → Scanner σ}

inductive Fills (member : String → σ → Scanner σ) : σ → List (String × Json) → σ → Prop where
  | nil (state : σ) : Fills member state [] state
  | cons {name : String} {value : Json} {state next last : σ} {more : List (String × Json)}
      (read : ∀ rest, EndsNumber rest →
        Reads (member name state) (':' :: (compact value ++ rest)) next rest)
      (later : Fills member next more last) : Fills member state ((name, value) :: more) last

theorem reads_members_close (first : Bool) (state : σ) (rest : List Char) :
    Reads (members member first state) ('\x7d' :: rest) state rest := by
  refine ⟨Nat.lt_succ_self _, ?_⟩
  rw [members]
  simp only [nextKey?_close]
  rfl

theorem reads_members_first {name : String} {state next last : σ} {text later rest : List Char}
    (read : Reads (member name state) text next later)
    (more : Reads (members member false next) later last rest) :
    Reads (members member true state) (quoted name ++ text) last rest := by
  obtain ⟨shorterKey, eqKey⟩ := reads_key name text
  obtain ⟨shorter, eq⟩ := read
  obtain ⟨shorterMore, eqMore⟩ := more
  refine ⟨by omega, ?_⟩
  have next := nextKey?_first (name.toList.flatMap escape ++ '"' :: text)
  rw [← quoted_cons, eqKey] at next
  rw [members]
  simp only [next, Except.map, eq, eqMore]

theorem reads_members_later {name : String} {state next last : σ} {text later rest : List Char}
    (read : Reads (member name state) text next later)
    (more : Reads (members member false next) later last rest) :
    Reads (members member false state) (',' :: (quoted name ++ text)) last rest := by
  obtain ⟨shorterKey, eqKey⟩ := reads_key name text
  obtain ⟨shorter, eq⟩ := read
  obtain ⟨shorterMore, eqMore⟩ := more
  refine ⟨Nat.lt_succ_of_lt (by omega), ?_⟩
  have next := nextKey?_later (name.toList.flatMap escape ++ '"' :: text)
  rw [← quoted_cons, eqKey] at next
  rw [members]
  simp only [next, Except.map, Scanned.within, eq, eqMore]

theorem reads_membersTail {state last : σ} {list : List (String × Json)}
    (fills : Fills member state list last) (rest : List Char) :
    Reads (members member false state) (membersTail list ++ '\x7d' :: rest) last rest := by
  induction fills with
  | nil state => exact reads_members_close false state rest
  | @cons name value state next last more read later ih =>
    have whole := reads_members_later (read _ (endsNumber_membersTail more rest)) ih
    simpa [membersTail, compactMembers_cons] using whole

theorem reads_compactMembers {state last : σ} {list : List (String × Json)}
    (fills : Fills member state list last) (rest : List Char) :
    Reads (members member true state) (compactMembers list ++ '\x7d' :: rest) last rest := by
  cases fills with
  | nil => exact reads_members_close true state rest
  | @cons name value _ next _ more read later =>
    have whole := reads_members_first (read _ (endsNumber_membersTail more rest))
      (reads_membersTail later rest)
    simpa [compactMembers_cons] using whole

end Members

theorem readWith_render {α : Type} {scan : Scanner α} {json : Json} {a : α}
    (read : ∀ rest, EndsNumber rest → Reads scan (compact json ++ rest) a rest) :
    readWith scan json.render = .ok a := by
  obtain ⟨shorter, whole⟩ : Reads scan json.render.toList a [] := by
    rw [render, String.toList_ofList, ← List.append_nil (compact json)]
    exact read [] endsNumber_nil
  rw [readWith, whole]
  rfl

namespace Form

variable {α β : Type}

/-- The form reads the value off the compact text of the JSON, whatever follows. -/
def Spells (form : Form α) (json : Json) (value : α) : Prop :=
  ∀ rest, EndsNumber rest → Reads form.scan (compact json ++ rest) value rest

theorem read_render {form : Form α} {json : Json} {value : α} (spells : form.Spells json value) :
    form.read json.render = .ok value := readWith_render spells

theorem string_spells (text : String) : string.Spells (.text text) text := by
  intro rest _
  rw [compact, quoted_cons]
  obtain ⟨shorter, read⟩ := reads_quotedTail text rest
  refine ⟨Nat.lt_succ_of_lt shorter, ?_⟩
  show (quotedTail _).map _ = _
  rw [read]
  rfl

theorem optional_spells {form : Form α} {json : Json} {value : α} (given : json ≠ .null)
    (spells : form.Spells json value) : (optional form).Spells json (some value) := by
  intro rest ends
  obtain ⟨shorter, read⟩ := spells rest ends
  refine ⟨shorter, ?_⟩
  obtain ⟨c, tail, eq, begins⟩ := compact_begins json
  have mark : isSpace c = false := by
    rw [Bool.eq_false_iff]
    intro space
    simp only [isSpace, Bool.or_eq_true, beq_iff_eq] at space
    rcases space with ((rfl | rfl) | rfl) | rfl <;> cases begins
  simp only [optional]
  split
  · rename_i same
    rw [eq, List.cons_append, skipSpace_cons mark] at same
    rw [(List.cons.inj same).1] at begins
    cases json <;> first | exact absurd rfl given | cases begins
  · rw [read]
    rfl

variable {slots : List (Slot α)}

theorem fills_slot {name : String} {required : Bool} {form : Form β} {set : β → α → α} {partly : α}
    {seen : List String} {json : Json} {value : β} {more : List (String × Json)}
    {last : α × List String}
    (found : slots.find? (fun slot => slot.name == name) = some (Slot.of name required form set))
    (unseen : name ∉ seen) (spells : form.Spells json value)
    (later : Fills (slotMember slots) (set value partly, name :: seen) more last) :
    Fills (slotMember slots) (partly, seen) ((name, json) :: more) last := by
  refine .cons (fun rest ends => ?_) later
  have read : Reads (colon.andThen fun _ =>
      ((Slot.of name required form set).scan partly).map fun filled => (filled, name :: seen))
      (':' :: (compact json ++ rest)) (set value partly, name :: seen) rest :=
    reads_andThen (reads_colon _) (reads_map _ (reads_map _ (spells rest ends)))
  obtain ⟨shorter, eq⟩ := read
  exact ⟨shorter, by simp [slotMember, found, unseen, eq]⟩

/-- A record is spelled by members that fill it and leave out no required field. -/
theorem record_spells {name : String} {blank filled : α} {seen : List String}
    {list : List (String × Json)}
    (fills : Fills (slotMember slots) (blank, []) list (filled, seen))
    (complete : missing? slots seen = none) :
    (record name slots blank).Spells (.object list) filled := by
  intro rest _
  obtain ⟨shorter, eq⟩ := reads_compactMembers fills rest
  have read : slotMembers slots blank (compactMembers list ++ '\x7d' :: rest) =
      .ok ⟨filled, rest, shorter⟩ := by
    simp only [slotMembers, eq, complete]
  rw [compact, List.cons_append, List.append_assoc, List.singleton_append]
  refine ⟨Nat.lt_succ_of_lt shorter, ?_⟩
  show (slotMembers slots blank _).map _ = _
  rw [read]
  rfl

end Form

section Values

variable {listTail objectTail : Scanner Json} {tail rest : List Char} {json : Json}

theorem reads_valueOf {c : Char} {scan : Scanner Json}
    (opens : (c = '"' ∧ scan = quotedTail.map .text) ∨ (c = '[' ∧ scan = listTail) ∨
      (c = '\x7b' ∧ scan = objectTail))
    (read : Reads scan tail json rest) : Reads (valueOf listTail objectTail) (c :: tail) json rest := by
  obtain ⟨shorter, read⟩ := read
  refine ⟨Nat.lt_succ_of_lt shorter, ?_⟩
  have start : skipSpace (c :: tail) = c :: tail := by
    apply skipSpace_cons
    rcases opens with ⟨rfl, -⟩ | ⟨rfl, -⟩ | ⟨rfl, -⟩ <;> rfl
  unfold valueOf
  split
  · rename_i eq
    cases start.symm.trans eq
  · rename_i eq
    cases start.symm.trans eq
    rcases opens with ⟨rfl, rfl⟩ | ⟨rfl, rfl⟩ | ⟨rfl, rfl⟩ <;>
      simp [read, Except.map, Scanned.within]

/-- The reader gives the value back, whatever follows its compact text. -/
def ReadsBack (depth : Nat) (json : Json) : Prop :=
  ∀ rest, EndsNumber rest → Reads (value depth) (compact json ++ rest) json rest

theorem readsBack_text (depth : Nat) (text : String) : ReadsBack depth (.text text) := by
  intro rest _
  have read := reads_map Json.text (reads_quotedTail text rest)
  rw [compact, quoted_cons]
  cases depth with
  | zero => exact reads_valueOf (.inl ⟨rfl, rfl⟩) read
  | succ depth => exact reads_valueOf (.inl ⟨rfl, rfl⟩) read

theorem readsBack_nil (depth : Nat) : ReadsBack (depth + 1) (.list []) := by
  intro rest _
  have read : Reads (items (value depth) true) (']' :: rest) [] rest := by
    refine ⟨Nat.lt_succ_self _, ?_⟩
    have close : nextItem? true (']' :: rest) = .ok none := rfl
    rw [items]
    simp only [close]
    rfl
  exact reads_valueOf (.inr (.inl ⟨rfl, rfl⟩)) (reads_map Json.list read)

theorem fills_memberInto {depth : Nat} {list : List (String × Json)}
    (each : ∀ member ∈ list, ReadsBack depth member.2) (written : List (String × Json)) :
    Fills (memberInto (value depth)) written list
      (list.foldl (fun sorted member => SortedMap.insert member.1 member.2 sorted) written) := by
  induction list generalizing written with
  | nil => exact .nil written
  | cons member rest ih =>
    rw [List.forall_mem_cons] at each
    refine .cons (fun later ends => ?_) (ih each.2 _)
    exact reads_andThen (reads_colon _) (reads_map _ (each.1 later ends))

theorem readsBack_object {depth : Nat} {list : List (String × Json)}
    (ascending : SortedMap.Ascending list) (each : ∀ member ∈ list, ReadsBack depth member.2) :
    ReadsBack (depth + 1) (.object list) := by
  intro rest _
  have fills := fills_memberInto each []
  have sorted : SortedMap.ofList list = list := SortedMap.ofList_eq_self ascending
  rw [SortedMap.ofList] at sorted
  rw [sorted] at fills
  rw [compact, List.cons_append, List.append_assoc, List.singleton_append]
  exact reads_valueOf (.inr (.inr ⟨rfl, rfl⟩))
    (reads_map Json.object (reads_compactMembers fills rest))

theorem read_render (back : ReadsBack depthLimit json) : read json.render = .ok json :=
  readWith_render back

end Values

end ContractTwins.Json
