import ContractTwins.Fingerprint.Options
import ContractTwins.Proofs.Outcomes
import Mathlib.Data.List.Nodup
import Mathlib.Data.List.TakeWhile

/-!
Options as texts name them, said by what the texts are and not by how they are cut. Of the faults in
the two texts the first is reported, that of the algorithm before those of the modes.
-/
namespace ContractTwins

open Outcome

namespace Text

/-- The core is what stands between the blanks at both ends of the text. -/
structure Trimmed (text core : List Char) : Prop where
  cut : ∃ before after, Blanks before ∧ Blanks after ∧ text = before ++ core ++ after
  first : ∀ c ∈ core.head?, isBlank c = false
  last : ∀ c ∈ core.getLast?, isBlank c = false

theorem dropWhile_of_head {text : List Char} (first : ∀ c ∈ text.head?, isBlank c = false) :
    text.dropWhile isBlank = text := by
  cases text with
  | nil => rfl
  | cons c rest => rw [List.dropWhile_cons_of_neg (by simp [first c rfl])]

theorem head_dropWhile (text : List Char) :
    ∀ c ∈ (text.dropWhile isBlank).head?, isBlank c = false := by
  intro c mem
  have found := List.head?_dropWhile_not isBlank text
  rw [Option.mem_def.mp mem] at found
  exact found

theorem trim_of_trimmed {text core : List Char} (trimmed : Trimmed text core) :
    trim text = core := by
  obtain ⟨⟨before, after, blanksBefore, blanksAfter, rfl⟩, first, last⟩ := trimmed
  have reversed : core.reverse.dropWhile isBlank = core.reverse :=
    dropWhile_of_head (by rwa [List.head?_reverse])
  rw [trim_surrounded core blanksBefore blanksAfter, trim, dropWhile_of_head first, reversed,
    List.reverse_reverse]

theorem blanks_takeWhile (text : List Char) : Blanks (text.takeWhile isBlank) :=
  fun _ mem => List.mem_takeWhile_imp mem

theorem dropWhile_eq_trim (text : List Char) :
    ∃ after, Blanks after ∧ text.dropWhile isBlank = trim text ++ after := by
  refine ⟨((text.dropWhile isBlank).reverse.takeWhile isBlank).reverse, ?_, ?_⟩
  · intro c mem
    exact blanks_takeWhile _ c (List.mem_reverse.mp mem)
  · rw [trim, ← List.reverse_append, List.takeWhile_append_dropWhile, List.reverse_reverse]

theorem trimmed_trim (text : List Char) : Trimmed text (trim text) := by
  obtain ⟨after, blanksAfter, rest⟩ := dropWhile_eq_trim text
  refine ⟨⟨text.takeWhile isBlank, after, blanks_takeWhile text, blanksAfter, ?_⟩, ?_, ?_⟩
  · rw [List.append_assoc, ← rest, List.takeWhile_append_dropWhile]
  · intro c mem
    have head := head_dropWhile text
    rw [rest] at head
    exact head c (List.mem_head?_append_of_mem_head? mem)
  · rw [trim, List.getLast?_reverse]
    exact head_dropWhile _

structure Separated (parts : List (List Char)) (text : List Char) : Prop where
  nonempty : parts ≠ []
  apart : ∀ part ∈ parts, ',' ∉ part
  joined : [','].intercalate parts = text

theorem separated_iff {parts : List (List Char)} {text : List Char} :
    Separated parts text ↔ pieces ',' text = parts := by
  constructor
  · rintro ⟨nonempty, apart, rfl⟩
    exact pieces_intercalate nonempty apart
  · rintro rfl
    exact ⟨pieces_ne_nil _ _, fun _ => not_mem_of_mem_pieces, intercalate_pieces _ _⟩

inductive NamesIn : List (List Char) → List String → Prop where
  | none : NamesIn [] []
  | blank {part : List Char} {parts : List (List Char)} {names : List String}
      (blanks : Blanks part) (later : NamesIn parts names) : NamesIn (part :: parts) names
  | name {part : List Char} {parts : List (List Char)} {name : String} {names : List String}
      (trimmed : Trimmed part name.toList) (nonempty : name ≠ "") (later : NamesIn parts names) :
      NamesIn (part :: parts) (name :: names)

/-- The text lists the names, between commas and with blanks as it likes. -/
def Lists (text : String) (names : List String) : Prop :=
  ∃ parts, Separated parts text.toList ∧ NamesIn parts names

def namesOf (parts : List (List Char)) : List String :=
  ((parts.map trim).filter fun name => !name.isEmpty).map String.ofList

theorem namesOf_of_namesIn {parts : List (List Char)} {names : List String}
    (listed : NamesIn parts names) : namesOf parts = names := by
  induction listed with
  | none => rfl
  | blank blanks later ih => simpa [namesOf, trim_blanks blanks] using ih
  | name trimmed nonempty later ih =>
    simpa [namesOf, trim_of_trimmed trimmed, nonempty] using ih

theorem namesIn_namesOf (parts : List (List Char)) : NamesIn parts (namesOf parts) := by
  induction parts with
  | nil => exact .none
  | cons part rest ih =>
    have trimmed := trimmed_trim part
    cases core : trim part with
    | nil =>
      have names : namesOf (part :: rest) = namesOf rest := by simp [namesOf, core]
      rw [names]
      refine .blank ?_ ih
      obtain ⟨before, after, blanksBefore, blanksAfter, cut⟩ := trimmed.cut
      rw [core, List.append_nil] at cut
      rw [cut, Blanks, List.forall_mem_append]
      exact ⟨blanksBefore, blanksAfter⟩
    | cons c more =>
      have names : namesOf (part :: rest) = String.ofList (trim part) :: namesOf rest := by
        simp [namesOf, core]
      rw [names]
      exact .name (by rwa [String.toList_ofList]) (by simp [core]) ih

theorem exists_lists (text : String) : ∃ names, Lists text names :=
  ⟨_, _, separated_iff.mpr rfl, namesIn_namesOf _⟩

theorem trim_of_mem_names {parts : List (List Char)} {names : List String}
    (listed : NamesIn parts names) : ∀ name ∈ names, trim name.toList = name.toList := by
  induction listed with
  | none => simp
  | blank blanks later ih => exact ih
  | name trimmed nonempty later ih =>
    have nothing : Blanks [] := by simp [Blanks]
    refine List.forall_mem_cons.mpr ⟨trim_of_trimmed ⟨⟨[], [], nothing, nothing, ?_⟩,
      trimmed.first, trimmed.last⟩, ih⟩
    simp

end Text

section Distinct

variable {α : Type} [DecidableEq α] {items firsts : List α}

structure FirstOccurrences (items firsts : List α) : Prop where
  same : ∀ a, a ∈ firsts ↔ a ∈ items
  ordered : firsts.Pairwise fun a b => items.idxOf a < items.idxOf b

theorem firstOccurrences_distinct (items : List α) : FirstOccurrences items (distinct items) := by
  refine ⟨mem_distinct items, ?_⟩
  induction items with
  | nil => exact .nil
  | cons a rest ih =>
    rw [distinct, List.pairwise_cons]
    constructor
    · intro b mem
      have other : b ≠ a := by simpa using (List.mem_filter.mp mem).2
      simp [List.idxOf_cons_ne rest other.symm]
    · rw [List.pairwise_filter]
      refine ih.imp fun {b c} earlier otherB otherC => ?_
      have otherB : b ≠ a := by simpa using otherB
      have otherC : c ≠ a := by simpa using otherC
      rw [List.idxOf_cons_ne rest otherB.symm, List.idxOf_cons_ne rest otherC.symm]
      omega

theorem eq_distinct (first : FirstOccurrences items firsts) : firsts = distinct items := by
  have other := firstOccurrences_distinct items
  have nodup : firsts.Nodup :=
    first.ordered.imp fun {a b} earlier same => by rw [same] at earlier; omega
  have perm : firsts.Perm (distinct items) := by
    rw [List.perm_ext_iff_of_nodup nodup (nodup_distinct items)]
    intro a
    rw [first.same, other.same]
  exact perm.eq_of_pairwise (fun a b _ _ earlier later => by omega) first.ordered other.ordered

/-- `again` is `items` with repetitions put in, each behind the item that it repeats. `earlier`
holds what stood before. -/
inductive Repeated : List α → List α → List α → Prop where
  | done {earlier : List α} : Repeated earlier [] []
  | item {a : α} {earlier items again : List α} (later : Repeated (a :: earlier) items again) :
      Repeated earlier (a :: items) (a :: again)
  | repetition {a : α} {earlier items again : List α} (mem : a ∈ earlier)
      (later : Repeated earlier items again) : Repeated earlier items (a :: again)

theorem filter_distinct_of_repeated {earlier again : List α}
    (repeated : Repeated earlier items again) (nodup : (earlier ++ items).Nodup) :
    (distinct again).filter (· ∉ earlier) = items := by
  induction repeated with
  | done => rfl
  | @item a earlier items again later ih =>
    have fresh : a ∉ earlier := fun mem => (List.nodup_append.mp nodup).2.2 a mem a (by simp) rfl
    have rest := ih (List.nodup_middle.mp nodup)
    have both : ((distinct again).filter (· ≠ a)).filter (· ∉ earlier) =
        (distinct again).filter (· ∉ a :: earlier) := by
      rw [List.filter_filter]
      refine List.filter_congr fun b _ => ?_
      simp [Bool.and_comm]
    rw [distinct, List.filter_cons_of_pos (by simpa using fresh), both, rest]
  | @repetition a earlier items again mem later ih =>
    have kept : ((distinct again).filter (· ≠ a)).filter (· ∉ earlier) =
        (distinct again).filter (· ∉ earlier) := by
      rw [List.filter_filter]
      refine List.filter_congr fun b _ => ?_
      have other : b ∉ earlier → b ≠ a := fun absent same => absent (same ▸ mem)
      simpa using other
    rw [distinct, List.filter_cons_of_neg (by simpa using mem), kept, ih nodup]

theorem distinct_of_repeated {again : List α} (nodup : items.Nodup)
    (repeated : Repeated [] items again) : distinct again = items := by
  simpa using filter_distinct_of_repeated repeated nodup

end Distinct

namespace Algorithm

/-- The text names the algorithm. Blanks around the name do not count, nor do capitals. -/
def Names (text : String) (algorithm : Algorithm) : Prop :=
  ∃ core, Text.Trimmed text.toList core ∧ core.map Char.toLower = algorithm.name.toList

theorem smallLetter_eq (c : Char) : smallLetter c = c.toLower := by
  unfold smallLetter
  by_cases capital : 'A' ≤ c ∧ c ≤ 'Z'
  · have upper : c.val.toNat ≤ 90 := capital.2
    have valid : (c.toNat + 32).isValidChar := Or.inl (by unfold Char.toNat; omega)
    have shifted : (c.val + ('a'.val - 'A'.val)).toNat = c.val.toNat + 32 := by
      rw [UInt32.toNat_add]
      have : ('a'.val - 'A'.val).toNat = 32 := by decide
      omega
    have lower : c.toLower.val = c.val + ('a'.val - 'A'.val) := congrArg Char.val (dif_pos capital)
    rw [if_pos capital, Char.ofNat, dif_pos valid, ← Char.toNat_inj]
    exact (lower ▸ shifted).symm
  · have kept : c.toLower = c := dif_neg capital
    rw [if_neg capital, kept]

theorem ofName?_eq_some_iff {text : String} {algorithm : Algorithm} :
    ofName? text = some algorithm ↔ algorithm.name = text := by
  constructor
  · intro found
    have named := List.find?_some found
    exact beq_iff_eq.mp named
  · rintro rfl
    exact ofName?_name algorithm

theorem names_iff {text : String} {algorithm : Algorithm} :
    Names text algorithm ↔ parse? text = some algorithm := by
  have letters : smallLetter = Char.toLower := funext smallLetter_eq
  rw [parse?, ofName?_eq_some_iff, letters, ← String.toList_inj, String.toList_ofList]
  constructor
  · rintro ⟨core, trimmed, name⟩
    rw [Text.trim_of_trimmed trimmed, name]
  · intro name
    exact ⟨_, Text.trimmed_trim _, name.symm⟩

theorem parse_of_names {text : String} {algorithm : Algorithm} (names : Names text algorithm) :
    parse text = .ok algorithm := by
  rw [parse, names_iff.mp names]

theorem parse_of_nameless {text : String} (nameless : ∀ algorithm, ¬Names text algorithm) :
    parse text = .error (.unsupportedAlgorithm text) := by
  rw [parse]
  cases found : parse? text with
  | none => rfl
  | some algorithm => exact absurd (names_iff.mpr found) (nameless algorithm)

end Algorithm

namespace Mode

def Unknown (name : String) : Prop := ∀ mode : Mode, mode.name ≠ name

theorem parse_name (mode : Mode) : parse mode.name = .ok mode := by
  cases mode <;> rfl

theorem parse_unknown {name : String} (trimmed : Text.trim name.toList = name.toList)
    (unknown : Unknown name) : parse name = .error (.unsupportedMode name) := by
  have absent : parse? name = none := by
    rw [parse?, trimmed, String.ofList_toList, ofName?, List.find?_eq_none]
    intro mode _ same
    exact unknown mode (beq_iff_eq.mp same)
  rw [parse, absent]

theorem known_or_first_unknown (names : List String) :
    (∃ named : List Mode, names = named.map name) ∨
      ∃ (named : List Mode) (unknown : String) (later : List String),
        names = named.map name ++ unknown :: later ∧ Unknown unknown := by
  have modes : ∀ known : List String, (∀ text ∈ known, ∃ mode : Mode, mode.name = text) →
      ∃ named : List Mode, known = named.map name := by
    intro known each
    induction known with
    | nil => exact ⟨[], rfl⟩
    | cons text rest ih =>
      obtain ⟨⟨mode, rfl⟩, later⟩ := List.forall_mem_cons.mp each
      obtain ⟨named, rfl⟩ := ih later
      exact ⟨mode :: named, rfl⟩
  rcases all_or_first (fun text => ∃ mode : Mode, mode.name = text) names with
    all | ⟨before, unknown, later, rfl, known, bad⟩
  · exact .inl (modes names all)
  · obtain ⟨named, rfl⟩ := modes before known
    exact .inr ⟨named, unknown, later, rfl, fun mode same => bad ⟨mode, same⟩⟩

theorem parseList_eq_mapM {text : String} {names : List String} (listed : Text.Lists text names) :
    parseList text = names.mapM parse := by
  obtain ⟨parts, separated, named⟩ := listed
  rw [parseList, Text.separated_iff.mp separated, ← Text.namesOf_of_namesIn named, Text.namesOf,
    List.mapM_map]
  rfl

theorem parseList_of_names {text : String} {modes : List Mode}
    (listed : Text.Lists text (modes.map name)) : parseList text = .ok modes := by
  rw [parseList_eq_mapM listed, mapM_eq_ok_iff, List.forall₂_map_left_iff, List.forall₂_same]
  exact fun mode _ => parse_name mode

theorem parseList_of_unknown {text unknown : String} {modes : List Mode} {later : List String}
    (listed : Text.Lists text (modes.map name ++ unknown :: later)) (bad : Unknown unknown) :
    parseList text = .error (.unsupportedMode unknown) := by
  have trimmed : Text.trim unknown.toList = unknown.toList := by
    obtain ⟨parts, -, named⟩ := listed
    exact Text.trim_of_mem_names named unknown (by simp)
  rw [parseList_eq_mapM listed]
  refine mapM_eq_error ?_ (parse_unknown trimmed bad) later
  intro known mem
  obtain ⟨mode, -, rfl⟩ := List.mem_map.mp mem
  exact ⟨mode, parse_name mode⟩

end Mode

namespace Options

inductive Reads (algorithm modes : String) : Except FingerprintError Options → Prop where
  | accepted {options : Options} {named : List Mode}
      (names : Algorithm.Names algorithm options.algorithm)
      (listed : Text.Lists modes (named.map Mode.name))
      (firsts : FirstOccurrences named options.modes) : Reads algorithm modes (.ok options)
  | badAlgorithm (nameless : ∀ known, ¬Algorithm.Names algorithm known) :
      Reads algorithm modes (.error (.unsupportedAlgorithm algorithm))
  | badMode {known : Algorithm} {named : List Mode} {unknown : String} {later : List String}
      (names : Algorithm.Names algorithm known)
      (listed : Text.Lists modes (named.map Mode.name ++ unknown :: later))
      (bad : Mode.Unknown unknown) : Reads algorithm modes (.error (.unsupportedMode unknown))
  | noModes {known : Algorithm} (names : Algorithm.Names algorithm known)
      (listed : Text.Lists modes []) : Reads algorithm modes (.error .noModes)

section Reads

variable {algorithm modes : String} {result : Except FingerprintError Options}

theorem ofModes_of_firsts {options : Options} {named : List Mode}
    (firsts : FirstOccurrences named options.modes) :
    ofModes options.algorithm named = .ok options := by
  obtain ⟨known, kept, nonempty, nodup⟩ := options
  have same : kept = distinct named := eq_distinct firsts
  subst same
  rw [ofModes, dif_pos nonempty]

theorem parse_of_reads (reads : Reads algorithm modes result) : parse algorithm modes = result := by
  unfold parse
  cases reads with
  | accepted names listed firsts =>
    rw [Algorithm.parse_of_names names, Mode.parseList_of_names listed]
    exact ofModes_of_firsts firsts
  | badAlgorithm nameless =>
    rw [Algorithm.parse_of_nameless nameless]
    rfl
  | badMode names listed bad =>
    rw [Algorithm.parse_of_names names, Mode.parseList_of_unknown listed bad]
    rfl
  | @noModes known names listed =>
    have none : Text.Lists modes (([] : List Mode).map Mode.name) := listed
    rw [Algorithm.parse_of_names names, Mode.parseList_of_names none]
    rfl

theorem exists_accepted {known : Algorithm} {named : List Mode}
    (names : Algorithm.Names algorithm known) (nonempty : named ≠ [])
    (listed : Text.Lists modes (named.map Mode.name)) :
    ∃ options, Reads algorithm modes (.ok options) := by
  have kept : distinct named ≠ [] := by
    obtain ⟨mode, mem⟩ := List.exists_mem_of_ne_nil named nonempty
    exact List.ne_nil_of_mem ((mem_distinct named mode).mpr mem)
  have firsts := firstOccurrences_distinct named
  exact ⟨⟨known, distinct named, kept, nodup_distinct named⟩, .accepted names listed firsts⟩

theorem exists_reads (algorithm modes : String) : ∃ result, Reads algorithm modes result := by
  by_cases named : ∃ known, Algorithm.Names algorithm known
  · obtain ⟨known, names⟩ := named
    obtain ⟨listedNames, listed⟩ := Text.exists_lists modes
    rcases Mode.known_or_first_unknown listedNames with
      ⟨named, rfl⟩ | ⟨named, unknown, later, rfl, bad⟩
    · cases named with
      | nil => exact ⟨_, .noModes names listed⟩
      | cons mode more =>
        obtain ⟨options, reads⟩ := exists_accepted names (List.cons_ne_nil mode more) listed
        exact ⟨_, reads⟩
    · exact ⟨_, .badMode names listed bad⟩
  · exact ⟨_, .badAlgorithm (not_exists.mp named)⟩

theorem parse_eq_iff : parse algorithm modes = result ↔ Reads algorithm modes result := by
  constructor
  · obtain ⟨read, reads⟩ := exists_reads algorithm modes
    rintro rfl
    rwa [parse_of_reads reads]
  · exact parse_of_reads

theorem succeeds_parse_iff :
    Succeeds (parse algorithm modes) ↔
      (∃ known, Algorithm.Names algorithm known) ∧
        ∃ named : List Mode, named ≠ [] ∧ Text.Lists modes (named.map Mode.name) := by
  constructor
  · rintro ⟨options, parsed⟩
    cases parse_eq_iff.mp parsed with
    | @accepted _ named names listed firsts =>
      refine ⟨⟨_, names⟩, named, ?_, listed⟩
      rintro rfl
      exact options.modes_ne_nil (eq_distinct firsts)
  · rintro ⟨⟨known, names⟩, named, nonempty, listed⟩
    obtain ⟨options, reads⟩ := exists_accepted names nonempty listed
    exact ⟨options, parse_of_reads reads⟩

end Reads

/-- How options are read from a text for the algorithm and one for the modes. -/
structure ReadsTexts (algorithm modes : String) : Prop where
  succeeds : Succeeds (parse algorithm modes) ↔
    (∃ known, Algorithm.Names algorithm known) ∧
      ∃ named : List Mode, named ≠ [] ∧ Text.Lists modes (named.map Mode.name)
  reads : ∀ result, parse algorithm modes = result ↔ Reads algorithm modes result
  again : ∀ options, parse algorithm modes = .ok options →
    options.modes ≠ [] ∧ options.modes.Nodup ∧
      ∀ (name list : String) (named : List Mode), Algorithm.Names name options.algorithm →
        Repeated [] options.modes named → Text.Lists list (named.map Mode.name) →
        parse name list = .ok options

/-- Whatever the texts are, they are read as options in this way and in no other. -/
theorem reads_texts (algorithm modes : String) : ReadsTexts algorithm modes where
  succeeds := succeeds_parse_iff
  reads _ := parse_eq_iff
  again options _ := by
    refine ⟨options.modes_ne_nil, options.nodup_modes, ?_⟩
    intro name list named names repeated listed
    apply parse_of_reads
    refine .accepted names listed ?_
    rw [← distinct_of_repeated options.nodup_modes repeated]
    exact firstOccurrences_distinct named

theorem reads_repeated_modes :
    ∃ options, options.modes = [.structural, .exact] ∧
      parse "SHA256" "AST_STRUCTURE,AST_EXACT" = .ok options ∧
      parse "\tsha256" "AST_STRUCTURE,, AST_STRUCTURE ,AST_EXACT\n" = .ok options := by
  have parsed : parse "SHA256" "AST_STRUCTURE,AST_EXACT" =
      .ok ⟨.sha256, [.structural, .exact], by decide, by decide⟩ := rfl
  refine ⟨_, rfl, parsed, ?_⟩
  refine ((reads_texts _ _).again _ parsed).2.2 _ _ [.structural, .structural, .exact] ?_ ?_ ?_
  · exact Algorithm.names_iff.mpr rfl
  · exact .item (.repetition (by decide) (.item .done))
  · exact ⟨_, Text.separated_iff.mpr rfl, Text.namesIn_namesOf _⟩

end Options

end ContractTwins
