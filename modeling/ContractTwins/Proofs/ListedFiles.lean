import ContractTwins.Files.Tree
import ContractTwins.Proofs.SourceContents
import Mathlib.Data.List.Basic

/-!
What stands in a directory of a tree, by its path. A name joined to the path of a directory leads
one step further, whether or not the path has a slash at its end. So a system that keeps a tree
shows the files of a directory by their paths, unless these are too long.
-/
namespace ContractTwins

/-- The regular corpus files of a directory are found by their paths, and nothing else is. -/
def Shown (files : Files) (directory : Path) (listing : List Path) (regular : Path → Prop) : Prop :=
  ∀ name ∈ listing, HasExtension "json" name →
    (files.kind? (directory.join name) = some .file ↔ regular name)

structure ProperName (name : Path) : Prop where
  leads : name ≠ "" ∧ name ≠ "." ∧ name ≠ ".."
  oneStep : Path.slash ∉ name.bytes
  written : 0 ∉ name.bytes
  fits : name.bytes.length ≤ FileTree.nameLimit

instance (name : Path) : Decidable (ProperName name) :=
  decidable_of_iff
    ((name ≠ "" ∧ name ≠ "." ∧ name ≠ "..") ∧ Path.slash ∉ name.bytes ∧ 0 ∉ name.bytes ∧
      name.bytes.length ≤ FileTree.nameLimit)
    ⟨fun ⟨leads, oneStep, written, fits⟩ => ⟨leads, oneStep, written, fits⟩,
      fun ⟨leads, oneStep, written, fits⟩ => ⟨leads, oneStep, written, fits⟩⟩

namespace FileTree

section Following

variable {tree below : FileTree} {above : List FileTree} {name : Path}
  {entries : List (Path × FileTree)}

theorem follow_step (above : List FileTree) (tree : FileTree) (part : Path) :
    (∃ error, ∀ rest, follow above tree (part :: rest) = .error error) ∨
      ∃ higher next, ∀ rest, follow above tree (part :: rest) = follow higher next rest := by
  cases tree with
  | file content => exact .inl ⟨_, fun _ => rfl⟩
  | directory entries =>
    by_cases stays : part = "" ∨ part = "."
    · refine .inr ⟨above, .directory entries, fun rest => ?_⟩
      simp only [follow, if_pos stays]
    by_cases up : part = ".."
    · cases above with
      | nil =>
        refine .inr ⟨[], .directory entries, fun rest => ?_⟩
        simp only [follow, if_neg stays, if_pos up]
      | cons parent higher =>
        refine .inr ⟨higher, parent, fun rest => ?_⟩
        simp only [follow, if_neg stays, if_pos up]
    by_cases long : nameLimit < part.bytes.length
    · refine .inl ⟨.nameTooLong, fun rest => ?_⟩
      simp only [follow, if_neg stays, if_neg up, if_pos long]
    cases held : entries.lookup part with
    | none =>
      refine .inl ⟨.notFound, fun rest => ?_⟩
      simp only [follow, if_neg stays, if_neg up, if_neg long, held]
    | some below =>
      refine .inr ⟨.directory entries :: above, below, fun rest => ?_⟩
      simp only [follow, if_neg stays, if_neg up, if_neg long, held]

theorem follow_append (above : List FileTree) (tree : FileTree) (parts : List Path) :
    (∃ error, ∀ more, follow above tree (parts ++ more) = .error error) ∨
      ∃ higher here, ∀ more, follow above tree (parts ++ more) = follow higher here more := by
  induction parts generalizing above tree with
  | nil => exact .inr ⟨above, tree, fun _ => rfl⟩
  | cons part rest ih =>
    rcases follow_step above tree part with ⟨error, fails⟩ | ⟨higher, next, leads⟩
    · exact .inl ⟨error, fun more => fails (rest ++ more)⟩
    · rcases ih higher next with ⟨error, fails⟩ | ⟨last, here, later⟩
      · exact .inl ⟨error, fun more => (leads _).trans (fails more)⟩
      · exact .inr ⟨last, here, fun more => (leads _).trans (later more)⟩

theorem follow_ending {ending : List Path} (slash : ending = [] ∨ ending = [""])
    (found : follow above tree ending = .ok below) : tree = below := by
  rcases slash with rfl | rfl
  · exact Except.ok.inj found
  · cases tree with
    | file content => cases found
    | directory entries => exact Except.ok.inj found

theorem follow_name (proper : ProperName name) (listed : entries.lookup name = some below) :
    follow above (.directory entries) [name] = .ok below := by
  obtain ⟨nonempty, notHere, notUp⟩ := proper.leads
  have stays : ¬(name = "" ∨ name = ".") := not_or.mpr ⟨nonempty, notHere⟩
  simp only [follow, if_neg stays, if_neg notUp, if_neg (Nat.not_lt.mpr proper.fits), listed]

theorem follow_below (proper : ProperName name) (listed : entries.lookup name = some below)
    {parts ending : List Path} (slash : ending = [] ∨ ending = [""])
    (found : follow above tree (parts ++ ending) = .ok (.directory entries)) :
    follow above tree (parts ++ [name]) = .ok below := by
  rcases follow_append above tree parts with ⟨error, fails⟩ | ⟨higher, here, leads⟩
  · rw [fails] at found
    cases found
  · rw [leads] at found
    rw [leads, follow_ending slash found, follow_name proper listed]

theorem follow_slashes (above : List FileTree) (entries : List (Path × FileTree)) (count : Nat) :
    follow above (.directory entries) (List.replicate count "") = .ok (.directory entries) := by
  induction count with
  | zero => rfl
  | succ count ih => simp only [List.replicate_succ, follow, true_or, if_true, ih]

end Following

section Joining

variable {path name : Path}

theorem parts_append (a b : List UInt8) :
    Path.parts ⟨a ++ Path.slash :: b⟩ = Path.parts ⟨a⟩ ++ Path.parts ⟨b⟩ := by
  rw [Path.parts, Path.parts, Path.parts, Text.pieces_append, List.map_append]

theorem parts_of_proper (proper : ProperName name) : name.parts = [name] := by
  rw [Path.parts, Text.pieces_of_not_mem proper.oneStep, List.map_singleton]

theorem join_eq (nonempty : path.bytes ≠ []) (name : Path) :
    ∃ start ending, (ending = [] ∨ ending = [Path.slash]) ∧ path = ⟨start ++ ending⟩ ∧
      path.join name = ⟨start ++ Path.slash :: name.bytes⟩ := by
  by_cases slash : path.bytes.getLast? = some Path.slash
  · obtain ⟨start, whole⟩ := List.getLast?_eq_some_iff.mp slash
    refine ⟨start, [Path.slash], .inr rfl, congrArg Path.mk whole, ?_⟩
    rw [Path.join, if_pos (.inr slash), whole, List.append_assoc, List.singleton_append]
  · refine ⟨path.bytes, [], .inl rfl, by rw [List.append_nil], ?_⟩
    rw [Path.join, if_neg (not_or.mpr ⟨nonempty, slash⟩)]

theorem parts_join (nonempty : path.bytes ≠ []) (proper : ProperName name) :
    ∃ parts ending, (ending = [] ∨ ending = [("" : Path)]) ∧ path.parts = parts ++ ending ∧
      (path.join name).parts = parts ++ [name] := by
  obtain ⟨start, ending, slash, whole, joined⟩ := join_eq nonempty name
  rw [joined, parts_append, parts_of_proper proper, whole]
  rcases slash with rfl | rfl
  · exact ⟨Path.parts ⟨start⟩, [], .inl rfl, by rw [List.append_nil, List.append_nil], rfl⟩
  · exact ⟨Path.parts ⟨start⟩, [("" : Path)], .inr rfl, parts_append start [], rfl⟩

theorem isAbsolute_join (nonempty : path.bytes ≠ []) (name : Path) :
    (path.join name).isAbsolute = path.isAbsolute := by
  obtain ⟨first, rest, spelled⟩ := List.exists_cons_of_ne_nil nonempty
  rw [Path.join, Path.isAbsolute, Path.isAbsolute]
  split <;> simp [spelled]

theorem written_join (written : 0 ∉ path.bytes) (proper : ProperName name) :
    0 ∉ (path.join name).bytes := by
  rw [Path.join]
  split <;> simp [written, proper.written, Path.slash]

theorem length_join (path name : Path) :
    path.bytes.length + name.bytes.length ≤ (path.join name).bytes.length := by
  rw [Path.join]
  split <;> simp

/-- What a directory lists under a name is found under the joined path. -/
theorem look_join {home : List Path} {tree : FileTree} {entries : List (Path × FileTree)}
    {below : FileTree} (found : look home tree path = .ok (.directory entries))
    (proper : ProperName name) (listed : entries.lookup name = some below)
    (fits : (path.join name).bytes.length ≤ pathLimit) :
    look home tree (path.join name) = .ok below := by
  unfold look at found ⊢
  split at found
  · cases found
  rename_i written
  split at found
  · cases found
  split at found
  · cases found
  rename_i start
  obtain ⟨parts, ending, slash, before, after⟩ := parts_join start proper
  have nonempty : (path.join name).bytes ≠ [] := by
    obtain ⟨head, tail, -, -, joined⟩ := join_eq start name
    simp [joined]
  rw [if_neg (written_join written proper), if_neg (Nat.not_lt.mpr fits), if_neg nonempty,
    isAbsolute_join start, after]
  rw [before] at found
  split at found
  · rename_i absolute
    rw [if_pos absolute]
    exact follow_below proper listed slash found
  · rename_i relative
    rw [if_neg relative]
    rw [← List.append_assoc] at found ⊢
    exact follow_below proper listed slash found

end Joining

section Answers

variable {home : List Path} {tree : FileTree} {path : Path}

theorem look_of_long (written : 0 ∉ path.bytes) (long : pathLimit < path.bytes.length) :
    look home tree path = .error .nameTooLong := by
  rw [look, if_neg written, if_pos long]

theorem list_files {entries : List (Path × FileTree)}
    (found : look home tree path = .ok (.directory entries)) :
    (tree.files home).list path = .ok (entries.map Prod.fst) := by
  simp only [files, found]

theorem kind?_files {below : FileTree} (found : look home tree path = .ok below) :
    (tree.files home).kind? path = some below.kind := by
  simp only [files, found]
  rfl

theorem files_of_error {error : ReadError} (fails : look home tree path = .error error) :
    (tree.files home).kind? path = none ∧ (tree.files home).read path = .error error := by
  constructor
  · simp only [files, fails]
    rfl
  · simp only [files, fails]

end Answers

/-- A tree shows the files of a directory, if their paths are not too long. -/
theorem shown_files {home : List Path} {tree : FileTree} {directory : Path}
    {entries : List (Path × FileTree)}
    (found : look home tree directory = .ok (.directory entries))
    (distinct : (entries.map Prod.fst).Nodup) (proper : ∀ entry ∈ entries, ProperName entry.1)
    (fits : ∀ entry ∈ entries, HasExtension "json" entry.1 →
      (directory.join entry.1).bytes.length ≤ pathLimit) :
    Shown (tree.files home) directory (entries.map Prod.fst)
      fun name => ∃ content, (name, .file content) ∈ entries := by
  intro name named extension
  obtain ⟨⟨own, below⟩, mem, rfl⟩ := List.mem_map.mp named
  have listed := (SortedMap.lookup_eq_some_iff_mem distinct).mpr mem
  have reached := look_join found (proper _ mem) listed (fits _ mem extension)
  rw [kind?_files reached]
  cases below with
  | file content => exact iff_of_true rfl ⟨content, mem⟩
  | directory inner =>
    refine iff_of_false (by rintro ⟨⟩) ?_
    rintro ⟨content, other⟩
    have same := listed.symm.trans ((SortedMap.lookup_eq_some_iff_mem distinct).mpr other)
    cases same

section Slashes

variable {name : Path}

def slashed (name : Path) (count : Nat) : Path :=
  ⟨name.bytes ++ List.replicate count Path.slash⟩

theorem length_slashed (name : Path) (count : Nat) :
    (slashed name count).bytes.length = name.bytes.length + count := by
  rw [slashed, List.length_append, List.length_replicate]

theorem parts_slashed (proper : ProperName name) (count : Nat) :
    (slashed name count).parts = name :: List.replicate count "" := by
  induction count with
  | zero =>
    rw [slashed, List.replicate_zero, List.append_nil]
    exact parts_of_proper proper
  | succ count ih =>
    have cut : slashed name (count + 1) =
        ⟨(name.bytes ++ List.replicate count Path.slash) ++ Path.slash :: []⟩ := by
      rw [slashed, List.replicate_succ', List.append_assoc]
    rw [slashed] at ih
    rw [cut, parts_append, ih, List.replicate_succ', List.cons_append]
    rfl

theorem written_slashed (proper : ProperName name) (count : Nat) :
    0 ∉ (slashed name count).bytes := by
  simp [slashed, proper.written, Path.slash]

theorem look_slashed {entries : List (Path × FileTree)} (proper : ProperName name) {count : Nat}
    (fits : name.bytes.length + count ≤ pathLimit) :
    look [] (.directory [(name, .directory entries)]) (slashed name count) =
      .ok (.directory entries) := by
  obtain ⟨someName, notHere, notUp⟩ := proper.leads
  have start : name.bytes ≠ [] := fun empty => someName (congrArg Path.mk empty)
  have nonempty : (slashed name count).bytes ≠ [] := by simp [slashed, start]
  have relative : ¬(slashed name count).isAbsolute = true := by
    obtain ⟨first, rest, spelled⟩ := List.exists_cons_of_ne_nil start
    have absent := proper.oneStep
    rw [spelled, List.mem_cons, not_or] at absent
    simp [Path.isAbsolute, slashed, spelled, Ne.symm absent.1]
  rw [look, if_neg (written_slashed proper count), length_slashed,
    if_neg (Nat.not_lt.mpr fits), if_neg nonempty, if_neg relative, List.nil_append,
    parts_slashed proper, follow, if_neg (not_or.mpr ⟨someName, notHere⟩), if_neg notUp,
    if_neg (Nat.not_lt.mpr proper.fits), List.lookup_cons_self]
  exact follow_slashes _ entries count

end Slashes

end FileTree

end ContractTwins
