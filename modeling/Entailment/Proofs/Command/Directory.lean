import Entailment.Command.FileTree
import Entailment.Proofs.Command.Isolation

/-!
# Programs in a directory

In a tree of files, a path that spells the names on the way to a file reads that file.  So the
command runs the programs in the files that it is pointed to, whatever else is in the tree.

* `Path.names_intercalate`: names with slashes between them are the names of that path.
* `FileTree.read_of_holds`: the path of a file reads its text.

Main statement: `Options.run_files`.
-/

namespace Entailment

namespace Path

/-- A name that leads from a directory to what is in it. -/
structure Proper (name : String) : Prop where
  noSlash : '/' ∉ name.toList
  leads : name ∉ ["", ".", ".."]
  short : name.utf8ByteSize ≤ FileTree.maxName

/-- Where no slash is, there is one name. -/
theorem split_of_notMem {path : List Char} (noSlash : '/' ∉ path) : split path = (path, []) := by
  induction path with
  | nil => rfl
  | cons c rest ih =>
    rw [List.mem_cons, not_or] at noSlash
    simp [split, ih noSlash.2, Ne.symm noSlash.1]

theorem split_append {first rest : List Char} (noSlash : '/' ∉ first) :
    split (first ++ '/' :: rest) = (first, (split rest).1 :: (split rest).2) := by
  induction first with
  | nil => simp [split]
  | cons c first ih =>
    rw [List.mem_cons, not_or] at noSlash
    simp [split, ih noSlash.2, Ne.symm noSlash.1]

theorem names_intercalate {names : List String} (nonempty : names ≠ [])
    (noSlash : ∀ name ∈ names, '/' ∉ name.toList) : Path.names ("/".intercalate names) = names := by
  induction names with
  | nil => exact absurd rfl nonempty
  | cons name others ih =>
    rw [List.forall_mem_cons] at noSlash
    cases others with
    | nil => simp [Path.names, split_of_notMem noSlash.1]
    | cons next others =>
      have behind := ih (List.cons_ne_nil _ _) noSlash.2
      have spelled : ("/".intercalate (name :: next :: others)).toList =
          name.toList ++ '/' :: ("/".intercalate (next :: others)).toList := by
        rw [String.intercalate_cons_cons, String.toList_append, String.toList_append,
          List.append_assoc]
        rfl
      unfold Path.names at behind ⊢
      rw [spelled, split_append noSlash.1]
      simpa using behind

/-- A path of proper names does not open with a slash. -/
theorem exists_cons_of_proper {names : List String} (nonempty : names ≠ [])
    (proper : ∀ name ∈ names, Proper name) :
    ∃ c rest, ("/".intercalate names).toList = c :: rest ∧ c ≠ '/' := by
  obtain ⟨name, others, rfl⟩ := List.exists_cons_of_ne_nil nonempty
  have first := proper name List.mem_cons_self
  have begun : ∃ behind, ("/".intercalate (name :: others)).toList = name.toList ++ behind := by
    cases others with
    | nil => exact ⟨[], by simp⟩
    | cons next others =>
      rw [String.intercalate_cons_cons, String.append_assoc, String.toList_append]
      exact ⟨_, rfl⟩
  obtain ⟨behind, begun⟩ := begun
  cases spelled : name.toList with
  | nil =>
    have empty : name = "" := String.toList_eq_nil_iff.1 spelled
    exact absurd (by simp [empty]) first.leads
  | cons c rest =>
    refine ⟨c, rest ++ behind, by rw [begun, spelled, List.cons_append], ?_⟩
    rintro rfl
    exact first.noSlash (by simp [spelled])

end Path

namespace FileTree

/-- No file stands on the way to another. -/
def Sound (tree : FileTree) : Prop :=
  ∀ place name others bytes, tree.files.lookup (place ++ name :: others) = some bytes →
    tree.files.lookup place = none

/-- A path leads through the names it spells to a file with a text. -/
def Holds (tree : FileTree) (path text : String) : Prop :=
  ∃ names, names ≠ [] ∧ (∀ name ∈ names, Path.Proper name) ∧ path = "/".intercalate names ∧
    path.utf8ByteSize ≤ maxPath ∧ tree.files.lookup (tree.working ++ names) = some text.toUTF8

variable {tree : FileTree} {place : Place} {bytes : ByteArray}

theorem find?_of_behind (sound : tree.Sound) {name : String} {others : Place}
    (found : tree.files.lookup (place ++ name :: others) = some bytes) :
    tree.find? place = some .directory := by
  have free := sound place name others bytes found
  have onTheWay : (tree.working :: tree.files.map Prod.fst).any place.isPrefixOf = true := by
    obtain ⟨front, back, files, -⟩ := List.lookup_eq_some_iff.1 found
    rw [List.any_eq_true]
    refine ⟨place ++ name :: others, ?_, List.isPrefixOf_iff_prefix.2 (List.prefix_append ..)⟩
    simp [files]
  simp only [find?, free, onTheWay, if_true]

theorem step_of_proper (directory : tree.find? place = some .directory) {name : String}
    (proper : Path.Proper name) : tree.step place name = .ok (place ++ [name]) := by
  have leads := proper.leads
  simp only [List.mem_cons, List.not_mem_nil, or_false, not_or] at leads
  obtain ⟨named, notDot, notUp⟩ := leads
  have short : ¬ name.utf8ByteSize > maxName := Nat.not_lt.2 proper.short
  simp only [step, directory, named, notDot, notUp, or_self, if_false, short]

/-- Through proper names one comes to the file whose place they spell. -/
theorem foldlM_step (sound : tree.Sound) {names : List String}
    (proper : ∀ name ∈ names, Path.Proper name)
    (found : tree.files.lookup (place ++ names) = some bytes) :
    names.foldlM tree.step place = .ok (place ++ names) := by
  induction names generalizing place with
  | nil =>
    rw [List.append_nil]
    rfl
  | cons name others ih =>
    rw [List.forall_mem_cons] at proper
    have onward : place ++ name :: others = (place ++ [name]) ++ others := by simp
    have first := step_of_proper (find?_of_behind sound found) proper.1
    rw [onward] at found ⊢
    rw [List.foldlM_cons, first]
    exact ih proper.2 found

theorem content_ofText {text : String} (found : tree.files.lookup place = some text.toUTF8) :
    tree.content place = .ok text := by
  have decoded : String.fromUTF8? text.toUTF8 = some text := by
    simp [String.fromUTF8?, String.fromUTF8, text.isValidUTF8]
  simp only [content, find?, found, Content.ofBytes, decoded]

theorem read_of_holds (sound : tree.Sound) {path text : String} (holds : tree.Holds path text) :
    tree.read path = .ok text := by
  obtain ⟨names, nonempty, proper, rfl, short, found⟩ := holds
  obtain ⟨c, rest, spelled, notSlash⟩ := Path.exists_cons_of_proper nonempty proper
  have named : "/".intercalate names ≠ "" := by
    intro empty
    simp [empty] at spelled
  have start : tree.start ("/".intercalate names) = tree.working := by
    rw [FileTree.start, if_neg]
    simpa [spelled] using notSlash
  have walked : tree.walk ("/".intercalate names) = .ok (tree.working ++ names) := by
    rw [walk, if_neg named, if_neg (Nat.not_lt.2 short), start,
      Path.names_intercalate nonempty fun name listed => (proper name listed).noSlash]
    exact foldlM_step sound proper found
  unfold FileTree.read
  rw [walked]
  exact content_ofText found

end FileTree

/-- The command on the paths of files runs their texts, whatever else the tree of files holds. -/
theorem Options.run_files (options : Options) {tree : FileTree} (sound : tree.Sound)
    {files : List (String × String)} (nonempty : files ≠ [])
    (holds : ∀ file ∈ files, file.1 ≠ "-" ∧ tree.Holds file.1 file.2) (input : Content) :
    (options.withPaths (files.map Prod.fst)).run tree.read input =
      options.runSources (files.map fun file => (file.1, .ok file.2)) := by
  have given : files.map Prod.fst ≠ [] := by simpa using nonempty
  have noInput : "-" ∉ files.map Prod.fst := by
    rw [List.mem_map]
    rintro ⟨file, listed, dash⟩
    exact (holds file listed).1 dash
  have read : ∀ file ∈ files, (file.1, tree.read file.1) = (file.1, .ok file.2) := by
    intro file listed
    rw [FileTree.read_of_holds sound (holds file listed).2]
  rw [run_withPaths given noInput, List.map_map]
  exact congrArg options.runSources (List.map_congr_left read)

end Entailment
