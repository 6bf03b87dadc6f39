import Entailment.Proofs.Command.KeepGoing

/-!
# Programs on one command line

Each program has a session of its own, so nothing of it reaches the next one.  What the command
reports of several paths is what it reports of each of them alone, one behind the other.  It goes no
further than a path that cannot be read, nor, unless it is told to keep going, than a program that
fails.

* `Options.Halts`: the sources behind which the command does not go on.
* `Options.runSources_of_halts`: what is reported up to such a source is all that is reported.
* `Report.Joins`: what is written for several programs is what is written for each of them.

Main statement: `Options.run_isolates_programs`.
-/

namespace Entailment

/-! ## Reports one behind the other -/

namespace Report

def concat (reports : List Report) : Report := reports.foldr append {}

@[simp] theorem concat_nil : concat [] = {} := rfl

@[simp] theorem concat_cons (first : Report) (others : List Report) :
    concat (first :: others) = first ++ concat others := rfl

theorem append_empty (report : Report) : report ++ ({} : Report) = report := by
  ext1 <;> simp

theorem concat_append (first second : List Report) :
    concat (first ++ second) = concat first ++ concat second := by
  induction first with
  | nil => rfl
  | cons report others ih =>
    rw [List.cons_append, concat_cons, concat_cons, ih, append_assoc]

theorem exitStatus_eq_zero_iff {report : Report} : report.exitStatus = 0 ↔ report.clean = true := by
  unfold exitStatus
  cases report.clean <;> decide

/-- What is written for a report is what is written for its parts, one behind the other, and the
exit status is zero just if it is for each part. -/
structure Joins (report : Report) (parts : List Report) : Prop where
  output : unlines report.shown = String.join (parts.map fun part => unlines part.shown)
  errors : unlines report.failures = String.join (parts.map fun part => unlines part.failures)
  succeeds : report.exitStatus = 0 ↔ ∀ part ∈ parts, part.exitStatus = 0

theorem joins_concat (parts : List Report) : (concat parts).Joins parts := by
  induction parts with
  | nil => exact ⟨rfl, rfl, by simp [exitStatus_eq_zero_iff]⟩
  | cons first others ih =>
    constructor
    · rw [concat_cons, shown_append, unlines_append, ih.output, List.map_cons, String.join_cons]
    · rw [concat_cons, failures_append, unlines_append, ih.errors, List.map_cons, String.join_cons]
    · have others_succeed := ih.succeeds
      rw [exitStatus_eq_zero_iff] at others_succeed ⊢
      rw [concat_cons, clean_append, Bool.and_eq_true, others_succeed, List.forall_mem_cons,
        exitStatus_eq_zero_iff]

end Report

/-! ## Sources one behind the other -/

namespace Options

variable (options : Options)

def withPaths (paths : List String) : Options := { options with paths }

/-- The command goes no further than this source: it cannot be read, or the command is not to keep
going and fails on it. -/
def Halts (source : String × Content) : Prop :=
  (∃ refusal, source.2 = .error refusal) ∨
    options.keepGoing = false ∧ (options.runSources [source]).exitStatus ≠ 0

section

variable {options} {source : String × Content}

theorem Halts.unclean (h : options.Halts source) : (options.runSources [source]).clean = false := by
  obtain ⟨name, refusal | text⟩ := source
  · rfl
  · rcases h with ⟨refusal, unreadable⟩ | ⟨-, fails⟩
    · cases unreadable
    · rwa [ne_eq, Report.exitStatus_eq_zero_iff, Bool.not_eq_true] at fails

theorem runSources_singleton (name text : String) :
    options.runSources [(name, .ok text)] = options.runSource text := by
  rw [runSources]
  split
  · exact Report.append_empty _
  · rfl

theorem runSources_cons_of_halts (h : options.Halts source) (others : List (String × Content)) :
    options.runSources (source :: others) = options.runSources [source] := by
  have fails := h.unclean
  obtain ⟨name, refusal | text⟩ := source
  · rfl
  · rcases h with ⟨refusal, unreadable⟩ | ⟨stops, -⟩
    · cases unreadable
    · rw [runSources_singleton] at fails ⊢
      rw [runSources, if_neg (by simp [fails, stops])]

theorem runSources_cons_of_not_halts (h : ¬ options.Halts source)
    (others : List (String × Content)) :
    options.runSources (source :: others) =
      options.runSources [source] ++ options.runSources others := by
  obtain ⟨name, refusal | text⟩ := source
  · exact absurd (.inl ⟨refusal, rfl⟩) h
  · have goesOn : ((options.runSource text).clean || options.keepGoing) = true := by
      by_contra stops
      rw [Bool.not_eq_true, Bool.or_eq_false_iff] at stops
      refine h (.inr ⟨stops.2, ?_⟩)
      rw [runSources_singleton, ne_eq, Report.exitStatus_eq_zero_iff, stops.1]
      exact Bool.false_ne_true
    rw [runSources_singleton, runSources, if_pos goesOn]

/-- Sources that do not halt the command are reported as each of them alone, in front of what comes
behind them. -/
theorem runSources_append_of_not_halts {before : List (String × Content)}
    (h : ∀ source ∈ before, ¬ options.Halts source) (others : List (String × Content)) :
    options.runSources (before ++ others) =
      Report.concat (before.map fun source => options.runSources [source]) ++
        options.runSources others := by
  induction before with
  | nil => rfl
  | cons first rest ih =>
    rw [List.forall_mem_cons] at h
    rw [List.cons_append, runSources_cons_of_not_halts h.1, ih h.2, List.map_cons,
      Report.concat_cons, Report.append_assoc]

theorem runSources_of_not_halts {sources : List (String × Content)}
    (h : ∀ source ∈ sources, ¬ options.Halts source) :
    options.runSources sources =
      Report.concat (sources.map fun source => options.runSources [source]) := by
  have all := runSources_append_of_not_halts h []
  rwa [List.append_nil, runSources, Report.append_empty] at all

/-- The first source that halts the command is the last one that it reports on. -/
theorem runSources_of_halts {before : List (String × Content)}
    (h : ∀ source ∈ before, ¬ options.Halts source) (halts : options.Halts source)
    (behind : List (String × Content)) :
    options.runSources (before ++ source :: behind) =
      Report.concat ((before ++ [source]).map fun source => options.runSources [source]) := by
  rw [runSources_append_of_not_halts h, runSources_cons_of_halts halts, List.map_append,
    Report.concat_append, List.map_singleton, Report.concat_cons, Report.concat_nil,
    Report.append_empty]

/-- Nothing behind a source that halts the command makes a difference, and the command fails. -/
theorem runSources_behind_halts (before : List (String × Content)) (halts : options.Halts source)
    (behind : List (String × Content)) :
    options.runSources (before ++ source :: behind) = options.runSources (before ++ [source]) ∧
      (options.runSources (before ++ source :: behind)).clean = false := by
  induction before with
  | nil =>
    have last := runSources_cons_of_halts halts behind
    exact ⟨last, by rw [List.nil_append, last, halts.unclean]⟩
  | cons first rest ih =>
    rw [List.cons_append, List.cons_append]
    by_cases early : options.Halts first
    · rw [runSources_cons_of_halts early, runSources_cons_of_halts early (rest ++ [source])]
      exact ⟨rfl, early.unclean⟩
    · rw [runSources_cons_of_not_halts early,
        runSources_cons_of_not_halts early (rest ++ [source])]
      exact ⟨by rw [ih.1], by rw [Report.clean_append, ih.2, Bool.and_false]⟩

/-! ## Paths -/

theorem runSources_withPaths (paths : List String) (sources : List (String × Content)) :
    (options.withPaths paths).runSources sources = options.runSources sources := by
  induction sources with
  | nil => rfl
  | cons source others ih =>
    obtain ⟨name, refusal | text⟩ := source
    · rfl
    · rw [runSources, runSources, ih]
      rfl

variable {files : String → Content} {input : Content} {paths before behind : List String}
  {path : String}

theorem contents_of_named (named : "-" ∉ paths) :
    contents files input paths = paths.map fun path => (path, files path) := by
  induction paths with
  | nil => rfl
  | cons path others ih =>
    rw [List.mem_cons, not_or] at named
    rw [contents, ih named.2, List.map_cons]
    exact fun standardInput => named.1 standardInput.symm

/-- The command with paths that all name files runs what these files hold. -/
theorem run_withPaths (some : paths ≠ []) (named : "-" ∉ paths) :
    (options.withPaths paths).run files input =
      options.runSources (paths.map fun path => (path, files path)) := by
  have sources : (options.withPaths paths).sources = paths := by
    unfold Options.sources withPaths
    rw [if_neg (by simpa using some)]
  rw [run, sources, contents_of_named named, runSources_withPaths]

theorem run_alone (named : "-" ∉ paths) (mem : path ∈ paths) :
    (options.withPaths [path]).run files input = options.runSources [(path, files path)] := by
  have file : "-" ∉ [path] := by
    rw [List.mem_singleton]
    rintro rfl
    exact named mem
  exact run_withPaths (List.cons_ne_nil _ _) file

/-- What the command reports of each path alone. -/
theorem map_run_alone (named : "-" ∉ paths) :
    (paths.map fun path => (options.withPaths [path]).run files input) =
      (paths.map fun path => (path, files path)).map fun source => options.runSources [source] := by
  rw [List.map_map]
  exact List.map_congr_left fun path mem => run_alone named mem

/-- Where no path halts the command, it reports all of them as each alone. -/
theorem run_joins_of_not_halts (some : paths ≠ []) (named : "-" ∉ paths)
    (h : ∀ path ∈ paths, ¬ options.Halts (path, files path)) :
    ((options.withPaths paths).run files input).Joins
      (paths.map fun path => (options.withPaths [path]).run files input) := by
  rw [run_withPaths some named, map_run_alone named,
    runSources_of_not_halts (List.forall_mem_map.2 h)]
  exact Report.joins_concat _

theorem named_upTo (named : "-" ∉ before ++ path :: behind) : "-" ∉ before ++ [path] := by
  simp only [List.mem_append, List.mem_cons, not_or] at named ⊢
  exact ⟨named.1, named.2.1, List.not_mem_nil⟩

/-- The command reports the paths up to the first that halts it. -/
theorem run_joins_of_halts (named : "-" ∉ before ++ path :: behind)
    (h : ∀ earlier ∈ before, ¬ options.Halts (earlier, files earlier))
    (halts : options.Halts (path, files path)) :
    ((options.withPaths (before ++ path :: behind)).run files input).Joins
      ((before ++ [path]).map fun path => (options.withPaths [path]).run files input) := by
  have some : before ++ path :: behind ≠ [] := by simp
  rw [run_withPaths some named, map_run_alone (named_upTo named), List.map_append, List.map_append,
    List.map_cons, List.map_singleton, runSources_of_halts (List.forall_mem_map.2 h) halts]
  exact Report.joins_concat _

/-- Of a path that halts the command and those in front of it, the command reports the same without
those behind it, and it fails. -/
theorem run_behind_halts (named : "-" ∉ before ++ path :: behind)
    (halts : options.Halts (path, files path)) :
    (options.withPaths (before ++ path :: behind)).run files input =
        (options.withPaths (before ++ [path])).run files input ∧
      ((options.withPaths (before ++ path :: behind)).run files input).exitStatus = 1 := by
  rw [run_withPaths (by simp) named, run_withPaths (by simp) (named_upTo named), List.map_append,
    List.map_cons, List.map_append, List.map_singleton]
  obtain ⟨same, fails⟩ := runSources_behind_halts (before.map fun path => (path, files path)) halts
    (behind.map fun path => (path, files path))
  exact ⟨same, Report.exitStatus_of_unclean fails⟩

end

/-- Programs on one command line do not touch each other.  Told to keep going, the command writes of
files that can be read what it writes of each of them alone, one behind the other.  If it is not to
keep going, the same holds of the files up to the first on which it fails, and that is all it
writes.  Either way it fails if a file cannot be read, and what stands behind this file makes no
difference. -/
theorem run_isolates_programs {files : String → Content} {input : Content} {paths : List String}
    (some : paths ≠ []) (named : "-" ∉ paths) :
    let whole := (options.withPaths paths).run files input
    let alone := fun path => (options.withPaths [path]).run files input
    (options.keepGoing = true → (∀ path ∈ paths, ∃ text, files path = .ok text) →
      whole.Joins (paths.map alone)) ∧
    (options.keepGoing = false →
      ((∀ path ∈ paths, (alone path).exitStatus = 0) → whole.Joins (paths.map alone)) ∧
      ∀ before path behind, paths = before ++ path :: behind →
        (∀ earlier ∈ before, (alone earlier).exitStatus = 0) → (alone path).exitStatus ≠ 0 →
        whole.Joins ((before ++ [path]).map alone)) ∧
    ∀ before path behind refusal, paths = before ++ path :: behind → files path = .error refusal →
      whole = (options.withPaths (before ++ [path])).run files input ∧ whole.exitStatus = 1 := by
  intro whole alone
  have fails_of_halts {path : String} (mem : path ∈ paths)
      (halts : options.Halts (path, files path)) : (alone path).exitStatus ≠ 0 := by
    show ((options.withPaths [path]).run files input).exitStatus ≠ 0
    rw [run_alone named mem, Report.exitStatus_of_unclean halts.unclean]
    exact Nat.one_ne_zero
  refine ⟨fun going readable => ?_, fun stopping => ⟨fun succeed => ?_, ?_⟩, ?_⟩
  · refine run_joins_of_not_halts some named fun path mem halts => ?_
    obtain ⟨text, readable⟩ := readable path mem
    rcases halts with ⟨refusal, unreadable⟩ | ⟨stopping, -⟩
    · rw [readable] at unreadable
      cases unreadable
    · rw [going] at stopping
      cases stopping
  · exact run_joins_of_not_halts some named fun path mem halts =>
      fails_of_halts mem halts (succeed path mem)
  · rintro before path behind rfl succeed fails
    have mem : path ∈ before ++ path :: behind := List.mem_append_right _ List.mem_cons_self
    refine run_joins_of_halts named (fun earlier inFront halts => ?_) ?_
    · exact fails_of_halts (List.mem_append_left _ inFront) halts (succeed earlier inFront)
    · refine .inr ⟨stopping, ?_⟩
      rwa [← run_alone named mem]
  · rintro before path behind refusal rfl unreadable
    exact run_behind_halts named (.inl ⟨refusal, unreadable⟩)

/-- The second of three programs fails, and a fourth one is missing. -/
theorem run_isolates_programs_second_fails :
    let files : String → Content := fun path =>
      if path = "one" then .ok "print \"one\"" else if path = "two" then .ok "P :="
      else if path = "three" then .ok "print \"three\"" else .error .missing
    let paths := ["one", "two", "three"]
    let all := paths ++ "four" :: paths
    let report := fun (options : Options) paths => (options.withPaths paths).run files (.ok "")
    paths ≠ [] ∧ "-" ∉ paths ∧ all ≠ [] ∧ "-" ∉ all ∧
      (report { keepGoing := true } paths).Joins
        (paths.map fun path => report { keepGoing := true } [path]) ∧
      (report {} paths).Joins (["one", "two"].map fun path => report {} [path]) ∧
      report { keepGoing := true } all = report { keepGoing := true } (paths ++ ["four"]) := by
  intro files paths all report
  have some : paths ≠ [] := List.cons_ne_nil _ _
  have named : "-" ∉ paths := by decide
  have someOfAll : all ≠ [] := List.cons_ne_nil _ _
  have namedOfAll : "-" ∉ all := by decide
  obtain ⟨going, -, -⟩ := run_isolates_programs { keepGoing := true } some named
  obtain ⟨-, stopping, -⟩ := run_isolates_programs {} some named
  obtain ⟨-, -, unreadable⟩ := run_isolates_programs { keepGoing := true } someOfAll namedOfAll
  refine ⟨some, named, someOfAll, namedOfAll, going rfl ?_, ?_, ?_⟩
  · simp [paths, files]
  · exact (stopping rfl).2 ["one"] "two" ["three"] rfl (by decide +kernel) (by decide +kernel)
  · exact (unreadable paths "four" paths .missing rfl rfl).1

end Options

end Entailment
