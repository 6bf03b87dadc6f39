import Entailment.Command.Run
import Entailment.Proofs.Session.Lines

/-!
# Stopping and keeping going

The command can stop at the first program that fails, or report each line that fails and go on.  A
program that does not fail has the same report either way.  The first one that does is where the two
ways part: what is reported before it is common to both, the stopping command adds one message to
that, and the one that keeps going also gives this message at some point.

* `Report.Blames`: a report that gives a message as a failure.
* `Session.enterAll_of_run_eq_ok`, `Session.enterAll_of_run_eq_error`: a program entered line by line.
* `Options.Parts`: the source at which the two commands part, and what each reports there.

Main statement: `Options.stopping_agrees_with_going`.
-/

namespace Entailment

/-! ## Reports -/

attribute [ext] Report

namespace Report

variable {message : String} {report : Report}

@[simp] theorem shown_append (first second : Report) :
    (first ++ second).shown = first.shown ++ second.shown := rfl

@[simp] theorem failures_append (first second : Report) :
    (first ++ second).failures = first.failures ++ second.failures := rfl

@[simp] theorem clean_append (first second : Report) :
    (first ++ second).clean = (first.clean && second.clean) := rfl

theorem append_assoc (first second third : Report) :
    first ++ second ++ third = first ++ (second ++ third) := by
  ext1 <;> simp [List.append_assoc, Bool.and_assoc]

theorem ofOutcomes_append (first second : List Outcome) :
    ofOutcomes (first ++ second) = ofOutcomes first ++ ofOutcomes second := by
  ext1 <;> simp [ofOutcomes]

theorem unlines_append (first second : List String) :
    unlines (first ++ second) = unlines first ++ unlines second := by
  rw [unlines, List.map_append, String.join_append]
  rfl

theorem exitStatus_of_unclean (h : report.clean = false) : report.exitStatus = 1 := by
  rw [exitStatus, h, if_neg Bool.false_ne_true]

/-- A report that gives a message among its failures. -/
structure Blames (report : Report) (message : String) : Prop where
  unclean : report.clean = false
  given : message ∈ report.failures

theorem blames_ofFailure (message : String) : (ofFailure message).Blames message :=
  ⟨rfl, List.mem_singleton_self message⟩

theorem Blames.append_right (h : report.Blames message) (second : Report) :
    (report ++ second).Blames message :=
  ⟨by simp [h.unclean], by simp [h.given]⟩

theorem Blames.append_left (first : Report) (h : report.Blames message) :
    (first ++ report).Blames message :=
  ⟨by simp [h.unclean], by simp [h.given]⟩

end Report

/-! ## Programs entered line by line -/

namespace Session

variable {session after : Session} {failure : Failure}

theorem enterAll_of_entered {texts : List String} {each : List (Option Outcome)}
    (h : session.Entered texts each after) (behind : List String) :
    session.enterAll (texts ++ behind) =
      Report.ofOutcomes each.reduceOption ++ after.enterAll behind := by
  induction h with
  | nil => rfl
  | @cons session between after text texts outcome each entered _ ih =>
    have head : (outcome :: each).reduceOption = outcome.toList ++ each.reduceOption := by
      cases outcome <;> rfl
    rw [head, Report.ofOutcomes_append, Report.append_assoc, ← ih]
    simp only [List.cons_append, enterAll, entered]

theorem enterAll_of_stop {text : String} (h : session.enter text = (.error failure, after))
    (behind : List String) : (session.enterAll (text :: behind)).Blames failure.message := by
  simp only [enterAll, h]
  exact (Report.blames_ofFailure failure.message).append_right _

/-- A line that cannot be read is blamed when its turn comes, whatever the lines before it do. -/
theorem enterAll_of_unreadable {texts : List String}
    (h : texts.findSome? Line.failure? = some failure) :
    (session.enterAll texts).Blames failure.message := by
  induction texts generalizing session with
  | nil => cases h
  | cons text texts ih =>
    rw [List.findSome?_cons] at h
    unfold Line.failure? at h
    cases read : Line.ofText text with
    | error first =>
      rw [read] at h
      obtain rfl : first = failure := Option.some.inj h
      exact enterAll_of_stop (by rw [enter, read]) texts
    | ok line =>
      rw [read] at h
      exact .append_left _ (ih h)

/-- A program that runs to its end shows the same when its lines are entered in order. -/
theorem enterAll_of_run_eq_ok {source : String} {outcomes : List Outcome}
    (h : (session.run source).1 = .ok outcomes) :
    session.enterAll (Text.lines source) = .ofOutcomes outcomes := by
  cases unread : (Text.lines source).findSome? Line.failure? with
  | some failure =>
    rw [run_of_failure unread] at h
    cases h
  | none =>
    have comes : session.ComesTo (Text.lines source) _ _ := run_comesTo unread
    rw [h] at comes
    obtain ⟨each, entered, rfl⟩ := comes
    have all := enterAll_of_entered entered []
    rw [List.append_nil] at all
    rw [all]
    ext1 <;> simp [enterAll]

/-- The failure that stops a program is also reported when its lines are entered in order.  It need
not be the first one: a line before the one that cannot be read may fail in another way. -/
theorem enterAll_of_run_eq_error {source : String}
    (h : (session.run source).1 = .error failure) :
    (session.enterAll (Text.lines source)).Blames failure.message := by
  cases unread : (Text.lines source).findSome? Line.failure? with
  | some first =>
    rw [run_of_failure unread] at h
    obtain rfl : first = failure := Except.error.inj h
    exact enterAll_of_unreadable unread
  | none =>
    have comes : session.ComesTo (Text.lines source) _ _ := run_comesTo unread
    rw [h] at comes
    obtain ⟨before, text, behind, each, between, lines, entered, fails⟩ := comes
    rw [lines, enterAll_of_entered entered]
    exact .append_left _ (enterAll_of_stop fails behind)

end Session

/-! ## The two commands -/

namespace Options

def stopping (options : Options) : Options := { options with keepGoing := false }

def going (options : Options) : Options := { options with keepGoing := true }

variable (options : Options)

/-- A program has one report either way, or fails either way with a message in common. -/
theorem runSource_cases (source : String) :
    (∃ outcomes, options.stopping.runSource source = .ofOutcomes outcomes ∧
      options.going.runSource source = .ofOutcomes outcomes) ∨
    ∃ message, options.stopping.runSource source = .ofFailure message ∧
      (options.going.runSource source).Blames message := by
  have goes : options.going.runSource source =
      ({ limit := options.limit } : Session).enterAll (Text.lines source) := rfl
  rw [goes]
  cases result : (({ limit := options.limit } : Session).run source).1 with
  | ok outcomes =>
    refine .inl ⟨outcomes, ?_, Session.enterAll_of_run_eq_ok result⟩
    simp [runSource, stopping, result]
  | error failure =>
    refine .inr ⟨failure.message, ?_, Session.enterAll_of_run_eq_error result⟩
    simp [runSource, stopping, result]

section

variable {options} {sources : List (String × Content)}

theorem stopping_cons_of_ofOutcomes {source : String} {outcomes : List Outcome}
    (h : options.stopping.runSource source = .ofOutcomes outcomes) {name : String} :
    options.stopping.runSources ((name, .ok source) :: sources) =
      .ofOutcomes outcomes ++ options.stopping.runSources sources := by
  rw [runSources, h]
  rfl

theorem stopping_cons_of_ofFailure {source message : String}
    (h : options.stopping.runSource source = .ofFailure message) (name : String)
    (sources : List (String × Content)) :
    options.stopping.runSources ((name, .ok source) :: sources) = .ofFailure message := by
  rw [runSources, h]
  rfl

theorem going_cons (name source : String) (sources : List (String × Content)) :
    options.going.runSources ((name, .ok source) :: sources) =
      options.going.runSource source ++ options.going.runSources sources := by
  rw [runSources]
  exact if_pos (Bool.or_true _)

/-- Sources behind others are reported behind them, unless one of those in front fails. -/
theorem runSources_append {first : List (String × Content)}
    (h : (options.runSources first).clean = true) (second : List (String × Content)) :
    options.runSources (first ++ second) =
      options.runSources first ++ options.runSources second := by
  induction first with
  | nil => rfl
  | cons source others ih =>
    obtain ⟨name, refusal | source⟩ := source
    · cases h
    · rw [runSources] at h
      rw [List.cons_append, runSources, runSources]
      cases goes : (options.runSource source).clean || options.keepGoing with
      | true =>
        rw [goes, if_pos rfl, Report.clean_append, Bool.and_eq_true] at h
        rw [if_pos rfl, if_pos rfl, ih h.2, Report.append_assoc]
      | false =>
        rw [goes, if_neg Bool.false_ne_true] at h
        rw [h] at goes
        cases goes

/-- Where nothing fails the two commands report the same. -/
theorem runSources_of_clean (h : (options.stopping.runSources sources).clean = true) :
    ∃ outcomes, options.stopping.runSources sources = .ofOutcomes outcomes ∧
      options.going.runSources sources = .ofOutcomes outcomes := by
  induction sources with
  | nil => exact ⟨[], rfl, rfl⟩
  | cons source others ih =>
    obtain ⟨name, refusal | source⟩ := source
    · cases h
    · rcases options.runSource_cases source with ⟨first, stops, goes⟩ | ⟨message, stops, -⟩
      · rw [stopping_cons_of_ofOutcomes stops] at h ⊢
        obtain ⟨second, stop, go⟩ := ih h
        refine ⟨first ++ second, ?_, ?_⟩
        · rw [stop, Report.ofOutcomes_append]
        · rw [going_cons, goes, go, Report.ofOutcomes_append]
      · rw [stopping_cons_of_ofFailure stops] at h
        cases h

/-- Where something fails there is a first source that does. -/
theorem exists_first_of_unclean (h : (options.stopping.runSources sources).clean = false) :
    ∃ before source behind, sources = before ++ source :: behind ∧
      (options.stopping.runSources before).clean = true ∧
      (options.stopping.runSources [source]).clean = false := by
  induction sources with
  | nil => cases h
  | cons source others ih =>
    obtain ⟨name, refusal | source⟩ := source
    · exact ⟨[], _, others, rfl, rfl, rfl⟩
    · rcases options.runSource_cases source with ⟨first, stops, -⟩ | ⟨message, stops, -⟩
      · rw [stopping_cons_of_ofOutcomes stops] at h
        obtain ⟨before, last, behind, rfl, clean, fails⟩ := ih h
        refine ⟨(name, .ok source) :: before, last, behind, rfl, ?_, fails⟩
        rw [stopping_cons_of_ofOutcomes stops, Report.clean_append, clean]
        rfl
      · refine ⟨[], _, others, rfl, rfl, ?_⟩
        rw [stopping_cons_of_ofFailure stops]
        rfl

/-- The source that fails keeps those behind it from being run.  Its message is also given by the
command that runs them all the same. -/
theorem runSources_of_fails {source : String × Content}
    (h : (options.stopping.runSources [source]).clean = false)
    (behind : List (String × Content)) :
    ∃ message, options.stopping.runSources [source] = .ofFailure message ∧
      options.stopping.runSources (source :: behind) = .ofFailure message ∧
      (options.going.runSources (source :: behind)).Blames message := by
  obtain ⟨name, refusal | source⟩ := source
  · exact ⟨name ++ ": " ++ refusal.message, rfl, rfl, Report.blames_ofFailure _⟩
  · rcases options.runSource_cases source with ⟨outcomes, stops, -⟩ | ⟨message, stops, blames⟩
    · rw [stopping_cons_of_ofOutcomes stops] at h
      cases h
    · refine ⟨message, stopping_cons_of_ofFailure stops name [],
        stopping_cons_of_ofFailure stops name behind, ?_⟩
      rw [going_cons]
      exact blames.append_right _

/-- Where the two commands part: the source that fails first, what is produced in front of it, its
message, and what the command that keeps going reports from there on. -/
structure Parts (options : Options) (before : List (String × Content)) (source : String × Content)
    (behind : List (String × Content)) (outcomes : List Outcome) (message : String)
    (rest : Report) : Prop where
  front : options.stopping.runSources before = .ofOutcomes outcomes
  fails : options.stopping.runSources [source] = .ofFailure message
  stopped : options.stopping.runSources (before ++ source :: behind) =
    .ofOutcomes outcomes ++ .ofFailure message
  gone : options.going.runSources (before ++ source :: behind) = .ofOutcomes outcomes ++ rest
  blames : rest.Blames message

theorem exists_parts_of_unclean (h : (options.stopping.runSources sources).clean = false) :
    ∃ before source behind outcomes message rest, sources = before ++ source :: behind ∧
      options.Parts before source behind outcomes message rest := by
  obtain ⟨before, source, behind, rfl, clean, fails⟩ := exists_first_of_unclean h
  obtain ⟨outcomes, stopFront, goFront⟩ := runSources_of_clean clean
  obtain ⟨message, alone, stopRest, blames⟩ := runSources_of_fails fails behind
  have goClean : (options.going.runSources before).clean = true := by
    rw [goFront]
    rfl
  refine ⟨before, source, behind, outcomes, message, _, rfl, stopFront, alone, ?_, ?_, blames⟩
  · rw [runSources_append clean, stopFront, stopRest]
  · rw [runSources_append goClean, goFront]

namespace Parts

variable {before behind : List (String × Content)} {source : String × Content}
  {outcomes : List Outcome} {message : String} {rest : Report}

theorem stopped_shown (h : options.Parts before source behind outcomes message rest) :
    (options.stopping.runSources (before ++ source :: behind)).shown =
      (options.stopping.runSources before).shown := by
  rw [h.stopped, h.front, Report.shown_append]
  exact List.append_nil _

theorem gone_shown (h : options.Parts before source behind outcomes message rest) :
    (options.going.runSources (before ++ source :: behind)).shown =
      (options.stopping.runSources (before ++ source :: behind)).shown ++ rest.shown := by
  rw [h.stopped_shown, h.gone, h.front, Report.shown_append]

theorem gone_blames (h : options.Parts before source behind outcomes message rest) :
    (options.going.runSources (before ++ source :: behind)).Blames message := by
  rw [h.gone]
  exact h.blames.append_left _

end Parts

end

/-- The command that stops and the one that keeps going have the same exit status, and what the first
shows is where the other begins.  If the status is zero they show the same and report no failure.  If
not, some source is the first to fail: the stopping command shows what the sources in front of it
show, and gives one message, which the one that keeps going gives too. -/
theorem stopping_agrees_with_going (files : String → Content) (input : Content) :
    let stopped := options.stopping.run files input
    let gone := options.going.run files input
    stopped.exitStatus = gone.exitStatus ∧
    (∃ more, gone.shown = stopped.shown ++ more ∧
      Report.unlines gone.shown = Report.unlines stopped.shown ++ Report.unlines more) ∧
    (stopped.exitStatus = 0 →
      gone.shown = stopped.shown ∧ stopped.failures = [] ∧ gone.failures = []) ∧
    (stopped.exitStatus ≠ 0 → ∃ before source behind message,
      contents files input options.sources = before ++ source :: behind ∧
      (options.stopping.runSources before).exitStatus = 0 ∧
      options.stopping.runSources [source] = .ofFailure message ∧
      stopped.shown = (options.stopping.runSources before).shown ∧
      stopped.failures = [message] ∧ message ∈ gone.failures) := by
  dsimp only [run]
  rw [show options.stopping.sources = options.sources from rfl,
    show options.going.sources = options.sources from rfl]
  generalize contents files input options.sources = sources
  cases clean : (options.stopping.runSources sources).clean with
  | true =>
    obtain ⟨outcomes, stops, goes⟩ := runSources_of_clean clean
    rw [stops, goes]
    exact ⟨rfl, ⟨[], (List.append_nil _).symm, by rw [← Report.unlines_append, List.append_nil]⟩,
      fun _ => ⟨rfl, rfl, rfl⟩, fun fails => absurd rfl fails⟩
  | false =>
    obtain ⟨before, source, behind, outcomes, message, rest, rfl, parts⟩ :=
      exists_parts_of_unclean clean
    have stopStatus := Report.exitStatus_of_unclean clean
    have goStatus := Report.exitStatus_of_unclean parts.gone_blames.unclean
    refine ⟨stopStatus.trans goStatus.symm, ⟨rest.shown, parts.gone_shown, ?_⟩, ?_, fun _ => ?_⟩
    · rw [parts.gone_shown, Report.unlines_append]
    · intro succeeds
      rw [stopStatus] at succeeds
      cases succeeds
    · refine ⟨before, source, behind, message, rfl, ?_, parts.fails, parts.stopped_shown, ?_,
        parts.gone_blames.given⟩
      · rw [parts.front]
        rfl
      · rw [parts.stopped]
        rfl

end Options

end Entailment
