import Mathlib.Control.Monad.Basic
import TypedLet.Command.Line
import TypedLet.Proofs.Command.Groups
import TypedLet.Proofs.Evaluation.Fuel
import TypedLet.Proofs.Evaluation.StepLimit

/-!
# Success and failure of a command

A command either succeeds, with code 0 and lines on the first channel alone, or it fails, with code 1 and
lines on the second channel alone. It succeeds exactly when its arguments are valid and ask for help or
give a program that is read, has a type and comes to a value within the limits. A file is read once at
most, and only where the program is to be found in it. The depth that the machine allows to evaluations is
open, and where a program keeps to it, it is the same as none.
-/

namespace TypedLet

/-! ## Programs that come to a value -/

/-- The program is read, has a type, and comes to a value within the limits. -/
def Succeeds (limits : Limits) (source : String) (outcome : Outcome) : Prop :=
  ∃ e, Expr.ofSource source = .ok e ∧ e.typeIn .empty = .ok outcome.type ∧
    ∃ fuel n, evaluate fuel limits .empty e 0 = some ⟨.ok outcome.value, n⟩

theorem succeeds_iff {limits : Limits} {source : String} {outcome : Outcome} :
    Succeeds limits source outcome ↔ ∃ fuel, runSource fuel limits [] source = some (.ok outcome) := by
  constructor
  · rintro ⟨e, hsource, htype, fuel, n, heval⟩
    refine ⟨fuel, ?_⟩
    have hempty : Given.tyScope [] = .empty ∧ Given.valueScope [] = .empty := ⟨rfl, rfl⟩
    simp only [runSource, hsource, Expr.run, hempty, htype, heval, Option.map_some]
  · rintro ⟨fuel, h⟩
    unfold runSource Expr.run at h
    split at h
    · cases h
    · rename_i e hsource
      split at h
      · cases h
      · rename_i type htype
        obtain ⟨⟨result, n⟩, heval, hresult⟩ := Option.map_eq_some_iff.1 h
        cases result with
        | error err => cases hresult
        | ok value =>
            cases hresult
            exact ⟨e, hsource, htype, fuel, n, heval⟩

theorem runSource_unique {fuel fuel' : Nat} {limits : Limits} {given : List Given} {source : String}
    {r r' : Except Failure Outcome} (h : runSource fuel limits given source = some r)
    (h' : runSource fuel' limits given source = some r') : r = r' := by
  have hmax := runSource_fuel_mono (Nat.le_max_left fuel fuel') h
  have hmax' := runSource_fuel_mono (Nat.le_max_right fuel fuel') h'
  exact Option.some.inj (hmax.symm.trans hmax')

namespace Command

/-! ## Lines of a transcript -/

namespace Transcript

/-- The files that are read, in order. -/
def reads (t : Transcript) : List String :=
  t.actions.filterMap fun
    | .read path => some path
    | _ => none

@[simp] theorem code_success (lines : List String) : (success lines).code = 0 := rfl

@[simp] theorem code_failure (lines : List String) : (failure lines).code = 1 := rfl

@[simp] theorem outLines_success (lines : List String) : (success lines).outLines = lines := by
  rw [outLines, success, List.filterMap_map]
  exact List.filterMap_some

@[simp] theorem errLines_success (lines : List String) : (success lines).errLines = [] := by
  simp [errLines, success, List.filterMap_map]

@[simp] theorem reads_success (lines : List String) : (success lines).reads = [] := by
  simp [reads, success, List.filterMap_map]

@[simp] theorem outLines_failure (lines : List String) : (failure lines).outLines = [] := by
  simp [outLines, failure, List.filterMap_map]

@[simp] theorem errLines_failure (lines : List String) : (failure lines).errLines = lines := by
  rw [errLines, failure, List.filterMap_map]
  exact List.filterMap_some

@[simp] theorem reads_failure (lines : List String) : (failure lines).reads = [] := by
  simp [reads, failure, List.filterMap_map]

@[simp] theorem reads_afterReading (path : String) (t : Transcript) :
    (t.afterReading path).reads = path :: t.reads := rfl

end Transcript

/-! ## How a command ends -/

/-- The options give a program: as it stands, or in a file that can be read. -/
inductive Options.Gives (files : String → FileResult) (o : Options) : String → Prop where
  | directly {source} (h : o.source = some source) : Gives files o source
  | inFile {path source} (hsource : o.source = .none) (hfile : o.inputFile = some path)
      (htext : files path = .text source) : Gives files o source

/-- What is said of how a program ends. -/
def said (o : Options) (label : String) : Except Failure Outcome → Transcript
  | .ok outcome =>
    .success (outcome.value.render :: if o.showType then [": " ++ outcome.type.render] else [])
  | .error failure => .failure [label ++ ": " ++ failure.report]

theorem runText_eq (fuel : Nat) (depth : Option Nat) (o : Options) (label source : String) :
    runText fuel depth o label source =
      (runSource fuel (o.limits depth) [] source).map (said o label) := by
  unfold runText
  refine congrArg (fun say => Option.map say _) (funext fun result => ?_)
  cases result <;> rfl

variable {fuel : Nat} {depth : Option Nat} {files : String → FileResult} {args : List String}
  {t : Transcript}

/-- All that a command can come to. -/
inductive Ends (fuel : Nat) (depth : Option Nat) (files : String → FileResult) (args : List String) :
    Transcript → Prop where
  | misused {e} (hargs : Options.parse args = .error e) :
      Ends fuel depth files args (.failure [Stage.other.report e.message, usage])
  | helped {o} (hargs : Options.parse args = .ok o) (hhelp : o.help = true) :
      Ends fuel depth files args (.success [usage])
  | nothing {o} (hargs : Options.parse args = .ok o) (hhelp : o.help = false) (hsource : o.source = none)
      (hfile : o.inputFile = none) :
      Ends fuel depth files args (.failure ["Error: No input file specified", usage])
  | failed {o path reason} (hargs : Options.parse args = .ok o) (hhelp : o.help = false)
      (hsource : o.source = none) (hfile : o.inputFile = some path) (htext : files path = .failed reason) :
      Ends fuel depth files args (.afterReading path (.failure ["Error reading file: " ++ path, reason]))
  | failedSilently {o path} (hargs : Options.parse args = .ok o) (hhelp : o.help = false)
      (hsource : o.source = none) (hfile : o.inputFile = some path)
      (htext : files path = .failedSilently) :
      Ends fuel depth files args (.afterReading path (.failure ["Error reading file: " ++ path]))
  | given {o source result} (hargs : Options.parse args = .ok o) (hhelp : o.help = false)
      (hsource : o.source = some source)
      (hrun : runSource fuel (o.limits depth) [] source = some result) :
      Ends fuel depth files args (said o "<eval>" result)
  | read {o path source result} (hargs : Options.parse args = .ok o) (hhelp : o.help = false)
      (hsource : o.source = none) (hfile : o.inputFile = some path) (htext : files path = .text source)
      (hrun : runSource fuel (o.limits depth) [] source = some result) :
      Ends fuel depth files args (.afterReading path (said o path result))

theorem ends (h : run fuel depth files args = some t) : Ends fuel depth files args t := by
  unfold run at h
  cases hargs : Options.parse args with
  | error e =>
      rw [hargs] at h
      cases h
      exact .misused hargs
  | ok o =>
      rw [hargs] at h
      dsimp only [perform] at h
      cases hhelp : o.help with
      | true =>
          rw [hhelp] at h
          cases h
          exact .helped hargs hhelp
      | false =>
          rw [hhelp] at h
          cases hsource : o.source with
          | some source =>
              simp only [hsource, Bool.false_eq_true, if_false, runText_eq,
                Option.map_eq_some_iff] at h
              obtain ⟨result, hrun, rfl⟩ := h
              exact .given hargs hhelp hsource hrun
          | none =>
              cases hfile : o.inputFile with
              | none =>
                  rw [hsource, hfile] at h
                  cases h
                  exact .nothing hargs hhelp hsource hfile
              | some path =>
                  cases htext : files path <;>
                    simp only [hsource, hfile, htext, Bool.false_eq_true, if_false, runText_eq,
                      Option.map_some, Option.some.injEq, Option.map_map, Option.map_eq_some_iff] at h
                  case text source =>
                    obtain ⟨result, hrun, rfl⟩ := h
                    exact .read hargs hhelp hsource hfile htext hrun
                  case failed reason =>
                    subst h
                    exact .failed hargs hhelp hsource hfile htext
                  case failedSilently =>
                    subst h
                    exact .failedSilently hargs hhelp hsource hfile htext

theorem Ends.run_eq (h : Ends fuel depth files args t) : run fuel depth files args = some t := by
  cases h with
  | misused hargs => rw [run, hargs]
  | helped hargs hhelp => simp only [run, hargs, perform, hhelp, if_true]
  | nothing hargs hhelp hsource hfile =>
      simp only [run, hargs, perform, hhelp, hsource, hfile, Bool.false_eq_true, if_false]
  | failed hargs hhelp hsource hfile htext | failedSilently hargs hhelp hsource hfile htext =>
      simp only [run, hargs, perform, hhelp, hsource, hfile, htext, Bool.false_eq_true, if_false,
        Option.map_some]
  | given hargs hhelp hsource hrun =>
      simp only [run, hargs, perform, hhelp, hsource, runText_eq, hrun, Bool.false_eq_true, if_false,
        Option.map_some]
  | read hargs hhelp hsource hfile htext hrun =>
      simp only [run, hargs, perform, hhelp, hsource, hfile, htext, runText_eq, hrun, Bool.false_eq_true,
        if_false, Option.map_some]

theorem Ends.fuel_mono {fuel' : Nat} (hle : fuel ≤ fuel') (h : Ends fuel depth files args t) :
    Ends fuel' depth files args t := by
  cases h with
  | misused hargs => exact .misused hargs
  | helped hargs hhelp => exact .helped hargs hhelp
  | nothing hargs hhelp hsource hfile => exact .nothing hargs hhelp hsource hfile
  | failed hargs hhelp hsource hfile htext => exact .failed hargs hhelp hsource hfile htext
  | failedSilently hargs hhelp hsource hfile htext =>
      exact .failedSilently hargs hhelp hsource hfile htext
  | given hargs hhelp hsource hrun =>
      exact .given hargs hhelp hsource (runSource_fuel_mono hle hrun)
  | read hargs hhelp hsource hfile htext hrun =>
      exact .read hargs hhelp hsource hfile htext (runSource_fuel_mono hle hrun)

/-! ## Success or failure, and never both -/

/-- The arguments are valid, and ask for help or give a program that comes to a value. -/
def Deserves (depth : Option Nat) (files : String → FileResult) (args : List String) : Prop :=
  ∃ o, Options.parse args = .ok o ∧
    (o.help = true ∨ ∃ source outcome, o.Gives files source ∧ Succeeds (o.limits depth) source outcome)

/-- What is written to the first channel on success: the usage, or the value and, if it is asked for, the
type of the program. -/
inductive Answers (depth : Option Nat) (files : String → FileResult) (args : List String) :
    List String → Prop where
  | usage {o} (hargs : Options.parse args = .ok o) (hhelp : o.help = true) : Answers depth files args [usage]
  | value {o source outcome} (hargs : Options.parse args = .ok o) (hhelp : o.help = false)
      (hgives : o.Gives files source) (houtcome : Succeeds (o.limits depth) source outcome)
      (htype : o.showType = false) : Answers depth files args [outcome.value.render]
  | valueAndType {o source outcome} (hargs : Options.parse args = .ok o) (hhelp : o.help = false)
      (hgives : o.Gives files source) (houtcome : Succeeds (o.limits depth) source outcome)
      (htype : o.showType = true) :
      Answers depth files args [outcome.value.render, ": " ++ outcome.type.render]

/-- The transcript shows a success or a failure, never both, and a success exactly where one is due. -/
structure Faithful (depth : Option Nat) (files : String → FileResult) (args : List String)
    (t : Transcript) : Prop where
  code : t.code = 0 ∨ t.code = 1
  code_eq_zero : t.code = 0 ↔ t.errLines = []
  code_eq_one : t.code = 1 ↔ t.outLines = []
  out : t.code = 0 → Answers depth files args t.outLines
  err : t.code = 1 → t.errLines ≠ []
  deserved : t.code = 0 ↔ Deserves depth files args
  reads : t.reads = [] ∨ ∃ o path, Options.parse args = .ok o ∧ o.help = false ∧ o.source = none ∧
    o.inputFile = some path ∧ t.reads = [path]

theorem faithful_success {lines : List String} (hlines : lines ≠ []) (hanswers : Answers depth files args lines)
    (hdeserves : Deserves depth files args) : Faithful depth files args (.success lines) where
  code := .inl rfl
  code_eq_zero := by simp
  code_eq_one := by simp [hlines]
  out _ := by simpa using hanswers
  err h := nomatch h
  deserved := by simp [hdeserves]
  reads := by simp

theorem faithful_failure {lines : List String} (hlines : lines ≠ [])
    (hdeserves : ¬ Deserves depth files args) : Faithful depth files args (.failure lines) where
  code := .inr rfl
  code_eq_zero := by simp [hlines]
  code_eq_one := by simp
  out h := nomatch h
  err _ := by simpa using hlines
  deserved := by simp [hdeserves]
  reads := by simp

theorem not_deserves {o : Options} (hargs : Options.parse args = .ok o) (hhelp : o.help = false)
    (hfails : ∀ {source outcome}, o.Gives files source → ¬ Succeeds (o.limits depth) source outcome) :
    ¬ Deserves depth files args := by
  rintro ⟨o', hargs', hdue⟩
  cases hargs.symm.trans hargs'
  rcases hdue with hhelp' | ⟨source, outcome, hgives, houtcome⟩
  · exact Bool.false_ne_true (hhelp.symm.trans hhelp')
  · exact hfails hgives houtcome

theorem Faithful.afterReading {o : Options} {path : String} (h : Faithful depth files args t)
    (hargs : Options.parse args = .ok o) (hhelp : o.help = false) (hsource : o.source = none)
    (hfile : o.inputFile = some path) (hreads : t.reads = []) :
    Faithful depth files args (t.afterReading path) where
  code := h.code
  code_eq_zero := h.code_eq_zero
  code_eq_one := h.code_eq_one
  out := h.out
  err := h.err
  deserved := h.deserved
  reads := .inr ⟨o, path, hargs, hhelp, hsource, hfile, by rw [Transcript.reads_afterReading, hreads]⟩

theorem reads_said (o : Options) (label : String) (result : Except Failure Outcome) :
    (said o label result).reads = [] := by
  cases result with
  | ok outcome => exact Transcript.reads_success _
  | error failure => exact Transcript.reads_failure _

theorem Options.Gives.unique {o : Options} {source source' : String} (h : o.Gives files source)
    (h' : o.Gives files source') : source = source' := by
  cases h <;> cases h' <;> simp_all

theorem faithful_said {o : Options} {label source : String} {result : Except Failure Outcome}
    (hargs : Options.parse args = .ok o) (hhelp : o.help = false) (hgives : o.Gives files source)
    (hrun : runSource fuel (o.limits depth) [] source = some result) :
    Faithful depth files args (said o label result) := by
  cases result with
  | ok outcome =>
      have houtcome : Succeeds (o.limits depth) source outcome := succeeds_iff.2 ⟨fuel, hrun⟩
      refine faithful_success (List.cons_ne_nil _ _) ?_ ⟨o, hargs, .inr ⟨source, outcome, hgives, houtcome⟩⟩
      cases htype : o.showType with
      | true => exact .valueAndType hargs hhelp hgives houtcome htype
      | false => exact .value hargs hhelp hgives houtcome htype
  | error failure =>
      refine faithful_failure (List.cons_ne_nil _ _) (not_deserves hargs hhelp fun hgives' houtcome => ?_)
      -- The arguments give one program only, and a run of it cannot both fail and come to a value.
      cases hgives.unique hgives'
      obtain ⟨fuel', hrun'⟩ := succeeds_iff.1 houtcome
      cases runSource_unique hrun hrun'

theorem Ends.faithful (h : Ends fuel depth files args t) : Faithful depth files args t := by
  cases h with
  | misused hargs =>
      refine faithful_failure (List.cons_ne_nil _ _) ?_
      rintro ⟨o, hargs', -⟩
      cases hargs.symm.trans hargs'
  | helped hargs hhelp =>
      exact faithful_success (List.cons_ne_nil _ _) (.usage hargs hhelp) ⟨_, hargs, .inl hhelp⟩
  | nothing hargs hhelp hsource hfile =>
      refine faithful_failure (List.cons_ne_nil _ _) (not_deserves hargs hhelp fun hgives _ => ?_)
      cases hgives <;> simp_all
  | failed hargs hhelp hsource hfile htext | failedSilently hargs hhelp hsource hfile htext =>
      refine (faithful_failure (List.cons_ne_nil _ _) (not_deserves hargs hhelp fun hgives _ => ?_))
        |>.afterReading hargs hhelp hsource hfile (Transcript.reads_failure _)
      cases hgives <;> simp_all
  | given hargs hhelp hsource hrun => exact faithful_said hargs hhelp (.directly hsource) hrun
  | read hargs hhelp hsource hfile htext hrun =>
      exact (faithful_said hargs hhelp (.inFile hsource hfile htext) hrun).afterReading hargs hhelp hsource
        hfile (reads_said _ _ _)

theorem run_unique {fuel' : Nat} {t' : Transcript} (h : run fuel depth files args = some t)
    (h' : run fuel' depth files args = some t') : t = t' := by
  have hmax := ((ends h).fuel_mono (Nat.le_max_left fuel fuel')).run_eq
  have hmax' := ((ends h').fuel_mono (Nat.le_max_right fuel fuel')).run_eq
  exact Option.some.inj (hmax.symm.trans hmax')

/-- A command ends unless its program never does. -/
theorem exists_run (hends : ∀ o source, Options.parse args = .ok o → o.help = false →
    o.Gives files source → ∃ fuel result, runSource fuel (o.limits depth) [] source = some result) :
    ∃ fuel t, run fuel depth files args = some t := by
  cases hargs : Options.parse args with
  | error e => exact ⟨0, _, (Ends.misused hargs).run_eq⟩
  | ok o =>
      cases hhelp : o.help with
      | true => exact ⟨0, _, (Ends.helped hargs hhelp).run_eq⟩
      | false =>
          cases hsource : o.source with
          | some source =>
              obtain ⟨fuel, result, hrun⟩ := hends o source hargs hhelp (.directly hsource)
              exact ⟨fuel, _, (Ends.given hargs hhelp hsource hrun).run_eq⟩
          | none =>
              cases hfile : o.inputFile with
              | none => exact ⟨0, _, (Ends.nothing hargs hhelp hsource hfile).run_eq⟩
              | some path =>
                  cases htext : files path with
                  | text source =>
                      obtain ⟨fuel, result, hrun⟩ := hends o source hargs hhelp (.inFile hsource hfile htext)
                      exact ⟨fuel, _, (Ends.read hargs hhelp hsource hfile htext hrun).run_eq⟩
                  | failed reason => exact ⟨0, _, (Ends.failed hargs hhelp hsource hfile htext).run_eq⟩
                  | failedSilently =>
                      exact ⟨0, _, (Ends.failedSilently hargs hhelp hsource hfile htext).run_eq⟩

/-- The step limit that arguments can set is one that the counter passes. -/
theorem maxSteps_lt_most {o : Options} (hargs : Options.parse args = .ok o) {n : Nat}
    (hn : o.maxSteps = some n) : n < Counter.most := by
  rcases isValid_or_refused args with ⟨gs, hvalid, rfl⟩ | ⟨e, hrefused⟩
  · cases hvalid.parse.symm.trans hargs
    obtain ⟨g, -, hlimit⟩ := List.mem_filterMap.1 (List.mem_of_getLast? hn)
    cases g with
    | maxSteps text h =>
        cases hlimit
        exact Nat.lt_of_le_of_lt h.le (by decide)
    | _ => cases hlimit
  · cases hrefused.parse.symm.trans hargs

/-- With a step limit a command always comes to a transcript, whatever its program is. -/
theorem exists_run_of_maxSteps {o : Options} (hargs : Options.parse args = .ok o)
    (hlimit : o.maxSteps ≠ none) : ∃ fuel t, run fuel none files args = some t := by
  refine exists_run fun o' source hargs' _ _ => ?_
  cases hargs.symm.trans hargs'
  obtain ⟨n, hn⟩ := Option.ne_none_iff_exists'.1 hlimit
  have hfloor : (Decimal.ofInt n).floor < Counter.most := by
    rw [Decimal.floor_ofInt]
    exact_mod_cast maxSteps_lt_most hargs hn
  unfold runSource Expr.run
  split
  · exact ⟨0, _, rfl⟩
  · rename_i e _
    split
    · exact ⟨0, _, rfl⟩
    · rw [Options.limits, hn]
      rcases evaluate_cases hfloor (Nat.lt_succ_self _) (Given.valueScope []) e with
        ⟨run, _, hrun, _⟩ | ⟨_, hrun⟩
      · exact ⟨_, _, congrArg (Option.map _) hrun⟩
      · exact ⟨_, _, congrArg (Option.map _) hrun⟩

/-- A depth that the program keeps to is the same to the command as none. -/
theorem Ends.depth_none (h : Ends fuel depth files args t)
    (hkeeps : ∀ o source, Options.parse args = .ok o → o.help = false → o.Gives files source →
      runSource fuel (o.limits depth) [] source ≠ some (.error (.runtime .depthLimit))) :
    Ends fuel none files args t := by
  have hrun_none : ∀ {o source result}, Options.parse args = .ok o → o.help = false →
      o.Gives files source → runSource fuel (o.limits depth) [] source = some result →
      runSource fuel (o.limits none) [] source = some result := by
    intro o source result hargs hhelp hgives hrun
    refine runSource_depth_none hrun fun hresult => hkeeps o source hargs hhelp hgives ?_
    rw [hrun, hresult]
  cases h with
  | misused hargs => exact .misused hargs
  | helped hargs hhelp => exact .helped hargs hhelp
  | nothing hargs hhelp hsource hfile => exact .nothing hargs hhelp hsource hfile
  | failed hargs hhelp hsource hfile htext => exact .failed hargs hhelp hsource hfile htext
  | failedSilently hargs hhelp hsource hfile htext =>
      exact .failedSilently hargs hhelp hsource hfile htext
  | given hargs hhelp hsource hrun =>
      exact .given hargs hhelp hsource (hrun_none hargs hhelp (.directly hsource) hrun)
  | read hargs hhelp hsource hfile htext hrun =>
      exact .read hargs hhelp hsource hfile htext
        (hrun_none hargs hhelp (.inFile hsource hfile htext) hrun)

/-- A command never mixes success and failure, whatever the depth is that evaluations may have. If its
program does not run forever, it comes to a transcript, and whatever it comes to is faithful: the code tells
whether the lines are on the first channel or on the second, success is shown exactly where it is deserved,
and no file is read but the one that is to hold the program. If the program does not fail for the depth,
success is deserved exactly where it is so without a bound on the depth. -/
theorem run_faithful (depth : Option Nat) (files : String → FileResult) (args : List String) :
    ((∀ o source, Options.parse args = .ok o → o.help = false → o.Gives files source →
        ∃ fuel result, runSource fuel (o.limits depth) [] source = some result) →
      ∃ fuel t, run fuel depth files args = some t) ∧
    (∀ fuel t, run fuel depth files args = some t → Faithful depth files args t ∧
      ∀ fuel' t', run fuel' depth files args = some t' → t' = t) ∧
    ∀ fuel t, run fuel depth files args = some t →
      (∀ o source, Options.parse args = .ok o → o.help = false → o.Gives files source →
        runSource fuel (o.limits depth) [] source ≠ some (.error (.runtime .depthLimit))) →
      run fuel none files args = some t ∧ Faithful none files args t := by
  refine ⟨exists_run, fun _ _ h => ⟨(ends h).faithful, fun _ _ h' => run_unique h' h⟩, ?_⟩
  intro fuel t h hkeeps
  have hnone := (ends h).depth_none hkeeps
  exact ⟨hnone.run_eq, hnone.faithful⟩

/-- One file, which holds a program of three steps. -/
def differenceFiles (path : String) : FileResult :=
  if path = "difference" then .text "-(3, 1)" else .failed "no such file"

def differenceOptions (maxSteps : Nat) : Options :=
  ⟨some "difference", none, true, some maxSteps, false⟩

/-- The program ends within three steps at a depth of two, where it has room, and is cut off where it may
take two steps. -/
theorem difference_run_faithful :
    (∃ fuel t, run fuel (some 2) differenceFiles ["-t", "difference", "--max-steps", "3"] = some t) ∧
    Faithful none differenceFiles ["-t", "difference", "--max-steps", "3"]
      ⟨[.read "difference", .out "2", .out ": int"], 0⟩ ∧
    Faithful (some 2) differenceFiles ["-t", "difference", "--max-steps", "2"]
      ⟨[.read "difference", .err "difference: Runtime error: evaluation exceeded 2 steps"], 1⟩ := by
  have hparse : Expr.ofSource "-(3, 1)" = .ok (.subtract (.number "3") (.number "1")) := by
    decide +kernel
  have hargs : Options.parse ["-t", "difference", "--max-steps", "3"] = .ok (differenceOptions 3) := by
    decide +kernel
  have hargs' : Options.parse ["-t", "difference", "--max-steps", "2"] = .ok (differenceOptions 2) := by
    decide +kernel
  have hsource : runSource 3 ((differenceOptions 3).limits (some 2)) [] "-(3, 1)" =
      some (.ok ⟨.int 2, .int⟩) := by
    rw [runSource, hparse]
    rfl
  have hsource' : runSource 3 ((differenceOptions 2).limits (some 2)) [] "-(3, 1)" =
      some (.error (.runtime (.stepLimit (.ofInt 2)))) := by
    rw [runSource, hparse]
    rfl
  have htext : differenceFiles "difference" = .text "-(3, 1)" := rfl
  have hrun := (Ends.read hargs rfl rfl rfl htext hsource).run_eq
  have hrun' := (Ends.read hargs' rfl rfl rfl htext hsource').run_eq
  have honly : ∀ {o source}, Options.parse ["-t", "difference", "--max-steps", "3"] = .ok o →
      o.Gives differenceFiles source → o = differenceOptions 3 ∧ source = "-(3, 1)" := by
    intro o source ho hgives
    cases hargs.symm.trans ho
    exact ⟨rfl, hgives.unique (.inFile rfl rfl rfl)⟩
  obtain ⟨hends, -, hnone⟩ :=
    run_faithful (some 2) differenceFiles ["-t", "difference", "--max-steps", "3"]
  obtain ⟨-, hfaithful, -⟩ :=
    run_faithful (some 2) differenceFiles ["-t", "difference", "--max-steps", "2"]
  refine ⟨hends fun o source ho _ hgives => ?_, (hnone 3 _ hrun fun o source ho _ hgives => ?_).2,
    (hfaithful 3 _ hrun').1⟩
  · obtain ⟨rfl, rfl⟩ := honly ho hgives
    exact ⟨3, _, hsource⟩
  · obtain ⟨rfl, rfl⟩ := honly ho hgives
    rw [hsource]
    nofun

end Command

end TypedLet
