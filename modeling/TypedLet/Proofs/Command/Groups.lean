import Mathlib.Data.List.Induction
import Mathlib.Data.List.Perm.Basic
import TypedLet.Command.Options
import TypedLet.Proofs.Numeral.Digits

/-!
# The grammar of arguments

Valid arguments are a list of groups of one or two. The groups alone say what the options are, and apart
from the texts and the step limits, of which the last one counts, their order does not matter. Where the
arguments leave the grammar, the first group that is none is the one that is reported.
-/

namespace TypedLet.Command

/-- Digits alone, for a number from 1 to `2^53 - 1`. -/
structure IsStepLimit (text : String) : Prop where
  isDigits : Text.isDigits text = true
  pos : 1 ≤ Text.decimal text
  le : Text.decimal text ≤ 2 ^ 53 - 1

theorem stepLimit?_eq_some_iff {text : String} {n : Nat} :
    stepLimit? text = some n ↔ IsStepLimit text ∧ n = Text.decimal text := by
  simp only [stepLimit?, Text.ofDigits_toList, Option.ite_none_right_eq_some, Option.some.injEq,
    Bool.and_eq_true, decide_eq_true_eq]
  constructor
  · rintro ⟨⟨⟨hdigits, hpos⟩, hle⟩, rfl⟩
    exact ⟨⟨by rwa [Text.isDigits, Bool.and_eq_true], hpos, hle⟩, rfl⟩
  · rintro ⟨⟨hdigits, hpos, hle⟩, rfl⟩
    exact ⟨⟨⟨by rwa [Text.isDigits, Bool.and_eq_true] at hdigits, hpos⟩, hle⟩, rfl⟩

theorem stepLimit?_eq_none {text : String} (h : ¬ IsStepLimit text) : stepLimit? text = none := by
  cases hlimit : stepLimit? text with
  | none => rfl
  | some n => exact absurd (stepLimit?_eq_some_iff.1 hlimit).1 h

/-! ## Groups -/

/-- What one turn of reading takes from the arguments. -/
inductive ArgGroup where
  | help (flag : String) (h : flag = "-h" ∨ flag = "--help")
  | showType (flag : String) (h : flag = "-t" ∨ flag = "--type")
  /-- The text can be anything, also what looks like an option. -/
  | source (flag : String) (h : flag = "-e" ∨ flag = "--eval") (text : String)
  | maxSteps (text : String) (h : IsStepLimit text)
  | file (path : String) (h : path.toList.head? ≠ some '-')

namespace ArgGroup

variable {gs gs' : List ArgGroup}

def args : ArgGroup → List String
  | help flag _ => [flag]
  | showType flag _ => [flag]
  | source flag _ text => [flag, text]
  | maxSteps text _ => ["--max-steps", text]
  | file path _ => [path]

def isHelp : ArgGroup → Bool
  | help .. => true
  | _ => false

def isShowType : ArgGroup → Bool
  | showType .. => true
  | _ => false

def source? : ArgGroup → Option String
  | source _ _ text => some text
  | _ => none

def limit? : ArgGroup → Option Nat
  | maxSteps text _ => some (Text.decimal text)
  | _ => none

def path? : ArgGroup → Option String
  | file path _ => some path
  | _ => none

/-- The arguments that the groups are written as. -/
def write (gs : List ArgGroup) : List String := gs.flatMap args

def sources (gs : List ArgGroup) : List String := gs.filterMap source?

def limits (gs : List ArgGroup) : List Nat := gs.filterMap limit?

def paths (gs : List ArgGroup) : List String := gs.filterMap path?

@[simp] theorem write_cons (g : ArgGroup) : write (g :: gs) = g.args ++ write gs := rfl

@[simp] theorem write_append : write (gs ++ gs') = write gs ++ write gs' :=
  List.flatMap_append

@[simp] theorem paths_append : paths (gs ++ gs') = paths gs ++ paths gs' :=
  List.filterMap_append

@[simp] theorem paths_singleton (g : ArgGroup) : paths [g] = g.path?.toList := by
  cases g <;> rfl

/-- A file can only follow groups without one, if there is to be one at most. -/
theorem paths_eq_nil_of_file {g : ArgGroup} (hone : (paths (gs ++ g :: gs')).length ≤ 1)
    (hpath : g.path? ≠ none) : paths gs = [] := by
  obtain ⟨path, hpath⟩ := Option.ne_none_iff_exists'.1 hpath
  rw [List.append_cons] at hone
  simp only [paths_append, paths_singleton, hpath, Option.toList_some, List.length_append,
    List.length_singleton] at hone
  exact List.length_eq_zero_iff.1 (by omega)

theorem exists_second_file (h : 1 < (paths gs).length) :
    ∃ before path hpath after, gs = before ++ file path hpath :: after ∧ (paths before).length = 1 := by
  induction gs using List.reverseRecOn with
  | nil => cases h
  | append_singleton gs g ih =>
      by_cases hearlier : 1 < (paths gs).length
      · obtain ⟨before, path, hpath, after, rfl, hone⟩ := ih hearlier
        exact ⟨before, path, hpath, after ++ [g], by simp, hone⟩
      · cases g with
        | file path hpath =>
            have hone : (paths gs).length = 1 := by
              simp only [paths_append, paths_singleton, path?, Option.toList_some, List.length_append,
                List.length_singleton] at h
              omega
            exact ⟨gs, path, hpath, [], rfl, hone⟩
        | _ => exact absurd (by simpa [path?] using h) hearlier

end ArgGroup

open ArgGroup

namespace Options

variable {o : Options} {gs gs' : List ArgGroup} {rest : List String}

/-- What the groups ask for. -/
def ofGroups (gs : List ArgGroup) : Options where
  inputFile := (paths gs).getLast?
  source := (sources gs).getLast?
  showType := gs.any isShowType
  maxSteps := (limits gs).getLast?
  help := gs.any isHelp

theorem isSome_inputFile_ofGroups : (ofGroups gs).inputFile.isSome = true ↔ paths gs ≠ [] :=
  List.getLast?_isSome

theorem isSome_source_ofGroups : (ofGroups gs).source.isSome = true ↔ sources gs ≠ [] :=
  List.getLast?_isSome

/-- What is asked for once one more group is read. -/
def after (o : Options) : ArgGroup → Options
  | .help .. => { o with help := true }
  | .showType .. => { o with showType := true }
  | .source _ _ text => { o with source := some text }
  | .maxSteps text _ => { o with maxSteps := some (Text.decimal text) }
  | .file path _ => { o with inputFile := some path }

theorem ofGroups_concat (g : ArgGroup) : ofGroups (gs ++ [g]) = (ofGroups gs).after g := by
  cases g <;>
    simp [ofGroups, after, paths, sources, limits, isHelp, isShowType, source?, limit?, path?]

end Options

/-- Every argument that is an option. -/
def flags : List String := ["-h", "--help", "-t", "--type", "-e", "--eval", "--max-steps"]

theorem not_mem_flags {path : String} (h : path.toList.head? ≠ some '-') : path ∉ flags := by
  intro hmem
  have hflags : ∀ flag ∈ flags, flag.toList.head? = some '-' := by decide +kernel
  exact h (hflags path hmem)

/-- The arguments start with no group, or only with a second file. -/
inductive Fault (named : Prop) : List String → UsageError → Prop where
  | noSource {flag} (h : flag = "-e" ∨ flag = "--eval") : Fault named [flag] (.noSource flag)
  | noStepLimit : Fault named ["--max-steps"] .badStepLimit
  | badStepLimit {text rest} (h : ¬ IsStepLimit text) :
      Fault named ("--max-steps" :: text :: rest) .badStepLimit
  | unknownOption {arg rest} (hminus : arg.toList.head? = some '-') (h : arg ∉ flags) :
      Fault named (arg :: rest) (.unknownOption arg)
  | secondFile {path rest} (hnamed : named) (h : path.toList.head? ≠ some '-') :
      Fault named (path :: rest) .secondFile

/-! ## Reading groups -/

section Reading

variable {o : Options} {gs : List ArgGroup} {args rest : List String} {e : UsageError}

/-- An argument that is no option is a file or unknown. -/
theorem read_of_not_mem_flags {arg : String} (h : arg ∉ flags) :
    o.read (arg :: rest) =
      if arg.toList.head? = some '-' then .error (.unknownOption arg)
      else if o.inputFile.isSome then .error .secondFile
      else Options.read { o with inputFile := some arg } rest := by
  simp only [flags, List.mem_cons, List.not_mem_nil, or_false, not_or] at h
  rw [Options.read.eq_def]
  simp [h]

theorem read_args (g : ArgGroup) (hfile : g.path? ≠ none → o.inputFile = none) :
    o.read (g.args ++ rest) = (o.after g).read rest := by
  cases g with
  | help flag h =>
      simp only [ArgGroup.args, List.singleton_append, Options.after]
      rw [Options.read.eq_def]
      simp [h]
  | showType flag h =>
      simp only [ArgGroup.args, List.singleton_append, Options.after]
      rw [Options.read.eq_def]
      rcases h with rfl | rfl <;> simp
  | source flag h text =>
      simp only [ArgGroup.args, List.cons_append, List.nil_append, Options.after]
      rw [Options.read.eq_def]
      rcases h with rfl | rfl <;> simp
  | maxSteps text h =>
      have hlimit := stepLimit?_eq_some_iff.2 ⟨h, rfl⟩
      simp only [ArgGroup.args, List.cons_append, List.nil_append, Options.after]
      rw [Options.read.eq_def]
      simp [hlimit]
  | file path h =>
      have hnone : o.inputFile = none := hfile (by simp [path?])
      simp only [ArgGroup.args, List.singleton_append, Options.after]
      simp [read_of_not_mem_flags (not_mem_flags h), h, hnone]

/-- Reading groups leaves what they ask for, as long as there is one file among them. -/
theorem read_write (before : List ArgGroup) (hone : (paths (before ++ gs)).length ≤ 1) :
    (Options.ofGroups before).read (write gs ++ rest) = (Options.ofGroups (before ++ gs)).read rest := by
  induction gs generalizing before with
  | nil => simp [write]
  | cons g gs ih =>
      have hfile : g.path? ≠ none → (Options.ofGroups before).inputFile = none := by
        intro hpath
        simp [Options.ofGroups, paths_eq_nil_of_file hone hpath]
      calc (Options.ofGroups before).read (write (g :: gs) ++ rest)
          = (Options.ofGroups before).read (g.args ++ (write gs ++ rest)) := by simp
        _ = (Options.ofGroups (before ++ [g])).read (write gs ++ rest) := by
            rw [read_args g hfile, Options.ofGroups_concat]
        _ = (Options.ofGroups (before ++ g :: gs)).read rest := by
            rw [ih _ (by rwa [List.append_assoc, List.singleton_append]), List.append_assoc,
              List.singleton_append]

theorem Fault.read (h : Fault (o.inputFile.isSome = true) args e) : o.read args = .error e := by
  cases h with
  | noSource h =>
      rw [Options.read.eq_def]
      rcases h with rfl | rfl <;> simp
  | noStepLimit => simp [Options.read]
  | badStepLimit h =>
      rw [Options.read.eq_def]
      simp [stepLimit?_eq_none h]
  | unknownOption hminus h => simp [read_of_not_mem_flags h, hminus]
  | secondFile hnamed h => simp [read_of_not_mem_flags (not_mem_flags h), h, hnamed]

/-- Arguments start with a group that can be read, or they are at fault. -/
theorem front_cases (named : Prop) (arg : String) (rest : List String) :
    (∃ e, Fault named (arg :: rest) e) ∨
      ∃ g rest', arg :: rest = ArgGroup.args g ++ rest' ∧ (named → g.path? = none) := by
  by_cases hhelp : arg = "-h" ∨ arg = "--help"
  · exact .inr ⟨.help arg hhelp, rest, rfl, fun _ => rfl⟩
  by_cases htype : arg = "-t" ∨ arg = "--type"
  · exact .inr ⟨.showType arg htype, rest, rfl, fun _ => rfl⟩
  by_cases heval : arg = "-e" ∨ arg = "--eval"
  · cases rest with
    | nil => exact .inl ⟨_, .noSource heval⟩
    | cons text rest => exact .inr ⟨.source arg heval text, rest, rfl, fun _ => rfl⟩
  by_cases hsteps : arg = "--max-steps"
  · subst hsteps
    cases rest with
    | nil => exact .inl ⟨_, .noStepLimit⟩
    | cons text rest =>
        by_cases hlimit : IsStepLimit text
        · exact .inr ⟨.maxSteps text hlimit, rest, rfl, fun _ => rfl⟩
        · exact .inl ⟨_, .badStepLimit hlimit⟩
  have hflag : arg ∉ flags := by
    simp only [not_or] at hhelp htype heval
    simp [flags, hhelp, htype, heval, hsteps]
  by_cases hminus : arg.toList.head? = some '-'
  · exact .inl ⟨_, .unknownOption hminus hflag⟩
  by_cases hnamed : named
  · exact .inl ⟨_, .secondFile hnamed hminus⟩
  · exact .inr ⟨.file arg hminus, rest, rfl, fun h => absurd h hnamed⟩

theorem args_ne_nil (g : ArgGroup) : g.args ≠ [] := by
  cases g <;> simp [ArgGroup.args]

/-- Arguments are groups with one file at most, up to a fault or to the end. -/
theorem exists_groups (before : List ArgGroup) (args : List String) (hone : (paths before).length ≤ 1) :
    ∃ gs rest, args = write gs ++ rest ∧ (paths (before ++ gs)).length ≤ 1 ∧
      (rest = [] ∨ ∃ e, Fault (paths (before ++ gs) ≠ []) rest e) := by
  induction hlength : args.length using Nat.strongRecOn generalizing args before with
  | ind n ih =>
      cases args with
      | nil => exact ⟨[], [], rfl, by rwa [List.append_nil], .inl rfl⟩
      | cons arg rest =>
          rcases front_cases (paths before ≠ []) arg rest with ⟨e, hfault⟩ | ⟨g, rest', hargs, hfile⟩
          · exact ⟨[], arg :: rest, rfl, by rwa [List.append_nil],
              .inr ⟨e, by rwa [List.append_nil]⟩⟩
          · have hnext : (paths (before ++ [g])).length ≤ 1 := by
              by_cases hnamed : paths before = []
              · simp [hnamed, Option.length_toList_le]
              · simpa [hfile hnamed] using hone
            have hshorter : rest'.length < n := by
              have hg := List.length_pos_iff.2 (args_ne_nil g)
              have htotal := congrArg List.length hargs
              rw [List.length_append] at htotal
              omega
            obtain ⟨gs, last, rfl, hgs, hlast⟩ := ih _ hshorter _ rest' hnext rfl
            rw [List.append_assoc, List.singleton_append] at hgs hlast
            exact ⟨g :: gs, last, by rw [hargs, write_cons, List.append_assoc], hgs, hlast⟩

end Reading

/-! ## The options that arguments stand for -/

section Parsing

/-- The groups name one file at most, and not beside a source text. -/
structure IsValid (gs : List ArgGroup) : Prop where
  one_file : (paths gs).length ≤ 1
  file_or_source : paths gs = [] ∨ sources gs = []

/-- The arguments are refused, for the first group that is none, or else for a file beside a source. -/
inductive Refused : List String → UsageError → Prop where
  | fault {gs rest e} (hone : (paths gs).length ≤ 1) (h : Fault (paths gs ≠ []) rest e) :
      Refused (write gs ++ rest) e
  | fileAndSource {gs} (hfile : (paths gs).length = 1) (hsource : sources gs ≠ []) :
      Refused (write gs) .fileAndSource

variable {gs gs' : List ArgGroup} {args rest : List String} {o : Options} {e : UsageError}

theorem read_none_write (hone : (paths gs).length ≤ 1) :
    Options.none.read (write gs ++ rest) = (Options.ofGroups gs).read rest :=
  read_write [] hone

/-- With one file at most, only a file beside a source text is refused. -/
theorem parse_write (hone : (paths gs).length ≤ 1) :
    Options.parse (write gs) =
      if paths gs ≠ [] ∧ sources gs ≠ [] then .error .fileAndSource else .ok (.ofGroups gs) := by
  have hread : Options.none.read (write gs) = .ok (.ofGroups gs) := by
    rw [← List.append_nil (write gs), read_none_write hone, Options.read]
  simp only [Options.parse, hread, Bool.and_eq_true, Options.isSome_inputFile_ofGroups,
    Options.isSome_source_ofGroups]

theorem IsValid.parse (h : IsValid gs) : Options.parse (write gs) = .ok (.ofGroups gs) := by
  rw [parse_write h.one_file, if_neg]
  rintro ⟨hfile, hsource⟩
  exact h.file_or_source.elim hfile hsource

theorem Refused.parse (h : Refused args e) : Options.parse args = .error e := by
  cases h with
  | fault hone h =>
      rw [← Options.isSome_inputFile_ofGroups] at h
      rw [Options.parse, read_none_write hone, h.read]
  | fileAndSource hfile hsource =>
      rw [parse_write hfile.le, if_pos ⟨List.ne_nil_of_length_eq_add_one hfile, hsource⟩]

theorem isValid_or_refused (args : List String) :
    (∃ gs, IsValid gs ∧ args = write gs) ∨ ∃ e, Refused args e := by
  obtain ⟨gs, rest, rfl, hone, rfl | ⟨e, hfault⟩⟩ := exists_groups [] args (Nat.zero_le 1)
  · rw [List.append_nil]
    by_cases hvalid : paths gs = [] ∨ sources gs = []
    · exact .inl ⟨gs, ⟨hone, hvalid⟩, rfl⟩
    · rw [not_or] at hvalid
      have hfile : (paths gs).length = 1 :=
        Nat.le_antisymm hone (List.length_pos_iff.2 hvalid.1)
      exact .inr ⟨_, .fileAndSource hfile hvalid.2⟩
  · exact .inr ⟨e, .fault hone hfault⟩

theorem refused_secondFile (h : 1 < (paths gs).length) : Refused (write gs) .secondFile := by
  obtain ⟨before, path, hpath, after, rfl, hone⟩ := exists_second_file h
  have hnamed : paths before ≠ [] := List.ne_nil_of_length_eq_add_one hone
  rw [write_append, write_cons]
  exact .fault hone.le (.secondFile hnamed hpath)

theorem paths_eq_of_perm (h : gs.Perm gs') (hone : (paths gs).length ≤ 1) : paths gs = paths gs' := by
  have hperm : (paths gs).Perm (paths gs') := h.filterMap _
  match hgs : paths gs, hone with
  | [], _ =>
      rw [hgs] at hperm
      exact hperm.nil_eq
  | [path], _ =>
      rw [hgs] at hperm
      exact hperm.singleton_eq

/-- Apart from the source texts and the step limits, the order of groups does not matter. -/
theorem parse_write_of_perm (h : gs.Perm gs') (hsources : sources gs = sources gs')
    (hlimits : limits gs = limits gs') : Options.parse (write gs) = Options.parse (write gs') := by
  by_cases hseveral : 1 < (paths gs).length
  · have hperm : (paths gs).Perm (paths gs') := h.filterMap _
    rw [(refused_secondFile hseveral).parse,
      (refused_secondFile (hperm.length_eq ▸ hseveral)).parse]
  · have hone : (paths gs).length ≤ 1 := Nat.le_of_not_lt hseveral
    have hpaths := paths_eq_of_perm h hone
    have hoptions : Options.ofGroups gs = Options.ofGroups gs' := by
      simp only [Options.ofGroups, hpaths, hsources, hlimits, h.any_eq]
    rw [parse_write hone, parse_write (hpaths ▸ hone), hpaths, hsources, hoptions]

/-- The grammar of arguments. They stand for options exactly if they are valid groups, and these say which
options; otherwise they are refused, for the first group that is none of the grammar, or if there is none,
for a file beside a source text. Groups can change places, as long as the source texts keep their order
and the step limits theirs. -/
theorem parse_grammar :
    (∀ args o, Options.parse args = .ok o ↔
      ∃ gs, IsValid gs ∧ args = write gs ∧ o = .ofGroups gs) ∧
    (∀ args e, Options.parse args = .error e ↔ Refused args e) ∧
    ∀ gs gs' : List ArgGroup, gs.Perm gs' → sources gs = sources gs' → limits gs = limits gs' →
      Options.parse (write gs) = Options.parse (write gs') := by
  refine ⟨fun args o => ⟨fun h => ?_, ?_⟩, fun args e => ⟨fun h => ?_, Refused.parse⟩,
    fun gs gs' => parse_write_of_perm⟩
  · rcases isValid_or_refused args with ⟨gs, hvalid, rfl⟩ | ⟨e, hrefused⟩
    · rw [hvalid.parse] at h
      cases h
      exact ⟨gs, hvalid, rfl, rfl⟩
    · rw [hrefused.parse] at h
      cases h
  · rintro ⟨gs, hvalid, rfl, rfl⟩
    exact hvalid.parse
  · rcases isValid_or_refused args with ⟨gs, hvalid, rfl⟩ | ⟨e', hrefused⟩
    · rw [hvalid.parse] at h
      cases h
    · rw [hrefused.parse] at h
      cases h
      exact hrefused

/-- A source text that looks like an option, a step limit with zeros in front, an option that is given
twice; and a limit too large in front of a second file. -/
theorem repeated_parse_grammar :
    Options.parse ["--max-steps", "9", "-e", "-h", "--eval", "--type", "-t", "--max-steps", "007"] =
      .ok ⟨none, some "--type", true, some 7, false⟩ ∧
    Options.parse ["-h", "a", "--max-steps", "9007199254740992", "b"] = .error .badStepLimit ∧
    Options.parse ["-e", "1", "", "b"] = .error .secondFile := by
  obtain ⟨hok, herror, -⟩ := parse_grammar
  have hnine : IsStepLimit "9" := ⟨by decide +kernel, by decide +kernel, by decide +kernel⟩
  have hseven : IsStepLimit "007" := ⟨by decide +kernel, by decide +kernel, by decide +kernel⟩
  have hlarge : ¬ IsStepLimit "9007199254740992" := fun h => absurd h.le (by decide +kernel)
  let gs : List ArgGroup := [.maxSteps "9" hnine, .source "-e" (.inl rfl) "-h",
    .source "--eval" (.inr rfl) "--type", .showType "-t" (.inl rfl), .maxSteps "007" hseven]
  have hgs : Options.ofGroups gs = ⟨none, some "--type", true, some 7, false⟩ := by
    have hlast : Text.decimal "007" = 7 := by decide +kernel
    rw [← hlast]
    rfl
  refine ⟨(hok _ _).2 ⟨gs, ⟨Nat.zero_le 1, .inl rfl⟩, rfl, hgs.symm⟩, (herror _ _).2 ?_,
    (herror _ _).2 ?_⟩
  · have hone : (paths [.help "-h" (.inl rfl), .file "a" (by decide +kernel)]).length ≤ 1 :=
      Nat.le_refl 1
    exact .fault hone (.badStepLimit hlarge)
  · have hone : (paths [.source "-e" (.inl rfl) "1", .file "" (by decide +kernel)]).length ≤ 1 :=
      Nat.le_refl 1
    exact .fault hone (.secondFile (List.cons_ne_nil _ _) (by decide +kernel))

end Parsing

end TypedLet.Command
