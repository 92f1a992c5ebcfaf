import Mathlib.Data.List.TakeWhile
import TypedLet.Proofs.Command.Outcome
import TypedLet.Session

/-!
# The lines of a session are independent

A line is blank, a command, an unknown command or a program, and only the commands `:mode` and `:type`
change what passes on to the next line. So other lines can be left out of a session, and the rest is
answered as before. A program is answered as the command line answers it: with the same value and type, or
with the same report.
-/

namespace TypedLet.Session

/-! ## Kinds of lines -/

/-- The characters of a line without the blanks at its ends. -/
def trimmed (line : String) : List Char := Text.trimList line.toList

/-- The trimmed line is the command, or the command and a space in front of anything. -/
def Invokes (line : String) (command : Command) : Prop :=
  trimmed line = ':' :: command.name.toList ∨ ':' :: (command.name.toList ++ [' ']) <+: trimmed line

/-- The line is a command that changes what passes on to the next line. -/
def Adjusts (line : String) : Prop := Invokes line .mode ∨ Invokes line .type

/-- The line is not blank and starts with no colon. -/
def IsProgram (line : String) : Prop := trimmed line ≠ [] ∧ (trimmed line).head? ≠ some ':'

theorem takeWhile_eq_iff {cs word : List Char} (hword : ' ' ∉ word) :
    cs.takeWhile (· != ' ') = word ↔ cs = word ∨ word ++ [' '] <+: cs := by
  constructor
  · rintro rfl
    have happend := List.takeWhile_append_dropWhile (p := (· != ' ')) (l := cs)
    cases hrest : cs.dropWhile (· != ' ') with
    | nil =>
        rw [hrest, List.append_nil] at happend
        exact .inl happend.symm
    | cons c rest =>
        have hc : c = ' ' := by
          have hhead := List.head?_dropWhile_not (· != ' ') cs
          simpa [hrest] using hhead
        rw [hrest, hc] at happend
        exact .inr ⟨rest, by rw [List.append_assoc, List.singleton_append, happend]⟩
  · have hall : ∀ c ∈ word, (c != ' ') = true := fun c hc => by
      rw [bne_iff_ne]
      rintro rfl
      exact hword hc
    rintro (rfl | ⟨rest, rfl⟩)
    · exact List.takeWhile_eq_self_iff.2 hall
    · rw [List.append_assoc, List.takeWhile_append_of_pos hall]
      simp

namespace Command

theorem ofName?_eq_some_iff {word : String} {command : Command} :
    ofName? word = some command ↔ word = command.name := by
  constructor
  · intro h
    rw [ofName?] at h
    have hname := List.find?_some h
    exact (of_decide_eq_true hname).symm
  · rintro rfl
    cases command <;> rfl

theorem space_not_mem_name (command : Command) : ' ' ∉ command.name.toList := by
  cases command <;> decide

end Command

theorem ofName?_splitCommand {cs : List Char} {command : Command} :
    Command.ofName? (splitCommand cs).1 = some command ↔
      cs = command.name.toList ∨ command.name.toList ++ [' '] <+: cs := by
  rw [Command.ofName?_eq_some_iff, ← takeWhile_eq_iff command.space_not_mem_name, splitCommand]
  constructor
  · intro h
    rw [← h, String.toList_ofList]
  · intro h
    rw [h, String.ofList_toList]

/-! ## The reply to each kind of line -/

section Steps

variable {fuel : Nat} {depth : Option Nat} {state : State} {line : String} {reply : Reply}

theorem step_blank (h : trimmed line = []) : step fuel depth state line = some ⟨true, [], state⟩ := by
  rw [step, ← trimmed, h]

theorem step_colon {cs : List Char} (h : trimmed line = ':' :: cs) :
    step fuel depth state line = some (
      match Command.ofName? (splitCommand cs).1 with
      | some command => runCommand state command (splitCommand cs).2
      | none => ⟨true,
        ["Unknown command: :" ++ (splitCommand cs).1 ++ ". Type :help for available commands."], state⟩) := by
  rw [trimmed] at h
  cases hcommand : Command.ofName? (splitCommand cs).1 <;> simp [step, h, hcommand]

theorem step_program (h : IsProgram line) : step fuel depth state line =
    (runProgram fuel depth state (Text.trim line)).map fun lines => ⟨true, lines, state⟩ := by
  obtain ⟨hne, hcolon⟩ := h
  rw [step, ← trimmed]
  split
  · contradiction
  · rename_i hline
    rw [hline] at hcolon
    exact absurd rfl hcolon
  · rfl

theorem kinds_of_line (line : String) :
    trimmed line = [] ∨ (∃ cs, trimmed line = ':' :: cs) ∨ IsProgram line := by
  unfold IsProgram
  rcases hline : trimmed line with _ | ⟨c, cs⟩
  · exact .inl rfl
  · by_cases hc : c = ':'
    · subst hc
      exact .inr (.inl ⟨cs, rfl⟩)
    · exact .inr (.inr ⟨List.cons_ne_nil _ _, by simpa using hc⟩)

theorem invokes_iff {cs : List Char} {command : Command} (h : trimmed line = ':' :: cs) :
    Invokes line command ↔ Command.ofName? (splitCommand cs).1 = some command := by
  rw [ofName?_splitCommand, Invokes, h, List.cons_inj_right, List.cons_prefix_cons]
  simp only [true_and]

theorem Invokes.trimmed_eq {command : Command} (h : Invokes line command) :
    ∃ cs, trimmed line = ':' :: cs := by
  rcases h with h | ⟨rest, h⟩
  · exact ⟨_, h⟩
  · exact ⟨_, h.symm⟩

theorem step_exit (h : Invokes line .exit) : step fuel depth state line = some ⟨false, [], state⟩ := by
  obtain ⟨cs, hline⟩ := h.trimmed_eq
  rw [step_colon hline, (invokes_iff hline).1 h]
  rfl

theorem more_eq_false_iff :
    (∃ reply, step fuel depth state line = some reply ∧ reply.more = false) ↔ Invokes line .exit := by
  constructor
  · rintro ⟨reply, hstep, hmore⟩
    rcases kinds_of_line line with hblank | ⟨cs, hline⟩ | hprogram
    · rw [step_blank hblank] at hstep
      cases hstep
      cases hmore
    · rw [step_colon hline, Option.some.injEq] at hstep
      subst hstep
      rw [invokes_iff hline]
      cases hcommand : Command.ofName? (splitCommand cs).1 with
      | none =>
          rw [hcommand] at hmore
          cases hmore
      | some command =>
          rw [hcommand] at hmore
          cases command with
          | exit => rfl
          | help | type => cases hmore
          | mode =>
              dsimp only [runCommand] at hmore
              split at hmore <;> cases hmore
    · rw [step_program hprogram, Option.map_eq_some_iff] at hstep
      obtain ⟨lines, -, rfl⟩ := hstep
      cases hmore
  · intro h
    exact ⟨_, step_exit h, rfl⟩

/-- Only `:mode` and `:type` change what passes on to the next line. -/
theorem state_of_step (h : step fuel depth state line = some reply) (hadjusts : ¬ Adjusts line) :
    reply.state = state := by
  rcases kinds_of_line line with hblank | ⟨cs, hline⟩ | hprogram
  · rw [step_blank hblank] at h
    cases h
    rfl
  · rw [Adjusts, invokes_iff hline, invokes_iff hline] at hadjusts
    rw [step_colon hline, Option.some.injEq] at h
    subst h
    cases hcommand : Command.ofName? (splitCommand cs).1 with
    | none => rfl
    | some command =>
        rw [hcommand] at hadjusts
        cases command with
        | help | exit => rfl
        | mode => exact absurd (.inl rfl) hadjusts
        | type => exact absurd (.inr rfl) hadjusts
  · rw [step_program hprogram, Option.map_eq_some_iff] at h
    obtain ⟨lines, -, rfl⟩ := h
    rfl

theorem replies_cons_eq_some {lines : List String} {rs : List Reply} :
    replies fuel depth state (line :: lines) = some rs ↔
      ∃ reply, step fuel depth state line = some reply ∧
        ∃ rest, replies fuel depth reply.state lines = some rest ∧ reply :: rest = rs := by
  simp [replies, Option.bind_eq_some_iff]

/-- Lines that adjust nothing can be left out; `marked` tells for each line whether it is kept. -/
theorem replies_kept {marked : List (String × Bool)} {rs : List Reply}
    (hleft : ∀ p ∈ marked, p.2 = false → ¬ Adjusts p.1)
    (h : replies fuel depth state (marked.map Prod.fst) = some rs) :
    replies fuel depth state ((marked.filter Prod.snd).map Prod.fst) =
      some (((marked.zip rs).filter (·.1.2)).map Prod.snd) := by
  induction marked generalizing state rs with
  | nil => rfl
  | cons p marked ih =>
      obtain ⟨line, kept⟩ := p
      obtain ⟨reply, hstep, rest, hrest, rfl⟩ := replies_cons_eq_some.1 h
      have hrest' := ih (fun q hq => hleft q (List.mem_cons_of_mem _ hq)) hrest
      cases kept with
      | true => exact replies_cons_eq_some.2 ⟨reply, hstep, _, hrest', rfl⟩
      | false =>
          -- The line that is left out hands on the state that it was given.
          rw [state_of_step hstep (hleft _ List.mem_cons_self rfl)] at hrest'
          exact hrest'

end Steps

/-! ## Programs in a session and on the command line -/

/-- What is written for how a program ends. -/
def shown (showType : Bool) : Except Failure Outcome → List String
  | .ok outcome => outcome.value.render :: if showType then ["  : " ++ outcome.type.render] else []
  | .error failure => [failure.report]

section Programs

variable {fuel : Nat} {depth : Option Nat} {line : String}

theorem step_eval (h : IsProgram line) (showType : Bool) :
    step fuel depth ⟨.eval, showType⟩ line = (runSource fuel ⟨none, depth⟩ [] (Text.trim line)).map
      fun result => ⟨true, shown showType result, ⟨.eval, showType⟩⟩ := by
  rw [step_program h, runProgram, Option.map_map]
  refine congrArg (fun reply => Option.map reply _) (funext fun result => ?_)
  cases result <;> rfl

/-- The options of `-e source -t`. -/
def evalOptions (source : String) : TypedLet.Command.Options := ⟨none, some source, true, none, false⟩

theorem run_eval (files : String → TypedLet.Command.FileResult) (source : String) :
    TypedLet.Command.run fuel depth files ["-e", source, "-t"] =
      (runSource fuel ⟨none, depth⟩ [] source).map
        (TypedLet.Command.said (evalOptions source) "<eval>") := by
  have hargs : TypedLet.Command.Options.parse ["-e", source, "-t"] = .ok (evalOptions source) := by
    simp [TypedLet.Command.Options.parse, TypedLet.Command.Options.read, TypedLet.Command.Options.none,
      evalOptions]
  rw [TypedLet.Command.run, hargs]
  exact TypedLet.Command.runText_eq fuel depth (evalOptions source) "<eval>" source

theorem step_eval_value_iff (h : IsProgram line) (files : String → TypedLet.Command.FileResult)
    (value type : String) :
    (∃ reply, step fuel depth ⟨.eval, true⟩ line = some reply ∧ reply.lines = [value, "  : " ++ type]) ↔
      ∃ t, TypedLet.Command.run fuel depth files ["-e", Text.trim line, "-t"] = some t ∧
        t.code = 0 ∧ t.outLines = [value, ": " ++ type] := by
  rw [step_eval h, run_eval]
  rcases runSource fuel ⟨none, depth⟩ [] (Text.trim line) with _ | failure | outcome <;>
    simp [shown, TypedLet.Command.said, evalOptions]

theorem step_eval_report_iff (h : IsProgram line) (files : String → TypedLet.Command.FileResult)
    (message : String) :
    (∃ reply, step fuel depth ⟨.eval, true⟩ line = some reply ∧ reply.lines = [message]) ↔
      ∃ t, TypedLet.Command.run fuel depth files ["-e", Text.trim line, "-t"] = some t ∧
        t.code = 1 ∧ t.errLines = ["<eval>: " ++ message] := by
  rw [step_eval h, run_eval]
  rcases runSource fuel ⟨none, depth⟩ [] (Text.trim line) with _ | failure | outcome <;>
    simp [shown, TypedLet.Command.said, evalOptions]

theorem step_eval_untyped (h : IsProgram line) :
    (step fuel depth ⟨.eval, false⟩ line).map Reply.lines =
      (step fuel depth ⟨.eval, true⟩ line).map fun reply => reply.lines.take 1 := by
  rw [step_eval h, step_eval h]
  rcases runSource fuel ⟨none, depth⟩ [] (Text.trim line) with _ | failure | outcome <;> rfl

end Programs

/-! ## Whole sessions -/

/-- The lines of a session do not influence each other except through `:mode` and `:type`. Other lines can
be left out, and the replies to the rest stay what they were, with the mode and the choice to show types
behind each line. Only `:exit` ends a session, a blank line and `:exit` write nothing, and a program is
answered as the command line answers it at the same depth, where the type is left out if types are not
shown. -/
theorem replies_independent (fuel : Nat) (depth : Option Nat) :
    (∀ state (marked : List (String × Bool)) rs, (∀ p ∈ marked, p.2 = false → ¬ Adjusts p.1) →
      replies fuel depth state (marked.map Prod.fst) = some rs →
      replies fuel depth state ((marked.filter Prod.snd).map Prod.fst) =
        some (((marked.zip rs).filter (·.1.2)).map Prod.snd)) ∧
    (∀ state line, (∃ reply, step fuel depth state line = some reply ∧ reply.more = false) ↔
      trimmed line = ":exit".toList ∨ ":exit ".toList <+: trimmed line) ∧
    (∀ state line, trimmed line = [] → step fuel depth state line = some ⟨true, [], state⟩) ∧
    (∀ state line, Invokes line .exit → step fuel depth state line = some ⟨false, [], state⟩) ∧
    ∀ line, IsProgram line → ∀ files,
      (∀ value type,
        (∃ reply, step fuel depth ⟨.eval, true⟩ line = some reply ∧ reply.lines = [value, "  : " ++ type]) ↔
        ∃ t, TypedLet.Command.run fuel depth files ["-e", Text.trim line, "-t"] = some t ∧
          t.code = 0 ∧ t.outLines = [value, ": " ++ type]) ∧
      (∀ message,
        (∃ reply, step fuel depth ⟨.eval, true⟩ line = some reply ∧ reply.lines = [message]) ↔
        ∃ t, TypedLet.Command.run fuel depth files ["-e", Text.trim line, "-t"] = some t ∧
          t.code = 1 ∧ t.errLines = ["<eval>: " ++ message]) ∧
      (step fuel depth ⟨.eval, false⟩ line).map Reply.lines =
        (step fuel depth ⟨.eval, true⟩ line).map fun reply => reply.lines.take 1 := by
  refine ⟨fun _ _ _ => replies_kept, fun _ _ => more_eq_false_iff, fun _ _ => step_blank,
    fun _ _ => step_exit, fun line h files => ⟨?_, ?_, step_eval_untyped h⟩⟩
  · exact step_eval_value_iff h files
  · exact step_eval_report_iff h files

/-- A session of four lines; `false` marks the help and the program that has no type. -/
def markedLines : List (String × Bool) :=
  [("  :type OFF ", true), (":help", false), ("-(true)", false), ("\tzero?(0)", true)]

/-- The replies to the two lines that are kept are those of the whole session. With types shown, the last
line is answered as the command line answers it. -/
theorem markedLines_replies_independent :
    replies 3 (some 2) .start (markedLines.map Prod.fst) = some
      [⟨true, ["Type display: off"], ⟨.eval, false⟩⟩, ⟨true, helpLines, ⟨.eval, false⟩⟩,
        ⟨true, ["Type error: -() operand expects `int` but got `bool`"], ⟨.eval, false⟩⟩,
        ⟨true, ["true"], ⟨.eval, false⟩⟩] ∧
    replies 3 (some 2) .start ["  :type OFF ", "\tzero?(0)"] = some
      [⟨true, ["Type display: off"], ⟨.eval, false⟩⟩, ⟨true, ["true"], ⟨.eval, false⟩⟩] ∧
    ∃ t, TypedLet.Command.run 3 (some 2) (fun _ => .failedSilently)
        ["-e", Text.trim "\tzero?(0)", "-t"] = some t ∧
      t.code = 0 ∧ t.outLines = ["true", ": bool"] := by
  have hreplies : replies 3 (some 2) .start (markedLines.map Prod.fst) = some
      [⟨true, ["Type display: off"], ⟨.eval, false⟩⟩, ⟨true, helpLines, ⟨.eval, false⟩⟩,
        ⟨true, ["Type error: -() operand expects `int` but got `bool`"], ⟨.eval, false⟩⟩,
        ⟨true, ["true"], ⟨.eval, false⟩⟩] := by decide +kernel
  have hstep : step 3 (some 2) ⟨.eval, true⟩ "\tzero?(0)" =
      some ⟨true, ["true", "  : bool"], ⟨.eval, true⟩⟩ := by decide +kernel
  have hleft : ∀ p ∈ markedLines, p.2 = false → ¬ Adjusts p.1 := by
    simp only [Adjusts, Invokes]
    decide +kernel
  have hprogram : IsProgram "\tzero?(0)" := by
    unfold IsProgram
    decide +kernel
  obtain ⟨hkept, -, -, -, hprograms⟩ := replies_independent 3 (some 2)
  exact ⟨hreplies, hkept .start markedLines _ hleft hreplies,
    ((hprograms _ hprogram fun _ => .failedSilently).1 "true" "bool").1 ⟨_, hstep, rfl⟩⟩

end TypedLet.Session
