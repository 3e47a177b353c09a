import Mathlib.Data.List.Basic

/-! Command lines: how arguments are parsed, how a command line is printed as arguments again,
and that what was parsed survives that. -/
namespace Ogre.Fml

/-- A string as its characters. -/
abbrev Chars := List Char

namespace Chars

/-- `find` from a position on. -/
def find (s : Chars) (c : Char) (pos : Nat) : Option Nat := ((s.drop pos).findIdx? (· = c)).map (pos + ·)

/-- A start beyond the end gives nothing. -/
def substr (s : Chars) (pos : Nat) : Chars := s.drop pos

def substrCount (s : Chars) (pos count : Nat) : Chars := (s.drop pos).take count

/-- Whether the first two characters are there, and dashes. -/
def startsWithDashes (s : Chars) : Bool := s.take 2 = ['-', '-']

end Chars

namespace CommandLine

structure Option where
  name : Chars
  value : Chars := []
  deriving DecidableEq

end CommandLine

structure CommandLine where
  hasArgv0 : Bool := false
  argv0 : Chars := []
  options : List CommandLine.Option := []
  positionalArgs : List Chars := []
  deriving DecidableEq

structure CommandLineBuilder where
  hasArgv0 : Bool := false
  argv0 : Chars := []
  options : List CommandLine.Option := []
  positionalArgs : List Chars := []
  startedPositionalArgs : Bool := false

namespace CommandLineBuilder

/-- The option of an argument. Its name has at least one character, so that `=` is looked for
from the second one of the name on. -/
def parseOption (arg : Chars) : CommandLine.Option :=
  match arg.find '=' 3 with
  | none => ⟨arg.substr 2, []⟩
  | some equalsPos => ⟨arg.substrCount 2 (equalsPos - 2), arg.substr (equalsPos + 1)⟩

/-- With whether the argument is the first positional one. -/
def processArg (b : CommandLineBuilder) (arg : Chars) : Bool × CommandLineBuilder :=
  if !b.hasArgv0 then (false, { b with hasArgv0 := true, argv0 := arg })
  else if b.startedPositionalArgs then
    (b.positionalArgs.isEmpty, { b with positionalArgs := b.positionalArgs ++ [arg] })
  else if !arg.startsWithDashes then
    (b.positionalArgs.isEmpty,
      { b with startedPositionalArgs := true, positionalArgs := b.positionalArgs ++ [arg] })
  else if arg.length = 2 then (false, { b with startedPositionalArgs := true })
  else (false, { b with options := b.options ++ [parseOption arg] })

def build (b : CommandLineBuilder) : CommandLine :=
  if !b.hasArgv0 then {} else ⟨true, b.argv0, b.options, b.positionalArgs⟩

end CommandLineBuilder

/-- The loop of the builder over the arguments, from some state of it. -/
def processArgs (b : CommandLineBuilder) (args : List Chars) : CommandLineBuilder :=
  args.foldl (fun b arg => (b.processArg arg).2) b

def commandLineFromIterators (args : List Chars) : CommandLine := (processArgs {} args).build

/-- The argument of an option. -/
def optionArg (o : CommandLine.Option) : Chars :=
  if o.value.isEmpty then ['-', '-'] ++ o.name else ['-', '-'] ++ o.name ++ ['='] ++ o.value

/-- The positional arguments, with `--` before them if necessary. -/
def positionalArgv : List Chars → List Chars
  | [] => []
  | first :: rest => if first.startsWithDashes then ['-', '-'] :: first :: rest else first :: rest

def commandLineToArgv (c : CommandLine) : List Chars :=
  if !c.hasArgv0 then [] else c.argv0 :: (c.options.map optionArg ++ positionalArgv c.positionalArgs)

namespace CommandLine

/-- What the parser makes of an option: a name without `=` after its first character. -/
def Option.Parsed (o : Option) : Prop := o.name ≠ [] ∧ '=' ∉ o.name.tail

structure Parsed (c : CommandLine) : Prop where
  options : ∀ o ∈ c.options, o.Parsed
  empty : c.hasArgv0 = false → c = {}

end CommandLine

section Options
variable {arg cs value : Chars} {c : Char} {o : CommandLine.Option}

private theorem find_none (h : '=' ∉ cs) : cs.findIdx? (fun x => decide (x = '=')) = none := by
  rw [List.findIdx?_eq_none_iff]
  intro x hx
  exact decide_eq_false fun heq => h (heq ▸ hx)

private theorem parseOption_name (h : '=' ∉ cs) : CommandLineBuilder.parseOption ('-' :: '-' :: c :: cs) = ⟨c :: cs, []⟩ := by
  simp [CommandLineBuilder.parseOption, Chars.find, Chars.substr, find_none h]

private theorem parseOption_value (h : '=' ∉ cs) :
    CommandLineBuilder.parseOption ('-' :: '-' :: c :: (cs ++ '=' :: value)) = ⟨c :: cs, value⟩ := by
  have hfind : (cs ++ '=' :: value).findIdx? (fun x => decide (x = '=')) = some cs.length := by
    rw [List.findIdx?_append, find_none h]
    simp [List.findIdx?_cons]
  have hpos : Chars.find ('-' :: '-' :: c :: (cs ++ '=' :: value)) '=' 3 = some (cs.length + 3) := by
    simp [Chars.find, hfind, Nat.add_comm]
  have hname : ('-' :: '-' :: c :: (cs ++ '=' :: value)).drop 2 = (c :: cs) ++ '=' :: value := rfl
  have hvalue : ('-' :: '-' :: c :: (cs ++ '=' :: value)).drop (cs.length + 4) = value := by
    have happend : '-' :: '-' :: c :: (cs ++ '=' :: value) = ('-' :: '-' :: c :: (cs ++ ['='])) ++ value := by simp
    rw [happend]
    exact List.drop_left' (by simp)
  simp only [CommandLineBuilder.parseOption, hpos, Chars.substrCount, Chars.substr]
  rw [hname, hvalue]
  exact congrArg (fun name => CommandLine.Option.mk name value) (List.take_left' rfl)

/-- Whatever comes after the dashes is parsed to an option that has a name. -/
theorem parsed_parseOption (h : arg.startsWithDashes) (hlength : arg.length ≠ 2) :
    (CommandLineBuilder.parseOption arg).Parsed := by
  obtain ⟨c, cs, rfl⟩ : ∃ c cs, arg = '-' :: '-' :: c :: cs := by
    have hsplit := List.take_append_drop 2 arg
    rw [of_decide_eq_true h] at hsplit
    cases hdrop : arg.drop 2 with
    | nil =>
      rw [← hsplit, hdrop] at hlength
      exact absurd rfl hlength
    | cons c cs => exact ⟨c, cs, by rw [← hsplit, hdrop]; rfl⟩
  by_cases hmem : '=' ∈ cs
  · obtain ⟨name, value, rfl, hname⟩ := List.eq_append_cons_of_mem hmem
    rw [parseOption_value hname]
    exact ⟨by simp, hname⟩
  · rw [parseOption_name hmem]
    exact ⟨by simp, hmem⟩

theorem exists_of_parsed (h : o.Parsed) : ∃ c cs, o.name = c :: cs ∧ '=' ∉ cs := by
  obtain ⟨hne, hname⟩ := h
  obtain ⟨c, cs, hcs⟩ := List.exists_cons_of_ne_nil hne
  rw [hcs] at hname
  exact ⟨c, cs, hcs, hname⟩

/-- An option that was parsed is parsed from its argument again. -/
theorem parseOption_optionArg (h : o.Parsed) : CommandLineBuilder.parseOption (optionArg o) = o := by
  obtain ⟨c, cs, hcs, hname⟩ := exists_of_parsed h
  obtain ⟨name, value⟩ := o
  obtain rfl : name = c :: cs := hcs
  cases value with
  | nil => exact parseOption_name hname
  | cons v value =>
    have harg : optionArg ⟨c :: cs, v :: value⟩ = '-' :: '-' :: c :: (cs ++ '=' :: v :: value) := by simp [optionArg]
    rw [harg, parseOption_value hname]

private theorem optionArg_dashes (h : o.Parsed) : (optionArg o).startsWithDashes ∧ (optionArg o).length ≠ 2 := by
  obtain ⟨c, cs, hcs, -⟩ := exists_of_parsed h
  simp only [optionArg, hcs]
  split <;> simp [Chars.startsWithDashes]

end Options

section Runs
variable {b : CommandLineBuilder} {options : List CommandLine.Option} {args : List Chars}

/-- What the builder has parsed so far. -/
structure CommandLineBuilder.Parsed (b : CommandLineBuilder) : Prop where
  options : ∀ o ∈ b.options, o.Parsed

theorem CommandLineBuilder.Parsed.processArg (h : b.Parsed) (arg : Chars) : (b.processArg arg).2.Parsed := by
  unfold CommandLineBuilder.processArg
  split
  · exact ⟨h.options⟩
  split
  · exact ⟨h.options⟩
  split
  · exact ⟨h.options⟩
  split
  · exact ⟨h.options⟩
  next hdashes hlength =>
    constructor
    intro o ho
    rcases List.mem_append.mp ho with ho | ho
    · exact h.options o ho
    · rw [List.mem_singleton.mp ho]
      exact parsed_parseOption (by simpa using hdashes) hlength

theorem CommandLineBuilder.Parsed.processArgs (h : b.Parsed) : (processArgs b args).Parsed := by
  induction args generalizing b with
  | nil => exact h
  | cons arg args ih => exact ih (h.processArg arg)

theorem parsed_commandLineFromIterators (args : List Chars) : (commandLineFromIterators args).Parsed := by
  have h : (processArgs {} args).Parsed := CommandLineBuilder.Parsed.processArgs ⟨by simp⟩
  unfold commandLineFromIterators CommandLineBuilder.build
  split
  · exact ⟨by simp, fun _ => rfl⟩
  · exact ⟨h.options, by simp⟩

/-- Before any positional argument the options are taken back as they are. -/
private theorem processArgs_options (b : CommandLineBuilder) (hoptions : ∀ o ∈ options, o.Parsed) (hargv0 : b.hasArgv0)
    (hstarted : b.startedPositionalArgs = false) :
    processArgs b (options.map optionArg) = { b with options := b.options ++ options } := by
  induction options generalizing b with
  | nil => simp [processArgs]
  | cons o options ih =>
    obtain ⟨ho, hoptions⟩ := List.forall_mem_cons.mp hoptions
    obtain ⟨hdashes, hlength⟩ := optionArg_dashes ho
    have hstep : (b.processArg (optionArg o)).2 = { b with options := b.options ++ [o] } := by
      simp [CommandLineBuilder.processArg, hargv0, hstarted, hdashes, hlength, parseOption_optionArg ho]
    have hrest := ih { b with options := b.options ++ [o] } hoptions hargv0 hstarted
    rw [List.map_cons, processArgs, List.foldl_cons, hstep]
    simpa [processArgs] using hrest

/-- Once a positional argument was seen, all others are positional. -/
private theorem processArgs_positional (b : CommandLineBuilder) (args : List Chars) (hargv0 : b.hasArgv0)
    (hstarted : b.startedPositionalArgs) :
    processArgs b args = { b with positionalArgs := b.positionalArgs ++ args } := by
  induction args generalizing b with
  | nil => simp [processArgs]
  | cons arg args ih =>
    have hstep : (b.processArg arg).2 = { b with positionalArgs := b.positionalArgs ++ [arg] } := by
      simp [CommandLineBuilder.processArg, hargv0, hstarted]
    have hrest := ih { b with positionalArgs := b.positionalArgs ++ [arg] } hargv0 hstarted
    rw [processArgs, List.foldl_cons, hstep]
    simpa [processArgs] using hrest

private theorem positionalArgs_processArgs (b : CommandLineBuilder) (args : List Chars) (hargv0 : b.hasArgv0)
    (hstarted : b.startedPositionalArgs = false) (hnone : b.positionalArgs = []) :
    (processArgs b (positionalArgv args)).build = { b with positionalArgs := args }.build := by
  cases args with
  | nil => simp [positionalArgv, processArgs, CommandLineBuilder.build, hnone]
  | cons first rest =>
    by_cases hdashes : first.startsWithDashes
    · have hstep : (b.processArg ['-', '-']).2 = { b with startedPositionalArgs := true } := by
        simp [CommandLineBuilder.processArg, hargv0, hstarted, Chars.startsWithDashes]
      have hrest := processArgs_positional { b with startedPositionalArgs := true } (first :: rest) hargv0 rfl
      rw [positionalArgv, if_pos hdashes, processArgs, List.foldl_cons, hstep]
      rw [processArgs] at hrest
      rw [hrest]
      simp [CommandLineBuilder.build, hnone]
    · have hstep : (b.processArg first).2 = { b with startedPositionalArgs := true, positionalArgs := [first] } := by
        simp [CommandLineBuilder.processArg, hargv0, hstarted, hdashes, hnone]
      have hrest := processArgs_positional { b with startedPositionalArgs := true, positionalArgs := [first] }
        rest hargv0 rfl
      rw [positionalArgv, if_neg hdashes, processArgs, List.foldl_cons, hstep]
      rw [processArgs] at hrest
      rw [hrest]
      simp [CommandLineBuilder.build]

/-- A command line as the parser makes them is parsed from its arguments again. -/
theorem commandLineFromIterators_toArgv {c : CommandLine} (h : c.Parsed) :
    commandLineFromIterators (commandLineToArgv c) = c := by
  cases hargv0 : c.hasArgv0 with
  | false =>
    rw [h.empty hargv0]
    rfl
  | true =>
    have hoptions := processArgs_options { hasArgv0 := true, argv0 := c.argv0 } h.options rfl rfl
    have hargs := positionalArgs_processArgs { hasArgv0 := true, argv0 := c.argv0, options := c.options }
      c.positionalArgs rfl rfl rfl
    have hfirst : commandLineToArgv c = c.argv0 :: (c.options.map optionArg ++ positionalArgv c.positionalArgs) := by
      simp [commandLineToArgv, hargv0]
    have hstart : (CommandLineBuilder.processArg {} c.argv0).2 = { hasArgv0 := true, argv0 := c.argv0 } := rfl
    rw [processArgs] at hoptions hargs
    rw [commandLineFromIterators, hfirst, processArgs, List.foldl_cons, hstart, List.foldl_append, hoptions]
    refine hargs.trans ?_
    obtain ⟨_, argv0, options, positionalArgs⟩ := c
    obtain rfl := hargv0
    rfl

end Runs

/-- Parsing, printing and parsing again gives the same command line, whatever the arguments. -/
theorem commandLine_round_trip (args : List Chars) :
    commandLineFromIterators (commandLineToArgv (commandLineFromIterators args)) = commandLineFromIterators args :=
  commandLineFromIterators_toArgv (parsed_commandLineFromIterators args)

end Ogre.Fml
