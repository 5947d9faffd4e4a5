import Droidspaces.Shell.Words
import Mathlib.Data.Option.Basic

/-!
# Scripts of simple commands

A script is read one character at a time, with single quotes and with backslashes outside of them,
and each line is one command.  Everything else that means something to a shell has no meaning here:
a script that has such a character outside of quotes is not understood.  `commandsFrom_quoteSingle`
says that a text comes through in quotes, whatever is in it.
-/

namespace Shell

/-- What a command does: assignments, or anything else. -/
inductive Action where
  | assign (name value : Text)
  | other (words : List Text)
  deriving DecidableEq

/-- Inside of a word, behind a backslash or between quotes, with what has been read of the word. -/
inductive Reading where
  | blank
  | word (read : Text)
  | escaped (before : Option Text)
  | quoted (read : Text)

namespace Reading

/-- The word that ends here, if there is one. -/
def word? : Reading → Option Text
  | word t => some t
  | _ => none

end Reading

/-- What a shell does not take for itself outside of quotes. -/
def specials : Text := "|&;<>()$`\"*?[]#~%{}!".toList

def isSpecial (c : Char) : Bool := specials.contains c

/-- A name of a variable. -/
def isName : Text → Bool
  | [] => false
  | c :: cs => (c.isAlpha || c == '_') && cs.all fun c => c.isAlphanum || c == '_'

def exportName : Text := "export".toList

/-- An operand of `export`. -/
def exportOperand (t : Text) : Action :=
  match t.dropWhile (· != '=') with
  | [] => .other [exportName, t]
  | _ :: value =>
    if isName (t.takeWhile (· != '=')) then .assign (t.takeWhile (· != '=')) value
    else .other [exportName, t]

def execute : List Text → List Action
  | [] => []
  | command :: operands =>
    if command = exportName then operands.map exportOperand
    else [.other (command :: operands)]

/-- What a script does, from some place of a command on whose first words are known. -/
def runFrom (words : List Text) : Reading → Text → Option (List Action)
  | .quoted _, [] => none
  | .escaped _, [] => none
  | reading, [] => some (execute (words ++ reading.word?.toList))
  | .quoted t, c :: s =>
    if c = '\'' then runFrom words (.word t) s else runFrom words (.quoted (t ++ [c])) s
  | .escaped before, c :: s =>
    if c = '\n' then runFrom words (before.elim .blank .word) s
    else runFrom words (.word (before.getD [] ++ [c])) s
  | reading, c :: s =>
    if c = '\n' then
      (runFrom [] .blank s).map fun actions => execute (words ++ reading.word?.toList) ++ actions
    else if isBlank c then runFrom (words ++ reading.word?.toList) .blank s
    else if c = '\'' then runFrom words (.quoted (reading.word?.getD [])) s
    else if c = '\\' then runFrom words (.escaped reading.word?) s
    else if isSpecial c then none
    else runFrom words (.word (reading.word?.getD [] ++ [c])) s

def run (script : Text) : Option (List Action) := runFrom [] .blank script

/-- The words of its commands, which are read in the same way. -/
def commandsFrom (words : List Text) : Reading → Text → Option (List (List Text))
  | .quoted _, [] => none
  | .escaped _, [] => none
  | reading, [] => some [words ++ reading.word?.toList]
  | .quoted t, c :: s =>
    if c = '\'' then commandsFrom words (.word t) s else commandsFrom words (.quoted (t ++ [c])) s
  | .escaped before, c :: s =>
    if c = '\n' then commandsFrom words (before.elim .blank .word) s
    else commandsFrom words (.word (before.getD [] ++ [c])) s
  | reading, c :: s =>
    if c = '\n' then
      (commandsFrom [] .blank s).map fun commands => (words ++ reading.word?.toList) :: commands
    else if isBlank c then commandsFrom (words ++ reading.word?.toList) .blank s
    else if c = '\'' then commandsFrom words (.quoted (reading.word?.getD [])) s
    else if c = '\\' then commandsFrom words (.escaped reading.word?) s
    else if isSpecial c then none
    else commandsFrom words (.word (reading.word?.getD [] ++ [c])) s

def commands (script : Text) : Option (List (List Text)) := commandsFrom [] .blank script

theorem runFrom_eq_commandsFrom (words : List Text) (reading : Reading) (s : Text) :
    runFrom words reading s =
      (commandsFrom words reading s).map fun commands => commands.flatMap execute := by
  induction s generalizing words reading with
  | nil => cases reading <;> simp [runFrom, commandsFrom]
  | cons c s ih =>
    cases reading <;> simp only [runFrom, commandsFrom, ih, apply_ite (Option.map _)]
    all_goals simp [Function.comp_def]

/-- A script does what its commands do. -/
theorem run_eq_commands (script : Text) :
    run script = (commands script).map fun commands => commands.flatMap execute :=
  runFrom_eq_commandsFrom [] .blank script

/-! ## Words and quotes -/

/-- A character that a word just goes on with. -/
def isPlain (c : Char) : Bool := !(isBlank c || c == '\'' || c == '\\' || isSpecial c)

section Words

variable {words : List Text} {c : Char} {t w : Text}

theorem isPlain_iff :
    isPlain c = true ↔ isBlank c = false ∧ c ≠ '\'' ∧ c ≠ '\\' ∧ isSpecial c = false := by
  simp [isPlain, and_assoc]

theorem ne_newline (hc : isBlank c = false) : c ≠ '\n' := by
  rintro rfl
  exact absurd hc (by decide)

theorem commandsFrom_blank (s : Text) : commandsFrom words .blank (c :: s) =
    if c = '\n' then (commands s).map fun commands => (words ++ []) :: commands
    else if isBlank c then commandsFrom (words ++ []) .blank s
    else if c = '\'' then commandsFrom words (.quoted []) s
    else if c = '\\' then commandsFrom words (.escaped none) s
    else if isSpecial c then none
    else commandsFrom words (.word [c]) s := rfl

theorem commandsFrom_word (s : Text) : commandsFrom words (.word t) (c :: s) =
    if c = '\n' then (commands s).map fun commands => (words ++ [t]) :: commands
    else if isBlank c then commandsFrom (words ++ [t]) .blank s
    else if c = '\'' then commandsFrom words (.quoted t) s
    else if c = '\\' then commandsFrom words (.escaped (some t)) s
    else if isSpecial c then none
    else commandsFrom words (.word (t ++ [c])) s := rfl

theorem commandsFrom_quoted (s : Text) : commandsFrom words (.quoted t) (c :: s) =
    if c = '\'' then commandsFrom words (.word t) s
    else commandsFrom words (.quoted (t ++ [c])) s := rfl

theorem commandsFrom_word_cons (hc : isPlain c = true) (s : Text) :
    commandsFrom words (.word t) (c :: s) = commandsFrom words (.word (t ++ [c])) s := by
  obtain ⟨hblank, hquote, hbackslash, hspecial⟩ := isPlain_iff.1 hc
  simp [commandsFrom_word, ne_newline hblank, hblank, hquote, hbackslash, hspecial]

theorem commandsFrom_blank_cons (hc : isPlain c = true) (s : Text) :
    commandsFrom words .blank (c :: s) = commandsFrom words (.word [c]) s := by
  obtain ⟨hblank, hquote, hbackslash, hspecial⟩ := isPlain_iff.1 hc
  simp [commandsFrom_blank, ne_newline hblank, hblank, hquote, hbackslash, hspecial]

theorem commandsFrom_word_append (hw : ∀ c ∈ w, isPlain c = true) (s : Text) :
    commandsFrom words (.word t) (w ++ s) = commandsFrom words (.word (t ++ w)) s := by
  induction w generalizing t with
  | nil => simp
  | cons c w ih =>
    obtain ⟨hc, hw⟩ := List.forall_mem_cons.1 hw
    rw [List.cons_append, commandsFrom_word_cons hc, ih hw, List.append_assoc,
      List.singleton_append]

theorem commandsFrom_blank_append (hne : w ≠ []) (hw : ∀ c ∈ w, isPlain c = true) (s : Text) :
    commandsFrom words .blank (w ++ s) = commandsFrom words (.word w) s := by
  obtain ⟨c, w, rfl⟩ := List.exists_cons_of_ne_nil hne
  obtain ⟨hc, hw⟩ := List.forall_mem_cons.1 hw
  rw [List.cons_append, commandsFrom_blank_cons hc, commandsFrom_word_append hw,
    List.singleton_append]

theorem commandsFrom_word_space (s : Text) :
    commandsFrom words (.word t) (' ' :: s) = commandsFrom (words ++ [t]) .blank s := by
  simp [commandsFrom_word, isBlank]

theorem commandsFrom_word_newline (s : Text) : commandsFrom words (.word t) ('\n' :: s) =
    (commands s).map fun commands => (words ++ [t]) :: commands :=
  if_pos rfl

theorem commandsFrom_blank_quote (s : Text) :
    commandsFrom words .blank ('\'' :: s) = commandsFrom words (.quoted []) s := by
  simp [commandsFrom_blank, isBlank]

theorem commandsFrom_word_quote (s : Text) :
    commandsFrom words (.word t) ('\'' :: s) = commandsFrom words (.quoted t) s := by
  simp [commandsFrom_word, isBlank]

/-- A single quote ends the quotes, stands for itself behind a backslash, and starts new ones. -/
def escapeSingle (t : Text) : Text := t.flatMap fun c => if c = '\'' then "'\\''".toList else [c]

def quoteSingle (t : Text) : Text := '\'' :: (escapeSingle t ++ ['\''])

/-- Between quotes, a quote that is escaped is part of the word. -/
theorem commandsFrom_quoted_escape (s : Text) :
    commandsFrom words (.quoted t) ("'\\''".toList ++ s) =
      commandsFrom words (.quoted (t ++ ['\''])) s := by
  change commandsFrom words (.quoted t) ('\'' :: '\\' :: '\'' :: '\'' :: s) = _
  have hescaped : commandsFrom words (.escaped (some t)) ('\'' :: '\'' :: s) =
      commandsFrom words (.word (t ++ ['\''])) ('\'' :: s) := rfl
  rw [commandsFrom_quoted, if_pos rfl, commandsFrom_word]
  simp [isBlank, hescaped, commandsFrom_word_quote]

/-- In quotes every text comes through: the state is only outside where a quote is escaped. -/
theorem commandsFrom_escapeSingle (v s : Text) :
    commandsFrom words (.quoted t) (escapeSingle v ++ '\'' :: s) =
      commandsFrom words (.word (t ++ v)) s := by
  induction v generalizing t with
  | nil =>
    rw [List.append_nil]
    exact if_pos rfl
  | cons c v ih =>
    have hcons : escapeSingle (c :: v) =
        (if c = '\'' then "'\\''".toList else [c]) ++ escapeSingle v := rfl
    have hnext : commandsFrom words (.quoted (t ++ [c])) (escapeSingle v ++ '\'' :: s) =
        commandsFrom words (.word (t ++ c :: v)) s := by
      rw [ih, List.append_assoc, List.singleton_append]
    by_cases hc : c = '\''
    · subst hc
      rw [hcons, if_pos rfl, ← hnext, List.append_assoc, commandsFrom_quoted_escape]
    · rw [hcons, if_neg hc, ← hnext, List.append_assoc, List.singleton_append,
        commandsFrom_quoted, if_neg hc]

/-- **A quoted text is added to the word as it stands.** -/
theorem commandsFrom_quoteSingle (v s : Text) :
    commandsFrom words (.word t) (quoteSingle v ++ s) = commandsFrom words (.word (t ++ v)) s := by
  rw [quoteSingle, List.cons_append, List.append_assoc, List.singleton_append,
    commandsFrom_word_quote, commandsFrom_escapeSingle]

/-- A quoted text is a word of its own, even if it is empty. -/
theorem commandsFrom_blank_quoteSingle (v s : Text) :
    commandsFrom words .blank (quoteSingle v ++ s) = commandsFrom words (.word v) s := by
  rw [quoteSingle, List.cons_append, List.append_assoc, List.singleton_append,
    commandsFrom_blank_quote, commandsFrom_escapeSingle, List.nil_append]

end Words

/-! ## Assignments -/

/-- The characters of a name. -/
def isNameChar (c : Char) : Bool := c.isAlphanum || c == '_'

theorem isPlain_of_isNameChar {c : Char} (h : isNameChar c = true) : isPlain c = true := by
  have hne (d : Char) (hd : isNameChar d = false) : c ≠ d := by
    rintro rfl
    rw [h] at hd
    cases hd
  have hspecials : specials.all (!isNameChar ·) = true := by decide +kernel
  refine isPlain_iff.2 ⟨?_, hne '\'' (by decide), hne '\\' (by decide), ?_⟩
  · simp [isBlank, hne ' ' (by decide), hne '\t' (by decide), hne '\n' (by decide)]
  · by_contra hspecial
    have hmem : c ∈ specials := List.contains_iff_mem.1 (Bool.not_eq_false _ ▸ hspecial)
    have hname := List.all_eq_true.1 hspecials c hmem
    rw [h] at hname
    cases hname

theorem isNameChar_of_isName {name : Text} (h : isName name = true) :
    ∀ c ∈ name, isNameChar c = true := by
  cases name with
  | nil => exact fun c hc => absurd hc List.not_mem_nil
  | cons c cs =>
    obtain ⟨hc, hcs⟩ := Bool.and_eq_true_iff.1 h
    refine List.forall_mem_cons.2 ⟨?_, List.all_eq_true.1 hcs⟩
    rcases Bool.or_eq_true_iff.1 hc with halpha | hunderscore
    · simp [isNameChar, Char.isAlphanum, halpha]
    · simp [isNameChar, hunderscore]

theorem exportOperand_eq {name : Text} (h : isName name = true) (value : Text) :
    exportOperand (name ++ '=' :: value) = .assign name value := by
  have hmem : '=' ∉ name := fun hmem => absurd (isNameChar_of_isName h '=' hmem) (by decide)
  rw [exportOperand, dropWhile_ne_append hmem, takeWhile_ne_append hmem]
  exact if_pos h

theorem execute_export (operands : List Text) :
    execute (exportName :: operands) = operands.map exportOperand := by
  rw [execute, if_pos rfl]

def exportCommand (name value : Text) : Text :=
  exportName ++ ' ' :: (name ++ '=' :: (quoteSingle value ++ ['\n']))

/-- **An `export` with a quoted value assigns that value**, and does nothing else. -/
theorem run_exportCommand {name : Text} (h : isName name = true) (value s : Text) :
    run (exportCommand name value ++ s) =
      (run s).map fun actions => .assign name value :: actions := by
  have hexport : exportName.all isPlain = true := by decide +kernel
  have hname : ∀ c ∈ name ++ ['='], isPlain c = true :=
    List.forall_mem_append.2 ⟨fun c hc => isPlain_of_isNameChar (isNameChar_of_isName h c hc),
      List.forall_mem_singleton.2 (by decide +kernel)⟩
  have hscript : exportCommand name value ++ s =
      exportName ++ ' ' :: ((name ++ ['=']) ++ (quoteSingle value ++ '\n' :: s)) := by
    simp [exportCommand]
  have hoperand : name ++ ['='] ++ value = name ++ '=' :: value := by simp
  rw [hscript, run_eq_commands, commands,
    commandsFrom_blank_append (by decide) (List.all_eq_true.1 hexport), commandsFrom_word_space,
    commandsFrom_blank_append (by simp) hname, commandsFrom_quoteSingle, commandsFrom_word_newline,
    hoperand, run_eq_commands, Option.map_map, Option.map_map]
  refine congrArg (Option.map · (commands s)) (funext fun rest => ?_)
  simp [List.flatMap_cons, execute_export, exportOperand_eq h]

example : run "export A='it'\\''s $x'\n".toList = some [.assign ['A'] "it's $x".toList] := by
  decide +kernel

end Shell
