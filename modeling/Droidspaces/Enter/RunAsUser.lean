import Droidspaces.Lifecycle.LockFile
import Droidspaces.Shell.Script

/-!
# A command of another user

`run_in_rootfs` hands a command to `su -c`, whose shell reads it again: several arguments are quoted
one by one into a buffer of 4096 bytes, and a text that does not fit ends where the buffer does.
`executesTyped_iff` says that the shell runs the arguments as they were typed exactly if they fit.
-/

namespace Droidspaces.Enter

open Shell

/-! ## The code -/

/-- `sizeof(cmd_buf)` -/
def cmdBufSize : ℕ := 4096

/-- A character that is stored if there is room for it and for the NUL. -/
def put (size : ℕ) (buf : Text) (c : Char) : Text :=
  if buf.length < size - 1 then buf ++ [c] else buf

def quoteEscape : Text := "'\\''".toList

/-- `shell_quote_append` -/
def shellQuoteAppend (size : ℕ) (buf arg : Text) (first : Bool) : Text :=
  let buf := if first then buf else put size buf ' '
  let buf := put size buf '\''
  let buf := arg.foldl (fun buf c =>
    if c = '\'' then quoteEscape.foldl (put size) buf else put size buf c) buf
  put size buf '\''

/-- The loop over the arguments. -/
def quoteArgs (size : ℕ) : Text → Bool → List Text → Text
  | buf, _, [] => buf
  | buf, first, arg :: args => quoteArgs size (shellQuoteAppend size buf arg first) false args

/-- `cmd_buf` -/
def cmdBuf : List Text → Text
  | [arg] => arg.take (cmdBufSize - 1)
  | argv => quoteArgs cmdBufSize [] true argv

def suWords (user cmd : Text) : List Text := ["su".toList, ['-'], user, "-c".toList, cmd]

/-- How far the process gets that is to run the command. -/
structure Runner where
  /-- The container runs, and its namespaces can be entered. -/
  entered : Bool
  /-- The second process is there, and in `/`. -/
  forked : Bool

/-- What `run_in_rootfs` executes in the container. -/
def runInRootfs (runner : Runner) (asUser : Option Text) (argv : List Text) : Option (List Text) :=
  if runner.entered && runner.forked then
    match asUser with
    | some user => some (suWords user (cmdBuf argv))
    | none =>
      match argv with
      | [arg] => some (if ' ' ∈ arg then ["/bin/sh".toList, "-c".toList, arg] else [arg])
      | argv => some argv
  else none

/-! ## What is meant -/

/-- The arguments in quotes, with blanks in between. -/
def quotedText (argv : List Text) : Text := [' '].intercalate (argv.map quoteSingle)

def FitsBuffer (argv : List Text) : Prop := (quotedText argv).length < cmdBufSize

/-- Whatever is executed has all of the quoted text, which is one command whose words are the
arguments. -/
def ExecutesTyped (argv : List Text) : Prop :=
  ∀ (runner : Runner) (user : Text) (v : List Text), runInRootfs runner (some user) argv = some v →
    FitsBuffer argv ∧ ∃ cmd, v = suWords user cmd ∧ commands cmd = some [argv]

/-! ## The buffer -/

theorem foldl_put (size : ℕ) (t buf : Text) (h : buf.length ≤ size - 1) :
    t.foldl (put size) buf = (buf ++ t).take (size - 1) := by
  induction t generalizing buf with
  | nil => rw [List.foldl_nil, List.append_nil, List.take_of_length_le h]
  | cons c t ih =>
    rw [List.foldl_cons, put]
    split
    · next hroom =>
      rw [ih _ (by rw [List.length_append, List.length_singleton]; omega), List.append_assoc,
        List.singleton_append]
    · next hfull =>
      rw [ih _ h, List.take_append_of_le_length (by omega), List.take_append_of_le_length (by omega)]

theorem shellQuoteAppend_eq_foldl (size : ℕ) (buf arg : Text) (first : Bool) :
    shellQuoteAppend size buf arg first =
      ((if first then [] else [' ']) ++ quoteSingle arg).foldl (put size) buf := by
  have hstep : (fun (buf : Text) (c : Char) =>
      if c = '\'' then quoteEscape.foldl (put size) buf else put size buf c) =
      fun buf c => (if c = '\'' then quoteEscape else [c]).foldl (put size) buf := by
    funext buf c
    split
    · rfl
    · rfl
  have hquoted : quoteSingle arg =
      '\'' :: ((arg.flatMap fun c => if c = '\'' then quoteEscape else [c]) ++ ['\'']) := rfl
  rw [shellQuoteAppend, hstep, hquoted, List.foldl_append, List.foldl_cons, List.foldl_append,
    List.foldl_flatMap]
  cases first with
  | true => rfl
  | false => rfl

theorem quoteArgs_eq_foldl (size : ℕ) (buf : Text) (args : List Text) :
    quoteArgs size buf false args =
      (args.flatMap fun arg => ' ' :: quoteSingle arg).foldl (put size) buf := by
  induction args generalizing buf with
  | nil => rfl
  | cons arg args ih =>
    rw [quoteArgs, ih, shellQuoteAppend_eq_foldl, List.flatMap_cons, ← List.foldl_append]
    rfl

theorem quotedText_cons (arg : Text) (args : List Text) :
    quotedText (arg :: args) = quoteSingle arg ++ args.flatMap fun arg => ' ' :: quoteSingle arg := by
  induction args generalizing arg with
  | nil => simp [quotedText]
  | cons arg' args ih =>
    have htail := ih arg'
    rw [quotedText, List.map_cons] at htail
    rw [quotedText, List.map_cons, List.map_cons, List.intercalate_cons_cons, htail,
      List.flatMap_cons]
    simp

/-- The buffer holds the quoted text, up to its last byte but one. -/
theorem cmdBuf_eq_take {argv : List Text} (h : 2 ≤ argv.length) :
    cmdBuf argv = (quotedText argv).take (cmdBufSize - 1) := by
  match argv, h with
  | arg :: arg' :: args, _ =>
    have hbuf : cmdBuf (arg :: arg' :: args) = quoteArgs cmdBufSize
        (shellQuoteAppend cmdBufSize [] arg true) false (arg' :: args) := rfl
    rw [hbuf, quoteArgs_eq_foldl, shellQuoteAppend_eq_foldl, if_pos rfl, List.nil_append,
      ← List.foldl_append, ← quotedText_cons, foldl_put _ _ _ (Nat.zero_le _), List.nil_append]

/-! ## The shell -/

theorem commandsFrom_quoteSingles (words : List Text) (t : Text) (args : List Text) :
    commandsFrom words (.word t) (args.flatMap fun arg => ' ' :: quoteSingle arg) =
      some [words ++ t :: args] := by
  induction args generalizing words t with
  | nil => rfl
  | cons arg args ih =>
    rw [List.flatMap_cons, List.cons_append, commandsFrom_word_space,
      commandsFrom_blank_quoteSingle, ih, List.append_assoc, List.singleton_append]

/-- **The quoted text is one command, whose words are the arguments.** -/
theorem commands_quotedText {argv : List Text} (h : argv ≠ []) :
    commands (quotedText argv) = some [argv] := by
  obtain ⟨arg, args, rfl⟩ := List.exists_cons_of_ne_nil h
  rw [commands, quotedText_cons, commandsFrom_blank_quoteSingle, commandsFrom_quoteSingles,
    List.nil_append]

/-- **The arguments are executed as they were typed exactly if they fit**: what does not fit is
executed without its end. -/
theorem executesTyped_iff {argv : List Text} (h : 2 ≤ argv.length) :
    ExecutesTyped argv ↔ FitsBuffer argv := by
  constructor
  · exact fun htyped => (htyped ⟨true, true⟩ [] _ rfl).1
  · rintro hfits ⟨entered, forked⟩ user v hv
    refine ⟨hfits, cmdBuf argv, ?_, ?_⟩
    · unfold runInRootfs at hv
      split at hv
      · exact (Option.some.inj hv).symm
      · cases hv
    · have hne : argv ≠ [] := List.ne_nil_of_length_pos (by omega)
      rw [cmdBuf_eq_take h, List.take_of_length_le (Nat.le_sub_one_of_lt hfits)]
      exact commands_quotedText hne

def greetingArgs : List Text := ["echo".toList, "it's  $HOME".toList, []]

theorem executesTyped_greetingArgs : ExecutesTyped greetingArgs :=
  (executesTyped_iff (by decide)).2 (by unfold FitsBuffer; decide)

/-- The path that is removed is another one. -/
def longArgs : List Text :=
  ["rm".toList, "-rf".toList, '/' :: List.replicate 4090 'a' ++ "/cache".toList]

theorem not_executesTyped_longArgs :
    ¬ ∀ argv : List Text, 2 ≤ argv.length → ExecutesTyped argv := by
  intro h
  have hfits := (h longArgs (by decide) ⟨true, true⟩ [] _ rfl).1
  have hlong : ¬ (quotedText longArgs).length < cmdBufSize := by decide +kernel
  exact hlong hfits

end Droidspaces.Enter
