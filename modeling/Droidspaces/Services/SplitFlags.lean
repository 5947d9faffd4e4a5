import Droidspaces.Config.Values
import Droidspaces.Shell.Quotes
import Mathlib

/-!
# The flags of a server

`ds_split_flags` makes an `argv` of the flags that the configuration has for a server.  It reads the
tokens that `Shell.tokens` has, without the empty ones, and refuses the whole text for a single
character that means something to a shell (`dsSplitFlags_correct`).
-/

namespace Droidspaces.SplitFlags

open Config Shell

/-! ## The code -/

/-- What stands between two tokens. -/
def isSpace (c : Char) : Bool := c == ' ' || c == '\t' || c == '\n' || c == '\r'

def isQuote (c : Char) : Bool := c == '\'' || c == '"'

def dsShellMetachars : Text := "$`;&|><(){}\\".toList

/-- Copies up to the quote that closes, and steps over it. -/
def copyQuoted (quote : Char) (tok : Text) : Text → Text × Text
  | [] => (tok, [])
  | c :: p => if c = quote then (tok, p) else copyQuoted quote (tok ++ [c]) p

theorem length_copyQuoted (quote : Char) (tok p : Text) :
    (copyQuoted quote tok p).2.length ≤ p.length := by
  induction p generalizing tok with
  | nil => exact Nat.le_refl _
  | cons c p ih =>
    rw [copyQuoted]
    split
    · exact Nat.le_succ _
    · exact Nat.le_succ_of_le (ih _)

/-- Accumulates a token, and returns it with what is behind it. -/
def takeToken (tok : Text) : Text → Text × Text
  | [] => (tok, [])
  | c :: p =>
    if isSpace c then (tok, c :: p)
    else if c = '\'' then
      have := length_copyQuoted '\'' tok p
      takeToken (copyQuoted '\'' tok p).1 (copyQuoted '\'' tok p).2
    else if c = '"' then
      have := length_copyQuoted '"' tok p
      takeToken (copyQuoted '"' tok p).1 (copyQuoted '"' tok p).2
    else takeToken (tok ++ [c]) p
termination_by p => p.length

theorem length_takeToken (tok p : Text) : (takeToken tok p).2.length ≤ p.length := by
  fun_induction takeToken tok p with
  | case1 => exact Nat.le_refl _
  | case2 => exact Nat.le_refl _
  | case3 tok p hlen hspace ih => exact Nat.le_succ_of_le (ih.trans hlen)
  | case4 tok p hlen hspace hne ih => exact Nat.le_succ_of_le (ih.trans hlen)
  | case5 tok c p hspace hsingle hdouble ih => exact Nat.le_succ_of_le ih

theorem length_takeToken_lt {c : Char} (hc : isSpace c = false) (p : Text) :
    (takeToken [] (c :: p)).2.length < (c :: p).length := by
  rw [takeToken, if_neg (by simp [hc])]
  refine Nat.lt_succ_of_le ?_
  split_ifs
  · exact (length_takeToken _ _).trans (length_copyQuoted _ _ _)
  · exact (length_takeToken _ _).trans (length_copyQuoted _ _ _)
  · exact length_takeToken _ _

theorem isSpace_of_dropWhile {p rest : Text} {c : Char} (h : p.dropWhile isSpace = c :: rest) :
    isSpace c = false := by
  have hhead := List.head_dropWhile_not isSpace (l := p) (by simp [h])
  simpa [h] using hhead

/-- `strpbrk` -/
def hasMetachar (tok : Text) : Bool := tok.any (dsShellMetachars.contains ·)

/-- The outer loop: the tokens so far, and where it is. -/
def splitFrom (argv : List Text) (p : Text) : Option (List Text) :=
  match h : p.dropWhile isSpace with
  | [] => some argv
  | c :: rest =>
    have : (takeToken [] (c :: rest)).2.length < p.length := by
      have hdrop := (List.dropWhile_suffix isSpace (l := p)).length_le
      rw [h] at hdrop
      exact (length_takeToken_lt (isSpace_of_dropWhile h) rest).trans_le hdrop
    if (takeToken [] (c :: rest)).1 = [] then splitFrom argv (takeToken [] (c :: rest)).2
    else if hasMetachar (takeToken [] (c :: rest)).1 then none
    else splitFrom (argv ++ [(takeToken [] (c :: rest)).1]) (takeToken [] (c :: rest)).2
termination_by p.length

/-- The tokens for `execv`, or `none` for -1. -/
def dsSplitFlags (str : Text) : Option (List Text) := splitFrom [] str

/-! ## Tokens -/

/-- The tokens of a text with flags. -/
abbrev flagTokens (t : Text) : List Text := tokens isSpace isQuote t

example : flagTokens "-a 'b c'd \"\" \"e f".toList =
    ["-a".toList, "b cd".toList, [], "e f".toList] := by decide +kernel

theorem tokensFrom_copyQuoted (quote : Char) (tok p : Text) :
    tokensFrom isSpace isQuote (.quoted quote tok) p =
      tokensFrom isSpace isQuote (.token (copyQuoted quote tok p).1) (copyQuoted quote tok p).2 := by
  induction p generalizing tok with
  | nil => rfl
  | cons c p ih =>
    rw [tokensFrom, copyQuoted]
    split
    · rfl
    · exact ih _

/-- The inner loop reads one token. -/
theorem tokensFrom_takeToken (tok p : Text) :
    tokensFrom isSpace isQuote (.token tok) p =
      (takeToken tok p).1 :: flagTokens (takeToken tok p).2 := by
  fun_induction takeToken tok p with
  | case1 => rfl
  | case2 tok c p hspace => rw [tokensFrom_token_sep hspace, flagTokens, tokens_sep hspace]
  | case3 tok p hlen hspace ih => rw [tokensFrom_quote rfl rfl, tokensFrom_copyQuoted, ih]
  | case4 tok p hlen hspace hne ih => rw [tokensFrom_quote rfl rfl, tokensFrom_copyQuoted, ih]
  | case5 tok c p hspace hsingle hdouble ih =>
    rw [tokensFrom_plain (by simpa using hspace) (by simp [isQuote, hsingle, hdouble]), ih]

/-- Behind the blanks there is a token. -/
theorem flagTokens_of_dropWhile {p : Text} {c : Char} {rest : Text}
    (h : p.dropWhile isSpace = c :: rest) :
    flagTokens p = (takeToken [] (c :: rest)).1 :: flagTokens (takeToken [] (c :: rest)).2 := by
  rw [flagTokens, ← tokens_dropWhile, h, tokens_cons (isSpace_of_dropWhile h),
    tokensFrom_takeToken]

/-- What the outer loop returns: the tokens that are not empty, unless one is refused. -/
theorem splitFrom_eq (argv : List Text) (p : Text) :
    splitFrom argv p =
      if (flagTokens p).any hasMetachar then none
      else some (argv ++ (flagTokens p).filter (· ≠ [])) := by
  fun_induction splitFrom argv p with
  | case1 argv p hend =>
    have hnone : flagTokens p = [] := by rw [flagTokens, ← tokens_dropWhile, hend]; rfl
    simp [hnone]
  | case2 argv p c rest hstart hlt hempty ih =>
    have hread := flagTokens_of_dropWhile hstart
    simp [ih, hread, hempty, hasMetachar]
  | case3 argv p c rest hstart hlt hne hmeta =>
    have hread := flagTokens_of_dropWhile hstart
    simp [hread, hmeta]
  | case4 argv p c rest hstart hlt hne hmeta ih =>
    have hread := flagTokens_of_dropWhile hstart
    simp [ih, hread, hmeta, hne]

/-- Texts that `ds_split_flags` returns if they are quoted: there is something in them, nothing that
means something to a shell, and no double quote. -/
structure IsFlag (tok : Text) : Prop where
  ne_nil : tok ≠ []
  noMetachar : hasMetachar tok = false
  noQuote : '"' ∉ tok

theorem hasMetachar_iff (tok : Text) : hasMetachar tok = true ↔ ∃ c ∈ dsShellMetachars, c ∈ tok := by
  simp only [hasMetachar, List.any_eq_true, List.contains_iff_mem]
  exact ⟨fun ⟨c, htok, hmeta⟩ => ⟨c, hmeta, htok⟩, fun ⟨c, hmeta, htok⟩ => ⟨c, htok, hmeta⟩⟩

theorem dsSplitFlags_enclose {toks : List Text} (h : ∀ tok ∈ toks, IsFlag tok) :
    dsSplitFlags ([' '].intercalate (toks.map (enclose '"'))) = some toks := by
  have hread : flagTokens ([' '].intercalate (toks.map (enclose '"'))) = toks :=
    tokens_enclose rfl rfl rfl toks fun tok htok => (h tok htok).noQuote
  have hclean : ¬ toks.any hasMetachar = true := by
    rintro hany
    obtain ⟨tok, htok, hmeta⟩ := List.any_eq_true.1 hany
    rw [(h tok htok).noMetachar] at hmeta
    cases hmeta
  have hkept : toks.filter (· ≠ []) = toks :=
    List.filter_eq_self.2 fun tok htok => decide_eq_true (h tok htok).ne_nil
  rw [dsSplitFlags, splitFrom_eq, hread, if_neg hclean, hkept, List.nil_append]

/-- **The flags are split as the quotes say, and none has a metacharacter in it.** -/
theorem dsSplitFlags_correct :
    (∀ str, dsSplitFlags str =
      if ∃ tok ∈ flagTokens str, ∃ c ∈ dsShellMetachars, c ∈ tok then none
      else some ((flagTokens str).filter (· ≠ []))) ∧
      (∀ str argv, dsSplitFlags str = some argv →
        ∀ tok ∈ argv, ∀ c ∈ dsShellMetachars, c ∉ tok) ∧
      ∀ toks, (∀ tok ∈ toks, IsFlag tok) →
        dsSplitFlags ([' '].intercalate (toks.map (enclose '"'))) = some toks := by
  have hany (str : Text) : (flagTokens str).any hasMetachar = true ↔
      ∃ tok ∈ flagTokens str, ∃ c ∈ dsShellMetachars, c ∈ tok := by
    simp only [List.any_eq_true, hasMetachar_iff]
  have hsplit (str : Text) : dsSplitFlags str =
      if ∃ tok ∈ flagTokens str, ∃ c ∈ dsShellMetachars, c ∈ tok then none
      else some ((flagTokens str).filter (· ≠ [])) := by
    rw [dsSplitFlags, splitFrom_eq, List.nil_append]
    exact if_congr (hany str) rfl rfl
  refine ⟨hsplit, fun str argv hargv tok htok c hmeta hc => ?_, fun toks => dsSplitFlags_enclose⟩
  rw [hsplit] at hargv
  split at hargv
  · cases hargv
  · next hclean =>
    rw [← Option.some.inj hargv] at htok
    exact hclean ⟨tok, (List.mem_filter.1 htok).1, c, hmeta, hc⟩

end Droidspaces.SplitFlags
