import Droidspaces.Shell.Words

/-!
# Tokens with quotes

A text is split at separators, and what is between two quotes is copied as it stands.  The reader
takes one character at a time.  `tokens_quoted` says that quoting protects a text from being split.
-/

namespace Shell

/-- Between two tokens, in one, or behind a quote that is still open, with what has been read. -/
inductive Place where
  | outside
  | token (read : Text)
  | quoted (quote : Char) (read : Text)

namespace Place

def read : Place → Text
  | outside => []
  | token t => t
  | quoted _ t => t

/-- The token that ends here, if there is one. -/
def close : Place → List Text
  | outside => []
  | token t => [t]
  | quoted _ t => [t]

end Place

section Tokens

variable (isSep isQuote : Char → Bool)

/-- The tokens of a text that is read from some place on. -/
def tokensFrom : Place → Text → List Text
  | place, [] => place.close
  | .quoted quote t, c :: u =>
    if c = quote then tokensFrom (.token t) u else tokensFrom (.quoted quote (t ++ [c])) u
  | place, c :: u =>
    if isSep c then place.close ++ tokensFrom .outside u
    else if isQuote c then tokensFrom (.quoted c place.read) u
    else tokensFrom (.token (place.read ++ [c])) u

def tokens (t : Text) : List Text := tokensFrom isSep isQuote .outside t

variable {isSep isQuote} {c quote : Char} {t u : Text}

theorem tokens_cons_eq_ite : tokens isSep isQuote (c :: u) =
    if isSep c then tokens isSep isQuote u
    else if isQuote c then tokensFrom isSep isQuote (.quoted c []) u
    else tokensFrom isSep isQuote (.token [c]) u := rfl

theorem tokensFrom_token_cons : tokensFrom isSep isQuote (.token t) (c :: u) =
    if isSep c then t :: tokens isSep isQuote u
    else if isQuote c then tokensFrom isSep isQuote (.quoted c t) u
    else tokensFrom isSep isQuote (.token (t ++ [c])) u := rfl

theorem tokensFrom_quoted_cons : tokensFrom isSep isQuote (.quoted quote t) (c :: u) =
    if c = quote then tokensFrom isSep isQuote (.token t) u
    else tokensFrom isSep isQuote (.quoted quote (t ++ [c])) u := rfl

theorem tokensFrom_token_sep (hc : isSep c = true) :
    tokensFrom isSep isQuote (.token t) (c :: u) = t :: tokens isSep isQuote u := by
  rw [tokensFrom_token_cons, if_pos hc]

theorem tokens_sep (hc : isSep c = true) : tokens isSep isQuote (c :: u) = tokens isSep isQuote u := by
  rw [tokens_cons_eq_ite, if_pos hc]

theorem tokens_dropWhile (t : Text) :
    tokens isSep isQuote (t.dropWhile isSep) = tokens isSep isQuote t := by
  induction t with
  | nil => rfl
  | cons c t ih =>
    by_cases hc : isSep c = true
    · rw [List.dropWhile_cons_of_pos hc, ih, tokens_sep hc]
    · rw [List.dropWhile_cons_of_neg hc]

/-- What is no separator starts a token. -/
theorem tokens_cons (hc : isSep c = false) :
    tokens isSep isQuote (c :: u) = tokensFrom isSep isQuote (.token []) (c :: u) := by
  simp [tokens_cons_eq_ite, tokensFrom_token_cons, hc]

theorem tokensFrom_quote (hc : isSep c = false) (hquote : isQuote c = true) :
    tokensFrom isSep isQuote (.token t) (c :: u) = tokensFrom isSep isQuote (.quoted c t) u := by
  simp [tokensFrom_token_cons, hc, hquote]

theorem tokensFrom_plain (hc : isSep c = false) (hquote : isQuote c = false) :
    tokensFrom isSep isQuote (.token t) (c :: u) =
      tokensFrom isSep isQuote (.token (t ++ [c])) u := by
  simp [tokensFrom_token_cons, hc, hquote]

/-- Between two quotes everything is copied. -/
theorem tokensFrom_quoted (hquote : quote ∉ u) (rest : Text) :
    tokensFrom isSep isQuote (.quoted quote t) (u ++ quote :: rest) =
      tokensFrom isSep isQuote (.token (t ++ u)) rest := by
  induction u generalizing t with
  | nil => simp [tokensFrom_quoted_cons]
  | cons c u ih =>
    obtain ⟨hne, hu⟩ := not_or.1 (List.mem_cons.not.1 hquote)
    rw [List.cons_append, tokensFrom_quoted_cons, if_neg (Ne.symm hne), ih hu, List.append_assoc,
      List.singleton_append]

def enclose (quote : Char) (t : Text) : Text := quote :: t ++ [quote]

/-- **Texts in quotes are read back**, whatever is in them besides the quote. -/
theorem tokens_enclose {sep : Char} (hsep : isSep sep = true) (hquoteSep : isSep quote = false)
    (hquote : isQuote quote = true) (ts : List Text) (h : ∀ t ∈ ts, quote ∉ t) :
    tokens isSep isQuote ([sep].intercalate (ts.map (enclose quote))) = ts := by
  have hfirst (t rest : Text) (ht : quote ∉ t) : tokens isSep isQuote (enclose quote t ++ rest) =
      tokensFrom isSep isQuote (.token t) rest := by
    rw [enclose, List.cons_append, List.cons_append, tokens_cons hquoteSep,
      tokensFrom_quote hquoteSep hquote, List.append_assoc, List.singleton_append,
      tokensFrom_quoted ht, List.nil_append]
  induction ts with
  | nil => rfl
  | cons t ts ih =>
    have ht := h t List.mem_cons_self
    cases ts with
    | nil =>
      have hread := hfirst t [] ht
      simpa [tokensFrom, Place.close] using hread
    | cons t' ts =>
      have hrest := ih fun t ht => h t (List.mem_cons_of_mem _ ht)
      rw [List.map_cons, List.map_cons, List.intercalate_cons_cons, ← List.map_cons,
        List.append_assoc, hfirst t _ ht, List.singleton_append, tokensFrom_token_sep hsep, hrest]

end Tokens

end Shell
