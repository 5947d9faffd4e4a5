import Droidspaces.Config.Save

/-!
# The environment of a container

Boot writes the user's variables into the container as shell text, each value in single quotes.
`write_plain_env_file` takes that text for the user's own file: `export ` is cut off the front of
whatever `fgets` returns, and nothing is undone of the quoting or of what boot adds by itself.

`parse_restored_iff` says which environments come back.
-/

namespace Droidspaces.Config

/-! ## The code -/

/-- `struct ds_env_var` -/
structure EnvVar where
  key : Text
  value : Text
  deriving DecidableEq

def exportPrefix : Text := "export ".toList

def stripExport (t : Text) : Text := if exportPrefix.isPrefixOf t then t.drop 7 else t

/-- A letter or an underscore, then digits as well. -/
def isEnvKey : Text → Bool
  | [] => false
  | c :: cs => (c.isAlpha || c == '_') && cs.all fun c => c.isAlphanum || c == '_'

def unquote (val : Text) : Text :=
  if 2 ≤ val.length ∧ (val.head? = some '"' ∧ val.getLast? = some '"' ∨
      val.head? = some '\'' ∧ val.getLast? = some '\'') then (val.drop 1).dropLast
  else val

def parseEnvLine (line : Text) : Option EnvVar :=
  let p := (line.rdropWhile (· == '\r')).dropWhile isTabOrSpace
  if p.isEmpty || p.head? == some '#' then none
  else
    let p := stripExport p
    match p.dropWhile (· != '=') with
    | [] => none
    | _ :: val =>
      let key := p.takeWhile (· != '=')
      if isEnvKey key then some ⟨key, unquote val⟩ else none

/-- `parse_env_file_to_config` -/
def parseEnvFile (text : Text) : List EnvVar := (text.splitOn '\n').filterMap parseEnvLine

/-- A single quote ends the quotes, stands for itself and starts new ones. -/
def escape (val : Text) : Text := val.flatMap fun c => if c = '\'' then "'\\''".toList else [c]

def exportLine (v : EnvVar) : Text :=
  exportPrefix ++ (v.key ++ '=' :: '\'' :: (v.value ++ ['\'', '\n']))

def x11Vars : List EnvVar := [⟨"DISPLAY".toList, ":5".toList⟩]

def waylandVars : List EnvVar := [
  ⟨"WAYLAND_DISPLAY".toList, "wayland-0".toList⟩,
  ⟨"XDG_RUNTIME_DIR".toList, "/run".toList⟩,
  ⟨"MESA_LOADER_DRIVER_OVERRIDE".toList, "kgsl".toList⟩,
  ⟨"GALLIUM_DRIVER".toList, "kgsl".toList⟩,
  ⟨"FD_FORCE_KGSL".toList, "1".toList⟩,
  ⟨"FD_DEV_FEATURES".toList, "enable_tp_ubwc_flag_hint=1".toList⟩]

def virglVars : List EnvVar := [⟨"GALLIUM_DRIVER".toList, "virpipe".toList⟩]

def pulseVars : List EnvVar := [⟨"PULSE_SERVER".toList, "unix:/tmp/.pulse-socket".toList⟩]

/-- What boot adds for the services of the host. -/
def injected (android : Bool) (cfg : DsConfig) : List EnvVar :=
  (if android && cfg.value (.flag .termuxX11) then x11Vars else []) ++
  (if android && cfg.value (.flag .wayland) then waylandVars else []) ++
  (if android && cfg.value (.flag .virgl) && !cfg.value (.flag .wayland) then virglVars else []) ++
  (if android && cfg.value (.flag .pulseaudio) then pulseVars else [])

def dsEnvSave (android : Bool) (cfg : DsConfig) (env : List EnvVar) : Text :=
  (env.map fun v => { v with value := escape v.value }).flatMap exportLine ++
    (injected android cfg).flatMap exportLine

/-- `fgets` has room for 2047 bytes of a line. -/
def writePlainEnvFile (text : Text) : Text := (fileLines text).flatMap stripExport

/-! ## Pieces of a text that are cut out -/

section Erased

variable {α : Type} (p : List α)

/-- Here and there `p` is cut out of a text. -/
inductive Erased : List α → List α → Prop where
  | nil : Erased [] []
  | keep {t u : List α} (c : α) : Erased t u → Erased (c :: t) (c :: u)
  | cut {t u : List α} : Erased t u → Erased (p ++ t) u

variable {p} {s t u v : List α}

theorem Erased.refl (t : List α) : Erased p t t := by
  induction t with
  | nil => exact Erased.nil
  | cons c t ih => exact ih.keep c

theorem Erased.append (h : Erased p t u) (h' : Erased p s v) : Erased p (t ++ s) (u ++ v) := by
  induction h with
  | nil => exact h'
  | keep c h ih => exact ih.keep c
  | cut h ih =>
    rw [List.append_assoc]
    exact ih.cut

/-- Nothing is cut out across a character that `p` does not have. -/
theorem Erased.split {x : α} (hx : x ∉ p) (h : Erased p (t ++ x :: s) u) :
    ∃ t' s', u = t' ++ x :: s' ∧ Erased p t t' ∧ Erased p s s' := by
  generalize hw : t ++ x :: s = w at h
  induction h generalizing t with
  | nil => simp at hw
  | @keep w u c h ih =>
    cases t with
    | nil =>
      obtain ⟨rfl, rfl⟩ := List.cons.inj hw
      exact ⟨[], u, rfl, Erased.nil, h⟩
    | cons d t =>
      obtain ⟨rfl, htail⟩ := List.cons.inj hw
      obtain ⟨t', s', rfl, ht, hs⟩ := ih htail
      exact ⟨d :: t', s', rfl, ht.keep d, hs⟩
  | @cut w u h ih =>
    obtain ⟨r, rfl⟩ : ∃ r, t = p ++ r := by
      rcases List.append_eq_append_iff.1 hw with ⟨r, hp, -⟩ | ⟨r, ht, -⟩
      · cases r with
        | nil => exact ⟨[], by simpa using hp.symm⟩
        | cons d r =>
          -- then `x` would stand in `p`
          have hd : d = x := by
            have hw' := hw
            rw [hp, List.append_assoc, List.append_cancel_left_eq, List.cons_append] at hw'
            exact (List.cons.inj hw').1.symm
          rw [hp, hd] at hx
          exact absurd (by simp) hx
      · exact ⟨r, ht⟩
    rw [List.append_assoc, List.append_cancel_left_eq] at hw
    obtain ⟨t', s', rfl, ht, hs⟩ := ih hw
    exact ⟨t', s', rfl, ht.cut, hs⟩

theorem Erased.eq_of_not_mem {x : α} (hx : x ∈ p) (h : Erased p t u) (ht : x ∉ t) : u = t := by
  induction h with
  | nil => rfl
  | keep c h ih => rw [ih fun hmem => ht (List.mem_cons_of_mem _ hmem)]
  | cut h ih => exact absurd (List.mem_append_left _ hx) ht

theorem Erased.subset (h : Erased p t u) : u ⊆ t := by
  induction h with
  | nil => exact List.Subset.refl _
  | keep c h ih => exact List.cons_subset_cons c ih
  | cut h ih => exact List.subset_append_of_subset_right p ih

theorem Erased.count_eq [DecidableEq α] {x : α} (hx : x ∉ p) (h : Erased p t u) :
    u.count x = t.count x := by
  induction h with
  | nil => rfl
  | keep c h ih => rw [List.count_cons, List.count_cons, ih]
  | cut h ih => rw [List.count_append, List.count_eq_zero.2 hx, ih, Nat.zero_add]

end Erased

/-! ## Lines that are cut into pieces -/

/-- There is room for what a line starts with. -/
theorem fgets_start (n : ℕ) {front rest : Text} (hfront : '\n' ∉ front) (hrest : rest ≠ [])
    {room : ℕ} (hroom : front.length ≤ room) :
    ∃ piece pieces, fgets n rest (room - front.length) = piece :: pieces ∧
      fgets n (front ++ rest) room = (front ++ piece) :: pieces := by
  induction front generalizing room with
  | nil =>
    obtain ⟨piece, pieces, hpieces⟩ := List.exists_cons_of_ne_nil (fgets_ne_nil n hrest room)
    exact ⟨piece, pieces, hpieces, hpieces⟩
  | cons c front ih =>
    have hc : c ≠ '\n' := fun h => hfront (h ▸ List.mem_cons_self)
    have hlen : front.length + 1 ≤ room := hroom
    obtain ⟨piece, pieces, hpieces, hread⟩ :=
      ih (fun h => hfront (List.mem_cons_of_mem _ h)) (show front.length ≤ room - 1 by omega)
    have hsub : room - (c :: front).length = room - 1 - front.length := by
      rw [List.length_cons]
      omega
    refine ⟨piece, pieces, by rw [hsub, hpieces], ?_⟩
    obtain ⟨d, t, hdt⟩ : ∃ d t, front ++ rest = d :: t :=
      List.exists_cons_of_ne_nil (by simp [hrest])
    have hroom0 : (room == 0) = false := by
      rw [beq_eq_false_iff_ne]
      omega
    rw [List.cons_append, hdt, fgets, ← hdt, hread]
    simp [hc, hroom0]

/-! ## A variable that is written and taken back -/

/-- A variable as the parser makes them. -/
structure IsVar (v : EnvVar) : Prop where
  key : isEnvKey v.key = true
  value : '\n' ∉ v.value

/-- Only the first piece of its line starts with `export `. -/
def IsWhole (v : EnvVar) : Prop :=
  ∀ piece ∈ (fileLines (exportLine v)).tail, ¬exportPrefix <+: piece

theorem stripExport_append (piece : Text) : stripExport (exportPrefix ++ piece) = piece := by
  have hpre : exportPrefix.isPrefixOf (exportPrefix ++ piece) = true := by
    rw [List.isPrefixOf_iff_prefix]
    exact List.prefix_append _ _
  rw [stripExport, if_pos hpre]
  exact List.drop_left' (by decide)

theorem erased_stripExport (piece : Text) : Erased exportPrefix piece (stripExport piece) := by
  unfold stripExport
  split
  · next hpre =>
    obtain ⟨rest, rfl⟩ := List.isPrefixOf_iff_prefix.1 hpre
    rw [List.drop_left' (by decide)]
    exact (Erased.refl rest).cut
  · exact Erased.refl piece

theorem erased_flatMap_stripExport (pieces : List Text) :
    Erased exportPrefix pieces.flatten (pieces.flatMap stripExport) := by
  induction pieces with
  | nil => exact Erased.nil
  | cons piece pieces ih => exact (erased_stripExport piece).append ih

theorem flatMap_stripExport_eq_iff (pieces : List Text) :
    pieces.flatMap stripExport = pieces.flatten ↔ ∀ piece ∈ pieces, ¬exportPrefix <+: piece := by
  have hle : ∀ pieces : List Text,
      (pieces.flatMap stripExport).length ≤ pieces.flatten.length := by
    intro pieces
    induction pieces with
    | nil => exact Nat.le_refl _
    | cons piece pieces ih =>
      have hpiece : (stripExport piece).length ≤ piece.length := by
        unfold stripExport
        split
        · simp
        · exact Nat.le_refl _
      simp only [List.flatMap_cons, List.flatten_cons, List.length_append]
      omega
  induction pieces with
  | nil => simp
  | cons piece pieces ih =>
    rw [List.flatMap_cons, List.flatten_cons, List.forall_mem_cons]
    by_cases hpre : exportPrefix <+: piece
    · refine iff_of_false (fun heq => ?_) fun h => h.1 hpre
      obtain ⟨rest, rfl⟩ := hpre
      have hlen := congrArg List.length heq
      have hrest := hle pieces
      have hseven : exportPrefix.length = 7 := by decide
      rw [stripExport_append, List.length_append, List.length_append, List.length_append,
        hseven] at hlen
      omega
    · have hkeep : stripExport piece = piece := by
        rw [stripExport, if_neg (by rwa [List.isPrefixOf_iff_prefix])]
      rw [hkeep, List.append_cancel_left_eq]
      exact ⟨fun heq => ⟨hpre, ih.1 heq⟩, fun h => ih.2 h.2⟩

theorem toNat_of_isAlpha {c : Char} (hc : c.isAlpha = true) :
    (65 ≤ c.toNat ∧ c.toNat ≤ 90) ∨ 97 ≤ c.toNat ∧ c.toNat ≤ 122 := by
  have halpha : c.isAlpha = (decide (c.val ≥ 'A'.val ∧ c.val ≤ 'Z'.val) ||
    (c.val ≥ 'a'.val && c.val ≤ 'z'.val)) := rfl
  rw [halpha, Bool.or_eq_true, Bool.and_eq_true] at hc
  simp only [decide_eq_true_eq, ge_iff_le, UInt32.le_iff_toNat_le] at hc
  exact hc

section Variable

variable {v : EnvVar}

theorem IsVar.not_mem_key (hv : IsVar v) {c : Char} (hc : c.isAlphanum = false) (hne : c ≠ '_') :
    c ∉ v.key := by
  have hkey := hv.key
  intro hmem
  cases htext : v.key with
  | nil =>
    rw [htext] at hmem
    cases hmem
  | cons d ds =>
    rw [htext] at hkey hmem
    simp only [isEnvKey, Bool.and_eq_true, Bool.or_eq_true, beq_iff_eq, List.all_eq_true] at hkey
    rcases List.mem_cons.1 hmem with rfl | hmem
    · rcases hkey.1 with halpha | heq
      · simp [Char.isAlphanum, halpha] at hc
      · exact hne heq
    · rcases hkey.2 c hmem with halpha | heq
      · rw [hc] at halpha
        cases halpha
      · exact hne heq

theorem exportLine_eq (v : EnvVar) :
    exportLine v =
      exportPrefix ++ (v.key ++ '=' :: '\'' :: (v.value ++ ['\''])) ++ ['\n'] := by
  simp [exportLine]

theorem writePlainEnvFile_append (v : EnvVar) (rest : Text) :
    writePlainEnvFile (exportLine v ++ rest) =
      writePlainEnvFile (exportLine v) ++ writePlainEnvFile rest := by
  unfold writePlainEnvFile fileLines
  rw [exportLine_eq, List.append_assoc, List.singleton_append, fgets_append,
    List.flatMap_append]

/-- What is left of the line of a variable. -/
theorem writePlainEnvFile_exportLine (hv : IsVar v) :
    ∃ w, Erased exportPrefix v.value w ∧
      writePlainEnvFile (exportLine v) = v.key ++ '=' :: '\'' :: (w ++ ['\'', '\n']) ∧
      (w = v.value ↔ IsWhole v) := by
  have hnewline : '\n' ∉ exportPrefix := by decide
  have hne : v.key ++ '=' :: '\'' :: (v.value ++ ['\'', '\n']) ≠ [] := by simp
  have hroom : exportPrefix.length ≤ 2046 := by decide
  obtain ⟨piece, pieces, hpieces, hread⟩ := fgets_start 2046 hnewline hne hroom
  have hlines : fileLines (exportLine v) = (exportPrefix ++ piece) :: pieces := hread
  have hrest : piece ++ pieces.flatten = v.key ++ '=' :: '\'' :: (v.value ++ ['\'', '\n']) := by
    rw [← flatten_fgets 2046 (v.key ++ _) (2046 - exportPrefix.length), hpieces]
    rfl
  have hplain : writePlainEnvFile (exportLine v) = piece ++ pieces.flatMap stripExport := by
    rw [writePlainEnvFile, hlines, List.flatMap_cons, stripExport_append]
  have herased := (Erased.refl piece).append (erased_flatMap_stripExport pieces)
  rw [hrest, ← hplain] at herased
  obtain ⟨key, quoted, hleft, hkey, hquoted⟩ := herased.split (by decide)
  obtain ⟨empty, value, rfl, hempty, hvalue⟩ := Erased.split (t := []) (by decide) hquoted
  obtain ⟨w, newline, rfl, hw, hnewline⟩ := hvalue.split (by decide)
  have hspace : ' ' ∈ exportPrefix := by decide
  have hkey' := hkey.eq_of_not_mem hspace (hv.not_mem_key rfl (by decide))
  have hempty' := hempty.eq_of_not_mem hspace List.not_mem_nil
  have hnewline' := hnewline.eq_of_not_mem hspace (by decide)
  rw [hkey', hempty', hnewline', List.nil_append] at hleft
  refine ⟨w, hw, hleft, ?_⟩
  rw [IsWhole, hlines, List.tail_cons, ← flatMap_stripExport_eq_iff]
  have hcancel : w = v.value ↔ writePlainEnvFile (exportLine v) = piece ++ pieces.flatten := by
    rw [hleft, hrest]
    simp
  rw [hcancel, hplain, List.append_cancel_left_eq]

/-- The value that is left of a variable. -/
def left (v : EnvVar) : Text :=
  ((writePlainEnvFile (exportLine v)).drop (v.key.length + 2)).dropLast.dropLast

theorem left_spec (hv : IsVar v) :
    Erased exportPrefix v.value (left v) ∧
      writePlainEnvFile (exportLine v) = v.key ++ '=' :: '\'' :: (left v ++ ['\'', '\n']) ∧
      (left v = v.value ↔ IsWhole v) := by
  obtain ⟨w, hw, hline, hwhole⟩ := writePlainEnvFile_exportLine hv
  have hleft : left v = w := by
    have hkey : v.key ++ '=' :: '\'' :: (w ++ ['\'', '\n']) =
        (v.key ++ ['=', '\'']) ++ (w ++ ['\''] ++ ['\n']) := by
      simp
    rw [left, hline, hkey, List.drop_left' (by simp), List.dropLast_concat, List.dropLast_concat]
  rw [hleft]
  exact ⟨hw, hline, hwhole⟩

end Variable

/-! ## Parsing it -/

theorem parseEnvFile_line {body : Text} (hbody : '\n' ∉ body) (rest : Text) :
    parseEnvFile (body ++ '\n' :: rest) = (parseEnvLine body).toList ++ parseEnvFile rest := by
  rw [parseEnvFile, List.splitOn_append_cons_self_of_not_mem hbody, List.filterMap_cons]
  cases parseEnvLine body with
  | none => rfl
  | some v => rfl

theorem unquote_quoted (w : Text) : unquote ('\'' :: (w ++ ['\''])) = w := by
  rw [unquote, if_pos]
  · rw [List.drop_one, List.tail_cons, List.dropLast_concat]
  · refine ⟨by simp, Or.inr ⟨rfl, ?_⟩⟩
    rw [← List.cons_append, List.getLast?_concat]

/-- A variable in single quotes is read as it stands, whatever is cut off its line. -/
theorem parseEnvLine_quoted {v : EnvVar} (hv : IsVar v) (w : Text) {front : Text} {c : Char}
    (hc : c ≠ ' ' ∧ c ≠ '\t' ∧ c ≠ '#')
    (hhead : (front ++ '\'' :: (w ++ ['\''])).head? = some c)
    (hstrip : stripExport (front ++ '\'' :: (w ++ ['\''])) =
      v.key ++ '=' :: '\'' :: (w ++ ['\''])) :
    parseEnvLine (front ++ '\'' :: (w ++ ['\''])) = some ⟨v.key, w⟩ := by
  have hline : front ++ '\'' :: (w ++ ['\'']) = (front ++ '\'' :: w) ++ ['\''] := by
    simp
  have hend : (front ++ '\'' :: (w ++ ['\''])).rdropWhile (· == '\r') =
      front ++ '\'' :: (w ++ ['\'']) := by
    rw [hline, List.rdropWhile_concat_neg _ _ _ (by decide)]
  have hstart : (front ++ '\'' :: (w ++ ['\''])).dropWhile isTabOrSpace =
      front ++ '\'' :: (w ++ ['\'']) := by
    obtain ⟨rest, hrest⟩ : ∃ rest, front ++ '\'' :: (w ++ ['\'']) = c :: rest :=
      List.head?_eq_some_iff.1 hhead
    have hblank : isTabOrSpace c = false := by simp [isTabOrSpace, hc.1, hc.2.1]
    rw [hrest, List.dropWhile_cons, hblank]
    rfl
  have hhash : ((front ++ '\'' :: (w ++ ['\''])).isEmpty ||
      (front ++ '\'' :: (w ++ ['\''])).head? == some '#') = false := by
    rw [hhead]
    simp [hc.2.2]
  have hall : ∀ d ∈ v.key, (d != '=') = true := by
    intro d hd
    refine bne_iff_ne.2 ?_
    rintro rfl
    exact hv.not_mem_key rfl (by decide) hd
  unfold parseEnvLine
  rw [hend, hstart]
  dsimp only
  rw [hhash, if_neg (by simp), hstrip, List.dropWhile_append_of_pos hall,
    List.takeWhile_append_of_pos hall]
  simp [hv.key, unquote_quoted]

theorem IsVar.key_eq_cons {v : EnvVar} (hv : IsVar v) :
    ∃ c cs, v.key = c :: cs ∧ c ≠ ' ' ∧ c ≠ '\t' ∧ c ≠ '#' := by
  have hkey := hv.key
  cases htext : v.key with
  | nil =>
    rw [htext] at hkey
    cases hkey
  | cons c cs =>
    have hne : ∀ {d : Char}, d.isAlphanum = false → d ≠ '_' → c ≠ d := by
      rintro d hd hd' rfl
      exact hv.not_mem_key hd hd' (htext ▸ List.mem_cons_self)
    exact ⟨c, cs, rfl, hne rfl (by decide), hne rfl (by decide), hne rfl (by decide)⟩

/-- There is no `export ` to cut off the name of a variable. -/
theorem IsVar.stripExport_key {v : EnvVar} (hv : IsVar v) (rest : Text) :
    stripExport (v.key ++ '=' :: rest) = v.key ++ '=' :: rest := by
  rw [stripExport, if_neg]
  rw [List.isPrefixOf_iff_prefix]
  intro hpre
  -- the blank of the prefix would have to be in the key
  have hblank : ' ' ∈ exportPrefix := by decide
  have hkey' : ' ' ∉ v.key := hv.not_mem_key rfl (by decide)
  rcases List.prefix_or_prefix_of_prefix hpre (List.prefix_append v.key _) with hle | ⟨tail, hle⟩
  · exact hkey' (hle.subset hblank)
  · rw [← hle, List.prefix_append_right_inj] at hpre
    cases tail with
    | nil =>
      rw [List.append_nil] at hle
      exact hkey' (hle ▸ hblank)
    | cons d tail =>
      obtain ⟨rfl, -⟩ := List.cons_prefix_cons.1 hpre
      exact absurd (show '=' ∈ exportPrefix from hle ▸ by simp) (by decide)

theorem parseEnvLine_plain {v : EnvVar} (hv : IsVar v) (w : Text) :
    parseEnvLine (v.key ++ '=' :: '\'' :: (w ++ ['\''])) = some ⟨v.key, w⟩ := by
  obtain ⟨c, cs, hkey, hc⟩ := hv.key_eq_cons
  have hfront : v.key ++ '=' :: '\'' :: (w ++ ['\'']) =
      (v.key ++ ['=']) ++ '\'' :: (w ++ ['\'']) := by
    simp
  rw [hfront]
  refine parseEnvLine_quoted hv w hc ?_ ?_
  · rw [hkey]
    rfl
  · rw [← hfront, hv.stripExport_key]

theorem parseEnvLine_export {v : EnvVar} (hv : IsVar v) (w : Text) :
    parseEnvLine (exportPrefix ++ (v.key ++ '=' :: '\'' :: (w ++ ['\'']))) =
      some ⟨v.key, w⟩ := by
  have hfront : exportPrefix ++ (v.key ++ '=' :: '\'' :: (w ++ ['\''])) =
      (exportPrefix ++ (v.key ++ ['='])) ++ '\'' :: (w ++ ['\'']) := by
    simp
  have hc : 'e' ≠ ' ' ∧ 'e' ≠ '\t' ∧ 'e' ≠ '#' := by decide
  rw [hfront]
  refine parseEnvLine_quoted hv w hc rfl ?_
  rw [← hfront, stripExport_append]

theorem parseEnvFile_restored {items : List EnvVar} (h : ∀ v ∈ items, IsVar v) :
    parseEnvFile (writePlainEnvFile (items.flatMap exportLine)) =
      items.map fun v => ⟨v.key, left v⟩ := by
  induction items with
  | nil => rfl
  | cons v items ih =>
    have hv := h v List.mem_cons_self
    obtain ⟨herased, hline, -⟩ := left_spec hv
    have hbody : '\n' ∉ v.key ++ '=' :: '\'' :: (left v ++ ['\'']) := by
      have hkey : '\n' ∉ v.key := hv.not_mem_key rfl (by decide)
      have hvalue : '\n' ∉ left v := fun hmem => hv.value (herased.subset hmem)
      simp only [List.mem_append, List.mem_cons, not_or]
      exact ⟨hkey, by decide, by decide, hvalue, by decide, List.not_mem_nil⟩
    have hsplit : v.key ++ '=' :: '\'' :: (left v ++ ['\'', '\n']) ++
          writePlainEnvFile (items.flatMap exportLine) =
        (v.key ++ '=' :: '\'' :: (left v ++ ['\''])) ++
          '\n' :: writePlainEnvFile (items.flatMap exportLine) := by
      simp
    rw [List.flatMap_cons, writePlainEnvFile_append, hline, hsplit, parseEnvFile_line hbody,
      parseEnvLine_plain hv, ih fun v hv => h v (List.mem_cons_of_mem _ hv)]
    rfl

/-! ## Which environments come back -/

theorem not_mem_of_mem_splitOn {c : Char} {t line : Text} (h : line ∈ t.splitOn c) : c ∉ line := by
  induction t generalizing line with
  | nil =>
    obtain rfl : line = [] := by simpa using h
    exact List.not_mem_nil
  | cons d t ih =>
    rw [List.splitOn_cons_eq_if_modifyHead] at h
    split at h
    · rcases List.mem_cons.1 h with rfl | h
      · exact List.not_mem_nil
      · exact ih h
    · next hd =>
      cases hsplit : t.splitOn c with
      | nil => exact absurd hsplit (List.splitOn_ne_nil c t)
      | cons first others =>
        rw [hsplit] at h ih
        rcases List.mem_cons.1 h with rfl | h
        · have hne : c ≠ d := fun heq => hd (by simp [heq])
          simpa [hne] using ih List.mem_cons_self
        · exact ih (List.mem_cons_of_mem _ h)

theorem unquote_subset (val : Text) : unquote val ⊆ val := by
  unfold unquote
  split
  · exact List.Subset.trans (List.dropLast_subset _) (List.drop_subset 1 val)
  · exact List.Subset.refl val

theorem stripExport_subset (t : Text) : stripExport t ⊆ t := by
  unfold stripExport
  split
  · exact List.drop_subset 7 t
  · exact List.Subset.refl t

theorem isVar_of_parseEnvLine {line : Text} {v : EnvVar} (hline : '\n' ∉ line)
    (h : parseEnvLine line = some v) : IsVar v := by
  unfold parseEnvLine at h
  dsimp only at h
  have hsubset : stripExport ((line.rdropWhile (· == '\r')).dropWhile isTabOrSpace) ⊆ line :=
    List.Subset.trans (stripExport_subset _)
      (List.Subset.trans (List.dropWhile_suffix _).subset (List.rdropWhile_prefix _ _).subset)
  generalize stripExport ((line.rdropWhile (· == '\r')).dropWhile isTabOrSpace) = p at h hsubset
  split at h
  · cases h
  · cases hdrop : p.dropWhile (· != '=') with
    | nil =>
      rw [hdrop] at h
      cases h
    | cons c val =>
      rw [hdrop] at h
      dsimp only at h
      split at h
      · next hkey =>
        obtain rfl := Option.some.inj h
        refine ⟨hkey, fun hmem => hline (hsubset ?_)⟩
        have hval : '\n' ∈ p.dropWhile (· != '=') :=
          hdrop ▸ List.mem_cons_of_mem _ (unquote_subset val hmem)
        exact (List.dropWhile_suffix _).subset hval
      · cases h

theorem isVar_of_mem_parseEnvFile {text : Text} : ∀ v ∈ parseEnvFile text, IsVar v := by
  intro v hv
  obtain ⟨line, hline, hparse⟩ := List.mem_filterMap.1 hv
  exact isVar_of_parseEnvLine (not_mem_of_mem_splitOn hline) hparse

instance (v : EnvVar) : Decidable (IsVar v) :=
  decidable_of_iff (isEnvKey v.key = true ∧ '\n' ∉ v.value)
    ⟨fun h => ⟨h.1, h.2⟩, fun h => ⟨h.key, h.value⟩⟩

theorem isVar_of_mem_injected {android : Bool} {cfg : DsConfig} :
    ∀ v ∈ injected android cfg, IsVar v ∧ '\'' ∉ v.value := by
  have hall : ∀ v ∈ x11Vars ++ waylandVars ++ virglVars ++ pulseVars,
      IsVar v ∧ '\'' ∉ v.value := by
    decide +kernel
  intro v hv
  refine hall v ?_
  have hsub : ∀ (b : Bool) (vars : List EnvVar), (if b then vars else []) ⊆ vars := by
    intro b vars
    cases b with
    | true => exact List.Subset.refl vars
    | false => exact List.nil_subset vars
  simp only [injected, List.mem_append] at hv ⊢
  rcases hv with ((hv | hv) | hv) | hv
  · exact Or.inl (Or.inl (Or.inl (hsub _ _ hv)))
  · exact Or.inl (Or.inl (Or.inr (hsub _ _ hv)))
  · exact Or.inl (Or.inr (hsub _ _ hv))
  · exact Or.inr (hsub _ _ hv)

theorem count_escape (val : Text) : (escape val).count '\'' = 3 * val.count '\'' := by
  induction val with
  | nil => rfl
  | cons c val ih =>
    unfold escape at ih ⊢
    rw [List.flatMap_cons, List.count_append, ih, List.count_cons]
    by_cases hc : c = '\''
    · have hthree : "'\\''".toList.count '\'' = 3 := by decide
      rw [if_pos hc, hthree, if_pos (by simp [hc])]
      omega
    · rw [if_neg hc, if_neg (by simpa using hc), List.count_cons, List.count_nil,
        if_neg (by simpa using hc)]
      omega

theorem escape_eq_self {val : Text} (h : '\'' ∉ val) : escape val = val := by
  induction val with
  | nil => rfl
  | cons c val ih =>
    have hc : c ≠ '\'' := fun heq => h (heq ▸ List.mem_cons_self)
    have hrest := ih fun hmem => h (List.mem_cons_of_mem _ hmem)
    unfold escape at hrest ⊢
    rw [List.flatMap_cons, if_neg hc, hrest]
    rfl

theorem not_mem_escape {val : Text} (h : '\n' ∉ val) : '\n' ∉ escape val := by
  intro hmem
  obtain ⟨c, hc, hin⟩ := List.mem_flatMap.1 hmem
  split at hin
  · exact absurd hin (by decide)
  · obtain rfl := List.mem_singleton.1 hin
    exact h hc

/-- There is nothing to quote in the value, and only one `export ` to cut off. -/
def ComesBack (v : EnvVar) : Prop := '\'' ∉ v.value ∧ IsWhole v

theorem left_escape_iff {v : EnvVar} (hv : IsVar v) :
    left { v with value := escape v.value } = v.value ↔ ComesBack v := by
  have hesc : IsVar { v with value := escape v.value } := ⟨hv.key, not_mem_escape hv.value⟩
  obtain ⟨herased, -, hwhole⟩ := left_spec hesc
  by_cases hquote : '\'' ∈ v.value
  · refine iff_of_false (fun heq => ?_) fun h => h.1 hquote
    have hcount := herased.count_eq (x := '\'') (by decide)
    have hpos := List.count_pos_iff.2 hquote
    rw [heq] at hcount
    dsimp only at hcount
    rw [count_escape] at hcount
    omega
  · have hself : ({ v with value := escape v.value } : EnvVar) = v := by
      rw [escape_eq_self hquote]
    rw [hself] at hwhole ⊢
    rw [hwhole, ComesBack]
    simp [hquote]

/-- **An environment comes back exactly under this condition.** -/
theorem parse_restored_iff {android : Bool} {cfg : DsConfig} {env : List EnvVar}
    (h : ∀ v ∈ env, IsVar v) :
    parseEnvFile (writePlainEnvFile (dsEnvSave android cfg env)) = env ↔
      injected android cfg = [] ∧ ∀ v ∈ env, ComesBack v := by
  let written (v : EnvVar) : EnvVar := { v with value := escape v.value }
  have hitems : ∀ v ∈ env.map written ++ injected android cfg, IsVar v := by
    intro v hv
    rcases List.mem_append.1 hv with hv | hv
    · obtain ⟨u, hu, rfl⟩ := List.mem_map.1 hv
      exact ⟨(h u hu).key, not_mem_escape (h u hu).value⟩
    · exact (isVar_of_mem_injected v hv).1
  have hparse : parseEnvFile (writePlainEnvFile (dsEnvSave android cfg env)) =
      (env.map written ++ injected android cfg).map fun v => ⟨v.key, left v⟩ := by
    rw [← parseEnvFile_restored hitems, List.flatMap_append]
    rfl
  rw [hparse, List.map_append, List.map_map]
  constructor
  · intro heq
    have hnone : injected android cfg = [] := by
      have hlen := congrArg List.length heq
      simp only [List.length_append, List.length_map] at hlen
      exact List.length_eq_zero_iff.1 (by omega)
    refine ⟨hnone, fun v hv => (left_escape_iff (h v hv)).1 ?_⟩
    rw [hnone, List.map_nil, List.append_nil] at heq
    have hsame := List.map_eq_map_iff.1 (heq.trans (List.map_id env).symm) v hv
    exact congrArg EnvVar.value hsame
  · rintro ⟨hnone, hall⟩
    rw [hnone, List.map_nil, List.append_nil]
    conv_rhs => rw [← List.map_id env]
    refine List.map_congr_left fun v hv => ?_
    have hvalue := (left_escape_iff (h v hv)).2 (hall v hv)
    exact congrArg (EnvVar.mk v.key) hvalue

/-! ## The file that boot writes, read as it is -/

/-- Each variable comes back with its quotes still in pieces. -/
theorem parseEnvFile_exported {items : List EnvVar} (h : ∀ v ∈ items, IsVar v) :
    parseEnvFile (items.flatMap exportLine) = items := by
  induction items with
  | nil => rfl
  | cons v items ih =>
    have hv := h v List.mem_cons_self
    have hkey : '\n' ∉ v.key := hv.not_mem_key rfl (by decide)
    have hbody : '\n' ∉ exportPrefix ++ (v.key ++ '=' :: '\'' :: (v.value ++ ['\''])) := by
      simp only [List.mem_append, List.mem_cons, not_or]
      exact ⟨by decide, hkey, by decide, by decide, hv.value, by decide, List.not_mem_nil⟩
    rw [List.flatMap_cons, exportLine_eq, List.append_assoc, List.singleton_append,
      parseEnvFile_line hbody, parseEnvLine_export hv,
      ih fun u hu => h u (List.mem_cons_of_mem _ hu)]
    rfl

/-- The shell takes the quotes back together, the parser does not. -/
theorem parseEnvFile_saved {android : Bool} {cfg : DsConfig} {env : List EnvVar}
    (hinjected : injected android cfg = []) (h : ∀ v ∈ env, IsVar v) :
    parseEnvFile (dsEnvSave android cfg env) =
      env.map fun v => { v with value := escape v.value } := by
  have hitems : ∀ v ∈ env.map fun v => { v with value := escape v.value }, IsVar v := by
    intro v hv
    obtain ⟨u, hu, rfl⟩ := List.mem_map.1 hv
    exact ⟨(h u hu).key, not_mem_escape (h u hu).value⟩
  rw [dsEnvSave, hinjected, List.flatMap_nil, List.append_nil, parseEnvFile_exported hitems]

theorem escape_eq_self_iff {val : Text} : escape val = val ↔ '\'' ∉ val := by
  refine ⟨fun heq hquote => ?_, escape_eq_self⟩
  have hcount := count_escape val
  have hpos := List.count_pos_iff.2 hquote
  rw [heq] at hcount
  omega

/-- **The saved file reads as the variables it was written from exactly when no value has a single
quote**, whichever files they were taken from. -/
theorem parseEnvFile_saved_iff {android : Bool} {cfg : DsConfig}
    (hinjected : injected android cfg = []) (texts : List Text) :
    parseEnvFile (dsEnvSave android cfg (texts.flatMap parseEnvFile)) =
        texts.flatMap parseEnvFile ↔
      ∀ v ∈ texts.flatMap parseEnvFile, '\'' ∉ v.value := by
  have hvars : ∀ v ∈ texts.flatMap parseEnvFile, IsVar v := by
    intro v hv
    obtain ⟨text, -, hmem⟩ := List.mem_flatMap.1 hv
    exact isVar_of_mem_parseEnvFile v hmem
  rw [parseEnvFile_saved hinjected hvars]
  constructor
  · intro heq v hv
    have hsame := List.map_eq_map_iff.1 (heq.trans (List.map_id _).symm) v hv
    exact escape_eq_self_iff.1 (congrArg EnvVar.value hsame)
  · intro hplain
    conv_rhs => rw [← List.map_id (texts.flatMap parseEnvFile)]
    refine List.map_congr_left fun v hv => ?_
    exact congrArg (EnvVar.mk v.key) (escape_eq_self (hplain v hv))

theorem parseEnvFile_saved_plain :
    injected false defaults = [] ∧
      parseEnvFile (dsEnvSave false defaults (["A=b\"c=".toList].flatMap parseEnvFile)) =
        ["A=b\"c=".toList].flatMap parseEnvFile := by
  have hnone : injected false defaults = [] := rfl
  refine ⟨hnone, (parseEnvFile_saved_iff hnone _).2 ?_⟩
  decide +kernel

theorem parseEnvFile_saved_quote :
    ["MOTD=it's".toList].flatMap parseEnvFile = [⟨"MOTD".toList, "it's".toList⟩] ∧
      parseEnvFile (dsEnvSave false defaults (["MOTD=it's".toList].flatMap parseEnvFile)) =
        [⟨"MOTD".toList, "it'\\''s".toList⟩] ∧
      parseEnvFile (dsEnvSave false defaults (["MOTD=it's".toList].flatMap parseEnvFile)) ≠
        ["MOTD=it's".toList].flatMap parseEnvFile := by
  decide +kernel

end Droidspaces.Config
