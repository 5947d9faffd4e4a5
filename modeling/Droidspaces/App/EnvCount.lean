import Droidspaces.App.WaylandSocket
import Droidspaces.Config.Environment
import Droidspaces.Config.Pieces
import Mathlib.Algebra.Order.BigOperators.Group.List
import Mathlib.Algebra.Order.Group.Nat

/-!
# The variables that the app counts

`countEnvVars` tells the user how many variables of an env file the backend will load, by
`envLineKey`, which is written after `parse_env_file_to_config`.  The two break and trim lines each
in its own way, and the dot of the regular expression stops at separators that the backend has
never heard of.  `countsAlike_iff` says which texts they read alike.
-/

namespace Droidspaces.EnvCount

open Config (EnvVar IsVar exportPrefix stripExport isEnvKey unquote isTabOrSpace cString
  parseEnvLine parseEnvFile stripExport_append rdropWhile_append_of_pos rdropWhile_append_cons)
open ConfigContent (utf8 isWhitespace utf8_append utf8_cons utf8_singleton
  ascii_not_mem_utf8_singleton)
open WaylandSocket (trim)

/-! ## The backend -/

/-- `parse_env_file_to_config`, from the blanks of a line on. -/
def envVar (line : Text) : Option EnvVar :=
  let p := line.dropWhile isTabOrSpace
  if p.isEmpty || p.head? == some '#' then none
  else
    let p := stripExport p
    match p.dropWhile (· != '=') with
    | [] => none
    | _ :: val =>
      let key := p.takeWhile (· != '=')
      if isEnvKey key then some ⟨key, unquote val⟩ else none

/-- `getline` keeps the NULs of a line, and the string ends at the first. -/
def loadEnvLine (line : Text) : Option EnvVar := envVar (cString (line.rdropWhile (· == '\r')))

/-- The variables of `parse_env_file_to_config`. -/
def loadEnvFile (bytes : Text) : List EnvVar := (bytes.splitOn '\n').filterMap loadEnvLine

theorem loadEnvFile_eq {bytes : Text} (h : '\x00' ∉ bytes) :
    loadEnvFile bytes = parseEnvFile bytes := by
  refine List.filterMap_congr fun line hline => ?_
  have hnul : '\x00' ∉ line.rdropWhile (· == '\r') := fun hmem =>
    h ((Config.isInfix_of_mem_splitOn hline).subset ((List.rdropWhile_prefix _ _).subset hmem))
  rw [loadEnvLine, Config.cString_eq_self hnul]
  rfl

/-! ## The app -/

/-- What a dot does not match. -/
def isLineTerminator (c : Char) : Bool :=
  c == '\n' || c == '\r' || c.toNat == 0x85 || c.toNat == 0x2028 || c.toNat == 0x2029

/-- `ENV_LINE.matchEntire(l)`, the first group. -/
def matchEnvLine (l : Text) : Option Text :=
  match l.dropWhile (· != '=') with
  | [] => none
  | _ :: val =>
    let key := l.takeWhile (· != '=')
    if isEnvKey key && val.all (!isLineTerminator ·) then some key else none

/-- `removePrefix` is what the backend does with `export `. -/
def envLineKey (line : Text) : Option Text :=
  let l := stripExport (trim line)
  if l.isEmpty || l.head? == some '#' then none else matchEnvLine l

/-- `CharSequence.lines()`: a carriage return breaks a line too, once with its newline. -/
def lines : Text → List Text
  | [] => [[]]
  | c :: t =>
    if c = '\r' ∧ t.head? = some '\n' then lines t
    else if c = '\n' ∨ c = '\r' then [] :: lines t
    else (lines t).modifyHead (c :: ·)

def countEnvVars : Option Text → ℕ
  | none => 0
  | some content => (lines content).countP fun line => (envLineKey line).isSome

/-! ## What sets a variable -/

/-- Blanks, `export ` or not, a key and its value. -/
def IsSetting (blank : Char → Bool) (line key val : Text) : Prop :=
  isEnvKey key = true ∧ ∃ front lead, (∀ c ∈ front, blank c = true) ∧
    (lead = [] ∨ lead = exportPrefix) ∧ line = front ++ (lead ++ (key ++ '=' :: val))

/-- No separator of lines before the whitespace at the end. -/
def IsUnbroken (val : Text) : Prop := ∀ c ∈ val.rdropWhile isWhitespace, isLineTerminator c = false

/-- What is promised of a text. -/
structure CountsAlike (text : Text) : Prop where
  count : countEnvVars (some text) = (loadEnvFile (utf8 text)).length
  keys : ∀ line ∈ text.splitOn '\n', ∀ v, loadEnvLine (utf8 line) = some v →
    envLineKey line = some v.key

/-- The lines of the backend that set a variable have an unbroken value, and those that set none do
not look as if they did between their carriage returns. -/
def IsToldAlike (text : Text) : Prop := ∀ line ∈ text.splitOn '\n',
  (∀ key val, IsSetting isTabOrSpace line key val → IsUnbroken val) ∧
  ((∀ key val, ¬IsSetting isTabOrSpace line key val) →
    ∀ piece ∈ line.splitOn '\r', ∀ key val, IsSetting isWhitespace piece key val → ¬IsUnbroken val)

/-- The key and the value, read off. -/
def setting (p : Text) : Option (Text × Text) :=
  match (stripExport p).dropWhile (· != '=') with
  | [] => none
  | _ :: val =>
    let key := (stripExport p).takeWhile (· != '=')
    if isEnvKey key then some (key, val) else none

section Setting

variable {key val : Text}

theorem not_mem_of_isEnvKey (hkey : isEnvKey key = true) {c : Char} (hc : c.isAlphanum = false)
    (hne : c ≠ '_') : c ∉ key :=
  (IsVar.mk (v := ⟨key, []⟩) hkey List.not_mem_nil).not_mem_key hc hne

theorem exists_cons_of_isEnvKey (hkey : isEnvKey key = true) :
    ∃ c cs, key = c :: cs ∧ (c.isAlpha = true ∨ c = '_') := by
  cases key with
  | nil => cases hkey
  | cons c cs =>
    simp only [isEnvKey, Bool.and_eq_true, Bool.or_eq_true, beq_iff_eq] at hkey
    exact ⟨c, cs, rfl, hkey.1⟩

theorem ascii_of_mem_key (hkey : isEnvKey key = true) {c : Char} (hc : c ∈ key) :
    c.toNat < 128 ∧ c ≠ '\x00' := by
  have hnul : c ≠ '\x00' := fun heq =>
    not_mem_of_isEnvKey hkey rfl (by decide) (c := '\x00') (heq ▸ hc)
  refine ⟨?_, hnul⟩
  by_contra hge
  refine not_mem_of_isEnvKey hkey ?_ ?_ hc
  · rw [← Bool.not_eq_true]
    intro halnum
    exact hge (Gateway.toNat_lt_of_isIfaceChar (by simp [Gateway.isIfaceChar, halnum]))
  · rintro rfl
    exact hge (by decide)

theorem stripExport_eq_iff (hkey : isEnvKey key = true) {p : Text} :
    stripExport p = key ++ '=' :: val ↔
      ∃ lead, (lead = [] ∨ lead = exportPrefix) ∧ p = lead ++ (key ++ '=' :: val) := by
  constructor
  · intro h
    unfold stripExport at h
    split at h
    · next hpre =>
      obtain ⟨rest, rfl⟩ := List.isPrefixOf_iff_prefix.1 hpre
      rw [List.drop_left' (by decide)] at h
      exact ⟨exportPrefix, Or.inr rfl, by rw [h]⟩
    · exact ⟨[], Or.inl rfl, h⟩
  · rintro ⟨lead, rfl | rfl, rfl⟩
    · exact (IsVar.mk (v := ⟨key, []⟩) hkey List.not_mem_nil).stripExport_key val
    · exact stripExport_append _

theorem setting_eq_some_iff {p : Text} :
    setting p = some (key, val) ↔ isEnvKey key = true ∧ stripExport p = key ++ '=' :: val := by
  unfold setting
  constructor
  · intro h
    cases hdrop : (stripExport p).dropWhile (· != '=') with
    | nil =>
      rw [hdrop] at h
      cases h
    | cons c rest =>
      rw [hdrop] at h
      dsimp only at h
      split at h
      · next hkey =>
        obtain ⟨rfl, rfl⟩ := Prod.mk.inj (Option.some.inj h)
        have hc : c = '=' := by
          have hhead := List.head_dropWhile_not (· != '=') (l := stripExport p) (by simp [hdrop])
          simpa [hdrop] using hhead
        have hwhole := List.takeWhile_append_dropWhile (p := (· != '=')) (l := stripExport p)
        rw [hdrop, hc] at hwhole
        exact ⟨hkey, hwhole.symm⟩
      · cases h
  · rintro ⟨hkey, h⟩
    have hall : ∀ c ∈ key, (c != '=') = true := fun c hc =>
      bne_iff_ne.2 fun heq => not_mem_of_isEnvKey hkey rfl (by decide) (heq ▸ hc)
    rw [h, List.dropWhile_append_of_pos hall, List.takeWhile_append_of_pos hall]
    simp [hkey]

/-- A blank for which `setting_iff` reads a key off: it does not occur in one. -/
def IsBlank (blank : Char → Bool) : Prop :=
  blank '=' = false ∧ ∀ c : Char, c.isAlpha = true ∨ c = '_' → blank c = false

theorem isBlank_isTabOrSpace : IsBlank isTabOrSpace := by
  refine ⟨by decide, ?_⟩
  rintro c (hc | rfl)
  · have hne : c ≠ ' ' ∧ c ≠ '\t' := by
      constructor <;> rintro rfl <;> exact absurd hc (by decide)
    simp [isTabOrSpace, hne]
  · decide

theorem isBlank_isWhitespace : IsBlank isWhitespace := by
  refine ⟨by decide, ?_⟩
  rintro c (hc | rfl)
  · have hletter := Config.toNat_of_isAlpha hc
    simp only [isWhitespace, Bool.or_eq_false_iff, Bool.and_eq_false_iff, decide_eq_false_iff_not,
      beq_eq_false_iff_ne]
    omega
  · decide

section Blank

variable {blank : Char → Bool} {line : Text}

theorem setting_iff (hblank : IsBlank blank) :
    IsSetting blank line key val ↔ setting (line.dropWhile blank) = some (key, val) := by
  rw [setting_eq_some_iff]
  refine and_congr_right fun hkey => ?_
  rw [stripExport_eq_iff hkey]
  constructor
  · rintro ⟨front, lead, hfront, hlead, rfl⟩
    refine ⟨lead, hlead, ?_⟩
    rw [List.dropWhile_append_of_pos hfront]
    obtain ⟨c, cs, rfl, hc⟩ := exists_cons_of_isEnvKey hkey
    rcases hlead with rfl | rfl
    · exact List.dropWhile_cons_of_neg (by simp [hblank.2 c hc])
    · have he : blank 'e' = false := hblank.2 'e' (Or.inl (by decide))
      exact List.dropWhile_cons_of_neg (a := 'e') (by rw [he]; exact Bool.false_ne_true)
  · rintro ⟨lead, hlead, hline⟩
    refine ⟨line.takeWhile blank, lead, fun c hc => List.mem_takeWhile_imp hc, hlead, ?_⟩
    rw [← hline, List.takeWhile_append_dropWhile]

theorem isSetting_mono {blank' : Char → Bool} (hle : ∀ c, blank c = true → blank' c = true)
    (h : IsSetting blank line key val) : IsSetting blank' line key val := by
  obtain ⟨hkey, front, lead, hfront, hlead, hline⟩ := h
  exact ⟨hkey, front, lead, fun c hc => hle c (hfront c hc), hlead, hline⟩

end Blank

end Setting

/-! ## What the backend takes -/

theorem setting_comment (t : Text) : setting ('#' :: t) = none := by
  refine Option.eq_none_iff_forall_ne_some.2 fun s hs => ?_
  obtain ⟨hkey, hstrip⟩ := setting_eq_some_iff.1 hs
  obtain ⟨lead, rfl | rfl, hline⟩ := (stripExport_eq_iff hkey).1 hstrip
  · obtain ⟨c, cs, hcons, hc⟩ := exists_cons_of_isEnvKey hkey
    rw [hcons] at hline
    obtain rfl : '#' = c := (List.cons.inj hline).1
    exact absurd hc (by decide)
  · exact absurd (List.cons.inj hline).1 (by decide)

theorem envVar_eq (line : Text) :
    envVar line = (setting (line.dropWhile isTabOrSpace)).map fun s => ⟨s.1, unquote s.2⟩ := by
  unfold envVar
  generalize line.dropWhile isTabOrSpace = p
  dsimp only
  split
  · next hskip =>
    have hnone : setting p = none := by
      cases p with
      | nil => rfl
      | cons c t =>
        obtain rfl : c = '#' := by simpa using hskip
        exact setting_comment t
    rw [hnone]
    rfl
  · unfold setting
    cases (stripExport p).dropWhile (· != '=') with
    | nil => rfl
    | cons c val =>
      dsimp only
      split <;> rfl

theorem exists_isSetting_iff {blank : Char → Bool} {key line : Text} :
    (∃ val, IsSetting blank line key val) ↔ isEnvKey key = true ∧ ∃ front lead,
      (∀ c ∈ front, blank c = true) ∧ (lead = [] ∨ lead = exportPrefix) ∧
        front ++ (lead ++ key) ++ ['='] <+: line := by
  constructor
  · rintro ⟨val, hkey, front, lead, hfront, hlead, rfl⟩
    exact ⟨hkey, front, lead, hfront, hlead, val, by simp⟩
  · rintro ⟨hkey, front, lead, hfront, hlead, val, rfl⟩
    exact ⟨val, hkey, front, lead, hfront, hlead, by simp⟩

theorem prefix_utf8 {start : Text} (h : ∀ c ∈ start, c.toNat < 128) {t : Text} :
    start <+: utf8 t ↔ start <+: t := by
  induction start generalizing t with
  | nil => exact iff_of_true List.nil_prefix List.nil_prefix
  | cons c start ih =>
    obtain ⟨hc, hstart⟩ := List.forall_mem_cons.1 h
    cases t with
    | nil => exact Iff.rfl
    | cons d t =>
      rw [utf8_cons, List.cons_prefix_cons]
      by_cases hd : d.toNat < 128
      · rw [utf8_singleton hd, List.singleton_append, List.cons_prefix_cons, ih hstart]
      · have hc' := ascii_not_mem_utf8_singleton (c := d) (by omega) hc
        refine iff_of_false (fun hpre => hc' ?_) fun hpre => hd (hpre.1 ▸ hc)
        cases hbytes : utf8 [d] with
        | nil =>
          rw [utf8, List.flatMap_singleton, List.map_eq_nil_iff] at hbytes
          exact absurd hbytes String.utf8EncodeChar_ne_nil
        | cons b bs =>
          rw [hbytes, List.cons_append, List.cons_prefix_cons] at hpre
          exact hpre.1 ▸ List.mem_cons_self

theorem prefix_cString {start : Text} (h : '\x00' ∉ start) {t : Text} :
    start <+: cString t ↔ start <+: t := by
  refine ⟨fun hpre => hpre.trans (List.takeWhile_prefix _), ?_⟩
  rintro ⟨rest, rfl⟩
  have hall : ∀ c ∈ start, (c != '\x00') = true := fun c hc => bne_iff_ne.2 fun heq => h (heq ▸ hc)
  rw [cString, List.takeWhile_append_of_pos hall]
  exact List.prefix_append _ _

theorem prefix_rdropWhile {p : Char → Bool} {c : Char} (hc : p c = false) {start t : Text} :
    start ++ [c] <+: t.rdropWhile p ↔ start ++ [c] <+: t := by
  refine ⟨fun hpre => hpre.trans (List.rdropWhile_prefix _ _), ?_⟩
  rintro ⟨rest, rfl⟩
  rw [List.append_assoc, List.singleton_append, rdropWhile_append_cons hc]
  exact ⟨rest.rdropWhile p, by simp⟩

theorem exists_loadEnvLine_iff {key line : Text} :
    (∃ value, loadEnvLine (utf8 line) = some ⟨key, value⟩) ↔
      ∃ val, IsSetting isTabOrSpace line key val := by
  have hloaded : (∃ value, loadEnvLine (utf8 line) = some ⟨key, value⟩) ↔
      ∃ val, IsSetting isTabOrSpace (cString ((utf8 line).rdropWhile (· == '\r'))) key val := by
    simp only [setting_iff isBlank_isTabOrSpace]
    rw [loadEnvLine, envVar_eq]
    constructor
    · rintro ⟨value, h⟩
      obtain ⟨⟨_, val⟩, hs, heq⟩ := Option.map_eq_some_iff.1 h
      obtain rfl := (EnvVar.mk.inj heq).1
      exact ⟨val, hs⟩
    · rintro ⟨val, hs⟩
      exact ⟨unquote val, by rw [hs]; rfl⟩
  rw [hloaded, exists_isSetting_iff, exists_isSetting_iff]
  refine and_congr_right fun hkey => exists_congr fun front => exists_congr fun lead =>
    and_congr_right fun hfront => and_congr_right fun hlead => ?_
  have hascii : ∀ c ∈ front ++ (lead ++ key) ++ ['='], c.toNat < 128 ∧ c ≠ '\x00' := by
    intro c hc
    simp only [List.mem_append, List.mem_singleton] at hc
    rcases hc with (hc | hc | hc) | rfl
    · rcases (by simpa [isTabOrSpace] using hfront c hc : c = ' ' ∨ c = '\t') with rfl | rfl <;>
        decide
    · rcases hlead with rfl | rfl
      · cases hc
      · have hall : exportPrefix.all (fun c => decide (c.toNat < 128 ∧ c ≠ '\x00')) = true := by
          decide
        exact of_decide_eq_true (List.all_eq_true.1 hall c hc)
    · exact ascii_of_mem_key hkey hc
    · decide
  rw [prefix_cString fun hmem => (hascii _ hmem).2 rfl, prefix_rdropWhile (by decide),
    prefix_utf8 fun c hc => (hascii c hc).1]

/-! ## What the app takes -/

theorem matchEnvLine_eq (l : Text) :
    matchEnvLine (stripExport l) = (setting l).bind fun s =>
      if s.2.all (!isLineTerminator ·) then some s.1 else none := by
  unfold matchEnvLine setting
  cases (stripExport l).dropWhile (· != '=') with
  | nil => rfl
  | cons c val =>
    dsimp only
    cases isEnvKey ((stripExport l).takeWhile (· != '=')) with
    | true => rfl
    | false => rfl

theorem envLineKey_eq (line : Text) :
    envLineKey line = (setting (trim line)).bind fun s =>
      if s.2.all (!isLineTerminator ·) then some s.1 else none := by
  unfold envLineKey
  dsimp only
  split
  · next hskip =>
    have hnone : matchEnvLine (stripExport (trim line)) = none := by
      cases hstrip : stripExport (trim line) with
      | nil => rfl
      | cons c t =>
        rw [hstrip] at hskip
        obtain rfl : c = '#' := by simpa using hskip
        have hkey : isEnvKey (('#' :: t).takeWhile (· != '=')) = false := rfl
        unfold matchEnvLine
        cases ('#' :: t).dropWhile (· != '=') with
        | nil => rfl
        | cons d val =>
          dsimp only
          rw [hkey]
          rfl
    rw [← matchEnvLine_eq, hnone]
  · exact matchEnvLine_eq (trim line)

section Trimmed

variable {key val line : Text}

theorem setting_trim_iff {w : Text} : setting (trim line) = some (key, w) ↔
    ∃ val, IsSetting isWhitespace line key val ∧ w = val.rdropWhile isWhitespace := by
  have hequals : isWhitespace '=' = false := isBlank_isWhitespace.1
  simp only [setting_iff isBlank_isWhitespace, setting_eq_some_iff]
  rw [trim]
  generalize line.dropWhile isWhitespace = p
  constructor
  · rintro ⟨hkey, h⟩
    obtain ⟨lead, hlead, htrim⟩ := (stripExport_eq_iff hkey).1 h
    obtain ⟨rest, hrest⟩ := List.rdropWhile_prefix isWhitespace p
    have hp : p = lead ++ (key ++ '=' :: (w ++ rest)) := by
      rw [← hrest, htrim]
      simp
    refine ⟨w ++ rest, ⟨hkey, (stripExport_eq_iff hkey).2 ⟨lead, hlead, hp⟩⟩, ?_⟩
    rw [hp, ← List.append_assoc, rdropWhile_append_cons hequals, List.append_assoc] at htrim
    simpa using htrim.symm
  · rintro ⟨val, ⟨hkey, h⟩, rfl⟩
    obtain ⟨lead, hlead, rfl⟩ := (stripExport_eq_iff hkey).1 h
    refine ⟨hkey, (stripExport_eq_iff hkey).2 ⟨lead, hlead, ?_⟩⟩
    rw [← List.append_assoc, rdropWhile_append_cons hequals, List.append_assoc]

theorem envLineKey_eq_some_iff :
    envLineKey line = some key ↔ ∃ val, IsSetting isWhitespace line key val ∧ IsUnbroken val := by
  rw [envLineKey_eq, Option.bind_eq_some_iff]
  constructor
  · rintro ⟨⟨k, w⟩, hs, h⟩
    dsimp only at h
    split at h
    · next hall =>
      obtain rfl := Option.some.inj h
      obtain ⟨val, hset, rfl⟩ := setting_trim_iff.1 hs
      exact ⟨val, hset, by simpa [IsUnbroken] using hall⟩
    · cases h
  · rintro ⟨val, hset, hunbroken⟩
    refine ⟨(key, val.rdropWhile isWhitespace), setting_trim_iff.2 ⟨val, hset, rfl⟩, if_pos ?_⟩
    simpa [IsUnbroken] using hunbroken

theorem IsSetting.unique {key' val' : Text} (h : IsSetting isWhitespace line key val)
    (h' : IsSetting isWhitespace line key' val') : key = key' ∧ val = val' := by
  have heq := ((setting_iff isBlank_isWhitespace).1 h).symm.trans
    ((setting_iff isBlank_isWhitespace).1 h')
  exact Prod.mk.inj (Option.some.inj heq)

theorem IsSetting.whitespace (h : IsSetting isTabOrSpace line key val) :
    IsSetting isWhitespace line key val := by
  refine isSetting_mono (fun c hc => ?_) h
  rcases (by simpa [isTabOrSpace] using hc : c = ' ' ∨ c = '\t') with rfl | rfl <;> decide

end Trimmed

/-! ## Lines and their pieces -/

/-- The lines of the backend, at their carriage returns. -/
def pieces (text : Text) : List Text := (text.splitOn '\n').flatMap (·.splitOn '\r')

theorem pieces_cons (c : Char) (t : Text) :
    pieces (c :: t) =
      if c = '\n' ∨ c = '\r' then [] :: pieces t else (pieces t).modifyHead (c :: ·) := by
  unfold pieces
  obtain ⟨line, others, hsplit⟩ := List.exists_cons_of_ne_nil (List.splitOn_ne_nil '\n' t)
  rw [List.splitOn_cons_eq_if_modifyHead]
  by_cases hnewline : c = '\n'
  · simp [hnewline]
  · rw [if_neg (by simpa using hnewline), hsplit, List.modifyHead_cons, List.flatMap_cons,
      List.flatMap_cons, List.splitOn_cons_eq_if_modifyHead]
    by_cases hreturn : c = '\r'
    · simp [hreturn]
    · rw [if_neg (by simpa using hreturn), if_neg (not_or.2 ⟨hnewline, hreturn⟩)]
      obtain ⟨piece, rest, hpiece⟩ := List.exists_cons_of_ne_nil (List.splitOn_ne_nil '\r' line)
      rw [hpiece]
      rfl

theorem countP_lines {p : Text → Bool} (hp : p [] = false) (text : Text) :
    (lines text).countP p = (pieces text).countP p := by
  have hrest : ∃ first ls ps, lines text = first :: ls ∧ pieces text = first :: ps ∧
      ls.countP p = ps.countP p := by
    induction text with
    | nil => exact ⟨[], [], [], rfl, rfl, rfl⟩
    | cons c t ih =>
      obtain ⟨first, ls, ps, hls, hps, hcount⟩ := ih
      rw [pieces_cons, lines]
      by_cases hpair : c = '\r' ∧ t.head? = some '\n'
      · -- the newline behind it breaks the line
        obtain ⟨rfl, hhead⟩ := hpair
        obtain ⟨t, rfl⟩ := List.head?_eq_some_iff.1 hhead
        rw [pieces_cons, if_pos (Or.inl rfl)] at hps
        obtain ⟨rfl, rfl⟩ := List.cons.inj hps
        rw [if_pos ⟨rfl, hhead⟩, if_pos (Or.inr rfl), pieces_cons, if_pos (Or.inl rfl)]
        refine ⟨[], ls, [] :: pieces t, hls, rfl, ?_⟩
        rw [List.countP_cons_of_neg (by simp [hp]), hcount]
      · rw [if_neg hpair, hls, hps]
        split
        · refine ⟨[], first :: ls, first :: ps, rfl, rfl, ?_⟩
          rw [List.countP_cons, List.countP_cons, hcount]
        · exact ⟨c :: first, ls, ps, rfl, rfl, hcount⟩
  obtain ⟨first, ls, ps, hls, hps, hcount⟩ := hrest
  rw [hls, hps, List.countP_cons, List.countP_cons, hcount]

theorem splitOn_utf8 (text : Text) : (utf8 text).splitOn '\n' = (text.splitOn '\n').map utf8 := by
  induction text using Config.lineInduction '\n' with
  | last line hline =>
    rw [List.splitOn_eq_singleton hline, List.splitOn_eq_singleton]
    · rfl
    · rwa [ConfigContent.mem_utf8 (by decide)]
  | cons line rest hline ih =>
    rw [List.splitOn_append_cons_self_of_not_mem hline, utf8_append, utf8_cons,
      utf8_singleton (by decide), List.singleton_append,
      List.splitOn_append_cons_self_of_not_mem, ih]
    · rfl
    · rwa [ConfigContent.mem_utf8 (by decide)]

/-- How many variables the app sees on a line of the backend. -/
def told (line : Text) : ℕ := (line.splitOn '\r').countP fun piece => (envLineKey piece).isSome

def loaded (line : Text) : ℕ := if (loadEnvLine (utf8 line)).isSome then 1 else 0

theorem countEnvVars_eq (text : Text) :
    countEnvVars (some text) = ((text.splitOn '\n').map told).sum := by
  rw [countEnvVars, countP_lines rfl, pieces, List.countP_flatMap]
  rfl

theorem length_loadEnvFile (text : Text) :
    (loadEnvFile (utf8 text)).length = ((text.splitOn '\n').map loaded).sum := by
  rw [loadEnvFile, splitOn_utf8, List.filterMap_map]
  induction text.splitOn '\n' with
  | nil => rfl
  | cons line others ih =>
    rw [List.map_cons, List.sum_cons, ← ih, List.filterMap_cons, Function.comp_apply, loaded]
    cases loadEnvLine (utf8 line) with
    | none => simp
    | some v => simp [Nat.add_comm]

section Line

variable {line : Text}

theorem envLineKey_eq_none {key : Text} (h : ∀ c ∈ line, isWhitespace c = true) :
    envLineKey line ≠ some key := by
  intro hkey
  obtain ⟨val, ⟨-, front, lead, -, -, rfl⟩, -⟩ := envLineKey_eq_some_iff.1 hkey
  exact absurd (h '=' (by simp)) (by decide)

/-- Whitespace behind a text does not give a piece with anything in it. -/
theorem splitOn_append_whitespace {s w : Text} (hs : '\r' ∉ s)
    (hw : ∀ c ∈ w, isWhitespace c = true) :
    ∃ w' rest, (s ++ w).splitOn '\r' = (s ++ w') :: rest ∧ (∀ c ∈ w', isWhitespace c = true) ∧
      ∀ piece ∈ rest, ∀ c ∈ piece, isWhitespace c = true := by
  by_cases hreturn : '\r' ∈ w
  · obtain ⟨w', rest, rfl, hw'⟩ := List.eq_append_cons_of_mem hreturn
    refine ⟨w', rest.splitOn '\r', ?_, fun c hc => hw c (List.mem_append_left _ hc), ?_⟩
    · rw [← List.append_assoc, List.splitOn_append_cons_self_of_not_mem]
      simp [hs, hw']
    · intro piece hpiece c hc
      refine hw c (List.mem_append_right _ (List.mem_cons_of_mem _ ?_))
      exact (Config.isInfix_of_mem_splitOn hpiece).subset hc
  · refine ⟨w, [], List.splitOn_eq_singleton ?_, hw, by simp⟩
    simp [hs, hreturn]

theorem told_eq_one {key val : Text} (h : IsSetting isTabOrSpace line key val)
    (hunbroken : IsUnbroken val) : told line = 1 := by
  have hw : ∀ c ∈ val.rtakeWhile isWhitespace, isWhitespace c = true :=
    fun c hc => List.mem_rtakeWhile_imp hc
  have hval : val.rdropWhile isWhitespace ++ val.rtakeWhile isWhitespace = val :=
    List.rdropWhile_append_rtakeWhile
  have hidem := List.rdropWhile_idempotent isWhitespace val
  unfold IsUnbroken at hunbroken
  obtain ⟨hkey, front, lead, hfront, hlead, rfl⟩ := h
  generalize val.rtakeWhile isWhitespace = w at hw hval
  generalize val.rdropWhile isWhitespace = body at hunbroken hval hidem
  subst hval
  have hreturn : '\r' ∉ front ++ (lead ++ (key ++ '=' :: body)) := by
    simp only [List.mem_append, List.mem_cons, not_or]
    refine ⟨fun hmem => absurd (hfront _ hmem) (by decide), ?_,
      not_mem_of_isEnvKey hkey rfl (by decide), by decide,
      fun hmem => absurd (hunbroken _ hmem) (by decide)⟩
    rcases hlead with rfl | rfl <;> decide
  obtain ⟨w', rest, hsplit, hw', hrest⟩ := splitOn_append_whitespace hreturn hw
  have hset : IsSetting isTabOrSpace (front ++ (lead ++ (key ++ '=' :: body)) ++ w') key
      (body ++ w') := ⟨hkey, front, lead, hfront, hlead, by simp⟩
  have hfirst : envLineKey (front ++ (lead ++ (key ++ '=' :: body)) ++ w') = some key := by
    refine envLineKey_eq_some_iff.2 ⟨body ++ w', hset.whitespace, ?_⟩
    rwa [IsUnbroken, rdropWhile_append_of_pos hw', hidem]
  have hnone : rest.countP (fun piece => (envLineKey piece).isSome) = 0 := by
    refine List.countP_eq_zero.2 fun piece hpiece hsome => ?_
    obtain ⟨k, hk⟩ := Option.isSome_iff_exists.1 hsome
    exact envLineKey_eq_none (hrest piece hpiece) hk
  have hline : front ++ (lead ++ (key ++ '=' :: (body ++ w))) =
      front ++ (lead ++ (key ++ '=' :: body)) ++ w := by
    simp
  rw [told, hline, hsplit, List.countP_cons, hnone, hfirst]
  rfl

/-- The key of a line that the backend loads is what the app says it is. -/
theorem keys_iff : (∀ v, loadEnvLine (utf8 line) = some v → envLineKey line = some v.key) ↔
    ∀ key val, IsSetting isTabOrSpace line key val → IsUnbroken val := by
  constructor
  · intro h key val hset
    obtain ⟨value, hload⟩ := exists_loadEnvLine_iff.2 ⟨val, hset⟩
    obtain ⟨val', hset', hunbroken⟩ := envLineKey_eq_some_iff.1 (h _ hload)
    rwa [(hset.whitespace.unique hset').2]
  · intro h v hload
    obtain ⟨val, hset⟩ := exists_loadEnvLine_iff.1 ⟨v.value, hload⟩
    exact envLineKey_eq_some_iff.2 ⟨val, hset.whitespace, h _ _ hset⟩

theorem loaded_eq_one {key val : Text} (h : IsSetting isTabOrSpace line key val) :
    loaded line = 1 := by
  obtain ⟨value, hload⟩ := exists_loadEnvLine_iff.2 ⟨val, h⟩
  rw [loaded, hload]
  rfl

theorem loaded_eq_zero (h : ∀ key val, ¬IsSetting isTabOrSpace line key val) :
    loaded line = 0 := by
  rw [loaded, if_neg]
  intro hsome
  obtain ⟨v, hload⟩ := Option.isSome_iff_exists.1 hsome
  obtain ⟨val, hset⟩ := exists_loadEnvLine_iff.1 ⟨v.value, hload⟩
  exact h _ _ hset

theorem told_eq_zero_iff : told line = 0 ↔ ∀ piece ∈ line.splitOn '\r',
    ∀ key val, IsSetting isWhitespace piece key val → ¬IsUnbroken val := by
  rw [told, List.countP_eq_zero]
  refine forall₂_congr fun piece _ => ?_
  constructor
  · intro h key val hset hunbroken
    exact h (Option.isSome_iff_exists.2 ⟨key, envLineKey_eq_some_iff.2 ⟨val, hset, hunbroken⟩⟩)
  · intro h hsome
    obtain ⟨key, hkey⟩ := Option.isSome_iff_exists.1 hsome
    obtain ⟨val, hset, hunbroken⟩ := envLineKey_eq_some_iff.1 hkey
    exact h key val hset hunbroken

/-- Given the keys, the app never counts too few, and it counts right under this condition. -/
theorem loaded_le_told
    (h : ∀ key val, IsSetting isTabOrSpace line key val → IsUnbroken val) :
    loaded line ≤ told line ∧ (told line = loaded line ↔
      ((∀ key val, ¬IsSetting isTabOrSpace line key val) → told line = 0)) := by
  by_cases hset : ∃ key val, IsSetting isTabOrSpace line key val
  · obtain ⟨key, val, hset⟩ := hset
    rw [loaded_eq_one hset, told_eq_one hset (h key val hset)]
    exact ⟨Nat.le_refl _, iff_of_true rfl fun hnone => absurd hset (hnone key val)⟩
  · have hnone : ∀ key val, ¬IsSetting isTabOrSpace line key val :=
      fun key val h => hset ⟨key, val, h⟩
    rw [loaded_eq_zero hnone]
    exact ⟨Nat.zero_le _, fun h _ => h, fun h => h hnone⟩

end Line

theorem sum_map_eq_iff {α : Type} {f g : α → ℕ} {l : List α} (hle : ∀ a ∈ l, g a ≤ f a) :
    (l.map f).sum = (l.map g).sum ↔ ∀ a ∈ l, f a = g a := by
  induction l with
  | nil => simp
  | cons a l ih =>
    obtain ⟨ha, hl⟩ := List.forall_mem_cons.1 hle
    have hsum : (l.map g).sum ≤ (l.map f).sum := List.sum_le_sum hl
    rw [List.map_cons, List.map_cons, List.sum_cons, List.sum_cons, List.forall_mem_cons, ← ih hl]
    omega

/-- **The app counts and names the variables that the backend loads exactly under this
condition.** -/
theorem countsAlike_iff (text : Text) : CountsAlike text ↔ IsToldAlike text := by
  have hkeys : (∀ line ∈ text.splitOn '\n', ∀ v, loadEnvLine (utf8 line) = some v →
      envLineKey line = some v.key) ↔ ∀ line ∈ text.splitOn '\n',
        ∀ key val, IsSetting isTabOrSpace line key val → IsUnbroken val :=
    forall₂_congr fun _ _ => keys_iff
  rw [IsToldAlike, forall₂_and, ← hkeys]
  constructor
  · rintro ⟨hcount, h⟩
    have hunbroken := hkeys.1 h
    rw [countEnvVars_eq, length_loadEnvFile,
      sum_map_eq_iff fun line hline => (loaded_le_told (hunbroken line hline)).1] at hcount
    exact ⟨h, fun line hline hnone => told_eq_zero_iff.1
      ((loaded_le_told (hunbroken line hline)).2.1 (hcount line hline) hnone)⟩
  · rintro ⟨h, hplain⟩
    have hunbroken := hkeys.1 h
    refine ⟨?_, h⟩
    rw [countEnvVars_eq, length_loadEnvFile,
      sum_map_eq_iff fun line hline => (loaded_le_told (hunbroken line hline)).1]
    exact fun line hline => (loaded_le_told (hunbroken line hline)).2.2
      fun hnone => told_eq_zero_iff.2 (hplain line hline hnone)

/-- Two lines for the app, one variable for the backend. -/
theorem not_countsAlike_return : ¬CountsAlike "A=1\rB=2".toList := by
  intro h
  exact absurd h.count (by decide +kernel)

end Droidspaces.EnvCount
