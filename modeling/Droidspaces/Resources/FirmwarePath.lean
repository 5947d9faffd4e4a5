import Droidspaces.Config.Entries
import Droidspaces.Resources.HostSettings

/-!
# The text of the firmware search path

The kernel keeps the search path as one string of at most 255 characters, and the runtime edits
that string in buffers of 256.  `fw_remove_token` walks over it and builds it anew without one
entry; `firmwarePathAdd_fwText` and `firmwarePathRemove_fwText` say that the edits are those of
the list of its entries.
-/

namespace Droidspaces.FirmwarePath

/-! ## The code -/

/-- What `while (*p)` comes to, from one comma to the next; `seg` is what lies behind the last
comma. -/
def segmentsFrom (seg : Text) : Text → List Text
  | [] => if seg = [] then [] else [seg]
  | c :: p => if c = ',' then seg :: segmentsFrom [] p else segmentsFrom (seg ++ [c]) p

def segments (buf : Text) : List Text := segmentsFrom [] buf

/-- `strncat` of at most `n` characters. -/
def strncat (out text : Text) (n : ℕ) : Text := out ++ text.take n

/-- `out` and `first` -/
structure Rebuilt where
  out : Text
  first : Bool

/-- A segment is kept if it is not the token, of the same length and the same in every byte. -/
def Rebuilt.keep (token : Text) (outSize : ℕ) (r : Rebuilt) (seg : Text) : Rebuilt :=
  if seg = token then r
  else
    let out := if r.first then r.out else strncat r.out [','] (outSize - r.out.length - 1)
    { out := strncat out seg (min seg.length (outSize - out.length - 1))
      first := false }

/-- `fw_remove_token`: the length of what was built, and this. -/
def fwRemoveToken (buf token : Text) (outSize : ℕ) : ℕ × Text :=
  let out := ((segments buf).foldl (Rebuilt.keep token outSize) ⟨[], true⟩).out
  (out.length, out)

/-- `safe_strncpy` -/
def safeStrncpy (text : Text) (size : ℕ) : Text := text.take (size - 1)

/-- `new_path` of `firmware_path_add`, if it comes to the end. -/
def newPath (fwPath current : Text) : Option Text :=
  if (segments current).contains fwPath then none
  else if current ≠ [] then
    if fwPathBufSize < fwPath.length + 1 + current.length + 1 then none
    else
      let path := safeStrncpy fwPath fwPathBufSize
      let path := strncat path [','] (fwPathBufSize - path.length - 1)
      some (strncat path current (fwPathBufSize - path.length - 1))
  else some (safeStrncpy fwPath fwPathBufSize)

/-- `current`: the kernel shows its string and a newline. -/
def current (param : Text) : Text := readFile fwPathBufSize (param ++ ['\n'])

/-- What is done to the string of the kernel, where there is one. -/
def firmwarePathAdd (android present : Bool) (fwPath : Text) (param : Option Text) : Option Text :=
  if !android then param
  else if !present then param
  else param.map fun s => (newPath fwPath (current s)).getD s

def firmwarePathRemove (android : Bool) (fwPath : Text) (param : Option Text) : Option Text :=
  if !android then param
  else
    param.map fun s =>
      let new := fwRemoveToken (current s) fwPath fwPathBufSize
      if new.1 = 0 then s else new.2

/-! ## Entries and their text -/

/-- The entries of a search path. -/
def IsPath (path : List Text) : Prop := ∀ entry ∈ path, entry ≠ [] ∧ ',' ∉ entry

theorem IsPath.cons {path : List Text} (h : IsPath path) {entry : Text}
    (hentry : entry ≠ [] ∧ ',' ∉ entry) : IsPath (entry :: path) :=
  List.forall_mem_cons.2 ⟨hentry, h⟩

@[simp] theorem fwText_nil : fwText [] = [] := rfl

@[simp] theorem fwText_singleton (entry : Text) : fwText [entry] = entry :=
  List.intercalate_singleton

theorem fwText_cons (entry : Text) {path : List Text} (h : path ≠ []) :
    fwText (entry :: path) = entry ++ ',' :: fwText path := by
  rw [fwText, List.intercalate_cons_of_ne_nil h, List.append_assoc]
  rfl

theorem fwText_append {front back : List Text} (hfront : front ≠ []) (hback : back ≠ []) :
    fwText (front ++ back) = fwText front ++ ',' :: fwText back := by
  induction front with
  | nil => exact absurd rfl hfront
  | cons entry front ih =>
    by_cases hmore : front = []
    · rw [hmore, List.singleton_append, fwText_cons entry hback, fwText_singleton]
    · rw [List.cons_append, fwText_cons entry (by simp [hmore]), ih hmore, fwText_cons entry hmore,
        List.append_assoc, List.cons_append]

/-- Each entry with a comma, but for the last. -/
theorem length_fwText (path : List Text) :
    (fwText path).length = (path.map fun entry => entry.length + 1).sum - 1 := by
  induction path with
  | nil => rfl
  | cons entry path ih =>
    cases path with
    | nil => simp
    | cons next path =>
      rw [fwText_cons entry (List.cons_ne_nil next path), List.length_append, List.length_cons, ih]
      simp only [List.map_cons, List.sum_cons]
      omega

theorem fwText_eq_nil_iff {path : List Text} (h : IsPath path) : fwText path = [] ↔ path = [] := by
  constructor
  · intro hnil
    cases path with
    | nil => rfl
    | cons entry path =>
      have hentry := (h entry List.mem_cons_self).1
      by_cases hpath : path = []
      · rw [hpath, fwText_singleton] at hnil
        exact absurd hnil hentry
      · rw [fwText_cons entry hpath] at hnil
        exact absurd (List.append_eq_nil_iff.1 hnil).1 hentry
  · rintro rfl
    rfl

/-! ## The walk -/

/-- Up to the next comma all is one segment. -/
theorem segmentsFrom_append {text : Text} (h : ',' ∉ text) (seg rest : Text) :
    segmentsFrom seg (text ++ rest) = segmentsFrom (seg ++ text) rest := by
  induction text generalizing seg with
  | nil => rw [List.nil_append, List.append_nil]
  | cons c text ih =>
    have hc : c ≠ ',' := fun heq => h (heq ▸ List.mem_cons_self)
    have htext : ',' ∉ text := fun hmem => h (List.mem_cons_of_mem c hmem)
    rw [List.cons_append, segmentsFrom, if_neg hc, ih htext, List.append_assoc,
      List.singleton_append]

theorem segments_append_cons {seg : Text} (h : ',' ∉ seg) (rest : Text) :
    segments (seg ++ ',' :: rest) = seg :: segments rest := by
  rw [segments, segmentsFrom_append h, List.nil_append, segmentsFrom, if_pos rfl, segments]

theorem segments_of_ne_nil {seg : Text} (hne : seg ≠ []) (h : ',' ∉ seg) :
    segments seg = [seg] := by
  have hwalk := segmentsFrom_append h [] []
  rw [List.append_nil, List.nil_append] at hwalk
  rw [segments, hwalk, segmentsFrom, if_neg hne]

/-- **The walk comes to the entries.** -/
theorem segments_fwText {path : List Text} (h : IsPath path) : segments (fwText path) = path := by
  induction path with
  | nil => rfl
  | cons entry path ih =>
    obtain ⟨hentry, hrest⟩ := List.forall_mem_cons.1 h
    by_cases hpath : path = []
    · rw [hpath, fwText_singleton, segments_of_ne_nil hentry.1 hentry.2]
    · rw [fwText_cons entry hpath, segments_append_cons hentry.2, ih hrest]

/-! ## The list is built anew -/

section Rebuild

variable {path kept : List Text} {token seg out text : Text} {outSize n : ℕ}

theorem strncat_of_le (h : text.length ≤ n) : strncat out text n = out ++ text := by
  rw [strncat, List.take_of_length_le h]

/-- What has been built when these entries were kept. -/
def rebuilt (kept : List Text) : Rebuilt := ⟨fwText kept, kept.isEmpty⟩

/-- **One segment more.**  Nothing of it is cut off as long as all of it fits. -/
theorem keep_rebuilt (hseg : seg ≠ token) (hfit : (fwText (kept ++ [seg])).length < outSize) :
    Rebuilt.keep token outSize (rebuilt kept) seg = rebuilt (kept ++ [seg]) := by
  unfold Rebuilt.keep rebuilt
  rw [if_neg hseg]
  cases kept with
  | nil =>
    rw [List.nil_append, fwText_singleton] at hfit
    have hle : seg.length ≤ min seg.length (outSize - (fwText []).length - 1) := by
      simp only [fwText_nil, List.length_nil]
      omega
    simp only [List.isEmpty_nil, if_true, strncat_of_le hle]
    simp
  | cons entry kept =>
    have hne : entry :: kept ≠ [] := List.cons_ne_nil entry kept
    rw [fwText_append hne (List.cons_ne_nil seg []), fwText_singleton, List.length_append,
      List.length_cons] at hfit
    have hcomma : [','].length ≤ outSize - (fwText (entry :: kept)).length - 1 := by
      rw [List.length_singleton]
      omega
    have hle : seg.length ≤ min seg.length
        (outSize - (fwText (entry :: kept) ++ [',']).length - 1) := by
      rw [List.length_append, List.length_singleton]
      omega
    simp only [List.isEmpty_cons, Bool.false_eq_true, if_false, strncat_of_le hcomma,
      strncat_of_le hle, fwText_append hne (List.cons_ne_nil seg []), fwText_singleton]
    simp

theorem foldl_keep (hfit : (fwText (kept ++ path)).length < outSize) :
    path.foldl (Rebuilt.keep token outSize) (rebuilt kept) =
      rebuilt (kept ++ path.filter (· ≠ token)) := by
  induction path generalizing kept with
  | nil => simp
  | cons seg path ih =>
    rw [List.foldl_cons]
    simp only [length_fwText, List.map_append, List.sum_append, List.map_cons, List.sum_cons]
      at hfit ih
    by_cases hseg : seg = token
    · have hskip : Rebuilt.keep token outSize (rebuilt kept) seg = rebuilt kept := if_pos hseg
      rw [hskip, ih (by omega), List.filter_cons_of_neg (by simpa using hseg)]
    · have hone : (fwText (kept ++ [seg])).length < outSize := by
        simp only [length_fwText, List.map_append, List.sum_append, List.map_cons, List.sum_cons,
          List.map_nil, List.sum_nil]
        omega
      rw [keep_rebuilt hseg hone, List.filter_cons_of_pos (by simpa using hseg), ih]
      · rw [List.append_assoc, List.singleton_append]
      · simp only [List.map_append, List.sum_append, List.map_cons, List.sum_cons, List.map_nil,
          List.sum_nil]
        omega

/-- **What `fw_remove_token` builds** is the list without the entries that are the token. -/
theorem fwRemoveToken_fwText (h : IsPath path) (hfit : (fwText path).length < outSize) :
    fwRemoveToken (fwText path) token outSize =
      ((fwText (path.filter (· ≠ token))).length, fwText (path.filter (· ≠ token))) := by
  have hwalk := @foldl_keep path [] token outSize hfit
  rw [List.nil_append] at hwalk
  unfold fwRemoveToken
  rw [segments_fwText h, show (⟨[], true⟩ : Rebuilt) = rebuilt [] from rfl, hwalk]
  rfl

end Rebuild

/-! ## The edits are those of the list -/

section Edits

variable {path : List Text} {token text : Text} {android present : Bool} {param : Text}

/-- **A new entry** is put in front. -/
theorem newPath_of_new (h : IsPath path) (hnew : token ∉ path)
    (hfits : (fwText (token :: path)).length < fwPathBufSize) :
    newPath token (fwText path) = some (fwText (token :: path)) := by
  unfold newPath
  rw [segments_fwText h, if_neg (mt List.contains_iff_mem.1 hnew)]
  by_cases hpath : path = []
  · rw [hpath, fwText_singleton] at hfits
    have hwhole : safeStrncpy token fwPathBufSize = token := List.take_of_length_le (by omega)
    rw [hpath, fwText_singleton, hwhole]
    rfl
  · rw [fwText_cons token hpath, List.length_append, List.length_cons] at hfits
    have hwhole : safeStrncpy token fwPathBufSize = token := List.take_of_length_le (by omega)
    have hcomma : strncat token [','] (fwPathBufSize - token.length - 1) = token ++ [','] := by
      refine strncat_of_le ?_
      rw [List.length_singleton]
      omega
    have hnil : fwText path ≠ [] := fun hnil => hpath ((fwText_eq_nil_iff h).1 hnil)
    rw [if_pos hnil, if_neg (by omega)]
    simp only [hwhole, hcomma]
    rw [strncat_of_le, List.append_assoc, List.singleton_append, fwText_cons token hpath]
    rw [List.length_append, List.length_singleton]
    omega

/-- **The new string** is that of the new list; where there is none the list stays as it is. -/
theorem newPath_fwText (h : IsPath path) (token : Text) :
    (newPath token (fwText path)).getD (fwText path) =
      fwText (Droidspaces.firmwarePathAdd true true token path) := by
  unfold Droidspaces.firmwarePathAdd
  simp only [Bool.not_true, Bool.or_self, Bool.false_eq_true, if_false]
  by_cases hmem : token ∈ path
  · have hnone : newPath token (fwText path) = none := by
      rw [newPath, segments_fwText h, if_pos (List.contains_iff_mem.2 hmem)]
    rw [if_pos hmem, hnone, Option.getD_none]
  · rw [if_neg hmem]
    by_cases hnil : fwText path = []
    · have hpath := (fwText_eq_nil_iff h).1 hnil
      subst hpath
      rw [if_pos hnil, show fwText ((token.take (fwPathBufSize - 1)).splitOn ',') =
        token.take (fwPathBufSize - 1) from List.intercalate_splitOn _]
      rfl
    · have hpath : path ≠ [] := fun heq => hnil ((fwText_eq_nil_iff h).2 heq)
      have hfits := fwText_cons token hpath
      rw [if_neg hnil]
      split_ifs with hlong
      · have hnone : newPath token (fwText path) = none := by
          rw [newPath, segments_fwText h, if_neg (mt List.contains_iff_mem.1 hmem), if_pos hnil,
            if_pos hlong]
        rw [hnone, Option.getD_none]
      · have hnew := newPath_of_new h hmem (by
          rw [hfits, List.length_append, List.length_cons]
          omega)
        rw [hnew, Option.getD_some, hfits, fwText_append (List.splitOn_ne_nil _ _) hpath,
          show fwText (token.splitOn ',') = token from List.intercalate_splitOn _]

theorem length_current_lt (param : Text) : (current param).length < fwPathBufSize := by
  have hle := (List.rdropWhile_prefix (fun c => c == '\n' || c == '\r')
    ((param ++ ['\n']).take (fwPathBufSize - 1))).length_le
  rw [List.length_take] at hle
  have hsize : fwPathBufSize = 256 := rfl
  show (List.rdropWhile _ _).length < fwPathBufSize
  omega

/-- No line breaks are left at the end. -/
theorem rdropWhile_current (param : Text) :
    (current param).rdropWhile (fun c => c == '\n' || c == '\r') = current param :=
  List.rdropWhile_idempotent _ _

theorem current_eq_self (hlen : text.length < fwPathBufSize)
    (hend : text.rdropWhile (fun c => c == '\n' || c == '\r') = text) : current text = text := by
  have hbreak : ∀ c ∈ ['\n'].take (fwPathBufSize - 1 - text.length),
      (c == '\n' || c == '\r') = true := by
    intro c hc
    rw [List.mem_singleton.1 (List.mem_of_mem_take hc)]
    rfl
  rw [current, readFile, List.take_append, List.take_of_length_le (by omega),
    Config.rdropWhile_append_of_pos hbreak, hend]

/-- An entry in front does not change how the string ends. -/
theorem current_fwText_cons (hcurrent : current param = fwText path) (hpath : path ≠ [])
    (hfit : (fwText (token :: path)).length < fwPathBufSize) :
    current (fwText (token :: path)) = fwText (token :: path) := by
  refine current_eq_self hfit ?_
  rw [fwText_cons token hpath, Config.rdropWhile_append_cons (by decide), ← hcurrent,
    rdropWhile_current]

/-- **Adding** to the string is adding to the list. -/
theorem firmwarePathAdd_fwText (h : IsPath path) (hread : current (fwText path) = fwText path) :
    firmwarePathAdd android present token (some (fwText path)) =
      some (fwText (Droidspaces.firmwarePathAdd android present token path)) := by
  unfold firmwarePathAdd
  rw [Option.map_some, hread, newPath_fwText h]
  unfold Droidspaces.firmwarePathAdd
  cases android with
  | false => rfl
  | true =>
    cases present with
    | false => rfl
    | true => rfl

/-- **Removing** from the string is removing from the list. -/
theorem firmwarePathRemove_fwText (h : IsPath path) (hread : current (fwText path) = fwText path) :
    firmwarePathRemove android token (some (fwText path)) =
      some (fwText (Droidspaces.firmwarePathRemove android token path)) := by
  have hfit : (fwText path).length < fwPathBufSize := hread ▸ length_current_lt _
  unfold firmwarePathRemove Droidspaces.firmwarePathRemove
  rw [Option.map_some, hread, fwRemoveToken_fwText h hfit]
  simp only [List.length_eq_zero_iff]
  split_ifs
  · rfl
  · rfl
  · rfl

end Edits

/-! ## Exactly the entry -/

/-- **The edits act on whole entries.**  An entry is removed wherever it is and nothing else is,
and what was put in front is removed again.  The kernel does not take an empty string, so
`firmware_path_remove` leaves an entry that is the only one. -/
theorem fwRemoveToken_exact {path : List Text} {token : Text} (h : IsPath path)
    (hfit : (fwText path).length < fwPathBufSize) (htoken : token ≠ [] ∧ ',' ∉ token) :
    fwRemoveToken (fwText path) token fwPathBufSize =
        ((fwText (path.filter (· ≠ token))).length, fwText (path.filter (· ≠ token))) ∧
      (token ∉ path → (fwText (token :: path)).length < fwPathBufSize →
        ∀ param, current param = fwText path →
          firmwarePathAdd true true token (some param) = some (fwText (token :: path)) ∧
            fwRemoveToken (fwText (token :: path)) token fwPathBufSize =
              ((fwText path).length, fwText path) ∧
            (path ≠ [] → firmwarePathRemove true token (some (fwText (token :: path))) =
              some (fwText path))) := by
  refine ⟨fwRemoveToken_fwText h hfit, fun hnew hfits param hcurrent => ?_⟩
  have hpath := h.cons htoken
  have hfilter : (token :: path).filter (· ≠ token) = path := by
    rw [List.filter_cons_of_neg (by simp)]
    refine List.filter_eq_self.2 fun entry hentry => ?_
    simpa using ne_of_mem_of_not_mem hentry hnew
  have hremoved := @fwRemoveToken_fwText (token :: path) token fwPathBufSize hpath hfits
  rw [hfilter] at hremoved
  refine ⟨?_, hremoved, fun hne => ?_⟩
  · unfold firmwarePathAdd
    rw [Option.map_some, hcurrent, newPath_of_new h hnew hfits]
    rfl
  · have hlist : Droidspaces.firmwarePathRemove true token (token :: path) = path := by
      unfold Droidspaces.firmwarePathRemove
      rw [hfilter, if_neg (by simp), if_neg fun hnil => hne ((fwText_eq_nil_iff h).1 hnil)]
    rw [firmwarePathRemove_fwText hpath (current_fwText_cons hcurrent hne hfits), hlist]

/-- The new entry is the end of another. -/
theorem fwRemoveToken_exact_suffix :
    fwRemoveToken (fwText [['a', 'b'], ['a']]) ['b'] fwPathBufSize = (4, ['a', 'b', ',', 'a']) ∧
      firmwarePathAdd true true ['b'] (some ['a', 'b', ',', 'a', '\n']) =
        some ['b', ',', 'a', 'b', ',', 'a'] ∧
      firmwarePathRemove true ['b'] (some ['b', ',', 'a', 'b', ',', 'a']) =
        some ['a', 'b', ',', 'a'] := by
  have hpath : IsPath [['a', 'b'], ['a']] := by simp [IsPath]
  obtain ⟨hremoved, hadded⟩ := @fwRemoveToken_exact [['a', 'b'], ['a']] ['b'] hpath (by decide)
    ⟨by decide, by decide⟩
  obtain ⟨hadd, -, hback⟩ := hadded (by decide) (by decide) ['a', 'b', ',', 'a', '\n'] (by decide)
  exact ⟨hremoved, hadd, hback (by decide)⟩

end Droidspaces.FirmwarePath
