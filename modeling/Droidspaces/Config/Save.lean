import Droidspaces.Config.Load
import Mathlib.Data.List.Nodup

/-!
# Saving a configuration

`ds_config_serialize_known` writes one line for each key that has something to say.  What `fgets`
makes of the lines decides what is read back: `Readable.valuesOf_savedText` says that a key has the
one value that was written, if its line is short enough and is one line.
-/

namespace Droidspaces.Config

open CustomBinds

/-! ## What is written -/

/-- The keys in the order of their lines. -/
def savedKeys : List Key := [
  .text .name, .text .hostname, .rootfs, .flag .disableIpv6, .flag .androidStorage,
  .flag .termuxX11, .text .tx11ExtraFlags, .flag .wayland, .text .waylandExtraFlags, .flag .virgl,
  .text .virglExtraFlags, .flag .pulseaudio, .flag .hwAccess, .flag .gpuMode,
  .flag .selinuxPermissive, .flag .sandboxingAllowed, .flag .allowVts, .flag .volatileMode,
  .flag .forceCgroupv1, .limit .memoryLimit, .limit .cpuQuota, .limit .cpuPeriod,
  .limit .pidsLimit, .privileged, .flag .foreground, .netMode, .text .gatewayContainer,
  .text .gatewayNet, .text .gatewayBridge, .text .gatewayLanIfname, .upstreamIfaces,
  .portForwards, .text .staticNatIp, .text .envFile, .text .uuid, .text .customInit,
  .text .dnsServers, .binds]

/-- The name that is written, which is the newer one if there are two. -/
def keyText (k : Key) : Text :=
  ((keyNames.find? fun e => e.2 = k).map fun e => e.1.toList).getD []

def joinComma (ts : List Text) : Text := [','].intercalate ts

def privilegedText (mask : ℕ) : Text :=
  if mask = 255 then "full".toList
  else joinComma (([("nomask", 0), ("nocaps", 1), ("noseccomp", 2), ("shared", 3)].filter
    fun e => mask.testBit e.2).map fun e => e.1.toList)

def netModeText : NetMode → Text
  | .nat => "nat".toList
  | .none => "none".toList
  | .gateway => "gateway".toList
  | .host => "host".toList

def decimal (n : ℕ) : Text := Nat.toDigits 10 n

/-- `host_port_end` says whether both sides are ranges. -/
def portForwardText (pf : PortForward) : Text :=
  if pf.hostPortEnd = 0 then
    decimal pf.hostPort ++ ':' :: decimal pf.containerPort ++ '/' :: pf.proto
  else
    decimal pf.hostPort ++ '-' :: decimal pf.hostPortEnd ++ ':' :: decimal pf.containerPort ++
      '-' :: decimal pf.containerPortEnd ++ '/' :: pf.proto

def bindText (resolve : Text → Text) (b : BindMount) : Text :=
  resolve b.src ++ ':' :: resolve b.dest ++ if b.ro then ":ro".toList else []

section Written

variable (sys : System) (android : Bool) (cfg : DsConfig)

def TextKey.isWritten : TextKey → Bool
  | .tx11ExtraFlags | .waylandExtraFlags | .virglExtraFlags => android
  | .gatewayContainer | .gatewayNet | .gatewayBridge | .gatewayLanIfname =>
    cfg.value .netMode = .gateway
  | .staticNatIp => cfg.value .netMode = .nat
  | _ => true

def Flag.isWritten : Flag → Bool
  | .androidStorage | .termuxX11 | .wayland | .virgl | .pulseaudio => android
  | _ => true

/-- The text after the equals sign, if there is a line. -/
def written : Key → Option Text
  | .text k =>
    let val : Text := cfg.value (.text k)
    if k.isWritten android cfg && !val.isEmpty then
      some (if k = .envFile ∨ k = .customInit then sys.resolve val else val)
    else none
  | .flag f =>
    if f.isWritten android then some (if cfg.value (.flag f) then ['1'] else ['0']) else none
  | .limit l =>
    let n : ℕ := cfg.value (.limit l)
    if n = 0 then none else some (decimal n)
  | .privileged =>
    let mask : ℕ := cfg.value .privileged
    if mask = 0 then none else some (privilegedText mask)
  | .netMode => some (netModeText (cfg.value .netMode))
  | .rootfs =>
    let r : Rootfs := cfg.value .rootfs
    if r.isImg && !r.img.isEmpty then some (sys.resolve r.img)
    else if !r.path.isEmpty then some (sys.resolve r.path)
    else none
  | .upstreamIfaces =>
    let ifaces : List Text := cfg.value .upstreamIfaces
    if cfg.value .netMode = .nat ∧ ifaces ≠ [] then some (joinComma ifaces) else none
  | .portForwards =>
    let ports : List PortForward := cfg.value .portForwards
    if cfg.value .netMode = .nat ∧ ports ≠ [] then some (joinComma (ports.map portForwardText))
    else none
  | .binds =>
    let binds : List BindMount := cfg.value .binds
    if binds = [] then none else some (joinComma (binds.map (bindText sys.resolve)))

def header : List Text := [
  "# Droidspaces Container Configuration\n".toList,
  "# Generated automatically - Changes may be overwritten\n".toList,
  "\n".toList]

def keyLine (k : Key) (val : Text) : Text := keyText k ++ '=' :: val ++ ['\n']

def knownLines : List Text :=
  savedKeys.filterMap fun k => (written sys android cfg k).map (keyLine k)

/-- What `ds_config_save` writes; the bind mounts are sorted first. -/
def dsConfigSave : Text :=
  let cfg := cfg.set .binds (sortBindMounts (cfg.value .binds))
  (header ++ knownLines sys android cfg ++ cfg.unknown).flatten

end Written

theorem joinComma_cons_cons (t u : Text) (ts : List Text) :
    joinComma (t :: u :: ts) = t ++ ',' :: joinComma (u :: ts) := by
  rw [joinComma, List.intercalate_cons_cons, List.append_assoc]
  rfl

theorem subset_joinComma {ts : List Text} {t : Text} (ht : t ∈ ts) : t ⊆ joinComma ts := by
  induction ts with
  | nil => cases ht
  | cons u us ih =>
    cases us with
    | nil =>
      rw [List.mem_singleton.1 ht, joinComma, List.intercalate_singleton]
      exact List.Subset.refl u
    | cons v vs =>
      rw [joinComma_cons_cons]
      rcases List.mem_cons.1 ht with rfl | ht
      · exact List.subset_append_left _ _
      · exact List.Subset.trans (ih ht)
          (List.Subset.trans (List.subset_cons_self _ _) (List.subset_append_right _ _))

/-! ## Lines -/

theorem flatten_fgets (n : ℕ) (t : Text) (room : ℕ) : (fgets n t room).flatten = t := by
  induction t generalizing room with
  | nil => simp [fgets]
  | cons c t ih =>
    cases t with
    | nil => simp [fgets]
    | cons d t =>
      rw [fgets]
      split
      · rw [List.flatten_cons, ih]
        rfl
      · have hrest := ih (room - 1)
        cases hpieces : fgets n (d :: t) (room - 1) with
        | nil =>
          rw [hpieces] at hrest
          cases hrest
        | cons line lines =>
          rw [hpieces] at hrest
          rw [← hrest]
          rfl

theorem subset_of_mem_fgets {n room : ℕ} {text piece : Text} (h : piece ∈ fgets n text room) :
    piece ⊆ text := by
  intro c hc
  rw [← flatten_fgets n text room]
  exact List.mem_flatten_of_mem h hc

theorem fgets_ne_nil (n : ℕ) {t : Text} (ht : t ≠ []) (room : ℕ) : fgets n t room ≠ [] := by
  intro hnil
  have hflat := flatten_fgets n t room
  rw [hnil] at hflat
  exact ht hflat.symm

/-- A new piece starts after each end of a line. -/
theorem fgets_append (n : ℕ) (body rest : Text) (room : ℕ) :
    fgets n (body ++ '\n' :: rest) room =
      fgets n (body ++ ['\n']) room ++ fgets n rest n := by
  induction body generalizing room with
  | nil =>
    cases rest with
    | nil => simp [fgets]
    | cons c rest => simp [fgets]
  | cons c body ih =>
    obtain ⟨d, t, hdt⟩ : ∃ d t, body ++ ['\n'] = d :: t := by
      cases body with
      | nil => exact ⟨_, _, rfl⟩
      | cons d body => exact ⟨_, _, rfl⟩
    have hdt' : body ++ '\n' :: rest = d :: (t ++ rest) := by
      rw [← List.singleton_append, ← List.append_assoc, hdt]
      rfl
    rw [List.cons_append, List.cons_append, hdt', hdt, fgets, fgets, ← hdt', ← hdt]
    split
    · rw [ih, List.cons_append]
    · rw [ih]
      cases hpieces : fgets n (body ++ ['\n']) (room - 1) with
      | nil => exact absurd hpieces (fgets_ne_nil n (by simp) _)
      | cons line lines => rfl

theorem fgets_line (n : ℕ) {body : Text} (hbody : '\n' ∉ body) {room : ℕ}
    (hroom : body.length ≤ room) : fgets n (body ++ ['\n']) room = [body ++ ['\n']] := by
  induction body generalizing room with
  | nil => simp [fgets]
  | cons c body ih =>
    have hc : c ≠ '\n' := fun h => hbody (h ▸ List.mem_cons_self)
    have hrest : '\n' ∉ body := fun h => hbody (List.mem_cons_of_mem _ h)
    have hlen : body.length + 1 ≤ room := hroom
    have hih := ih hrest (show body.length ≤ room - 1 by omega)
    obtain ⟨d, t, hdt⟩ : ∃ d t, body ++ ['\n'] = d :: t := by
      cases body with
      | nil => exact ⟨_, _, rfl⟩
      | cons d body => exact ⟨_, _, rfl⟩
    have hroom0 : (room == 0) = false := by
      rw [beq_eq_false_iff_ne]
      omega
    rw [List.cons_append, hdt, fgets, ← hdt, hih]
    simp [hc, hroom0]

/-- The end of the line has to wait. -/
theorem fgets_full_line (n : ℕ) {body : Text} (hbody : '\n' ∉ body) {room : ℕ}
    (hroom : body.length = room + 1) : fgets n (body ++ ['\n']) room = [body, ['\n']] := by
  induction body generalizing room with
  | nil => cases hroom
  | cons c body ih =>
    have hc : c ≠ '\n' := fun h => hbody (h ▸ List.mem_cons_self)
    have hrest : '\n' ∉ body := fun h => hbody (List.mem_cons_of_mem _ h)
    have hlen : body.length = room := Nat.succ.inj hroom
    cases body with
    | nil =>
      obtain rfl : room = 0 := hlen.symm
      simp [fgets]
    | cons d body =>
      obtain ⟨m, rfl⟩ : ∃ m, room = m + 1 := ⟨body.length, hlen.symm⟩
      have hih := ih hrest hlen
      rw [List.cons_append, List.cons_append, fgets, ← List.cons_append, Nat.add_sub_cancel, hih]
      simp [hc]

theorem fileLines_line {body : Text} (hbody : '\n' ∉ body) (hlen : body.length ≤ 2047) :
    fileLines (body ++ ['\n']) = [body ++ ['\n']] ∨
      fileLines (body ++ ['\n']) = [body, ['\n']] := by
  by_cases hfull : body.length = 2047
  · exact Or.inr (fgets_full_line 2046 hbody hfull)
  · exact Or.inl (fgets_line 2046 hbody (by omega))

/-- Lines are read one by one. -/
theorem fileLines_flatten_append {lines : List Text}
    (h : ∀ line ∈ lines, ∃ body, line = body ++ ['\n']) (rest : Text) :
    fileLines (lines.flatten ++ rest) = lines.flatMap fileLines ++ fileLines rest := by
  induction lines with
  | nil => rfl
  | cons line lines ih =>
    obtain ⟨body, rfl⟩ := h line List.mem_cons_self
    have hih := ih fun l hl => h l (List.mem_cons_of_mem _ hl)
    have hread := fgets_append 2046 body (lines.flatten ++ rest) 2046
    rw [List.flatMap_cons, List.append_assoc, ← hih]
    unfold fileLines
    rw [← hread]
    simp

/-- Nothing to trim. -/
def IsTrimmed (t : Text) : Prop := trim t = t

theorem IsTrimmed.dropWhile {t : Text} (h : IsTrimmed t) : t.dropWhile isSpace = t := by
  have hlen : t.length ≤ (t.dropWhile isSpace).length := by
    have hle := (List.rdropWhile_prefix isSpace (t.dropWhile isSpace)).length_le
    rwa [show (t.dropWhile isSpace).rdropWhile isSpace = t from h] at hle
  exact (List.dropWhile_suffix isSpace).eq_of_length_le hlen

theorem IsTrimmed.rdropWhile {t : Text} (h : IsTrimmed t) : t.rdropWhile isSpace = t := by
  have htrim : (t.dropWhile isSpace).rdropWhile isSpace = t := h
  rwa [h.dropWhile] at htrim

theorem dropWhile_trimmed (p : Char → Bool) (t : Text) :
    ((t.dropWhile p).rdropWhile p).dropWhile p = (t.dropWhile p).rdropWhile p := by
  cases hrest : (t.dropWhile p).rdropWhile p with
  | nil => rfl
  | cons c rest =>
    obtain ⟨tail, htail⟩ := List.rdropWhile_prefix p (t.dropWhile p)
    have hc : p c = false := by
      have hidem := List.dropWhile_idempotent (p := p) (l := t)
      rw [← htail, hrest, List.cons_append, List.dropWhile_cons] at hidem
      by_contra hblank
      rw [if_pos (by simpa using hblank)] at hidem
      have hle := (List.dropWhile_suffix p (l := rest ++ tail)).length_le
      rw [hidem, List.length_cons] at hle
      omega
    simp [hc]

theorem isTrimmed_of_forall {t : Text} (h : ∀ c ∈ t, isSpace c = false) : IsTrimmed t := by
  have hstart : t.dropWhile isSpace = t := by
    cases t with
    | nil => rfl
    | cons c t => simp [h c List.mem_cons_self]
  rw [IsTrimmed, trim, hstart, List.rdropWhile_eq_self_iff]
  intro hne
  simp [h _ (List.getLast_mem hne)]

/-- A key stands at the start of its line as it is. -/
def IsKeyText (key : Text) : Prop :=
  key ≠ [] ∧ ∀ c ∈ key, isSpace c = false ∧ c ≠ '=' ∧ c ≠ '#' ∧ c ≠ '\n'

instance (key : Text) : Decidable (IsKeyText key) :=
  decidable_of_iff
    (key ≠ [] ∧ (key.all fun c => !isSpace c && c != '=' && c != '#' && c != '\n') = true) (by
      simp [IsKeyText, and_assoc])

theorem IsKeyText.trim_line {key val : Text} (hkey : IsKeyText key) (hval : IsTrimmed val) :
    trim (key ++ '=' :: val) = key ++ '=' :: val ∧
      trim (key ++ '=' :: val ++ ['\n']) = key ++ '=' :: val := by
  obtain ⟨hne, hkey⟩ := hkey
  have hstart : ∀ rest,
      (key ++ '=' :: val ++ rest).dropWhile isSpace = key ++ '=' :: val ++ rest := by
    intro rest
    cases key with
    | nil => exact absurd rfl hne
    | cons c key =>
      have hc := (hkey c List.mem_cons_self).1
      simp [hc]
  have hend : (key ++ '=' :: val).rdropWhile isSpace = key ++ '=' :: val := by
    rw [List.rdropWhile_eq_self_iff]
    intro hne
    cases val with
    | nil => simp [isSpace]
    | cons c val =>
      have hlast := List.rdropWhile_eq_self_iff.1 hval.rdropWhile (List.cons_ne_nil c val)
      simpa using hlast
  constructor
  · have hsame := hstart []
    rw [List.append_nil] at hsame
    rw [trim, hsame, hend]
  · rw [trim, hstart, List.rdropWhile_concat_pos _ _ _ rfl, hend]

theorem IsKeyText.lineEntry_eq {key rest line : Text} (hkey : IsKeyText key)
    (hline : trim line = key ++ '=' :: rest) : lineEntry line = some (key, trim rest) := by
  have hall : ∀ c ∈ key, (c != '=') = true := fun c hc => bne_iff_ne.2 (hkey.2 c hc).2.1
  have htrimmed : IsTrimmed key := by
    have hspace : ∀ c ∈ key, isSpace c = false := fun c hc => (hkey.2 c hc).1
    have hstart : key.dropWhile isSpace = key := by
      cases key with
      | nil => rfl
      | cons c key => simp [hspace c List.mem_cons_self]
    rw [IsTrimmed, trim, hstart, List.rdropWhile_eq_self_iff]
    intro hne
    simp [hspace _ (List.getLast_mem hne)]
  have hhead : ((key ++ '=' :: rest).head? == some '#') = false := by
    cases key with
    | nil => exact absurd rfl hkey.1
    | cons c key => simpa using (hkey.2 c List.mem_cons_self).2.2.1
  have htake : (key ++ '=' :: rest).takeWhile (· != '=') = key := by
    rw [List.takeWhile_append_of_pos hall]
    simp
  have hdrop : (key ++ '=' :: rest).dropWhile (· != '=') = '=' :: rest := by
    rw [List.dropWhile_append_of_pos hall]
    simp
  unfold Config.lineEntry
  rw [hline]
  simp only [htake, hdrop]
  rw [hhead, if_neg (by simp), htrimmed, List.drop_one, List.tail_cons]

theorem IsKeyText.lineEntry {key val line : Text} (hkey : IsKeyText key) (hval : IsTrimmed val)
    (hline : trim line = key ++ '=' :: val) : lineEntry line = some (key, val) := by
  rw [hkey.lineEntry_eq hline, hval]

theorem isKeyText_of_mem : ∀ e ∈ keyNames, IsKeyText e.1.toList := by
  decide +kernel

theorem nodup_keyNames : (keyNames.map (·.1)).Nodup := by
  decide +kernel

theorem mem_keyNames (k : Key) : k ∈ keyNames.map (·.2) := by
  cases k with
  | text k => cases k <;> decide
  | flag f => cases f <;> decide
  | limit l => cases l <;> decide
  | _ => decide

theorem exists_keyText (k : Key) : ∃ e ∈ keyNames, e.2 = k ∧ keyText k = e.1.toList := by
  obtain ⟨e, he, rfl⟩ := List.mem_map.1 (mem_keyNames k)
  cases hfind : keyNames.find? fun e' => e'.2 = e.2 with
  | none => exact absurd (List.find?_eq_none.1 hfind e he) (by simp)
  | some e' =>
    refine ⟨e', List.mem_of_find?_eq_some hfind, ?_, by simp [keyText, hfind]⟩
    simpa using List.find?_some hfind

theorem isKeyText_keyText (k : Key) : IsKeyText (keyText k) := by
  obtain ⟨e, he, -, htext⟩ := exists_keyText k
  rw [htext]
  exact isKeyText_of_mem e he

theorem keyOf_keyText (k : Key) : keyOf (keyText k) = some k := by
  obtain ⟨e, he, rfl, htext⟩ := exists_keyText k
  rw [htext, keyOf]
  cases hfind : keyNames.find? fun e' => e'.1.toList == e.1.toList with
  | none => exact absurd (List.find?_eq_none.1 hfind e he) (by simp)
  | some e' =>
    have heq : e'.1 = e.1 := String.toList_inj.1 (by simpa using List.find?_some hfind)
    have hsame : e' = e :=
      List.inj_on_of_nodup_map nodup_keyNames (List.mem_of_find?_eq_some hfind) he heq
    rw [hsame, Option.map_some]

theorem mem_savedKeys (k : Key) : k ∈ savedKeys := by
  cases k with
  | text k => cases k <;> decide
  | flag f => cases f <;> decide
  | limit l => cases l <;> decide
  | _ => decide

theorem nodup_savedKeys : savedKeys.Nodup := by
  decide +kernel

/-- One item of a list without repetition. -/
theorem filterMap_single {α β : Type} [DecidableEq α] {l : List α} {a : α} (hl : l.Nodup)
    (ha : a ∈ l) (b : Option β) : (l.filterMap fun x => if x = a then b else none) = b.toList := by
  obtain ⟨l₁, l₂, rfl⟩ := List.append_of_mem ha
  obtain ⟨-, hl₂, hdisjoint⟩ := List.nodup_append.1 hl
  have hbefore : l₁.filterMap (fun x => if x = a then b else none) = [] := by
    rw [List.filterMap_eq_nil_iff]
    intro x hx
    rw [if_neg (hdisjoint x hx a List.mem_cons_self)]
  have hafter : l₂.filterMap (fun x => if x = a then b else none) = [] := by
    rw [List.filterMap_eq_nil_iff]
    intro x hx
    rw [if_neg]
    rintro rfl
    exact (List.nodup_cons.1 hl₂).1 hx
  rw [List.filterMap_append, List.filterMap_cons, hbefore, hafter, if_pos rfl]
  cases b with
  | none => rfl
  | some b => rfl

/-! ## The lines of a saved file -/

section Saved

variable {sys : System} {android : Bool} {cfg : DsConfig} {k : Key}

/-- A value whose line is read as it was written. -/
structure IsValue (k : Key) (val : Text) : Prop where
  trimmed : IsTrimmed val
  oneLine : '\n' ∉ val
  fits : (keyText k).length + val.length ≤ 2046

theorem IsValue.oneLine_keyLine {val : Text} (h : IsValue k val) :
    '\n' ∉ keyText k ++ '=' :: val := by
  simp only [List.mem_append, List.mem_cons, not_or]
  exact ⟨fun hmem => ((isKeyText_keyText k).2 _ hmem).2.2.2 rfl, by decide, h.oneLine⟩

/-- All but the first piece of its line are blank. -/
theorem IsValue.fileLines_keyLine {val : Text} (h : IsValue k val) :
    ∃ line, lineEntry line = some (keyText k, val) ∧
      (fileLines (keyLine k val) = [line] ∨ fileLines (keyLine k val) = [line, ['\n']]) := by
  have hkey := isKeyText_keyText k
  obtain ⟨hshort, hlong⟩ := hkey.trim_line h.trimmed
  have hlen : (keyText k ++ '=' :: val).length ≤ 2047 := by
    have hfits := h.fits
    simp only [List.length_append, List.length_cons]
    omega
  rcases fileLines_line h.oneLine_keyLine hlen with hread | hread
  · exact ⟨_, hkey.lineEntry h.trimmed hlong, Or.inl hread⟩
  · exact ⟨_, hkey.lineEntry h.trimmed hshort, Or.inr hread⟩

theorem lineEntry_newline : lineEntry ['\n'] = none := by
  decide

/-- A line that is kept as it is. -/
def isUnknown (line : Text) : Bool :=
  match lineEntry line with
  | none => false
  | some (key, _) => (keyOf key).isNone && !droppedKeys.any fun d => d.toList == key

/-- The value that a line has for a key. -/
def valueIn (k : Key) (line : Text) : Option Text :=
  (lineEntry line).bind fun e => if keyOf e.1 = some k then some e.2 else none

theorem IsValue.valueIn {j : Key} {val : Text} (h : IsValue j val) :
    (fileLines (keyLine j val)).filterMap (valueIn k) =
      (if j = k then some val else none).toList := by
  obtain ⟨line, hentry, hread⟩ := h.fileLines_keyLine
  have hline : Config.valueIn k line = if j = k then some val else none := by
    rw [Config.valueIn, hentry, Option.bind_some, keyOf_keyText]
    simp
  have hnewline : Config.valueIn k ['\n'] = none := by
    rw [Config.valueIn, lineEntry_newline]
    rfl
  rcases hread with hread | hread
  · rw [hread, List.filterMap_cons, hline]
    split
    · next hnone => rw [hnone]; rfl
    · next hsome => rw [hsome]; rfl
  · rw [hread, List.filterMap_cons, hline, List.filterMap_cons, hnewline]
    split
    · next hnone => rw [hnone]; rfl
    · next hsome => rw [hsome]; rfl

theorem IsValue.isUnknown {j : Key} {val : Text} (h : IsValue j val) :
    (fileLines (keyLine j val)).filter isUnknown = [] := by
  obtain ⟨line, hentry, hread⟩ := h.fileLines_keyLine
  have hline : Config.isUnknown line = false := by
    rw [Config.isUnknown, hentry]
    simp [keyOf_keyText]
  have hnewline : Config.isUnknown ['\n'] = false := by
    rw [Config.isUnknown, lineEntry_newline]
  rcases hread with hread | hread
  · rw [hread]
    simp [hline]
  · rw [hread]
    simp [hline, hnewline]

theorem valueIn_of_isUnknown {line : Text} (h : isUnknown line = true) : valueIn k line = none := by
  unfold isUnknown at h
  unfold valueIn
  cases hentry : lineEntry line with
  | none => rfl
  | some e =>
    rw [hentry] at h
    have hkey : keyOf e.1 = none := by
      simp only [Bool.and_eq_true, Option.isNone_iff_eq_none] at h
      exact h.1
    simp [hkey]

theorem loadLine_unknown (cfg : DsConfig) (line : Text) :
    (loadLine sys cfg line).unknown = cfg.unknown ++ if isUnknown line then [line] else [] := by
  unfold loadLine isUnknown
  cases lineEntry line with
  | none => simp
  | some e =>
    cases hkey : keyOf e.1 with
    | some j => simp [hkey, DsConfig.set]
    | none =>
      simp only [hkey, Option.isNone_none, Bool.true_and]
      cases droppedKeys.any fun d => d.toList == e.1 with
      | true => simp
      | false => simp

theorem foldl_loadLine_unknown (lines : List Text) (cfg : DsConfig) :
    (lines.foldl (loadLine sys) cfg).unknown = cfg.unknown ++ lines.filter isUnknown := by
  induction lines generalizing cfg with
  | nil => simp
  | cons line lines ih =>
    rw [List.foldl_cons, ih, loadLine_unknown, List.filter_cons, List.append_assoc]
    split
    · rfl
    · rfl

theorem dsConfigLoad_unknown (text : Text) :
    (dsConfigLoad sys text cfg).unknown = (fileLines text).filter isUnknown := by
  rw [dsConfigLoad, foldl_loadLine_unknown, List.nil_append]

/-- Everything that is written is read line by line. -/
structure Readable (sys : System) (android : Bool) (cfg : DsConfig) : Prop where
  lines : ∀ k val, written sys android cfg k = some val → IsValue k val
  unknown : fileLines cfg.unknown.flatten = cfg.unknown
  isUnknown : ∀ line ∈ cfg.unknown, isUnknown line = true

/-- The text of a file, for a configuration whose bind mounts are sorted. -/
def savedText (sys : System) (android : Bool) (cfg : DsConfig) : Text :=
  (header ++ knownLines sys android cfg ++ cfg.unknown).flatten

theorem header_line : ∀ line ∈ header, ∃ body, line = body ++ ['\n'] := by
  simp only [header, List.mem_cons, List.not_mem_nil, or_false, forall_eq_or_imp, forall_eq]
  exact ⟨⟨"# Droidspaces Container Configuration".toList, by decide +kernel⟩,
    ⟨"# Generated automatically - Changes may be overwritten".toList, by decide +kernel⟩,
    ⟨[], rfl⟩⟩

theorem header_entry : ∀ line ∈ header.flatMap fileLines, lineEntry line = none := by
  decide +kernel

variable (h : Readable sys android cfg)
include h

theorem Readable.isValue_of_mem {line : Text} (hline : line ∈ knownLines sys android cfg) :
    ∃ k val, IsValue k val ∧ line = keyLine k val := by
  obtain ⟨k, -, hk⟩ := List.mem_filterMap.1 hline
  obtain ⟨val, hval, rfl⟩ := Option.map_eq_some_iff.1 hk
  exact ⟨k, val, h.lines k val hval, rfl⟩

theorem Readable.fileLines_savedText :
    fileLines (savedText sys android cfg) =
      header.flatMap fileLines ++ (knownLines sys android cfg).flatMap fileLines ++
        cfg.unknown := by
  have hlines : ∀ line ∈ header ++ knownLines sys android cfg,
      ∃ body, line = body ++ ['\n'] := by
    intro line hline
    rcases List.mem_append.1 hline with hline | hline
    · exact header_line line hline
    · obtain ⟨k, val, -, rfl⟩ := h.isValue_of_mem hline
      exact ⟨_, rfl⟩
  rw [savedText, List.flatten_append, fileLines_flatten_append hlines, h.unknown,
    List.flatMap_append]

theorem Readable.valuesOf_savedText (k : Key) :
    valuesOf k (savedText sys android cfg) = (written sys android cfg k).toList := by
  have hheader : (header.flatMap fileLines).filterMap (valueIn k) = [] := by
    rw [List.filterMap_eq_nil_iff]
    intro line hline
    simp [valueIn, header_entry line hline]
  have hunknown : cfg.unknown.filterMap (valueIn k) = [] := by
    rw [List.filterMap_eq_nil_iff]
    intro line hline
    exact valueIn_of_isUnknown (h.isUnknown line hline)
  have hknown : ((knownLines sys android cfg).flatMap fileLines).filterMap (valueIn k) =
      savedKeys.filterMap fun j => if j = k then written sys android cfg k else none := by
    rw [List.filterMap_flatMap, knownLines,
      List.filterMap_eq_flatMap_toList fun j => (written sys android cfg j).map (keyLine j),
      List.flatMap_assoc, List.filterMap_eq_flatMap_toList]
    refine List.flatMap_congr fun j _ => ?_
    cases hval : written sys android cfg j with
    | none =>
      simp only [Option.map_none, Option.toList_none, List.flatMap_nil]
      split
      · next hj => rw [← hj, hval]; rfl
      · rfl
    | some val =>
      rw [Option.map_some, Option.toList_some, List.flatMap_singleton,
        (h.lines j val hval).valueIn]
      split
      · next hj => rw [← hj, hval]
      · rfl
  show (fileLines (savedText sys android cfg)).filterMap (valueIn k) = _
  rw [h.fileLines_savedText, List.filterMap_append, List.filterMap_append, hheader, hunknown,
    hknown, List.nil_append, List.append_nil]
  exact filterMap_single nodup_savedKeys (mem_savedKeys k) _

theorem Readable.unknown_savedText :
    (fileLines (savedText sys android cfg)).filter Config.isUnknown = cfg.unknown := by
  have hheader : (header.flatMap fileLines).filter Config.isUnknown = [] := by
    rw [List.filter_eq_nil_iff]
    intro line hline
    simp [Config.isUnknown, header_entry line hline]
  have hknown : ((knownLines sys android cfg).flatMap fileLines).filter Config.isUnknown = [] := by
    rw [List.filter_flatMap, List.flatMap_eq_nil_iff]
    intro line hline
    obtain ⟨k, val, hvalue, rfl⟩ := h.isValue_of_mem hline
    exact hvalue.isUnknown
  rw [h.fileLines_savedText, List.filter_append, List.filter_append, hheader, hknown,
    List.filter_eq_self.2 h.isUnknown]
  rfl

end Saved

end Droidspaces.Config
