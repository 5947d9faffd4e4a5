import Droidspaces.Config.RoundTrip
import Mathlib.Data.Option.Basic

/-!
# The records of installed port forwards

`ds_ipt_add_portforwards` writes one line to a state file for each rule that it inserted, and
`pf_state_remove` deletes what it reads there.  Writer and reader agree: `lineDeletes_line` says
that a record is read back as the rules it stands for, and `readLines_lines` that the lines of a
state file are read one by one.
-/

namespace Droidspaces.PortForwards

open Config (PortForward decimal fgets)

/-! ## What is written -/

/-- `snprintf` or `safe_strncpy` into a buffer of `size` bytes. -/
def bounded (size : ℕ) (text : Text) : Text := text.take (size - 1)

/-- The strings of one port forward. -/
structure PortTexts where
  /-- `host_port_str` -/
  host : Text
  /-- `cont_port_str` -/
  cont : Text
  /-- `to_dest` -/
  dest : Text

def pfFmtPorts (pf : PortForward) (ip : Text) : PortTexts :=
  if pf.hostPortEnd ≠ 0 then
    { host := bounded 16 (decimal pf.hostPort ++ ':' :: decimal pf.hostPortEnd)
      cont := bounded 16 (decimal pf.containerPort ++ ':' :: decimal pf.containerPortEnd)
      dest := bounded 80
        (ip ++ ':' :: decimal pf.containerPort ++ '-' :: decimal pf.containerPortEnd) }
  else
    { host := bounded 16 (decimal pf.hostPort)
      cont := bounded 16 (decimal pf.containerPort)
      dest := bounded 80 (ip ++ ':' :: decimal pf.containerPort) }

/-- The arguments of `iptables` after `-I <chain> 1` or `-D <chain>`. -/
inductive RuleSpec where
  /-- nat `PREROUTING`: `-p proto [-m addrtype --dst-type LOCAL] --dport host -j DNAT
  --to-destination dest` -/
  | dnat (addrtype : Bool) (proto host dest : Text)
  /-- `FORWARD`: `-p proto -d ip --dport cont -j ACCEPT` -/
  | forward (proto ip cont : Text)
  /-- nat `OUTPUT`: `-p proto -o lo --dport host -j DNAT --to-destination dest` -/
  | localOut (proto host dest : Text)
  /-- nat `POSTROUTING`: `-p proto -d ip --dport cont -j MASQUERADE` -/
  | localPost (proto ip cont : Text)
  deriving DecidableEq

inductive Variant where
  | addrtype
  | basic
  | localOut
  | localPost

def Variant.text : Variant → Text
  | addrtype => "addrtype".toList
  | basic => "basic".toList
  | localOut => "local_out".toList
  | localPost => "local_post".toList

/-- What one line of the state file says. -/
structure Record where
  variant : Variant
  proto : Text
  ports : PortTexts

/-- The line that `pf_state_append` writes, without its end. -/
def Record.line (r : Record) : Text :=
  r.variant.text ++ ' ' :: (r.proto ++ ' ' :: (r.ports.host ++ ' ' ::
    (r.ports.dest ++ ' ' :: r.ports.cont)))

/-! ## What is read -/

/-- `%<n>s` of `sscanf`: the word and what follows it. -/
def scanWord (n : ℕ) (t : Text) : Option (Text × Text) :=
  let t := t.dropWhile isSpace
  let word := (t.takeWhile fun c => !isSpace c).take n
  if word = [] then none else some (word, t.drop word.length)

/-- The rules that `pf_state_remove` deletes for a line. -/
def lineDeletes (ip line : Text) : List RuleSpec :=
  let line := if line.getLast? = some '\n' then line.dropLast else line
  let fields := do
    let (variant, rest) ← scanWord 15 line
    let (proto, rest) ← scanWord 3 rest
    let (host, rest) ← scanWord 15 rest
    let (dest, rest) ← scanWord 79 rest
    let (cont, _) ← scanWord 15 rest
    return (variant, proto, host, dest, cont)
  match fields with
  | none => []
  | some (variant, proto, host, dest, cont) =>
    if variant = "addrtype".toList then
      [.dnat true proto host dest, .forward proto (bounded 16 ip) cont]
    else if variant = "basic".toList then
      [.dnat false proto host dest, .forward proto (bounded 16 ip) cont]
    else if variant = "local_out".toList then [.localOut proto host dest]
    else if variant = "local_post".toList then [.localPost proto (bounded 16 ip) cont]
    else []

/-- The pieces that `fgets(line, 256, f)` returns. -/
def readLines (text : Text) : List Text := fgets 254 text 254

/-! ## Reading back what was written -/

/-- A field of at most `n` characters that ends at a blank. -/
structure IsField (n : ℕ) (w : Text) : Prop where
  ne_nil : w ≠ []
  graphic : ∀ c ∈ w, isSpace c = false
  length_le : w.length ≤ n

theorem scanWord_blank (n : ℕ) (t : Text) : scanWord n (' ' :: t) = scanWord n t := by
  have hdrop : (' ' :: t).dropWhile isSpace = t.dropWhile isSpace := by
    simp [isSpace]
  simp only [scanWord, hdrop]

theorem scanWord_field {n : ℕ} {w : Text} (hw : IsField n w) {rest : Text}
    (hrest : ∀ c ∈ rest.head?, isSpace c = true) : scanWord n (w ++ rest) = some (w, rest) := by
  have hstart : (w ++ rest).dropWhile isSpace = w ++ rest := by
    obtain ⟨c, w', rfl⟩ := List.exists_cons_of_ne_nil hw.ne_nil
    simp [hw.graphic c List.mem_cons_self]
  have hend : rest.takeWhile (fun c => !isSpace c) = [] := by
    cases rest with
    | nil => rfl
    | cons c rest => simp [hrest c rfl]
  have hword : (w ++ rest).takeWhile (fun c => !isSpace c) = w := by
    rw [List.takeWhile_append_of_pos (fun c hc => by simp [hw.graphic c hc]), hend,
      List.append_nil]
  simp only [scanWord, hstart, hword, List.take_of_length_le hw.length_le, if_neg hw.ne_nil,
    List.drop_left]

/-- A field, and the blank after it. -/
theorem scanWord_field_blank {n : ℕ} {w : Text} (hw : IsField n w) (rest : Text) :
    scanWord n (w ++ ' ' :: rest) = some (w, ' ' :: rest) := by
  apply scanWord_field hw
  rintro c ⟨⟩
  rfl

/-- The fields of a record fit the buffers of the reader. -/
structure Record.Fits (r : Record) : Prop where
  proto : IsField 3 r.proto
  host : IsField 15 r.ports.host
  dest : IsField 79 r.ports.dest
  cont : IsField 15 r.ports.cont

/-- The rules that a record stands for. -/
def Record.rules (ip : Text) (r : Record) : List RuleSpec :=
  match r.variant with
  | .addrtype => [.dnat true r.proto r.ports.host r.ports.dest, .forward r.proto ip r.ports.cont]
  | .basic => [.dnat false r.proto r.ports.host r.ports.dest, .forward r.proto ip r.ports.cont]
  | .localOut => [.localOut r.proto r.ports.host r.ports.dest]
  | .localPost => [.localPost r.proto ip r.ports.cont]

theorem Variant.isField (v : Variant) : IsField 15 v.text := by
  have hall : v.text ≠ [] ∧ (v.text.all fun c => !isSpace c) = true ∧ v.text.length ≤ 15 := by
    cases v <;> decide
  obtain ⟨hne, hgraphic, hlen⟩ := hall
  refine ⟨hne, fun c hc => ?_, hlen⟩
  simpa using List.all_eq_true.1 hgraphic c hc

section Line

variable {r : Record} (h : r.Fits)
include h

theorem Record.Fits.graphic {c : Char} (hc : c ∈ r.line) : c = ' ' ∨ isSpace c = false := by
  simp only [Record.line, List.mem_append, List.mem_cons] at hc
  rcases hc with hc | hc | hc | hc | hc | hc | hc | hc | hc
  · exact Or.inr (r.variant.isField.graphic c hc)
  · exact Or.inl hc
  · exact Or.inr (h.proto.graphic c hc)
  · exact Or.inl hc
  · exact Or.inr (h.host.graphic c hc)
  · exact Or.inl hc
  · exact Or.inr (h.dest.graphic c hc)
  · exact Or.inl hc
  · exact Or.inr (h.cont.graphic c hc)

theorem Record.Fits.newline_not_mem : '\n' ∉ r.line := by
  intro hmem
  rcases h.graphic hmem with heq | hspace
  · exact absurd heq (by decide)
  · exact absurd hspace (by decide)

theorem Record.Fits.length_line : r.line.length ≤ 254 := by
  have hvariant := r.variant.isField.length_le
  have hproto := h.proto.length_le
  have hhost := h.host.length_le
  have hdest := h.dest.length_le
  have hcont := h.cont.length_le
  simp only [Record.line, List.length_append, List.length_cons]
  omega

/-- **A record is read back as the rules it stands for.** -/
theorem lineDeletes_line {ip : Text} (hip : ip.length ≤ 15) :
    lineDeletes ip (r.line ++ ['\n']) = r.rules ip := by
  have hline : (if (r.line ++ ['\n']).getLast? = some '\n' then (r.line ++ ['\n']).dropLast
      else r.line ++ ['\n']) = r.line := by
    rw [if_pos (by simp), List.dropLast_concat]
  have hcont : scanWord 15 (' ' :: r.ports.cont) = some (r.ports.cont, []) := by
    rw [scanWord_blank]
    have hend : ∀ c ∈ ([] : Text).head?, isSpace c = true := by simp
    simpa using scanWord_field h.cont hend
  have hbounded : bounded 16 ip = ip := List.take_of_length_le hip
  simp only [lineDeletes, hline]
  simp only [Record.line, scanWord_field_blank r.variant.isField, scanWord_blank,
    scanWord_field_blank h.proto, scanWord_field_blank h.host, scanWord_field_blank h.dest, hcont,
    Option.bind_eq_bind, Option.bind_some, Option.pure_def, hbounded]
  obtain ⟨variant, proto, ports⟩ := r
  cases variant <;> rfl

end Line

/-- **A state file is read record by record.** -/
theorem readLines_lines {records : List Record} (h : ∀ r ∈ records, r.Fits) :
    readLines (records.flatMap fun r => r.line ++ ['\n']) =
      records.map fun r => r.line ++ ['\n'] := by
  induction records with
  | nil => simp [readLines, fgets]
  | cons r records ih =>
    have hr := h r List.mem_cons_self
    have hrest := ih fun r' hr' => h r' (List.mem_cons_of_mem r hr')
    rw [readLines] at hrest ⊢
    rw [List.flatMap_cons, List.append_assoc, List.singleton_append,
      Config.fgets_append 254, Config.fgets_line 254 hr.newline_not_mem
        hr.length_line, hrest, List.map_cons, List.singleton_append]

/-! ## The records of accepted port forwards -/

/-- What the parser of the configuration accepts. -/
structure Accepted (pf : PortForward) : Prop where
  hostPort : pf.hostPort ≤ 65535
  hostPortEnd : pf.hostPortEnd ≤ 65535
  containerPort : pf.containerPort ≤ 65535
  containerPortEnd : pf.containerPortEnd ≤ 65535
  proto : pf.proto = "tcp".toList ∨ pf.proto = "udp".toList

theorem IsField.mono {m n : ℕ} {w : Text} (h : IsField m w) (hmn : m ≤ n) : IsField n w :=
  ⟨h.ne_nil, h.graphic, h.length_le.trans hmn⟩

theorem IsField.join {m n : ℕ} {v w : Text} (hv : IsField m v) (hw : IsField n w) {c : Char}
    (hc : isSpace c = false) : IsField (m + 1 + n) (v ++ c :: w) where
  ne_nil := by simp
  graphic d hd := by
    simp only [List.mem_append, List.mem_cons] at hd
    rcases hd with hd | rfl | hd
    · exact hv.graphic d hd
    · exact hc
    · exact hw.graphic d hd
  length_le := by
    have hlv := hv.length_le
    have hlw := hw.length_le
    rw [List.length_append, List.length_cons]
    omega

theorem isField_decimal {n : ℕ} (hn : n ≤ 65535) : IsField 5 (decimal n) where
  ne_nil := Nat.toDigits_ne_nil
  graphic _ hc := Config.isSpace_of_isDigit (Config.isDigit_of_mem_decimal hc)
  length_le := (Nat.length_toDigits_le_iff (by decide) (by decide)).2 (by omega)

/-- An IPv4 address as text is a field of 15 characters. -/
theorem isField_address {a b c d : ℕ} (ha : a < 256) (hb : b < 256) (hc : c < 256) (hd : d < 256) :
    IsField 15 (decimal a ++ '.' :: (decimal b ++ '.' :: (decimal c ++ '.' :: decimal d))) := by
  have hbyte {n : ℕ} (hn : n < 256) : IsField 3 (decimal n) :=
    ⟨Nat.toDigits_ne_nil, (isField_decimal (by omega)).graphic,
      (Nat.length_toDigits_le_iff (by decide) (by decide)).2 (by omega)⟩
  have hdot : isSpace '.' = false := by decide
  exact (hbyte ha).join ((hbyte hb).join ((hbyte hc).join (hbyte hd) hdot) hdot) hdot

theorem bounded_of_isField {n : ℕ} {w : Text} (h : IsField n w) : bounded (n + 1) w = w :=
  List.take_of_length_le h.length_le

/-- **The strings of an accepted port forward fit the reader.** -/
theorem fits_of_accepted {pf : PortForward} (hpf : Accepted pf) {ip : Text} (hip : IsField 15 ip)
    (variant : Variant) : Record.Fits ⟨variant, pf.proto, pfFmtPorts pf ip⟩ := by
  have hcolon : isSpace ':' = false := by decide
  have hdash : isSpace '-' = false := by decide
  have hproto : IsField 3 pf.proto := by
    have hall : pf.proto ≠ [] ∧ (pf.proto.all fun c => !isSpace c) = true ∧
        pf.proto.length ≤ 3 := by
      rcases hpf.proto with heq | heq <;> rw [heq] <;> decide
    exact ⟨hall.1, fun c hc => by simpa using List.all_eq_true.1 hall.2.1 c hc, hall.2.2⟩
  have hhost := isField_decimal hpf.hostPort
  have hcont := isField_decimal hpf.containerPort
  unfold pfFmtPorts
  split
  · have hhost' := (hhost.join (isField_decimal hpf.hostPortEnd) hcolon).mono
      (show 5 + 1 + 5 ≤ 15 by omega)
    have hcont' := (hcont.join (isField_decimal hpf.containerPortEnd) hcolon).mono
      (show 5 + 1 + 5 ≤ 15 by omega)
    have hdest := ((hip.join hcont hcolon).join (isField_decimal hpf.containerPortEnd) hdash).mono
      (show 15 + 1 + 5 + 1 + 5 ≤ 79 by omega)
    rw [bounded_of_isField hhost', bounded_of_isField hcont', bounded_of_isField hdest]
    exact ⟨hproto, hhost', hdest, hcont'⟩
  · have hhost' := hhost.mono (show 5 ≤ 15 by omega)
    have hcont' := hcont.mono (show 5 ≤ 15 by omega)
    have hdest := (hip.join hcont hcolon).mono (show 15 + 1 + 5 ≤ 79 by omega)
    rw [bounded_of_isField hhost', bounded_of_isField hcont', bounded_of_isField hdest]
    exact ⟨hproto, hhost', hdest, hcont'⟩

/-! ## The parser accepts what fits -/

theorem le_of_parsePorts {side : Text} {first last : ℕ}
    (h : Config.parsePorts side = some (first, last)) : first ≤ 65535 ∧ last ≤ 65535 := by
  unfold Config.parsePorts at h
  split at h
  · simp only [Option.ite_none_left_eq_some, Option.some.injEq, Prod.mk.injEq, Bool.or_eq_true,
      decide_eq_true_eq] at h
    omega
  · simp only [Option.ite_none_left_eq_some, Option.some.injEq, Prod.mk.injEq, Bool.or_eq_true,
      decide_eq_true_eq] at h
    omega

theorem accepted_of_parse {tok : Text} {pf : PortForward}
    (h : Config.parsePortForward tok = some pf) : Accepted pf := by
  simp only [Config.parsePortForward, Option.bind_eq_bind, Option.bind_eq_some_iff,
    Option.guard_eq_some', Option.pure_def, Option.some.injEq] at h
  obtain ⟨-, hproto, ⟨host, hostEnd⟩, hhost, ⟨cont, contEnd⟩, hcont, -, -, rfl⟩ := h
  obtain ⟨hh, hhe⟩ := le_of_parsePorts hhost
  obtain ⟨hc, hce⟩ := le_of_parsePorts hcont
  exact ⟨hh, hhe, hc, hce, hproto⟩

/-- Every list that the configuration accepts. -/
theorem accepted_of_mem_parse {val : Text} {ports : List PortForward}
    (hports : ∀ pf ∈ ports, Accepted pf) :
    ∀ pf ∈ Config.parsePortForwards val ports, Accepted pf := by
  unfold Config.parsePortForwards
  generalize Config.tokens (val.take 1023) = toks
  induction toks generalizing ports with
  | nil => exact hports
  | cons tok toks ih =>
    apply ih
    intro pf hpf
    cases hnew : Config.newPort ports tok with
    | none => exact hports pf (by simpa [Config.extend, hnew] using hpf)
    | some new =>
      have hmem : pf ∈ ports ∨ pf = new := by simpa [Config.extend, hnew] using hpf
      rcases hmem with hmem | rfl
      · exact hports pf hmem
      · simp only [Config.newPort, Option.ite_none_left_eq_some, Option.filter_eq_some_iff] at hnew
        exact accepted_of_parse hnew.2.1

end Droidspaces.PortForwards
