import Droidspaces.Cli.SizeArgument
import Droidspaces.Config.PortTable
import Droidspaces.Shell.Words

/-!
# The grammar of port mappings

A mapping is a port or a range, for the host and, behind a colon, for the container, and a protocol
behind a slash.  `--port` looks for the separators one after the other and reads the numbers with
`atoi`, which does not mind what is behind them, and the protocol from the next three bytes.
`refused_of_not_mapping_iff` says for which tokens that makes a difference.
-/

namespace Droidspaces.Config

open Cli (IsDigits)
open Shell (takeWhile_ne_self dropWhile_ne_self takeWhile_ne_append dropWhile_ne_append)

/-! ## What is meant -/

/-- A number from 1 to 65535. -/
def IsPortNumber (t : Text) : Prop :=
  IsDigits t ∧ 1 ≤ Nat.ofDigitChars 10 t 0 ∧ Nat.ofDigitChars 10 t 0 ≤ 65535

def IsPortSpec (t : Text) : Prop :=
  IsPortNumber t ∨ ∃ first last, t = first ++ '-' :: last ∧ IsPortNumber first ∧ IsPortNumber last

def protocols : List Text := ["tcp".toList, "udp".toList]

/-- `SPEC[:SPEC][/tcp|/udp]` -/
def IsPortMapping (t : Text) : Prop :=
  ∃ host cont suffix, t = host ++ cont ++ suffix ∧ IsPortSpec host ∧
    (cont = [] ∨ ∃ spec, IsPortSpec spec ∧ cont = ':' :: spec) ∧
    (suffix = [] ∨ ∃ proto ∈ protocols, suffix = '/' :: proto)

/-- A token of `--port` without blanks. -/
structure IsPortToken (t : Text) : Prop where
  ne_nil : t ≠ []
  noComma : ',' ∉ t
  noBlank : ∀ c ∈ t, isTabOrSpace c = false

/-- The option is refused, and the table is as before: with the token alone, and wherever it comes
up in a list. -/
def IsRefused (t : Text) : Prop :=
  (∀ ports, applyPortOption t ports = (false, ports)) ∧
    ∀ toks ports, addMappings (t :: toks) ports = (false, ports)

/-! ## What is read -/

/-- What is taken for a port, or for the first and the last of a range: numbers count modulo 2^32,
and only as far as they go. -/
inductive ReadsPorts : Text → ℕ → ℕ → Prop
  | port {side : Text} {p : ℕ} (hdash : '-' ∉ side) (hp : wrap (atoi side) = p) (hpos : 1 ≤ p)
      (hle : p ≤ 65535) : ReadsPorts side p 0
  | range {first last : Text} {a b : ℕ} (hdash : '-' ∉ first)
      (ha : wrap (atoi (first ++ '-' :: last)) = a) (hb : wrap (atoi last) = b) (hpos : 1 ≤ a) (hle : a ≤ b) (hmax : b ≤ 65535) :
      ReadsPorts (first ++ '-' :: last) a b

/-- What is taken for the two sides. -/
inductive ReadsSides : Text → Text → Text → Prop
  | one {spec : Text} (hcolon : ':' ∉ spec) : ReadsSides spec spec spec
  | two {host cont : Text} (hcolon : ':' ∉ host) : ReadsSides (host ++ ':' :: cont) host cont

/-- What is taken for a mapping: two sides of equal width, and a slash with the name of a protocol
and anything behind it, if there is one. -/
def ReadsMapping (t : Text) : Prop :=
  ∃ spec suffix host cont a b c d, t = spec ++ suffix ∧ '/' ∉ spec ∧
    (suffix = [] ∨ ∃ proto ∈ protocols, ∃ rest, suffix = '/' :: proto ++ rest) ∧
    ReadsSides spec host cont ∧ ReadsPorts host a b ∧ ReadsPorts cont c d ∧
    width a b = width c d

theorem parsePorts_single_iff {side : Text} (hdash : '-' ∉ side) (a b : ℕ) :
    parsePorts side = some (a, b) ↔ wrap (atoi side) = a ∧ 1 ≤ a ∧ a ≤ 65535 ∧ b = 0 := by
  rw [parsePorts, dropWhile_ne_self hdash]
  simp only [Option.ite_none_left_eq_some, Option.some.injEq, Prod.mk.injEq, Bool.or_eq_true,
    decide_eq_true_eq]
  omega

theorem parsePorts_dash_iff {first : Text} (hdash : '-' ∉ first) (last : Text) (a b : ℕ) :
    parsePorts (first ++ '-' :: last) = some (a, b) ↔
      wrap (atoi (first ++ '-' :: last)) = a ∧ wrap (atoi last) = b ∧ 1 ≤ a ∧ a ≤ b ∧
        b ≤ 65535 := by
  rw [parsePorts, dropWhile_ne_append hdash]
  simp only [Option.ite_none_left_eq_some, Option.some.injEq, Prod.mk.injEq, Bool.or_eq_true,
    decide_eq_true_eq]
  omega

theorem parsePorts_iff {side : Text} {a b : ℕ} :
    parsePorts side = some (a, b) ↔ ReadsPorts side a b := by
  constructor
  · intro h
    by_cases hdash : '-' ∈ side
    · obtain ⟨first, last, rfl, hfirst⟩ := List.eq_append_cons_of_mem hdash
      obtain ⟨ha, hb, hpos, hle, hmax⟩ := (parsePorts_dash_iff hfirst last a b).1 h
      exact .range hfirst ha hb hpos hle hmax
    · obtain ⟨ha, hpos, hle, rfl⟩ := (parsePorts_single_iff hdash a b).1 h
      exact .port hdash ha hpos hle
  · rintro (⟨hdash, ha, hpos, hle⟩ | ⟨hdash, ha, hb, hpos, hle, hmax⟩)
    · exact (parsePorts_single_iff hdash a 0).2 ⟨ha, hpos, hle, rfl⟩
    · exact (parsePorts_dash_iff hdash _ a b).2 ⟨ha, hb, hpos, hle, hmax⟩

/-- The sides as the parser takes them. -/
def sidesOf (spec : Text) : Text × Text :=
  (spec.takeWhile (· != ':'), match spec.dropWhile (· != ':') with
    | [] => spec
    | _ :: rest => rest)

theorem sidesOf_iff {spec host cont : Text} :
    sidesOf spec = (host, cont) ↔ ReadsSides spec host cont := by
  constructor
  · intro h
    by_cases hcolon : ':' ∈ spec
    · obtain ⟨first, rest, rfl, hfirst⟩ := List.eq_append_cons_of_mem hcolon
      rw [sidesOf, takeWhile_ne_append hfirst, dropWhile_ne_append hfirst] at h
      obtain ⟨rfl, rfl⟩ := Prod.mk.inj h
      exact .two hfirst
    · rw [sidesOf, takeWhile_ne_self hcolon, dropWhile_ne_self hcolon] at h
      obtain ⟨rfl, rfl⟩ := Prod.mk.inj h
      exact .one hcolon
  · rintro (hcolon | hcolon)
    · rw [sidesOf, takeWhile_ne_self hcolon, dropWhile_ne_self hcolon]
    · rw [sidesOf, takeWhile_ne_append hcolon, dropWhile_ne_append hcolon]

theorem take_three_mem_protocols {rest : Text} :
    rest.take 3 ∈ protocols ↔ ∃ proto ∈ protocols, ∃ rest', rest = proto ++ rest' := by
  constructor
  · intro h
    exact ⟨_, h, rest.drop 3, (List.take_append_drop 3 rest).symm⟩
  · rintro ⟨proto, hproto, rest', rfl⟩
    have hlen : proto.length = 3 := by
      revert proto
      decide
    rwa [List.take_left' hlen]

/-- The protocol as the parser takes it. -/
def protoOf (t : Text) : Text :=
  match t.dropWhile (· != '/') with
  | [] => "tcp".toList
  | _ :: rest => rest.take 3

theorem exists_parse {t : Text} (hblank : ∀ c ∈ t, isTabOrSpace c = false) :
    (∃ pf, parsePortOption t = some pf) ↔
      protoOf t ∈ protocols ∧
        ∃ a b c d, parsePorts (sidesOf (t.takeWhile (· != '/'))).1 = some (a, b) ∧
          parsePorts (sidesOf (t.takeWhile (· != '/'))).2 = some (c, d) ∧
          width a b = width c d := by
  have hstart : t.dropWhile isTabOrSpace = t := by
    cases t with
    | nil => rfl
    | cons c t => rw [List.dropWhile_cons_of_neg (by simp [hblank c List.mem_cons_self])]
  have hproto : protoOf t ∈ protocols ↔ protoOf t = "tcp".toList ∨ protoOf t = "udp".toList := by
    simp [protocols]
  rw [hproto, parsePortOption_eq, parsePortForward, hstart]
  simp only [Option.bind_eq_bind, Option.bind_eq_some_iff, Option.guard_eq_some', Option.pure_def,
    Option.some.injEq]
  constructor
  · rintro ⟨pf, -, hguard, ⟨a, b⟩, hhost, ⟨c, d⟩, hcont, -, hwidth, -⟩
    exact ⟨hguard, a, b, c, d, hhost, hcont, hwidth⟩
  · rintro ⟨hguard, a, b, c, d, hhost, hcont, hwidth⟩
    exact ⟨_, (), hguard, (a, b), hhost, (c, d), hcont, (), hwidth, rfl⟩

/-- What the parser accepts. -/
theorem exists_parse_iff {t : Text} (hblank : ∀ c ∈ t, isTabOrSpace c = false) :
    (∃ pf, parsePortOption t = some pf) ↔ ReadsMapping t := by
  rw [exists_parse hblank]
  constructor
  · rintro ⟨hproto, a, b, c, d, hhost, hcont, hwidth⟩
    rw [parsePorts_iff] at hhost hcont
    by_cases hslash : '/' ∈ t
    · obtain ⟨spec, rest, rfl, hspec⟩ := List.eq_append_cons_of_mem hslash
      rw [protoOf, dropWhile_ne_append hspec] at hproto
      rw [takeWhile_ne_append hspec] at hhost hcont
      obtain ⟨proto, hmem, rest', rfl⟩ := take_three_mem_protocols.1 hproto
      exact ⟨spec, _, _, _, a, b, c, d, rfl, hspec, Or.inr ⟨proto, hmem, rest', rfl⟩,
        sidesOf_iff.1 rfl, hhost, hcont, hwidth⟩
    · rw [takeWhile_ne_self hslash] at hhost hcont
      exact ⟨t, [], _, _, a, b, c, d, (List.append_nil t).symm, hslash, Or.inl rfl,
        sidesOf_iff.1 rfl, hhost, hcont, hwidth⟩
  · rintro ⟨spec, suffix, host, cont, a, b, c, d, rfl, hslash, hsuffix, hsides, hhost, hcont,
      hwidth⟩
    have hcut : (spec ++ suffix).takeWhile (· != '/') = spec ∧
        protoOf (spec ++ suffix) ∈ protocols := by
      rcases hsuffix with rfl | ⟨proto, hmem, rest, rfl⟩
      · rw [List.append_nil, protoOf, dropWhile_ne_self hslash]
        exact ⟨takeWhile_ne_self hslash, List.mem_cons_self⟩
      · rw [List.cons_append, protoOf, dropWhile_ne_append hslash]
        exact ⟨takeWhile_ne_append hslash _, take_three_mem_protocols.2 ⟨proto, hmem, rest, rfl⟩⟩
    rw [← parsePorts_iff] at hhost hcont
    rw [hcut.1, sidesOf_iff.2 hsides]
    exact ⟨hcut.2, a, b, c, d, hhost, hcont, hwidth⟩

/-! ## Which tokens are refused -/

theorem addMappings_refused {t : Text} (hblank : ∀ c ∈ t, isTabOrSpace c = false)
    (h : ¬ ReadsMapping t) (toks : List Text) (ports : List PortForward) :
    addMappings (t :: toks) ports = (false, ports) := by
  rw [← exists_parse_iff hblank] at h
  have hnone : parsePortOption t = none :=
    Option.eq_none_iff_forall_not_mem.2 fun pf hpf => h ⟨pf, hpf⟩
  rw [addMappings, hnone]
  exact ite_self _

/-- An empty table has room for any mapping. -/
theorem addMappings_accepted {t : Text} (hblank : ∀ c ∈ t, isTabOrSpace c = false)
    (h : ReadsMapping t) : (addMappings [t] []).1 = true := by
  obtain ⟨pf, hpf⟩ := (exists_parse_iff hblank).2 h
  simp [addMappings, hpf, maxPortForwards]

/-- What is left of a token in the buffer is one token. -/
theorem IsPortToken.tokens_take {t : Text} (h : IsPortToken t) :
    tokens (t.take 1023) = [t.take 1023] := by
  have hne : t.take 1023 ≠ [] := by simp [List.take_eq_nil_iff, h.ne_nil]
  rw [tokens, List.splitOn_eq_singleton fun hmem => h.noComma (List.mem_of_mem_take hmem)]
  simp [hne]

theorem isRefused_iff_not_reads {t : Text} (h : IsPortToken t) :
    IsRefused t ↔ ¬ ReadsMapping t ∧ ¬ ReadsMapping (t.take 1023) := by
  have hblank : ∀ c ∈ t.take 1023, isTabOrSpace c = false :=
    fun c hc => h.noBlank c (List.mem_of_mem_take hc)
  simp only [IsRefused, applyPortOption, h.tokens_take]
  constructor
  · rintro ⟨halone, hlist⟩
    refine ⟨fun hreads => ?_, fun hreads => ?_⟩
    · have haccepted := addMappings_accepted h.noBlank hreads
      rw [hlist] at haccepted
      cases haccepted
    · have haccepted := addMappings_accepted hblank hreads
      rw [halone] at haccepted
      cases haccepted
  · rintro ⟨hwhole, hcut⟩
    exact ⟨addMappings_refused hblank hcut [], addMappings_refused h.noBlank hwhole⟩

/-- The characters of a mapping. -/
def isPortChar (c : Char) : Bool := c.isDigit || "-:/tcpud".toList.contains c

theorem isPortChar_of_mem {t : Text} (h : IsPortMapping t) : ∀ c ∈ t, isPortChar c = true := by
  have hnumber {t : Text} (h : IsPortNumber t) : ∀ c ∈ t, isPortChar c = true := fun c hc => by
    rw [isPortChar, h.1.2 c hc, Bool.true_or]
  have hspec {t : Text} (h : IsPortSpec t) : ∀ c ∈ t, isPortChar c = true := by
    rcases h with h | ⟨first, last, rfl, hfirst, hlast⟩
    · exact hnumber h
    · exact List.forall_mem_append.2
        ⟨hnumber hfirst, List.forall_mem_cons.2 ⟨by decide, hnumber hlast⟩⟩
  obtain ⟨host, cont, suffix, rfl, hhost, hcont, hsuffix⟩ := h
  refine List.forall_mem_append.2 ⟨List.forall_mem_append.2 ⟨hspec hhost, ?_⟩, ?_⟩
  · rcases hcont with rfl | ⟨spec, hs, rfl⟩
    · exact fun c hc => absurd hc List.not_mem_nil
    · exact List.forall_mem_cons.2 ⟨by decide, hspec hs⟩
  · rcases hsuffix with rfl | ⟨proto, hproto, rfl⟩
    · exact fun c hc => absurd hc List.not_mem_nil
    · have hall : protocols.all (·.all isPortChar) = true := by decide +kernel
      exact List.forall_mem_cons.2
        ⟨by decide, List.all_eq_true.1 (List.all_eq_true.1 hall proto hproto)⟩

/-- **Tokens that are no mapping are refused exactly if they are not read as one either**, whole or
up to the end of the buffer. -/
theorem refused_of_not_mapping_iff {t : Text} (h : IsPortToken t) :
    (¬ IsPortMapping t → IsRefused t) ↔
      IsPortMapping t ∨ ¬ ReadsMapping t ∧ ¬ ReadsMapping (t.take 1023) := by
  rw [isRefused_iff_not_reads h]
  exact or_iff_not_imp_left.symm

theorem refused_web : IsRefused "80:web".toList := by
  have hvisible : "80:web".toList.all (!isTabOrSpace ·) = true := by decide +kernel
  have htoken : IsPortToken "80:web".toList :=
    ⟨by decide, by decide, fun c hc => by simpa using List.all_eq_true.1 hvisible c hc⟩
  have hmapping : ¬ IsPortMapping "80:web".toList := fun hmapping =>
    absurd (isPortChar_of_mem hmapping 'w' (by decide)) (by decide)
  have hreads : ¬ ReadsMapping "80:web".toList := by
    rw [← exists_parse_iff htoken.noBlank]
    rintro ⟨pf, hpf⟩
    have hnone : parsePortOption "80:web".toList = none := by decide +kernel
    rw [hnone] at hpf
    cases hpf
  exact (refused_of_not_mapping_iff htoken).2 (Or.inr ⟨hreads, hreads⟩) hmapping

/-- What is behind the number goes unnoticed. -/
theorem not_refused_suffix :
    ¬ (¬ IsPortMapping "80x:80".toList → IsRefused "80x:80".toList) := by
  intro h
  have hmapping : ¬ IsPortMapping "80x:80".toList := fun hmapping =>
    absurd (isPortChar_of_mem hmapping 'x' (by decide)) (by decide)
  have hrefused := (h hmapping).2 [] []
  have haccepted : (addMappings ["80x:80".toList] []).1 = true := by decide +kernel
  rw [hrefused] at haccepted
  cases haccepted

end Droidspaces.Config
