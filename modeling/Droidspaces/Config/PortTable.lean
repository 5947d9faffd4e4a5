import Droidspaces.Config.Reload
import Droidspaces.Config.RoundTrip
import Mathlib.Data.Option.Basic
import Mathlib.Data.Set.Lattice
import Mathlib.Order.CompletePartialOrder
import Mathlib.Order.Interval.Set.Basic

/-!
# The table of port forwards

A table is filled by `port_forwards` lines and by `--port` options, each with a parser of its own.
`portTable_built` says what holds of a table whatever it is filled from, and
`load_portLine_iff` which tables a saved line gives back.
-/

namespace Droidspaces.Config

/-! ## The option -/

/-- A mapping of `--port`. The protocol is looked at first. -/
def parsePortOption (tok : Text) : Option PortForward := do
  let tok := tok.dropWhile isTabOrSpace
  let spec := tok.takeWhile (· != '/')
  let proto ← match tok.dropWhile (· != '/') with
    | [] => some "tcp".toList
    | _ :: rest =>
      let proto := rest.take 3
      if proto = "tcp".toList ∨ proto = "udp".toList then some proto else none
  let hostSide := spec.takeWhile (· != ':')
  let contSide := match spec.dropWhile (· != ':') with
    | [] => spec
    | _ :: rest => rest
  let (hostPort, hostPortEnd) ← parsePorts hostSide
  let (containerPort, containerPortEnd) ← parsePorts contSide
  guard (width hostPort hostPortEnd = width containerPort containerPortEnd)
  return { hostPort, hostPortEnd, containerPort, containerPortEnd, proto }

/-- A mapping that is not accepted ends the program; the ones before it are in the table by then. -/
def addMappings : List Text → List PortForward → Bool × List PortForward
  | [], ports => (true, ports)
  | tok :: toks, ports =>
    if maxPortForwards ≤ ports.length then (false, ports)
    else
      match parsePortOption tok with
      | none => (false, ports)
      | some pf => addMappings toks (if ports.any (conflicts pf) then ports else ports ++ [pf])

/-- `--port`, and whether the option is accepted. -/
def applyPortOption (val : Text) (ports : List PortForward) : Bool × List PortForward :=
  addMappings (tokens (val.take 1023)) ports

/-- The two parsers read a mapping alike. -/
theorem parsePortOption_eq (tok : Text) : parsePortOption tok = parsePortForward tok := by
  unfold parsePortOption parsePortForward
  dsimp only
  cases (tok.dropWhile isTabOrSpace).dropWhile (· != '/') with
  | nil =>
    simp only [guard]
    rfl
  | cons c rest =>
    dsimp only
    by_cases hproto : rest.take 3 = "tcp".toList ∨ rest.take 3 = "udp".toList
    · simp only [guard, if_pos hproto]
      rfl
    · simp only [guard, if_neg hproto]
      rfl

theorem extend_newPort {ports : List PortForward} {tok : Text} {pf : PortForward}
    (hroom : ports.length < maxPortForwards) (htok : parsePortForward tok = some pf) :
    extend newPort ports tok = if ports.any (conflicts pf) then ports else ports ++ [pf] := by
  unfold extend newPort
  rw [if_neg (by omega), htok]
  cases hany : ports.any (conflicts pf) with
  | true => simp [Option.filter, hany]
  | false => simp [Option.filter, hany]

/-- However it ends, the table is one that the mappings of some text give. -/
theorem exists_foldl_of_addMappings (toks : List Text) (ports : List PortForward) :
    ∃ toks', (addMappings toks ports).2 = toks'.foldl (extend newPort) ports ∧
      ((addMappings toks ports).1 = true → toks' = toks) := by
  induction toks generalizing ports with
  | nil => exact ⟨[], rfl, fun _ => rfl⟩
  | cons tok toks ih =>
    unfold addMappings
    split
    · exact ⟨[], rfl, fun hfalse => absurd hfalse (by simp)⟩
    · next hroom =>
      cases htok : parsePortOption tok with
      | none => exact ⟨[], rfl, fun hfalse => absurd hfalse (by simp)⟩
      | some pf =>
        rw [parsePortOption_eq] at htok
        dsimp only
        rw [← extend_newPort (by omega) htok]
        obtain ⟨toks', htable, hall⟩ := ih (extend newPort ports tok)
        exact ⟨tok :: toks', htable, fun htrue => by rw [hall htrue]⟩

/-- What the option accepts, the line takes to the same table. -/
theorem parsePortForwards_of_applyPortOption {val : Text} {ports ports' : List PortForward}
    (h : applyPortOption val ports = (true, ports')) : parsePortForwards val ports = ports' := by
  obtain ⟨toks', htable, hall⟩ := exists_foldl_of_addMappings (tokens (val.take 1023)) ports
  have haccept : addMappings (tokens (val.take 1023)) ports = (true, ports') := h
  rw [haccept] at htable hall
  rw [parsePortForwards, ← hall rfl]
  exact htable.symm

/-! ## What holds of a table -/

/-- The ports of a range, or the one port. -/
def portRange (first last : ℕ) : Set ℕ := Set.Icc first (if last = 0 then first else last)

namespace PortForward

def hostRange (pf : PortForward) : Set ℕ := portRange pf.hostPort pf.hostPortEnd

def containerRange (pf : PortForward) : Set ℕ := portRange pf.containerPort pf.containerPortEnd

/-- A mapping as the parsers make them. -/
structure IsMapping (pf : PortForward) : Prop where
  host : IsPorts pf.hostPort pf.hostPortEnd
  container : IsPorts pf.containerPort pf.containerPortEnd
  width : width pf.hostPort pf.hostPortEnd = width pf.containerPort pf.containerPortEnd
  proto : pf.proto = "tcp".toList ∨ pf.proto = "udp".toList

/-- Two mappings that are not in each other's way. -/
def Apart (ex pf : PortForward) : Prop :=
  ex.proto = pf.proto →
    Disjoint ex.hostRange pf.hostRange ∧ Disjoint ex.containerRange pf.containerRange

end PortForward

structure IsPortTable (ports : List PortForward) : Prop where
  count : ports.length ≤ maxPortForwards
  mapping : ∀ pf ∈ ports, pf.IsMapping
  apart : ports.Pairwise PortForward.Apart

theorem rangesMeet_eq_false_iff {first last first' last' : ℕ} (h : IsPorts first last)
    (h' : IsPorts first' last') :
    rangesMeet first last first' last' = false ↔
      Disjoint (portRange first' last') (portRange first last) := by
  rw [rangesMeet, Bool.and_eq_false_iff, decide_eq_false_iff_not, decide_eq_false_iff_not,
    Set.disjoint_left]
  have hle : first ≤ if last = 0 then first else last := by
    obtain ⟨-, -, hlast⟩ := h
    split <;> omega
  have hle' : first' ≤ if last' = 0 then first' else last' := by
    obtain ⟨-, -, hlast'⟩ := h'
    split <;> omega
  constructor
  · rintro hno x ⟨hfirst', hlast'⟩ ⟨hfirst, hlast⟩
    rcases hno with hno | hno
    · exact hno (hfirst.trans hlast')
    · exact hno (hfirst'.trans hlast)
  · intro hdisjoint
    -- the larger of the two starts would be in both
    by_contra! hmeet
    refine hdisjoint (a := max first first') ⟨le_max_right _ _, ?_⟩ ⟨le_max_left _ _, ?_⟩
    · exact max_le hmeet.1 hle'
    · exact max_le hle hmeet.2

namespace PortForward.IsMapping

variable {pf ex : PortForward} (h : pf.IsMapping) (hex : ex.IsMapping)
include h hex

/-- The test of the parsers is the one that is meant. -/
theorem conflicts_eq_false_iff : conflicts pf ex = false ↔ ex.Apart pf := by
  unfold conflicts PortForward.Apart PortForward.hostRange PortForward.containerRange
  by_cases hproto : ex.proto = pf.proto
  · rw [← rangesMeet_eq_false_iff h.host hex.host,
      ← rangesMeet_eq_false_iff h.container hex.container]
    simp only [hproto, beq_self_eq_true, Bool.true_and, Bool.or_eq_false_iff, forall_const]
    refine ⟨fun hall => ⟨hall.1.2, hall.2⟩, fun hboth => ⟨⟨?_, hboth.1⟩, hboth.2⟩⟩
    rw [beq_eq_false_iff_ne]
    rintro rfl
    -- a mapping meets itself
    have hself := (rangesMeet_eq_false_iff h.host h.host).1 hboth.1
    have hfirst : pf.hostPort ∈ portRange pf.hostPort pf.hostPortEnd := by
      obtain ⟨-, -, hlast⟩ := h.host
      refine ⟨le_rfl, ?_⟩
      split <;> omega
    exact Set.disjoint_left.1 hself hfirst hfirst
  · simp [hproto]

end PortForward.IsMapping

theorem isPorts_of_parsePorts {side : Text} {first last : ℕ}
    (h : parsePorts side = some (first, last)) : IsPorts first last := by
  unfold parsePorts at h
  unfold IsPorts
  split at h
  · simp only [Option.ite_none_left_eq_some, Option.some.injEq, Prod.mk.injEq, Bool.or_eq_true,
      decide_eq_true_eq] at h
    omega
  · simp only [Option.ite_none_left_eq_some, Option.some.injEq, Prod.mk.injEq, Bool.or_eq_true,
      decide_eq_true_eq] at h
    omega

theorem isMapping_of_parse {tok : Text} {pf : PortForward} (h : parsePortForward tok = some pf) :
    pf.IsMapping := by
  simp only [parsePortForward, Option.bind_eq_bind, Option.bind_eq_some_iff,
    Option.guard_eq_some', Option.pure_def, Option.some.injEq] at h
  obtain ⟨-, hproto, ⟨host, hostEnd⟩, hhost, ⟨cont, contEnd⟩, hcont, -, hwidth, rfl⟩ := h
  exact ⟨isPorts_of_parsePorts hhost, isPorts_of_parsePorts hcont, hwidth, hproto⟩

theorem isPortTable_nil : IsPortTable [] where
  count := by decide
  mapping pf hpf := absurd hpf List.not_mem_nil
  apart := List.Pairwise.nil

/-- One mapping more. -/
theorem IsPortTable.extend {ports : List PortForward} (h : IsPortTable ports) (tok : Text) :
    IsPortTable (extend newPort ports tok) := by
  unfold Config.extend
  cases hnew : newPort ports tok with
  | none => exact h
  | some pf =>
    unfold newPort at hnew
    split at hnew
    · cases hnew
    · next hroom =>
      obtain ⟨hparse, hfree⟩ := Option.filter_eq_some_iff.1 hnew
      have hpf := isMapping_of_parse hparse
      have hfree' : ∀ ex ∈ ports, conflicts pf ex = false := by
        rw [Bool.not_eq_true', List.any_eq_false] at hfree
        exact fun ex hex => Bool.eq_false_iff.2 (hfree ex hex)
      refine ⟨?_, ?_, ?_⟩
      · rw [List.length_append, List.length_singleton]
        omega
      · intro ex hex
        rcases List.mem_append.1 hex with hex | hex
        · exact h.mapping ex hex
        · obtain rfl := List.mem_singleton.1 hex
          exact hpf
      · refine List.pairwise_append.2 ⟨h.apart, List.pairwise_singleton _ _, ?_⟩
        intro ex hex pf' hpf'
        obtain rfl := List.mem_singleton.1 hpf'
        exact (hpf.conflicts_eq_false_iff (h.mapping ex hex)).1 (hfree' ex hex)

theorem IsPortTable.foldl {ports : List PortForward} (h : IsPortTable ports) (toks : List Text) :
    IsPortTable (toks.foldl (Config.extend newPort) ports) := by
  induction toks generalizing ports with
  | nil => exact h
  | cons tok toks ih => exact ih (h.extend tok)

/-! ## Any mix of sources -/

/-- Where port forwards come from. -/
inductive PortSource where
  | file (text : Text)
  | option (val : Text)

def PortSource.apply (sys : System) (cfg : DsConfig) : PortSource → DsConfig
  | .file text => dsConfigLoad sys text cfg
  | .option val => cfg.set .portForwards (applyPortOption val (cfg.value .portForwards)).2

/-- A configuration after some sources. -/
def built (sys : System) (sources : List PortSource) (cfg : DsConfig) : DsConfig :=
  sources.foldl (PortSource.apply sys) cfg

section Built

variable {sys : System} {cfg : DsConfig}

theorem IsPortTable.apply (h : IsPortTable (cfg.value .portForwards)) (source : PortSource) :
    IsPortTable ((source.apply sys cfg).value .portForwards) := by
  cases source with
  | file text =>
    rw [PortSource.apply, dsConfigLoad_value]
    unfold overlay
    generalize valuesOf .portForwards text = vals
    generalize cfg.value .portForwards = ports at h ⊢
    induction vals generalizing ports with
    | nil => exact h
    | cons val vals ih => exact ih (parsePortForwards val ports) (h.foldl _)
  | option val =>
    rw [PortSource.apply, DsConfig.value_set_self]
    obtain ⟨toks, htable, -⟩ :=
      exists_foldl_of_addMappings (tokens (val.take 1023)) (cfg.value .portForwards)
    rw [applyPortOption, htable]
    exact h.foldl toks

theorem IsPortTable.built (h : IsPortTable (cfg.value .portForwards))
    (sources : List PortSource) :
    IsPortTable ((built sys sources cfg).value .portForwards) := by
  induction sources generalizing cfg with
  | nil => exact h
  | cons source sources ih => exact ih (h.apply source)

/-- **A table is in order whatever it was filled from**, and an option that is accepted does to it
what the same text does in a file. -/
theorem portTable_built (hempty : cfg.value .portForwards = []) (sources : List PortSource) :
    IsPortTable ((built sys sources cfg).value .portForwards) ∧
      ∀ val ports,
        applyPortOption val ((built sys sources cfg).value .portForwards) = (true, ports) →
          parsePortForwards val ((built sys sources cfg).value .portForwards) = ports := by
  refine ⟨IsPortTable.built ?_ sources, fun val ports => parsePortForwards_of_applyPortOption⟩
  rw [hempty]
  exact isPortTable_nil

/-- A file and an option that it is in the way of. -/
theorem portTable_built_web :
    defaults.value .portForwards = [] ∧
      IsPortTable ((built plainSystem [.file "port_forwards=80:80,443:443/udp\n".toList]
        defaults).value .portForwards) ∧
      applyPortOption "80:81, 1000-1010".toList ((built plainSystem
        [.file "port_forwards=80:80,443:443/udp\n".toList] defaults).value .portForwards) =
        (true, [⟨80, 0, 80, 0, "tcp".toList⟩, ⟨443, 0, 443, 0, "udp".toList⟩,
          ⟨1000, 1010, 1000, 1010, "tcp".toList⟩]) ∧
      parsePortForwards "80:81, 1000-1010".toList ((built plainSystem
        [.file "port_forwards=80:80,443:443/udp\n".toList] defaults).value .portForwards) =
        [⟨80, 0, 80, 0, "tcp".toList⟩, ⟨443, 0, 443, 0, "udp".toList⟩,
          ⟨1000, 1010, 1000, 1010, "tcp".toList⟩] := by
  have haccept : applyPortOption "80:81, 1000-1010".toList ((built plainSystem
      [.file "port_forwards=80:80,443:443/udp\n".toList] defaults).value .portForwards) =
      (true, [⟨80, 0, 80, 0, "tcp".toList⟩, ⟨443, 0, 443, 0, "udp".toList⟩,
        ⟨1000, 1010, 1000, 1010, "tcp".toList⟩]) := by
    decide +kernel
  have hbuilt := @portTable_built plainSystem defaults rfl
    [.file "port_forwards=80:80,443:443/udp\n".toList]
  exact ⟨rfl, hbuilt.1, haccept, hbuilt.2 _ _ haccept⟩

end Built

/-! ## What a saved line gives back -/

/-- Both sides are single ports, or both are ranges. -/
def SameKind (pf : PortForward) : Prop := pf.hostPortEnd = 0 ↔ pf.containerPortEnd = 0

instance (pf : PortForward) : Decidable (SameKind pf) :=
  inferInstanceAs (Decidable (pf.hostPortEnd = 0 ↔ pf.containerPortEnd = 0))

/-- What is written is the host side, a colon and what `host_port_end` makes of the container. -/
theorem portForwardText_eq (pf : PortForward) :
    portForwardText pf = portsText pf.hostPort pf.hostPortEnd ++
      ':' :: (if pf.hostPortEnd = 0 then decimal pf.containerPort
        else decimal pf.containerPort ++ '-' :: decimal pf.containerPortEnd) ++
      '/' :: pf.proto := by
  unfold portForwardText portsText
  by_cases hend : pf.hostPortEnd = 0
  · simp [hend]
  · simp [hend]

namespace PortForward.IsMapping

variable {pf : PortForward} (h : pf.IsMapping)
include h

theorem isRule (hsame : SameKind pf) : pf.IsRule := ⟨h.host, h.container, hsame, h.width, h.proto⟩

theorem not_mem_text {c : Char} (hc : c.isDigit = false)
    (hne : c ≠ '-' ∧ c ≠ ':' ∧ c ≠ '/' ∧ c ≠ 't' ∧ c ≠ 'c' ∧ c ≠ 'p' ∧ c ≠ 'u' ∧ c ≠ 'd') :
    c ∉ portForwardText pf := by
  obtain ⟨hdash, hcolon, hslash, ht, hcc, hp, hu, hd⟩ := hne
  have hproto : c ∉ pf.proto := by
    rcases h.proto with heq | heq
    · simp [heq, ht, hcc, hp]
    · simp [heq, hu, hd, hp]
  have hcont : c ∉ if pf.hostPortEnd = 0 then decimal pf.containerPort
      else decimal pf.containerPort ++ '-' :: decimal pf.containerPortEnd := by
    split
    · exact not_mem_decimal _ hc
    · simp only [List.mem_append, List.mem_cons, not_or]
      exact ⟨not_mem_decimal _ hc, hdash, not_mem_decimal _ hc⟩
  rw [portForwardText_eq]
  simp only [List.mem_append, List.mem_cons, not_or]
  exact ⟨⟨not_mem_portsText hc hdash, hcolon, hcont⟩, hslash, hproto⟩

theorem length_text : (portForwardText pf).length ≤ 27 := by
  have hshort : ∀ n ≤ 65535, (decimal n).length ≤ 5 := by
    intro n hn
    exact (Nat.length_toDigits_le_iff (by decide) (by decide)).2 (by omega)
  have hproto : pf.proto.length = 3 := by
    rcases h.proto with heq | heq
    · rw [heq]; rfl
    · rw [heq]; rfl
  obtain ⟨-, hhost, hhostEnd⟩ := h.host
  obtain ⟨-, hcont, hcontEnd⟩ := h.container
  have hhostLen := hshort _ hhost
  have hhostEndLen := hshort pf.hostPortEnd (by omega)
  have hcontLen := hshort _ hcont
  have hcontEndLen := hshort pf.containerPortEnd (by omega)
  unfold portForwardText
  split
  · simp only [List.length_append, List.length_cons]
    omega
  · simp only [List.length_append, List.length_cons]
    omega

/-- The single port on the container's side is written as a range that ends at 0. -/
theorem parse_range_port (hend : pf.hostPortEnd ≠ 0) (hcont : pf.containerPortEnd = 0) :
    parsePortForward (portForwardText pf) = none := by
  have hpos := h.container.1
  have hdrop : (decimal pf.containerPort ++ '-' :: decimal 0).dropWhile (· != '-') =
      '-' :: decimal 0 := by
    rw [List.dropWhile_append_of_pos]
    · rfl
    · intro c hc
      simpa using ne_of_isDigit (isDigit_of_mem_decimal hc) rfl
  have hfirst : wrap (atoi (decimal pf.containerPort ++ '-' :: decimal 0)) =
      pf.containerPort := by
    rw [show atoi (decimal pf.containerPort ++ '-' :: decimal 0) = pf.containerPort from
      atoi_toDigits_append pf.containerPort (by simp), wrap_natCast h.container.2.1]
  have hlast : wrap (atoi (decimal 0)) = 0 := by decide
  have hrange : parsePorts (decimal pf.containerPort ++ '-' :: decimal 0) = none := by
    unfold parsePorts
    rw [hdrop]
    simp only [hfirst, hlast]
    rw [if_pos]
    simp
    omega
  obtain ⟨d, ds, hds, hd⟩ := portsText_eq_cons pf.hostPort pf.hostPortEnd
  have hslash : '/' ∉ decimal pf.containerPort ++ '-' :: decimal 0 := by
    simp only [List.mem_append, List.mem_cons, not_or]
    exact ⟨not_mem_decimal _ rfl, by decide, not_mem_decimal _ rfl⟩
  rw [portForwardText_eq, if_neg hend, hcont, parsePortForward_sides hds hd
    (not_mem_portsText rfl (by decide)) (not_mem_portsText rfl (by decide)) hslash h.proto,
    hrange]
  simp

/-- Whatever is read of the text is of one kind. -/
theorem sameKind_of_parse {pf' : PortForward}
    (hparse : parsePortForward (portForwardText pf) = some pf') : SameKind pf' := by
  by_cases hsame : SameKind pf
  · obtain rfl := Option.some.inj ((h.isRule hsame).parse.symm.trans hparse)
    exact hsame
  · by_cases hend : pf.hostPortEnd = 0
    · -- the range on the container's side is written as a single port
      have hsingle : ({ pf with containerPortEnd := 0 } : PortForward).IsRule := by
        refine ⟨h.host, ⟨h.container.1, h.container.2.1, Or.inl rfl⟩, iff_of_true hend rfl, ?_,
          h.proto⟩
        simp [Config.width, hend]
      have htext : portForwardText pf = portForwardText { pf with containerPortEnd := 0 } := by
        simp [portForwardText, hend]
      rw [htext] at hparse
      obtain rfl := Option.some.inj (hsingle.parse.symm.trans hparse)
      exact hsingle.same
    · have hcont : pf.containerPortEnd = 0 := by
        by_contra hne
        exact hsame (iff_of_false hend hne)
      rw [h.parse_range_port hend hcont] at hparse
      cases hparse

end PortForward.IsMapping

theorem mem_joinComma {ts : List Text} {c : Char} (hc : c ∈ joinComma ts) :
    c = ',' ∨ ∃ t ∈ ts, c ∈ t := by
  induction ts with
  | nil => cases hc
  | cons t ts ih =>
    cases ts with
    | nil =>
      rw [joinComma, List.intercalate_singleton] at hc
      exact Or.inr ⟨t, List.mem_cons_self, hc⟩
    | cons u us =>
      rw [joinComma_cons_cons] at hc
      rcases List.mem_append.1 hc with hc | hc
      · exact Or.inr ⟨t, List.mem_cons_self, hc⟩
      · rcases List.mem_cons.1 hc with rfl | hc
        · exact Or.inl rfl
        · rcases ih hc with heq | ⟨x, hx, hcx⟩
          · exact Or.inl heq
          · exact Or.inr ⟨x, List.mem_cons_of_mem _ hx, hcx⟩

theorem length_joinComma_le {ts : List Text} {n : ℕ} (h : ∀ t ∈ ts, t.length ≤ n) :
    (joinComma ts).length ≤ ts.length * (n + 1) := by
  induction ts with
  | nil => exact Nat.zero_le _
  | cons t ts ih =>
    have ht := h t List.mem_cons_self
    have hrest := ih fun u hu => h u (List.mem_cons_of_mem _ hu)
    rw [List.length_cons, Nat.succ_mul]
    cases ts with
    | nil =>
      rw [joinComma, List.intercalate_singleton]
      omega
    | cons u us =>
      rw [joinComma_cons_cons, List.length_append, List.length_cons]
      omega

namespace IsPortTable

variable {ports : List PortForward} (h : IsPortTable ports)
include h

theorem token : ∀ t ∈ ports.map portForwardText, t ≠ [] ∧ ',' ∉ t := by
  intro t ht
  obtain ⟨pf, hpf, rfl⟩ := List.mem_map.1 ht
  refine ⟨?_, (h.mapping pf hpf).not_mem_text rfl (by decide)⟩
  rw [portForwardText_eq]
  simp

/-- 32 mappings fit into the buffer. -/
theorem fits : (joinComma (ports.map portForwardText)).length ≤ 1023 := by
  have hshort : ∀ t ∈ ports.map portForwardText, t.length ≤ 27 := by
    intro t ht
    obtain ⟨pf, hpf, rfl⟩ := List.mem_map.1 ht
    exact (h.mapping pf hpf).length_text
  have hlen := length_joinComma_le hshort
  have hcount : ports.length ≤ 32 := h.count
  rw [List.length_map] at hlen
  omega

theorem isSpace_eq_false : ∀ c ∈ joinComma (ports.map portForwardText), isSpace c = false := by
  intro c hc
  rcases mem_joinComma hc with rfl | ⟨t, ht, hct⟩
  · rfl
  · obtain ⟨pf, hpf, rfl⟩ := List.mem_map.1 ht
    by_contra hspace
    rw [Bool.not_eq_false] at hspace
    refine (h.mapping pf hpf).not_mem_text ?_ ?_ hct
    · by_contra hdigit
      rw [Bool.not_eq_false] at hdigit
      rw [isSpace_of_isDigit hdigit] at hspace
      cases hspace
    · refine ⟨?_, ?_, ?_, ?_, ?_, ?_, ?_, ?_⟩ <;>
        · rintro rfl
          cases hspace

theorem isValue : IsValue .portForwards (joinComma (ports.map portForwardText)) where
  trimmed := isTrimmed_of_forall h.isSpace_eq_false
  oneLine := fun hmem => absurd (h.isSpace_eq_false _ hmem) (by decide)
  fits := by
    have hkey : (keyText .portForwards).length = 13 := by decide +kernel
    have hfits := h.fits
    omega

theorem isPortList (hsame : ∀ pf ∈ ports, SameKind pf) : IsPortList ports where
  rule pf hpf := (h.mapping pf hpf).isRule (hsame pf hpf)
  apart := h.apart.imp_of_mem fun hex hpf hapart =>
    ((h.mapping _ hpf).conflicts_eq_false_iff (h.mapping _ hex)).2 hapart
  count := h.count
  fits := h.fits

/-- What is read of the text is of one kind. -/
theorem sameKind_of_mem_parse :
    ∀ pf ∈ parsePortForwards (joinComma (ports.map portForwardText)) [], SameKind pf := by
  -- each mapping of the result was read of one of the texts
  have hread : ∀ toks : List Text, (∀ t ∈ toks, ∃ pf ∈ ports, t = portForwardText pf) →
      ∀ pf' ∈ toks.foldl (Config.extend newPort) [], SameKind pf' := by
    intro toks htoks
    refine List.foldlRecOn (motive := fun table => ∀ pf' ∈ table, SameKind pf') toks _
      (fun pf' hpf' => absurd hpf' List.not_mem_nil) ?_
    intro table htable tok htok pf' hpf'
    unfold Config.extend at hpf'
    cases hnew : newPort table tok with
    | none =>
      rw [hnew] at hpf'
      exact htable pf' hpf'
    | some new =>
      rw [hnew] at hpf'
      rcases List.mem_append.1 hpf' with hpf' | hpf'
      · exact htable pf' hpf'
      · obtain rfl := List.mem_singleton.1 hpf'
        unfold newPort at hnew
        split at hnew
        · cases hnew
        · obtain ⟨pf, hpf, rfl⟩ := htoks tok htok
          exact (h.mapping pf hpf).sameKind_of_parse (Option.filter_eq_some_iff.1 hnew).1
  rw [parsePortForwards, List.take_of_length_le h.fits, tokens_joinComma h.token]
  refine hread (ports.map portForwardText) fun t ht => ?_
  obtain ⟨pf, hpf, rfl⟩ := List.mem_map.1 ht
  exact ⟨pf, hpf, rfl⟩

/-- The text gives the table back exactly if every mapping is of one kind. -/
theorem parse_iff :
    parsePortForwards (joinComma (ports.map portForwardText)) [] = ports ↔
      ∀ pf ∈ ports, SameKind pf := by
  refine ⟨fun hparse => ?_, fun hsame => (h.isPortList hsame).parse⟩
  have hkind := h.sameKind_of_mem_parse
  rwa [hparse] at hkind

end IsPortTable

/-- The line of a saved file that has the port forwards. -/
def portLine (sys : System) (android : Bool) (cfg : DsConfig) : Text :=
  ((written sys android cfg .portForwards).map (keyLine .portForwards)).getD []

section PortLine

variable {sys : System} {android : Bool} {cfg blank : DsConfig}

theorem load_portLine (h : IsPortTable (cfg.value .portForwards))
    (hmode : cfg.value .netMode = .nat) (hblank : blank.value .portForwards = []) :
    (dsConfigLoad sys (portLine sys android cfg) blank).value .portForwards =
      parsePortForwards (joinComma ((cfg.value .portForwards).map portForwardText)) [] := by
  rw [dsConfigLoad_value, hblank]
  unfold portLine written
  dsimp only
  by_cases hports : cfg.value .portForwards = []
  · rw [hports]
    simp
    rfl
  · rw [if_pos ⟨hmode, hports⟩]
    have hvals : valuesOf .portForwards
        (keyLine .portForwards (joinComma ((cfg.value .portForwards).map portForwardText))) =
        [joinComma ((cfg.value .portForwards).map portForwardText)] := by
      have hline := h.isValue.valueIn (k := .portForwards)
      rw [if_pos rfl] at hline
      exact hline
    rw [Option.map_some, Option.getD_some, hvals]
    rfl

/-- **A saved line gives the table back exactly if both sides of each mapping are of one kind.** -/
theorem load_portLine_iff (hempty : cfg.value .portForwards = []) (sources : List PortSource)
    (hmode : (built sys sources cfg).value .netMode = .nat)
    (hblank : blank.value .portForwards = []) :
    (dsConfigLoad sys (portLine sys android (built sys sources cfg)) blank).value .portForwards =
        (built sys sources cfg).value .portForwards ↔
      ∀ pf ∈ (built sys sources cfg).value .portForwards, SameKind pf := by
  have htable : IsPortTable ((built sys sources cfg).value .portForwards) := by
    refine IsPortTable.built ?_ sources
    rw [hempty]
    exact isPortTable_nil
  rw [load_portLine htable hmode hblank]
  exact htable.parse_iff

def webPorts : List PortSource := [
  .file "name=web\nport_forwards=80:80,443:443/udp\n".toList,
  .option "80:81, 1000-1010,53/udp".toList]

theorem load_portLine_web :
    (defaults.value .portForwards = [] ∧
      (built plainSystem webPorts defaults).value .netMode = .nat) ∧
      (dsConfigLoad plainSystem (portLine plainSystem true (built plainSystem webPorts defaults))
        defaults).value .portForwards = (built plainSystem webPorts defaults).value .portForwards :=
  ⟨⟨rfl, by decide +kernel⟩,
    (load_portLine_iff rfl webPorts (by decide +kernel) rfl).2 (by decide +kernel)⟩

/-- A range of one port does not come back. -/
theorem load_portLine_one_port :
    applyPortOption "8080-8080:80".toList [] = (true, [⟨8080, 8080, 80, 0, "tcp".toList⟩]) ∧
      (built plainSystem [.option "8080-8080:80".toList] defaults).value .netMode = .nat ∧
      portLine plainSystem true (built plainSystem [.option "8080-8080:80".toList] defaults) =
        "port_forwards=8080-8080:80-0/tcp\n".toList ∧
      (dsConfigLoad plainSystem
        (portLine plainSystem true (built plainSystem [.option "8080-8080:80".toList] defaults))
        defaults).value .portForwards = [] ∧
      (dsConfigLoad plainSystem
        (portLine plainSystem true (built plainSystem [.option "8080-8080:80".toList] defaults))
        defaults).value .portForwards ≠
          (built plainSystem [.option "8080-8080:80".toList] defaults).value .portForwards := by
  decide +kernel

end PortLine

end Droidspaces.Config
