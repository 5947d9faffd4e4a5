import Droidspaces.Config.Save

/-!
# Reading back what was saved

`Ordinary` says of a configuration, key by key, that what `ds_config_save` writes of it is what
`ds_config_load` reads; `load_save` puts the keys together.  Two things that do get lost are a range
of one port that stands against a single port, which is written as a range that ends at 0, and what
is past the end of a line of 2047 bytes.
-/

namespace Droidspaces.Config

open CustomBinds

/-! ## Numbers -/

theorem isDigit_of_mem_decimal {n : ℕ} {c : Char} (hc : c ∈ decimal n) : c.isDigit = true :=
  Nat.isDigit_of_mem_toDigits (by decide) (by decide) hc

theorem not_mem_decimal (n : ℕ) {c : Char} (hc : c.isDigit = false) : c ∉ decimal n := by
  intro hmem
  rw [isDigit_of_mem_decimal hmem] at hc
  cases hc

theorem decimal_eq_cons (n : ℕ) : ∃ d ds, decimal n = d :: ds ∧ d.isDigit = true := by
  obtain ⟨d, ds, hds⟩ := List.exists_cons_of_ne_nil (Nat.toDigits_ne_nil (n := n) (b := 10))
  refine ⟨d, ds, hds, isDigit_of_mem_decimal (n := n) ?_⟩
  rw [decimal, hds]
  exact List.mem_cons_self

theorem ne_of_isDigit {c d : Char} (hd : d.isDigit = true) (hc : c.isDigit = false) : d ≠ c := by
  rintro rfl
  rw [hd] at hc
  cases hc

theorem isSpace_of_isDigit {d : Char} (hd : d.isDigit = true) : isSpace d = false := by
  have hnum : 48 ≤ d.toNat ∧ d.toNat ≤ 57 := by
    simp only [Char.isDigit, Bool.and_eq_true, decide_eq_true_eq, ge_iff_le,
      UInt32.le_iff_toNat_le] at hd
    exact hd
  have hne : d ≠ ' ' := ne_of_isDigit hd rfl
  simp only [isSpace, Bool.or_eq_false_iff, beq_eq_false_iff_ne, ne_eq, hne, not_false_eq_true,
    true_and, Bool.and_eq_false_iff, decide_eq_false_iff_not]
  omega

theorem parseLlPositive_decimal {n : ℕ} (hpos : n ≠ 0) (hle : n ≤ llongMax) :
    parseLlPositive (decimal n) = some n := by
  obtain ⟨d, ds, hds, hd⟩ := decimal_eq_cons n
  have hstart : (decimal n).dropWhile isSpace = decimal n := by
    rw [hds]
    simp [isSpace_of_isDigit hd]
  have hval : Nat.ofDigitChars 10 (decimal n) 0 = n :=
    Nat.ofDigitChars_toDigits (by decide) (by decide)
  have hall : (decimal n).all Char.isDigit = true :=
    List.all_eq_true.2 fun c hc => isDigit_of_mem_decimal hc
  have hne : (decimal n).isEmpty = false := by
    rw [hds]
    rfl
  unfold parseLlPositive
  rw [hstart]
  dsimp only
  split
  · next hplus =>
    rw [hds] at hplus
    exact absurd (List.cons.inj hplus).1 (ne_of_isDigit hd rfl)
  · rw [hval, hall, hne, if_neg]
    simp only [Bool.not_true, Bool.or_self, Bool.false_or, Bool.or_eq_true, beq_iff_eq,
      decide_eq_true_eq, not_or]
    omega

theorem parsePrivileged_privilegedText {mask : ℕ} (h : mask < 16 ∨ mask = 255) :
    parsePrivileged (privilegedText mask) = mask := by
  rcases h with h | rfl
  · have hall : ∀ mask < 16, parsePrivileged (privilegedText mask) = mask := by
      decide +kernel
    exact hall mask h
  · decide +kernel

theorem parseNetMode_netModeText (mode : NetMode) : parseNetMode (netModeText mode) = mode := by
  cases mode <;> decide +kernel

/-! ## Lists -/

theorem tokens_joinComma {ts : List Text} (h : ∀ t ∈ ts, t ≠ [] ∧ ',' ∉ t) :
    tokens (joinComma ts) = ts := by
  cases ts with
  | nil => rfl
  | cons t ts =>
    rw [tokens, joinComma, List.splitOn_intercalate ',' (fun t ht => (h t ht).2) (by simp),
      List.filter_eq_self]
    intro t ht
    simpa using (h t ht).1

/-- A list of interfaces as it comes out of `parse_iface_csv`. -/
structure IsIfaceList (ifaces : List Text) : Prop where
  name : ∀ name ∈ ifaces, name ≠ [] ∧ ',' ∉ name ∧ name.length < ifNameSize ∧
    (name.dropWhile isTabOrSpace).rdropWhile isTabOrSpace = name
  nodup : ifaces.Nodup
  count : ifaces.length ≤ maxUpstreamIfaces
  fits : (joinComma ifaces).length ≤ 1023

theorem IsIfaceList.parse {ifaces : List Text} (h : IsIfaceList ifaces) :
    parseIfaceCsv (joinComma ifaces) [] = ifaces := by
  rw [parseIfaceCsv, List.take_of_length_le h.fits,
    tokens_joinComma fun name hname => ⟨(h.name name hname).1, (h.name name hname).2.1⟩]
  conv_lhs => rw [← List.map_id ifaces]
  refine foldl_rebuild fun l name hl => ?_
  have hmem : name ∈ ifaces := hl.subset (by simp)
  obtain ⟨hne, -, hlen, htrim⟩ := h.name name hmem
  have hfresh : name ∉ l := by
    intro hin
    have hnodup := List.nodup_append.1 (h.nodup.sublist hl.sublist)
    exact hnodup.2.2 name hin name (by simp) rfl
  have hcount : l.length < maxUpstreamIfaces := by
    have hle := hl.length_le
    have hmax := h.count
    rw [List.length_append, List.length_singleton] at hle
    omega
  have hnew : newIface l name = some name := by
    simp only [newIface, htrim]
    rw [if_neg]
    simp [hne, hfresh]
    omega
  simp [extend, hnew]

/-! ## Port forwards -/

theorem wrap_natCast {n : ℕ} (h : n ≤ 65535) : wrap n = n := by
  rw [wrap, Int.bmod_eq_of_le]
  · omega
  · omega

theorem parsePorts_single {p : ℕ} (hpos : 0 < p) (hle : p ≤ 65535) :
    parsePorts (decimal p) = some (p, 0) := by
  have hdrop : (decimal p).dropWhile (· != '-') = [] := by
    rw [List.dropWhile_eq_nil_iff]
    intro c hc
    simpa using ne_of_isDigit (isDigit_of_mem_decimal hc) rfl
  have hval : wrap (atoi (decimal p)) = p := by
    rw [show atoi (decimal p) = p from atoi_toDigits p, wrap_natCast hle]
  unfold parsePorts
  rw [hdrop]
  simp only [hval]
  rw [if_neg (by simp; omega), Int.toNat_natCast]

theorem parsePorts_range {first last : ℕ} (hpos : 0 < first) (hle : first ≤ last)
    (hlast : last ≤ 65535) :
    parsePorts (decimal first ++ '-' :: decimal last) = some (first, last) := by
  have hdrop : (decimal first ++ '-' :: decimal last).dropWhile (· != '-') =
      '-' :: decimal last := by
    rw [List.dropWhile_append_of_pos]
    · simp
    · intro c hc
      simpa using ne_of_isDigit (isDigit_of_mem_decimal hc) rfl
  have hfirst : wrap (atoi (decimal first ++ '-' :: decimal last)) = first := by
    rw [show atoi (decimal first ++ '-' :: decimal last) = first from
      atoi_toDigits_append first (by simp), wrap_natCast (hle.trans hlast)]
  have hval : wrap (atoi (decimal last)) = last := by
    rw [show atoi (decimal last) = last from atoi_toDigits last, wrap_natCast hlast]
  unfold parsePorts
  rw [hdrop]
  simp only [hfirst, hval]
  rw [if_neg (by simp; omega), Int.toNat_natCast, Int.toNat_natCast]

def portsText (first last : ℕ) : Text :=
  if last = 0 then decimal first else decimal first ++ '-' :: decimal last

/-- A single port, or a range. -/
def IsPorts (first last : ℕ) : Prop :=
  0 < first ∧ first ≤ 65535 ∧ (last = 0 ∨ first ≤ last ∧ last ≤ 65535)

theorem IsPorts.parse {first last : ℕ} (h : IsPorts first last) :
    parsePorts (portsText first last) = some (first, last) := by
  obtain ⟨hpos, hfirst, rfl | ⟨hle, hlast⟩⟩ := h
  · exact parsePorts_single hpos hfirst
  · rw [portsText, if_neg (by omega)]
    exact parsePorts_range hpos hle hlast

theorem not_mem_portsText {first last : ℕ} {c : Char} (hc : c.isDigit = false) (hne : c ≠ '-') :
    c ∉ portsText first last := by
  unfold portsText
  split
  · exact not_mem_decimal first hc
  · simp only [List.mem_append, List.mem_cons, not_or]
    exact ⟨not_mem_decimal first hc, hne, not_mem_decimal last hc⟩

theorem portsText_eq_cons (first last : ℕ) :
    ∃ d ds, portsText first last = d :: ds ∧ d.isDigit = true := by
  obtain ⟨d, ds, hds, hd⟩ := decimal_eq_cons first
  unfold portsText
  split
  · exact ⟨d, ds, hds, hd⟩
  · exact ⟨d, ds ++ '-' :: decimal last, by rw [hds, List.cons_append], hd⟩

/-- A rule goes by its two sides and its protocol. -/
theorem parsePortForward_sides {host cont proto ds : Text} {d : Char} (hds : host = d :: ds)
    (hd : d.isDigit = true) (hcolon : ':' ∉ host) (hslash : '/' ∉ host) (hcont : '/' ∉ cont)
    (hproto : proto = "tcp".toList ∨ proto = "udp".toList) :
    parsePortForward (host ++ ':' :: cont ++ '/' :: proto) =
      (parsePorts host).bind fun p => (parsePorts cont).bind fun q =>
        if width p.1 p.2 = width q.1 q.2 then some ⟨p.1, p.2, q.1, q.2, proto⟩ else none := by
  have hside : ∀ c ∈ host, (c != ':') = true := by
    intro c hc
    refine bne_iff_ne.2 ?_
    rintro rfl
    exact hcolon hc
  have hspec : ∀ c ∈ host ++ ':' :: cont, (c != '/') = true := by
    intro c hc
    refine bne_iff_ne.2 ?_
    rintro rfl
    simp only [List.mem_append, List.mem_cons] at hc
    rcases hc with hc | hc | hc
    · exact hslash hc
    · exact absurd hc (by decide)
    · exact hcont hc
  have hstart : (host ++ ':' :: cont ++ '/' :: proto).dropWhile isTabOrSpace =
      host ++ ':' :: cont ++ '/' :: proto := by
    have hblank : isTabOrSpace d = false := by
      simp [isTabOrSpace, ne_of_isDigit hd (c := ' ') rfl, ne_of_isDigit hd (c := '\t') rfl]
    rw [hds]
    simp [hblank]
  have htake : proto.take 3 = proto := by
    rcases hproto with heq | heq
    · rw [heq]; rfl
    · rw [heq]; rfl
  unfold parsePortForward
  dsimp only
  rw [hstart, List.takeWhile_append_of_pos hspec, List.dropWhile_append_of_pos hspec]
  simp only [List.takeWhile_cons, List.dropWhile_cons, bne_self_eq_false, Bool.false_eq_true,
    if_false, List.append_nil, List.takeWhile_append_of_pos hside,
    List.dropWhile_append_of_pos hside, htake]
  simp only [guard, if_pos hproto]
  show ((parsePorts host).bind fun p => (parsePorts cont).bind fun q => _) = _
  refine Option.bind_congr fun p _ => Option.bind_congr fun q _ => ?_
  split
  · rfl
  · rfl

/-- A rule that is written as it is: both sides are single ports, or both are ranges. -/
structure PortForward.IsRule (pf : PortForward) : Prop where
  host : IsPorts pf.hostPort pf.hostPortEnd
  container : IsPorts pf.containerPort pf.containerPortEnd
  same : pf.hostPortEnd = 0 ↔ pf.containerPortEnd = 0
  width : width pf.hostPort pf.hostPortEnd = width pf.containerPort pf.containerPortEnd
  proto : pf.proto = "tcp".toList ∨ pf.proto = "udp".toList

namespace PortForward.IsRule

variable {pf : PortForward} (h : pf.IsRule)
include h

theorem text : portForwardText pf = portsText pf.hostPort pf.hostPortEnd ++
    ':' :: portsText pf.containerPort pf.containerPortEnd ++ '/' :: pf.proto := by
  unfold portForwardText portsText
  by_cases hend : pf.hostPortEnd = 0
  · rw [if_pos hend, if_pos hend, if_pos (h.same.1 hend)]
  · rw [if_neg hend, if_neg hend, if_neg fun hc => hend (h.same.2 hc)]
    simp

theorem not_mem_text {c : Char} (hc : c.isDigit = false)
    (hne : c ≠ '-' ∧ c ≠ ':' ∧ c ≠ '/' ∧ c ≠ 't' ∧ c ≠ 'c' ∧ c ≠ 'p' ∧ c ≠ 'u' ∧ c ≠ 'd') :
    c ∉ portForwardText pf := by
  obtain ⟨hdash, hcolon, hslash, ht, hcc, hp, hu, hd⟩ := hne
  have hproto : c ∉ pf.proto := by
    rcases h.proto with heq | heq
    · simp [heq, ht, hcc, hp]
    · simp [heq, hu, hd, hp]
  rw [h.text]
  simp only [List.mem_append, List.mem_cons, not_or]
  exact ⟨⟨not_mem_portsText hc hdash, hcolon, not_mem_portsText hc hdash⟩, hslash, hproto⟩

theorem parse : parsePortForward (portForwardText pf) = some pf := by
  obtain ⟨d, ds, hds, hd⟩ := portsText_eq_cons pf.hostPort pf.hostPortEnd
  have hhost : ∀ c, c.isDigit = false → c ≠ '-' → c ∉ portsText pf.hostPort pf.hostPortEnd :=
    fun c => not_mem_portsText
  have hcont : '/' ∉ portsText pf.containerPort pf.containerPortEnd :=
    not_mem_portsText rfl (by decide)
  rw [h.text, parsePortForward_sides hds hd (hhost ':' rfl (by decide)) (hhost '/' rfl (by decide))
    hcont h.proto, h.host.parse, h.container.parse]
  simp [h.width]

end PortForward.IsRule

/-- A list of rules as it comes out of `parse_port_forwards`. -/
structure IsPortList (ports : List PortForward) : Prop where
  rule : ∀ pf ∈ ports, pf.IsRule
  apart : ports.Pairwise fun ex pf => conflicts pf ex = false
  count : ports.length ≤ maxPortForwards
  fits : (joinComma (ports.map portForwardText)).length ≤ 1023

theorem IsPortList.parse {ports : List PortForward} (h : IsPortList ports) :
    parsePortForwards (joinComma (ports.map portForwardText)) [] = ports := by
  have htokens : ∀ t ∈ ports.map portForwardText, t ≠ [] ∧ ',' ∉ t := by
    intro t ht
    obtain ⟨pf, hpf, rfl⟩ := List.mem_map.1 ht
    refine ⟨?_, (h.rule pf hpf).not_mem_text rfl (by decide)⟩
    rw [(h.rule pf hpf).text]
    simp
  rw [parsePortForwards, List.take_of_length_le h.fits, tokens_joinComma htokens]
  refine foldl_rebuild fun l pf hl => ?_
  have hparse := (h.rule pf (hl.subset (by simp))).parse
  have hfree : (!l.any (conflicts pf)) = true := by
    have hpair := List.pairwise_append.1 (h.apart.sublist hl.sublist)
    rw [Bool.not_eq_true', List.any_eq_false]
    intro ex hex
    simpa using hpair.2.2 ex hex pf (by simp)
  have hcount : l.length < maxPortForwards := by
    have hle := hl.length_le
    have hmax := h.count
    rw [List.length_append, List.length_singleton] at hle
    omega
  have hnew : newPort l (portForwardText pf) = some pf := by
    rw [newPort, if_neg (by omega), hparse]
    simp [Option.filter, hfree]
  simp [extend, hnew]

/-! ## Bind mounts -/

/-- A bind mount whose paths are written as they are. -/
structure IsBind (resolve : Text → Text) (b : BindMount) : Prop where
  src : b.src ≠ [] ∧ ':' ∉ b.src ∧ ',' ∉ b.src ∧ IsTrimmed b.src
  dest : ':' ∉ b.dest ∧ ',' ∉ b.dest ∧ IsTrimmed b.dest
  resolved : resolve b.src = b.src ∧ resolve b.dest = b.dest
  valid : validateBindDestination b.dest = true

namespace IsBind

variable {resolve : Text → Text} {b : BindMount} (h : IsBind resolve b)
include h

theorem text : bindText resolve b =
    b.src ++ ':' :: (b.dest ++ if b.ro then ":ro".toList else []) := by
  rw [bindText, h.resolved.1, h.resolved.2, List.append_assoc, List.cons_append]

theorem dest_ne_nil : b.dest ≠ [] := by
  intro hnil
  have hvalid := h.valid
  rw [hnil] at hvalid
  cases hvalid

theorem parse : parseBindMount resolve (bindText resolve b) = some b := by
  have hsrc : ∀ c ∈ b.src, (c != ':') = true := by
    intro c hc
    refine bne_iff_ne.2 ?_
    rintro rfl
    exact h.src.2.1 hc
  have hdest : ∀ c ∈ b.dest, (c != ':') = true := by
    intro c hc
    refine bne_iff_ne.2 ?_
    rintro rfl
    exact h.dest.1 hc
  have hsrcTrim : trim b.src = b.src := h.src.2.2.2
  have hdestTrim : trim b.dest = b.dest := h.dest.2.2
  rw [h.text]
  unfold parseBindMount
  rw [List.dropWhile_append_of_pos hsrc, List.takeWhile_append_of_pos hsrc]
  cases hro : b.ro with
  | true =>
    have hflag : (trim "ro".toList == "ro".toList) = true := by decide
    have hcolon : ":ro".toList = ':' :: "ro".toList := rfl
    simp only [hcolon, if_true, List.dropWhile_cons, List.takeWhile_cons, bne_self_eq_false,
      Bool.false_eq_true, if_false, List.append_nil, List.dropWhile_append_of_pos hdest,
      List.takeWhile_append_of_pos hdest, hsrcTrim, hdestTrim, hflag, h.resolved.1, h.resolved.2,
      h.valid]
    rw [← hro]
  | false =>
    have hend : b.dest.dropWhile (· != ':') = [] := List.dropWhile_eq_nil_iff.2 hdest
    have hall : b.dest.takeWhile (· != ':') = b.dest := List.takeWhile_eq_self_iff.2 hdest
    simp only [Bool.false_eq_true, if_false, List.dropWhile_cons, List.takeWhile_cons,
      bne_self_eq_false, List.append_nil, hend, hall, hsrcTrim, hdestTrim, h.resolved.1,
      h.resolved.2, h.valid, if_true]
    rw [← hro]

end IsBind

/-- A list of bind mounts as it comes out of `parse_bind_mounts`. -/
structure IsBindList (resolve : Text → Text) (binds : List BindMount) : Prop where
  bind : ∀ b ∈ binds, IsBind resolve b
  apart : binds.Pairwise fun e b => ¬(e.src = b.src ∧ e.dest = b.dest)
  fits : (joinComma (binds.map (bindText resolve))).length ≤ 4095

theorem IsBindList.parse {resolve : Text → Text} {binds : List BindMount}
    (h : IsBindList resolve binds) :
    parseBindMounts resolve (joinComma (binds.map (bindText resolve))) [] = binds := by
  have htokens : ∀ t ∈ binds.map (bindText resolve), t ≠ [] ∧ ',' ∉ t := by
    intro t ht
    obtain ⟨b, hb, rfl⟩ := List.mem_map.1 ht
    have hbind := h.bind b hb
    rw [hbind.text]
    refine ⟨by simp, ?_⟩
    simp only [List.mem_append, List.mem_cons, not_or]
    refine ⟨hbind.src.2.2.1, by decide, hbind.dest.2.1, ?_⟩
    split
    · decide
    · exact List.not_mem_nil
  rw [parseBindMounts, List.take_of_length_le h.fits, tokens_joinComma htokens]
  refine foldl_rebuild fun l b hl => ?_
  have hbind := h.bind b (hl.subset (by simp))
  have hfresh : (l.any fun e => e.src == b.src && e.dest == b.dest) = false := by
    have hpair := List.pairwise_append.1 (h.apart.sublist hl.sublist)
    rw [List.any_eq_false]
    intro e he
    simpa using hpair.2.2 e he b (by simp)
  have hsrc : b.src.isEmpty = false := by simpa using hbind.src.1
  have hdest : b.dest.isEmpty = false := by simpa using hbind.dest_ne_nil
  rw [hbind.parse]
  dsimp only
  rw [addBind, hsrc, hdest, hfresh]
  rfl

/-! ## A configuration -/

/-- The root file system as it is configured: where an image is mounted is not part of it. -/
def keptRootfs (r : Rootfs) : Rootfs :=
  if r.isImg then { path := [], img := r.img, isImg := true }
  else { path := r.path, img := [], isImg := false }

/-- What a file keeps of a configuration. -/
def kept (cfg : DsConfig) : DsConfig :=
  (cfg.set .binds (sortBindMounts (cfg.value .binds))).set .rootfs (keptRootfs (cfg.value .rootfs))

section Ordinary

variable (sys : System) (android : Bool) (cfg : DsConfig)

/-- A text is not there, or it is written and stored. -/
def IsText (k : TextKey) (val : Text) : Prop :=
  val = [] ∨ k.isWritten android cfg = true ∧ k.accepts sys val = true ∧ k.stored val = val ∧
    (k = .envFile ∨ k = .customInit → sys.resolve val = val)

/-- There is a directory, or an image. -/
def IsRootfs (r : Rootfs) : Prop :=
  let path := if r.isImg then r.img else r.path
  path ≠ [] ∧ sys.resolve path = path ∧ sys.isImage path = r.isImg

/-- A configuration that is saved as it is. -/
structure Ordinary : Prop where
  readable : Readable sys android (cfg.set .binds (sortBindMounts (cfg.value .binds)))
  text : ∀ k, IsText sys android cfg k (cfg.value (.text k))
  flag : ∀ f, f.isWritten android = false → cfg.value (.flag f) = false
  limit : ∀ l, cfg.value (.limit l) ≤ llongMax
  privileged : cfg.value .privileged < 16 ∨ cfg.value .privileged = 255
  rootfs : IsRootfs sys (cfg.value .rootfs)
  upstreamIfaces : cfg.value .upstreamIfaces = [] ∨
    cfg.value .netMode = .nat ∧ IsIfaceList (cfg.value .upstreamIfaces)
  portForwards : cfg.value .portForwards = [] ∨
    cfg.value .netMode = .nat ∧ IsPortList (cfg.value .portForwards)
  binds : IsBindList sys.resolve (sortBindMounts (cfg.value .binds))

end Ordinary

section Loading

variable {sys : System} {android : Bool} {cfg : DsConfig}

theorem parseBool_flag (b : Bool) : parseBool (if b then ['1'] else ['0']) = b := by
  cases b <;> decide +kernel

theorem written_set_binds (binds : List BindMount) {k : Key} (hk : k ≠ .binds) :
    written sys android (cfg.set .binds binds) k = written sys android cfg k := by
  cases k with
  | text k => cases k <;> rfl
  | binds => exact absurd rfl hk
  | _ => rfl

section Keys

variable (h : Ordinary sys android cfg)
include h

theorem Ordinary.overlay_text (k : TextKey) :
    overlay sys (.text k) (written sys android cfg (.text k)).toList [] =
      cfg.value (.text k) := by
  unfold written
  dsimp only
  rcases h.text k with hnil | ⟨hwritten, haccepts, hstored, hresolve⟩
  · rw [hnil]
    simp [overlay]
  · by_cases hnil : cfg.value (.text k) = []
    · rw [hnil]
      simp [overlay]
    · have hval : (if k = .envFile ∨ k = .customInit then sys.resolve (cfg.value (.text k))
          else cfg.value (.text k)) = cfg.value (.text k) := by
        split
        · next hk => exact hresolve hk
        · rfl
      have hfull : (cfg.value (.text k)).isEmpty = false := by simpa using hnil
      rw [hwritten, hfull, hval]
      simp [overlay, accept, haccepts, hstored]

theorem Ordinary.overlay_flag (f : Flag) :
    overlay sys (.flag f) (written sys android cfg (.flag f)).toList false =
      cfg.value (.flag f) := by
  unfold written
  dsimp only
  cases hwritten : f.isWritten android with
  | true => exact parseBool_flag (cfg.value (.flag f))
  | false => exact (h.flag f hwritten).symm

theorem Ordinary.overlay_limit (l : Limit) :
    overlay sys (.limit l) (written sys android cfg (.limit l)).toList 0 =
      cfg.value (.limit l) := by
  unfold written
  dsimp only
  split
  · next hzero => exact hzero.symm
  · next hne => simp [overlay, accept, parseLlPositive_decimal hne (h.limit l)]

theorem Ordinary.overlay_privileged :
    overlay sys .privileged (written sys android cfg .privileged).toList 0 =
      cfg.value .privileged := by
  unfold written
  dsimp only
  split
  · next hzero => exact hzero.symm
  · exact parsePrivileged_privilegedText h.privileged

theorem Ordinary.overlay_rootfs :
    overlay sys .rootfs (written sys android cfg .rootfs).toList ⟨[], [], false⟩ =
      keptRootfs (cfg.value .rootfs) := by
  have hrootfs := h.rootfs
  unfold written
  dsimp only
  generalize cfg.value .rootfs = r at hrootfs ⊢
  obtain ⟨path, img, isImg⟩ := r
  obtain ⟨hne, hresolve, himage⟩ := hrootfs
  cases isImg with
  | true =>
    have hfull : img.isEmpty = false := by simpa using hne
    simp only [if_true] at hresolve himage
    simp [hfull, hresolve, himage, overlay, accept, acceptRootfs, keptRootfs]
  | false =>
    have hfull : path.isEmpty = false := by simpa using hne
    simp only [Bool.false_eq_true, if_false] at hresolve himage
    simp [hfull, hresolve, himage, overlay, accept, acceptRootfs, keptRootfs]

theorem Ordinary.overlay_upstreamIfaces :
    overlay sys .upstreamIfaces (written sys android cfg .upstreamIfaces).toList [] =
      cfg.value .upstreamIfaces := by
  unfold written
  dsimp only
  rcases h.upstreamIfaces with hnil | ⟨hmode, hlist⟩
  · rw [hnil, if_neg (by simp)]
    rfl
  · split
    · exact hlist.parse
    · next hno => exact (not_not.1 fun hne => hno ⟨hmode, hne⟩).symm

theorem Ordinary.overlay_portForwards :
    overlay sys .portForwards (written sys android cfg .portForwards).toList [] =
      cfg.value .portForwards := by
  unfold written
  dsimp only
  rcases h.portForwards with hnil | ⟨hmode, hlist⟩
  · rw [hnil, if_neg (by simp)]
    rfl
  · split
    · exact hlist.parse
    · next hno => exact (not_not.1 fun hne => hno ⟨hmode, hne⟩).symm

theorem Ordinary.overlay_binds :
    overlay sys .binds (written sys android
      (cfg.set .binds (sortBindMounts (cfg.value .binds))) .binds).toList [] =
      sortBindMounts (cfg.value .binds) := by
  unfold written
  dsimp only
  rw [DsConfig.value_set_self]
  split
  · next hnil => rw [hnil]; rfl
  · exact h.binds.parse

end Keys

theorem Ordinary.overlay (h : Ordinary sys android cfg) (k : Key) {old : k.Value}
    (hold : k ≠ .netMode → old = defaults.value k) :
    overlay sys k (written sys android
      (cfg.set .binds (sortBindMounts (cfg.value .binds))) k).toList old = (kept cfg).value k := by
  cases k with
  | binds =>
    rw [hold (by simp)]
    exact h.overlay_binds
  | netMode => exact parseNetMode_netModeText (cfg.value .netMode)
  | text k =>
    rw [hold (by simp), written_set_binds _ (by simp)]
    exact h.overlay_text k
  | flag f =>
    rw [hold (by simp), written_set_binds _ (by simp)]
    exact h.overlay_flag f
  | limit l =>
    rw [hold (by simp), written_set_binds _ (by simp)]
    exact h.overlay_limit l
  | privileged =>
    rw [hold (by simp), written_set_binds _ (by simp)]
    exact h.overlay_privileged
  | rootfs =>
    rw [hold (by simp), written_set_binds _ (by simp)]
    exact h.overlay_rootfs
  | upstreamIfaces =>
    rw [hold (by simp), written_set_binds _ (by simp)]
    exact h.overlay_upstreamIfaces
  | portForwards =>
    rw [hold (by simp), written_set_binds _ (by simp)]
    exact h.overlay_portForwards

/-- **What was saved is loaded**, over defaults of which only the network mode may differ. -/
theorem Ordinary.load_save (h : Ordinary sys android cfg) {base : DsConfig}
    (hbase : ∀ k, k ≠ .netMode → base.value k = defaults.value k) :
    dsConfigLoad sys (dsConfigSave sys android cfg) base = kept cfg := by
  have hunknown : (dsConfigLoad sys (dsConfigSave sys android cfg) base).unknown =
      (kept cfg).unknown := by
    rw [dsConfigLoad_unknown]
    exact h.readable.unknown_savedText
  have hvalue : (dsConfigLoad sys (dsConfigSave sys android cfg) base).value =
      (kept cfg).value := by
    funext k
    rw [dsConfigLoad_value, ← h.overlay k (hbase k)]
    exact congrArg (Config.overlay sys k · (base.value k)) (h.readable.valuesOf_savedText k)
  exact congrArg₂ DsConfig.mk hvalue hunknown

theorem sortBindMounts_sorted (binds : List BindMount) :
    sortBindMounts (sortBindMounts binds) = sortBindMounts binds := by
  refine List.mergeSort_of_pairwise (List.pairwise_mergeSort ?_ ?_ binds)
  · intro a b c hab hbc
    simp only [decide_eq_true_eq] at hab hbc ⊢
    exact hab.trans hbc
  · intro a b
    simpa using le_total a.dest b.dest

theorem written_kept (h : IsRootfs sys (cfg.value .rootfs)) (k : Key) :
    written sys android ((kept cfg).set .binds (sortBindMounts ((kept cfg).value .binds))) k =
      written sys android (cfg.set .binds (sortBindMounts (cfg.value .binds))) k := by
  have hbinds : (kept cfg).value .binds = sortBindMounts (cfg.value .binds) := rfl
  cases k with
  | binds => rw [hbinds, sortBindMounts_sorted]; rfl
  | text k => cases k <;> rfl
  | rootfs =>
    rw [written_set_binds _ (by simp), written_set_binds _ (by simp)]
    have hkept : (kept cfg).value .rootfs = keptRootfs (cfg.value .rootfs) := rfl
    unfold written
    dsimp only
    rw [hkept]
    generalize cfg.value .rootfs = r at h ⊢
    obtain ⟨path, img, isImg⟩ := r
    cases isImg with
    | true =>
      have hfull : img.isEmpty = false := by simpa using h.1
      simp [keptRootfs, hfull]
    | false => simp [keptRootfs]
  | _ => rfl

/-- Saved once more it is the same text. -/
theorem Ordinary.save_kept (h : Ordinary sys android cfg) :
    dsConfigSave sys android (kept cfg) = dsConfigSave sys android cfg := by
  have hlines : knownLines sys android ((kept cfg).set .binds
        (sortBindMounts ((kept cfg).value .binds))) =
      knownLines sys android (cfg.set .binds (sortBindMounts (cfg.value .binds))) := by
    simp only [knownLines, written_kept h.rootfs]
  exact congrArg (fun known => (header ++ known ++ cfg.unknown).flatten) hlines

end Loading

end Droidspaces.Config
