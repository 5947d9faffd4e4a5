import Droidspaces.Cli.Getopt
import Droidspaces.Config.PortTable

/-!
# Options over a configuration

`ds_apply_cli_overrides` looks for `--reset` and then applies every option to the configuration.
Most options set keys to values of their own, so that the last one wins; ports, interfaces and bind
mounts are added to what is there.  `restart` goes through the same vector once more, over what came
out; `overrides_again_iff` says when nothing happens then.
-/

namespace Droidspaces.Cli

open Config CustomBinds Getopt

/-! ## The options -/

inductive Opt where
  | rootfs
  | rootfsImg
  | name
  | text (k : TextKey)
  | flag (f : Flag)
  | bind
  | conf
  | user
  | help
  | net
  | privileged
  | port
  | upstream
  | format
  | memory
  | cpus
  | pidsLimit
  | reset
  deriving DecidableEq

/-- `long_options`; the flag says whether there is an argument. -/
def longOptions : List (String × Opt × Bool) := [
  ("rootfs", .rootfs, true),
  ("rootfs-img", .rootfsImg, true),
  ("name", .name, true),
  ("hostname", .text .hostname, true),
  ("dns", .text .dnsServers, true),
  ("foreground", .flag .foreground, false),
  ("hw-access", .flag .hwAccess, false),
  ("termux-x11", .flag .termuxX11, false),
  ("tx11-flags", .text .tx11ExtraFlags, true),
  ("wayland", .flag .wayland, false),
  ("wayland-flags", .text .waylandExtraFlags, true),
  ("disable-ipv6", .flag .disableIpv6, false),
  ("enable-android-storage", .flag .androidStorage, false),
  ("selinux-permissive", .flag .selinuxPermissive, false),
  ("allow-sandboxing", .flag .sandboxingAllowed, false),
  ("allow-userns", .flag .sandboxingAllowed, false),
  ("allow-vts", .flag .allowVts, false),
  ("volatile", .flag .volatileMode, false),
  ("bind-mount", .bind, true),
  ("bind", .bind, true),
  ("conf", .conf, true),
  ("config", .conf, true),
  ("env", .text .envFile, true),
  ("user", .user, true),
  ("net", .net, true),
  ("port", .port, true),
  ("upstream", .upstream, true),
  ("force-cgroupv1", .flag .forceCgroupv1, false),
  ("privileged", .privileged, true),
  ("nat-ip", .text .staticNatIp, true),
  ("gpu", .flag .gpuMode, false),
  ("virgl", .flag .virgl, false),
  ("virgl-flags", .text .virglExtraFlags, true),
  ("pulse-audio", .flag .pulseaudio, false),
  ("gateway", .text .gatewayContainer, true),
  ("gateway-container", .text .gatewayContainer, true),
  ("gateway-net", .text .gatewayNet, true),
  ("gateway-iface", .text .gatewayLanIfname, true),
  ("gateway-bridge", .text .gatewayBridge, true),
  ("reset", .reset, false),
  ("format", .format, false),
  ("memory", .memory, true),
  ("cpus", .cpus, true),
  ("pids-limit", .pidsLimit, true),
  ("init", .text .customInit, true),
  ("help", .help, false)]

/-- `r:i:n:h:d:fHXWPvVB:C:E:u:` -/
def shortOptions : Char → Option (Opt × Bool)
  | 'r' => some (.rootfs, true)
  | 'i' => some (.rootfsImg, true)
  | 'n' => some (.name, true)
  | 'h' => some (.text .hostname, true)
  | 'd' => some (.text .dnsServers, true)
  | 'f' => some (.flag .foreground, false)
  | 'H' => some (.flag .hwAccess, false)
  | 'X' => some (.flag .termuxX11, false)
  | 'W' => some (.flag .wayland, false)
  | 'P' => some (.flag .selinuxPermissive, false)
  | 'v' => some (.help, false)
  | 'V' => some (.flag .volatileMode, false)
  | 'B' => some (.bind, true)
  | 'C' => some (.conf, true)
  | 'E' => some (.text .envFile, true)
  | 'u' => some (.user, true)
  | _ => none

def options : Spec Opt := ⟨shortOptions, longOptions⟩

/-! ## What an option does -/

/-- The fields that the options are about. -/
@[ext]
structure CliConfig where
  cfg : DsConfig
  formatOutput : Bool

def CliConfig.set (c : CliConfig) (k : Key) (v : k.Value) : CliConfig :=
  { c with cfg := c.cfg.set k v }

/-- What is returned instead of 0. -/
inductive Exit where
  /-- -1 -/
  | failed
  /-- 1 -/
  | help

/-- Numbers that are read by way of floating point. -/
structure Numbers where
  /-- `ds_parse_size`, in bytes; -1 if there is no size. -/
  size : Text → ℤ
  /-- The quota for a number of CPUs, at 100000 a CPU, if that is a number from 0.01 on. -/
  quota : Text → Option ℕ
  size_le : ∀ t, size t ≤ llongMax
  quota_le : ∀ t q, quota t = some q → q ≤ llongMax

/-- A value that an option gives to a key. -/
inductive Assignment where
  | key (k : Key) (v : k.Value)
  | format

def Assignment.apply (c : CliConfig) : Assignment → CliConfig
  | .key k v => c.set k v
  | .format => { c with formatOutput := true }

def cliAccepts : TextKey → Text → Bool
  | .staticNatIp, val => validateStaticIp val
  | .customInit, val => !val.contains ' '
  | _, _ => true

/-- `parse_and_validate_names` -/
def parseAndValidateNames (arg : Text) : Bool := (tokens (arg.take 4095)).all validateContainerName

def cliNetMode (arg : Text) : Option NetMode :=
  if arg = "nat".toList then some .nat
  else if arg = "none".toList then some .none
  else if arg = "host".toList then some .host
  else if arg = "gateway".toList ∨ arg = "delegated-gateway".toList then some .gateway
  else none

/-- The options that do not look at what is there. -/
def assignments (numbers : Numbers) (arg : Text) : Opt → Except Exit (List Assignment)
  | .rootfs => .ok [.key .rootfs ⟨arg.take (pathMax - 1), [], false⟩]
  | .rootfsImg => .ok [.key .rootfs ⟨[], arg.take (pathMax - 1), true⟩]
  | .name =>
    if parseAndValidateNames arg then .ok [.key (.text .name) (TextKey.stored .name arg)]
    else .error .failed
  | .text k => if cliAccepts k arg then .ok [.key (.text k) (k.stored arg)] else .error .failed
  | .flag f => .ok [.key (.flag f) true]
  | .net =>
    match cliNetMode arg with
    | some mode => .ok [.key .netMode mode]
    | none => .error .failed
  | .privileged => .ok [.key .privileged (parsePrivileged arg)]
  | .format => .ok [.format]
  | .memory =>
    if numbers.size arg < 4 * 1024 * 1024 then .error .failed
    else .ok [.key (.limit .memoryLimit) (numbers.size arg).toNat]
  | .cpus =>
    match numbers.quota arg with
    | some quota =>
      if quota < 1000 then .error .failed
      else .ok [.key (.limit .cpuPeriod) (100000 : ℕ), .key (.limit .cpuQuota) quota]
    | none => .error .failed
  | .pidsLimit =>
    match parseLlPositive arg with
    | some p => if 4194304 < p then .error .failed else .ok [.key (.limit .pidsLimit) p]
    | none => .error .failed
  | .help => .error .help
  | .conf | .user | .reset | .bind | .port | .upstream => .ok []

/-- A token of `--bind-mount`. -/
def parseBindOption (tok : Text) : Option BindMount :=
  match tok.dropWhile (· != ':') with
  | [] => none
  | _ :: rest =>
    let ro := match rest.dropWhile (· != ':') with
      | [] => false
      | _ :: flag => flag == "ro".toList
    let dest := rest.takeWhile (· != ':')
    if dest.head? == some '/' && validateBindDestination dest then
      some ⟨tok.takeWhile (· != ':'), dest, ro⟩
    else none

/-- `ds_config_add_bind`, for a destination that is valid.  What is there is compared with the whole
paths; what is stored has to fit. -/
def dsConfigAddBind (binds : List BindMount) (b : BindMount) : List BindMount :=
  if b.src.isEmpty || b.dest.isEmpty || binds.any fun e => e.src == b.src && e.dest == b.dest then
    binds
  else binds ++ [⟨b.src.take (pathMax - 1), b.dest.take (pathMax - 1), b.ro⟩]

def addBinds (binds : List BindMount) : List Text → Option (List BindMount)
  | [] => some binds
  | tok :: toks => (parseBindOption tok).bind fun b => addBinds (dsConfigAddBind binds b) toks

/-- A token of `ds_parse_iface_csv`, with the number of those that there was no room for. -/
def addIface (acc : List Text × ℕ) (tok : Text) : List Text × ℕ :=
  let name := (tok.dropWhile isTabOrSpace).rdropWhile isTabOrSpace
  if name.isEmpty || ifNameSize ≤ name.length || acc.1.contains name then acc
  else if maxUpstreamIfaces ≤ acc.1.length then (acc.1, acc.2 + 1)
  else (acc.1 ++ [name], acc.2)

def dsParseIfaceCsv (val : Text) (ifaces : List Text) : List Text × ℕ :=
  (tokens (val.take 1023)).foldl addIface (ifaces, 0)

/-- The body of the loop. -/
def applyOption (numbers : Numbers) (c : CliConfig) : Event Opt → Except Exit CliConfig
  | .invalid => .ok c
  | .option .bind arg =>
    match addBinds (c.cfg.value .binds) (tokens arg) with
    | some binds => .ok (c.set .binds binds)
    | none => .error .failed
  | .option .port arg =>
    match applyPortOption arg (c.cfg.value .portForwards) with
    | (true, ports) => .ok (c.set .portForwards ports)
    | (false, _) => .error .failed
  | .option .upstream arg =>
    match dsParseIfaceCsv arg (c.cfg.value .upstreamIfaces) with
    | (ifaces, 0) => .ok (c.set .upstreamIfaces ifaces)
    | (_, _ + 1) => .error .failed
  | .option opt arg =>
    (assignments numbers arg opt).map fun as => as.foldl Assignment.apply c

/-! ## The two loops -/

def isReset : Event Opt → Bool
  | .option .reset _ => true
  | _ => false

def CliConfig.resetDefaults (c : CliConfig) : CliConfig := ⟨dsConfigResetDefaults c.cfg, false⟩

def applyOptions (numbers : Numbers) (events : List (Event Opt)) (c : CliConfig) :
    Except Exit CliConfig :=
  events.foldlM (applyOption numbers) c

/-- The configuration and the argument vector, without its first element, if 0 is returned. -/
def dsApplyCliOverrides (numbers : Numbers) (strict : Bool) (argv : List Text) (c : CliConfig) :
    Except Exit (CliConfig × List Text) := do
  let (reset, events, argv) := searchThenCall options strict isReset argv
  let c ← applyOptions numbers events (if reset then c.resetDefaults else c)
  return (c, argv)

/-! ## Lists that nothing is added to -/

/-- What is accepted is added as by a line. -/
theorem prefix_of_addMappings {toks : List Text} {ports ports' : List PortForward}
    (h : addMappings toks ports = (true, ports')) :
    ports' = toks.foldl (extend newPort) ports ∧ ports <+: ports' := by
  obtain ⟨toks', htable, hall⟩ := exists_foldl_of_addMappings toks ports
  rw [h] at htable hall
  obtain rfl := hall rfl
  dsimp only at htable
  exact ⟨htable, htable ▸ prefix_foldl_extend ports toks'⟩

/-- A table with room takes the mappings that it has. -/
theorem addMappings_absorb {toks : List Text} {ports ports' table : List PortForward}
    (h : addMappings toks ports = (true, ports')) (htable : ports' <+: table)
    (hroom : toks = [] ∨ table.length < maxPortForwards) :
    addMappings toks table = (true, table) := by
  induction toks generalizing ports with
  | nil => rfl
  | cons tok toks ih =>
    have hlt : table.length < maxPortForwards := hroom.resolve_left (List.cons_ne_nil _ _)
    rw [addMappings] at h
    split at h
    · cases h
    · cases hparse : parsePortOption tok with
      | none => rw [hparse] at h; cases h
      | some pf =>
        rw [hparse] at h
        dsimp only at h
        have hany : table.any (conflicts pf) = true := by
          have hgrows := (prefix_of_addMappings h).2.trans htable
          split at hgrows
          · next hany =>
            obtain ⟨ex, hex, hconflict⟩ := List.any_eq_true.1 hany
            exact List.any_eq_true.2 ⟨ex, hgrows.subset hex, hconflict⟩
          · exact List.any_eq_true.2 ⟨pf, hgrows.subset (by simp), by simp [conflicts]⟩
        rw [addMappings, if_neg (Nat.not_le.2 hlt), hparse]
        dsimp only
        rw [if_pos hany]
        exact ih h (Or.inr hlt)

theorem prefix_dsConfigAddBind (binds : List BindMount) (b : BindMount) :
    binds <+: dsConfigAddBind binds b := by
  unfold dsConfigAddBind
  split
  · exact List.prefix_rfl
  · exact List.prefix_append _ _

theorem prefix_of_addBinds {toks : List Text} {binds binds' : List BindMount}
    (h : addBinds binds toks = some binds') : binds <+: binds' := by
  induction toks generalizing binds with
  | nil => exact Option.some.inj h ▸ List.prefix_rfl
  | cons tok toks ih =>
    obtain ⟨b, -, hrest⟩ := Option.bind_eq_some_iff.1 h
    exact (prefix_dsConfigAddBind binds b).trans (ih hrest)

/-- The source of a token of `--bind-mount`. -/
def bindSource (tok : Text) : Text := tok.takeWhile (· != ':')

theorem of_parseBindOption {tok : Text} {b : BindMount} (h : parseBindOption tok = some b) :
    b.src = bindSource tok ∧ b.dest.length < pathMax ∧ b.dest ≠ [] := by
  unfold parseBindOption at h
  split at h
  · cases h
  · dsimp only at h
    split at h
    · next hvalid =>
      obtain rfl := Option.some.inj h
      rw [Bool.and_eq_true] at hvalid
      have hlength := hvalid.2
      simp only [validateBindDestination, Bool.and_eq_true, decide_eq_true_eq] at hlength
      exact ⟨rfl, hlength.1.2, List.length_pos_iff.1 (Nat.zero_lt_two.trans_le hlength.1.1.2)⟩
    · cases h

/-- What is stored whole is found again. -/
theorem dsConfigAddBind_absorb {binds table : List BindMount} {b : BindMount}
    (hsrc : b.src.length < pathMax) (hdest : b.dest.length < pathMax)
    (htable : dsConfigAddBind binds b <+: table) : dsConfigAddBind table b = table := by
  have hstored : (⟨b.src.take (pathMax - 1), b.dest.take (pathMax - 1), b.ro⟩ : BindMount) = b := by
    rw [List.take_of_length_le (by omega), List.take_of_length_le (by omega)]
  unfold dsConfigAddBind at htable ⊢
  rw [hstored] at htable
  rw [if_pos]
  split at htable
  · next hskip =>
    simp only [Bool.or_eq_true, List.any_eq_true] at hskip ⊢
    exact hskip.imp_right fun ⟨e, he, hsame⟩ => ⟨e, htable.subset he, hsame⟩
  · simp only [Bool.or_eq_true, List.any_eq_true]
    exact Or.inr ⟨b, htable.subset (by simp), by simp⟩

theorem addBinds_absorb {toks : List Text} {binds binds' table : List BindMount}
    (h : addBinds binds toks = some binds') (htable : binds' <+: table)
    (hfit : ∀ tok ∈ toks, (bindSource tok).length < pathMax) :
    addBinds table toks = some table := by
  induction toks generalizing binds with
  | nil => rfl
  | cons tok toks ih =>
    obtain ⟨b, hparse, hrest⟩ := Option.bind_eq_some_iff.1 h
    obtain ⟨hsrc, hdest, -⟩ := of_parseBindOption hparse
    have htok : (bindSource tok).length < pathMax := hfit tok List.mem_cons_self
    rw [addBinds, hparse, Option.bind_some, dsConfigAddBind_absorb (hsrc ▸ htok) hdest
      ((prefix_of_addBinds hrest).trans htable)]
    exact ih hrest fun tok' htok' => hfit tok' (List.mem_cons_of_mem _ htok')

theorem addIface_grows (acc : List Text × ℕ) (tok : Text) :
    acc.1 <+: (addIface acc tok).1 ∧ acc.2 ≤ (addIface acc tok).2 := by
  unfold addIface
  dsimp only
  split
  · exact ⟨List.prefix_rfl, le_rfl⟩
  · split
    · exact ⟨List.prefix_rfl, Nat.le_succ _⟩
    · exact ⟨List.prefix_append _ _, le_rfl⟩

theorem foldl_addIface_grows (toks : List Text) (acc : List Text × ℕ) :
    acc.1 <+: (toks.foldl addIface acc).1 ∧ acc.2 ≤ (toks.foldl addIface acc).2 := by
  induction toks generalizing acc with
  | nil => exact ⟨List.prefix_rfl, le_rfl⟩
  | cons tok toks ih =>
    obtain ⟨hgrows, hle⟩ := addIface_grows acc tok
    obtain ⟨hgrows', hle'⟩ := ih (addIface acc tok)
    exact ⟨hgrows.trans hgrows', hle.trans hle'⟩

/-- There is room for what was not dropped, full or not. -/
theorem foldl_addIface_absorb {toks : List Text} {ifaces ifaces' table : List Text}
    (h : toks.foldl addIface (ifaces, 0) = (ifaces', 0)) (htable : ifaces' <+: table) :
    toks.foldl addIface (table, 0) = (table, 0) := by
  induction toks generalizing ifaces with
  | nil => rfl
  | cons tok toks ih =>
    rw [List.foldl_cons] at h ⊢
    obtain ⟨hgrows, hle⟩ := foldl_addIface_grows toks (addIface (ifaces, 0) tok)
    rw [h] at hgrows hle
    have hnone : (addIface (ifaces, 0) tok).2 = 0 := Nat.le_zero.1 hle
    have hsub := (hgrows.trans htable).subset
    have htok : addIface (table, 0) tok = (table, 0) := by
      unfold addIface at hnone hsub ⊢
      dsimp only at hnone hsub ⊢
      generalize (tok.dropWhile isTabOrSpace).rdropWhile isTabOrSpace = name at hnone hsub ⊢
      rw [if_pos]
      split at hsub
      · next hskip =>
        simp only [Bool.or_eq_true, List.contains_iff_mem] at hskip ⊢
        exact hskip.imp_right fun hmem => hsub hmem
      · split at hsub
        · next hskip hfull =>
          rw [if_neg hskip, if_pos hfull] at hnone
          cases hnone
        · simp only [Bool.or_eq_true, List.contains_iff_mem]
          exact Or.inr (hsub (by simp))
    rw [htok]
    have hnext : addIface (ifaces, 0) tok = ((addIface (ifaces, 0) tok).1, 0) :=
      Prod.ext rfl hnone
    rw [hnext] at h
    exact ih h

/-! ## One option -/

/-- Keys whose values are added to. -/
def isList : Key → Bool
  | .upstreamIfaces | .portForwards | .binds => true
  | _ => false

/-- The mappings of a `--port`. -/
def portTokens : Event Opt → List Text
  | .option .port arg => tokens (arg.take 1023)
  | _ => []

/-- The tokens of a `--bind-mount`. -/
def bindTokens : Event Opt → List Text
  | .option .bind arg => tokens arg
  | _ => []

section Option

variable {numbers : Numbers} {c c' d m : CliConfig} {e : Event Opt}

@[simp] theorem value_set (c : CliConfig) (k : Key) (v : k.Value) :
    (c.set k v).cfg.value k = v := DsConfig.value_set_self c.cfg k v

theorem value_set_of_ne (c : CliConfig) {k l : Key} (h : l ≠ k) (v : k.Value) :
    (c.set k v).cfg.value l = c.cfg.value l := DsConfig.value_set_of_ne c.cfg h v

def Assignment.IsSingle : Assignment → Prop
  | .key k _ => isList k = false
  | .format => True

theorem isSingle_of_assignments {arg : Text} {opt : Opt} {as : List Assignment}
    (h : assignments numbers arg opt = .ok as) : ∀ a ∈ as, a.IsSingle := by
  unfold assignments at h
  repeat' split at h
  all_goals
    cases h <;> simp [Assignment.IsSingle, isList]

theorem value_foldl_apply {as : List Assignment} (h : ∀ a ∈ as, a.IsSingle) (c : CliConfig)
    {k : Key} (hk : isList k = true) :
    (as.foldl Assignment.apply c).cfg.value k = c.cfg.value k := by
  induction as generalizing c with
  | nil => rfl
  | cons a as ih =>
    rw [List.foldl_cons, ih fun a' ha' => h a' (List.mem_cons_of_mem _ ha')]
    have ha := h a List.mem_cons_self
    cases a with
    | key l v =>
      refine value_set_of_ne c ?_ v
      rintro rfl
      exact absurd hk (ha ▸ Bool.false_ne_true)
    | format => rfl

theorem applyOption_eq {opt : Opt} (hbind : opt ≠ .bind) (hport : opt ≠ .port)
    (hupstream : opt ≠ .upstream) (arg : Text) :
    applyOption numbers c (.option opt arg) =
      (assignments numbers arg opt).map fun as => as.foldl Assignment.apply c := by
  cases opt with
  | bind => exact absurd rfl hbind
  | port => exact absurd rfl hport
  | upstream => exact absurd rfl hupstream
  | _ => rfl

/-- What an option does: it adds to one of the three lists, or it assigns, whatever is there. -/
theorem applyOption_cases (h : applyOption numbers c e = .ok c') :
    (∃ arg binds, e = .option .bind arg ∧
      addBinds (c.cfg.value .binds) (tokens arg) = some binds ∧ c' = c.set .binds binds) ∨
    (∃ arg ports, e = .option .port arg ∧
      applyPortOption arg (c.cfg.value .portForwards) = (true, ports) ∧
        c' = c.set .portForwards ports) ∨
    (∃ arg ifaces, e = .option .upstream arg ∧
      dsParseIfaceCsv arg (c.cfg.value .upstreamIfaces) = (ifaces, 0) ∧
        c' = c.set .upstreamIfaces ifaces) ∨
    (∃ as : List Assignment, (∃ arg opt, assignments numbers arg opt = .ok as) ∧
      (∀ d, applyOption numbers d e = .ok (as.foldl Assignment.apply d)) ∧
        portTokens e = [] ∧ bindTokens e = []) := by
  cases e with
  | invalid =>
    exact Or.inr (Or.inr (Or.inr ⟨[], ⟨[], .conf, rfl⟩, fun _ => rfl, rfl, rfl⟩))
  | option opt arg =>
    by_cases hbind : opt = .bind
    · subst hbind
      rw [applyOption] at h
      split at h
      · next binds hbinds => exact Or.inl ⟨arg, binds, rfl, hbinds, (Except.ok.inj h).symm⟩
      · cases h
    by_cases hport : opt = .port
    · subst hport
      rw [applyOption] at h
      split at h
      · next ports hports =>
        exact Or.inr (Or.inl ⟨arg, ports, rfl, hports, (Except.ok.inj h).symm⟩)
      · cases h
    by_cases hupstream : opt = .upstream
    · subst hupstream
      rw [applyOption] at h
      split at h
      · next ifaces hifaces =>
        exact Or.inr (Or.inr (Or.inl ⟨arg, ifaces, rfl, hifaces, (Except.ok.inj h).symm⟩))
      · cases h
    rw [applyOption_eq hbind hport hupstream] at h
    cases has : assignments numbers arg opt with
    | error err => rw [has] at h; cases h
    | ok as =>
      refine Or.inr (Or.inr (Or.inr ⟨as, ⟨arg, opt, has⟩, fun d => ?_, ?_, ?_⟩))
      · rw [applyOption_eq hbind hport hupstream, has]
        rfl
      · unfold portTokens
        split
        · next heq => exact absurd (Event.option.inj heq).1 hport
        · rfl
      · unfold bindTokens
        split
        · next heq => exact absurd (Event.option.inj heq).1 hbind
        · rfl

/-- Nothing is taken off a list. -/
structure Grows (c m : CliConfig) : Prop where
  binds : c.cfg.value .binds <+: m.cfg.value .binds
  ports : c.cfg.value .portForwards <+: m.cfg.value .portForwards
  ifaces : c.cfg.value .upstreamIfaces <+: m.cfg.value .upstreamIfaces

theorem Grows.refl (c : CliConfig) : Grows c c :=
  ⟨List.prefix_rfl, List.prefix_rfl, List.prefix_rfl⟩

theorem Grows.trans (h : Grows c d) (h' : Grows d m) : Grows c m :=
  ⟨h.binds.trans h'.binds, h.ports.trans h'.ports, h.ifaces.trans h'.ifaces⟩

theorem grows_of_applyOption (h : applyOption numbers c e = .ok c') : Grows c c' := by
  rcases applyOption_cases h with ⟨arg, binds, -, hbinds, rfl⟩ | ⟨arg, ports, -, hports, rfl⟩ |
    ⟨arg, ifaces, -, hifaces, rfl⟩ | ⟨as, ⟨_, _, has⟩, happly, -⟩
  · have hgrows := prefix_of_addBinds hbinds
    constructor
    · rwa [value_set]
    · rw [value_set_of_ne c (by nofun)]
    · rw [value_set_of_ne c (by nofun)]
  · have hgrows := (prefix_of_addMappings hports).2
    constructor
    · rw [value_set_of_ne c (by nofun)]
    · rwa [value_set]
    · rw [value_set_of_ne c (by nofun)]
  · have hgrows := (foldl_addIface_grows (tokens (arg.take 1023))
      (c.cfg.value .upstreamIfaces, 0)).1
    unfold dsParseIfaceCsv at hifaces
    rw [hifaces] at hgrows
    constructor
    · rw [value_set_of_ne c (by nofun)]
    · rw [value_set_of_ne c (by nofun)]
    · rwa [value_set]
  · obtain rfl := Except.ok.inj ((happly c).symm.trans h)
    constructor
    · rw [value_foldl_apply (isSingle_of_assignments has) c rfl]
    · rw [value_foldl_apply (isSingle_of_assignments has) c rfl]
    · rw [value_foldl_apply (isSingle_of_assignments has) c rfl]

/-- `d` goes the way of `c` to `m`: a value is that of `c`, or that of `m` if its key is `free`. -/
structure Between (free : Key → Prop) (c m d : CliConfig) : Prop where
  value : ∀ k, d.cfg.value k = c.cfg.value k ∨ free k ∧ d.cfg.value k = m.cfg.value k
  format : d.formatOutput = c.formatOutput ∨ d.formatOutput = m.formatOutput
  unknown : d.cfg.unknown = m.cfg.unknown

variable {free : Key → Prop}

theorem Between.set (h : Between free c m d) (k : Key) {v w : k.Value}
    (hvw : w = v ∨ free k ∧ w = m.cfg.value k) : Between free (c.set k v) m (d.set k w) where
  value l := by
    by_cases hl : l = k
    · subst hl
      rwa [value_set, value_set]
    · rw [value_set_of_ne c hl, value_set_of_ne d hl]
      exact h.value l
  format := h.format
  unknown := h.unknown

theorem Between.foldl_apply (h : Between free c m d) (as : List Assignment) :
    Between free (as.foldl Assignment.apply c) m (as.foldl Assignment.apply d) := by
  induction as generalizing c d with
  | nil => exact h
  | cons a as ih =>
    refine ih ?_
    cases a with
    | key k v => exact h.set k (Or.inl rfl)
    | format => exact ⟨h.value, Or.inl rfl, h.unknown⟩

/-- The second run keeps to the first one as long as it adds nothing to what came out. -/
theorem Between.applyOption (h : Between free c m d) (hc : applyOption numbers c e = .ok c')
    (hm : Grows c' m)
    (hroom : free .portForwards →
      portTokens e = [] ∨ (m.cfg.value .portForwards).length < maxPortForwards)
    (hfit : free .binds → ∀ tok ∈ bindTokens e, (bindSource tok).length < pathMax) :
    ∃ d', Cli.applyOption numbers d e = .ok d' ∧ Between free c' m d' := by
  rcases applyOption_cases hc with ⟨arg, binds, rfl, hbinds, rfl⟩ | ⟨arg, ports, rfl, hports, rfl⟩ |
    ⟨arg, ifaces, rfl, hifaces, rfl⟩ | ⟨as, -, happly, -⟩
  · have hgrows := hm.binds
    rw [value_set] at hgrows
    rcases h.value .binds with hd | ⟨hfree, hd⟩
    · refine ⟨d.set .binds binds, ?_, h.set .binds (Or.inl rfl)⟩
      rw [Cli.applyOption, hd, hbinds]
    · refine ⟨d.set .binds (m.cfg.value .binds), ?_, h.set .binds (Or.inr ⟨hfree, rfl⟩)⟩
      rw [Cli.applyOption, hd, addBinds_absorb hbinds hgrows (hfit hfree)]
  · have hgrows := hm.ports
    rw [value_set] at hgrows
    rcases h.value .portForwards with hd | ⟨hfree, hd⟩
    · refine ⟨d.set .portForwards ports, ?_, h.set .portForwards (Or.inl rfl)⟩
      rw [Cli.applyOption, hd, hports]
    · refine ⟨d.set .portForwards (m.cfg.value .portForwards), ?_,
        h.set .portForwards (Or.inr ⟨hfree, rfl⟩)⟩
      rw [Cli.applyOption, hd, applyPortOption, addMappings_absorb hports hgrows (hroom hfree)]
  · have hgrows := hm.ifaces
    rw [value_set] at hgrows
    rcases h.value .upstreamIfaces with hd | ⟨hfree, hd⟩
    · refine ⟨d.set .upstreamIfaces ifaces, ?_, h.set .upstreamIfaces (Or.inl rfl)⟩
      rw [Cli.applyOption, hd, hifaces]
    · refine ⟨d.set .upstreamIfaces (m.cfg.value .upstreamIfaces), ?_,
        h.set .upstreamIfaces (Or.inr ⟨hfree, rfl⟩)⟩
      rw [Cli.applyOption, hd, dsParseIfaceCsv, foldl_addIface_absorb hifaces hgrows]
  · obtain rfl := Except.ok.inj ((happly c).symm.trans hc)
    exact ⟨_, happly d, h.foldl_apply as⟩

end Option

/-! ## A run -/

section Run

variable {numbers : Numbers} {events : List (Event Opt)} {c d m : CliConfig}

theorem applyOptions_cons {e : Event Opt} (h : applyOptions numbers (e :: events) c = .ok m) :
    ∃ c', applyOption numbers c e = .ok c' ∧ applyOptions numbers events c' = .ok m := by
  rw [applyOptions, List.foldlM_cons] at h
  cases he : applyOption numbers c e with
  | error err => rw [he] at h; cases h
  | ok c' =>
    rw [he] at h
    exact ⟨c', rfl, h⟩

theorem grows_of_applyOptions (h : applyOptions numbers events c = .ok m) : Grows c m := by
  induction events generalizing c with
  | nil => exact Except.ok.inj h ▸ Grows.refl c
  | cons e events ih =>
    obtain ⟨c', he, hrest⟩ := applyOptions_cons h
    exact (grows_of_applyOption he).trans (ih hrest)

theorem Between.eq {free : Key → Prop} (h : Between free m m d) : d = m := by
  have hvalue : d.cfg.value = m.cfg.value :=
    funext fun k => (h.value k).elim id fun hd => hd.2
  have hcfg : d.cfg = m.cfg := congrArg₂ DsConfig.mk hvalue h.unknown
  exact CliConfig.ext hcfg (h.format.elim id id)

theorem Between.applyOptions {free : Key → Prop} (h : Between free c m d)
    (hc : applyOptions numbers events c = .ok m)
    (hroom : free .portForwards → events.flatMap portTokens = [] ∨
      (m.cfg.value .portForwards).length < maxPortForwards)
    (hfit : free .binds → ∀ tok ∈ events.flatMap bindTokens, (bindSource tok).length < pathMax) :
    Cli.applyOptions numbers events d = .ok m := by
  induction events generalizing c d with
  | nil =>
    obtain rfl := Except.ok.inj hc
    exact congrArg Except.ok h.eq
  | cons e events ih =>
    obtain ⟨c', he, hrest⟩ := applyOptions_cons hc
    simp only [List.flatMap_cons, List.append_eq_nil_iff, List.mem_append] at hroom hfit
    obtain ⟨d', hd, hnext⟩ := h.applyOption he (grows_of_applyOptions hrest)
      (fun hfree => (hroom hfree).imp_left And.left)
      fun hfree tok htok => hfit hfree tok (Or.inl htok)
    have hrun := ih hnext hrest (fun hfree => (hroom hfree).imp_left And.right)
      fun hfree tok htok => hfit hfree tok (Or.inr htok)
    rw [Cli.applyOptions, List.foldlM_cons, hd]
    exact hrun

/-! ## What a run needs -/

theorem unknown_of_applyOption {e : Event Opt} (h : applyOption numbers c e = .ok d) :
    d.cfg.unknown = c.cfg.unknown := by
  rcases applyOption_cases h with ⟨arg, binds, -, -, rfl⟩ | ⟨arg, ports, -, -, rfl⟩ |
    ⟨arg, ifaces, -, -, rfl⟩ | ⟨as, -, happly, -⟩
  · rfl
  · rfl
  · rfl
  · obtain rfl := Except.ok.inj ((happly c).symm.trans h)
    clear h happly
    induction as generalizing c with
    | nil => rfl
    | cons a as ih =>
      rw [List.foldl_cons, ih]
      cases a with
      | key k v => rfl
      | format => rfl

theorem unknown_of_applyOptions (h : applyOptions numbers events c = .ok m) :
    m.cfg.unknown = c.cfg.unknown := by
  induction events generalizing c with
  | nil => exact Except.ok.inj h ▸ rfl
  | cons e events ih =>
    obtain ⟨c', he, hrest⟩ := applyOptions_cons h
    exact (ih hrest).trans (unknown_of_applyOption he)

theorem ports_of_applyOption {e : Event Opt} (h : applyOption numbers c e = .ok d) :
    d.cfg.value .portForwards =
      (portTokens e).foldl (extend newPort) (c.cfg.value .portForwards) ∧
    (portTokens e = [] ∨ (c.cfg.value .portForwards).length < maxPortForwards) := by
  rcases applyOption_cases h with ⟨arg, binds, rfl, -, rfl⟩ | ⟨arg, ports, rfl, hports, rfl⟩ |
    ⟨arg, ifaces, rfl, -, rfl⟩ | ⟨as, ⟨_, _, has⟩, happly, htokens, -⟩
  · rw [value_set_of_ne c (by nofun)]
    exact ⟨rfl, Or.inl rfl⟩
  · rw [value_set]
    refine ⟨(prefix_of_addMappings hports).1, ?_⟩
    unfold applyPortOption at hports
    rw [portTokens]
    cases htoks : tokens (arg.take 1023) with
    | nil => exact Or.inl rfl
    | cons tok toks =>
      rw [htoks, addMappings] at hports
      split at hports
      · cases hports
      · next hroom => exact Or.inr (Nat.not_le.1 hroom)
  · rw [value_set_of_ne c (by nofun)]
    exact ⟨rfl, Or.inl rfl⟩
  · obtain rfl := Except.ok.inj ((happly c).symm.trans h)
    rw [htokens]
    exact ⟨value_foldl_apply (isSingle_of_assignments has) c rfl, Or.inl rfl⟩

/-- The table is what the mappings make of it, and each of them has found room. -/
theorem ports_of_applyOptions (h : applyOptions numbers events c = .ok m) :
    m.cfg.value .portForwards =
      (events.flatMap portTokens).foldl (extend newPort) (c.cfg.value .portForwards) ∧
    (events.flatMap portTokens = [] ∨
      (c.cfg.value .portForwards).length < maxPortForwards) := by
  induction events generalizing c with
  | nil =>
    obtain rfl := Except.ok.inj h
    exact ⟨rfl, Or.inl rfl⟩
  | cons e events ih =>
    obtain ⟨c', he, hrest⟩ := applyOptions_cons h
    obtain ⟨htable, hroom⟩ := ports_of_applyOption he
    obtain ⟨htable', hroom'⟩ := ih hrest
    rw [List.flatMap_cons, List.foldl_append, ← htable]
    refine ⟨htable', ?_⟩
    have hle := (grows_of_applyOption he).ports.length_le
    rcases hroom with hnil | hlt
    · rcases hroom' with hnil' | hlt
      · exact Or.inl (by rw [hnil, hnil', List.append_nil])
      · exact Or.inr (hle.trans_lt hlt)
    · exact Or.inr hlt

/-- Every source fits its buffer. -/
def Fit (c : CliConfig) : Prop := ∀ b ∈ c.cfg.value .binds, b.src.length < pathMax

theorem fit_dsConfigAddBind {binds : List BindMount} (h : ∀ b ∈ binds, b.src.length < pathMax)
    (b : BindMount) : ∀ b' ∈ dsConfigAddBind binds b, b'.src.length < pathMax := by
  unfold dsConfigAddBind
  split
  · exact h
  · intro b' hb'
    rcases List.mem_append.1 hb' with hb' | hb'
    · exact h b' hb'
    · obtain rfl := List.mem_singleton.1 hb'
      rw [List.length_take]
      exact (Nat.min_le_left _ _).trans_lt (by decide)

/-- A source that is too long is not found again. -/
theorem lt_of_addBinds {toks : List Text} {binds binds' : List BindMount}
    (h : addBinds binds toks = some binds') (hfit : ∀ b ∈ binds, b.src.length < pathMax) :
    (∀ b ∈ binds', b.src.length < pathMax) ∧
      (binds'.length ≤ binds.length → ∀ tok ∈ toks, (bindSource tok).length < pathMax) := by
  induction toks generalizing binds with
  | nil =>
    obtain rfl := Option.some.inj h
    exact ⟨hfit, fun _ _ htok => absurd htok List.not_mem_nil⟩
  | cons tok toks ih =>
    obtain ⟨b, hparse, hrest⟩ := Option.bind_eq_some_iff.1 h
    obtain ⟨hsrc, -, hdest⟩ := of_parseBindOption hparse
    obtain ⟨hfit', hlt⟩ := ih hrest (fit_dsConfigAddBind hfit b)
    refine ⟨hfit', fun hlen => ?_⟩
    have hadd := (prefix_dsConfigAddBind binds b).length_le
    have hrest' := (prefix_of_addBinds hrest).length_le
    intro tok' htok'
    rcases List.mem_cons.1 htok' with rfl | htok'
    · by_contra hlong
      have hnew : dsConfigAddBind binds b =
          binds ++ [⟨b.src.take (pathMax - 1), b.dest.take (pathMax - 1), b.ro⟩] := by
        unfold dsConfigAddBind
        rw [if_neg]
        simp only [Bool.or_eq_true, List.isEmpty_iff, List.any_eq_true, Bool.and_eq_true,
          beq_iff_eq, not_or, not_exists, not_and]
        refine ⟨⟨fun hnil => hlong ?_, hdest⟩, fun e he hsame => ?_⟩
        · rw [← hsrc, hnil]
          decide
        · exact absurd (hfit e he) (hsame ▸ hsrc ▸ hlong)
      rw [hnew, List.length_append, List.length_singleton] at hrest'
      omega
    · exact hlt (hlen.trans hadd) tok' htok'

theorem fit_of_applyOption {e : Event Opt} (h : applyOption numbers c e = .ok d) (hfit : Fit c) :
    Fit d ∧ ((d.cfg.value .binds).length ≤ (c.cfg.value .binds).length →
      ∀ tok ∈ bindTokens e, (bindSource tok).length < pathMax) := by
  rcases applyOption_cases h with ⟨arg, binds, rfl, hbinds, rfl⟩ | ⟨arg, ports, rfl, -, rfl⟩ |
    ⟨arg, ifaces, rfl, -, rfl⟩ | ⟨as, ⟨_, _, has⟩, happly, -, htokens⟩
  · rw [Fit, value_set]
    exact lt_of_addBinds hbinds hfit
  · rw [Fit, value_set_of_ne c (by nofun)]
    exact ⟨hfit, fun _ _ htok => absurd htok List.not_mem_nil⟩
  · rw [Fit, value_set_of_ne c (by nofun)]
    exact ⟨hfit, fun _ _ htok => absurd htok List.not_mem_nil⟩
  · obtain rfl := Except.ok.inj ((happly c).symm.trans h)
    rw [Fit, value_foldl_apply (isSingle_of_assignments has) c rfl, htokens]
    exact ⟨hfit, fun _ _ htok => absurd htok List.not_mem_nil⟩

theorem fit_of_applyOptions (h : applyOptions numbers events c = .ok m) (hfit : Fit c) :
    Fit m ∧ ((m.cfg.value .binds).length ≤ (c.cfg.value .binds).length →
      ∀ tok ∈ events.flatMap bindTokens, (bindSource tok).length < pathMax) := by
  induction events generalizing c with
  | nil =>
    obtain rfl := Except.ok.inj h
    exact ⟨hfit, fun _ _ htok => absurd htok List.not_mem_nil⟩
  | cons e events ih =>
    obtain ⟨c', he, hrest⟩ := applyOptions_cons h
    obtain ⟨hfit', hlt⟩ := fit_of_applyOption he hfit
    obtain ⟨hfitm, hlt'⟩ := ih hrest hfit'
    refine ⟨hfitm, fun hlen tok htok => ?_⟩
    have hgrows := (grows_of_applyOption he).binds.length_le
    have hgrows' := (grows_of_applyOptions hrest).binds.length_le
    rw [List.flatMap_cons, List.mem_append] at htok
    rcases htok with htok | htok
    · exact hlt (hgrows'.trans hlen) tok htok
    · exact hlt' (hlen.trans hgrows) tok htok

/-- **A run over what it came to changes nothing exactly if there is room in the table and every
source is stored whole.** -/
theorem applyOptions_again_iff (h : applyOptions numbers events c = .ok m) (hfit : Fit c) :
    applyOptions numbers events m = .ok m ↔
      (events.flatMap portTokens = [] ∨ ((events.flatMap portTokens).foldl (extend newPort)
        (c.cfg.value .portForwards)).length < maxPortForwards) ∧
      ∀ tok ∈ events.flatMap bindTokens, (bindSource tok).length < pathMax := by
  rw [← (ports_of_applyOptions h).1]
  constructor
  · intro hagain
    exact ⟨(ports_of_applyOptions hagain).2,
      (fit_of_applyOptions hagain (fit_of_applyOptions h hfit).1).2 le_rfl⟩
  · rintro ⟨hroom, hlt⟩
    have hstart : Between (fun _ => True) c m m :=
      ⟨fun _ => Or.inr ⟨trivial, rfl⟩, Or.inr rfl, rfl⟩
    exact hstart.applyOptions h (fun _ => hroom) fun _ => hlt

/-- After a reset the lists are built anew. -/
theorem applyOptions_reset (h : applyOptions numbers events c.resetDefaults = .ok m) :
    applyOptions numbers events m.resetDefaults = .ok m := by
  have hstart : Between (fun k => isIdentity k = true) c.resetDefaults m m.resetDefaults := by
    refine ⟨fun k => ?_, Or.inl rfl, rfl⟩
    cases hk : isIdentity k with
    | true => exact Or.inr ⟨rfl, by simp [CliConfig.resetDefaults, dsConfigResetDefaults, hk]⟩
    | false => exact Or.inl (by simp [CliConfig.resetDefaults, dsConfigResetDefaults, hk])
  exact hstart.applyOptions h (fun hid => absurd hid (by decide)) fun hid => absurd hid (by decide)

end Run

/-! ## A second pass -/

/-- The options of a vector, and whether `--reset` is one of them. -/
def optionEvents (strict : Bool) (argv : List Text) : Bool × List (Event Opt) :=
  let (reset, events, _) := searchThenCall options strict isReset argv
  (reset, events)

/-- Nothing is in the way of a second pass: the table of port forwards is not full, and the sources
of the bind mounts are not too long.  With `--reset`, both are as they were the first time; but its
search may have left an option that takes a word for its argument now, which then has to be what is
there already. -/
def IsRepeatable (numbers : Numbers) (strict : Bool) (argv : List Text) (c : CliConfig) : Prop :=
  let (reset, events) := optionEvents strict argv
  if reset then
    ∀ opt w, leftover options strict isReset argv = some (opt, w) →
      applyOptions numbers (events ++ [.option opt w]) c.resetDefaults =
        applyOptions numbers events c.resetDefaults
  else
    (events.flatMap portTokens = [] ∨ ((events.flatMap portTokens).foldl (extend newPort)
      (c.cfg.value .portForwards)).length < maxPortForwards) ∧
    ∀ tok ∈ events.flatMap bindTokens, (bindSource tok).length < pathMax

theorem not_isReset_of_wants (arg : Text) (opt : Opt) (w : Text)
    (h : (readElement options arg).wants = some opt) : isReset (.option opt w) = false := by
  have hlong : ∀ e ∈ longOptions, e.2 = (opt, true) → opt ≠ .reset := by
    intro e he heq hopt
    rw [hopt] at heq
    have hnone : ∀ e ∈ longOptions, e.2 ≠ (.reset, true) := by decide
    exact hnone e he heq
  have hne : opt ≠ .reset := by
    rcases takes_of_wants h with ⟨ch, hch⟩ | ⟨e, he, heq⟩
    · rintro rfl
      change shortOptions ch = some (.reset, true) at hch
      unfold shortOptions at hch
      split at hch <;> cases hch
    · exact hlong e he heq
  cases opt with
  | reset => exact absurd rfl hne
  | _ => rfl

section Pass

variable {numbers : Numbers} {strict : Bool} {argv argv' : List Text} {c c' : CliConfig}
  {events : List (Event Opt)}

theorem dsApplyCliOverrides_eq_ok_iff {reset : Bool} {argv₁ : List Text}
    (h : searchThenCall options strict isReset argv = (reset, events, argv₁)) :
    dsApplyCliOverrides numbers strict argv c = .ok (c', argv') ↔
      applyOptions numbers events (if reset then c.resetDefaults else c) = .ok c' ∧
        argv₁ = argv' := by
  unfold dsApplyCliOverrides
  rw [h]
  dsimp only
  cases applyOptions numbers events (if reset then c.resetDefaults else c) with
  | error err => exact ⟨nofun, fun hok => nomatch hok.1⟩
  | ok m => simp [Bind.bind, Except.bind, Pure.pure, Except.pure]

theorem applyOptions_append (events' : List (Event Opt)) :
    applyOptions numbers (events ++ events') c =
      (applyOptions numbers events c).bind (applyOptions numbers events') :=
  List.foldlM_append

/-- What the option does that has taken a word. -/
theorem applyOptions_leftover {opt : Opt} {w : Text}
    (h : applyOptions numbers (events ++ [.invalid]) c.resetDefaults = .ok c') :
    applyOptions numbers (events ++ [.option opt w]) c'.resetDefaults = .ok c' ↔
      applyOptions numbers (events ++ [.invalid] ++ [.option opt w]) c.resetDefaults =
        applyOptions numbers (events ++ [.invalid]) c.resetDefaults := by
  have hinvalid (d : CliConfig) : applyOptions numbers (events ++ [.invalid]) d =
      applyOptions numbers events d := by
    rw [applyOptions_append]
    cases applyOptions numbers events d with
    | error err => rfl
    | ok m => rfl
  have hagain := applyOptions_reset h
  rw [hinvalid] at hagain
  rw [applyOptions_append, hagain, applyOptions_append, h]

/-- **A second pass over the vector changes nothing exactly if nothing is in its way.** -/
theorem overrides_again_iff (hfit : Fit c)
    (h : dsApplyCliOverrides numbers strict argv c = .ok (c', argv')) :
    dsApplyCliOverrides numbers strict argv' c' = .ok (c', argv') ↔
      IsRepeatable numbers strict argv c := by
  unfold IsRepeatable optionEvents
  cases hleft : leftover options strict isReset argv with
  | none =>
    have hagain := searchThenCall_again rfl not_isReset_of_wants argv hleft
    rcases hcalls : searchThenCall options strict isReset argv with ⟨reset, events, argv₁⟩
    obtain ⟨happly, rfl⟩ := (dsApplyCliOverrides_eq_ok_iff hcalls).1 h
    rw [hcalls] at hagain
    rw [dsApplyCliOverrides_eq_ok_iff hagain, and_iff_left rfl]
    cases reset with
    | false => exact applyOptions_again_iff happly hfit
    | true => exact iff_of_true (applyOptions_reset happly) nofun
  | some left =>
    obtain ⟨opt, w⟩ := left
    obtain ⟨events, argv₁, hcalls, hagain⟩ := searchThenCall_leftover hleft
    obtain ⟨happly, rfl⟩ := (dsApplyCliOverrides_eq_ok_iff hcalls).1 h
    rw [dsApplyCliOverrides_eq_ok_iff hagain, and_iff_left rfl, hcalls]
    refine (applyOptions_leftover happly).trans ⟨fun heq opt' w' hsame => ?_, fun hall => ?_⟩
    · obtain ⟨rfl, rfl⟩ := Prod.mk.inj (Option.some.inj hsame)
      exact heq
    · exact hall opt w rfl

/-- Neither a size nor a number of CPUs. -/
def noNumbers : Numbers where
  size _ := -1
  quota _ := none
  size_le _ := by decide
  quota_le _ _ := nofun

def webServer : List Text :=
  ["restart", "--name=web", "--net", "host", "--port", "8080:80", "-B", "/srv/web:/data:ro"].map
    String.toList

/-- The word goes behind the options. -/
theorem overrides_again_webServer :
    ∃ c' argv', argv' ≠ webServer ∧
      dsApplyCliOverrides noNumbers false webServer ⟨defaults, false⟩ = .ok (c', argv') ∧
      dsApplyCliOverrides noNumbers false argv' c' = .ok (c', argv') := by
  have hevents : optionEvents false webServer = (false, [.option .name "web".toList,
      .option .net "host".toList, .option .port "8080:80".toList,
      .option .bind "/srv/web:/data:ro".toList]) := by
    decide +kernel
  have hrepeatable : IsRepeatable noNumbers false webServer ⟨defaults, false⟩ := by
    unfold IsRepeatable
    rw [hevents]
    exact ⟨Or.inr (by decide +kernel), by decide +kernel⟩
  cases h : dsApplyCliOverrides noNumbers false webServer ⟨defaults, false⟩ with
  | error err =>
    have hok : (dsApplyCliOverrides noNumbers false webServer ⟨defaults, false⟩).isOk = true := by
      decide +kernel
    rw [h] at hok
    cases hok
  | ok out =>
    obtain ⟨c', argv'⟩ := out
    have hmoved : (searchThenCall options false isReset webServer).2.2 ≠ webServer := by
      decide +kernel
    have hfit : Fit ⟨defaults, false⟩ := fun _ hb => absurd hb List.not_mem_nil
    refine ⟨c', argv', ?_, rfl, (overrides_again_iff hfit h).2 hrepeatable⟩
    exact ((dsApplyCliOverrides_eq_ok_iff rfl).1 h).2 ▸ hmoved

/-- A `--port` that fills the table. -/
def fullTable : List Text :=
  ["restart", "--name=web", "--port",
    "1,2,3,4,5,6,7,8,9,10,11,12,13,14,15,16,17,18,19,20,21,22,23,24,25,26,27,28,29,30,31,32"].map
      String.toList

/-- The second pass finds the table full, although all that it would add is there. -/
theorem overrides_again_fullTable :
    ∃ c' argv', dsApplyCliOverrides noNumbers false fullTable ⟨defaults, false⟩ = .ok (c', argv') ∧
      dsApplyCliOverrides noNumbers false argv' c' ≠ .ok (c', argv') := by
  have hrun : (match dsApplyCliOverrides noNumbers false fullTable ⟨defaults, false⟩ with
      | .ok (c, argv) => !(dsApplyCliOverrides noNumbers false argv c).isOk
      | .error _ => false) = true := by
    decide +kernel
  cases h : dsApplyCliOverrides noNumbers false fullTable ⟨defaults, false⟩ with
  | error err =>
    rw [h] at hrun
    cases hrun
  | ok out =>
    obtain ⟨c', argv'⟩ := out
    refine ⟨c', argv', rfl, fun hagain => ?_⟩
    rw [h] at hrun
    dsimp only at hrun
    rw [hagain] at hrun
    cases hrun

end Pass

end Droidspaces.Cli
