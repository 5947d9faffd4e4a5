import Droidspaces.Cli.Overrides
import Droidspaces.Config.WrittenBack

/-!
# Saving what the command line has made

`main` loads the file of a container, applies the options and saves.  Files and options only give
values that are in order (`IsConfigured.isBuiltUp`), so that it goes by the lines of the file whether
a configuration comes back (`nextLoad_of_isConfigured`).
-/

namespace Droidspaces.Cli

open Config CustomBinds Getopt

/-! ## Values of options -/

section Values

variable {numbers : Numbers} {c c' : CliConfig}

def Assignment.IsBuilt : Assignment → Prop
  | .key k v => Config.IsBuilt k v
  | .format => True

theorem isBuilt_of_assignments {arg : Text} {opt : Opt} {as : List Assignment}
    (h : assignments numbers arg opt = .ok as) : ∀ a ∈ as, a.IsBuilt := by
  unfold assignments at h
  split at h
  case h_7 =>
    obtain rfl := Except.ok.inj h
    exact List.forall_mem_singleton.2 (isBuilt_parsePrivileged arg)
  case h_9 =>
    split at h
    · cases h
    · obtain rfl := Except.ok.inj h
      have hle := numbers.size_le arg
      refine List.forall_mem_singleton.2 ?_
      show (numbers.size arg).toNat ≤ llongMax
      omega
  case h_10 =>
    split at h
    · next quota hquota =>
      split at h
      · cases h
      · obtain rfl := Except.ok.inj h
        have hperiod : 100000 ≤ llongMax := by decide
        exact List.forall_mem_cons.2
          ⟨hperiod, List.forall_mem_singleton.2 (numbers.quota_le arg quota hquota)⟩
    · cases h
  case h_11 =>
    split at h
    · next p hp =>
      split at h
      · cases h
      · obtain rfl := Except.ok.inj h
        exact List.forall_mem_singleton.2 (parseLlPositive_le hp)
    · cases h
  all_goals
    repeat' split at h
    all_goals cases h <;> simp [Assignment.IsBuilt, Config.IsBuilt]

theorem addIface_eq (acc : List Text × ℕ) (tok : Text) :
    (addIface acc tok).1 = extend newIface acc.1 tok := by
  unfold addIface extend newIface
  dsimp only
  generalize (tok.dropWhile isTabOrSpace).rdropWhile isTabOrSpace = name
  cases hskip : name.isEmpty || ifNameSize ≤ name.length || acc.1.contains name with
  | true => simp
  | false =>
    by_cases hfull : maxUpstreamIfaces ≤ acc.1.length
    · simp [hfull]
    · simp [hfull]

/-- Interfaces are added as by a line. -/
theorem foldl_addIface_eq (toks : List Text) (acc : List Text × ℕ) :
    (toks.foldl addIface acc).1 = toks.foldl (extend newIface) acc.1 := by
  induction toks generalizing acc with
  | nil => rfl
  | cons tok toks ih => rw [List.foldl_cons, List.foldl_cons, ih, addIface_eq]

theorem isBuilt_set {k : Key} {v : k.Value} (h : ∀ l, IsBuilt l (c.cfg.value l))
    (hv : IsBuilt k v) (l : Key) : IsBuilt l ((c.set k v).cfg.value l) := by
  by_cases hl : l = k
  · subst hl
    rwa [value_set]
  · rw [value_set_of_ne c hl]
    exact h l

theorem isBuilt_foldl_apply {as : List Assignment} (has : ∀ a ∈ as, a.IsBuilt)
    (h : ∀ k, IsBuilt k (c.cfg.value k)) (k : Key) :
    IsBuilt k ((as.foldl Assignment.apply c).cfg.value k) := by
  induction as generalizing c with
  | nil => exact h k
  | cons a as ih =>
    refine ih (fun a' ha' => has a' (List.mem_cons_of_mem _ ha')) ?_
    have ha := has a List.mem_cons_self
    cases a with
    | key l v => exact isBuilt_set h ha
    | format => exact h

theorem isBuilt_of_applyOption {e : Event Opt} (h : ∀ k, IsBuilt k (c.cfg.value k))
    (he : applyOption numbers c e = .ok c') (k : Key) : IsBuilt k (c'.cfg.value k) := by
  rcases applyOption_cases he with ⟨arg, binds, -, -, rfl⟩ | ⟨arg, ports, -, hports, rfl⟩ |
    ⟨arg, ifaces, -, hifaces, rfl⟩ | ⟨as, ⟨_, _, has⟩, happly, -⟩
  · have hbinds : IsBuilt .binds binds := trivial
    exact isBuilt_set h hbinds k
  · refine isBuilt_set h ?_ k
    rw [(prefix_of_addMappings hports).1]
    exact IsPortTable.foldl (h .portForwards) _
  · refine isBuilt_set h ?_ k
    have htable := foldl_addIface_eq (tokens (arg.take 1023)) (c.cfg.value .upstreamIfaces, 0)
    unfold dsParseIfaceCsv at hifaces
    rw [hifaces] at htable
    rw [show ifaces = _ from htable]
    exact IsIfaceList.foldl (h .upstreamIfaces) fun tok => not_mem_of_mem_tokens
  · obtain rfl := Except.ok.inj ((happly c).symm.trans he)
    exact isBuilt_foldl_apply (isBuilt_of_assignments has) h k

theorem isBuilt_of_applyOptions {events : List (Event Opt)} (h : ∀ k, IsBuilt k (c.cfg.value k))
    (hrun : applyOptions numbers events c = .ok c') (k : Key) : IsBuilt k (c'.cfg.value k) := by
  induction events generalizing c with
  | nil => exact Except.ok.inj hrun ▸ h k
  | cons e events ih =>
    obtain ⟨c₁, he, hrest⟩ := applyOptions_cons hrun
    exact ih (isBuilt_of_applyOption h he) hrest

theorem isBuilt_resetDefaults (h : ∀ k, IsBuilt k (c.cfg.value k)) (k : Key) :
    IsBuilt k (c.resetDefaults.cfg.value k) := by
  unfold CliConfig.resetDefaults dsConfigResetDefaults
  dsimp only
  split
  · exact h k
  · exact isBuilt_defaults k

end Values

/-! ## A configuration of `main` -/

/-- `cfg` comes of a file, loaded over the defaults, and of options. -/
def IsConfigured (sys : System) (numbers : Numbers) (strict : Bool) (text : Text)
    (argv : List Text) (cfg : DsConfig) : Prop :=
  ∃ format argv', dsApplyCliOverrides numbers strict argv ⟨dsConfigLoad sys text defaults, false⟩ =
    .ok (⟨cfg, format⟩, argv')

section Configured

variable {sys : System} {android strict : Bool} {numbers : Numbers} {text : Text}
  {argv : List Text} {cfg : DsConfig}

theorem IsConfigured.isBuiltUp (h : IsConfigured sys numbers strict text argv cfg) :
    IsBuiltUp cfg := by
  obtain ⟨format, argv', h⟩ := h
  have hload : IsBuiltUp (dsConfigLoad sys text defaults) := IsBuiltUp.load isBuilt_defaults text
  rcases hcalls : searchThenCall options strict isReset argv with ⟨reset, events, argv₁⟩
  obtain ⟨hrun, -⟩ := (dsApplyCliOverrides_eq_ok_iff hcalls).1 h
  have hunknown : cfg.unknown = (dsConfigLoad sys text defaults).unknown := by
    have hsame := unknown_of_applyOptions hrun
    cases reset with
    | true => exact hsame
    | false => exact hsame
  refine ⟨isBuilt_of_applyOptions ?_ hrun, hunknown ▸ hload.unknown, hunknown ▸ hload.isUnknown⟩
  cases reset with
  | true => exact isBuilt_resetDefaults hload.value
  | false => exact hload.value

/-- **The next load gives what was saved**: of a file that is kept, exactly if it is explicit, and of
one that is written in lines, exactly if what is written is accepted as it stands. -/
theorem nextLoad_of_isConfigured (h : IsConfigured sys numbers strict text argv cfg) :
    (isSkipped sys android text cfg = true →
      (NextLoad sys android text cfg ↔ IsExplicit sys text)) ∧
    (isSkipped sys android text cfg = false → IsLined sys android (sorted cfg) →
      (IsWrittenBack sys android (sorted cfg) → NextLoad sys android text cfg) ∧
      ((∀ t, '\n' ∉ t → '\n' ∉ sys.resolve t) → NextLoad sys android text cfg →
        IsWrittenBack sys android (sorted cfg))) := by
  refine ⟨nextLoad_iff_of_isSkipped, fun hskip hlined => ⟨?_, ?_⟩⟩
  · exact nextLoad_of_isWrittenBack h.isBuiltUp hskip hlined
  · exact isWrittenBack_of_nextLoad h.isBuiltUp hskip hlined

/-- A run that gives a configuration, and a test that the configuration passes. -/
theorem exists_isConfigured (sys : System) (numbers : Numbers) (strict : Bool) (text : Text)
    (argv : List Text) (p : DsConfig → Bool)
    (h : (match dsApplyCliOverrides numbers strict argv ⟨dsConfigLoad sys text defaults, false⟩ with
      | .ok (c, _) => p c.cfg
      | .error _ => false) = true) :
    ∃ cfg, IsConfigured sys numbers strict text argv cfg ∧ p cfg = true := by
  split at h
  · next c argv' hrun => exact ⟨c.cfg, ⟨c.formatOutput, argv', hrun⟩, h⟩
  · cases h

def hostFile : Text := "name=web\nrootfs_path=/srv/web\nnet_mode=host\n".toList

def hostOption : List Text := ["start", "--net", "host"].map String.toList

/-- The option says what the file says. -/
theorem nextLoad_of_isConfigured_host :
    ∃ cfg, IsConfigured plainSystem noNumbers false hostFile hostOption cfg ∧
      isSkipped plainSystem true hostFile cfg = true ∧ NextLoad plainSystem true hostFile cfg := by
  obtain ⟨cfg, hcfg, hskip⟩ := exists_isConfigured plainSystem noNumbers false hostFile hostOption
    (isSkipped plainSystem true hostFile) (by decide +kernel)
  have hexplicit : IsExplicit plainSystem hostFile := ⟨by decide +kernel, by decide +kernel⟩
  exact ⟨cfg, hcfg, hskip, ((nextLoad_of_isConfigured hcfg).1 hskip).2 hexplicit⟩

def silentFile : Text := "name=web\nrootfs_path=/srv/web\n".toList

/-- The file is kept, and the option is lost. -/
theorem nextLoad_silentFile :
    ∃ cfg, IsConfigured plainSystem noNumbers false silentFile hostOption cfg ∧
      fileAfterSave plainSystem true silentFile cfg = silentFile ∧
        ¬ NextLoad plainSystem true silentFile cfg := by
  obtain ⟨cfg, hcfg, hskip⟩ := exists_isConfigured plainSystem noNumbers false silentFile hostOption
    (isSkipped plainSystem true silentFile) (by decide +kernel)
  have hsilent : valuesOf .netMode silentFile = [] := by decide +kernel
  refine ⟨cfg, hcfg, if_pos hskip, fun hnext => ?_⟩
  exact ((nextLoad_iff_of_isSkipped hskip).1 hnext).netMode hsilent

end Configured

end Droidspaces.Cli
