import Droidspaces.Config.Recovery

/-!
# Saving over a file

`ds_config_save` does not write if the file gives the same text already.  It loads the file over a
`struct ds_config` of zeros, which stands for `host`, where `main` starts from `nat`: a file without
a network mode is kept for a configuration that it does not give.  `nextLoad_iff_of_isSkipped` says
when a file that is kept was right; `nextLoad_of_isWrittenBack` is about a file that is written.
-/

namespace Droidspaces.Config

open CustomBinds

/-! ## The code -/

section Save

variable (sys : System) (android : Bool)

/-- `ds_config_serialize_known` -/
def dsConfigSerializeKnown (cfg : DsConfig) : Text :=
  (header ++ knownLines sys android cfg).flatten

/-- `sort_bind_mounts` -/
def sorted (cfg : DsConfig) : DsConfig := cfg.set .binds (sortBindMounts (cfg.value .binds))

/-- What the file gives is what would be written. -/
def isSkipped (text : Text) (cfg : DsConfig) : Bool :=
  dsConfigSerializeKnown sys android (sorted cfg) =
    dsConfigSerializeKnown sys android (sorted (dsConfigLoad sys text zeroed))

/-- The file after `ds_config_save` has returned 0. -/
def fileAfterSave (text : Text) (cfg : DsConfig) : Text :=
  if isSkipped sys android text cfg then text else dsConfigSave sys android cfg

/-- What is loaded next is what was saved. -/
def NextLoad (text : Text) (cfg : DsConfig) : Prop :=
  dsConfigSerializeKnown sys android
      (dsConfigLoad sys (fileAfterSave sys android text cfg) defaults) =
    dsConfigSerializeKnown sys android (sorted cfg)

/-- The bind mounts of a file. -/
def fileBinds (text : Text) : List BindMount := overlay sys .binds (valuesOf .binds text) []

def bindsText (binds : List BindMount) : Text := joinComma (binds.map (bindText sys.resolve))

/-- A file that says what the network mode is, with bind mounts in order. -/
structure IsExplicit (text : Text) : Prop where
  netMode : valuesOf .netMode text ≠ []
  binds : bindsText sys (fileBinds sys text) = bindsText sys (sortBindMounts (fileBinds sys text))

end Save

/-! ## A file that is kept -/

section Skipped

variable {sys : System} {android : Bool} {cfg cfg' : DsConfig} {text : Text}

def savedBefore : List Key := savedKeys.takeWhile (· ≠ .netMode)

def savedAfter : List Key := (savedKeys.dropWhile (· ≠ .netMode)).tail

theorem savedKeys_netMode : savedKeys = savedBefore ++ .netMode :: savedAfter := by
  decide +kernel

theorem savedKeys_binds : savedKeys = savedKeys.dropLast ++ [.binds] := by
  decide +kernel

theorem isWritten_congr {k : TextKey}
    (hmode : cfg.value .netMode = cfg'.value .netMode ∨ .text k ∈ savedBefore) :
    k.isWritten android cfg = k.isWritten android cfg' := by
  rcases hmode with hmode | hmem
  · unfold TextKey.isWritten
    rw [hmode]
  · cases k with
    | staticNatIp | gatewayContainer | gatewayNet | gatewayBridge | gatewayLanIfname =>
      exact absurd hmem (by decide +kernel)
    | _ => rfl

/-- What is written of a key depends on the key, and for some keys on the network mode. -/
theorem written_congr {k : Key} (hk : cfg.value k = cfg'.value k)
    (hmode : cfg.value .netMode = cfg'.value .netMode ∨ k ∈ savedBefore) :
    written sys android cfg k = written sys android cfg' k := by
  cases k with
  | text k =>
    unfold written
    dsimp only
    rw [isWritten_congr hmode, hk]
  | upstreamIfaces =>
    have hsame := hmode.resolve_right (by decide +kernel)
    unfold written
    dsimp only
    rw [hk, hsame]
  | portForwards =>
    have hsame := hmode.resolve_right (by decide +kernel)
    unfold written
    dsimp only
    rw [hk, hsame]
  | _ =>
    unfold written
    dsimp only
    rw [hk]

/-- The lines of some of the keys. -/
def linesOf (sys : System) (android : Bool) (cfg : DsConfig) (keys : List Key) : Text :=
  (keys.filterMap fun k => (written sys android cfg k).map (keyLine k)).flatten

theorem linesOf_append (keys keys' : List Key) :
    linesOf sys android cfg (keys ++ keys') =
      linesOf sys android cfg keys ++ linesOf sys android cfg keys' := by
  rw [linesOf, List.filterMap_append, List.flatten_append]
  rfl

theorem linesOf_singleton (k : Key) :
    linesOf sys android cfg [k] = ((written sys android cfg k).map (keyLine k)).getD [] := by
  rw [linesOf, List.filterMap_cons]
  cases written sys android cfg k with
  | none => rfl
  | some val => simp

theorem linesOf_congr {keys : List Key}
    (h : ∀ k ∈ keys, written sys android cfg k = written sys android cfg' k) :
    linesOf sys android cfg keys = linesOf sys android cfg' keys := by
  unfold linesOf
  rw [List.filterMap_congr fun k hk => by rw [h k hk]]

theorem dsConfigSerializeKnown_eq :
    dsConfigSerializeKnown sys android cfg =
      header.flatten ++ linesOf sys android cfg savedKeys := by
  rw [dsConfigSerializeKnown, List.flatten_append]
  rfl

/-- The first line that differs is that of the network mode. -/
theorem dsConfigSerializeKnown_ne (hcfg : cfg.value .netMode = .nat)
    (hcfg' : cfg'.value .netMode = .host)
    (h : ∀ k ∈ savedBefore, cfg.value k = cfg'.value k) :
    dsConfigSerializeKnown sys android cfg ≠ dsConfigSerializeKnown sys android cfg' := by
  have hbefore : linesOf sys android cfg savedBefore = linesOf sys android cfg' savedBefore :=
    linesOf_congr fun k hk => written_congr (h k hk) (Or.inr hk)
  have hmode (c : DsConfig) : linesOf sys android c (.netMode :: savedAfter) =
      keyLine .netMode (netModeText (c.value .netMode)) ++ linesOf sys android c savedAfter := rfl
  rw [dsConfigSerializeKnown_eq, dsConfigSerializeKnown_eq, savedKeys_netMode, linesOf_append,
    linesOf_append, hbefore, ne_eq, List.append_cancel_left_eq, List.append_cancel_left_eq, hmode,
    hmode, hcfg, hcfg']
  have hnat : keyLine .netMode (netModeText .nat) = keyText .netMode ++ "=nat\n".toList := rfl
  have hhost : keyLine .netMode (netModeText .host) = keyText .netMode ++ "=host\n".toList := rfl
  rw [hnat, hhost, List.append_assoc, List.append_assoc, List.append_cancel_left_eq]
  intro heq
  have hchar := congrArg (fun t => t[1]?) heq
  revert hchar
  simp

theorem value_sorted {k : Key} (hk : k ≠ .binds) : (sorted cfg).value k = cfg.value k :=
  DsConfig.value_set_of_ne cfg hk _

theorem sorted_binds : (sorted cfg).value .binds = sortBindMounts (cfg.value .binds) :=
  DsConfig.value_set_self cfg .binds _

theorem sortBindMounts_eq_nil_iff (binds : List BindMount) :
    sortBindMounts binds = [] ↔ binds = [] := by
  rw [← List.length_eq_zero_iff, sortBindMounts, List.length_mergeSort, List.length_eq_zero_iff]

/-- Sorting changes the last line only. -/
theorem dsConfigSerializeKnown_sorted_iff :
    dsConfigSerializeKnown sys android cfg = dsConfigSerializeKnown sys android (sorted cfg) ↔
      bindsText sys (cfg.value .binds) = bindsText sys (sortBindMounts (cfg.value .binds)) := by
  have hbefore : linesOf sys android cfg savedKeys.dropLast =
      linesOf sys android (sorted cfg) savedKeys.dropLast := by
    refine linesOf_congr fun k hk => written_congr (value_sorted ?_).symm (Or.inl ?_)
    · rintro rfl
      exact absurd hk (by decide +kernel)
    · exact (value_sorted (by nofun)).symm
  have hline (c : DsConfig) : linesOf sys android c [.binds] =
      if c.value .binds = [] then [] else keyLine .binds (bindsText sys (c.value .binds)) := by
    have hwritten : written sys android c .binds =
        if c.value .binds = [] then none else some (bindsText sys (c.value .binds)) := rfl
    rw [linesOf_singleton, hwritten]
    split
    · rfl
    · rfl
  rw [dsConfigSerializeKnown_eq, dsConfigSerializeKnown_eq, savedKeys_binds, linesOf_append,
    linesOf_append, hbefore, List.append_cancel_left_eq, List.append_cancel_left_eq, hline, hline,
    sorted_binds]
  by_cases hnil : cfg.value .binds = []
  · rw [hnil, (sortBindMounts_eq_nil_iff []).2 rfl]
    exact iff_of_true rfl rfl
  · rw [if_neg hnil, if_neg (mt (sortBindMounts_eq_nil_iff _).1 hnil), keyLine, keyLine,
      List.append_cancel_right_eq, List.append_cancel_left_eq, List.cons.injEq, and_iff_right rfl]

/-- Only the network mode of what a file gives depends on the start. -/
theorem dsConfigLoad_zeroed {k : Key} (hk : k = .netMode → valuesOf .netMode text ≠ []) :
    (dsConfigLoad sys text zeroed).value k = (dsConfigLoad sys text defaults).value k := by
  rw [dsConfigLoad_value, dsConfigLoad_value]
  by_cases hmode : k = .netMode
  · subst hmode
    -- the last of the values is the one that counts
    obtain ⟨vals, val, hvals⟩ :=
      (List.eq_nil_or_concat (valuesOf .netMode text)).resolve_left (hk rfl)
    rw [hvals, List.concat_eq_append, overlay, overlay, List.foldl_concat, List.foldl_concat]
    rfl
  · rw [zeroed, DsConfig.value_set_of_ne _ hmode]

theorem dsConfigLoad_netMode (h : valuesOf .netMode text = []) :
    (dsConfigLoad sys text zeroed).value .netMode = .host ∧
      (dsConfigLoad sys text defaults).value .netMode = .nat := by
  rw [dsConfigLoad_value, dsConfigLoad_value, h]
  exact ⟨rfl, rfl⟩

/-- **A file that is kept was right exactly if it says what the network mode is and has its bind
mounts in order.** -/
theorem nextLoad_iff_of_isSkipped (h : isSkipped sys android text cfg = true) :
    NextLoad sys android text cfg ↔ IsExplicit sys text := by
  have hsame : dsConfigSerializeKnown sys android (sorted cfg) =
      dsConfigSerializeKnown sys android (sorted (dsConfigLoad sys text zeroed)) := by
    simpa [isSkipped] using h
  rw [NextLoad, fileAfterSave, if_pos h, hsame]
  by_cases hmode : valuesOf .netMode text = []
  · obtain ⟨hhost, hnat⟩ := @dsConfigLoad_netMode sys text hmode
    refine iff_of_false (dsConfigSerializeKnown_ne hnat ?_ fun k hk => ?_) fun hexplicit =>
      hexplicit.netMode hmode
    · rw [value_sorted (by nofun), hhost]
    · have hne : k ≠ .binds ∧ k ≠ .netMode := by
        constructor <;>
        · rintro rfl
          exact absurd hk (by decide +kernel)
      rw [value_sorted hne.1, dsConfigLoad_zeroed fun hk' => absurd hk' hne.2]
  · have hload : (dsConfigLoad sys text zeroed).value = (dsConfigLoad sys text defaults).value :=
      funext fun k => dsConfigLoad_zeroed fun _ => hmode
    have hwritten : dsConfigSerializeKnown sys android (sorted (dsConfigLoad sys text zeroed)) =
        dsConfigSerializeKnown sys android (sorted (dsConfigLoad sys text defaults)) := by
      rw [dsConfigSerializeKnown_eq, dsConfigSerializeKnown_eq]
      refine congrArg (header.flatten ++ ·) (linesOf_congr fun k _ => written_congr ?_ (Or.inl ?_))
      · rw [sorted, sorted, DsConfig.set, DsConfig.set, hload]
      · rw [sorted, sorted, DsConfig.set, DsConfig.set, hload]
    have hbinds : (dsConfigLoad sys text defaults).value .binds = fileBinds sys text :=
      dsConfigLoad_value
    rw [hwritten, dsConfigSerializeKnown_sorted_iff, hbinds]
    exact ⟨fun horder => ⟨hmode, horder⟩, fun hexplicit => hexplicit.binds⟩

end Skipped

end Droidspaces.Config
