import Droidspaces.Config.Pieces
import Droidspaces.Config.SaveShortcut

/-!
# Reading what was written

A file that is written gives what was saved if its values are accepted as they stand
(`nextLoad_of_isWrittenBack`).  As long as the lines are lines, nothing less will do
(`isWrittenBack_of_nextLoad`): the texts of two configurations are then the same line by line.
-/

namespace Droidspaces.Config

open CustomBinds

section Written

variable (sys : System) (android : Bool) (cfg : DsConfig)

/-- Each line that is written is read as one. -/
def IsLined : Prop := ∀ k val, written sys android cfg k = some val → IsValue k val

/-- What is written is accepted as it stands, and is written like that again.  Nothing is asked of
what is not written. -/
structure IsWrittenBack : Prop where
  text : ∀ k val, written sys android cfg (.text k) = some val →
    val ≠ [] ∧ k.accepts sys val = true ∧ k.stored val = val ∧
      (k = .envFile ∨ k = .customInit → sys.resolve val = val)
  rootfs : ∀ val, written sys android cfg .rootfs = some val → val ≠ [] ∧ sys.resolve val = val
  ports : cfg.value .netMode = .nat →
    ∀ pf ∈ cfg.value .portForwards, pf.hostPortEnd ≠ 0 → pf.containerPortEnd ≠ 0
  binds : bindsText sys (parseBindMounts sys.resolve (bindsText sys (cfg.value .binds)) []) =
    bindsText sys (cfg.value .binds)

end Written

/-! ## Port forwards -/

/-- A mapping as it is read back: a range of one port on the container's side is written as that
port. -/
def single (pf : PortForward) : PortForward :=
  if pf.hostPortEnd = 0 then { pf with containerPortEnd := 0 } else pf

theorem portForwardText_single (pf : PortForward) :
    portForwardText (single pf) = portForwardText pf := by
  unfold single
  split
  · next hend => simp [portForwardText, hend]
  · rfl

theorem map_portForwardText_single (ports : List PortForward) :
    (ports.map single).map portForwardText = ports.map portForwardText := by
  rw [List.map_map]
  exact List.map_congr_left fun pf _ => portForwardText_single pf

theorem PortForward.IsMapping.single {pf : PortForward} (h : pf.IsMapping) :
    (single pf).IsMapping ∧ (single pf).containerRange = pf.containerRange := by
  unfold Config.single
  split
  · next hend =>
    have hwidth := h.width
    obtain ⟨hpos, hle, hlast⟩ := h.container
    have hzero : Config.width pf.hostPort pf.hostPortEnd = 0 := by simp [Config.width, hend]
    have hone : pf.containerPortEnd = 0 ∨ pf.containerPortEnd = pf.containerPort := by
      rw [hzero, Config.width] at hwidth
      split at hwidth
      · exact Or.inl ‹_›
      · omega
    refine ⟨⟨h.host, ⟨hpos, hle, Or.inl rfl⟩, ?_, h.proto⟩, ?_⟩
    · rw [hzero]
      rfl
    · unfold containerRange portRange
      rcases hone with hone | hone
      · rw [hone]
      · rw [hone, if_pos rfl]
        split
        · rfl
        · rfl
  · exact ⟨h, rfl⟩

theorem IsPortTable.single {ports : List PortForward} (h : IsPortTable ports)
    (hkind : ∀ pf ∈ ports, pf.hostPortEnd ≠ 0 → pf.containerPortEnd ≠ 0) :
    IsPortTable (ports.map single) ∧ ∀ pf ∈ ports.map single, SameKind pf := by
  refine ⟨⟨?_, ?_, ?_⟩, ?_⟩
  · rw [List.length_map]
    exact h.count
  · intro pf hpf
    obtain ⟨pf', hpf', rfl⟩ := List.mem_map.1 hpf
    exact (h.mapping pf' hpf').single.1
  · rw [List.pairwise_map]
    refine h.apart.imp_of_mem fun {ex pf} hex hpf hapart => ?_
    have hproto (pf : PortForward) : (Config.single pf).proto = pf.proto ∧
        (Config.single pf).hostRange = pf.hostRange := by
      unfold Config.single
      split
      · exact ⟨rfl, rfl⟩
      · exact ⟨rfl, rfl⟩
    unfold PortForward.Apart
    rw [(hproto ex).1, (hproto pf).1, (hproto ex).2, (hproto pf).2, (h.mapping ex hex).single.2,
      (h.mapping pf hpf).single.2]
    exact hapart
  · intro pf hpf
    obtain ⟨pf', hpf', rfl⟩ := List.mem_map.1 hpf
    unfold SameKind Config.single
    split
    · next hend => exact iff_of_true hend rfl
    · next hend => exact iff_of_false hend (hkind pf' hpf' hend)

/-! ## What is loaded -/

section Load

variable {sys : System} {android : Bool} {cfg : DsConfig} (hbuilt : IsBuiltUp cfg)
  (hlined : IsLined sys android cfg)
include hbuilt hlined

/-- The next load of a file that is written. -/
theorem load_value (k : Key) :
    (dsConfigLoad sys (savedText sys android cfg) defaults).value k =
      overlay sys k (written sys android cfg k).toList (defaults.value k) := by
  have hreadable : Readable sys android cfg := ⟨hlined, hbuilt.unknown, hbuilt.isUnknown⟩
  rw [dsConfigLoad_value, hreadable.valuesOf_savedText]

theorem load_netMode :
    (dsConfigLoad sys (savedText sys android cfg) defaults).value .netMode =
      cfg.value .netMode := by
  rw [load_value hbuilt hlined]
  exact parseNetMode_netModeText _

end Load

section Keys

variable {sys : System} {android : Bool} {cfg loaded : DsConfig}

/-- Keys whose lines are always read back. -/
def isPlainKey : Key → Bool
  | .flag _ | .limit _ | .privileged | .netMode | .upstreamIfaces => true
  | _ => false

theorem written_of_isPlainKey (hbuilt : IsBuiltUp cfg) {k : Key} (hk : isPlainKey k = true)
    (hmode : loaded.value .netMode = cfg.value .netMode)
    (hvalue : loaded.value k = overlay sys k (written sys android cfg k).toList
      (defaults.value k)) :
    written sys android loaded k = written sys android cfg k := by
  cases k with
  | flag f =>
    unfold written at hvalue ⊢
    dsimp only at hvalue ⊢
    split
    · next hf =>
      rw [if_pos hf] at hvalue
      have hsame : loaded.value (.flag f) = cfg.value (.flag f) :=
        hvalue.trans (parseBool_flag (cfg.value (.flag f)))
      rw [hsame]
    · rfl
  | limit l =>
    have hle : cfg.value (.limit l) ≤ llongMax := hbuilt.value (.limit l)
    have hsame : loaded.value (.limit l) = cfg.value (.limit l) := by
      rw [hvalue]
      unfold written
      dsimp only
      split
      · next hzero => exact hzero.symm
      · next hne => simp [overlay, accept, parseLlPositive_decimal hne hle]
    exact written_congr hsame (Or.inl hmode)
  | privileged =>
    have hsame : loaded.value .privileged = cfg.value .privileged := by
      rw [hvalue]
      unfold written
      dsimp only
      split
      · next hzero => exact hzero.symm
      · exact parsePrivileged_privilegedText (hbuilt.value .privileged)
    exact written_congr hsame (Or.inl hmode)
  | netMode => exact written_congr hmode (Or.inl hmode)
  | upstreamIfaces =>
    unfold written at hvalue ⊢
    dsimp only at hvalue ⊢
    rw [hmode]
    by_cases hcond : cfg.value .netMode = .nat ∧ cfg.value .upstreamIfaces ≠ []
    · rw [if_pos hcond] at hvalue
      have hlist : IsIfaceList (cfg.value .upstreamIfaces) := hbuilt.value .upstreamIfaces
      have hsame : loaded.value .upstreamIfaces = cfg.value .upstreamIfaces :=
        hvalue.trans hlist.parse
      rw [hsame]
    · rw [if_neg hcond] at hvalue
      have hnil : loaded.value .upstreamIfaces = [] := hvalue
      rw [if_neg hcond, if_neg fun hcond' => hcond'.2 hnil]
  | _ => cases hk

/-- What is not written is not written of what is loaded. -/
theorem written_eq_none {k : Key}
    (hvalue : loaded.value k = overlay sys k (written sys android cfg k).toList
      (defaults.value k)) (hnone : written sys android cfg k = none) :
    written sys android loaded k = none := by
  rw [hnone] at hvalue
  have hdefault : loaded.value k = defaults.value k := hvalue
  cases k with
  | text k =>
    have hnil : loaded.value (.text k) = [] := hdefault
    unfold written
    dsimp only
    rw [hnil]
    simp
  | flag f =>
    unfold written at hnone ⊢
    dsimp only at hnone ⊢
    split
    · next hf => rw [if_pos hf] at hnone; cases hnone
    · rfl
  | netMode => cases hnone
  | limit l => exact if_pos hdefault
  | privileged => exact if_pos hdefault
  | rootfs =>
    unfold written
    dsimp only
    rw [hdefault]
    rfl
  | upstreamIfaces => exact if_neg fun hcond => hcond.2 hdefault
  | portForwards => exact if_neg fun hcond => hcond.2 hdefault
  | binds => exact if_pos hdefault

theorem written_text {k : TextKey} {val : Text} (hval : written sys android cfg (.text k) = some val)
    (hmode : loaded.value .netMode = cfg.value .netMode) :
    written sys android loaded (.text k) =
      if loaded.value (.text k) = [] then none
      else some (if k = .envFile ∨ k = .customInit then sys.resolve (loaded.value (.text k))
        else loaded.value (.text k)) := by
  have hkind : k.isWritten android loaded = k.isWritten android cfg := isWritten_congr (Or.inl hmode)
  have hwritten : k.isWritten android cfg = true := by
    unfold written at hval
    dsimp only at hval
    split at hval
    · next hcond => exact (Bool.and_eq_true _ _ ▸ hcond).1
    · cases hval
  unfold written
  dsimp only
  rw [hkind, hwritten]
  by_cases hnil : loaded.value (.text k) = []
  · simp [hnil]
  · simp [hnil]

theorem written_rootfs {val : Text} (hne : val ≠ [])
    (hvalue : loaded.value .rootfs = acceptRootfs sys val ⟨[], [], false⟩) :
    written sys android loaded .rootfs = some (sys.resolve val) := by
  unfold written
  dsimp only
  rw [hvalue, acceptRootfs]
  split
  · simp [hne]
  · simp [hne]

theorem bindsText_ne_nil {binds : List BindMount} (h : binds ≠ []) : bindsText sys binds ≠ [] := by
  obtain ⟨b, rest, rfl⟩ := List.exists_cons_of_ne_nil h
  intro hnil
  have htext : bindText sys.resolve b ≠ [] := by simp [bindText]
  unfold bindsText joinComma at hnil
  cases rest with
  | nil => exact htext (by simpa using hnil)
  | cons b' rest => simp [List.intercalate, htext] at hnil

theorem written_binds (binds : List BindMount) (h : loaded.value .binds = binds) :
    written sys android loaded .binds = if binds = [] then none else some (bindsText sys binds) := by
  subst h
  rfl

/-- **Each line is written again**, from what is loaded. -/
theorem IsWrittenBack.written_eq (h : IsWrittenBack sys android cfg) (hbuilt : IsBuiltUp cfg)
    (hmode : loaded.value .netMode = cfg.value .netMode) {k : Key}
    (hvalue : loaded.value k = overlay sys k (written sys android cfg k).toList
      (defaults.value k)) :
    written sys android loaded k = written sys android cfg k := by
  cases hval : written sys android cfg k with
  | none => exact written_eq_none hvalue hval
  | some val =>
    rw [hval] at hvalue
    cases k with
    | text k =>
      obtain ⟨hne, haccepts, hstored, hresolve⟩ := h.text k val hval
      have hloaded : loaded.value (.text k) = val := by
        rw [hvalue]
        simp [overlay, accept, haccepts, hstored]
      rw [written_text hval hmode, hloaded, if_neg hne]
      split
      · next hk => rw [hresolve hk]
      · rfl
    | rootfs =>
      obtain ⟨hne, hresolve⟩ := h.rootfs val hval
      rw [written_rootfs hne hvalue, hresolve]
    | portForwards =>
      unfold written at hval ⊢
      dsimp only at hval ⊢
      rw [hmode]
      split at hval
      · next hcond =>
        obtain rfl := Option.some.inj hval
        have htable : IsPortTable (cfg.value .portForwards) := hbuilt.value .portForwards
        obtain ⟨hsingle, hkind⟩ := htable.single (h.ports hcond.1)
        have hsame : loaded.value .portForwards = (cfg.value .portForwards).map single := by
          rw [hvalue, ← map_portForwardText_single]
          exact (hsingle.isPortList hkind).parse
        rw [hsame, map_portForwardText_single,
          if_pos ⟨hcond.1, by simpa using hcond.2⟩]
      · cases hval
    | binds =>
      rw [written_binds _ rfl] at hval
      split at hval
      · cases hval
      · next hne =>
        obtain rfl := Option.some.inj hval
        have hloaded : loaded.value .binds =
            parseBindMounts sys.resolve (bindsText sys (cfg.value .binds)) [] := hvalue
        have hfull : loaded.value .binds ≠ [] := by
          intro hnil
          have htext := h.binds
          rw [← hloaded, hnil] at htext
          exact bindsText_ne_nil hne htext.symm
        rw [written_binds _ rfl, if_neg hfull, hloaded, h.binds]
    | _ => exact (written_of_isPlainKey hbuilt rfl hmode (by rw [hvalue, hval])).trans hval

end Keys

/-! ## Line by line -/

section Lines

variable {sys : System} {android : Bool} {cfg loaded : DsConfig}

theorem linesOf_cons (k : Key) (keys : List Key) :
    linesOf sys android cfg (k :: keys) =
      ((written sys android cfg k).map (keyLine k)).getD [] ++ linesOf sys android cfg keys := by
  rw [← linesOf_singleton, ← linesOf_append]
  rfl

/-- The first line is that of one of the keys. -/
theorem linesOf_eq (keys : List Key) :
    linesOf sys android cfg keys = [] ∨
      ∃ k ∈ keys, ∃ rest, linesOf sys android cfg keys = keyText k ++ '=' :: rest := by
  induction keys with
  | nil => exact Or.inl rfl
  | cons k keys ih =>
    rw [linesOf_cons]
    cases hval : written sys android cfg k with
    | none =>
      refine ih.imp id fun ⟨l, hl, hrest⟩ => ⟨l, List.mem_cons_of_mem _ hl, hrest⟩
    | some val =>
      refine Or.inr ⟨k, List.mem_cons_self, val ++ '\n' :: linesOf sys android cfg keys, ?_⟩
      simp [keyLine]

theorem keyText_inj {k l : Key} (h : keyText k = keyText l) : k = l := by
  have hkey := keyOf_keyText k
  rw [h, keyOf_keyText] at hkey
  exact (Option.some.inj hkey).symm

/-- **Equal texts have equal lines**, if the values are lines and what is missing in one of them is
missing in the other. -/
theorem written_eq_of_linesOf {keys : List Key} (hkeys : keys.Nodup)
    (hnone : ∀ k, written sys android cfg k = none → written sys android loaded k = none)
    (hline : ∀ k val, written sys android cfg k = some val → '\n' ∉ val)
    (hline' : ∀ k val, written sys android loaded k = some val → '\n' ∉ val)
    (h : linesOf sys android loaded keys = linesOf sys android cfg keys) :
    ∀ k ∈ keys, written sys android loaded k = written sys android cfg k := by
  induction keys with
  | nil => exact fun k hk => absurd hk List.not_mem_nil
  | cons k keys ih =>
    obtain ⟨hfresh, hkeys⟩ := List.nodup_cons.1 hkeys
    rw [linesOf_cons, linesOf_cons] at h
    have hoption (l : Key) : '=' ∉ keyText l := fun hmem =>
      ((isKeyText_keyText l).2 _ hmem).2.1 rfl
    have hboth : written sys android loaded k = written sys android cfg k ∧
        linesOf sys android loaded keys = linesOf sys android cfg keys := by
      cases hval : written sys android cfg k with
      | none =>
        rw [hnone k hval, hval] at h
        exact ⟨hnone k hval, h⟩
      | some val =>
        cases hval' : written sys android loaded k with
        | none =>
          -- the text goes on with another key
          rw [hval, hval'] at h
          have htext : linesOf sys android loaded keys =
              keyText k ++ '=' :: (val ++ '\n' :: linesOf sys android cfg keys) := by
            simpa [keyLine] using h
          rcases @linesOf_eq sys android loaded keys with hnil | ⟨l, hl, rest, hrest⟩
          · rw [hnil] at htext
            simp at htext
          · rw [hrest] at htext
            obtain ⟨hsame, -⟩ := append_cons_inj (hoption l) (hoption k) htext
            exact absurd (keyText_inj hsame ▸ hl) hfresh
        | some val' =>
          rw [hval, hval'] at h
          have htext : val' ++ '\n' :: linesOf sys android loaded keys =
              val ++ '\n' :: linesOf sys android cfg keys := by
            simpa [keyLine] using h
          obtain ⟨hsame, hrest⟩ := append_cons_inj (hline' k val' hval') (hline k val hval) htext
          exact ⟨by rw [hsame], hrest⟩
    exact List.forall_mem_cons.2 ⟨hboth.1, ih hkeys hboth.2⟩

section OneLine

variable (hresolve : ∀ t, '\n' ∉ t → '\n' ∉ sys.resolve t)
include hresolve

theorem oneLine_of_parseBindMounts {val : Text} (hval : '\n' ∉ val) :
    '\n' ∉ bindsText sys (parseBindMounts sys.resolve val []) := by
  have hpart (t : Text) (ht : t ⊆ val) : '\n' ∉ sys.resolve (sys.resolve (trim t)) :=
    hresolve _ (hresolve _ fun hmem => hval (ht ((trim_isInfix t).subset hmem)))
  have hbinds : ∀ b ∈ parseBindMounts sys.resolve val [],
      '\n' ∉ sys.resolve b.src ∧ '\n' ∉ sys.resolve b.dest := by
    unfold parseBindMounts
    refine List.foldlRecOn (motive := fun binds : List BindMount => ∀ b ∈ binds,
      '\n' ∉ sys.resolve b.src ∧ '\n' ∉ sys.resolve b.dest) _ _ (by simp) ?_
    intro binds hbinds tok htok
    have htok' : tok ⊆ val := List.Subset.trans (subset_of_mem_tokens htok) (List.take_subset _ _)
    cases hparse : parseBindMount sys.resolve tok with
    | none => exact hbinds
    | some b =>
      dsimp only
      unfold addBind
      split
      · exact hbinds
      · intro b' hb'
        rcases List.mem_append.1 hb' with hb' | hb'
        · exact hbinds b' hb'
        · obtain rfl := List.mem_singleton.1 hb'
          unfold parseBindMount at hparse
          split at hparse
          · cases hparse
          · next c rest hrest =>
            dsimp only at hparse
            have hrest' : rest ⊆ val := fun x hx =>
              htok' ((List.dropWhile_suffix _).subset (hrest ▸ List.mem_cons_of_mem c hx))
            split at hparse
            · obtain rfl := Option.some.inj hparse
              exact ⟨hpart _ (List.Subset.trans (List.takeWhile_subset _) htok'),
                hpart _ (List.Subset.trans (List.takeWhile_subset _) hrest')⟩
            · cases hparse
  intro hmem
  rcases mem_joinComma hmem with hcomma | ⟨t, ht, hc⟩
  · exact absurd hcomma (by decide)
  · obtain ⟨b, hb, rfl⟩ := List.mem_map.1 ht
    obtain ⟨hsrc, hdest⟩ := hbinds b hb
    simp only [bindText, List.mem_append, List.mem_cons] at hc
    rcases hc with (hc | hc | hc) | hc
    · exact hsrc hc
    · exact absurd hc (by decide)
    · exact hdest hc
    · split at hc
      · exact absurd hc (by decide)
      · exact absurd hc List.not_mem_nil

/-- What is loaded of lines is written as lines. -/
theorem oneLine_written (hbuilt : IsBuiltUp cfg)
    (hmode : loaded.value .netMode = cfg.value .netMode)
    (hvalue : ∀ k, loaded.value k = overlay sys k (written sys android cfg k).toList
      (defaults.value k))
    (hline : ∀ k val, written sys android cfg k = some val → '\n' ∉ val) :
    ∀ k val, written sys android loaded k = some val → '\n' ∉ val := by
  intro k val' hval'
  cases hval : written sys android cfg k with
  | none =>
    rw [written_eq_none (hvalue k) hval] at hval'
    cases hval'
  | some val =>
    have hval_line := hline k val hval
    have hloaded := hvalue k
    rw [hval] at hloaded
    cases k with
    | text k =>
      have hpart : '\n' ∉ loaded.value (.text k) := by
        have htext : loaded.value (.text k) = if k.accepts sys val then k.stored val else [] :=
          hloaded
        rw [htext]
        split
        · intro hmem
          unfold TextKey.stored at hmem
          split at hmem
          · exact hval_line (List.take_subset _ _ hmem)
          · exact hval_line hmem
        · exact List.not_mem_nil
      rw [written_text hval hmode] at hval'
      split at hval'
      · cases hval'
      · obtain rfl := Option.some.inj hval'
        split
        · exact hresolve _ hpart
        · exact hpart
    | rootfs =>
      have hroot : loaded.value .rootfs = acceptRootfs sys val ⟨[], [], false⟩ := hloaded
      by_cases hnil : val = []
      · subst hnil
        have hnone : written sys android loaded .rootfs = none := by
          unfold written
          dsimp only
          rw [hroot, acceptRootfs, sys.isImage_nil]
          rfl
        rw [hnone] at hval'
        cases hval'
      · rw [written_rootfs hnil hroot] at hval'
        obtain rfl := Option.some.inj hval'
        exact hresolve _ hval_line
    | portForwards =>
      have htable : IsPortTable (loaded.value .portForwards) := by
        rw [hvalue .portForwards]
        exact (isBuilt_defaults .portForwards).overlay _
      unfold written at hval'
      dsimp only at hval'
      split at hval'
      · obtain rfl := Option.some.inj hval'
        exact htable.isValue.oneLine
      · cases hval'
    | binds =>
      have hbinds : loaded.value .binds = parseBindMounts sys.resolve val [] := hloaded
      rw [written_binds _ hbinds] at hval'
      split at hval'
      · cases hval'
      · obtain rfl := Option.some.inj hval'
        exact oneLine_of_parseBindMounts hresolve hval_line
    | _ =>
      rw [written_of_isPlainKey hbuilt rfl hmode (hvalue _)] at hval'
      exact hline _ val' hval'

end OneLine

/-- A value of a line fits the larger buffers. -/
theorem stored_of_isValue {k : TextKey} {val : Text} (hval : IsValue (.text k) val)
    (hk : k = .envFile ∨ k = .customInit) : k.stored val = val := by
  have hfits := hval.fits
  rcases hk with rfl | rfl
  · exact List.take_of_length_le (show val.length ≤ 4095 by omega)
  · exact List.take_of_length_le (show val.length ≤ 4095 by omega)

/-- A host range that stands against one port is not read, so that its text is missing. -/
theorem ne_zero_of_parsePortForwards {ports : List PortForward} (h : IsPortTable ports)
    (htext : joinComma ((parsePortForwards (joinComma (ports.map portForwardText)) []).map
      portForwardText) = joinComma (ports.map portForwardText)) :
    ∀ pf ∈ ports, pf.hostPortEnd ≠ 0 → pf.containerPortEnd ≠ 0 := by
  intro pf hpf hhost hcont
  have hread : IsPortTable (parsePortForwards (joinComma (ports.map portForwardText)) []) :=
    isPortTable_nil.foldl _
  have hsame := congrArg tokens htext
  rw [tokens_joinComma hread.token, tokens_joinComma h.token] at hsame
  obtain ⟨pf', hpf', htext'⟩ := List.mem_map.1 (hsame ▸ List.mem_map_of_mem hpf)
  have hkind := h.sameKind_of_mem_parse pf' hpf'
  have hparse := ((hread.mapping pf' hpf').isRule hkind).parse
  rw [htext', (h.mapping pf hpf).parse_range_port hhost hcont] at hparse
  cases hparse

/-- **What is written once more was accepted as it stood.** -/
theorem isWrittenBack_of_written (hbuilt : IsBuiltUp cfg) (hlined : IsLined sys android cfg)
    (hmode : loaded.value .netMode = cfg.value .netMode)
    (hvalue : ∀ k, loaded.value k = overlay sys k (written sys android cfg k).toList
      (defaults.value k))
    (h : ∀ k, written sys android loaded k = written sys android cfg k) :
    IsWrittenBack sys android cfg where
  text k val hval := by
    have htext := h (.text k)
    have hloaded : loaded.value (.text k) = if k.accepts sys val then k.stored val else [] := by
      rw [hvalue, hval]
      rfl
    rw [written_text hval hmode, hval] at htext
    split at htext
    · cases htext
    · next hne =>
      have hsame := Option.some.inj htext
      rw [hloaded] at hne hsame
      have haccepts : k.accepts sys val = true := by
        by_contra hno
        rw [if_neg hno] at hne
        exact hne rfl
      rw [if_pos haccepts] at hne hsame
      have hval_ne : val ≠ [] := by
        rintro rfl
        unfold TextKey.stored at hne
        split at hne
        · exact hne List.take_nil
        · exact hne rfl
      split at hsame
      · next hk =>
        have hstored := stored_of_isValue (hlined _ _ hval) hk
        rw [hstored] at hsame
        exact ⟨hval_ne, haccepts, hstored, fun _ => hsame⟩
      · next hk => exact ⟨hval_ne, haccepts, hsame, fun hk' => absurd hk' hk⟩
  rootfs val hval := by
    have hroot : loaded.value .rootfs = acceptRootfs sys val ⟨[], [], false⟩ := by
      rw [hvalue, hval]
      rfl
    have hwritten := h .rootfs
    have hne : val ≠ [] := by
      rintro rfl
      have hnone : written sys android loaded .rootfs = none := by
        unfold written
        dsimp only
        rw [hroot, acceptRootfs, sys.isImage_nil]
        rfl
      rw [hnone, hval] at hwritten
      cases hwritten
    rw [written_rootfs hne hroot, hval] at hwritten
    exact ⟨hne, Option.some.inj hwritten⟩
  ports hnat := by
    by_cases hnil : cfg.value .portForwards = []
    · rw [hnil]
      exact fun _ hpf => absurd hpf List.not_mem_nil
    · have hval : written sys android cfg .portForwards =
          some (joinComma ((cfg.value .portForwards).map portForwardText)) :=
        if_pos ⟨hnat, hnil⟩
      have hloaded : loaded.value .portForwards =
          parsePortForwards (joinComma ((cfg.value .portForwards).map portForwardText)) [] := by
        rw [hvalue, hval]
        rfl
      have hwritten := h .portForwards
      rw [hval] at hwritten
      unfold written at hwritten
      dsimp only at hwritten
      split at hwritten
      · rw [hloaded] at hwritten
        exact ne_zero_of_parsePortForwards (hbuilt.value .portForwards) (Option.some.inj hwritten)
      · cases hwritten
  binds := by
    have hwritten := h .binds
    rw [written_binds (cfg.value .binds) rfl] at hwritten
    by_cases hnil : cfg.value .binds = []
    · rw [hnil]
      rfl
    · have hval : written sys android cfg .binds = some (bindsText sys (cfg.value .binds)) :=
        if_neg hnil
      have hloaded : loaded.value .binds =
          parseBindMounts sys.resolve (bindsText sys (cfg.value .binds)) [] := by
        rw [hvalue, hval]
        rfl
      rw [written_binds _ hloaded, if_neg hnil] at hwritten
      split at hwritten
      · cases hwritten
      · exact Option.some.inj hwritten

end Lines

/-! ## A file that is written -/

section Written

variable {sys : System} {android : Bool} {cfg : DsConfig} {text : Text}

theorem IsBuiltUp.sorted (h : IsBuiltUp cfg) : IsBuiltUp (sorted cfg) where
  value k := by
    by_cases hk : k = .binds
    · subst hk
      trivial
    · rw [value_sorted hk]
      exact h.value k
  unknown := h.unknown
  isUnknown := h.isUnknown

theorem nextLoad_iff_of_not_isSkipped (hskip : isSkipped sys android text cfg = false) :
    NextLoad sys android text cfg ↔
      linesOf sys android (dsConfigLoad sys (savedText sys android (Config.sorted cfg)) defaults)
        savedKeys = linesOf sys android (Config.sorted cfg) savedKeys := by
  have hfile : fileAfterSave sys android text cfg =
      savedText sys android (Config.sorted cfg) := by
    rw [fileAfterSave, hskip]
    rfl
  rw [NextLoad, hfile, dsConfigSerializeKnown_eq, dsConfigSerializeKnown_eq,
    List.append_cancel_left_eq]

variable (hbuilt : IsBuiltUp cfg) (hskip : isSkipped sys android text cfg = false)
  (hlined : IsLined sys android (Config.sorted cfg))
include hbuilt hskip hlined

/-- **A file that is written gives what was saved** if what is written is accepted as it stands. -/
theorem nextLoad_of_isWrittenBack (h : IsWrittenBack sys android (Config.sorted cfg)) :
    NextLoad sys android text cfg := by
  rw [nextLoad_iff_of_not_isSkipped hskip]
  exact linesOf_congr fun k _ => h.written_eq hbuilt.sorted (load_netMode hbuilt.sorted hlined)
    (load_value hbuilt.sorted hlined k)

/-- **Nothing less will do**, where resolving a path does not break a line. -/
theorem isWrittenBack_of_nextLoad (hresolve : ∀ t, '\n' ∉ t → '\n' ∉ sys.resolve t)
    (h : NextLoad sys android text cfg) : IsWrittenBack sys android (Config.sorted cfg) := by
  rw [nextLoad_iff_of_not_isSkipped hskip] at h
  have hmode := load_netMode hbuilt.sorted hlined
  have hvalue := load_value hbuilt.sorted hlined
  have hline : ∀ k val, written sys android (Config.sorted cfg) k = some val → '\n' ∉ val :=
    fun k val hval => (hlined k val hval).oneLine
  have hline' := oneLine_written hresolve hbuilt.sorted hmode hvalue hline
  have hwritten := written_eq_of_linesOf nodup_savedKeys (fun k => written_eq_none (hvalue k)) hline
    hline' h
  exact isWrittenBack_of_written hbuilt.sorted hlined hmode hvalue fun k =>
    hwritten k (mem_savedKeys k)

end Written

end Droidspaces.Config
