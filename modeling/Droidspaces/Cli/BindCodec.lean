import Droidspaces.Cli.ArgvPaths
import Droidspaces.Cli.Overrides
import Droidspaces.Config.UnknownLines
import Mathlib.Algebra.Order.BigOperators.Group.List
import Mathlib.Algebra.Order.Group.Nat

/-!
# The line of the bind mounts

`ds_config_serialize_known` puts all bind mounts in one line, however many there are; `ds_config_load`
reads lines in pieces of 2047 characters and cuts them up at `,` and `:`.  `roundTrips_iff` says
which lists come back whoever reads them.  What has to come back has to be read from somewhere, and
the line has no character to spare: that no piece, blank or slash goes astray follows by counting.
-/

namespace Droidspaces.Cli

open Config CustomBinds

/-! ## The code -/

/-- `parse_bind_mounts` with `ds_config_add_bind` -/
def loadBinds (host : PathHost) (val : Text) (binds : List BindMount) : List BindMount :=
  (tokens (val.take 4095)).foldl (fun binds tok =>
    match parseBindMount (dsResolvePathArg host) tok with
    | some b => dsConfigAddBind binds b
    | none => binds) binds

/-- The lists that options and lines of a file build up. -/
inductive IsBuiltList : List BindMount → Prop
  | nil : IsBuiltList []
  | option {binds binds' : List BindMount} (arg : Text) (h : IsBuiltList binds)
      (hadd : addBinds binds (tokens arg) = some binds') : IsBuiltList binds'
  | line {binds : List BindMount} (host : PathHost) (val : Text) (h : IsBuiltList binds) :
      IsBuiltList (loadBinds host val binds)
  /-- A configuration that has been saved is sorted. -/
  | save {binds : List BindMount} (h : IsBuiltList binds) : IsBuiltList (sortBindMounts binds)

/-- What a process knows, but for the paths that it resolves. -/
def systemOf (host : PathHost) : System where
  isImage _ := false
  isImage_nil := rfl
  resolve := dsResolvePathArg host
  underWorkspace _ := false

/-- The bind mounts of `cfg` come back from its file, and everything else is as it would be without
them. -/
structure ComesBack (writer reader : System) (android : Bool) (cfg start : DsConfig) : Prop where
  binds : ∀ b, b ∈ (dsConfigLoad reader (dsConfigSerializeKnown writer android cfg) start).value
    .binds ↔ b ∈ cfg.value .binds
  others : ∀ k ≠ .binds,
    (dsConfigLoad reader (dsConfigSerializeKnown writer android cfg) start).value k =
      (dsConfigLoad reader (dsConfigSerializeKnown writer android (cfg.set .binds [])) start).value k
  unknown : (dsConfigLoad reader (dsConfigSerializeKnown writer android cfg) start).unknown =
    (dsConfigLoad reader (dsConfigSerializeKnown writer android (cfg.set .binds [])) start).unknown

/-- A list comes back in any configuration and whoever reads it, if there are no bind mounts in the
rest of the file. -/
def RoundTrips (host : PathHost) (binds : List BindMount) : Prop :=
  ∀ (host' : PathHost) (writer reader : System) (android : Bool) (cfg start : DsConfig),
    writer.resolve = dsResolvePathArg host → reader.resolve = dsResolvePathArg host' →
    cfg.value .binds = binds →
    (dsConfigLoad reader (dsConfigSerializeKnown writer android (cfg.set .binds [])) start).value
      .binds = [] →
    ComesBack writer reader android cfg start

/-- A path that is written and read as it is. -/
structure IsPlainPath (path : Text) : Prop where
  absolute : path.head? = some '/'
  separators : ',' ∉ path ∧ ':' ∉ path ∧ '\n' ∉ path
  trimmed : IsTrimmed path
  slashes : dropSlashes path = path

/-- A bind mount as it is. -/
def plainText (b : BindMount) : Text :=
  b.src ++ ':' :: (b.dest ++ if b.ro then ":ro".toList else [])

/-- The line as it is, without its end. -/
def bindBody (binds : List BindMount) : Text :=
  keyText .binds ++ '=' :: joinComma (binds.map plainText)

/-- A list of plain paths that fits in a piece. -/
structure IsStorable (binds : List BindMount) : Prop where
  plain : ∀ b ∈ binds, IsPlainPath b.src ∧ IsPlainPath b.dest
  fits : (bindBody binds).length ≤ 2047

/-! ## The line in the file -/

/-- What is written of the bind mounts. -/
def bindLine (host : PathHost) (binds : List BindMount) : Text :=
  if binds = [] then []
  else keyLine .binds (joinComma (binds.map (bindText (dsResolvePathArg host))))

/-- A line read behind others. -/
def readBack (sys : System) (line : Text) (start : DsConfig) : DsConfig :=
  (fileLines line).foldl (loadLine sys) start

section File

variable {host : PathHost} {writer reader : System} {android : Bool}

theorem dsConfigSerializeKnown_binds (h : writer.resolve = dsResolvePathArg host)
    (cfg : DsConfig) : dsConfigSerializeKnown writer android cfg =
      dsConfigSerializeKnown writer android (cfg.set .binds []) ++
        bindLine host (cfg.value .binds) := by
  have hbefore : linesOf writer android (cfg.set .binds []) savedKeys.dropLast =
      linesOf writer android cfg savedKeys.dropLast := by
    unfold linesOf
    rw [List.filterMap_congr fun k hk => ?_]
    rw [written_set_binds]
    rintro rfl
    exact absurd hk (by decide +kernel)
  have hline (c : DsConfig) : linesOf writer android c [.binds] = bindLine host (c.value .binds) := by
    have hwritten : written writer android c .binds = if c.value .binds = [] then none
        else some (joinComma ((c.value .binds).map (bindText writer.resolve))) := rfl
    rw [linesOf_singleton, hwritten, bindLine, h]
    split
    · rfl
    · rfl
  have hnone : bindLine host ((cfg.set .binds []).value .binds) = [] := by
    rw [DsConfig.value_set_self]
    rfl
  rw [dsConfigSerializeKnown_eq, dsConfigSerializeKnown_eq, savedKeys_binds, linesOf_append,
    linesOf_append, hbefore, hline, hline, hnone, List.append_nil, List.append_assoc]

/-- The bind mounts are read behind the rest of the file. -/
theorem dsConfigLoad_binds (h : writer.resolve = dsResolvePathArg host) (cfg start : DsConfig) :
    dsConfigLoad reader (dsConfigSerializeKnown writer android cfg) start =
      readBack reader (bindLine host (cfg.value .binds))
        (dsConfigLoad reader (dsConfigSerializeKnown writer android (cfg.set .binds [])) start) := by
  have hrest := fileLines_flatten_append (@serialized_line writer android (cfg.set .binds []))
  have hread : fileLines (dsConfigSerializeKnown writer android (cfg.set .binds []) ++
      bindLine host (cfg.value .binds)) =
        fileLines (dsConfigSerializeKnown writer android (cfg.set .binds [])) ++
          fileLines (bindLine host (cfg.value .binds)) := by
    have hnil := hrest []
    have hend : fileLines [] = [] := rfl
    rw [List.append_nil, hend, List.append_nil] at hnil
    rw [dsConfigSerializeKnown, hrest, hnil]
  rw [dsConfigSerializeKnown_binds h, dsConfigLoad, hread, List.foldl_append]
  rfl

end File

/-! ## Lists that are built -/

/-- What holds of a list whatever it is built from: a source that is stored cut short may be there
twice. -/
structure IsBindTable (binds : List BindMount) : Prop where
  bind : ∀ b ∈ binds, b.src ≠ [] ∧ validateBindDestination b.dest = true
  apart : binds.Pairwise fun e b => e.src = b.src → e.dest = b.dest → e.src.length = pathMax - 1

theorem IsBindTable.dsConfigAddBind {binds : List BindMount} (h : IsBindTable binds)
    {b : BindMount} (hvalid : validateBindDestination b.dest = true) :
    IsBindTable (dsConfigAddBind binds b) := by
  unfold Cli.dsConfigAddBind
  split
  · exact h
  · next hskip =>
    simp only [Bool.or_eq_true, List.isEmpty_iff, List.any_eq_true, Bool.and_eq_true, beq_iff_eq,
      not_or, not_exists, not_and] at hskip
    obtain ⟨⟨hsrc, -⟩, hfresh⟩ := hskip
    have hdest : b.dest.take (pathMax - 1) = b.dest := by
      simp only [validateBindDestination, Bool.and_eq_true, decide_eq_true_eq] at hvalid
      exact List.take_of_length_le (Nat.le_sub_one_of_lt hvalid.1.2)
    refine ⟨fun e he => ?_, ?_⟩
    · rcases List.mem_append.1 he with he | he
      · exact h.bind e he
      · rw [List.mem_singleton.1 he, hdest]
        refine ⟨fun hnil => hsrc ?_, hvalid⟩
        exact (List.take_eq_nil_iff.1 hnil).resolve_left (by decide)
    · rw [List.pairwise_append]
      refine ⟨h.apart, List.pairwise_singleton _ _, fun e he e' he' hsame hdest' => ?_⟩
      rw [List.mem_singleton.1 he'] at hsame hdest'
      rw [hdest] at hdest'
      by_contra hlen
      refine hfresh e he ?_ hdest'
      rw [hsame, List.length_take] at hlen
      rw [hsame, List.take_of_length_le (by omega)]

theorem IsBindTable.dest_ne_nil {binds : List BindMount} (h : IsBindTable binds) {b : BindMount}
    (hb : b ∈ binds) : b.dest ≠ [] := by
  intro hnil
  have hvalid := (h.bind b hb).2
  rw [hnil] at hvalid
  cases hvalid

theorem validate_of_parseBindOption {tok : Text} {b : BindMount}
    (h : parseBindOption tok = some b) : validateBindDestination b.dest = true := by
  unfold parseBindOption at h
  split at h
  · cases h
  · dsimp only at h
    split at h
    · next hvalid =>
      obtain rfl := Option.some.inj h
      exact (Bool.and_eq_true _ _ ▸ hvalid).2
    · cases h

theorem validate_of_parseBindMount {resolve : Text → Text} {tok : Text} {b : BindMount}
    (h : parseBindMount resolve tok = some b) : validateBindDestination b.dest = true := by
  unfold parseBindMount at h
  split at h
  · cases h
  · dsimp only at h
    split at h
    · next hvalid =>
      obtain rfl := Option.some.inj h
      exact hvalid
    · cases h

theorem IsBindTable.sortBindMounts {binds : List BindMount} (h : IsBindTable binds) :
    IsBindTable (sortBindMounts binds) where
  bind b hb := h.bind b (List.mem_mergeSort.1 hb)
  apart := by
    refine ((List.mergeSort_perm binds _).pairwise_iff ?_).2 h.apart
    intro e b heb hsrc hdest
    rw [hsrc]
    exact heb hsrc.symm hdest.symm

theorem IsBuiltList.isBindTable {binds : List BindMount} (h : IsBuiltList binds) :
    IsBindTable binds := by
  induction h with
  | nil => exact ⟨fun _ hb => absurd hb List.not_mem_nil, List.Pairwise.nil⟩
  | @option binds binds' arg h hadd ih =>
    clear h
    generalize tokens arg = toks at hadd
    induction toks generalizing binds with
    | nil => exact Option.some.inj hadd ▸ ih
    | cons tok toks ihtoks =>
      obtain ⟨b, hparse, hrest⟩ := Option.bind_eq_some_iff.1 hadd
      exact ihtoks (ih.dsConfigAddBind (validate_of_parseBindOption hparse)) hrest
  | @line binds host val h ih =>
    clear h
    unfold loadBinds
    generalize tokens (val.take 4095) = toks
    induction toks generalizing binds with
    | nil => exact ih
    | cons tok toks ihtoks =>
      rw [List.foldl_cons]
      split
      · next b hparse =>
        exact ihtoks (ih.dsConfigAddBind (validate_of_parseBindMount hparse))
      · exact ihtoks ih
  | save h ih => exact ih.sortBindMounts

/-! ## A list that comes back -/

theorem IsPlainPath.ne_nil {path : Text} (h : IsPlainPath path) : path ≠ [] := by
  rintro rfl
  cases h.absolute

theorem dsResolvePathArg_of_absolute (host : PathHost) {path : Text}
    (h : path.head? = some '/') : dsResolvePathArg host path = dropSlashes path := by
  have hword : IsWord path := Or.inr h
  rw [dsResolvePathArg, if_neg hword.ne_nil, hword.expandHome, if_pos h]

theorem IsPlainPath.resolve {path : Text} (h : IsPlainPath path) (host : PathHost) :
    dsResolvePathArg host path = path := by
  rw [dsResolvePathArg_of_absolute host h.absolute, h.slashes]

theorem isTrimmed_of_ends {t : Text} (hhead : ∀ c ∈ t.head?, isSpace c = false)
    (hlast : ∀ c ∈ t.getLast?, isSpace c = false) : IsTrimmed t := by
  have hstart : t.dropWhile isSpace = t := by
    cases t with
    | nil => rfl
    | cons c t => simp [hhead c rfl]
  rw [IsTrimmed, trim, hstart, List.rdropWhile_eq_self_iff]
  intro hne
  simp [hlast _ (List.getLast?_eq_some_getLast hne)]

theorem isSpace_getLast? {t : Text} (h : IsTrimmed t) : ∀ c ∈ t.getLast?, isSpace c = false := by
  intro c hc
  have hne : t ≠ [] := by
    rintro rfl
    cases hc
  have hlast := List.rdropWhile_eq_self_iff.1 h.rdropWhile hne
  rw [List.getLast?_eq_some_getLast hne] at hc
  rw [← Option.some.inj hc]
  simpa using hlast

theorem length_joinComma {ts : List Text} (hne : ts ≠ []) :
    (joinComma ts).length + 1 = (ts.map fun t => t.length + 1).sum := by
  induction ts with
  | nil => exact absurd rfl hne
  | cons t ts ih =>
    cases ts with
    | nil => simp [joinComma]
    | cons u us =>
      rw [joinComma_cons_cons, List.map_cons, List.sum_cons, ← ih (List.cons_ne_nil u us),
        List.length_append, List.length_cons]
      omega

theorem joinComma_ne_nil {t : Text} (ht : t ≠ []) (ts : List Text) : joinComma (t :: ts) ≠ [] := by
  intro hnil
  have hhead := head?_joinComma ht ts
  rw [hnil] at hhead
  exact ht (List.head?_eq_none_iff.1 hhead.symm)

theorem getLast?_joinComma {ts : List Text} (h : ∀ t ∈ ts, t ≠ []) :
    ∀ c ∈ (joinComma ts).getLast?, ∃ t ∈ ts, c ∈ t.getLast? := by
  induction ts with
  | nil => nofun
  | cons t ts ih =>
    intro c hc
    cases ts with
    | nil =>
      rw [joinComma, List.intercalate_singleton] at hc
      exact ⟨t, List.mem_cons_self, hc⟩
    | cons u us =>
      have hrest : joinComma (u :: us) ≠ [] :=
        joinComma_ne_nil (h u (List.mem_cons_of_mem _ List.mem_cons_self)) us
      rw [joinComma_cons_cons, List.getLast?_append_cons, List.getLast?_cons_of_ne_nil hrest] at hc
      obtain ⟨v, hv, hcv⟩ := ih (fun v hv => h v (List.mem_cons_of_mem _ hv)) c hc
      exact ⟨v, List.mem_cons_of_mem _ hv, hcv⟩

theorem ends_plainText {b : BindMount} (hsrc : IsPlainPath b.src) (hdest : IsPlainPath b.dest) :
    (plainText b).head? = some '/' ∧ ∀ c ∈ (plainText b).getLast?, isSpace c = false := by
  constructor
  · rw [plainText, List.head?_append, hsrc.absolute]
    rfl
  · intro c hc
    rw [plainText, List.getLast?_append_cons, List.getLast?_cons_of_ne_nil
      (List.append_ne_nil_of_left_ne_nil hdest.ne_nil _)] at hc
    cases hro : b.ro with
    | true =>
      rw [hro, if_pos rfl, List.getLast?_append_of_ne_nil _ (by decide)] at hc
      obtain rfl : 'o' = c := Option.some.inj hc
      decide
    | false =>
      rw [hro, if_neg Bool.false_ne_true, List.append_nil] at hc
      exact isSpace_getLast? hdest.trimmed c hc

namespace IsStorable

variable {binds : List BindMount} (h : IsStorable binds)
include h

theorem map_bindText {resolve : Text → Text}
    (hresolve : ∀ path, IsPlainPath path → resolve path = path) :
    binds.map (bindText resolve) = binds.map plainText := by
  refine List.map_congr_left fun b hb => ?_
  obtain ⟨hsrc, hdest⟩ := h.plain b hb
  rw [bindText, hresolve _ hsrc, hresolve _ hdest, plainText, List.append_assoc, List.cons_append]

theorem ends {t : Text} (ht : t ∈ binds.map plainText) :
    t.head? = some '/' ∧ ∀ c ∈ t.getLast?, isSpace c = false := by
  obtain ⟨b, hb, rfl⟩ := List.mem_map.1 ht
  exact ends_plainText (h.plain b hb).1 (h.plain b hb).2

theorem isValue : IsValue .binds (joinComma (binds.map plainText)) where
  trimmed := by
    have hne : ∀ t ∈ binds.map plainText, t ≠ [] := by
      rintro t ht rfl
      cases (h.ends ht).1
    refine isTrimmed_of_ends (fun c hc => ?_) fun c hc => ?_
    · cases hbinds : binds.map plainText with
      | nil =>
        rw [hbinds] at hc
        cases hc
      | cons t ts =>
        have ht : t ∈ binds.map plainText := hbinds ▸ List.mem_cons_self
        rw [hbinds, head?_joinComma (hne t ht), (h.ends ht).1] at hc
        obtain rfl : '/' = c := Option.some.inj hc
        decide
    · obtain ⟨t, ht, hct⟩ := getLast?_joinComma hne c hc
      exact (h.ends ht).2 c hct
  oneLine hmem := by
    rcases mem_joinComma hmem with heq | ⟨t, ht, hmem⟩
    · exact absurd heq (by decide)
    · obtain ⟨b, hb, rfl⟩ := List.mem_map.1 ht
      have hro : '\n' ∉ if b.ro then ":ro".toList else [] := by
        cases b.ro <;> decide
      simp only [plainText, List.mem_append, List.mem_cons] at hmem
      rcases hmem with hmem | heq | hmem | hmem
      · exact (h.plain b hb).1.separators.2.2 hmem
      · exact absurd heq (by decide)
      · exact (h.plain b hb).2.separators.2.2 hmem
      · exact hro hmem
  fits := by
    have hfits := h.fits
    rw [bindBody, List.length_append, List.length_cons] at hfits
    omega

theorem length_src {b : BindMount} (hb : b ∈ binds) : b.src.length < pathMax - 1 := by
  have hne : binds.map plainText ≠ [] := List.ne_nil_of_mem (List.mem_map_of_mem hb)
  have hlen := length_joinComma hne
  have hle := List.le_sum_of_mem (List.mem_map_of_mem (f := fun t : Text => t.length + 1)
    (List.mem_map_of_mem (f := plainText) hb))
  have hfits := h.isValue.fits
  have hsrc : b.src.length ≤ (plainText b).length := by
    rw [plainText, List.length_append]
    omega
  have hmax : pathMax - 1 = 4095 := rfl
  omega

theorem isBindList (htable : IsBindTable binds) {resolve : Text → Text}
    (hresolve : ∀ path, IsPlainPath path → resolve path = path) : IsBindList resolve binds where
  bind b hb := by
    obtain ⟨hsrc, hdest⟩ := h.plain b hb
    exact ⟨⟨hsrc.ne_nil, hsrc.separators.2.1, hsrc.separators.1, hsrc.trimmed⟩,
      ⟨hdest.separators.2.1, hdest.separators.1, hdest.trimmed⟩,
      ⟨hresolve _ hsrc, hresolve _ hdest⟩, (htable.bind b hb).2⟩
  apart := by
    refine htable.apart.imp_of_mem fun {e b} he _ heb ⟨hsrc, hdest⟩ => ?_
    exact absurd (heb hsrc hdest) (h.length_src he).ne
  fits := by
    have hfits := h.isValue.fits
    rw [h.map_bindText hresolve]
    omega

theorem readBack_bindLine (htable : IsBindTable binds) (writer reader : PathHost) {sys : System}
    (hsys : sys.resolve = dsResolvePathArg reader) {start : DsConfig}
    (hstart : start.value .binds = []) :
    (readBack sys (bindLine writer binds) start).value .binds = binds ∧
      (∀ k ≠ .binds, (readBack sys (bindLine writer binds) start).value k = start.value k) ∧
        (readBack sys (bindLine writer binds) start).unknown = start.unknown := by
  have hresolve : ∀ path, IsPlainPath path → sys.resolve path = path := fun path hpath => by
    rw [hsys, hpath.resolve]
  have hparse := (h.isBindList htable hresolve).parse
  rw [h.map_bindText hresolve] at hparse
  unfold readBack bindLine
  by_cases hnil : binds = []
  · subst hnil
    exact ⟨hstart, fun _ _ => rfl, rfl⟩
  · rw [if_neg hnil, h.map_bindText fun path hpath => hpath.resolve writer]
    have hvalue (k : Key) : ((fileLines (keyLine .binds (joinComma (binds.map plainText)))).foldl
        (loadLine sys) start).value k =
          overlay sys k (if Key.binds = k then some (joinComma (binds.map plainText)) else none).toList
            (start.value k) := by
      rw [foldl_loadLine_value, ← h.isValue.valueIn]
      rfl
    refine ⟨?_, fun k hk => ?_, ?_⟩
    · rw [hvalue, if_pos rfl, hstart]
      exact hparse
    · rw [hvalue, if_neg hk.symm]
      rfl
    · rw [foldl_loadLine_unknown, h.isValue.isUnknown, List.append_nil]

theorem roundTrips (htable : IsBindTable binds) (host : PathHost) : RoundTrips host binds := by
  intro host' writer reader android cfg start hwriter hreader hcfg hrest
  obtain ⟨hbinds, hothers, hunknown⟩ := h.readBack_bindLine htable host host' hreader hrest
  have hfile : dsConfigLoad reader (dsConfigSerializeKnown writer android cfg) start = _ :=
    dsConfigLoad_binds hwriter cfg start
  rw [hcfg] at hfile
  rw [← hfile] at hbinds hothers hunknown
  exact ⟨fun b => by rw [hbinds, hcfg], hothers, hunknown⟩

end IsStorable

/-! ## What is read -/

/-- The tokens that a piece has for `parse_bind_mounts`. -/
def bindTokensOf (piece : Text) : List Text :=
  match valueIn .binds piece with
  | some val => tokens (val.take 4095)
  | none => []

theorem mem_parseBindMounts {resolve : Text → Text} {val : Text} {binds : List BindMount}
    {b : BindMount} (h : b ∈ parseBindMounts resolve val binds) :
    b ∈ binds ∨ ∃ tok ∈ tokens (val.take 4095), parseBindMount resolve tok = some b := by
  unfold parseBindMounts at h
  generalize tokens (val.take 4095) = toks at h ⊢
  induction toks generalizing binds with
  | nil => exact Or.inl h
  | cons tok toks ih =>
    rw [List.foldl_cons] at h
    rcases ih h with hmem | ⟨tok', htok', hparse⟩
    · split at hmem
      · next b' hparse =>
        unfold addBind at hmem
        split at hmem
        · exact Or.inl hmem
        · rcases List.mem_append.1 hmem with hmem | hmem
          · exact Or.inl hmem
          · rw [← List.mem_singleton.1 hmem] at hparse
            exact Or.inr ⟨tok, List.mem_cons_self, hparse⟩
      · exact Or.inl hmem
    · exact Or.inr ⟨tok', List.mem_cons_of_mem _ htok', hparse⟩

/-- Each bind mount comes from a token. -/
theorem exists_token_of_mem_readBack {sys : System} {line : Text} {start : DsConfig}
    (hstart : start.value .binds = []) {b : BindMount}
    (h : b ∈ (readBack sys line start).value .binds) :
    ∃ tok ∈ (fileLines line).flatMap bindTokensOf, parseBindMount sys.resolve tok = some b := by
  unfold readBack at h
  generalize fileLines line = pieces at h ⊢
  induction pieces using List.reverseRecOn with
  | nil =>
    rw [List.foldl_nil, hstart] at h
    cases h
  | append_singleton pieces piece ih =>
    rw [List.foldl_append, List.foldl_cons, List.foldl_nil, loadLine_value] at h
    rw [List.flatMap_append, List.flatMap_singleton]
    have hbefore (hmem : b ∈ (pieces.foldl (loadLine sys) start).value .binds) :
        ∃ tok ∈ pieces.flatMap bindTokensOf ++ bindTokensOf piece,
          parseBindMount sys.resolve tok = some b := by
      obtain ⟨tok, htok, hparse⟩ := ih hmem
      exact ⟨tok, List.mem_append_left _ htok, hparse⟩
    change b ∈ overlay sys .binds (valueIn .binds piece).toList _ at h
    cases hval : valueIn .binds piece with
    | none =>
      rw [hval] at h
      exact hbefore h
    | some val =>
      rw [hval] at h
      rcases mem_parseBindMounts h with hmem | ⟨tok, htok, hparse⟩
      · exact hbefore hmem
      · refine ⟨tok, List.mem_append_right _ ?_, hparse⟩
        rwa [bindTokensOf, hval]

theorem exists_cons_of_dropWhile {c d : Char} {t rest : Text}
    (h : t.dropWhile (· != c) = d :: rest) :
    t = t.takeWhile (· != c) ++ c :: rest ∧ c ∉ t.takeWhile (· != c) := by
  have hhead := List.head?_dropWhile_not (· != c) t
  rw [h] at hhead
  obtain rfl : d = c := by simpa using hhead
  refine ⟨?_, fun hmem => ?_⟩
  · rw [← h, List.takeWhile_append_dropWhile]
  · exact absurd (List.mem_takeWhile_imp hmem) (by simp)

/-- What a token that gives a bind mount looks like. -/
theorem of_parseBindMount {resolve : Text → Text} {tok : Text} {b : BindMount}
    (h : parseBindMount resolve tok = some b) : ∃ src dest rest,
      tok = src ++ ':' :: (dest ++ rest) ∧ ':' ∉ src ∧ ':' ∉ dest ∧
      b.src = resolve (trim src) ∧ b.dest = resolve (trim dest) ∧
      (b.ro = true → 3 ≤ rest.length) := by
  unfold parseBindMount at h
  split at h
  · cases h
  · next c rest hrest =>
    obtain ⟨htok, hsrc⟩ := exists_cons_of_dropWhile hrest
    dsimp only at h
    split at h
    · obtain rfl := Option.some.inj h
      refine ⟨tok.takeWhile (· != ':'), rest.takeWhile (· != ':'), rest.dropWhile (· != ':'), ?_,
        hsrc, ?_, rfl, rfl, fun hro => ?_⟩
      · rwa [List.takeWhile_append_dropWhile]
      · exact fun hmem => absurd (List.mem_takeWhile_imp hmem) (by simp)
      · dsimp only at hro
        split at hro
        · cases hro
        · next c flag hflag =>
          have hlen := (trim_isInfix flag).length_le
          rw [beq_iff_eq.1 hro] at hlen
          have htwo : "ro".toList.length = 2 := rfl
          rw [hflag, List.length_cons]
          omega
    · cases h

theorem parseBindMount_congr {r r' : Text → Text} {tok : Text} {b : BindMount}
    (h : parseBindMount r tok = some b)
    (hsame : ∀ path, r path = b.src ∨ r path = b.dest → r' path = r path) :
    parseBindMount r' tok = some b := by
  unfold parseBindMount at h ⊢
  split at h
  · cases h
  · dsimp only at h ⊢
    split at h
    · next hvalid =>
      obtain rfl := Option.some.inj h
      rw [hsame _ (Or.inl rfl), hsame _ (Or.inr rfl), if_pos hvalid]
    · cases h

/-- A place where every path that is not absolute is a link. -/
def elsewhere (c : Char) : PathHost where
  home := none
  cwd := none
  cwd_absolute := by rintro d ⟨⟩
  realpath _ := some ['/', c]
  realpath_absolute := by rintro p r ⟨⟩; rfl

theorem dsResolvePathArg_elsewhere (c : Char) (path : Text) :
    dsResolvePathArg (elsewhere c) path = [] ∨
      (path.head? = some '/' ∧ dsResolvePathArg (elsewhere c) path = dropSlashes path) ∨
        dsResolvePathArg (elsewhere c) path = ['/', c] := by
  by_cases hnil : path = []
  · exact Or.inl (if_pos hnil)
  · by_cases habs : path.head? = some '/'
    · exact Or.inr (Or.inl ⟨habs, dsResolvePathArg_of_absolute _ habs⟩)
    · have hhome : expandHome (elsewhere c) path = path := by
        unfold expandHome
        split
        · next hnone => cases hnone
        · rfl
      refine Or.inr (Or.inr ?_)
      rw [dsResolvePathArg, if_neg hnil, hhome, if_neg habs]
      rfl

theorem exists_elsewhere (b : BindMount) : ∃ c, b.src ≠ ['/', c] ∧ b.dest ≠ ['/', c] := by
  by_contra hnone
  push Not at hnone
  have ha := hnone 'a'
  have hb := hnone 'b'
  have hc := hnone 'c'
  by_cases hsrc : b.src = ['/', 'a']
  · rw [hsrc] at hb hc
    exact absurd ((hb (by decide)).symm.trans (hc (by decide))) (by decide)
  · rw [ha hsrc] at hb hc
    by_cases hsrc' : b.src = ['/', 'b']
    · exact absurd (hc (by rw [hsrc']; decide)) (by decide)
    · exact absurd (hb hsrc') (by decide)

/-- What a token says wherever it is read. -/
structure IsSaid (b : BindMount) (tok : Text) : Prop where
  parse : parseBindMount dropSlashes tok = some b
  absolute : b.src.head? = some '/'

/-- Behind the rest of a file, the line gives what was written. -/
theorem RoundTrips.exists_readBack {host host' : PathHost} {binds : List BindMount}
    (h : RoundTrips host binds) (reader : System) (hreader : reader.resolve = dsResolvePathArg host') :
    ∃ start : DsConfig, start.value .binds = [] ∧
      ∀ b, b ∈ (readBack reader (bindLine host binds) start).value .binds ↔ b ∈ binds := by
  have hcfg : (defaults.set .binds binds).value .binds = binds := DsConfig.value_set_self _ _ _
  have hrest : (dsConfigLoad reader (dsConfigSerializeKnown (systemOf host) false
      ((defaults.set .binds binds).set .binds [])) defaults).value .binds = [] := by
    have htext : dsConfigSerializeKnown (systemOf host) false
        ((defaults.set .binds binds).set .binds []) =
          dsConfigSerializeKnown (systemOf inRoot) false defaults := rfl
    have hvals : valuesOf .binds (dsConfigSerializeKnown (systemOf inRoot) false defaults) = [] := by
      decide +kernel
    rw [htext, dsConfigLoad_value, hvals]
    rfl
  have hback := h host' (systemOf host) reader false _ defaults rfl hreader hcfg hrest
  refine ⟨_, hrest, fun b => ?_⟩
  have hfile : dsConfigLoad reader (dsConfigSerializeKnown (systemOf host) false
      (defaults.set .binds binds)) defaults = _ := dsConfigLoad_binds rfl _ _
  have hbinds := hback.binds b
  rwa [hfile, hcfg] at hbinds

/-- What comes back wherever it is read is said by a token. -/
theorem RoundTrips.exists_token {writer : PathHost} {binds : List BindMount}
    (h : RoundTrips writer binds) (htable : IsBindTable binds) {b : BindMount} (hb : b ∈ binds) :
    ∃ tok ∈ (fileLines (bindLine writer binds)).flatMap bindTokensOf, IsSaid b tok := by
  obtain ⟨c, hsrc, hdest⟩ := exists_elsewhere b
  obtain ⟨start, hstart, hread⟩ := h.exists_readBack (systemOf (elsewhere c)) rfl
  obtain ⟨tok, htok, hparse⟩ := exists_token_of_mem_readBack hstart ((hread b).2 hb)
  have hplain (path : Text) (hpath : dsResolvePathArg (elsewhere c) path = b.src ∨
      dsResolvePathArg (elsewhere c) path = b.dest) : path.head? = some '/' ∧
        dsResolvePathArg (elsewhere c) path = dropSlashes path := by
    have hne : dsResolvePathArg (elsewhere c) path ≠ [] := by
      rcases hpath with hpath | hpath
      · exact hpath.trans_ne (htable.bind b hb).1
      · exact hpath.trans_ne (htable.dest_ne_nil hb)
    have hlink : dsResolvePathArg (elsewhere c) path ≠ ['/', c] := by
      rcases hpath with hpath | hpath
      · exact hpath.trans_ne hsrc
      · exact hpath.trans_ne hdest
    exact ((dsResolvePathArg_elsewhere c path).resolve_left hne).resolve_right hlink
  refine ⟨tok, htok, parseBindMount_congr hparse fun path hpath => (hplain path hpath).2.symm, ?_⟩
  obtain ⟨src, -, -, -, -, -, heq, -, -⟩ := of_parseBindMount hparse
  have habs := (hplain _ (Or.inl heq.symm)).1
  rw [heq]
  exact head?_dsResolvePathArg _ habs

/-! ## Counting -/

section Counting

variable {α β : Type} {items : List α} {outs : List β} {read : α → Option β} {size : β → ℕ}
  {room : α → ℕ}

theorem sum_filterMap_le (h : ∀ a ∈ items, ∀ b ∈ read a, size b ≤ room a) :
    ((items.filterMap read).map size).sum ≤ (items.map room).sum := by
  induction items with
  | nil => rfl
  | cons a items ih =>
    have hrest := ih fun a' ha' => h a' (List.mem_cons_of_mem _ ha')
    rw [List.map_cons, List.sum_cons]
    cases hread : read a with
    | none =>
      rw [List.filterMap_cons_none hread]
      omega
    | some b =>
      have hle := h a List.mem_cons_self b hread
      rw [List.filterMap_cons_some hread, List.map_cons, List.sum_cons]
      omega

/-- What is read without repetition has room where it is read from. -/
theorem sum_le_of_nodup (hnodup : outs.Nodup) (hread : ∀ b ∈ outs, ∃ a ∈ items, read a = some b)
    (h : ∀ a ∈ items, ∀ b ∈ read a, size b ≤ room a) :
    (outs.map size).sum ≤ (items.map room).sum := by
  have hsub : outs ⊆ items.filterMap read := fun b hb => List.mem_filterMap.2 (hread b hb)
  obtain ⟨l, hperm, hsublist⟩ := List.subperm_of_subset hnodup hsub
  rw [← (hperm.map size).sum_eq]
  exact ((hsublist.map size).sum_le_sum fun _ _ => Nat.zero_le _).trans (sum_filterMap_le h)

/-- If there is no more room than is needed, each item is as large as what is read from it. -/
theorem size_eq_room (hnodup : outs.Nodup) (hread : ∀ b ∈ outs, ∃ a ∈ items, read a = some b)
    (h : ∀ a ∈ items, ∀ b ∈ read a, size b ≤ room a)
    (hfull : (items.map room).sum ≤ (outs.map size).sum) {a : α} (ha : a ∈ items) {b : β}
    (hb : read a = some b) : size b = room a := by
  let used (a : α) : ℕ := ((read a).map size).getD 0
  have hused : ∀ a ∈ items, used a ≤ room a := by
    intro a ha
    cases hread : read a with
    | none => simp [used, hread]
    | some b => simpa [used, hread] using h a ha b hread
  by_contra hne
  have hlt : used a < room a := by
    have hle := h a ha b hb
    have heq : used a = size b := by simp [used, hb]
    omega
  have hsum : (outs.map size).sum ≤ (items.map used).sum := by
    refine sum_le_of_nodup hnodup hread fun a _ b hb => ?_
    rw [Option.mem_def] at hb
    simp [used, hb]
  have hstrict := List.sum_lt_sum used room hused ⟨a, ha, hlt⟩
  omega

end Counting

theorem sum_tokens_le (t : Text) : ((tokens t).map fun tok => tok.length + 1).sum ≤ t.length + 1 := by
  induction t using lineInduction ',' with
  | last t hcomma =>
    by_cases hnil : t = []
    · rw [hnil]
      exact Nat.zero_le _
    · rw [tokens_of_not_mem hnil hcomma]
      simp
  | cons t rest hcomma ih =>
    rw [tokens_append_comma, List.map_append, List.sum_append, List.length_append,
      List.length_cons]
    by_cases hnil : t = []
    · subst hnil
      have hnone : tokens [] = [] := rfl
      rw [hnone, List.map_nil, List.sum_nil]
      omega
    · rw [tokens_of_not_mem hnil hcomma, List.map_singleton, List.sum_singleton]
      omega

theorem dropSlashes_prefix (t : Text) : dropSlashes t <+: t := by
  cases t with
  | nil => exact List.prefix_rfl
  | cons c t => exact (List.prefix_cons_inj c).2 (List.rdropWhile_prefix _ t)

theorem dropSlashes_dropSlashes (t : Text) : dropSlashes (dropSlashes t) = dropSlashes t := by
  cases t with
  | nil => rfl
  | cons c t => exact congrArg (c :: ·) (List.rdropWhile_idempotent _ t)

/-- A path is no longer than its part of the token, and trimmed if it is as long. -/
theorem length_dropSlashes_trim (part : Text) :
    (dropSlashes (trim part)).length ≤ part.length ∧
      ((dropSlashes (trim part)).length = part.length → IsTrimmed (dropSlashes (trim part))) := by
  have hslashes := dropSlashes_prefix (trim part)
  have htrim := trim_isInfix part
  refine ⟨hslashes.length_le.trans htrim.length_le, fun hlen => ?_⟩
  have hsame : dropSlashes (trim part) = trim part :=
    hslashes.eq_of_length_le (hlen ▸ htrim.length_le)
  rw [hsame]
  exact trim_trim part

/-- The text of what is read is no longer than the token. -/
theorem length_plainText_le {tok : Text} {b : BindMount}
    (h : parseBindMount dropSlashes tok = some b) :
    (plainText b).length ≤ tok.length ∧
      ((plainText b).length = tok.length → IsTrimmed b.src ∧ IsTrimmed b.dest) := by
  obtain ⟨src, dest, rest, rfl, -, -, hsrc, hdest, hro⟩ := of_parseBindMount h
  obtain ⟨hsrcLe, hsrcTrimmed⟩ := length_dropSlashes_trim src
  obtain ⟨hdestLe, hdestTrimmed⟩ := length_dropSlashes_trim dest
  have hflag : (if b.ro then ":ro".toList else []).length ≤ rest.length := by
    cases hb : b.ro with
    | true => exact hro hb
    | false => exact Nat.zero_le _
  rw [← hsrc] at hsrcLe hsrcTrimmed
  rw [← hdest] at hdestLe hdestTrimmed
  simp only [plainText, List.length_append, List.length_cons]
  exact ⟨by omega, fun hlen => ⟨hsrcTrimmed (by omega), hdestTrimmed (by omega)⟩⟩

/-- The room that the tokens of a piece need. -/
def cost (piece : Text) : ℕ := ((bindTokensOf piece).map fun tok => tok.length + 1).sum

theorem length_of_keyOf {key : Text} (h : keyOf key = some .binds) : key.length = 11 := by
  have hall : ∀ e ∈ keyNames, e.2 = .binds → e.1.toList.length = 11 := by decide +kernel
  unfold keyOf at h
  obtain ⟨e, hfind, hbinds⟩ := Option.map_eq_some_iff.1 h
  have hkey := List.find?_some hfind
  rw [← beq_iff_eq.1 hkey]
  exact hall e (List.mem_of_find?_eq_some hfind) hbinds

theorem length_lineEntry {line key val : Text} (h : lineEntry line = some (key, val)) :
    key.length + 1 + val.length ≤ (trim line).length := by
  unfold lineEntry at h
  dsimp only at h
  split at h
  · cases h
  · next hkept =>
    obtain ⟨rfl, rfl⟩ := Prod.mk.inj (Option.some.inj h)
    rw [Bool.or_eq_true, not_or, Bool.not_eq_true', Bool.not_eq_false, List.contains_iff_mem] at hkept
    have hkey := (trim_isInfix ((trim line).takeWhile (· != '='))).length_le
    have hval := (trim_isInfix (((trim line).dropWhile (· != '=')).drop 1)).length_le
    rw [List.length_drop] at hval
    have hsplit := congrArg List.length
      (List.takeWhile_append_dropWhile (p := (· != '=')) (l := trim line))
    rw [List.length_append] at hsplit
    have hpos : 0 < ((trim line).dropWhile (· != '=')).length := by
      rw [List.length_pos_iff, ne_eq, List.dropWhile_eq_nil_iff]
      intro hall
      exact absurd (hall '=' hkept.2) (by simp)
    omega

/-- A piece that has tokens has the key as well. -/
theorem cost_le (piece : Text) : cost piece = 0 ∨ cost piece + 11 ≤ piece.length ∧
    (piece.getLast? = some '\n' → cost piece + 12 ≤ piece.length) := by
  unfold cost bindTokensOf
  split
  · next val hval =>
    right
    obtain ⟨⟨key, val'⟩, hentry, hkey⟩ := Option.bind_eq_some_iff.1 hval
    dsimp only at hkey
    split at hkey
    · next hbinds =>
      obtain rfl := Option.some.inj hkey
      have hlen := length_of_keyOf hbinds
      have htokens := sum_tokens_le (val'.take 4095)
      have htake := List.length_take_le' 4095 val'
      have hvalue := length_lineEntry hentry
      have htrim := (trim_isInfix piece).length_le
      refine ⟨by omega, fun hlast => ?_⟩
      obtain ⟨front, rfl⟩ := List.getLast?_eq_some_iff.1 hlast
      have hblank : ∀ c ∈ ['\n'], isSpace c = true := by simp [isSpace]
      have hfront := (trim_isInfix front).length_le
      rw [trim_append hblank] at hvalue
      rw [List.length_append, List.length_singleton]
      omega
    · cases hkey
  · exact Or.inl rfl

theorem sum_cost (pieces : List Text) :
    ((pieces.flatMap bindTokensOf).map fun tok => tok.length + 1).sum =
      (pieces.map cost).sum := by
  induction pieces with
  | nil => rfl
  | cons piece pieces ih =>
    rw [List.flatMap_cons, List.map_append, List.sum_append, ih, List.map_cons, List.sum_cons, cost]

/-- Each piece takes something of the line, and one that has tokens takes the key. -/
theorem sum_cost_le {pieces : List Text} (h : ∀ piece ∈ pieces, piece ≠ []) :
    (pieces.map cost).sum + pieces.length ≤ pieces.flatten.length ∧
      ((pieces.map cost).sum ≠ 0 →
        (pieces.map cost).sum + pieces.length + 10 ≤ pieces.flatten.length) := by
  induction pieces with
  | nil => exact ⟨le_rfl, fun hne => absurd rfl hne⟩
  | cons piece pieces ih =>
    obtain ⟨hall, htokens⟩ := ih fun p hp => h p (List.mem_cons_of_mem _ hp)
    have hpos := List.length_pos_iff.2 (h piece List.mem_cons_self)
    rw [List.map_cons, List.sum_cons, List.length_cons, List.flatten_cons, List.length_append]
    rcases cost_le piece with hnone | ⟨hkey, -⟩
    · rw [hnone, Nat.zero_add]
      exact ⟨by omega, fun hne => by have hle := htokens hne; omega⟩
    · exact ⟨by omega, fun _ => by omega⟩

/-- **A line that loses nothing is read in one piece.** -/
theorem one_piece {body : Text}
    (h : body.length ≤ ((fileLines (body ++ ['\n'])).map cost).sum + 11) (hlong : 11 < body.length) :
    '\n' ∉ body ∧ body.length ≤ 2047 ∧
      ((fileLines (body ++ ['\n'])).map cost).sum + 11 ≤ body.length := by
  have hflat : (fileLines (body ++ ['\n'])).flatten = body ++ ['\n'] := flatten_fgets 2046 _ 2046
  have hpiece : ∀ piece ∈ fileLines (body ++ ['\n']), IsPiece 2046 piece :=
    (isPiece_of_mem_fgets 2046 (body ++ ['\n'])).1
  have hcount := (sum_cost_le fun piece hmem => (hpiece piece hmem).ne_nil).2 (by omega)
  have htotal := congrArg List.length hflat
  rw [List.length_append, List.length_singleton] at htotal
  generalize fileLines (body ++ ['\n']) = pieces at *
  match pieces, hflat, hpiece with
  | [], hflat, _ => cases body <;> cases hflat
  | [piece], hflat, hpiece =>
    obtain ⟨-, honeLine, hfits⟩ := hpiece piece List.mem_cons_self
    rw [List.flatten_singleton] at hflat
    subst hflat
    rw [List.dropLast_concat] at honeLine
    rw [List.length_append, List.length_singleton] at hfits
    refine ⟨honeLine, by omega, ?_⟩
    rw [List.map_singleton, List.sum_singleton] at h ⊢
    rcases cost_le (body ++ ['\n']) with hnone | ⟨-, hline⟩
    · omega
    · have hcost := hline List.getLast?_concat
      rw [List.length_append, List.length_singleton] at hcost
      omega
  | [piece, last], hflat, hpiece =>
    obtain ⟨hne, honeLine, hfits⟩ := hpiece piece List.mem_cons_self
    have hlast := (hpiece last (List.mem_cons_of_mem _ List.mem_cons_self)).ne_nil
    have hpos := List.length_pos_iff.2 hne
    rw [List.flatten_cons, List.flatten_singleton] at hflat htotal hcount
    rw [List.length_append] at htotal hcount
    have hend : last.getLast? = some '\n' := by
      have hsame := congrArg List.getLast? hflat
      rwa [List.getLast?_append_of_ne_nil _ hlast, List.getLast?_concat] at hsame
    simp only [List.map_cons, List.map_nil, List.sum_cons, List.sum_nil, List.length_cons,
      List.length_nil] at h hcount ⊢
    -- the end of the line has no room for tokens
    have hblank : cost last = 0 := by
      rcases cost_le last with hnone | ⟨-, hline⟩
      · exact hnone
      · have hcost := hline hend
        rcases cost_le piece with hnone | ⟨hkey, -⟩
        · omega
        · omega
    rcases cost_le piece with hnone | ⟨hkey, hline⟩
    · omega
    · have hone : last.length = 1 := by
        have hlastPos := List.length_pos_iff.2 hlast
        omega
      obtain ⟨rfl, rfl⟩ := List.append_inj' hflat hone
      refine ⟨fun hmem => ?_, by omega, by omega⟩
      rw [← List.dropLast_append_getLast hne, List.mem_append, List.mem_singleton] at hmem
      rcases hmem with hmem | hmem
      · exact honeLine hmem
      · have hcost := hline (by rw [List.getLast?_eq_some_getLast hne, ← hmem])
        omega
  | piece :: piece' :: last :: pieces, hflat, hpiece =>
    simp only [List.length_cons] at hcount
    omega

/-! ## Lists that come back -/

/-- A path of a token. -/
theorem dropSlashes_trim_subset (part : Text) : dropSlashes (trim part) ⊆ part :=
  List.Subset.trans ( dropSlashes_prefix (trim part)).subset (trim_isInfix part).subset

theorem length_le_of_mem_bindTokensOf {piece tok : Text} (h : tok ∈ bindTokensOf piece) :
    tok.length ≤ 4095 ∧ ',' ∉ tok := by
  unfold bindTokensOf at h
  split at h
  · next val hval =>
    have hsum := sum_tokens_le (val.take 4095)
    have hle := List.le_sum_of_mem (List.mem_map_of_mem (f := fun tok : Text => tok.length + 1) h)
    have htake := List.length_take_le 4095 val
    exact ⟨by omega, (mem_tokens h).2⟩
  · cases h

namespace IsSaid

variable {b : BindMount} {tok : Text} (h : IsSaid b tok)
include h

theorem slashes : dropSlashes b.src = b.src ∧ dropSlashes b.dest = b.dest := by
  obtain ⟨src, dest, -, -, -, -, hsrc, hdest, -⟩ := of_parseBindMount h.parse
  rw [hsrc, hdest]
  exact ⟨dropSlashes_dropSlashes _, dropSlashes_dropSlashes _⟩

theorem colon : ':' ∉ b.src ∧ ':' ∉ b.dest := by
  obtain ⟨src, dest, -, -, hcolon, hcolon', hsrc, hdest, -⟩ := of_parseBindMount h.parse
  rw [hsrc, hdest]
  exact ⟨fun hmem => hcolon (dropSlashes_trim_subset src hmem),
    fun hmem => hcolon' (dropSlashes_trim_subset dest hmem)⟩

theorem subset : b.src ⊆ tok ∧ b.dest ⊆ tok := by
  obtain ⟨src, dest, rest, rfl, -, -, hsrc, hdest, -⟩ := of_parseBindMount h.parse
  rw [hsrc, hdest]
  constructor
  · exact List.Subset.trans (dropSlashes_trim_subset src) (List.subset_append_left _ _)
  · refine List.Subset.trans (dropSlashes_trim_subset dest) fun c hc => ?_
    exact List.mem_append_right _ (List.mem_cons_of_mem _ (List.mem_append_left _ hc))

theorem absolute_dest : b.dest.head? = some '/' := by
  have hvalid := validate_of_parseBindMount h.parse
  simp only [validateBindDestination, Bool.and_eq_true] at hvalid
  exact beq_iff_eq.1 hvalid.1.1.1

end IsSaid

section Said

variable {binds : List BindMount}

theorem length_bindBody (hne : binds ≠ []) : (bindBody binds).length =
    (binds.map fun b => (plainText b).length + 1).sum + 11 := by
  have hjoin := length_joinComma (mt List.map_eq_nil_iff.1 hne : binds.map plainText ≠ [])
  have hkey : (keyText .binds).length = 11 := by decide
  rw [List.map_map] at hjoin
  change _ = (binds.map fun b => (plainText b).length + 1).sum at hjoin
  rw [bindBody, List.length_append, List.length_cons, hkey]
  omega

theorem plainText_subset_bindBody {b : BindMount} (hb : b ∈ binds) :
    plainText b ⊆ bindBody binds :=
  fun _ hc => List.mem_append_right _
    (List.mem_cons_of_mem _ (subset_joinComma (List.mem_map_of_mem hb) hc))

/-- Bind mounts that are said by tokens are written as they are. -/
theorem bindLine_eq (hne : binds ≠ []) (writer : PathHost)
    (hsaid : ∀ b ∈ binds, ∃ tok, IsSaid b tok) :
    bindLine writer binds = bindBody binds ++ ['\n'] := by
  have hmap : binds.map (bindText (dsResolvePathArg writer)) = binds.map plainText := by
    refine List.map_congr_left fun b hb => ?_
    obtain ⟨tok, htok⟩ := hsaid b hb
    rw [bindText, dsResolvePathArg_of_absolute writer htok.absolute,
      dsResolvePathArg_of_absolute writer htok.absolute_dest, htok.slashes.1, htok.slashes.2,
      plainText, List.append_assoc, List.cons_append]
  rw [bindLine, if_neg hne, hmap]
  rfl

variable {pieces : List Text}
  (hsaid : ∀ b ∈ binds, ∃ tok ∈ pieces.flatMap bindTokensOf, IsSaid b tok)
include hsaid

theorem nodup_of_said (htable : IsBindTable binds) : binds.Nodup := by
  refine htable.apart.imp_of_mem fun {e b} he _ heb hsame => ?_
  subst hsame
  obtain ⟨tok, htok, hread⟩ := hsaid e he
  obtain ⟨piece, -, hpiece⟩ := List.mem_flatMap.1 htok
  have hlen := (length_plainText_le hread.parse).1.trans (length_le_of_mem_bindTokensOf hpiece).1
  have hsrc := heb rfl rfl
  have hmax : pathMax - 1 = 4095 := rfl
  rw [plainText, List.length_append, List.length_cons] at hlen
  omega

theorem sum_le_sum_cost (htable : IsBindTable binds) :
    (binds.map fun b => (plainText b).length + 1).sum ≤ (pieces.map cost).sum := by
  rw [← sum_cost]
  refine sum_le_of_nodup (nodup_of_said hsaid htable)
    (fun b hb => (hsaid b hb).imp fun tok htok => ⟨htok.1, htok.2.parse⟩) fun tok _ b hb => ?_
  exact Nat.succ_le_succ (length_plainText_le hb).1

/-- If no more than that is in the pieces, nothing of a token is lost. -/
theorem length_eq_of_sum_cost_le (htable : IsBindTable binds)
    (hfull : (pieces.map cost).sum ≤ (binds.map fun b => (plainText b).length + 1).sum)
    {b : BindMount} {tok : Text} (htok : tok ∈ pieces.flatMap bindTokensOf) (hread : IsSaid b tok) :
    (plainText b).length = tok.length := by
  rw [← sum_cost] at hfull
  refine Nat.succ.inj (size_eq_room (nodup_of_said hsaid htable)
    (fun b hb => (hsaid b hb).imp fun tok htok => ⟨htok.1, htok.2.parse⟩) (fun tok _ b hb => ?_)
    hfull htok hread.parse)
  exact Nat.succ_le_succ (length_plainText_le hb).1

end Said

theorem RoundTrips.isStorable {writer : PathHost} {binds : List BindMount}
    (h : RoundTrips writer binds) (htable : IsBindTable binds) : IsStorable binds := by
  by_cases hne : binds = []
  · subst hne
    exact ⟨fun _ hb => absurd hb List.not_mem_nil, by decide⟩
  have hsaid := fun b (hb : b ∈ binds) => h.exists_token htable hb
  rw [bindLine_eq hne writer fun b hb => (hsaid b hb).imp fun _ htok => htok.2] at hsaid
  have hneeded := sum_le_sum_cost hsaid htable
  have hlength := length_bindBody hne
  have hlong : 11 < (bindBody binds).length := by
    rw [bindBody, List.length_append, List.length_cons]
    have hkey : (keyText .binds).length = 11 := by decide
    omega
  obtain ⟨honeLine, hfits, hcost⟩ := one_piece (by omega) hlong
  refine ⟨fun b hb => ?_, hfits⟩
  obtain ⟨tok, htok, hread⟩ := hsaid b hb
  have hlen := length_eq_of_sum_cost_le hsaid htable (by omega) htok hread
  obtain ⟨hsrc, hdest⟩ := (length_plainText_le hread.parse).2 hlen
  obtain ⟨piece, -, hpiece⟩ := List.mem_flatMap.1 htok
  have hcomma := (length_le_of_mem_bindTokensOf hpiece).2
  have hline := plainText_subset_bindBody hb
  constructor
  · refine ⟨hread.absolute, ⟨fun hmem => hcomma (hread.subset.1 hmem), hread.colon.1,
      fun hmem => honeLine (hline ?_)⟩, hsrc, hread.slashes.1⟩
    exact List.mem_append_left _ hmem
  · refine ⟨hread.absolute_dest, ⟨fun hmem => hcomma (hread.subset.2 hmem), hread.colon.2,
      fun hmem => honeLine (hline ?_)⟩, hdest, hread.slashes.2⟩
    exact List.mem_append_right _ (List.mem_cons_of_mem _ (List.mem_append_left _ hmem))

/-- **A list that options and files have built comes back, whoever reads it, exactly if its paths
are plain and the line fits in a piece.** -/
theorem roundTrips_iff {binds : List BindMount} (hbuilt : IsBuiltList binds) (writer : PathHost) :
    RoundTrips writer binds ↔ IsStorable binds :=
  ⟨fun h => h.isStorable hbuilt.isBindTable, fun h => h.roundTrips hbuilt.isBindTable writer⟩

def webBinds : List BindMount :=
  [⟨"/srv/web root".toList, "/data".toList, true⟩, ⟨"/srv/logs".toList, "/var/log".toList, false⟩]

theorem roundTrips_webBinds : IsBuiltList webBinds ∧ RoundTrips inRoot webBinds := by
  have hbuilt : IsBuiltList webBinds :=
    .option "/srv/web root:/data:ro,/srv/logs:/var/log".toList .nil rfl
  have hplain (path : Text) (hpath : path ∈ webBinds.flatMap fun b => [b.src, b.dest]) :
      IsPlainPath path := by
    have hall : ∀ path ∈ webBinds.flatMap fun b => [b.src, b.dest], path.head? = some '/' ∧
        (',' ∉ path ∧ ':' ∉ path ∧ '\n' ∉ path) ∧ trim path = path ∧ dropSlashes path = path := by
      decide +kernel
    obtain ⟨habs, hseparators, htrim, hslashes⟩ := hall path hpath
    exact ⟨habs, hseparators, htrim, hslashes⟩
  refine ⟨hbuilt, (roundTrips_iff hbuilt inRoot).2 ⟨fun b hb => ⟨hplain _ ?_, hplain _ ?_⟩, ?_⟩⟩
  · exact List.mem_flatMap.2 ⟨b, hb, by simp⟩
  · exact List.mem_flatMap.2 ⟨b, hb, by simp⟩
  · decide +kernel

def longSource : Text := '/' :: List.replicate 2047 'a'

def longBind : BindMount := ⟨longSource, "/d".toList, false⟩

theorem parseBindOption_longBind :
    parseBindOption (longSource ++ ":/d".toList) = some longBind := by
  have hall : longSource.all (· != ':') = true := by decide +kernel
  have hcolon := List.all_eq_true.1 hall
  have hdrop : (longSource ++ ":/d".toList).dropWhile (· != ':') = ":/d".toList :=
    List.dropWhile_append_of_pos hcolon
  have htake : (longSource ++ ":/d".toList).takeWhile (· != ':') = longSource := by
    rw [List.takeWhile_append_of_pos hcolon]
    exact List.append_nil _
  have hvalid : validateBindDestination "/d".toList = true := by decide
  rw [parseBindOption, hdrop, htake]
  exact if_pos (by rw [Bool.and_eq_true]; exact ⟨rfl, hvalid⟩)

theorem addBinds_longBind : addBinds [] (tokens (longSource ++ ":/d".toList)) = some [longBind] := by
  have htokens : tokens (longSource ++ ":/d".toList) = [longSource ++ ":/d".toList] :=
    tokens_of_not_mem (by decide +kernel) (by decide +kernel)
  have hfits : longSource.take (pathMax - 1) = longSource :=
    List.take_of_length_le (by decide +kernel)
  have hadd : dsConfigAddBind [] longBind = [longBind] := by
    change [BindMount.mk (longSource.take (pathMax - 1)) "/d".toList false] = [longBind]
    rw [hfits]
    rfl
  rw [htokens, addBinds, parseBindOption_longBind, Option.bind_some, hadd]
  rfl

/-- A source that is longer than the buffer takes its bind mount with it. -/
theorem not_roundTrips_longBind : ¬ ∀ binds, IsBuiltList binds → ∀ host, RoundTrips host binds := by
  intro h
  have hbuilt : IsBuiltList [longBind] := .option _ .nil addBinds_longBind
  have hstorable := (h [longBind] hbuilt inRoot).isStorable hbuilt.isBindTable
  have hlong : 2047 < (bindBody [longBind]).length := by decide +kernel
  exact absurd hstorable.fits (Nat.not_le.2 hlong)

end Droidspaces.Cli
