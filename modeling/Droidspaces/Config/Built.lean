import Droidspaces.Config.Environment
import Droidspaces.Config.PortTable

/-!
# Configurations that are built up

However often a configuration is loaded over and changed by options, its limits, privileges,
interfaces and port forwards are in order, and the lines that it keeps are lines of a file
(`IsBuiltUp`).
-/

namespace Droidspaces.Config

open CustomBinds

/-! ## Lines that are kept -/

/-- What `fgets` reads with room for `room` characters behind the first one. -/
structure IsPiece (room : ℕ) (line : Text) : Prop where
  ne_nil : line ≠ []
  oneLine : '\n' ∉ line.dropLast
  fits : line.length ≤ room + 1

/-- What ends whatever follows it. -/
def IsFull (room : ℕ) (line : Text) : Prop := line.getLast? = some '\n' ∨ line.length = room + 1

theorem isFull_singleton {room : ℕ} {c : Char} : IsFull room [c] ↔ c = '\n' ∨ room = 0 := by
  rw [IsFull, List.getLast?_singleton, Option.some.injEq, List.length_singleton]
  exact or_congr_right (by omega)

theorem IsPiece.tail {c d : Char} {line : Text} {room : ℕ} (h : IsPiece room (c :: d :: line)) :
    c ≠ '\n' ∧ room ≠ 0 ∧ IsPiece (room - 1) (d :: line) := by
  have hline := h.oneLine
  have hfits := h.fits
  rw [List.dropLast_cons_cons, List.mem_cons, not_or] at hline
  rw [List.length_cons, List.length_cons] at hfits
  refine ⟨Ne.symm hline.1, by omega, List.cons_ne_nil _ _, hline.2, ?_⟩
  rw [List.length_cons]
  omega

theorem IsPiece.fgets_append (n : ℕ) {line : Text} {room : ℕ} (h : IsPiece room line) {rest : Text}
    (hrest : rest = [] ∨ IsFull room line) :
    fgets n (line ++ rest) room = line :: fgets n rest n := by
  induction line generalizing room with
  | nil => exact absurd rfl h.ne_nil
  | cons c line ih =>
    cases line with
    | nil =>
      cases rest with
      | nil => simp [fgets]
      | cons d rest =>
        have hfull := hrest.resolve_left (List.cons_ne_nil _ _)
        have hend : (c == '\n' || room == 0) = true := by
          simpa using isFull_singleton.1 hfull
        rw [List.singleton_append, fgets, if_pos hend]
    | cons d line =>
      obtain ⟨hc, hroom, htail⟩ := h.tail
      have hrest' : rest = [] ∨ IsFull (room - 1) (d :: line) := by
        refine hrest.imp_right fun hfull => ?_
        unfold IsFull at hfull ⊢
        rw [List.getLast?_cons_cons, List.length_cons] at hfull
        exact hfull.imp_right fun hlen => by omega
      have hgo : ¬(c == '\n' || room == 0) = true := by simp [hc, hroom]
      rw [List.cons_append, List.cons_append, fgets, if_neg hgo, ← List.cons_append, ih htail hrest']

theorem isPiece_fgets (n : ℕ) (t : Text) (room : ℕ) :
    ∀ line lines, fgets n t room = line :: lines →
      IsPiece room line ∧ (lines = [] ∨ IsFull room line) ∧ (∀ l ∈ lines, IsPiece n l) ∧
        lines.Pairwise fun l _ => IsFull n l := by
  fun_induction fgets n t room with
  | case1 => exact nofun
  | case2 room c =>
    intro line lines h
    obtain ⟨rfl, rfl⟩ := List.cons.inj h
    exact ⟨⟨by simp, by simp, by simp⟩, Or.inl rfl, by simp, List.Pairwise.nil⟩
  | case3 c d t room hend ih =>
    intro line lines h
    obtain ⟨rfl, rfl⟩ := List.cons.inj h
    have hend' : c = '\n' ∨ room = 0 := by simpa using hend
    refine ⟨⟨by simp, by simp, by simp⟩, Or.inr (isFull_singleton.2 hend'), ?_⟩
    · obtain ⟨line, lines, hlines⟩ :=
        List.exists_cons_of_ne_nil (fgets_ne_nil n (List.cons_ne_nil d t) n)
      obtain ⟨hline, hfull, hall, hpair⟩ := ih line lines hlines
      rw [hlines]
      refine ⟨List.forall_mem_cons.2 ⟨hline, hall⟩, List.pairwise_cons.2 ⟨fun l hl => ?_, hpair⟩⟩
      exact hfull.resolve_left (List.ne_nil_of_mem hl)
  | case4 c d t room hend line lines hlines ih =>
    intro line' lines' h
    obtain ⟨rfl, rfl⟩ := List.cons.inj h
    obtain ⟨hline, hfull, hall, hpair⟩ := ih line lines hlines
    have hgo : c ≠ '\n' ∧ room ≠ 0 := by simpa using hend
    obtain ⟨e, line, rfl⟩ := List.exists_cons_of_ne_nil hline.ne_nil
    have hlen := hline.fits
    refine ⟨⟨List.cons_ne_nil _ _, ?_, ?_⟩, hfull.imp_right fun hfull => ?_, hall, hpair⟩
    · rw [List.dropLast_cons_cons, List.mem_cons, not_or]
      exact ⟨Ne.symm hgo.1, hline.oneLine⟩
    · rw [List.length_cons]
      omega
    · unfold IsFull at hfull ⊢
      rw [List.getLast?_cons_cons, List.length_cons]
      exact hfull.imp_right fun hlen => by omega
  | case5 c d t room hend hnil ih => exact absurd hnil (fgets_ne_nil n (List.cons_ne_nil d t) _)

theorem fgets_flatten {n : ℕ} {lines : List Text} (h : ∀ l ∈ lines, IsPiece n l)
    (hfull : lines.Pairwise fun l _ => IsFull n l) : fgets n lines.flatten n = lines := by
  induction lines with
  | nil => rfl
  | cons line lines ih =>
    obtain ⟨hline, hpair⟩ := List.pairwise_cons.1 hfull
    have hrest : lines.flatten = [] ∨ IsFull n line := by
      cases lines with
      | nil => exact Or.inl rfl
      | cons l lines => exact Or.inr (hline l List.mem_cons_self)
    rw [List.flatten_cons, (h line List.mem_cons_self).fgets_append n hrest,
      ih (fun l hl => h l (List.mem_cons_of_mem _ hl)) hpair]

/-- All but the last piece of a text are full. -/
theorem isPiece_of_mem_fgets (n : ℕ) (t : Text) :
    (∀ l ∈ fgets n t n, IsPiece n l) ∧ (fgets n t n).Pairwise fun l _ => IsFull n l := by
  rcases hfile : fgets n t n with _ | ⟨line, lines⟩
  · exact ⟨by simp, List.Pairwise.nil⟩
  · obtain ⟨hline, hfull, hall, hpair⟩ := isPiece_fgets n t n line lines hfile
    refine ⟨List.forall_mem_cons.2 ⟨hline, hall⟩, List.pairwise_cons.2 ⟨fun l hl => ?_, hpair⟩⟩
    exact hfull.resolve_left (List.ne_nil_of_mem hl)

/-- Some of the lines of a file are the lines of a file. -/
theorem fileLines_filter (p : Text → Bool) (text : Text) :
    fileLines ((fileLines text).filter p).flatten = (fileLines text).filter p := by
  obtain ⟨hpiece, hfull⟩ := isPiece_of_mem_fgets 2046 text
  exact fgets_flatten (fun l hl => hpiece l (List.mem_filter.1 hl).1) (hfull.filter p)

/-! ## Values that are built up -/

/-- What holds of a value whatever it was made from. -/
def IsBuilt : (k : Key) → k.Value → Prop
  | .limit _, n => n ≤ llongMax
  | .privileged, mask => mask < 16 ∨ mask = 255
  | .upstreamIfaces, ifaces => IsIfaceList ifaces
  | .portForwards, ports => IsPortTable ports
  | _, _ => True

theorem isBuilt_parsePrivileged (val : Text) :
    parsePrivileged val < 16 ∨ parsePrivileged val = 255 := by
  have hbits : ∀ b ∈ 0 :: privilegedBits.map (·.2), b = 255 ∨ b < 16 := by decide
  have hfull : ∀ b, b = 255 ∨ b < 16 → 255 ||| b = 255 := by
    rintro b (rfl | hb)
    · rfl
    · have hall : ∀ b < 16, 255 ||| b = 255 := by decide
      exact hall b hb
  unfold parsePrivileged
  refine List.foldlRecOn (motive := fun mask => mask < 16 ∨ mask = 255) _ _ (Or.inl (by decide)) ?_
  intro mask hmask tok _
  have hbit : ((privilegedBits.find? fun e => e.1.toList == lower (trim tok)).map (·.2)).getD 0 ∈
      0 :: privilegedBits.map (·.2) := by
    cases hfind : privilegedBits.find? fun e => e.1.toList == lower (trim tok) with
    | none => exact List.mem_cons_self
    | some e =>
      exact List.mem_cons_of_mem _ (List.mem_map_of_mem (List.mem_of_find?_eq_some hfind))
  have hb := hbits _ hbit
  rcases hmask with hmask | rfl
  · rcases hb with hb | hb
    · have hor := hfull mask (Or.inr hmask)
      rw [hb, Nat.or_comm]
      exact Or.inr hor
    · exact Or.inl (Nat.or_lt_two_pow (n := 4) hmask hb)
  · exact Or.inr (hfull _ hb)

theorem isIfaceList_nil : IsIfaceList [] where
  name _ hname := absurd hname List.not_mem_nil
  nodup := List.nodup_nil
  count := Nat.zero_le _
  fits := Nat.zero_le _

theorem IsIfaceList.extend {ifaces : List Text} (h : IsIfaceList ifaces) {tok : Text}
    (htok : ',' ∉ tok) : IsIfaceList (extend newIface ifaces tok) := by
  unfold Config.extend
  cases hnew : newIface ifaces tok with
  | none => exact h
  | some name =>
    simp only [newIface, Option.ite_none_left_eq_some, Bool.or_eq_true, decide_eq_true_eq,
      List.isEmpty_iff, List.contains_iff_mem, not_or, Option.some.injEq] at hnew
    obtain ⟨⟨⟨⟨hne, hlen⟩, hfresh⟩, hroom⟩, hname⟩ := hnew
    rw [hname] at hne hlen hfresh
    dsimp only
    have hall : ∀ n ∈ ifaces ++ [name], n ≠ [] ∧ ',' ∉ n ∧ n.length < ifNameSize ∧
        (n.dropWhile isTabOrSpace).rdropWhile isTabOrSpace = n := by
      intro n hn
      rcases List.mem_append.1 hn with hn | hn
      · exact h.name n hn
      · obtain rfl := List.mem_singleton.1 hn
        refine ⟨hne, fun hmem => htok ?_, by omega, ?_⟩
        · rw [← hname] at hmem
          exact (List.dropWhile_suffix _).subset ((List.rdropWhile_prefix _ _).subset hmem)
        · rw [← hname, dropWhile_trimmed, List.rdropWhile_idempotent]
    have hcount : (ifaces ++ [name]).length ≤ maxUpstreamIfaces := by
      rw [List.length_append, List.length_singleton]
      omega
    refine ⟨hall, ?_, hcount, ?_⟩
    · exact List.nodup_append.2 ⟨h.nodup, List.nodup_singleton _, fun a ha b hb hab =>
        hfresh (List.mem_singleton.1 hb ▸ hab ▸ ha)⟩
    · have hshort : ∀ t ∈ ifaces ++ [name], t.length ≤ 15 := fun t ht => by
        have hlt : t.length < 16 := (hall t ht).2.2.1
        omega
      have hjoin := length_joinComma_le hshort
      have hle : (ifaces ++ [name]).length ≤ 32 := hcount
      omega

theorem not_mem_of_mem_tokens {val tok : Text} (h : tok ∈ tokens val) : ',' ∉ tok :=
  not_mem_of_mem_splitOn (List.mem_filter.1 h).1

theorem mem_tokens {val tok : Text} (h : tok ∈ tokens val) : tok ≠ [] ∧ ',' ∉ tok := by
  obtain ⟨hmem, hne⟩ := List.mem_filter.1 h
  exact ⟨by simpa using hne, not_mem_of_mem_tokens h⟩

theorem tokens_append_comma (s t : Text) : tokens (s ++ ',' :: t) = tokens s ++ tokens t := by
  rw [tokens, List.splitOn_append_cons_self, List.filter_append]
  rfl

theorem tokens_joinComma_eq_flatMap (ts : List Text) : tokens (joinComma ts) = ts.flatMap tokens := by
  induction ts with
  | nil => rfl
  | cons t ts ih =>
    cases ts with
    | nil => simp [joinComma]
    | cons u us =>
      rw [joinComma_cons_cons, tokens_append_comma, ih, List.flatMap_cons (x := t)]

theorem tokens_of_not_mem {t : Text} (hne : t ≠ []) (hcomma : ',' ∉ t) : tokens t = [t] := by
  have hone := @tokens_joinComma [t] (by simpa using ⟨hne, hcomma⟩)
  rwa [joinComma, List.intercalate_singleton] at hone

theorem parseLlPositive_le {val : Text} {n : ℕ} (h : parseLlPositive val = some n) :
    n ≤ llongMax := by
  simp only [parseLlPositive, Option.ite_none_left_eq_some, Bool.or_eq_true, decide_eq_true_eq,
    not_or, Option.some.injEq] at h
  obtain ⟨⟨-, hle⟩, rfl⟩ := h
  exact Nat.not_lt.1 hle

theorem isBuilt_defaults (k : Key) : IsBuilt k (defaults.value k) := by
  cases k with
  | limit l => exact Nat.zero_le _
  | privileged => exact Or.inl (by decide)
  | upstreamIfaces => exact isIfaceList_nil
  | portForwards => exact isPortTable_nil
  | _ => trivial

theorem IsIfaceList.foldl {ifaces : List Text} (h : IsIfaceList ifaces) {toks : List Text}
    (htoks : ∀ tok ∈ toks, ',' ∉ tok) :
    IsIfaceList (toks.foldl (Config.extend newIface) ifaces) := by
  induction toks generalizing ifaces with
  | nil => exact h
  | cons tok toks ih =>
    exact ih (h.extend (htoks tok List.mem_cons_self)) fun t ht =>
      htoks t (List.mem_cons_of_mem _ ht)

theorem IsBuilt.accept {sys : System} {k : Key} {v : k.Value} (h : IsBuilt k v) (val : Text) :
    IsBuilt k (accept sys k val v) := by
  cases k with
  | limit l =>
    rw [Config.accept]
    cases hval : parseLlPositive val with
    | none => exact h
    | some n => exact parseLlPositive_le hval
  | privileged => exact isBuilt_parsePrivileged val
  | upstreamIfaces => exact IsIfaceList.foldl h fun tok => not_mem_of_mem_tokens
  | portForwards => exact IsPortTable.foldl h _
  | _ => trivial

theorem IsBuilt.overlay {sys : System} {k : Key} {v : k.Value} (h : IsBuilt k v)
    (vals : List Text) : IsBuilt k (overlay sys k vals v) :=
  List.foldlRecOn (motive := IsBuilt k) vals _ h fun _ hv val _ => hv.accept val

/-- A configuration that was built up. -/
structure IsBuiltUp (cfg : DsConfig) : Prop where
  value : ∀ k, IsBuilt k (cfg.value k)
  unknown : fileLines cfg.unknown.flatten = cfg.unknown
  isUnknown : ∀ line ∈ cfg.unknown, isUnknown line = true

theorem IsBuiltUp.load {sys : System} {cfg : DsConfig} (h : ∀ k, IsBuilt k (cfg.value k))
    (text : Text) : IsBuiltUp (dsConfigLoad sys text cfg) where
  value k := by
    rw [dsConfigLoad_value]
    exact (h k).overlay _
  unknown := by
    rw [dsConfigLoad_unknown]
    exact fileLines_filter _ text
  isUnknown line hline := by
    rw [dsConfigLoad_unknown] at hline
    exact (List.mem_filter.1 hline).2

end Droidspaces.Config
