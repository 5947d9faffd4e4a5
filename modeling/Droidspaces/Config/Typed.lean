import Droidspaces.Config.Pieces
import Droidspaces.Config.Spellings

/-!
# The C types of a configuration

A configuration is loaded into a `struct ds_config`: its texts are C strings, its numbers have the
range of their types.  `isTyped_load` says so of whatever is loaded by name, on a host whose files
hold no zero bytes.
-/

namespace Droidspaces.Config

open CustomBinds

/-- A character that a C string can have. -/
def IsCChar (c : Char) : Prop := 0 < c.toNat ∧ c.toNat < 256

/-- The value has C strings for its texts. -/
def IsCValue : (k : Key) → k.Value → Prop
  | .text _, t => ∀ c ∈ t, IsCChar c
  | .rootfs, r => (∀ c ∈ r.path, IsCChar c) ∧ ∀ c ∈ r.img, IsCChar c
  | .binds, l => ∀ b ∈ l, (∀ c ∈ b.src, IsCChar c) ∧ ∀ c ∈ b.dest, IsCChar c
  | _, _ => True

/-- The values have the types of `struct ds_config`. -/
structure IsTyped (cfg : DsConfig) : Prop where
  texts : ∀ k, ∀ c ∈ cfg.value (.text k), IsCChar c
  path : ∀ c ∈ (cfg.value .rootfs).path, IsCChar c
  img : ∀ c ∈ (cfg.value .rootfs).img, IsCChar c
  limit : ∀ l, cfg.value (.limit l) < 2 ^ 63
  privileged : cfg.value .privileged < 2 ^ 31
  ports : ∀ pf ∈ cfg.value .portForwards, pf.hostPort < 2 ^ 16 ∧ pf.hostPortEnd < 2 ^ 16 ∧
    pf.containerPort < 2 ^ 16 ∧ pf.containerPortEnd < 2 ^ 16
  binds : ∀ b ∈ cfg.value .binds, (∀ c ∈ b.src, IsCChar c) ∧ ∀ c ∈ b.dest, IsCChar c

/-- Files are C strings, and so is what becomes of a path. -/
structure IsCHost (sys : System) (host : ProcHost) : Prop where
  resolve : ∀ t, (∀ c ∈ t, IsCChar c) → ∀ c ∈ sys.resolve t, IsCChar c
  file : ∀ name t, host.files name = some t → ∀ c ∈ t, IsCChar c
  snapshot : ∀ p ∈ host.procs, ∀ t, p.config = some t → ∀ c ∈ t, IsCChar c

/-! ## What is read -/

variable {sys : System} {t u val : Text}

theorem trim_subset (t : Text) : trim t ⊆ t :=
  List.Subset.trans (List.rdropWhile_prefix _ _).subset (List.dropWhile_suffix _).subset

theorem takeWhile_subset (p : Char → Bool) (t : Text) : t.takeWhile p ⊆ t :=
  (List.takeWhile_prefix p).subset

theorem isCValue_bindMount {b : BindMount} (hresolve : ∀ t, (∀ c ∈ t, IsCChar c) →
    ∀ c ∈ sys.resolve t, IsCChar c) (ht : ∀ c ∈ t, IsCChar c)
    (h : parseBindMount sys.resolve t = some b) :
    (∀ c ∈ b.src, IsCChar c) ∧ ∀ c ∈ b.dest, IsCChar c := by
  unfold parseBindMount at h
  have hrest := List.dropWhile_suffix (l := t) (· != ':')
  cases hdrop : t.dropWhile (· != ':') with
  | nil => rw [hdrop] at h; cases h
  | cons d rest =>
    rw [hdrop] at h hrest
    simp only [Option.ite_none_right_eq_some, Option.some.injEq] at h
    obtain ⟨-, rfl⟩ := h
    exact ⟨hresolve _ fun c hc => ht c (takeWhile_subset _ t (trim_subset _ hc)),
      hresolve _ fun c hc => ht c (hrest.subset
        (List.mem_cons_of_mem d (takeWhile_subset _ rest (trim_subset _ hc))))⟩

theorem IsCValue.accept {k : Key} {v : k.Value} (hresolve : ∀ t, (∀ c ∈ t, IsCChar c) →
    ∀ c ∈ sys.resolve t, IsCChar c) (h : IsCValue k v) (hval : ∀ c ∈ val, IsCChar c) :
    IsCValue k (accept sys k val v) := by
  cases k with
  | text k =>
    rw [Config.accept]
    split
    · rw [TextKey.stored]
      split
      · exact fun c hc => hval c (List.mem_of_mem_take hc)
      · exact hval
    · exact h
  | rootfs =>
    rw [Config.accept, acceptRootfs]
    obtain ⟨hpath, himg⟩ := h
    have hnil : ∀ c ∈ ([] : Text), IsCChar c := fun c hc => absurd hc List.not_mem_nil
    split
    · refine ⟨?_, hval⟩
      dsimp only
      split
      · exact hpath
      · exact hnil
    · refine ⟨hval, ?_⟩
      dsimp only
      split
      · exact hnil
      · exact himg
  | binds =>
    refine List.foldlRecOn (motive := IsCValue .binds) _ _ h fun binds hbinds tok htok => ?_
    have htok : ∀ c ∈ tok, IsCChar c := fun c hc =>
      hval c (List.mem_of_mem_take (subset_of_mem_tokens htok hc))
    cases hparse : parseBindMount sys.resolve tok with
    | none => exact hbinds
    | some b =>
      dsimp only
      rw [addBind]
      split
      · exact hbinds
      · intro e he
        rcases List.mem_append.1 he with he | he
        · exact hbinds e he
        · rw [List.mem_singleton.1 he]
          exact isCValue_bindMount hresolve htok hparse
  | _ => trivial

theorem isCValue_load {cfg : DsConfig} (hresolve : ∀ t, (∀ c ∈ t, IsCChar c) →
    ∀ c ∈ sys.resolve t, IsCChar c) (h : ∀ k, IsCValue k (cfg.value k))
    (ht : ∀ c ∈ t, IsCChar c) (k : Key) : IsCValue k ((dsConfigLoad sys t cfg).value k) := by
  rw [dsConfigLoad_value]
  refine List.foldlRecOn (motive := IsCValue k) _ _ (h k) fun v hv val hval => ?_
  refine hv.accept hresolve fun c hc => ht c ?_
  obtain ⟨line, hline, hentry⟩ := List.mem_filterMap.1 hval
  obtain ⟨e, he, hsome⟩ := Option.bind_eq_some_iff.1 hentry
  simp only [Option.ite_none_right_eq_some, Option.some.injEq] at hsome
  obtain ⟨-, rfl⟩ := hsome
  refine subset_of_mem_fgets hline ?_
  simp only [lineEntry, Option.ite_none_left_eq_some, Option.some.injEq] at he
  obtain ⟨-, rfl⟩ := he
  exact trim_subset line
    ((List.dropWhile_suffix _).subset (List.mem_of_mem_drop (trim_subset _ hc)))

theorem isTyped_of_values {cfg : DsConfig} (hbuilt : ∀ k, IsBuilt k (cfg.value k))
    (htext : ∀ k, IsCValue k (cfg.value k)) : IsTyped cfg where
  texts k := htext (.text k)
  path := (htext .rootfs).1
  img := (htext .rootfs).2
  limit l :=
    have hmax : llongMax < 2 ^ 63 := by decide
    Nat.lt_of_le_of_lt (hbuilt (.limit l)) hmax
  privileged := by
    rcases hbuilt .privileged with h | h
    · exact Nat.lt_trans h (by decide)
    · rw [show cfg.value .privileged = 255 from h]
      decide
  ports pf hpf := by
    obtain ⟨⟨-, hhost, hhost'⟩, ⟨-, hcont, hcont'⟩, -, -⟩ := (hbuilt .portForwards).mapping pf hpf
    omega
  binds := htext .binds

/-- **What is loaded by name has the types of `struct ds_config`.** -/
theorem isTyped_load {host : ProcHost} {android : Bool} {name : Text} {cfg : DsConfig}
    (hhost : IsCHost sys host)
    (h : dsConfigLoadByName sys android host name zeroed = some cfg) : IsTyped cfg := by
  have hbuilt : ∀ k, IsBuilt k (zeroed.value k) := by
    intro k
    cases k with
    | netMode => trivial
    | _ => exact isBuilt_defaults _
  have htext : ∀ k, IsCValue k (zeroed.value k) := by
    intro k
    have hnil : ∀ c ∈ ([] : Text), IsCChar c := fun c hc => absurd hc List.not_mem_nil
    cases k with
    | text k => exact hnil
    | rootfs => exact ⟨hnil, hnil⟩
    | binds => exact fun b hb => absurd hb List.not_mem_nil
    | _ => trivial
  have hload {t : Text} (ht : ∀ c ∈ t, IsCChar c) : IsTyped (dsConfigLoad sys t zeroed) :=
    isTyped_of_values (IsBuiltUp.load hbuilt t).value
      (isCValue_load hhost.resolve htext ht)
  unfold dsConfigLoadByName at h
  split at h
  · cases hsnapshot : (findContainerByName host.procs name).bind Proc.config with
    | some t =>
      rw [hsnapshot] at h
      obtain rfl := Option.some.inj h
      obtain ⟨p, hp, hconfig⟩ := Option.bind_eq_some_iff.1 hsnapshot
      refine hload (hhost.snapshot p ?_ t hconfig)
      unfold findContainerByName at hp
      split at hp
      · cases hp
      · exact List.mem_of_find?_eq_some hp
    | none =>
      rw [hsnapshot] at h
      obtain rfl := Option.some.inj h
      cases hfile : host.files (hostConfigOf android name) with
      | none => exact isTyped_of_values hbuilt htext
      | some t => exact hload (hhost.file _ t hfile)
  · cases h

end Droidspaces.Config
