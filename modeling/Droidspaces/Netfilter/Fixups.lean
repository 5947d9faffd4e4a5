import Droidspaces.Netfilter.Edits

/-!
# Jumps after an edit

When entries move, the verdicts of standard targets that jump have to follow.  The two fix-ups walk
the new blob from entry to entry and differ in what they make of a verdict, so they are one walk,
`rebase`; `rebase_flatten` says that it changes every entry by itself.
-/

namespace Droidspaces.Netfilter

open Binary

/-- Change the verdict of every standard target. -/
def rebase (f : ℤ → ℤ) : ℕ → Bytes → Bytes
  | 0, rest => rest
  | n + 1, rest =>
    if rest.isEmpty || nextOffset rest < entrySize || rest.length < nextOffset rest then rest
    else
      let rest := if isStandard rest then setVerdict rest (f (verdict rest)) else rest
      rest.take (nextOffset rest) ++ rebase f n (rest.drop (nextOffset rest))

/-- `fixup_jump_targets` -/
def fixupJumpTargets (blob : Bytes) (insertOff delta : ℕ) : Bytes :=
  rebase (fun v => if (insertOff : ℤ) ≤ v then v + delta else v) blob.length blob

/-- `fixup_jump_targets_removed` -/
def fixupJumpTargetsRemoved (blob : Bytes) (oldOffsets removedBefore : List ℕ) : Bytes :=
  rebase (fun v =>
    if 0 ≤ v then
      match (oldOffsets.zip removedBefore).find? fun p => (p.1 : ℤ) = v with
      | some p => v - p.2
      | none => v
    else v) blob.length blob

/-- What a walk makes of one entry. -/
def fix (f : ℤ → ℤ) (e : Bytes) : Bytes :=
  if isStandard e then setVerdict e (f (verdict e)) else e

section Walk

variable {e : Bytes} (h : IsEntry e)
include h

theorem IsEntry.setVerdict_append (hstandard : isStandard e = true) (v : ℤ) (rest : Bytes) :
    setVerdict (e ++ rest) v = setVerdict e v ++ rest := by
  have hfits := h.verdict_fits hstandard
  have hlen : targetOffset e + targetHeaderSize + (ofInt32 v).length ≤ e.length := by
    rwa [length_ofInt32]
  rw [setVerdict, h.targetOffset_append, splice, List.take_append_of_le_length (by omega),
    List.drop_append_of_le_length hlen, ← List.append_assoc, setVerdict, splice]

theorem IsEntry.isEntry_fix (f : ℤ → ℤ) : IsEntry (fix f e) := by
  unfold fix
  split
  · next hstandard => exact h.isEntry_setVerdict hstandard _
  · exact h

theorem IsEntry.fix_append (f : ℤ → ℤ) (rest : Bytes) :
    (if isStandard (e ++ rest) then setVerdict (e ++ rest) (f (verdict (e ++ rest)))
      else e ++ rest) = fix f e ++ rest := by
  rw [h.isStandard_append, fix]
  split
  · next hstandard =>
    have hsize := targetSize_of_isStandard hstandard
    rw [h.verdict_append hsize.ge, h.setVerdict_append hstandard]
  · rfl

end Walk

/-- **A walk changes every entry by itself.** -/
theorem rebase_flatten (f : ℤ → ℤ) {es : List Bytes} (h : ∀ e ∈ es, IsEntry e) {n : ℕ}
    (hn : es.length ≤ n) : rebase f n es.flatten = (es.map (fix f)).flatten := by
  induction es generalizing n with
  | nil =>
    cases n with
    | zero => rfl
    | succ n => simp [rebase]
  | cons e es ih =>
    obtain ⟨he, hes⟩ := List.forall_mem_cons.1 h
    obtain ⟨n, rfl⟩ : ∃ k, n = k + 1 := ⟨n - 1, by rw [List.length_cons] at hn; omega⟩
    have hpos := he.pos
    have hlong := he.le_length
    have hgo : ¬((e ++ es.flatten).isEmpty || nextOffset (e ++ es.flatten) < entrySize ||
        (e ++ es.flatten).length < nextOffset (e ++ es.flatten)) = true := by
      have hne : e ++ es.flatten ≠ [] := by
        intro hnil
        rw [(List.append_eq_nil_iff.1 hnil).1] at hpos
        exact absurd hpos (by decide)
      simp only [he.nextOffset_append, Bool.or_eq_true, List.isEmpty_iff, hne, decide_eq_true_eq,
        List.length_append, false_or]
      omega
    rw [List.flatten_cons, rebase, if_neg hgo]
    simp only [he.fix_append]
    rw [(he.isEntry_fix f).nextOffset_append, List.take_left, List.drop_left,
      ih hes (by rw [List.length_cons] at hn; omega), List.map_cons, List.flatten_cons]

/-- An entry that does not jump stays if negative verdicts do. -/
theorem fix_of_not_isJump {f : ℤ → ℤ} (hf : ∀ v < 0, f v = v) {e : Bytes} (he : IsEntry e)
    (hjump : isJump e = false) : fix f e = e := by
  unfold fix
  split
  · next hstandard =>
    have hneg : verdict e < 0 := by
      simpa [isJump, hstandard] using hjump
    rw [hf _ hneg]
    exact he.setVerdict_verdict hstandard
  · rfl

/-- **An entry of one ruleset becomes that of another**, if the walk sends places to places. -/
theorem fix_encode {A B : Ruleset} (hA : A.Valid) {f : ℤ → ℤ} {g : ℕ → ℕ} (hf : ∀ v < 0, f v = v)
    (hplace : ∀ i < A.rules.length, f (A.offset i) = B.offset (g i)) {r : Rule}
    (hr : r ∈ A.rules) : fix f (A.encode r) = B.encode ⟨r.bytes, r.jump.map g⟩ := by
  have hjump := hA.isJump r hr
  cases hi : r.jump with
  | none =>
    rw [hi, Option.isSome_none] at hjump
    simp only [Ruleset.encode, hi, Option.map_none]
    exact fix_of_not_isJump hf (hA.isEntry r hr) hjump.symm
  | some i =>
    have hstandard := hA.isStandard_of_jump hr hi
    have hverdict := hA.verdict_encode hr hi
    simp only [Ruleset.encode, hi] at hverdict
    simp only [Ruleset.encode, hi, Option.map_some]
    rw [fix, if_pos ((hA.isEntry r hr).isStandard_setVerdict hstandard _), hverdict,
      (hA.isEntry r hr).setVerdict_setVerdict hstandard, hplace i (hA.jump_lt r hr i hi)]

/-- There are no more entries than bytes. -/
theorem length_le_length_flatten {es : List Bytes} (h : ∀ e ∈ es, IsEntry e) :
    es.length ≤ es.flatten.length := by
  induction es with
  | nil => exact Nat.zero_le _
  | cons e es ih =>
    obtain ⟨he, hes⟩ := List.forall_mem_cons.1 h
    have hpos := he.pos
    have hrest := ih hes
    rw [List.length_cons, List.flatten_cons, List.length_append]
    omega

theorem flatten_injective {es es' : List Bytes} (h : ∀ e ∈ es, IsEntry e)
    (h' : ∀ e ∈ es', IsEntry e) (heq : es.flatten = es'.flatten) : es = es' := by
  induction es generalizing es' with
  | nil =>
    have hle := length_le_length_flatten h'
    rw [← heq] at hle
    exact (List.eq_nil_of_length_eq_zero (Nat.le_zero.1 hle)).symm
  | cons e es ih =>
    obtain ⟨he, hes⟩ := List.forall_mem_cons.1 h
    cases es' with
    | nil =>
      have hle := length_le_length_flatten h
      rw [heq] at hle
      exact absurd hle (Nat.not_succ_le_zero _)
    | cons e' es' =>
      obtain ⟨he', hes'⟩ := List.forall_mem_cons.1 h'
      rw [List.flatten_cons, List.flatten_cons] at heq
      have hlength : e.length = e'.length := by
        rw [← he.nextOffset_append es.flatten, heq, he'.nextOffset_append]
      obtain ⟨rfl, hrest⟩ := List.append_inj heq hlength
      rw [ih hes hes' hrest]

/-- A table has one list of entries. -/
theorem Tiles.unique {T : Table} {es es' : List Bytes} (h : Tiles T es) (h' : Tiles T es') :
    es = es' :=
  flatten_injective h.isEntry h'.isEntry (h.blob.symm.trans h'.blob)

/-- The blob from an entry on. -/
theorem drop_start {es : List Bytes} (i : ℕ) :
    es.flatten.drop (start (sizesOf es) i) = (es.drop i).flatten := by
  induction es generalizing i with
  | nil => simp [sizesOf]
  | cons e es ih =>
    cases i with
    | zero => simp
    | succ i =>
      rw [sizesOf_cons, start_cons_succ, List.flatten_cons, ← List.drop_drop, List.drop_left]
      exact ih i

/-- What the walk has before it at a rule. -/
theorem Represents.drop_blob {T : Table} {A : Ruleset} (h : Represents T A) {i : ℕ} (hi : i < A.rules.length) :
    ∃ rest, T.blob.drop (A.offset i) = A.encode A.rules[i] ++ rest := by
  rw [h.blob, Ruleset.blob, Ruleset.offset, ← h.valid.sizesOf_encode, drop_start,
    List.drop_eq_getElem_cons (by rwa [List.length_map]), List.flatten_cons, List.getElem_map]
  exact ⟨_, rfl⟩

/-- The blob with a new entry. -/
theorem flatten_insertIdx (e : Bytes) {es : List Bytes} {k : ℕ} (hk : k ≤ es.length) :
    (es.insertIdx k e).flatten = es.flatten.take (start (sizesOf es) k) ++ e ++
      es.flatten.drop (start (sizesOf es) k) := by
  induction k generalizing es with
  | zero => simp
  | succ k ih =>
    obtain ⟨b, es, rfl⟩ := List.exists_cons_of_length_pos (Nat.lt_of_lt_of_le k.succ_pos hk)
    have hrest := ih (Nat.le_of_succ_le_succ hk)
    rw [List.insertIdx_succ_cons, List.flatten_cons, hrest, sizesOf_cons, start_cons_succ,
      List.flatten_cons, List.take_length_add_append, ← List.drop_drop, List.drop_left]
    simp only [List.append_assoc]

end Droidspaces.Netfilter
