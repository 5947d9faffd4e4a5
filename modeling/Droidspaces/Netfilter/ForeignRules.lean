import Droidspaces.Netfilter.HostRules

/-!
# Rules of others

The code must not touch rules that it did not make.  It removes what has the fingerprint of its
rules, and the fingerprint does not look at match extensions, protocol, fragment flag, most
inversions, and more: a narrower rule of somebody else goes too.  `removals_delete_ours_iff` says
exactly when a removal deletes only rules that ask the same of a packet as the one the code made.
-/

namespace Droidspaces.Netfilter

open Binary Transition

/-! ## What a removal deletes -/

/-- Where an entry jumps is not a condition of it. -/
theorem Ruleset.Valid.condition_encode {A : Ruleset} (hA : A.Valid) {r : Rule} (hr : r ∈ A.rules) :
    condition (A.encode r) = condition r.bytes := by
  unfold Ruleset.encode
  split
  · rfl
  · next i hi =>
    have he := hA.isEntry r hr
    have hge := he.target_ge
    have hstandard := hA.isStandard_of_jump hr hi
    have hfield (off n : ℕ) (hoff : off + n ≤ entrySize) :
        field off n (setVerdict r.bytes (A.offset i)) = field off n r.bytes :=
      he.header_setVerdict hstandard hoff _
    have hextensions : field entrySize (targetOffset r.bytes - entrySize)
        (setVerdict r.bytes (A.offset i)) =
          field entrySize (targetOffset r.bytes - entrySize) r.bytes :=
      he.field_setVerdict hstandard (by omega) _
    simp (disch := decide) only [condition, he.targetOffset_setVerdict hstandard, hextensions,
      proto, flags, invflags, iniface, outiface, inifaceMask, outifaceMask, hfield]

/-- Every entry with another condition is there as before. -/
def DeletesOnly (c : Condition) (T T' : Table) : Prop :=
  ∀ es es', Tiles T es → Tiles T' es' →
    (es'.map condition).filter (· ≠ c) = (es.map condition).filter (· ≠ c)

/-- Whatever the walk leaves out for a rule is as `Bare` as that rule. -/
def NoLookalike (slot : Slot) (T : Table) : Prop :=
  ∀ es, Tiles T es → ∀ (i : ℕ) e, es[i]? = some e →
    removes T slot.hook slot.kind.fingerprint (start (sizesOf es) i) e = true → slot.kind.Bare e

theorem deletesOnly_iff {T T' : Table} {A : Ruleset} {marks : List Bool} (h : Represents T A)
    (h' : Represents T' (A.delete marks)) (c : Condition) :
    DeletesOnly c T T' ↔
      ∀ (i : ℕ) r, marks[i]? = some true → A.rules[i]? = some r → condition r.bytes = c := by
  have hentries : DeletesOnly c T T' ↔
      (((A.delete marks).rules.map (A.delete marks).encode).map condition).filter (· ≠ c) =
        ((A.rules.map A.encode).map condition).filter (· ≠ c) := by
    constructor
    · exact fun hdeletes => hdeletes _ _ h.tiles h'.tiles
    · intro heq es es' hes hes'
      rw [hes.unique h.tiles, hes'.unique h'.tiles, heq]
  have hold : (A.rules.map A.encode).map condition = A.rules.map fun r => condition r.bytes := by
    rw [List.map_map]
    exact List.map_congr_left fun r hr => h.valid.condition_encode hr
  have hnew : ((A.delete marks).rules.map (A.delete marks).encode).map condition =
      kept marks (A.rules.map fun r => condition r.bytes) := by
    rw [List.map_map, kept_map]
    refine (List.map_congr_left fun r hr => h'.valid.condition_encode hr).trans ?_
    rw [Ruleset.delete, List.map_map]
    rfl
  rw [hentries, hold, hnew, filter_kept_eq_iff]
  constructor
  · intro hmarked i r hi hr
    have hcondition := hmarked i (condition r.bytes) hi (by rw [List.getElem?_map, hr]; rfl)
    simpa using hcondition
  · intro hmarked i c' hi hc'
    rw [List.getElem?_map, Option.map_eq_some_iff] at hc'
    obtain ⟨r, hr, rfl⟩ := hc'
    simp [hmarked i r hi hr]

/-- **A removal deletes only rules like ours** if nothing else looks like one. -/
theorem deletesOnly_removal_iff {T T' : Table} (hT : WellFormed T) {slot : Slot}
    (hT' : removal slot.hook slot.kind.fingerprint T = some T') :
    DeletesOnly (condition slot.kind.rule) T T' ↔ NoLookalike slot T := by
  obtain ⟨A, hA⟩ := wellFormed_iff.1 hT
  rw [deletesOnly_iff hA (represents_removal hA hT')]
  have hbare {i : ℕ} (hi : i < A.rules.length)
      (hmark : (A.ours slot.hook slot.kind.fingerprint)[i]? = some true) :
      condition A.rules[i].bytes = condition slot.kind.rule ↔
        slot.kind.Bare (A.encode A.rules[i]) := by
    have hr := List.getElem_mem hi
    obtain ⟨r, hget, -, -, -, hours, -⟩ := Ruleset.ours_eq_true.1 hmark
    rw [List.getElem?_eq_getElem hi, Option.some.injEq] at hget
    rw [← hget, ← hA.valid.isOurs_encode hr] at hours
    rw [← hA.valid.condition_encode hr]
    exact condition_eq_iff (hA.valid.isEntry_encode hr) hours
  have hentry {i : ℕ} (hi : i < A.rules.length) :
      (A.rules.map A.encode)[i]? = some (A.encode A.rules[i]) := by
    rw [List.getElem?_map, List.getElem?_eq_getElem hi, Option.map_some]
  constructor
  · intro hmarked es hes i e he hremoves
    obtain rfl := hes.unique hA.tiles
    have hi : i < A.rules.length := by
      have hlt := (List.getElem?_eq_some_iff.1 he).1
      rwa [List.length_map] at hlt
    obtain rfl := Option.some.inj ((hentry hi).symm.trans he)
    rw [hA.valid.sizesOf_encode] at hremoves
    have hmark := (hA.removes_encode_iff _ _ hi).1 hremoves
    exact (hbare hi hmark).1 (hmarked i _ hmark (List.getElem?_eq_getElem hi))
  · intro hplain i r hmark hr
    obtain ⟨hi, rfl⟩ := List.getElem?_eq_some_iff.1 hr
    have hremoves := (hA.removes_encode_iff _ _ hi).2 hmark
    rw [Ruleset.offset, ← hA.valid.sizesOf_encode] at hremoves
    exact (hbare hi hmark).2 (hplain _ hA.tiles i _ (hentry hi) hremoves)

/-! ## Whole removals -/

/-- Every submission is the removal of one of the rules, and deletes only rules like it exactly if
nothing else looks like it. -/
def RemovesAmong (slots : List Slot) (T T' : Table) : Prop :=
  WellFormed T → ∃ slot ∈ slots, removal slot.hook slot.kind.fingerprint T = some T' ∧
    (DeletesOnly (condition slot.kind.rule) T T' ↔ NoLookalike slot T)

theorem removeSlot_follows {slots : List Slot} {slot : Slot} (hslot : slot ∈ slots) (T : Table) :
    (removeSlot slot).Follows lastRead (Submits (RemovesAmong slots)) T := by
  simp only [removeSlot, getTable, Prog.perform_bind]
  refine ⟨trivial, fun answer => ?_⟩
  cases answer with
  | error _ => trivial
  | ok S =>
    show (removeMatchingRules slot.name S slot.hook slot.kind.fingerprint).Follows lastRead _ S
    unfold removeMatchingRules
    split
    · exact submit_follows (fun T T' hT' hT => ⟨slot, hslot, hT', deletesOnly_removal_iff hT hT'⟩)
        slot.name 5 S
    · trivial

/-- **Removal and the rules of others**: whatever the two functions submit deletes only rules that
ask what the rule of ours asks, exactly if no other rule of the chain has its fingerprint. -/
theorem removals_delete_ours_iff (T : Table) :
    removeDsRules.Follows lastRead (Submits (RemovesAmong dsSlots)) T ∧
      ∀ iface, (removeIfaceRules iface).Follows lastRead
        (Submits (RemovesAmong (ifaceSlots iface))) T := by
  constructor
  · simp only [removeDsRules, openRawSocket, Prog.perform_bind]
    refine ⟨trivial, fun fd => ?_⟩
    refine Prog.follows_bind (Prog.follows_forM (fun slot hslot S => ?_) _) fun _ _ =>
      ⟨trivial, fun _ => trivial⟩
    cases fd with
    | true =>
      refine Prog.follows_bind (removeSlot_follows hslot S) fun rc S => ?_
      cases rc with
      | ok _ => trivial
      | error _ => exact ⟨trivial, fun _ => trivial⟩
    | false => exact ⟨trivial, fun _ => trivial⟩
  · intro iface
    simp only [removeIfaceRules, openRawSocket, Prog.perform_bind]
    refine ⟨trivial, fun fd => ?_⟩
    cases fd with
    | true =>
      refine Prog.follows_forM (fun slot hslot S => ?_) _
      exact Prog.follows_bind (removeSlot_follows hslot S) fun _ _ => trivial
    | false =>
      refine Prog.follows_forM (fun slot _ S => ?_) _
      exact ⟨trivial, fun _ => trivial⟩

/-- A rule of somebody else, for TCP only. -/
def tcpForward : Ruleset :=
  filterWith [⟨splice 80 (ofNat 2 6) (acceptRule natBridge false), none⟩] acceptVerdict

theorem tcpForward_valid : tcpForward.Valid := by
  decide +kernel

theorem tcp_rule_deleted : ¬∀ (T T' : Table) (slot : Slot), slot ∈ dsSlots → WellFormed T →
    removal slot.hook slot.kind.fingerprint T = some T' →
      DeletesOnly (condition slot.kind.rule) T T' := by
  intro hclaim
  have hA := tcpForward_valid.represents_table
  cases hT' : removal .forward (forwardIn natBridge).kind.fingerprint tcpForward.table with
  | none =>
    refine not_mem_ours_of_removal hA hT' ?_
    decide +kernel
  | some T' =>
    have hdeletes := hclaim _ T' (forwardIn natBridge) (by simp [dsSlots, ifaceSlots])
      (wellFormed_iff.2 ⟨_, hA⟩) hT'
    have hcondition := (deletesOnly_iff hA (represents_removal hA hT') _).1 hdeletes 1 _
      (by decide +kernel) rfl
    revert hcondition
    decide +kernel

end Droidspaces.Netfilter
