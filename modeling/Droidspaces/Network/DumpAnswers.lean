import Droidspaces.Network.Dumps
import Droidspaces.Network.Uplink

/-!
# What a dump tells

How the kernel writes its links, routes and rules down in a dump, and that every loop of
`netlink.c` finds in the dump what the kernel holds.
-/

namespace Droidspaces.Network

open Binary Netlink

/-! ## A dump -/

/-- The messages of one datagram, which fit into the buffer. -/
structure InDatagram (ms : List Msg) : Prop where
  nonempty : ms ≠ []
  fits : ∀ m ∈ ms, m.Fits
  size : (ms.flatMap Msg.encode).length ≤ nlBufsize

/-- The payloads of the messages of one type. -/
def payloads (newType : ℕ) (ms : List Msg) : List Bytes :=
  (ms.filter (·.type = newType)).map Msg.payload

/-- A dump, cut into datagrams anywhere between two messages, with the payloads of the messages of
one type in it.  Messages of other types may stand between them.  Behind the dump there may be more
on the socket. -/
inductive Dumped (newType : ℕ) : List Bytes → List Recv → List Recv → Prop
  | last (ms : List Msg) (done : Msg) (rest : List Recv) (h : InDatagram (ms ++ [done]))
      (hms : ∀ m ∈ ms, m.type ≠ nlmsgDone) (hdone : done.type = nlmsgDone) :
      Dumped newType (payloads newType ms)
        (.datagram ((ms ++ [done]).flatMap Msg.encode) :: rest) rest
  | more (ms : List Msg) {ps : List Bytes} {stream rest : List Recv} (h : InDatagram ms)
      (hms : ∀ m ∈ ms, m.type ≠ nlmsgDone) (hlater : Dumped newType ps stream rest) :
      Dumped newType (payloads newType ms ++ ps) (.datagram (ms.flatMap Msg.encode) :: stream) rest

section Dump

variable {σ : Type} {newType : ℕ} {f : σ → Bytes → σ} {ms : List Msg}

theorem foldlM_dumpStep (h : ∀ m ∈ ms, m.type ≠ nlmsgDone) (s : σ) :
    ms.foldlM (dumpStep newType f) s = .ok ((payloads newType ms).foldl f s) := by
  induction ms generalizing s with
  | nil => rfl
  | cons m ms ih =>
    obtain ⟨hm, hms⟩ := List.forall_mem_cons.1 h
    rw [List.foldlM_cons, dumpStep, if_neg hm]
    by_cases htype : m.type = newType
    · rw [if_neg (not_not.2 htype), payloads, List.filter_cons_of_pos (by simpa using htype)]
      exact ih hms _
    · rw [if_pos htype, payloads, List.filter_cons_of_neg (by simpa using htype)]
      exact ih hms _

theorem forDatagram_eq {ρ : Type} (h : InDatagram ms) (step : σ → Msg → Except ρ σ) (s : σ) :
    forDatagram step ((ms.flatMap Msg.encode).take nlBufsize) s = some (ms.foldlM step s) := by
  have hsize := h.size
  have hlen : ms.length < (ms.flatMap Msg.encode).length + 1 := by
    refine Nat.lt_succ_of_le ?_
    clear hsize h
    induction ms with
    | nil => exact Nat.zero_le _
    | cons m ms ih =>
      rw [List.flatMap_cons, List.length_append, m.length_encode, List.length_cons]
      omega
  rw [List.take_of_length_le hsize]
  rw [nlBufsize] at hsize
  exact forMsgs_flatMap step h.fits hlen rfl (by omega) s

theorem take_ne_nil (h : InDatagram ms) : (ms.flatMap Msg.encode).take nlBufsize ≠ [] := by
  rw [List.take_of_length_le h.size]
  obtain ⟨m, ms, rfl⟩ := List.exists_cons_of_ne_nil h.nonempty
  rw [List.flatMap_cons]
  refine List.append_ne_nil_of_left_ne_nil ?_ _
  exact List.ne_nil_of_length_pos (by rw [m.length_encode]; omega)

/-- **A dump is read to its end, and no further.** -/
theorem dump_spec {ps : List Bytes} {stream rest : List Recv} (h : Dumped newType ps stream rest)
    (s : σ) : dump newType f stream s = some (ps.foldl f s, rest) := by
  induction h generalizing s with
  | last ms done rest h hms hdone =>
    have hfold : (ms ++ [done]).foldlM (dumpStep newType f) s =
        .error ((payloads newType ms).foldl f s) := by
      rw [List.foldlM_append, foldlM_dumpStep hms]
      change List.foldlM (dumpStep newType f) _ [done] = _
      rw [List.foldlM_cons, dumpStep, if_pos hdone]
      rfl
    rw [dump]
    simp only [if_neg (take_ne_nil h), forDatagram_eq h, hfold]
    rfl
  | more ms h hms _ ih =>
    rw [dump]
    simp only [if_neg (take_ne_nil h), forDatagram_eq h, foldlM_dumpStep hms]
    rw [List.foldl_append]
    exact ih _

end Dump

/-! ## What a message tells -/

/-- Behind the first `n` bytes of the payload stand attributes. -/
structure HasAttrs (n : ℕ) (payload : Bytes) (as : List Attr) : Prop where
  fits : ∀ a ∈ as, a.Fits
  drop : payload.drop n = as.flatMap Attr.encode

/-- The number that the one attribute of a type holds, or the default if there is none. -/
def Says (as : List Attr) (type v default : ℕ) : Prop :=
  (v < 256 ^ 4 ∧ as.filter (·.type = type) = [⟨type, ofNat 4 v⟩]) ∨
    (v = default ∧ as.filter (·.type = type) = [])

/-- A name that a link can have. -/
structure IsName (n : Iface) : Prop where
  ne_nil : n ≠ []
  short : n.length < 16
  codes : ∀ c ∈ n, 0 < c.toNat ∧ c.toNat < 256

theorem isName_of_all {n : Iface} (hne : n ≠ []) (hshort : n.length < 16)
    (hcodes : n.all (fun c => 0 < c.toNat && c.toNat < 256) = true) : IsName n :=
  ⟨hne, hshort, fun c hc => by simpa using List.all_eq_true.1 hcodes c hc⟩

def nameBytes (n : Iface) : Bytes := n.map fun c => UInt8.ofNat c.toNat

/-- The name that the one attribute of a type holds, with its zero. -/
def SaysName (as : List Attr) (type : ℕ) (n : Iface) : Prop :=
  as.filter (·.type = type) = [⟨type, nameBytes n ++ [0]⟩]

/-- The indices of the links, as `if_nametoindex` and `if_indextoname` know them. -/
structure Ifindex (k : Kernel) where
  index : Iface → ℕ
  name : ℤ → Iface
  index_pos : ∀ n, k.linkExists n = true → 0 < index n
  index_none : ∀ n, k.linkExists n = false → index n = 0
  index_lt : ∀ n, index n < 2 ^ 31
  name_index : ∀ n, k.linkExists n = true → name (index n) = n
  /-- Every link has a name. -/
  nil : k.linkExists [] = false

/-- An `RTM_NEWLINK` about a link and the index of its master. -/
def TellsLink (n : Iface) (master : ℕ) (payload : Bytes) : Prop :=
  ∃ as, HasAttrs 16 payload as ∧ SaysName as 3 n ∧ Says as 10 master 0

/-- An `RTM_NEWROUTE` about a route. -/
structure TellsRoute {k : Kernel} (x : Ifindex k) (r : Route) (as : List Attr) (payload : Bytes) :
    Prop where
  attrs : HasAttrs 12 payload as
  family : headByte 0 payload = 2
  dstLen : headByte 1 payload = r.dstLen
  unicast : headByte 7 payload = 1 ↔ r.unicast = true
  table : Says as 15 r.table (headByte 4 payload)
  table_lt : r.table < 2 ^ 31
  oif : Says as 4 (if r.oif = [] then 0 else x.index r.oif) 0
  exists_oif : r.oif = [] ∨ k.linkExists r.oif = true
  metric : Says as 6 r.metric 0

/-- An `RTM_NEWRULE` about a rule. -/
structure TellsRule (r : PolicyRule) (as : List Attr) (payload : Bytes) : Prop where
  attrs : HasAttrs 12 payload as
  family : headByte 0 payload = 2
  action : headByte 7 payload = 1 ↔ r.toTable = true
  src : headByte 2 payload = 0 ↔ r.src = none
  dst : headByte 1 payload = 0 ↔ r.dst = none
  table : Says as 15 r.table (headByte 4 payload)
  table_lt : r.table < 2 ^ 31
  prio : Says as 6 r.prio 0
  fwmark : Says as 10 r.fwmark 0
  fwmask : Says as 16 r.fwmask 0
  iif : (r.iif = [] ∧ as.filter (·.type = 3) = []) ∨ (IsName r.iif ∧ SaysName as 3 r.iif)
  uidRange : (∃ a ∈ as, a.type = 20) ↔ r.uidRange = true

section Attrs

variable {as : List Attr} {payload : Bytes}

theorem HasAttrs.attrs_eq {n : ℕ} (h : HasAttrs n payload as) : attrs (payload.drop n) = as := by
  rw [h.drop, attrs_flatMap h.fits]

theorem nlRtaU32_ofNat {v : ℕ} (h : v < 256 ^ 4) : nlRtaU32 (ofNat 4 v) = v := by
  rw [nlRtaU32, length_ofNat, if_pos le_rfl, List.take_of_length_le (length_ofNat 4 v).le,
    toNat_ofNat, Nat.mod_eq_of_lt h]

/-- A loop over attributes in which each one of a type overwrites what is noted of it. -/
theorem Says.foldl_eq {type v default : ℕ} (h : Says as type v default) :
    as.foldl (fun v a => if a.type = type then nlRtaU32 a.data else v) default = v := by
  have hfilter : as.foldl (fun v a => if a.type = type then nlRtaU32 a.data else v) default =
      (as.filter (·.type = type)).foldl (fun _ a => nlRtaU32 a.data) default := by
    rw [List.foldl_filter]
    simp only [decide_eq_true_eq]
  rcases h with ⟨hlt, h⟩ | ⟨rfl, h⟩
  · rw [hfilter, h, List.foldl_cons, List.foldl_nil, nlRtaU32_ofNat hlt]
  · rw [hfilter, h, List.foldl_nil]

theorem nameOf_nameBytes {n : Iface} (h : IsName n) : nameOf (nameBytes n ++ [0]) = n := by
  have hcode : ∀ c ∈ n, (UInt8.ofNat c.toNat).toNat = c.toNat := fun c hc =>
    UInt8.toNat_ofNat_of_lt' (h.codes c hc).2
  have hne : ∀ b ∈ nameBytes n, decide (b ≠ 0) = true := by
    intro b hb
    obtain ⟨c, hc, rfl⟩ := List.mem_map.1 hb
    refine decide_eq_true fun hzero => ?_
    have hpos := (h.codes c hc).1
    rw [← hcode c hc, hzero] at hpos
    exact absurd hpos (by decide)
  have hlen : (nameBytes n).length ≤ 15 := by
    rw [nameBytes, List.length_map]
    exact Nat.le_of_lt_succ h.short
  rw [nameOf, List.takeWhile_append_of_pos hne, List.takeWhile_cons_of_neg (by decide),
    List.append_nil, List.take_of_length_le hlen, nameBytes, List.map_map]
  refine (List.map_congr_left fun c hc => ?_).trans (List.map_id n)
  rw [Function.comp_apply, hcode c hc, Char.ofNat_toNat, id]

theorem firstName_eq (as : List Attr) :
    firstName as = ((as.filter (·.type = 3)).head?.map fun a => nameOf a.data).getD [] := by
  induction as with
  | nil => rfl
  | cons a as ih =>
    rw [firstName]
    split
    · next h => rw [List.filter_cons_of_pos (by simpa using h)]; rfl
    · next h => rw [List.filter_cons_of_neg (by simpa using h), ih]

theorem SaysName.firstName_eq {n : Iface} (h : SaysName as 3 n) (hn : IsName n) :
    firstName as = n := by
  rw [Network.firstName_eq, h]
  exact nameOf_nameBytes hn

/-- The same loop with names. -/
theorem foldl_name (as : List Attr) (type : ℕ) (s : Iface) :
    as.foldl (fun s a => if a.type = type then nameOf a.data else s) s =
      (as.filter (·.type = type)).foldl (fun _ a => nameOf a.data) s := by
  rw [List.foldl_filter]
  simp only [decide_eq_true_eq]

theorem SaysName.foldl_eq {type : ℕ} {n : Iface} (h : SaysName as type n) (hn : IsName n)
    (s : Iface) :
    as.foldl (fun s a => if a.type = type then nameOf a.data else s) s = n := by
  rw [foldl_name, h, List.foldl_cons, List.foldl_nil, nameOf_nameBytes hn]

theorem foldl_memberAttr (as : List Attr) (s : Iface × ℕ) :
    as.foldl memberAttr s =
      (as.foldl (fun s a => if a.type = 3 then nameOf a.data else s) s.1,
        as.foldl (fun v a => if a.type = 10 then nlRtaU32 a.data else v) s.2) := by
  induction as generalizing s with
  | nil => rfl
  | cons a as ih =>
    rw [List.foldl_cons, ih, memberAttr]
    by_cases hname : a.type = 3
    · simp [hname]
    · by_cases hmaster : a.type = 10 <;> simp [hname, hmaster]

theorem foldl_tableAttr (as : List Attr) (s : ℕ × ℕ) :
    as.foldl tableAttr s =
      (as.foldl (fun v a => if a.type = 15 then nlRtaU32 a.data else v) s.1,
        as.foldl (fun v a => if a.type = 4 then nlRtaU32 a.data else v) s.2) := by
  induction as generalizing s with
  | nil => rfl
  | cons a as ih =>
    rw [List.foldl_cons, ih, tableAttr]
    by_cases htable : a.type = 15
    · simp [htable]
    · by_cases hoif : a.type = 4 <;> simp [htable, hoif]

theorem foldl_oifAttr (as : List Attr) (s : ℕ × ℕ × ℕ) :
    as.foldl oifAttr s =
      (as.foldl (fun v a => if a.type = 15 then nlRtaU32 a.data else v) s.1,
        as.foldl (fun v a => if a.type = 4 then nlRtaU32 a.data else v) s.2.1,
        as.foldl (fun v a => if a.type = 6 then nlRtaU32 a.data else v) s.2.2) := by
  induction as generalizing s with
  | nil => rfl
  | cons a as ih =>
    rw [List.foldl_cons, ih, oifAttr]
    by_cases htable : a.type = 15
    · simp [htable]
    · by_cases hoif : a.type = 4
      · simp [hoif]
      · by_cases hmetric : a.type = 6 <;> simp [htable, hoif, hmetric]

theorem foldl_ruleAttr (as : List Attr) (i : RuleInfo) :
    as.foldl ruleAttr i =
      { table := as.foldl (fun v a => if a.type = 15 then nlRtaU32 a.data else v) i.table
        prio := as.foldl (fun v a => if a.type = 6 then nlRtaU32 a.data else v) i.prio
        fwmark := as.foldl (fun v a => if a.type = 10 then nlRtaU32 a.data else v) i.fwmark
        fwmask := as.foldl (fun v a => if a.type = 16 then nlRtaU32 a.data else v) i.fwmask
        haveMark := i.haveMark || as.any (·.type = 10)
        haveMask := i.haveMask || as.any (·.type = 16)
        haveUidrange := i.haveUidrange || as.any (·.type = 20)
        iifname := as.foldl (fun s a => if a.type = 3 then nameOf a.data else s) i.iifname } := by
  induction as generalizing i with
  | nil => simp
  | cons a as ih =>
    rw [List.foldl_cons, ih, ruleAttr]
    by_cases h15 : a.type = 15
    · simp [h15]
    by_cases h6 : a.type = 6
    · simp [h6]
    by_cases h10 : a.type = 10
    · simp [h10]
    by_cases h16 : a.type = 16
    · simp [h16]
    by_cases h3 : a.type = 3
    · simp [h3]
    by_cases h20 : a.type = 20
    · simp [h20]
    · simp [h15, h6, h10, h16, h3, h20]

/-- There is an attribute of a type if it says anything but the default. -/
theorem Says.any_eq {type v default : ℕ} (h : Says as type v default) (hne : v ≠ default) :
    as.any (·.type = type) = true := by
  rcases h with ⟨-, h⟩ | ⟨rfl, -⟩
  · have hmem : (⟨type, ofNat 4 v⟩ : Attr) ∈ as.filter (·.type = type) := by
      rw [h]
      exact List.mem_singleton_self _
    exact List.any_eq_true.2 ⟨_, (List.mem_filter.1 hmem).1, (List.mem_filter.1 hmem).2⟩
  · exact absurd rfl hne

end Attrs

/-! ## From messages to the kernel -/

/-- Two loops that go through what belongs together. -/
theorem foldl_forall₂ {α β σ τ : Type} {Tells : α → β → Prop} {R : σ → τ → Prop} {f : σ → β → σ}
    {g : τ → α → τ} (step : ∀ s t a b, R s t → Tells a b → R (f s b) (g t a)) {l : List α}
    {ps : List β} (h : List.Forall₂ Tells l ps) {s : σ} {t : τ} (hst : R s t) :
    R (ps.foldl f s) (l.foldl g t) := by
  induction h generalizing s t with
  | nil => exact hst
  | cons htells _ ih => exact ih (step _ _ _ _ hst htells)

section Links

variable {n : Iface} {master : ℕ} {payload : Bytes}

theorem TellsLink.firstName_eq (h : TellsLink n master payload) (hn : IsName n) :
    firstName (linkAttrs payload) = n := by
  obtain ⟨as, hattrs, hname, -⟩ := h
  rw [linkAttrs, hattrs.attrs_eq, hname.firstName_eq hn]

theorem TellsLink.foldl_eq (h : TellsLink n master payload) (hn : IsName n) :
    (linkAttrs payload).foldl memberAttr ([], 0) = (n, master) := by
  obtain ⟨as, hattrs, hname, hmaster⟩ := h
  rw [linkAttrs, hattrs.attrs_eq, foldl_memberAttr, hname.foldl_eq hn, hmaster.foldl_eq]

/-- A loop that keeps what it is asked for as long as there is room. -/
theorem foldl_keep {α : Type} (p : α → Bool) (max : ℕ) (l kept : List α) (h : kept.length ≤ max) :
    l.foldl (fun kept a => if p a = true ∧ kept.length < max then kept ++ [a] else kept) kept =
      kept ++ (l.filter p).take (max - kept.length) := by
  induction l generalizing kept with
  | nil => simp
  | cons a l ih =>
    rw [List.foldl_cons]
    by_cases hroom : kept.length < max
    · by_cases ha : p a = true
      · obtain ⟨k, hk⟩ := Nat.exists_eq_add_one.2 (Nat.sub_pos_of_lt hroom)
        have hk' : max - (kept ++ [a]).length = k := by
          rw [List.length_append, List.length_singleton]
          omega
        rw [if_pos ⟨ha, hroom⟩, ih _ (by rw [List.length_append, List.length_singleton]; omega),
          hk', hk, List.filter_cons_of_pos ha, List.take_succ_cons, List.append_assoc,
          List.singleton_append]
      · rw [if_neg fun h => ha h.1, ih _ h, List.filter_cons_of_neg ha]
    · rw [if_neg fun h => hroom h.2, ih _ h, Nat.sub_eq_zero_of_le (Nat.le_of_not_lt hroom),
        List.take_zero, List.take_zero]

/-- A dump of links and of the indices of their masters. -/
def TellsLinks (ls : List (Iface × ℕ)) (stream rest : List Recv) : Prop :=
  ∃ ps, Dumped rtmNewlink ps stream rest ∧
    List.Forall₂ (fun l p => IsName l.1 ∧ TellsLink l.1 l.2 p) ls ps

variable {ls : List (Iface × ℕ)} {stream rest : List Recv}

/-- What a loop over links finds if it does to each message what `g` does to the link. -/
theorem TellsLinks.dump_eq {σ : Type} (h : TellsLinks ls stream rest) {f : σ → Bytes → σ}
    {g : σ → Iface × ℕ → σ}
    (hstep : ∀ s l p, IsName l.1 → TellsLink l.1 l.2 p → f s p = g s l) (s : σ) :
    dump rtmNewlink f stream s = some (ls.foldl g s, rest) := by
  obtain ⟨ps, hdumped, hall⟩ := h
  have hfold : ps.foldl f s = ls.foldl g s :=
    foldl_forall₂ (R := Eq) (fun s t l p hst ht => hst ▸ hstep s l p ht.1 ht.2) hall rfl
  rw [dump_spec hdumped, hfold]

theorem TellsLinks.nlListIfaces_eq (h : TellsLinks ls stream rest) (max : ℕ) :
    nlListIfaces max stream = some ((ls.map Prod.fst).take max, rest) := by
  have hstep (names : List Iface) (l : Iface × ℕ) (p : Bytes) (hn : IsName l.1)
      (hl : TellsLink l.1 l.2 p) : listStep max names p =
        if true = true ∧ names.length < max then names ++ [l.1] else names := by
    simp only [listStep, hl.firstName_eq hn, ne_eq, hn.ne_nil, not_false_eq_true, true_and]
  have hkeep := foldl_keep (fun _ : Iface => true) max (ls.map Prod.fst) [] (Nat.zero_le max)
  rw [List.foldl_map] at hkeep
  rw [nlListIfaces, h.dump_eq hstep, hkeep, List.nil_append, List.length_nil, Nat.sub_zero,
    List.filter_true]

/-- **At most 64 links with the prefix are found to be stale.** -/
theorem TellsLinks.staleVeths_eq (h : TellsLinks ls stream rest) (pre : Iface) :
    staleVeths pre stream =
      some (((ls.map Prod.fst).filter pre.isPrefixOf).take 64, rest) := by
  have hstep (stale : List Iface) (l : Iface × ℕ) (p : Bytes) (hn : IsName l.1)
      (hl : TellsLink l.1 l.2 p) : staleStep pre stale p =
        if pre.isPrefixOf l.1 = true ∧ stale.length < 64 then stale ++ [l.1] else stale := by
    simp only [staleStep, hl.firstName_eq hn, ne_eq, hn.ne_nil, not_false_eq_true, true_and]
  have hkeep := foldl_keep pre.isPrefixOf 64 (ls.map Prod.fst) [] (Nat.zero_le 64)
  rw [List.foldl_map] at hkeep
  rw [staleVeths, h.dump_eq hstep, hkeep, List.nil_append, List.length_nil, Nat.sub_zero]

theorem foldl_count {α : Type} (p : α → Bool) (l : List α) (count : ℕ) :
    l.foldl (fun count a => if p a = true then count + 1 else count) count =
      count + l.countP p := by
  induction l generalizing count with
  | nil => rfl
  | cons a l ih =>
    rw [List.foldl_cons, ih]
    by_cases ha : p a = true
    · rw [if_pos ha, List.countP_cons_of_pos ha]
      omega
    · rw [if_neg ha, List.countP_cons_of_neg ha]

theorem TellsLinks.nlCountIfacesWithPrefix_eq (h : TellsLinks ls stream rest) (pre : Iface) :
    nlCountIfacesWithPrefix pre stream =
      some (ls.countP fun l => pre.isPrefixOf l.1, rest) := by
  have hstep (count : ℕ) (l : Iface × ℕ) (p : Bytes) (hn : IsName l.1)
      (hl : TellsLink l.1 l.2 p) : countStep pre count p =
        if pre.isPrefixOf l.1 = true then count + 1 else count := by
    simp only [countStep, hl.firstName_eq hn, ne_eq, hn.ne_nil, not_false_eq_true, true_and]
  rw [nlCountIfacesWithPrefix, h.dump_eq hstep,
    foldl_count (fun l : Iface × ℕ => pre.isPrefixOf l.1) ls, Nat.zero_add]

theorem TellsLinks.nlCountBridgeMembersWithPrefix_eq (h : TellsLinks ls stream rest) {brIdx : ℕ}
    (hbr : brIdx ≠ 0) (pre : Iface) :
    nlCountBridgeMembersWithPrefix brIdx pre stream =
      some (ls.countP fun l => l.2 = brIdx && pre.isPrefixOf l.1, rest) := by
  have hstep (count : ℕ) (l : Iface × ℕ) (p : Bytes) (hn : IsName l.1)
      (hl : TellsLink l.1 l.2 p) : memberStep brIdx pre count p =
        if (l.2 = brIdx && pre.isPrefixOf l.1) = true then count + 1 else count := by
    simp only [memberStep, hl.foldl_eq hn, ne_eq, hn.ne_nil, not_false_eq_true, true_and,
      Bool.and_eq_true, decide_eq_true_eq]
  rw [nlCountBridgeMembersWithPrefix, if_neg hbr, h.dump_eq hstep,
    foldl_count (fun l : Iface × ℕ => l.2 = brIdx && pre.isPrefixOf l.1) ls, Nat.zero_add]

theorem foldl_filter_ne (stale links : List Iface) :
    stale.foldl (fun links n => links.filter (· ≠ n)) links = links.filter (· ∉ stale) := by
  induction stale generalizing links with
  | nil => simp
  | cons n stale ih =>
    rw [List.foldl_cons, ih, List.filter_filter]
    refine List.filter_congr fun m _ => ?_
    simp [Bool.and_comm]

/-- What a deletion of the first 64 leaves. -/
theorem forall_left_iff {p : Iface → Bool} {names : List Iface} (h : names.Nodup) :
    (∀ n ∈ names.filter (· ∉ (names.filter p).take 64), p n = false) ↔ names.countP p ≤ 64 := by
  rw [List.countP_eq_length_filter]
  constructor
  · intro hleft
    by_contra hmany
    have hlt : 64 < (names.filter p).length := Nat.lt_of_not_le hmany
    have hget : (names.filter p)[64] ∈ names.filter p := List.getElem_mem hlt
    obtain ⟨hmem, hp⟩ := List.mem_filter.1 hget
    have hnot : (names.filter p)[64] ∉ (names.filter p).take 64 := by
      intro htake
      obtain ⟨i, hi, heq⟩ := List.getElem_of_mem htake
      rw [List.length_take] at hi
      rw [List.getElem_take] at heq
      have := (h.filter p).getElem_inj_iff.1 heq
      omega
    have hfalse := hleft _ (List.mem_filter.2 ⟨hmem, decide_eq_true hnot⟩)
    rw [hp] at hfalse
    cases hfalse
  · intro hfew n hn
    rw [List.take_of_length_le hfew] at hn
    obtain ⟨hmem, hnot⟩ := List.mem_filter.1 hn
    by_contra hp
    exact of_decide_eq_true hnot (List.mem_filter.2 ⟨hmem, Bool.eq_true_of_not_eq_false hp⟩)

def doneMsg : Msg where
  type := 3
  flags := 2
  seq := 7
  pid := 100
  payload := [0, 0, 0, 0]

def linkAttrsOf (n : Iface) (master : ℕ) : List Attr :=
  [⟨3, nameBytes n ++ [0]⟩, ⟨10, ofNat 4 master⟩]

def linkMsg (n : Iface) (master : ℕ) : Msg where
  type := 16
  flags := 2
  seq := 7
  pid := 100
  payload := List.replicate 16 0 ++ (linkAttrsOf n master).flatMap Attr.encode

end Links

section Routes

variable {k : Kernel} (x : Ifindex k)

/-- A dump of routes. -/
def TellsRoutes (rs : List Route) (stream rest : List Recv) : Prop :=
  ∃ ps, Dumped rtmNewroute ps stream rest ∧
    List.Forall₂ (fun r p => ∃ as, TellsRoute x r as p) rs ps

variable {x} {r : Route} {as : List Attr} {payload : Bytes}

theorem toInt32_ofNat {v : ℕ} (h : v < 2 ^ 31) : toInt32 (ofNat 4 v) = v := by
  have hv : toNat (ofNat 4 v) = v := by
    rw [toNat_ofNat, Nat.mod_eq_of_lt (by omega)]
  rw [toInt32, hv, if_pos h]

/-- Two links do not have one index. -/
theorem Ifindex.index_inj {n n' : Iface} (hn : k.linkExists n = true)
    (hn' : k.linkExists n' = true) (h : x.index n = x.index n') : n = n' := by
  rw [← x.name_index n hn, h, x.name_index n' hn']

theorem Ifindex.ne_nil (x : Ifindex k) {n : Iface} (hn : k.linkExists n = true) : n ≠ [] := by
  rintro rfl
  rw [x.nil] at hn
  cases hn

theorem TellsRoute.oif_eq_iff (h : TellsRoute x r as payload) {n : Iface}
    (hn : k.linkExists n = true) :
    (if r.oif = [] then 0 else x.index r.oif) = x.index n ↔ r.oif = n := by
  have hpos := x.index_pos n hn
  have hne := x.ne_nil hn
  by_cases hoif : r.oif = []
  · rw [if_pos hoif, hoif]
    exact ⟨fun h => absurd h.symm hpos.ne', fun h => absurd h.symm hne⟩
  · rw [if_neg hoif]
    exact ⟨x.index_inj (h.exists_oif.resolve_left hoif) hn, congrArg x.index⟩

theorem TellsRoute.tableStep_eq (h : TellsRoute x r as payload) {n : Iface}
    (hn : k.linkExists n = true) (found : ℕ × ℕ) :
    tableStep (x.index n) found payload = Kernel.ifaceTableStep n found r := by
  have hattrs : routeAttrs payload = as := h.attrs.attrs_eq
  have hoif := h.oif_eq_iff hn
  rw [tableStep, Kernel.ifaceTableStep, h.family, h.dstLen, hattrs, foldl_tableAttr,
    h.table.foldl_eq, h.oif.foldl_eq]
  simp only [hoif, h.unicast, ne_eq, not_true_eq_false, false_or]
  by_cases hunicast : r.unicast = true <;> by_cases hlen : found.2 ≤ r.dstLen <;>
    by_cases heq : r.oif = n <;> simp [hunicast, hlen, heq]

theorem TellsRoutes.nlGetIfaceTable_eq {stream rest : List Recv}
    (h : TellsRoutes x k.routes stream rest) {n : Iface} (hn : k.linkExists n = true) :
    nlGetIfaceTable (x.index n) stream = some ((k.ifaceTable n).map Nat.cast, rest) := by
  obtain ⟨ps, hdumped, hall⟩ := h
  have hstep (s t : ℕ × ℕ) (r : Route) (p : Bytes) (hst : s = t ∧ t.1 < 2 ^ 31)
      (hr : ∃ as, TellsRoute x r as p) :
      tableStep (x.index n) s p = Kernel.ifaceTableStep n t r ∧
        (Kernel.ifaceTableStep n t r).1 < 2 ^ 31 := by
    obtain ⟨as, hr⟩ := hr
    refine ⟨hst.1 ▸ hr.tableStep_eq hn s, ?_⟩
    rw [Kernel.ifaceTableStep]
    split
    · exact hr.table_lt
    · exact hst.2
  have hstart : (0, 8) = ((0, 8) : ℕ × ℕ) ∧ ((0, 8) : ℕ × ℕ).1 < 2 ^ 31 := ⟨rfl, by decide⟩
  obtain ⟨hfold, hbound⟩ := foldl_forall₂ hstep hall hstart
  rw [nlGetIfaceTable, if_neg (x.index_pos n hn).ne', dump_spec hdumped, hfold, Option.map_some,
    Kernel.ifaceTable, if_pos hn]
  simp only [toInt32_ofNat hbound]
  split
  · rfl
  · rfl

/-- What is noted of a route on the wire, for what is noted of it in the kernel. -/
def OnWire (x : Ifindex k) (best : Option (ℤ × ℕ)) (best' : Option (Iface × ℕ)) : Prop :=
  best = best'.map (fun b => ((x.index b.1 : ℤ), b.2)) ∧ ∀ b ∈ best', k.linkExists b.1 = true

theorem TellsRoute.oifStep_eq (h : TellsRoute x r as payload) (table : ℤ)
    {best : Option (ℤ × ℕ)} {best' : Option (Iface × ℕ)} (hbest : OnWire x best best') :
    OnWire x (oifStep table best payload) (Kernel.defaultOifStep table best' r) := by
  have hattrs : routeAttrs payload = as := h.attrs.attrs_eq
  have hfamily := h.family
  have hunicast := h.unicast
  unfold oifStep Kernel.defaultOifStep
  rw [h.dstLen, hattrs, foldl_oifAttr, h.table.foldl_eq, h.oif.foldl_eq, h.metric.foldl_eq]
  simp only [toInt32_ofNat h.table_lt]
  by_cases hroute : r.dstLen = 0 ∧ r.unicast = true ∧ r.table = table ∧ r.oif ≠ []
  · obtain ⟨hlen, huni, htable, hne⟩ := id hroute
    have hexists := h.exists_oif.resolve_left hne
    have hpos := x.index_pos _ hexists
    have hhead : ¬ (headByte 0 payload ≠ 2 ∨ r.dstLen ≠ 0 ∨ headByte 7 payload ≠ 1) := by
      rw [hfamily, hlen, hunicast.2 huni]
      decide
    have hmatch : ¬ ((r.table : ℤ) ≠ table ∨ (x.index r.oif : ℤ) ≤ 0) := by
      rw [htable]
      omega
    simp only [if_neg hne, toInt32_ofNat (x.index_lt r.oif)]
    rw [if_neg hhead, if_neg hmatch, if_pos hroute]
    obtain ⟨rfl, hin⟩ := hbest
    cases best' with
    | none => exact ⟨rfl, fun b hb => Option.some.inj hb ▸ hexists⟩
    | some b =>
      rw [Option.map_some]
      dsimp only
      split
      · exact ⟨rfl, fun b hb => Option.some.inj hb ▸ hexists⟩
      · exact ⟨rfl, hin⟩
  · rw [if_neg hroute]
    split
    · exact hbest
    · next hhead =>
      rw [not_or, not_or, not_not, not_not, not_not] at hhead
      obtain ⟨-, hlen, huni⟩ := hhead
      have hskip : (r.table : ℤ) ≠ table ∨
          toInt32 (ofNat 4 (if r.oif = [] then 0 else x.index r.oif)) ≤ 0 := by
        by_cases hoif : r.oif = []
        · rw [if_pos hoif]
          exact .inr (by decide)
        · exact .inl fun htable => hroute ⟨hlen, hunicast.1 huni, htable, hoif⟩
      rw [if_pos hskip]
      exact hbest

theorem TellsRoutes.nlGetTableDefaultOif_eq {stream rest : List Recv}
    (h : TellsRoutes x k.routes stream rest) (table : ℤ) :
    nlGetTableDefaultOif x.name table stream = some (k.tableDefaultOif table, rest) := by
  obtain ⟨ps, hdumped, hall⟩ := h
  have hstart : OnWire x none none := ⟨rfl, by simp⟩
  have hfold := foldl_forall₂ (R := OnWire x)
    (fun s t r p hst ⟨as, hr⟩ => hr.oifStep_eq table hst) hall hstart
  obtain ⟨hwire, hin⟩ := hfold
  rw [nlGetTableDefaultOif, dump_spec hdumped, Option.map_some, hwire, Kernel.tableDefaultOif]
  cases hbest : k.routes.foldl (Kernel.defaultOifStep table) none with
  | none => rfl
  | some b =>
    have hexists := hin b hbest
    simp only [Option.map_some, Option.bind_some, x.name_index _ hexists,
      if_neg (x.ne_nil hexists)]

end Routes

section Rules

/-- A dump of rules. -/
def TellsRules (rs : List PolicyRule) (stream rest : List Recv) : Prop :=
  ∃ ps, Dumped rtmNewrule ps stream rest ∧
    List.Forall₂ (fun r p => ∃ as, TellsRule r as p) rs ps

variable {r : PolicyRule} {as : List Attr} {payload : Bytes}

theorem TellsRule.foldl_eq (h : TellsRule r as payload) :
    ∃ i : RuleInfo, (routeAttrs payload).foldl ruleAttr { table := headByte 4 payload } = i ∧
      i.table = r.table ∧ i.prio = r.prio ∧ i.fwmark = r.fwmark ∧ i.fwmask = r.fwmask ∧
      (r.fwmark ≠ 0 → i.haveMark = true) ∧ (r.fwmask ≠ 0 → i.haveMask = true) ∧
      i.haveUidrange = r.uidRange ∧ i.iifname = r.iif := by
  have hattrs : routeAttrs payload = as := h.attrs.attrs_eq
  have hname : as.foldl (fun s a => if a.type = 3 then nameOf a.data else s) [] = r.iif := by
    rcases h.iif with ⟨hnil, hnone⟩ | ⟨hn, hname⟩
    · rw [foldl_name, hnone, hnil, List.foldl_nil]
    · exact hname.foldl_eq hn []
  refine ⟨_, rfl, ?_⟩
  rw [hattrs, foldl_ruleAttr]
  refine ⟨h.table.foldl_eq, h.prio.foldl_eq, h.fwmark.foldl_eq, h.fwmask.foldl_eq,
    fun hne => ?_, fun hne => ?_, ?_, hname⟩
  · exact h.fwmark.any_eq hne
  · exact h.fwmask.any_eq hne
  · refine Bool.eq_iff_iff.2 (Iff.trans ?_ h.uidRange)
    simp

theorem TellsRule.ruleStep_eq (h : TellsRule r as payload) {best : Option (ℤ × ℕ)}
    {best' : Option (ℕ × ℕ)} (hbest : best = best'.map fun b => ((b.1 : ℤ), b.2)) :
    ruleStep best payload =
      (if Kernel.isNetdDefault r = true then Kernel.netdDefaultStep best' r else best').map
        fun b => ((b.1 : ℤ), b.2) := by
  obtain ⟨i, hi, htable, hprio, hmark, hmask, haveMark, haveMask, huid, hiif⟩ := h.foldl_eq
  have hfamily := h.family
  have htoInt : toInt32 (ofNat 4 i.table) = r.table := by rw [htable, toInt32_ofNat h.table_lt]
  rw [ruleStep]
  simp only [hi, htoInt, hprio]
  by_cases hdefault : Kernel.isNetdDefault r = true
  · rw [if_pos hdefault]
    simp only [Kernel.isNetdDefault, Bool.and_eq_true, Option.isNone_iff_eq_none, beq_iff_eq,
      Bool.not_eq_true', decide_eq_true_eq] at hdefault
    obtain ⟨⟨⟨⟨⟨⟨⟨hto, hsrc⟩, hdst⟩, hffff⟩, hzero⟩, hlo⟩, hnouid⟩, hpos⟩ := hdefault
    have hhave : i.haveMask = true := haveMask (by omega)
    rw [if_neg (not_not.2 hfamily), if_neg (not_not.2 (h.action.2 hto)),
      if_neg (by rw [h.src.2 hsrc, h.dst.2 hdst]; decide),
      if_neg (by rw [hhave, hmask, hffff]; decide), if_neg (by rw [hmark, hzero]; simp),
      if_neg (by rw [hiif]; exact not_not.2 hlo), if_neg (by rw [huid, hnouid]; decide),
      if_neg (by omega), hbest]
    cases best' with
    | none => rfl
    | some b =>
      rw [Option.map_some, Kernel.netdDefaultStep]
      dsimp only
      split <;> rfl
  · rw [if_neg hdefault]
    split
    · exact hbest
    split
    · exact hbest
    split
    · exact hbest
    split
    · exact hbest
    split
    · exact hbest
    split
    · exact hbest
    split
    · exact hbest
    split
    · exact hbest
    · next hto hsel hmasked hmarked hlo hnouid hpos =>
      refine absurd ?_ hdefault
      rw [not_or, not_not, not_not] at hsel
      rw [not_or, not_not, hmask] at hmasked
      have hzero : r.fwmark = 0 := by
        by_contra hne
        exact hmarked ⟨haveMark hne, hmark ▸ hne⟩
      simp only [Kernel.isNetdDefault, Bool.and_eq_true, Option.isNone_iff_eq_none, beq_iff_eq,
        Bool.not_eq_true', decide_eq_true_eq]
      exact ⟨⟨⟨⟨⟨⟨⟨h.action.1 (not_not.1 hto), h.src.1 hsel.1⟩, h.dst.1 hsel.2⟩, hmasked.2⟩,
        hzero⟩, hiif ▸ not_not.1 hlo⟩, huid ▸ Bool.eq_false_iff.2 hnouid⟩, by omega⟩

theorem TellsRules.nlGetAndroidDefault_eq {k : Kernel} {stream rest : List Recv}
    (h : TellsRules k.rules stream rest) :
    nlGetAndroidDefault stream = some (k.netdDefault.map Nat.cast, rest) := by
  obtain ⟨ps, hdumped, hall⟩ := h
  have hfold := foldl_forall₂
    (R := fun (best : Option (ℤ × ℕ)) (best' : Option (ℕ × ℕ)) =>
      best = best'.map fun b => ((b.1 : ℤ), b.2))
    (fun s t r p hst ⟨as, hr⟩ => hr.ruleStep_eq hst) hall (show none = Option.map _ none from rfl)
  rw [nlGetAndroidDefault, dump_spec hdumped, Option.map_some, hfold, Kernel.netdDefault,
    List.foldl_filter]
  simp only [Option.map_map]
  rfl

end Rules

/-! ## Uplink detection on the wire -/

section Wire

variable {k : Kernel} (x : Ifindex k)

/-- The answer to a query, from what is on the socket once it is asked, and what is left there.
Whether an interface runs is asked of an `ioctl`. -/
def dumpAnswer : (q : Query) → List Recv → Option (q.Res × List Recv)
  | .ifaceIsRunning n, stream => some (k.ifaceIsRunning n, stream)
  | .listIfaces, stream => nlListIfaces maxIfaces stream
  | .ifaceTable n, stream => nlGetIfaceTable (x.index n) stream
  | .tableDefaultOif table, stream => nlGetTableDefaultOif x.name table stream
  | .netdDefault, stream => nlGetAndroidDefault stream

/-- What the kernel puts on the socket for a query: a dump, if one is asked for. -/
def TellsQuery : Query → List Recv → List Recv → Prop
  | .ifaceIsRunning _, stream, rest => stream = rest
  | .listIfaces, stream, rest =>
    ∃ ls : List (Iface × ℕ), ls.map Prod.fst = k.links.map Link.name ∧ TellsLinks ls stream rest
  | .ifaceTable n, stream, rest =>
    if k.linkExists n = true then TellsRoutes x k.routes stream rest else stream = rest
  | .tableDefaultOif _, stream, rest => TellsRoutes x k.routes stream rest
  | .netdDefault, stream, rest => TellsRules k.rules stream rest

theorem dumpAnswer_eq {q : Query} {stream rest : List Recv}
    (h : TellsQuery x q stream rest) :
    dumpAnswer x q stream = some (k.answer q, rest) := by
  cases q with
  | ifaceIsRunning n => rw [dumpAnswer, show stream = rest from h]; rfl
  | listIfaces =>
    obtain ⟨ls, hlinks, htells⟩ := h
    rw [dumpAnswer, htells.nlListIfaces_eq, hlinks]
    rfl
  | ifaceTable n =>
    rw [TellsQuery] at h
    by_cases hn : k.linkExists n = true
    · rw [if_pos hn] at h
      exact h.nlGetIfaceTable_eq hn
    · rw [if_neg hn] at h
      rw [dumpAnswer, nlGetIfaceTable, if_pos (x.index_none n (Bool.eq_false_iff.2 hn)), h,
        Kernel.answer, Kernel.ifaceTable, if_neg hn]
      rfl
  | tableDefaultOif table => exact TellsRoutes.nlGetTableDefaultOif_eq h table
  | netdDefault => exact TellsRules.nlGetAndroidDefault_eq h

variable {α : Type}

/-- A program of queries on a socket: what it returns, and what it leaves on the socket. -/
def evalOn : Detect α → List Recv → Option (α × List Recv)
  | .ret a, stream => some (a, stream)
  | .call q cont, stream =>
    match dumpAnswer x q stream with
    | none => none
    | some (r, stream) => evalOn (cont r) stream

/-- The kernel puts its dumps on the socket, one for each query that the program comes to. -/
def Serves : Detect α → List Recv → List Recv → Prop
  | .ret _, stream, rest => stream = rest
  | .call q cont, stream, rest =>
    ∃ mid, TellsQuery x q stream mid ∧ Serves (cont (k.answer q)) mid rest

/-- **Uplink detection reads the kernel.**  A program of queries, such as `find_active_uplink`,
finds in the bytes of the dumps what it finds in the state that the kernel has written down, and
leaves nothing of a dump on the socket. -/
theorem detect_on_wire (m : Detect α) (stream rest : List Recv) (h : Serves x m stream rest) :
    evalOn x m stream = some (m.eval k.answer, rest) := by
  induction m generalizing stream with
  | ret a =>
    rw [evalOn, show stream = rest from h]
    rfl
  | call q cont ih =>
    obtain ⟨mid, hquery, hserves⟩ := h
    rw [evalOn, dumpAnswer_eq x hquery]
    exact ih _ mid hserves

end Wire

/-- A host with one link and a default route. -/
def wiredKernel : Kernel where
  rules := []
  routes := [⟨254, 0, "eth0".toList, 100, true⟩]
  links := [⟨"eth0".toList, true⟩]
  filter := []

theorem linkExists_wiredKernel (n : Iface) :
    wiredKernel.linkExists n = true ↔ n = "eth0".toList := by
  change ("eth0".toList == n || false) = true ↔ n = "eth0".toList
  rw [Bool.or_false, beq_iff_eq, eq_comm]

def wiredIndex : Ifindex wiredKernel where
  index n := if n = "eth0".toList then 2 else 0
  name i := if i = 2 then "eth0".toList else []
  index_pos n h := by
    rw [if_pos ((linkExists_wiredKernel n).1 h)]
    decide
  index_none n h := if_neg fun hn => by simp [(linkExists_wiredKernel n).2 hn] at h
  index_lt n := by split <;> decide
  name_index n h := by
    rw [if_pos ((linkExists_wiredKernel n).1 h), (linkExists_wiredKernel n).1 h]
    rfl
  nil := by decide

def routeMsg : Msg where
  type := 24
  flags := 2
  seq := 7
  pid := 100
  payload := [2, 0, 0, 0, 254, 3, 0, 1, 0, 0, 0, 0] ++
    [⟨15, ofNat 4 254⟩, ⟨6, ofNat 4 100⟩, ⟨4, ofNat 4 2⟩].flatMap Attr.encode

def hostPlatform : Platform where
  android := false
  fnmatch _ _ := false

/-- The end of the dump comes in a datagram of its own. -/
theorem detect_on_wire_default :
    evalOn wiredIndex (findActiveUplink hostPlatform [])
      [.datagram ([routeMsg].flatMap Msg.encode), .datagram ([doneMsg].flatMap Msg.encode)] =
        some (some ("eth0".toList, 254), []) := by
  have hroute : InDatagram [routeMsg] :=
    ⟨by decide, List.forall_mem_singleton.2 ⟨by decide, by decide, by decide, by decide, by decide⟩,
      by decide⟩
  have hdone : InDatagram ([] ++ [doneMsg]) :=
    ⟨by decide, List.forall_mem_singleton.2 ⟨by decide, by decide, by decide, by decide, by decide⟩,
      by decide⟩
  have hdump : Dumped rtmNewroute [routeMsg.payload]
      [.datagram ([routeMsg].flatMap Msg.encode), .datagram ([doneMsg].flatMap Msg.encode)] [] :=
    .more [routeMsg] hroute (by decide) (.last [] doneMsg [] hdone (by decide) rfl)
  have hfits : ∀ a ∈ ([⟨15, ofNat 4 254⟩, ⟨6, ofNat 4 100⟩, ⟨4, ofNat 4 2⟩] : List Attr), a.Fits :=
    List.forall_mem_cons.2 ⟨⟨by decide, by decide⟩,
      List.forall_mem_cons.2 ⟨⟨by decide, by decide⟩,
        List.forall_mem_singleton.2 ⟨by decide, by decide⟩⟩⟩
  have htells : TellsRoute wiredIndex ⟨254, 0, "eth0".toList, 100, true⟩
      [⟨15, ofNat 4 254⟩, ⟨6, ofNat 4 100⟩, ⟨4, ofNat 4 2⟩] routeMsg.payload :=
    { attrs := ⟨hfits, by decide⟩
      family := by decide
      dstLen := by decide
      unicast := by decide
      table := .inl (by decide)
      table_lt := by decide
      oif := .inl (by decide)
      exists_oif := .inr (by decide)
      metric := .inl (by decide) }
  have hroutes : TellsRoutes wiredIndex wiredKernel.routes
      [.datagram ([routeMsg].flatMap Msg.encode), .datagram ([doneMsg].flatMap Msg.encode)] [] :=
    ⟨_, hdump, .cons ⟨_, htells⟩ .nil⟩
  exact detect_on_wire wiredIndex (findActiveUplink hostPlatform []) _ []
    ⟨[], hroutes, [], rfl, rfl⟩

end Droidspaces.Network
