import Droidspaces.Resources.CpuFiles
import Mathlib.Data.List.Sort

/-!
# The CPUs of a limited container

A container whose CPU time is limited is shown as many CPUs as it may use at a time, in four places
that are made one by one: by the numbers of the CPUs in `cpuinfo` and `stat`, as a range from 0 in
`/sys/devices/system/cpu`, and by counting in the affinity mask.  `views_agree_iff` says for which
hosts and limits they show the same.
-/

namespace Droidspaces.CpuViews

open Config Scanf

/-! ## The code -/

/-- `container_cpus`; a sum that does not fit a `long long` is undefined. -/
def containerCpus (quota period online : ℤ) : Option ℤ :=
  let host := if online < 1 then 1 else online
  if quota ≤ 0 ∨ period ≤ 0 then some host
  else if 2 ^ 63 ≤ quota + period - 1 then none
  else
    let n := wrap ((quota + period - 1).tdiv period)
    let n := if n < 1 then 1 else n
    some (if host < n then host else n)

/-- `gen_cpu_sysfs` -/
def genCpuSysfs (n : ℤ) : Text :=
  if n = 1 then ['0', '\n'] else ['0', '-'] ++ intText (n - 1) ++ ['\n']

/-- The loop of `ds_virtualize_affinity`, over the numbers below `CPU_SETSIZE`. -/
def pick (mask : List ℕ) (n : ℤ) : ℤ → List ℕ → List ℕ
  | _, [] => []
  | count, i :: is =>
    if count < n then
      if i ∈ mask then i :: pick mask n (count + 1) is else pick mask n count is
    else []

/-- `CPU_SETSIZE` -/
def cpuSetsize : ℕ := 1024

/-- `ds_virtualize_affinity`: the mask that it leaves.  A `cpu_set_t` is refused by a kernel that
has more numbers for CPUs. -/
def virtualizeAffinity (n online : ℤ) (nrCpuIds : ℕ) (mask : List ℕ) : List ℕ :=
  if online ≤ n ∨ n ≤ 0 then mask
  else if cpuSetsize < nrCpuIds then mask
  else
    let newMask := pick mask n 0 (List.range cpuSetsize)
    if newMask = [] then mask else newMask

/-! ## The host -/

structure Host where
  /-- The CPUs that are online, which are those that may be used. -/
  online : List ℕ
  online_ne_nil : online ≠ []
  increasing : online.Pairwise (· < ·)
  /-- How many numbers the kernel has for CPUs. -/
  nrCpuIds : ℕ
  nrCpuIds_le : nrCpuIds ≤ 2 ^ 31 - 1
  lt_nrCpuIds : ∀ id ∈ online, id < nrCpuIds
  cpuinfo : CpuInfo
  /-- `/proc/stat` at the first reading and at the second. -/
  first : Snapshot
  second : Snapshot

/-! ## The views -/

/-- `0` or `0-7` -/
def readRange (file : Text) : List ℕ :=
  match scanDigits file with
  | none => []
  | some (a, '-' :: t) =>
    match scanDigits t with
    | none => []
    | some (b, _) => List.range' a (b + 1 - a)
  | some (a, _) => [a]

structure Views where
  cpuinfo : List ℕ
  stat : List (ℕ × List ℕ)
  totals : List (List ℕ)
  sysfs : List ℕ
  affinity : List ℕ

/-- What a container finds in the four places. -/
def Host.views (host : Host) (quota period : ℤ) : Option Views :=
  (containerCpus quota period host.online.length).map fun n =>
    { cpuinfo := processorIds (genCpuinfo n (host.cpuinfo.text host.online))
      stat := cpuRows (genStat n (host.first.text host.online) (host.second.text host.online))
      totals := totals (genStat n (host.first.text host.online) (host.second.text host.online))
      sysfs := readRange (genCpuSysfs n)
      affinity := virtualizeAffinity n host.online.length host.nrCpuIds host.online }

def columnSums (rows : List (ℕ × List ℕ)) : List ℕ :=
  List.ofFn fun j : Fin 10 => (rows.map fun r => r.2.getD j 0).sum

structure Views.Agree (v : Views) (n : ℕ) : Prop where
  cpuinfo : v.cpuinfo.length = n
  stat : v.stat.length = n
  totals : v.totals = [columnSums v.stat]
  sysfs : v.sysfs.length = n
  affinity : v.affinity.length = n
  cpuinfo_ids : ∀ id, id ∈ v.cpuinfo ↔ id ∈ v.sysfs
  stat_ids : ∀ id, id ∈ v.stat.map Prod.fst ↔ id ∈ v.sysfs
  affinity_ids : ∀ id, id ∈ v.affinity ↔ id ∈ v.sysfs

/-- The quotient, rounded up. -/
def ceilDiv (quota period : ℤ) : ℤ := -(-quota / period)

/-- The CPUs that the limit is worth. -/
def Host.limited (host : Host) (quota period : ℤ) : ℕ :=
  min host.online.length (ceilDiv quota period).toNat

/-- When the views agree. -/
structure Host.Allows (host : Host) (quota period : ℤ) : Prop where
  sum : quota + period - 1 < 2 ^ 63
  /-- The quotient is narrowed to an `int`. -/
  narrow : ceilDiv quota period < 2 ^ 31 ∨ host.online.length = 1 ∨
    host.online.length ≤ wrap (ceilDiv quota period)
  present : ∀ id < host.limited quota period, id ∈ host.online
  mask : host.limited quota period = host.online.length ∨ host.nrCpuIds ≤ cpuSetsize
  /-- The ticks do not change between the readings, they do not overflow, and the aggregate line is
  not taken for the line of a CPU, or else these make up for each other. -/
  ticks : ∀ j, ((host.first.extra (host.limited quota period) j).toNat +
      ((List.range (host.limited quota period)).map fun id => (host.first.ticks id j).toNat).sum) %
        2 ^ 64 =
    ((List.range (host.limited quota period)).map fun id => (host.second.ticks id j).toNat).sum

/-! ## How many CPUs -/

theorem ceilDiv_eq {quota period : ℤ} (hperiod : 0 < period) :
    ceilDiv quota period = (quota + period - 1) / period := by
  have hdiv := Int.mul_ediv_add_emod (-quota) period
  have hnonneg := Int.emod_nonneg (-quota) hperiod.ne'
  have hlt := Int.emod_lt_of_pos (-quota) hperiod
  have hneg := mul_neg period (-quota / period)
  refine ((Int.ediv_emod_unique hperiod (r := period - 1 - -quota % period)).2 ⟨?_, ?_, ?_⟩).1.symm
  · rw [ceilDiv]
    omega
  · omega
  · omega

theorem ceilDiv_pos {quota period : ℤ} (hquota : 0 < quota) (hperiod : 0 < period) :
    0 < ceilDiv quota period := by
  have hneg : -quota / period < 0 := Int.ediv_neg_of_neg_of_pos (by omega) hperiod
  exact Int.neg_pos_of_neg hneg

theorem containerCpus_eq {quota period online : ℤ} (hquota : 0 < quota) (hperiod : 0 < period)
    (honline : 1 ≤ online) (hsum : quota + period - 1 < 2 ^ 63) :
    containerCpus quota period online =
      some (min online (max 1 (wrap (ceilDiv quota period)))) := by
  have hdiv : (quota + period - 1).tdiv period = ceilDiv quota period := by
    rw [ceilDiv_eq hperiod, Int.tdiv_eq_ediv_of_nonneg (by omega)]
  unfold containerCpus
  rw [if_neg (by omega), if_neg (by omega), if_neg (by omega), hdiv]
  dsimp only
  congr 1
  omega

theorem containerCpus_eq_none {quota period online : ℤ} (hquota : 0 < quota)
    (hperiod : 0 < period) (hsum : 2 ^ 63 ≤ quota + period - 1) :
    containerCpus quota period online = none := by
  unfold containerCpus
  dsimp only
  rw [if_neg (show ¬(quota ≤ 0 ∨ period ≤ 0) by omega), if_pos hsum]

/-- When the number of CPUs is right. -/
theorem min_max_wrap_iff {c online : ℤ} (hc : 0 < c) (honline : 1 ≤ online)
    (hle : online ≤ 2 ^ 31 - 1) :
    min online (max 1 (wrap c)) = min online c ↔ c < 2 ^ 31 ∨ online = 1 ∨ online ≤ wrap c := by
  by_cases hlt : c < 2 ^ 31
  · have hwrap : wrap c = c := Int.bmod_eq_of_le (by omega) (by omega)
    rw [hwrap]
    exact iff_of_true (by omega) (Or.inl hlt)
  · generalize wrap c = w
    omega

/-! ## Lists of CPUs -/

section Online

variable {online : List ℕ}

theorem takeWhile_eq_filter {p : ℕ → Bool} (h : online.Pairwise (· < ·))
    (hp : ∀ a b, a < b → p b = true → p a = true) : online.takeWhile p = online.filter p := by
  induction online with
  | nil => rfl
  | cons a online ih =>
    obtain ⟨ha, honline⟩ := List.pairwise_cons.1 h
    rw [List.takeWhile_cons, List.filter_cons]
    split
    · rw [ih honline]
    · next hnot =>
      refine (List.filter_eq_nil_iff.2 fun b hb hpb => hnot ?_).symm
      exact hp a b (ha b hb) hpb

theorem takeWhile_eq_below {maxCpus : ℤ} (h : online.Pairwise (· < ·)) :
    (online.takeWhile fun id : ℕ => decide ((id : ℤ) < maxCpus)) = below maxCpus online := by
  refine takeWhile_eq_filter h fun a b hlt hb => ?_
  rw [decide_eq_true_eq] at hb ⊢
  omega

theorem mem_below {maxCpus : ℤ} {id : ℕ} :
    id ∈ below maxCpus online ↔ id ∈ online ∧ (id : ℤ) < maxCpus := by
  rw [below, List.mem_filter, decide_eq_true_eq]

/-- With the first CPUs all there, these are the ones below their number. -/
theorem below_eq_range {n : ℕ} (h : online.Pairwise (· < ·)) (hall : ∀ id < n, id ∈ online) :
    below n online = List.range n := by
  refine (h.filter _).eq_of_mem_iff List.pairwise_lt_range fun id => ?_
  rw [← below, mem_below, List.mem_range]
  constructor
  · rintro ⟨-, hlt⟩
    omega
  · exact fun hlt => ⟨hall id hlt, by omega⟩

theorem take_eq_range {n : ℕ} (h : online.Pairwise (· < ·)) (hall : ∀ id < n, id ∈ online) :
    online.take n = List.range n := by
  have hsplit := List.takeWhile_append_dropWhile
    (p := fun id : ℕ => decide ((id : ℤ) < (n : ℤ))) (l := online)
  rw [takeWhile_eq_below h, below_eq_range h hall] at hsplit
  rw [← hsplit, List.take_left' List.length_range]

theorem pick_eq (mask : List ℕ) (n count : ℤ) (is : List ℕ) :
    pick mask n count is = (is.filter (· ∈ mask)).take (n - count).toNat := by
  induction is generalizing count with
  | nil => simp [pick]
  | cons i is ih =>
    rw [pick, List.filter_cons]
    by_cases hlt : count < n
    · rw [if_pos hlt]
      by_cases hmem : i ∈ mask
      · have hsucc : (n - count).toNat = (n - (count + 1)).toNat + 1 := by omega
        rw [if_pos hmem, if_pos (decide_eq_true hmem), ih, hsucc, List.take_succ_cons]
      · rw [if_neg hmem, if_neg (by simpa using hmem), ih]
    · have hzero : (n - count).toNat = 0 := by omega
      rw [if_neg hlt, hzero, List.take_zero]

theorem filter_range {n : ℕ} (h : online.Pairwise (· < ·)) (hlt : ∀ id ∈ online, id < n) :
    (List.range n).filter (· ∈ online) = online := by
  refine (List.pairwise_lt_range.filter _).eq_of_mem_iff h fun id => ?_
  simp only [List.mem_filter, List.mem_range, decide_eq_true_eq]
  exact ⟨fun h => h.2, fun h => ⟨hlt id h, h⟩⟩

end Online

theorem readRange_genCpuSysfs {n : ℕ} (hn : 1 ≤ n) :
    readRange (genCpuSysfs n) = List.range n := by
  by_cases hone : n = 1
  · subst hone
    decide +kernel
  · have hsub : (n : ℤ) - 1 = ((n - 1 : ℕ) : ℤ) := by omega
    have hfirst : scanDigits ('0' :: '-' :: (decimal (n - 1) ++ ['\n'])) =
        some (0, '-' :: (decimal (n - 1) ++ ['\n'])) :=
      scanDigits_decimal 0 (noDigitHead_cons rfl _)
    have hlast := scanDigits_decimal (n - 1) (t := ['\n']) (noDigitHead_cons rfl _)
    rw [genCpuSysfs, if_neg (by omega), hsub, intText_natCast]
    simp only [List.cons_append, List.nil_append, readRange, hfirst, hlast]
    rw [List.range_eq_range']
    congr 1
    omega

/-! ## The views of a host -/

section Host

variable (host : Host)

theorem Host.length_pos : 1 ≤ host.online.length :=
  List.length_pos_of_ne_nil host.online_ne_nil

theorem Host.length_le : host.online.length ≤ host.nrCpuIds := by
  have hlen := List.length_filter_le (· ∈ host.online) (List.range host.nrCpuIds)
  rwa [filter_range host.increasing host.lt_nrCpuIds, List.length_range] at hlen

theorem Host.lt_of_mem {id : ℕ} (h : id ∈ host.online) : id < 2 ^ 31 := by
  have hlt := host.lt_nrCpuIds id h
  have hle := host.nrCpuIds_le
  omega

theorem Host.virtualizeAffinity_eq {m : ℕ} (hpos : 1 ≤ m) (hle : m ≤ host.online.length) :
    virtualizeAffinity m host.online.length host.nrCpuIds host.online =
      if m = host.online.length ∨ cpuSetsize < host.nrCpuIds then host.online
      else host.online.take m := by
  unfold virtualizeAffinity
  by_cases hall : m = host.online.length
  · rw [if_pos (by omega), if_pos (Or.inl hall)]
  · rw [if_neg (by omega)]
    by_cases hmany : cpuSetsize < host.nrCpuIds
    · rw [if_pos hmany, if_pos (Or.inr hmany)]
    · have hlt : ∀ id ∈ host.online, id < cpuSetsize := fun id hid =>
        (host.lt_nrCpuIds id hid).trans_le (not_lt.1 hmany)
      have hne : host.online.take m ≠ [] := by
        rw [Ne, List.take_eq_nil_iff, not_or]
        exact ⟨by omega, host.online_ne_nil⟩
      rw [if_neg hmany, if_neg (not_or.2 ⟨hall, hmany⟩), pick_eq,
        filter_range host.increasing hlt, sub_zero, Int.toNat_natCast]
      dsimp only
      rw [if_neg hne]

/-- What a container finds when it is limited to a number of CPUs. -/
def Host.shown (m : ℕ) : Views where
  cpuinfo := below m host.online
  stat := (below m host.online).map fun id => (id, numbers (host.second.ticks id))
  totals := [numbers (host.first.sums m host.online)]
  sysfs := List.range m
  affinity := if m = host.online.length ∨ cpuSetsize < host.nrCpuIds then host.online
    else host.online.take m

theorem Host.views_eq {quota period : ℤ} {m : ℕ} (hpos : 1 ≤ m) (hle : m ≤ host.online.length)
    (h : containerCpus quota period host.online.length = some (m : ℤ)) :
    host.views quota period = some (host.shown m) := by
  have hids : ∀ id ∈ host.online, id < 2 ^ 31 := fun _ => host.lt_of_mem
  have hcpuinfo := host.cpuinfo.processorIds_genCpuinfo hids (show (1 : ℤ) ≤ m by omega)
  rw [takeWhile_eq_below host.increasing] at hcpuinfo
  rw [Host.views, h, Option.map_some, hcpuinfo, cpuRows_genStat _ _ hids, totals_genStat _ _ hids,
    readRange_genCpuSysfs hpos, host.virtualizeAffinity_eq hpos hle]
  rfl

theorem columnSums_map (ids : List ℕ) (ticks : ℕ → Columns) :
    columnSums (ids.map fun id => (id, numbers (ticks id))) =
      List.ofFn fun j => (ids.map fun id => (ticks id j).toNat).sum := by
  rw [columnSums]
  refine congrArg List.ofFn (funext fun j => ?_)
  rw [List.map_map]
  refine congrArg List.sum (List.map_congr_left fun id _ => ?_)
  rw [Function.comp_apply, getD_numbers, dif_pos j.isLt]

/-- The aggregate is the sum of the columns exactly if the ticks are those counted. -/
theorem Host.totals_iff {m : ℕ} (hall : ∀ id < m, id ∈ host.online) :
    (host.shown m).totals = [columnSums (host.shown m).stat] ↔ ∀ j,
      ((host.first.extra m j).toNat +
        ((List.range m).map fun id => (host.first.ticks id j).toNat).sum) % 2 ^ 64 =
          ((List.range m).map fun id => (host.second.ticks id j).toNat).sum := by
  have hids : ∀ id ∈ host.online, id < 2 ^ 31 := fun _ => host.lt_of_mem
  have hbelow := below_eq_range host.increasing hall
  simp only [Host.shown, columnSums_map, List.cons.injEq, and_true]
  rw [numbers, List.ofFn_inj, funext_iff]
  simp only [host.first.toNat_sums hids, hbelow]

theorem Host.agree_shown_iff {m n : ℕ} :
    (host.shown m).Agree n ↔ m = n ∧ (∀ id < m, id ∈ host.online) ∧
      (m = host.online.length ∨ host.nrCpuIds ≤ cpuSetsize) ∧
      (host.shown m).totals = [columnSums (host.shown m).stat] := by
  constructor
  · intro h
    have hm : m = n := List.length_range.symm.trans h.sysfs
    refine ⟨hm, fun id hid => ?_, ?_, h.totals⟩
    · exact (mem_below.1 ((h.cpuinfo_ids id).2 (List.mem_range.2 hid))).1
    · by_contra hnot
      rw [not_or, not_le] at hnot
      have hlen := h.affinity
      rw [Host.shown, if_pos (Or.inr hnot.2)] at hlen
      exact hnot.1 (hm.trans hlen.symm)
  · rintro ⟨rfl, hall, hmask, htotals⟩
    have hbelow := below_eq_range host.increasing hall
    have haffinity : (host.shown m).affinity = List.range m := by
      rw [← take_eq_range host.increasing hall]
      by_cases hfull : m = host.online.length
      · rw [Host.shown, if_pos (Or.inl hfull), hfull, List.take_length]
      · exact if_neg (not_or.2 ⟨hfull, not_lt.2 (hmask.resolve_left hfull)⟩)
    have hcpuinfo : (host.shown m).cpuinfo = List.range m := hbelow
    have hstat : (host.shown m).stat.map Prod.fst = List.range m := by
      rw [Host.shown, hbelow, List.map_map]
      exact List.map_id _
    have hsysfs : (host.shown m).sysfs = List.range m := rfl
    refine ⟨?_, ?_, htotals, ?_, ?_, ?_, ?_, ?_⟩
    · rw [hcpuinfo, List.length_range]
    · rw [← List.length_map Prod.fst, hstat, List.length_range]
    · rw [hsysfs, List.length_range]
    · rw [haffinity, List.length_range]
    · intro id
      rw [hcpuinfo, hsysfs]
    · intro id
      rw [hstat, hsysfs]
    · intro id
      rw [haffinity, hsysfs]

/-- **The views of a limited container agree exactly under this condition.** -/
theorem Host.views_agree_iff {quota period : ℤ} (hquota : 0 < quota) (hperiod : 0 < period) :
    (∃ v, host.views quota period = some v ∧ v.Agree (host.limited quota period)) ↔
      host.Allows quota period := by
  have hpos := host.length_pos
  have hlen := host.length_le
  have hids := host.nrCpuIds_le
  have hceil := ceilDiv_pos hquota hperiod
  by_cases hsum : quota + period - 1 < 2 ^ 63
  · -- the number of CPUs that the code takes
    obtain ⟨m, hm⟩ : ∃ m : ℕ, (m : ℤ) =
        min (host.online.length : ℤ) (max 1 (wrap (ceilDiv quota period))) :=
      ⟨(min (host.online.length : ℤ) (max 1 (wrap (ceilDiv quota period)))).toNat, by omega⟩
    have honline : (1 : ℤ) ≤ host.online.length := by omega
    have hcpus := containerCpus_eq hquota hperiod honline hsum
    have hviews := host.views_eq (by omega) (by omega) (hcpus.trans (congrArg some hm.symm))
    have hlimited : (host.limited quota period : ℤ) =
        min (host.online.length : ℤ) (ceilDiv quota period) := by
      rw [Host.limited]
      omega
    have hnarrow := min_max_wrap_iff hceil honline (by omega)
    rw [← hm, ← hlimited, Nat.cast_inj, Nat.cast_eq_one] at hnarrow
    have hshown : (∃ v, host.views quota period = some v ∧
        v.Agree (host.limited quota period)) ↔
        (host.shown m).Agree (host.limited quota period) := by
      rw [hviews]
      simp
    rw [hshown, host.agree_shown_iff]
    constructor
    · rintro ⟨hnum, hall, hmask, htotals⟩
      rw [host.totals_iff hall] at htotals
      rw [hnum] at hall hmask htotals
      exact ⟨hsum, hnarrow.1 hnum, hall, hmask, htotals⟩
    · intro h
      have hnum := hnarrow.2 h.narrow
      rw [hnum]
      exact ⟨rfl, h.present, h.mask, (host.totals_iff h.present).2 h.ticks⟩
  · refine iff_of_false ?_ fun h => hsum h.sum
    rintro ⟨v, hv, -⟩
    rw [Host.views, containerCpus_eq_none hquota hperiod (not_lt.1 hsum)] at hv
    cases hv

end Host

/-! ## Two hosts -/

theorem isQuiet_newline : IsQuiet processorName 4094 ['\n'] :=
  ⟨by decide, by decide +kernel, by decide +kernel⟩

theorem isQuiet_nil {name : Text} (hname : name ≠ []) (room : ℕ) : IsQuiet name room [] := by
  refine ⟨List.not_mem_nil, fun line hline hpre => hname ?_, fun piece hpiece => ?_⟩
  · rw [List.splitOn_nil, List.mem_singleton] at hline
    exact List.prefix_nil.1 (hline ▸ hpre)
  · rw [fgets] at hpiece
    cases hpiece

def plainInfo : CpuInfo where
  details _ := []
  tail := []
  details_quiet _ := isQuiet_newline
  tail_quiet := isQuiet_nil (List.cons_ne_nil _ _) _

def idle : Snapshot where
  total _ := 0
  ticks _ _ := 0
  rest := []
  rest_quiet := isQuiet_nil (List.cons_ne_nil _ _) _

theorem pairwise_pair {a b : ℕ} (h : a < b) : [a, b].Pairwise (· < ·) := by
  simpa using h

theorem lt_of_mem_pair {a b n id : ℕ} (ha : a < n) (hb : b < n) (hid : id ∈ [a, b]) : id < n := by
  simp only [List.mem_cons, List.not_mem_nil, or_false] at hid
  rcases hid with rfl | rfl
  · exact ha
  · exact hb

/-- Two CPUs, the second of them with the number after the first or the one behind that. -/
def pairHost (b : ℕ) (h : 0 < b ∧ b < 8) : Host where
  online := [0, b]
  online_ne_nil := List.cons_ne_nil _ _
  increasing := pairwise_pair h.1
  nrCpuIds := 8
  nrCpuIds_le := by decide
  lt_nrCpuIds _ := lt_of_mem_pair (by decide) h.2
  cpuinfo := plainInfo
  first := idle
  second := idle

theorem views_agree_iff_pair :
    ∃ v, (pairHost 1 (by decide)).views 150000 100000 = some v ∧ v.Agree 2 := by
  refine (Host.views_agree_iff (pairHost 1 (by decide)) (by decide) (by decide)).2
    ⟨by decide, Or.inl (by decide), ?_, Or.inl (by decide +kernel), ?_⟩
  · decide +kernel
  · decide +kernel

/-- With CPU 1 offline, two CPUs are one in the files. -/
theorem not_views_agree_offline :
    ¬∃ v, (pairHost 2 (by decide)).views 150000 100000 = some v ∧
      v.Agree ((pairHost 2 (by decide)).limited 150000 100000) := by
  rintro ⟨v, hv, h⟩
  have hone : ((pairHost 2 (by decide)).views 150000 100000).map (fun v => v.cpuinfo.length) =
      some 1 := by
    decide +kernel
  have htwo : (pairHost 2 (by decide)).limited 150000 100000 = 2 := by decide +kernel
  rw [hv, Option.map_some, h.cpuinfo, htwo] at hone
  exact absurd hone (by decide)

end Droidspaces.CpuViews
