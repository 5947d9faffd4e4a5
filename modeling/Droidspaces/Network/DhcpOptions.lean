import Droidspaces.Binary.Fields

/-!
# DHCP options

The options of a DHCP packet stand one behind the other, each as its code, its length and its data.
`opt_put` appends one to a buffer and `opt_get` goes through the bytes that a client has sent, which
can be anything.

`optGet_agrees` says that what was put is got, and that no byte is looked at that is not there.
-/

namespace Droidspaces.Dhcp

open Binary

/-! ## The code -/

/-- `OPT_PAD` -/
def optPad : UInt8 := 0

/-- `OPT_END` -/
def optEnd : UInt8 := 255

/-- `opt_put`, with the position behind the option. -/
def optPut (buf : Bytes) (pos buflen : ℕ) (code : UInt8) (data : Bytes) : Option (Bytes × ℕ) :=
  if buflen < pos + 2 + data.length then none
  else
    let buf := splice pos [code] buf
    let buf := splice (pos + 1) [UInt8.ofNat data.length] buf
    some (splice (pos + 2) data buf, pos + 2 + data.length)

/-- The loop of `opt_get` from index `i` on, in at most so many rounds: the length it returns and
what it copies, or nothing for `-1`.  It is `none` itself if an index is not below `opts_len`, or if
the rounds do not suffice. -/
def optGetLoop (opts : Bytes) (code : UInt8) (maxLen : ℕ) : ℕ → ℕ → Option (Option (ℕ × Bytes))
  | 0, i => if opts.length ≤ i then some none else none
  | fuel + 1, i =>
    if opts.length ≤ i then some none
    else do
      let c ← opts[i]?
      if c = optEnd then some none
      else if c = optPad then optGetLoop opts code maxLen fuel (i + 1)
      else if opts.length ≤ i + 1 then some none
      else
        let l ← opts[i + 1]?
        if opts.length < i + 2 + l.toNat then some none
        else if c = code then
          let copy := if l.toNat < maxLen then l.toNat else maxLen
          if opts.length < i + 2 + copy then none
          else some (some (l.toNat, field (i + 2) copy opts))
        else optGetLoop opts code maxLen fuel (i + 2 + l.toNat)

/-- `opt_get`, on as many bytes as `opts_len` says. -/
def optGet (opts : Bytes) (code : UInt8) (maxLen : ℕ) : Option (Option (ℕ × Bytes)) :=
  optGetLoop opts code maxLen opts.length 0

/-! ## Options -/

structure DhcpOption where
  code : UInt8
  data : Bytes
  ne_pad : code ≠ optPad
  ne_end : code ≠ optEnd
  fits : data.length ≤ 255

namespace DhcpOption

/-- The bytes of an option. -/
def encode (o : DhcpOption) : Bytes := o.code :: UInt8.ofNat o.data.length :: o.data

theorem length_encode (o : DhcpOption) : o.encode.length = o.data.length + 2 := rfl

theorem toNat_length (o : DhcpOption) : (UInt8.ofNat o.data.length).toNat = o.data.length :=
  UInt8.toNat_ofNat_of_lt' (Nat.lt_succ_of_le o.fits)

/-- The first option with a code, as `opt_get` returns it. -/
def lookup (options : List DhcpOption) (code : UInt8) (maxLen : ℕ) : Option (ℕ × Bytes) :=
  (options.find? fun o => o.code = code).map fun o => (o.data.length, o.data.take maxLen)

/-- The options are put into a buffer one behind the other, and all of them fit. -/
def putAll (options : List DhcpOption) (buf : Bytes) : Option (Bytes × ℕ) :=
  options.foldlM (fun s o => optPut s.1 s.2 buf.length o.code o.data) (buf, 0)

end DhcpOption

open DhcpOption

/-! ## Putting -/

theorem optPut_append (front old rest : Bytes) (o : DhcpOption) (h : old.length = o.encode.length)
    {buflen : ℕ} (hlen : front.length + o.encode.length ≤ buflen) :
    optPut (front ++ (old ++ rest)) front.length buflen o.code o.data =
      some (front ++ (o.encode ++ rest), (front ++ o.encode).length) := by
  rw [length_encode] at h hlen
  obtain ⟨a, b, data, rfl⟩ : ∃ a b data, old = a :: b :: data := by
    match old, h with
    | a :: b :: data, _ => exact ⟨a, b, data, rfl⟩
  have hdata : data.length = o.data.length := by simpa using h
  have hcode := splice_append front [a] [o.code] (b :: data ++ rest) rfl
  have hlength :=
    splice_append (front ++ [o.code]) [b] [UInt8.ofNat o.data.length] (data ++ rest) rfl
  have hwrite :=
    splice_append (front ++ [o.code] ++ [UInt8.ofNat o.data.length]) data o.data rest hdata
  simp only [List.append_assoc, List.cons_append, List.nil_append, List.length_append,
    List.length_cons, List.length_nil, Nat.zero_add, Nat.reduceAdd] at hcode hlength hwrite ⊢
  rw [optPut, if_neg (by omega)]
  simp only [hcode, hlength, hwrite, encode, List.cons_append, List.length_cons]
  rw [Nat.add_assoc, Nat.add_comm 2]

theorem optPut_eq_none {buf : Bytes} {pos : ℕ} (o : DhcpOption)
    {buflen : ℕ} (h : buflen < pos + o.encode.length) :
    optPut buf pos buflen o.code o.data = none := by
  rw [length_encode] at h
  exact if_pos (by omega)

theorem foldlM_optPut (options : List DhcpOption) (front rest : Bytes) {buflen : ℕ}
    (hlen : buflen = (front ++ rest).length) :
    options.foldlM (fun s o => optPut s.1 s.2 buflen o.code o.data) (front ++ rest, front.length) =
      if (options.flatMap encode).length ≤ rest.length then
        some (front ++ (options.flatMap encode ++ rest.drop (options.flatMap encode).length),
          (front ++ options.flatMap encode).length)
      else none := by
  rw [List.length_append] at hlen
  induction options generalizing front rest with
  | nil => simp
  | cons o options ih =>
    rw [List.foldlM_cons, List.flatMap_cons, List.length_append]
    by_cases hfits : o.encode.length ≤ rest.length
    · have hput := optPut_append front (rest.take o.encode.length) (rest.drop o.encode.length) o
        (List.length_take_of_le hfits) (show front.length + o.encode.length ≤ buflen by omega)
      rw [List.take_append_drop, ← List.append_assoc] at hput
      have hlen' : buflen = (front ++ o.encode).length + (rest.drop o.encode.length).length := by
        rw [List.length_append, List.length_drop]
        omega
      have hiff : (options.flatMap encode).length ≤ (rest.drop o.encode.length).length ↔
          o.encode.length + (options.flatMap encode).length ≤ rest.length := by
        rw [List.length_drop]
        omega
      rw [hput, Option.bind_eq_bind, Option.bind_some, ih _ _ hlen']
      simp only [hiff, List.append_assoc, List.drop_drop]
    · rw [optPut_eq_none o (by omega), if_neg (by omega)]
      rfl

/-- **What is in the buffer when all options are.** -/
theorem putAll_eq (options : List DhcpOption) (buf : Bytes) :
    putAll options buf =
      if (options.flatMap encode).length ≤ buf.length then
        some (options.flatMap encode ++ buf.drop (options.flatMap encode).length,
          (options.flatMap encode).length)
      else none := foldlM_optPut options [] buf rfl

/-! ## Getting -/

section Got

variable {opts : Bytes} {code : UInt8} {maxLen : ℕ}

theorem optGetLoop_end {fuel : ℕ} {front rest : Bytes} (h : opts = front ++ optEnd :: rest) :
    optGetLoop opts code maxLen (fuel + 1) front.length = some none := by
  have hlen : ¬ opts.length ≤ front.length := by
    rw [h, List.length_append, List.length_cons]
    omega
  have hread : opts[front.length]? = some optEnd := by simp [h]
  rw [optGetLoop, if_neg hlen, hread, Option.bind_eq_bind, Option.bind_some, if_pos rfl]

theorem field_data {front rest : Bytes} (o : DhcpOption) (h : opts = front ++ (o.encode ++ rest)) :
    field (front.length + 2) (if o.data.length < maxLen then o.data.length else maxLen) opts =
      o.data.take maxLen := by
  have hdrop : opts.drop (front.length + 2) = o.data ++ rest := by
    rw [h, List.drop_length_add_append]
    rfl
  rw [field, hdrop]
  split
  · next hlt => rw [List.take_left, List.take_of_length_le hlt.le]
  · next hle => rw [List.take_append_of_le_length (Nat.le_of_not_lt hle)]

theorem optGetLoop_encode {fuel : ℕ} {front rest : Bytes} (o : DhcpOption)
    (h : opts = front ++ (o.encode ++ rest)) :
    optGetLoop opts code maxLen (fuel + 1) front.length =
      if o.code = code then some (some (o.data.length, o.data.take maxLen))
      else optGetLoop opts code maxLen fuel (front ++ o.encode).length := by
  have hlen : opts.length = front.length + 2 + o.data.length + rest.length := by
    rw [h, List.length_append, List.length_append, length_encode]
    omega
  have hcode : opts[front.length]? = some o.code := by simp [h, encode]
  have hlength : opts[front.length + 1]? = some (UInt8.ofNat o.data.length) := by
    rw [h, List.getElem?_append_right (Nat.le_add_right _ 1), Nat.add_sub_cancel_left]
    rfl
  have hnext : (front ++ o.encode).length = front.length + 2 + o.data.length := by
    rw [List.length_append, length_encode]
    omega
  have hfield : field (front.length + 2)
      (if o.data.length < maxLen then o.data.length else maxLen) opts = o.data.take maxLen :=
    field_data o h
  rw [optGetLoop, if_neg (by omega), hcode, Option.bind_eq_bind, Option.bind_some,
    if_neg o.ne_end, if_neg o.ne_pad, if_neg (by omega), hlength, Option.bind_some,
    o.toNat_length, if_neg (by omega), hnext]
  simp only [hfield]
  split
  · refine if_neg ?_
    split <;> omega
  · rfl

theorem optGetLoop_flatMap {options : List DhcpOption} {fuel : ℕ} {front rest : Bytes}
    (hfuel : options.length < fuel)
    (h : opts = front ++ (options.flatMap encode ++ optEnd :: rest)) :
    optGetLoop opts code maxLen fuel front.length = some (lookup options code maxLen) := by
  induction options generalizing fuel front with
  | nil =>
    obtain ⟨fuel, rfl⟩ := Nat.exists_eq_add_one.2 hfuel
    exact optGetLoop_end h
  | cons o options ih =>
    obtain ⟨fuel, rfl⟩ := Nat.exists_eq_add_one.2 (Nat.lt_of_le_of_lt (Nat.zero_le _) hfuel)
    rw [List.length_cons] at hfuel
    rw [List.flatMap_cons, List.append_assoc] at h
    rw [optGetLoop_encode o h, lookup, List.find?_cons]
    by_cases hcode : o.code = code
    · simp [hcode]
    · rw [if_neg hcode, ih (Nat.lt_of_succ_lt_succ hfuel) (h.trans (List.append_assoc _ _ _).symm)]
      simp [hcode, lookup]

/-- **The loop ends, with nothing looked at that is not there.** -/
theorem optGetLoop_total {fuel i : ℕ} (h : opts.length ≤ i + fuel) :
    ∃ found, optGetLoop opts code maxLen fuel i = some found ∧
      ∀ got ∈ found, got.2.length ≤ maxLen := by
  have hnone : ∀ got ∈ (none : Option (ℕ × Bytes)), got.2.length ≤ maxLen := by simp
  induction fuel generalizing i with
  | zero => exact ⟨none, if_pos h, hnone⟩
  | succ fuel ih =>
    rw [optGetLoop]
    split
    · exact ⟨none, rfl, hnone⟩
    · next hi =>
      rw [List.getElem?_eq_getElem (by omega), Option.bind_eq_bind, Option.bind_some]
      split
      · exact ⟨none, rfl, hnone⟩
      · split
        · exact ih (by omega)
        · split
          · exact ⟨none, rfl, hnone⟩
          · next hnext =>
            rw [List.getElem?_eq_getElem (by omega), Option.bind_some]
            split
            · exact ⟨none, rfl, hnone⟩
            · next hfits =>
              split
              · refine ⟨_, if_neg ?_, ?_⟩
                · split <;> omega
                · rintro got ⟨⟩
                  rw [field, List.length_take]
                  split <;> omega
              · exact ih (by omega)

end Got

/-! ## What was put is got -/

theorem length_le_flatMap_encode (options : List DhcpOption) :
    options.length ≤ (options.flatMap encode).length := by
  induction options with
  | nil => exact Nat.zero_le _
  | cons o options ih =>
    rw [List.flatMap_cons, List.length_append, length_encode, List.length_cons]
    omega

/-- What `opt_get` is given: the options, and anything behind their end. -/
theorem exists_put {options : List DhcpOption} {buf buf' : Bytes} {pos optsLen : ℕ}
    (hput : putAll options buf = some (buf', pos)) (hend : pos < optsLen)
    (hlen : optsLen ≤ buf.length) :
    ∃ rest, (splice pos [optEnd] buf').take optsLen = options.flatMap encode ++ optEnd :: rest := by
  rw [putAll_eq] at hput
  split at hput
  · rw [Option.some.injEq, Prod.mk.injEq] at hput
    obtain ⟨rfl, rfl⟩ := hput
    obtain ⟨last, rest, hrest⟩ :
        ∃ last rest, buf.drop (options.flatMap encode).length = [last] ++ rest := by
      rw [List.drop_eq_getElem_cons (by omega)]
      exact ⟨_, _, rfl⟩
    obtain ⟨k, hk⟩ := Nat.exists_eq_add_one.2 (Nat.sub_pos_of_lt hend)
    refine ⟨rest.take k, ?_⟩
    rw [hrest, splice_append _ [last] [optEnd] _ rfl, List.take_append,
      List.take_of_length_le hend.le, hk]
    rfl
  · cases hput

/-- **What was put is got, and `opt_get` ends without looking at a byte that is not there.**  The
options are put into a buffer with any bytes in it, and `OPT_END` behind them. -/
theorem optGet_agrees :
    (∀ (options : List DhcpOption) (buf buf' : Bytes) (pos optsLen : ℕ),
      putAll options buf = some (buf', pos) → pos < optsLen → optsLen ≤ buf.length →
        ∀ code maxLen, optGet ((splice pos [optEnd] buf').take optsLen) code maxLen =
          some (lookup options code maxLen)) ∧
    ∀ opts code maxLen, ∃ found, optGet opts code maxLen = some found ∧
      ∀ got ∈ found, got.2.length ≤ maxLen := by
  constructor
  · intro options buf buf' pos optsLen hput hend hlen code maxLen
    obtain ⟨rest, hrest⟩ := exists_put hput hend hlen
    have hfuel : options.length < ((splice pos [optEnd] buf').take optsLen).length := by
      have hle := length_le_flatMap_encode options
      rw [hrest, List.length_append, List.length_cons]
      omega
    exact @optGetLoop_flatMap _ _ _ options _ [] rest hfuel hrest
  · exact fun opts code maxLen => optGetLoop_total (Nat.zero_add _).ge

/-- A message type between two other options, in a buffer that was used before. -/
theorem optGet_agrees_reply :
    optGet ((splice 9 [optEnd] [1, 2, 7, 7, 53, 1, 5, 53, 0, 9, 9]).take 11) 53 4 =
      some (some (1, [5])) :=
  (optGet_agrees.1 [⟨1, [7, 7], by decide, by decide, by decide⟩,
      ⟨53, [5], by decide, by decide, by decide⟩, ⟨53, [], by decide, by decide, by decide⟩]
    (List.replicate 11 9) [1, 2, 7, 7, 53, 1, 5, 53, 0, 9, 9] 9 11 (by decide) (by decide)
    (by decide) 53 4).trans (congrArg some (by decide))

/-! ## The options of a reply -/

/-- `struct ds_dhcp_ctx_t`, as far as it goes into the options; an address of a DNS server is 0 if
there is none. -/
structure DhcpCtx where
  gwIp : ℕ
  netmask : ℕ
  dns1 : ℕ
  dns2 : ℕ

/-- `opt_put_u32`, of a number in network order. -/
def optU32 (code : UInt8) (hpad : code ≠ optPad) (hend : code ≠ optEnd) (v : ℕ) : DhcpOption where
  code := code
  data := bigEndian 4 v
  ne_pad := hpad
  ne_end := hend
  fits := by
    rw [length_bigEndian]
    decide

/-- Up to two servers in one option. -/
def optDns (ctx : DhcpCtx) : DhcpOption where
  code := 6
  data := bigEndian 4 ctx.dns1 ++ if ctx.dns2 = 0 then [] else bigEndian 4 ctx.dns2
  ne_pad := by decide
  ne_end := by decide
  fits := by
    rw [List.length_append, length_bigEndian]
    split
    · decide
    · rw [length_bigEndian]
      decide

/-- What `build_reply` puts into the options. -/
def replyOptions (msgType : UInt8) (ctx : DhcpCtx) : List DhcpOption :=
  [⟨53, [msgType], by decide, by decide, Nat.succ_le_succ (Nat.zero_le _)⟩,
    optU32 54 (by decide) (by decide) ctx.gwIp,
    optU32 51 (by decide) (by decide) 86400,
    optU32 58 (by decide) (by decide) 43200,
    optU32 59 (by decide) (by decide) 75600,
    optU32 1 (by decide) (by decide) ctx.netmask,
    optU32 3 (by decide) (by decide) ctx.gwIp] ++
    if ctx.dns1 = 0 then [] else [optDns ctx]

/-- The options as `build_reply` leaves them, and how many bytes of them are sent; whether an option
fits it does not ask. -/
def buildReply (msgType : UInt8) (ctx : DhcpCtx) : Bytes × ℕ :=
  let put := (replyOptions msgType ctx).foldl
    (fun s o => (optPut s.1 s.2 308 o.code o.data).getD s) (List.replicate 308 0, 0)
  (splice put.2 [optEnd] put.1, put.2 + 1)

theorem foldl_optPut_of_foldlM {options : List DhcpOption} {buflen : ℕ} {s t : Bytes × ℕ}
    (h : options.foldlM (fun s o => optPut s.1 s.2 buflen o.code o.data) s = some t) :
    options.foldl (fun s o => (optPut s.1 s.2 buflen o.code o.data).getD s) s = t := by
  induction options generalizing s with
  | nil => exact Option.some.inj h
  | cons o options ih =>
    rw [List.foldlM_cons] at h
    obtain ⟨u, hu, h⟩ := Option.bind_eq_some_iff.1 h
    rw [List.foldl_cons, hu]
    exact ih h

theorem length_optDns (ctx : DhcpCtx) : (optDns ctx).encode.length ≤ 10 := by
  rw [length_encode, optDns, List.length_append, length_bigEndian]
  split
  · exact Nat.le_of_ble_eq_true rfl
  · rw [length_bigEndian]

theorem length_flatMap_replyOptions (msgType : UInt8) (ctx : DhcpCtx) :
    ((replyOptions msgType ctx).flatMap encode).length ≤ 49 := by
  have hu32 (code : UInt8) (hpad : code ≠ optPad) (hend : code ≠ optEnd) (v : ℕ) :
      (optU32 code hpad hend v).encode.length = 6 := by
    rw [length_encode, optU32, length_bigEndian]
  have hdns := length_optDns ctx
  rw [replyOptions, List.flatMap_append, List.length_append]
  simp only [List.flatMap_cons, List.length_append, hu32, length_encode, List.length_singleton]
  split
  · simp
  · simp only [List.flatMap_cons, List.flatMap_nil, List.append_nil, List.length_nil]
    omega

/-- **A client gets from a reply what was put into it.** -/
theorem optGet_buildReply (msgType : UInt8) (ctx : DhcpCtx) (code : UInt8) (maxLen : ℕ) :
    optGet ((buildReply msgType ctx).1.take (buildReply msgType ctx).2) code maxLen =
      some (lookup (replyOptions msgType ctx) code maxLen) := by
  have hlen := length_flatMap_replyOptions msgType ctx
  have hput := putAll_eq (replyOptions msgType ctx) (List.replicate 308 0)
  rw [List.length_replicate, if_pos (by omega)] at hput
  have hbuf : ((replyOptions msgType ctx).flatMap encode).length + 1 ≤
      (List.replicate 308 (0 : UInt8)).length := by
    rw [List.length_replicate]
    omega
  obtain ⟨rest, hrest⟩ := exists_put hput (Nat.lt_succ_self _) hbuf
  rw [putAll, List.length_replicate] at hput
  have hbuilt := foldl_optPut_of_foldlM hput
  have hfuel := length_le_flatMap_encode (replyOptions msgType ctx)
  rw [buildReply]
  simp only [hbuilt]
  rw [hrest]
  refine @optGetLoop_flatMap _ _ _ (replyOptions msgType ctx) _ [] rest ?_ rfl
  rw [List.length_append, List.length_cons]
  omega

end Droidspaces.Dhcp
