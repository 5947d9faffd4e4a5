import Droidspaces.Binary.Fields

/-!
# Requests to the daemon

`send_request` writes the arguments of a command line to the socket, each with its length in front,
and `recv_req` reads them on the other side, where they arrive in pieces of any size.
`recvReq_sendRequest` says that what is read is what was sent, with nothing behind it touched, or
that the request is refused.
-/

namespace Droidspaces.Daemon

open Binary

/-! ## The code -/

def reqFlagPty : ℕ := 1

/-- `DS_MAX_ARGC` -/
def maxArgc : ℕ := 64

/-- `DS_MAX_ARG` -/
def maxArg : ℕ := 8192

/-- The size of a terminal, which is 24 by 80 if there is none to ask. -/
structure Winsize where
  rows : UInt16
  cols : UInt16

/-- `ds_req_t` -/
structure Request where
  flags : ℕ
  argv : List Bytes
  rows : UInt16
  cols : UInt16
  deriving DecidableEq

/-- What is on its way through the socket, as it arrives. -/
abbrev Stream := List Bytes

/-- An argument behind its length. -/
def argFrame (arg : Bytes) : Bytes := bigEndian 4 arg.length ++ arg

/-- What `send_request` writes. -/
def sendRequest (argv : List Bytes) (interactive : Bool) (ws : Winsize) : Bytes :=
  bigEndian 4 (if interactive then reqFlagPty else 0) ++ bigEndian 4 argv.length ++
    argv.flatMap argFrame ++
    if interactive then bigEndian 2 ws.rows.toNat ++ bigEndian 2 ws.cols.toNat else []

/-- `read_exact`: a `read` gives what has arrived, or as much of it as is asked for. -/
def readExact : ℕ → Stream → Option (Bytes × Stream)
  | 0, s => some ([], s)
  | _ + 1, [] => none
  | n + 1, piece :: s =>
    if n + 1 ≤ piece.length then some (piece.take (n + 1), piece.drop (n + 1) :: s)
    else (readExact (n + 1 - piece.length) s).map fun got => (piece ++ got.1, got.2)

/-- The loop over the arguments. -/
def recvArgs : ℕ → Stream → Option (List Bytes × Stream)
  | 0, s => some ([], s)
  | k + 1, s => do
    let (nl, s) ← readExact 4 s
    let al := ofBigEndian nl
    if al > maxArg then none
    else
      let (arg, s) ← readExact al s
      let (args, s) ← recvArgs k s
      some (arg :: args, s)

/-- The last part of `recv_req`, which has a window size to read if the flags say so. -/
def recvWinsize (flags : ℕ) (argv : List Bytes) (s : Stream) : Option (Request × Stream) :=
  if flags &&& reqFlagPty ≠ 0 then do
    let (ws, s) ← readExact 4 s
    let rows := UInt16.ofNat (ofBigEndian (ws.take 2))
    let cols := UInt16.ofNat (ofBigEndian (ws.drop 2))
    some (⟨flags, argv, if rows = 0 then 24 else rows, if cols = 0 then 80 else cols⟩, s)
  else some (⟨flags, argv, 0, 0⟩, s)

/-- `recv_req`, with what is left in the socket. -/
def recvReq (s : Stream) : Option (Request × Stream) := do
  let (nf, s) ← readExact 4 s
  let (na, s) ← readExact 4 s
  let argc := ofBigEndian na
  if argc = 0 ∨ argc > maxArgc then none
  else
    let (argv, s) ← recvArgs argc s
    recvWinsize (ofBigEndian nf) argv s

/-! ## What is meant -/

/-- The arguments that the daemon takes. -/
structure InRange (argv : List Bytes) : Prop where
  ne_nil : argv ≠ []
  argc_le : argv.length ≤ maxArgc
  length_le : ∀ arg ∈ argv, arg.length ≤ maxArg

/-- The arguments that a process can have been started with: `argc` is an `int`, and the kernel takes
no argument of more than `MAX_ARG_STRLEN` bytes, which is far less than the bound here. -/
structure FromExecve (argv : List Bytes) : Prop where
  argc_lt : argv.length < 2147483648
  length_lt : ∀ arg ∈ argv, arg.length < 4294967296

/-- What the daemon should have of it. -/
def delivered (argv : List Bytes) (interactive : Bool) (ws : Winsize) : Request :=
  if interactive then
    ⟨reqFlagPty, argv, if ws.rows = 0 then 24 else ws.rows, if ws.cols = 0 then 80 else ws.cols⟩
  else ⟨0, argv, 0, 0⟩

/-! ## Reading -/

/-- **It does not matter in which pieces the bytes arrive.** -/
theorem readExact_of_flatten {s : Stream} {bs rest : Bytes} (h : s.flatten = bs ++ rest) :
    ∃ left, readExact bs.length s = some (bs, left) ∧ left.flatten = rest := by
  induction s generalizing bs with
  | nil =>
    obtain ⟨rfl, rfl⟩ := List.append_eq_nil_iff.1 h.symm
    exact ⟨[], rfl, rfl⟩
  | cons piece s ih =>
    cases bs with
    | nil => exact ⟨piece :: s, rfl, h⟩
    | cons b bs =>
      rw [List.flatten_cons] at h
      rw [List.length_cons, readExact]
      split
      · next hle =>
        have htake := congrArg (List.take (bs.length + 1)) h
        have hdrop := congrArg (List.drop (bs.length + 1)) h
        rw [List.take_append_of_le_length hle, ← List.length_cons, List.take_left] at htake
        rw [List.drop_append_of_le_length hle, ← List.length_cons, List.drop_left] at hdrop
        exact ⟨piece.drop (bs.length + 1) :: s, by rw [← List.length_cons, htake], hdrop⟩
      · next hlt =>
        obtain ⟨tail, htail⟩ : ∃ tail, b :: bs = piece ++ tail := by
          have hpre : piece <+: b :: bs := List.prefix_of_prefix_length_le
            ⟨_, h⟩ (List.prefix_append _ rest) (by rw [List.length_cons]; omega)
          exact ⟨hpre.choose, hpre.choose_spec.symm⟩
        have hlen := congrArg List.length htail
        rw [List.length_cons, List.length_append] at hlen
        rw [htail, List.append_assoc, List.append_cancel_left_eq] at h
        obtain ⟨left, hread, hleft⟩ := ih h
        refine ⟨left, ?_, hleft⟩
        rw [show bs.length + 1 - piece.length = tail.length by omega, hread, htail]
        rfl

theorem readExact_number {s : Stream} {w v : ℕ} {rest : Bytes}
    (h : s.flatten = bigEndian w v ++ rest) (hv : v < 256 ^ w) :
    ∃ bs left, readExact w s = some (bs, left) ∧ ofBigEndian bs = v ∧ left.flatten = rest := by
  obtain ⟨left, hread, hleft⟩ := readExact_of_flatten h
  rw [length_bigEndian] at hread
  exact ⟨_, left, hread, by rw [ofBigEndian_bigEndian, Nat.mod_eq_of_lt hv], hleft⟩

theorem recvArgs_frames {args : List Bytes} (hlen : ∀ arg ∈ args, arg.length ≤ maxArg) {s : Stream}
    {rest : Bytes} (h : s.flatten = args.flatMap argFrame ++ rest) :
    ∃ left, recvArgs args.length s = some (args, left) ∧ left.flatten = rest := by
  induction args generalizing s with
  | nil => exact ⟨s, rfl, h⟩
  | cons arg args ih =>
    obtain ⟨harg, hargs⟩ := List.forall_mem_cons.1 hlen
    have hmax : maxArg < 256 ^ 4 := by decide
    rw [List.flatMap_cons, argFrame, List.append_assoc, List.append_assoc] at h
    obtain ⟨nl, s₁, hnl, hal, hs₁⟩ := readExact_number h (harg.trans_lt hmax)
    obtain ⟨s₂, harg', hs₂⟩ := readExact_of_flatten hs₁
    obtain ⟨left, hrest, hleft⟩ := ih hargs hs₂
    refine ⟨left, ?_, hleft⟩
    simp only [List.length_cons, recvArgs, hnl, hal, harg', hrest, Option.bind_eq_bind,
      Option.bind_some, if_neg (Nat.not_lt.2 harg)]

/-- A length that is too great ends it. -/
theorem recvArgs_eq_none {args : List Bytes} (hlt : ∀ arg ∈ args, arg.length < 4294967296)
    (hlong : ∃ arg ∈ args, maxArg < arg.length) {s : Stream} {rest : Bytes}
    (h : s.flatten = args.flatMap argFrame ++ rest) : recvArgs args.length s = none := by
  induction args generalizing s with
  | nil => exact absurd hlong.choose_spec.1 List.not_mem_nil
  | cons arg args ih =>
    obtain ⟨harg, hargs⟩ := List.forall_mem_cons.1 hlt
    rw [List.flatMap_cons, argFrame, List.append_assoc, List.append_assoc] at h
    obtain ⟨nl, s₁, hnl, hal, hs₁⟩ := readExact_number h harg
    obtain ⟨s₂, harg', hs₂⟩ := readExact_of_flatten hs₁
    simp only [List.length_cons, recvArgs, hnl, hal, Option.bind_eq_bind, Option.bind_some]
    split
    · rfl
    · next hshort =>
      have hlater : ∃ arg ∈ args, maxArg < arg.length := by
        obtain ⟨long, hmem, hlen⟩ := hlong
        rcases List.mem_cons.1 hmem with rfl | hmem
        · exact absurd hlen hshort
        · exact ⟨long, hmem, hlen⟩
      rw [harg', Option.bind_some, ih hargs hlater hs₂, Option.bind_none]

/-! ## Requests -/

theorem ofNat_ofBigEndian_toNat (v : UInt16) :
    UInt16.ofNat (ofBigEndian (bigEndian 2 v.toNat)) = v := by
  have hlt : v.toNat < 256 ^ 2 := v.toNat_lt
  rw [ofBigEndian_bigEndian, Nat.mod_eq_of_lt hlt, UInt16.ofNat_toNat]

theorem recvWinsize_of_flatten (argv : List Bytes) (interactive : Bool) (ws : Winsize) {s : Stream}
    {rest : Bytes} (h : s.flatten = (if interactive then
      bigEndian 2 ws.rows.toNat ++ bigEndian 2 ws.cols.toNat else []) ++ rest) :
    ∃ left, recvWinsize (if interactive then reqFlagPty else 0) argv s =
      some (delivered argv interactive ws, left) ∧ left.flatten = rest := by
  cases interactive with
  | false => exact ⟨s, rfl, h⟩
  | true =>
    obtain ⟨left, hread, hleft⟩ := readExact_of_flatten h
    have hrows := length_bigEndian 2 ws.rows.toNat
    rw [if_pos rfl, List.length_append, hrows, length_bigEndian] at hread
    refine ⟨left, ?_, hleft⟩
    have hpty : reqFlagPty &&& reqFlagPty ≠ 0 := by decide
    have htake : (bigEndian 2 ws.rows.toNat ++ bigEndian 2 ws.cols.toNat).take 2 =
        bigEndian 2 ws.rows.toNat := List.take_left' hrows
    have hdrop : (bigEndian 2 ws.rows.toNat ++ bigEndian 2 ws.cols.toNat).drop 2 =
        bigEndian 2 ws.cols.toNat := List.drop_left' hrows
    rw [if_pos rfl, recvWinsize, if_pos hpty, hread, Option.bind_eq_bind, Option.bind_some]
    dsimp only
    rw [htake, hdrop, ofNat_ofBigEndian_toNat, ofNat_ofBigEndian_toNat]
    rfl

/-- What is read before the arguments. -/
theorem recvReq_eq {argv : List Bytes} (hargc : argv.length < 4294967296) {interactive : Bool}
    {ws : Winsize} {rest : Bytes} {s : Stream}
    (h : s.flatten = sendRequest argv interactive ws ++ rest) :
    ∃ s', s'.flatten = argv.flatMap argFrame ++ ((if interactive then
        bigEndian 2 ws.rows.toNat ++ bigEndian 2 ws.cols.toNat else []) ++ rest) ∧
      recvReq s = if argv.length = 0 ∨ argv.length > maxArgc then none
        else (recvArgs argv.length s').bind fun got =>
          recvWinsize (if interactive then reqFlagPty else 0) got.1 got.2 := by
  have hflags : (if interactive then reqFlagPty else 0) < 256 ^ 4 := by
    cases interactive <;> decide
  rw [sendRequest, List.append_assoc, List.append_assoc, List.append_assoc] at h
  obtain ⟨nf, s₁, hnf, hflags', hs₁⟩ := readExact_number h hflags
  obtain ⟨na, s₂, hna, hargc', hs₂⟩ := readExact_number hs₁ hargc
  refine ⟨s₂, hs₂, ?_⟩
  simp only [recvReq, hnf, hna, hflags', hargc', Option.bind_eq_bind, Option.bind_some]

/-- **A request is read as it was sent, whatever the pieces, or it is refused.** -/
theorem recvReq_sendRequest (argv : List Bytes) (interactive : Bool) (ws : Winsize) (rest : Bytes)
    (s : Stream) (h : s.flatten = sendRequest argv interactive ws ++ rest) :
    (InRange argv → ∃ left, recvReq s = some (delivered argv interactive ws, left) ∧
      left.flatten = rest) ∧
      (¬ InRange argv → FromExecve argv → recvReq s = none) := by
  constructor
  · rintro ⟨hne, hargc, hlen⟩
    have hmax : maxArgc < 4294967296 := by decide
    have hpos : argv.length ≠ 0 := fun hzero => hne (List.length_eq_zero_iff.1 hzero)
    obtain ⟨s', hs', hreq⟩ := recvReq_eq (hargc.trans_lt hmax) h
    obtain ⟨s₁, hargs, hs₁⟩ := recvArgs_frames hlen hs'
    rw [hreq, if_neg (by omega), hargs, Option.bind_some]
    exact recvWinsize_of_flatten argv interactive ws hs₁
  · intro hout hexec
    obtain ⟨s', hs', hreq⟩ := recvReq_eq (hexec.argc_lt.trans (by decide)) h
    rw [hreq]
    split
    · rfl
    · next hargc =>
      have hlong : ∃ arg ∈ argv, maxArg < arg.length := by
        by_contra hnone
        refine hout ⟨fun hnil => hargc (Or.inl (hnil ▸ rfl)), by omega, fun arg harg => ?_⟩
        exact Nat.le_of_not_lt fun hlen => hnone ⟨arg, harg, hlen⟩
      rw [recvArgs_eq_none hexec.length_lt hlong hs', Option.bind_none]

/-- `run` with an empty argument and a terminal of 132 columns, in pieces and with a byte behind it;
and a request without arguments. -/
theorem recvReq_run : (∃ left, recvReq [[0, 0], [0, 1, 0, 0, 0], [2, 0, 0, 0, 3, 114], [117],
    [110, 0, 0, 0, 0, 0, 0], [0, 132, 7]] =
      some (delivered [[114, 117, 110], []] true ⟨0, 132⟩, left) ∧ left.flatten = [7]) ∧
    recvReq [[0, 0, 0, 0, 0, 0, 0, 0]] = none :=
  ⟨(recvReq_sendRequest [[114, 117, 110], []] true ⟨0, 132⟩ [7] _ rfl).1
    ⟨by decide, by decide, by decide⟩,
    (recvReq_sendRequest [] false ⟨24, 80⟩ [] _ rfl).2 (fun h => h.ne_nil rfl)
      ⟨by decide, by decide⟩⟩

end Droidspaces.Daemon
