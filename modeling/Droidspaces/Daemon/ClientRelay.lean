import Droidspaces.Daemon.SessionFrames

/-!
# What a client shows

A client takes the frames of its session from a socket, where they arrive in pieces, and writes what
is in them to its own output, until a frame says how the command has exited.  Meanwhile it passes on
what is typed.

A session, the socket and the client run side by side (`Line`).  `told_of_guarded` says that the
client shows what the session has sent, nothing else and nothing twice, and that it ends with the
exit code; unless its input comes to an end before, or something is typed that the session does not
take any more.
-/

namespace Droidspaces.ClientRelay

open Binary (bigEndian ofBigEndian)
open ChildExit Transition

/-! ## The client -/

/-- What `epoll_wait` has for a descriptor. -/
inductive Ready where
  | sock (pollin hup : Bool)
  | stdin
  | winch
  deriving DecidableEq

/-- The descriptor. -/
def Ready.fd : Ready → ℕ
  | .sock _ _ => 0
  | .stdin => 1
  | .winch => 2

/-- Where the client is. -/
inductive Phase where
  /-- At `epoll_wait` -/
  | waiting
  | serving
  /-- In `recv_frame_hdr`, with what it has got -/
  | header (got : Bytes)
  /-- In the loop over a payload, with what is left of it, and what has been read of its next
  part -/
  | payload (dest : Stream) (rem : ℕ) (got : Bytes)
  /-- At the payload of a `MSG_EXIT` -/
  | code (got : Bytes)
  /-- At the `poll` behind a frame -/
  | probing
  | ended
  deriving DecidableEq

structure Client where
  /-- `raw_tty_active` -/
  isRaw : Bool
  phase : Phase
  /-- What is left of `events` -/
  batch : List Ready
  /-- What has been written to `stdout` and `stderr`. -/
  shown : Stream → Bytes
  exitCode : ℕ

namespace Client

def init (isRaw : Bool) : Client where
  isRaw := isRaw
  phase := .waiting
  batch := []
  shown _ := []
  exitCode := 0

variable (c : Client)

/-- How much `read_exact` still asks for. -/
def want : ℕ :=
  match c.phase with
  | .header got => 5 - got.length
  | .payload _ rem got => min rem ioBuf - got.length
  | .code got => 4 - got.length
  | _ => 0

/-- The head of the loop over a payload. -/
def onRest (dest : Stream) (rem : ℕ) : Client :=
  { c with phase := if rem = 0 then .probing else .payload dest rem [] }

def onHeader (type : UInt8) (len : ℕ) : Client :=
  if type = msgExit then { c with phase := if 4 ≤ len then .code [] else .ended }
  else c.onRest (destOf type) len

/-- A part of a payload is there. -/
def onPart (dest : Stream) (rem : ℕ) (got : Bytes) : Client :=
  { c with shown := Function.update c.shown dest (c.shown dest ++ got) }.onRest dest
    (rem - got.length)

/-- A `read` gives some bytes. -/
def takes (bytes : Bytes) : Client :=
  match c.phase with
  | .header got =>
    let got := got ++ bytes
    if got.length < 5 then { c with phase := .header got }
    else c.onHeader (got.headD 0) (ofBigEndian got.tail)
  | .payload dest rem got =>
    let got := got ++ bytes
    if got.length < min rem ioBuf then { c with phase := .payload dest rem got }
    else c.onPart dest rem got
  | .code got =>
    let got := got ++ bytes
    if got.length < 4 then { c with phase := .code got }
    else { c with phase := .ended, exitCode := ofBigEndian got }
  | _ => c

/-- A `read` comes to the end of the file. -/
def cut : Client :=
  match c.phase with
  | .code got =>
    { c with phase := .ended, exitCode := ofBigEndian (got ++ List.replicate (4 - got.length) 0) }
  | _ => { c with phase := .ended }

/-- The frames that are there have been read. -/
def served : Option Client :=
  match c.batch with
  | .sock _ hup :: rest =>
    some (if hup then { c with phase := .ended } else { c with phase := .serving, batch := rest })
  | _ => none

/-- The next descriptor, other than the terminal. -/
def serves : Option Client :=
  match c.batch with
  | [] => some { c with phase := .waiting }
  | .winch :: rest => some { c with batch := rest }
  | .sock pollin hup :: rest =>
    some (if pollin then { c with phase := .header [] }
      else if hup then { c with phase := .ended } else { c with batch := rest })
  | .stdin :: _ => none

/-- Something is typed, which can be passed on or not; or there is nothing more to read. -/
def types (sent : Bool) : Option Client :=
  match c.batch with
  | .stdin :: rest => some (if sent then { c with batch := rest } else { c with phase := .ended })
  | _ => none

end Client

/-! ## Session, socket and client -/

structure Line where
  /-- The session, and what was written to its terminal -/
  watched : Watched
  client : Client
  /-- What was sent and the client has not read. -/
  ahead : Bytes
  /-- How much of that has arrived. -/
  arrived : ℕ
  /-- The session has closed its end, and that has arrived as well. -/
  closed : Bool

inductive LineEvent where
  | daemon (e : Event)
  | arrives (n : ℕ)
  | closes
  /-- `epoll_wait` returns; with nothing when a signal interrupts it. -/
  | polls (ready : List Ready)
  | fails
  /-- One `read` of the socket -/
  | reads (size : ℕ)
  | cut
  | probes
  | types (sent : Bool)
  | serves
  deriving DecidableEq

namespace Line

variable (s : Line)

abbrev session : Session := s.watched.session

def init (isPty isRaw : Bool) : Line where
  watched := ⟨.init isPty, []⟩
  client := .init isRaw
  ahead := []
  arrived := 0
  closed := false

/-- There is something to read, be it the end of the file. -/
def isReadable : Bool := 0 < s.arrived || s.closed

def canReport (ready : List Ready) : Bool :=
  decide (ready.map Ready.fd).Nodup && ready.all fun
    | .sock pollin hup => pollin == s.isReadable && hup == s.closed && (pollin || hup)
    | .stdin | .winch => s.client.isRaw

/-- The session goes on, and what it sends is on its way. -/
def daemon (e : Event) : Option Line :=
  if e.isLive || s.client.phase = .ended then
    (watchedSystem.step s.watched e).map fun w =>
      { s with
        watched := w
        ahead := s.ahead ++ (w.session.sent.drop s.session.sent.length).flatMap encode }
  else none

/-- `ds_client_run` from its loop on, and what goes on beside it -/
def step : LineEvent → Option Line
  | .daemon e => s.daemon e
  | .arrives n =>
    if s.arrived + n ≤ s.ahead.length then some { s with arrived := s.arrived + n } else none
  | .closes =>
    if s.session.phase = .ended && s.arrived = s.ahead.length then some { s with closed := true }
    else none
  | .polls ready =>
    if s.client.phase = .waiting && s.canReport ready then
      some { s with client := { s.client with phase := .serving, batch := ready } }
    else none
  | .fails =>
    if s.client.phase = .waiting then
      some { s with client := { s.client with phase := .ended } }
    else none
  | .reads size =>
    if 0 < size && size ≤ s.client.want && size ≤ s.arrived then
      some { s with
        client := s.client.takes (s.ahead.take size)
        ahead := s.ahead.drop size
        arrived := s.arrived - size }
    else none
  | .cut =>
    if 0 < s.client.want && s.arrived = 0 && s.closed then
      some { s with client := s.client.cut }
    else none
  | .probes =>
    if s.client.phase = .probing then
      if s.isReadable then some { s with client := { s.client with phase := .header [] } }
      else s.client.served.map fun c => { s with client := c }
    else none
  | .types sent =>
    if s.client.phase = .serving then (s.client.types sent).map fun c => { s with client := c }
    else none
  | .serves =>
    if s.client.phase = .serving then s.client.serves.map fun c => { s with client := c } else none

end Line

def lineSystem : System Line LineEvent where
  step := Line.step

/-- `epoll` does not fail, and what is typed can be passed on. -/
def Keeps (_ : Line) : LineEvent → Prop
  | .fails => False
  | .types sent => sent = true
  | _ => True

instance (s : Line) : ∀ e : LineEvent, Decidable (Keeps s e)
  | .fails => isFalse id
  | .types sent => inferInstanceAs (Decidable (sent = true))
  | .daemon _ | .arrives _ | .closes | .polls _ | .reads _ | .cut | .probes | .serves =>
    isTrue trivial

/-! ## Where the client is -/

/-- What the client has shown of the frames that were sent, and what is ahead of it. -/
inductive At (c : Client) (ahead : Bytes) (sent : List Frame) : Prop
  /-- Between two frames, or in a header -/
  | header (handled rest : List Frame) (got : Bytes) (hsent : sent = handled ++ rest)
    (hphase : c.phase = .header got ∨
      got = [] ∧ (c.phase = .waiting ∨ c.phase = .serving ∨ c.phase = .probing))
    (hopen : ∀ frame ∈ handled, frame.isExit = false) (hlen : got.length < 5)
    (hahead : got ++ ahead = rest.flatMap encode)
    (hshown : ∀ stream, c.shown stream = shownOf handled stream)
  | payload (handled rest : List Frame) {frame : Frame} (front : Bytes) {back : Bytes} (got : Bytes)
    (hsent : sent = handled ++ frame :: rest)
    (hphase : c.phase = .payload (destOf (type frame)) back.length got)
    (hopen : ∀ f ∈ handled ++ [frame], f.isExit = false)
    (hpayload : ClientRelay.payload frame = front ++ back)
    (hlen : got.length < min back.length ioBuf)
    (hahead : got ++ ahead = back ++ rest.flatMap encode)
    (hshown : ∀ stream, c.shown stream =
      shownOf handled stream ++ if destOf (type frame) = stream then front else [])
  | code (handled : List Frame) {code : ℕ} (got : Bytes) (hsent : sent = handled ++ [.exit code])
    (hphase : c.phase = .code got) (hlen : got.length < 4)
    (hahead : got ++ ahead = bigEndian 4 code)
    (hshown : ∀ stream, c.shown stream = shownOf handled stream)
  | ended (handled : List Frame) (hsent : sent = handled ++ [.exit c.exitCode])
    (hphase : c.phase = .ended) (hshown : ∀ stream, c.shown stream = shownOf handled stream)

section Reading

variable {c : Client} {ahead : Bytes} {sent handled rest : List Frame} {frame : Frame}

theorem shownOf_append (frames frames' : List Frame) (stream : Stream) :
    shownOf (frames ++ frames') stream = shownOf frames stream ++ shownOf frames' stream :=
  List.flatMap_append

theorem shownOf_singleton (hexit : frame.isExit = false) (stream : Stream) :
    shownOf [frame] stream =
      if destOf (type frame) = stream then ClientRelay.payload frame else [] := by
  rw [shownOf, List.flatMap_singleton, bytesOn]
  simp only [hexit, true_and]

/-- A frame that is not the last one is no `MSG_EXIT`. -/
theorem exit_last {s : Session} (hs : Framed s) {code : ℕ}
    (h : s.sent = handled ++ .exit code :: rest) : rest = [] ∧ s.phase = .ended := by
  have hmem : Frame.exit code ∈ s.sent := by
    rw [h]
    exact List.mem_append_right _ List.mem_cons_self
  have hended : s.phase = .ended := by
    by_contra hnot
    cases hs.notYet hnot _ hmem
  refine ⟨?_, hended⟩
  obtain ⟨frames, code', hsent, hframes⟩ := hs.last hended
  rcases List.eq_nil_or_concat rest with hnil | ⟨rest', last, rfl⟩
  · exact hnil
  · rw [h, List.concat_eq_append, ← List.cons_append, ← List.append_assoc] at hsent
    have hbefore := (List.append_inj' hsent rfl).1
    cases hframes (.exit code) (hbefore ▸ List.mem_append_right _ List.mem_cons_self)

/-- The header of the next frame. -/
theorem header_eq {got : Bytes} (hlen : got.length = 5)
    (h : got ++ ahead = rest.flatMap encode) :
    ∃ frame rest', rest = frame :: rest' ∧
      got = type frame :: bigEndian 4 (ClientRelay.payload frame).length ∧
      ahead = ClientRelay.payload frame ++ rest'.flatMap encode := by
  cases rest with
  | nil =>
    obtain ⟨rfl, -⟩ := List.append_eq_nil_iff.1 h
    cases hlen
  | cons frame rest =>
    rw [List.flatMap_cons, encode, List.append_assoc] at h
    obtain ⟨hgot, hahead⟩ := List.append_inj h (by simp [hlen])
    exact ⟨frame, rest, rfl, hgot, hahead⟩

/-- A part of the payload has been shown; the next one is read, or the frame is at its end. -/
theorem at_onRest (front : Bytes) {back : Bytes} (hsent : sent = handled ++ frame :: rest)
    (hopen : ∀ f ∈ handled ++ [frame], f.isExit = false)
    (hpayload : ClientRelay.payload frame = front ++ back)
    (hahead : ahead = back ++ rest.flatMap encode)
    (hshown : ∀ stream, c.shown stream =
      shownOf handled stream ++ if destOf (type frame) = stream then front else []) :
    At (c.onRest (destOf (type frame)) back.length) ahead sent := by
  cases back with
  | nil =>
    refine .header (handled ++ [frame]) rest [] ?_
      (.inr ⟨rfl, .inr (.inr ?_)⟩) hopen (by decide) hahead fun stream => ?_
    · rw [hsent, List.append_assoc, List.singleton_append]
    · rw [Client.onRest, if_pos List.length_nil]
    · have hexit := hopen frame (List.mem_append_right _ (List.mem_singleton_self frame))
      rw [shownOf_append, shownOf_singleton hexit, hpayload, List.append_nil]
      exact hshown stream
  | cons b back =>
    refine .payload handled rest front [] hsent ?_ hopen hpayload ?_ hahead hshown
    · rw [Client.onRest, if_neg (by rw [List.length_cons]; omega)]
    · rw [List.length_nil, List.length_cons, ioBuf]
      omega

variable {s : Session}

theorem type_ne_exit (hexit : frame.isExit = false) : type frame ≠ msgExit := by
  cases frame with
  | data stream =>
    cases stream with
    | out => exact (by decide : msgOut ≠ msgExit)
    | err => exact (by decide : msgErr ≠ msgExit)
  | message => exact (by decide : msgErr ≠ msgExit)
  | exit => cases hexit

/-- A `read` of a header -/
theorem at_takes_header (hs : Framed s) {got : Bytes} {size : ℕ} (hsent : s.sent = handled ++ rest)
    (hphase : c.phase = .header got) (hopen : ∀ frame ∈ handled, frame.isExit = false)
    (hahead : got ++ ahead = rest.flatMap encode)
    (hshown : ∀ stream, c.shown stream = shownOf handled stream)
    (hsize : got.length + size ≤ 5) (hle : size ≤ ahead.length) :
    At (c.takes (ahead.take size)) (ahead.drop size) s.sent := by
  have hrest : (got ++ ahead.take size) ++ ahead.drop size = rest.flatMap encode := by
    rw [List.append_assoc, List.take_append_drop, hahead]
  have hgot : (got ++ ahead.take size).length = got.length + size := by
    rw [List.length_append, List.length_take_of_le hle]
  rw [Client.takes, hphase]
  dsimp only
  split
  · next hshort => exact .header handled rest _ hsent (.inl rfl) hopen hshort hrest hshown
  · next hfull =>
    obtain ⟨frame, rest, rfl, hheader, hahead⟩ := header_eq (by omega) hrest
    have hlen : ofBigEndian (got ++ ahead.take size).tail = (payload frame).length := by
      rw [hheader, List.tail_cons, Binary.ofBigEndian_bigEndian]
      exact Nat.mod_eq_of_lt (hs.short frame (by rw [hsent]; simp)).1
    rw [hlen, hheader, List.headD_cons, Client.onHeader]
    cases hexit : frame.isExit with
    | true =>
      cases frame with
      | data | message => cases hexit
      | exit code =>
        obtain ⟨rfl, -⟩ := exit_last hs hsent
        have hfour : 4 ≤ (payload (.exit code)).length :=
          Nat.le_of_eq (Binary.length_bigEndian 4 code).symm
        rw [if_pos (show type (.exit code) = msgExit from rfl), if_pos hfour]
        refine .code handled [] hsent rfl (by decide) ?_ hshown
        rw [hahead]
        exact List.append_nil _
    | false =>
      rw [if_neg (type_ne_exit hexit)]
      refine at_onRest [] hsent ?_ rfl hahead fun stream => ?_
      · exact List.forall_mem_append.2 ⟨hopen, List.forall_mem_singleton.2 hexit⟩
      rw [hshown stream, ite_self, List.append_nil]

/-- A `read` of a payload -/
theorem at_takes_payload {front back got : Bytes} {size : ℕ}
    (hsent : sent = handled ++ frame :: rest)
    (hphase : c.phase = .payload (destOf (type frame)) back.length got)
    (hopen : ∀ f ∈ handled ++ [frame], f.isExit = false)
    (hpayload : payload frame = front ++ back) (hahead : got ++ ahead = back ++ rest.flatMap encode)
    (hshown : ∀ stream, c.shown stream =
      shownOf handled stream ++ if destOf (type frame) = stream then front else [])
    (hsize : got.length + size ≤ min back.length ioBuf) (hle : size ≤ ahead.length) :
    At (c.takes (ahead.take size)) (ahead.drop size) sent := by
  have hrest : (got ++ ahead.take size) ++ ahead.drop size = back ++ rest.flatMap encode := by
    rw [List.append_assoc, List.take_append_drop, hahead]
  have hgot : (got ++ ahead.take size).length = got.length + size := by
    rw [List.length_append, List.length_take_of_le hle]
  rw [Client.takes, hphase]
  dsimp only
  split
  · next hshort => exact .payload handled rest front _ hsent rfl hopen hpayload hshort hrest hshown
  · next hfull =>
    have hpart : got ++ ahead.take size = back.take (got.length + size) := by
      have := congrArg (List.take (got.length + size)) hrest
      rwa [List.take_left' hgot, List.take_append_of_le_length (by omega)] at this
    have hleft : ahead.drop size = back.drop (got.length + size) ++ rest.flatMap encode := by
      have := congrArg (List.drop (got.length + size)) hrest
      rwa [List.drop_left' hgot, List.drop_append_of_le_length (by omega)] at this
    have hrem : back.length - (got ++ ahead.take size).length =
        (back.drop (got.length + size)).length := by
      rw [hgot, List.length_drop]
    rw [Client.onPart, hrem]
    refine at_onRest (front ++ back.take (got.length + size)) hsent hopen ?_ hleft
      fun stream => ?_
    · rw [List.append_assoc, List.take_append_drop, hpayload]
    · dsimp only
      rw [hpart]
      by_cases hdest : destOf (type frame) = stream
      · subst hdest
        rw [Function.update_self, hshown, if_pos rfl, if_pos rfl, List.append_assoc]
      · rw [Function.update_of_ne (Ne.symm hdest), hshown, if_neg hdest, if_neg hdest]

/-- A `read` of an exit code -/
theorem at_takes_code {code : ℕ} {got : Bytes} {size : ℕ} (hs : Framed s)
    (hsent : s.sent = handled ++ [.exit code]) (hphase : c.phase = .code got)
    (hahead : got ++ ahead = bigEndian 4 code)
    (hshown : ∀ stream, c.shown stream = shownOf handled stream)
    (hsize : got.length + size ≤ 4) (hle : size ≤ ahead.length) :
    At (c.takes (ahead.take size)) (ahead.drop size) s.sent := by
  have hrest : (got ++ ahead.take size) ++ ahead.drop size = bigEndian 4 code := by
    rw [List.append_assoc, List.take_append_drop, hahead]
  have hgot : (got ++ ahead.take size).length = got.length + size := by
    rw [List.length_append, List.length_take_of_le hle]
  rw [Client.takes, hphase]
  dsimp only
  split
  · next hshort => exact .code handled _ hsent rfl hshort hrest hshown
  · next hfull =>
    have hlen : (got ++ ahead.take size).length = (bigEndian 4 code).length := by
      rw [Binary.length_bigEndian]
      omega
    have hall : got ++ ahead.take size = bigEndian 4 code :=
      (List.append_inj (hrest.trans (List.append_nil _).symm) hlen).1
    have hcode : code < 256 ^ 4 := (hs.short (.exit code) (by rw [hsent]; simp)).2 code rfl
    refine .ended handled ?_ rfl hshown
    rw [hsent, hall]
    dsimp only
    rw [Binary.ofBigEndian_bigEndian, Nat.mod_eq_of_lt hcode]

end Reading

/-! ## The run -/

structure Inv (s : Line) : Prop where
  framed : Framed s.session
  arrived : s.arrived ≤ s.ahead.length
  /-- Everything is there when the session has closed its end. -/
  closed : s.closed = true → s.session.phase = .ended ∧ s.arrived = s.ahead.length
  batch : ∀ pollin hup, .sock pollin hup ∈ s.client.batch →
    pollin = true ∧ (hup = true → s.closed = true)
  place : At s.client s.ahead s.session.sent

section Run

variable {s t : Line}

theorem inv_init (isPty isRaw : Bool) : Inv (.init isPty isRaw) where
  framed := framed_init isPty
  arrived := Nat.le_refl 0
  closed := nofun
  batch _ _ h := absurd h List.not_mem_nil
  place := .header [] [] [] rfl (.inr ⟨rfl, .inl rfl⟩)
    (fun _ h => absurd h List.not_mem_nil) (by decide) rfl fun _ => rfl

theorem At.append {c : Client} {ahead : Bytes} {r : Session} (hs : Framed r)
    (h : At c ahead r.sent) {new : List Frame} (hnew : r.phase = .ended → new = []) :
    At c (ahead ++ new.flatMap encode) (r.sent ++ new) := by
  cases h with
  | header handled rest got hsent hphase hopen hlen hahead hshown =>
    refine .header handled (rest ++ new) got ?_ hphase hopen hlen ?_ hshown
    · rw [hsent, List.append_assoc]
    · rw [← List.append_assoc, hahead, List.flatMap_append]
  | payload handled rest front got hsent hphase hopen hpayload hlen hahead hshown =>
    refine .payload handled (rest ++ new) front got ?_ hphase hopen hpayload hlen ?_ hshown
    · rw [hsent, List.append_assoc, List.cons_append]
    · rw [← List.append_assoc, hahead, List.flatMap_append, List.append_assoc]
  | code handled got hsent hphase hlen hahead hshown =>
    rw [hnew (exit_last hs hsent).2, List.flatMap_nil, List.append_nil, List.append_nil]
    exact .code handled got hsent hphase hlen hahead hshown
  | ended handled hsent hphase hshown =>
    rw [hnew (exit_last hs hsent).2, List.append_nil, List.flatMap_nil, List.append_nil]
    exact .ended handled hsent hphase hshown

/-- The session goes on. -/
theorem Inv.daemon (hs : Inv s) {e : Event} (h : s.daemon e = some t) : Inv t := by
  obtain ⟨-, h⟩ := Option.ite_none_right_eq_some.1 h
  obtain ⟨w, hw, rfl⟩ := Option.map_eq_some_iff.1 h
  obtain ⟨r, hr, rfl⟩ := Option.map_eq_some_iff.1 hw
  obtain ⟨new, hsent, -⟩ := sent_of_step hs.framed hr
  have hnew (hended : s.session.phase = .ended) : new = [] :=
    List.self_eq_append_right.1 ((sent_of_ended hr hended).2.symm.trans hsent)
  have hdrop : r.sent.drop s.session.sent.length = new := by
    rw [hsent, List.drop_left]
  dsimp only
  rw [hdrop]
  refine ⟨framed_step hs.framed hr, ?_, fun hclosed => ?_, hs.batch, ?_⟩
  · rw [List.length_append]
    exact hs.arrived.trans (Nat.le_add_right _ _)
  · obtain ⟨hended, harrived⟩ := hs.closed hclosed
    refine ⟨(sent_of_ended hr hended).1, ?_⟩
    dsimp only
    rw [hnew hended, List.flatMap_nil, List.append_nil, harrived]
  · show At s.client _ r.sent
    rw [hsent]
    exact hs.place.append hs.framed hnew

/-- Only the client goes on. -/
theorem Inv.client (hs : Inv s) {c : Client} (hbatch : c.batch ⊆ s.client.batch)
    (hplace : At c s.ahead s.session.sent) : Inv { s with client := c } where
  framed := hs.framed
  arrived := hs.arrived
  closed := hs.closed
  batch pollin hup h := hs.batch pollin hup (hbatch h)
  place := hplace

/-- Between two frames it does not matter where. -/
theorem At.move {c c' : Client} {ahead : Bytes} {sent : List Frame} (h : At c ahead sent)
    (hphase : c.phase = .waiting ∨ c.phase = .serving ∨ c.phase = .probing)
    (hphase' : c'.phase = .header [] ∨ c'.phase = .waiting ∨ c'.phase = .serving ∨
      c'.phase = .probing) (hshown : c'.shown = c.shown) : At c' ahead sent := by
  have hbetween {phase : Phase} (h : c.phase = phase) (hw : phase ≠ .waiting)
      (hs : phase ≠ .serving) (hp : phase ≠ .probing) : At c' ahead sent := by
    rw [h] at hphase
    rcases hphase with hphase | hphase | hphase
    · exact absurd hphase hw
    · exact absurd hphase hs
    · exact absurd hphase hp
  cases h with
  | header handled rest got hsent hat hopen hlen hahead hshown' =>
    rcases hat with hat | ⟨rfl, -⟩
    · exact hbetween hat nofun nofun nofun
    · refine .header handled rest [] hsent ?_ hopen hlen hahead (hshown ▸ hshown')
      rcases hphase' with h | h
      · exact .inl h
      · exact .inr ⟨rfl, h⟩
  | payload handled rest front got hsent hat => exact hbetween hat nofun nofun nofun
  | code handled got hsent hat => exact hbetween hat nofun nofun nofun
  | ended handled hsent hat => exact hbetween hat nofun nofun nofun

theorem want_of_between {c : Client}
    (hphase : c.phase = .waiting ∨ c.phase = .serving ∨ c.phase = .probing) : c.want = 0 := by
  rcases hphase with h | h | h <;> rw [Client.want, h]

theorem Client.batch_takes (c : Client) (bytes : Bytes) : (c.takes bytes).batch = c.batch := by
  rw [Client.takes]
  split
  · dsimp only
    split
    · rfl
    · rw [Client.onHeader]
      split <;> rfl
  · dsimp only
    split <;> rfl
  · dsimp only
    split <;> rfl
  · rfl

/-- A `read` gives some bytes. -/
theorem Inv.reads (hs : Inv s) {size : ℕ} (hsize : 0 < size) (hwant : size ≤ s.client.want)
    (harrived : size ≤ s.arrived) :
    Inv { s with
      client := s.client.takes (s.ahead.take size)
      ahead := s.ahead.drop size
      arrived := s.arrived - size } := by
  have hle : size ≤ s.ahead.length := harrived.trans hs.arrived
  refine ⟨hs.framed, ?_, fun hclosed => ?_, ?_, ?_⟩
  · rw [List.length_drop]
    exact Nat.sub_le_sub_right hs.arrived size
  · obtain ⟨hended, hall⟩ := hs.closed hclosed
    refine ⟨hended, ?_⟩
    rw [List.length_drop]
    dsimp only
    rw [hall]
  · dsimp only
    rw [Client.batch_takes]
    exact hs.batch
  · cases hs.place with
    | header handled rest got hsent hphase hopen hlen hahead hshown =>
      rcases hphase with hphase | ⟨-, hphase⟩
      · rw [Client.want, hphase] at hwant
        exact at_takes_header hs.framed hsent hphase hopen hahead hshown
          (by dsimp only at hwant; omega) hle
      · rw [want_of_between hphase] at hwant
        omega
    | payload handled rest front got hsent hphase hopen hpayload hlen hahead hshown =>
      rw [Client.want, hphase] at hwant
      exact at_takes_payload hsent hphase hopen hpayload hahead hshown
        (by dsimp only at hwant; omega) hle
    | code handled got hsent hphase hlen hahead hshown =>
      rw [Client.want, hphase] at hwant
      exact at_takes_code hs.framed hsent hphase hahead hshown (by dsimp only at hwant; omega) hle
    | ended handled hsent hphase =>
      rw [Client.want, hphase] at hwant
      exact absurd hwant (Nat.not_le.2 hsize)

/-- The end of the file comes only behind the last frame. -/
theorem Inv.not_cut (hs : Inv s) (hwant : 0 < s.client.want) (harrived : s.arrived = 0)
    (hclosed : s.closed = true) : False := by
  obtain ⟨hended, hall⟩ := hs.closed hclosed
  have hnil : s.ahead = [] := List.length_eq_zero_iff.1 (hall.symm.trans harrived)
  cases hs.place with
  | header handled rest got hsent hphase hopen hlen hahead hshown =>
    obtain ⟨frames, code, hlast, -⟩ := hs.framed.last hended
    have hrest : rest = [] := by
      cases rest with
      | nil => rfl
      | cons frame rest =>
        rw [hnil, List.append_nil] at hahead
        rw [hahead, List.flatMap_cons, encode] at hlen
        simp at hlen
        omega
    rw [hrest, List.append_nil] at hsent
    have hmem : Frame.exit code ∈ handled :=
      hsent ▸ hlast ▸ List.mem_append_right _ (List.mem_singleton_self _)
    cases hopen _ hmem
  | payload handled rest front got hsent hphase hopen hpayload hlen hahead hshown =>
    have := congrArg List.length hahead
    rw [hnil, List.append_nil, List.length_append] at this
    omega
  | code handled got hsent hphase hlen hahead hshown =>
    have := congrArg List.length hahead
    rw [hnil, List.append_nil, Binary.length_bigEndian] at this
    omega
  | ended handled hsent hphase =>
    rw [Client.want, hphase] at hwant
    exact absurd hwant (Nat.lt_irrefl 0)

/-- The terminal and the end of a batch -/
theorem Inv.serves (hs : Inv s) (hphase : s.client.phase = .serving) {c : Client}
    (h : s.client.serves = some c) : Inv { s with client := c } := by
  have hbetween : s.client.phase = .waiting ∨ s.client.phase = .serving ∨
      s.client.phase = .probing := .inr (.inl hphase)
  rw [Client.serves] at h
  split at h
  · cases h
    exact hs.client (List.Subset.refl _) (hs.place.move hbetween (.inr (.inl rfl)) rfl)
  · next rest hbatch =>
    cases h
    exact hs.client (hbatch ▸ List.subset_cons_self _ _)
      (hs.place.move hbetween (.inr (.inr (.inl hphase))) rfl)
  · next pollin hup rest hbatch =>
    cases h
    rw [if_pos (hs.batch pollin hup (hbatch ▸ List.mem_cons_self)).1]
    exact hs.client (List.Subset.refl _) (hs.place.move hbetween (.inl rfl) rfl)
  · cases h

/-- The `poll` behind a frame -/
theorem Inv.afterPoll (hs : Inv s) (hphase : s.client.phase = .probing)
    (hnone : s.isReadable = false) {c : Client} (h : s.client.served = some c) :
    Inv { s with client := c } := by
  rw [Client.served] at h
  split at h
  · next pollin hup rest hbatch =>
    cases h
    have hup_eq : hup = false := by
      cases hup with
      | false => rfl
      | true =>
        have hclosed := (hs.batch pollin true (hbatch ▸ List.mem_cons_self)).2 rfl
        rw [Line.isReadable, hclosed, Bool.or_true] at hnone
        cases hnone
    rw [hup_eq]
    exact hs.client (hbatch ▸ List.subset_cons_self _ _)
      (hs.place.move (.inr (.inr hphase)) (.inr (.inr (.inl rfl))) rfl)
  · cases h

theorem inv_step (s : Line) (e : LineEvent) (t : Line) (hs : Inv s) (hkeeps : Keeps s e)
    (h : s.step e = some t) : Inv t := by
  cases e with
  | daemon e => exact hs.daemon h
  | arrives n =>
    obtain ⟨hle, ⟨⟩⟩ := Option.ite_none_right_eq_some.1 h
    refine ⟨hs.framed, hle, fun hclosed => ?_, hs.batch, hs.place⟩
    obtain ⟨hended, hall⟩ := hs.closed hclosed
    refine ⟨hended, Nat.le_antisymm hle ?_⟩
    rw [← hall]
    exact Nat.le_add_right _ _
  | closes =>
    obtain ⟨hdone, ⟨⟩⟩ := Option.ite_none_right_eq_some.1 h
    rw [Bool.and_eq_true, decide_eq_true_eq, decide_eq_true_eq] at hdone
    exact ⟨hs.framed, hs.arrived, fun _ => hdone,
      fun pollin hup h => ⟨(hs.batch pollin hup h).1, fun _ => rfl⟩, hs.place⟩
  | polls ready =>
    obtain ⟨hwaiting, ⟨⟩⟩ := Option.ite_none_right_eq_some.1 h
    obtain ⟨hphase, hready⟩ := Bool.and_eq_true_iff.1 hwaiting
    refine ⟨hs.framed, hs.arrived, hs.closed, fun pollin hup hmem => ?_,
      hs.place.move (.inl (of_decide_eq_true hphase)) (.inr (.inr (.inl rfl))) rfl⟩
    have hall := List.all_eq_true.1 (Bool.and_eq_true_iff.1 hready).2 _ hmem
    simp only [Bool.and_eq_true, beq_iff_eq, Bool.or_eq_true] at hall
    obtain ⟨⟨hin, hout⟩, hsome⟩ := hall
    have hclosed (h : hup = true) : s.closed = true := hout ▸ h
    refine ⟨hsome.elim id fun h => ?_, hclosed⟩
    rw [hin, Line.isReadable, hclosed h, Bool.or_true]
  | fails => exact absurd hkeeps id
  | reads size =>
    obtain ⟨hsize, ⟨⟩⟩ := Option.ite_none_right_eq_some.1 h
    simp only [Bool.and_eq_true, decide_eq_true_eq] at hsize
    exact hs.reads hsize.1.1 hsize.1.2 hsize.2
  | cut =>
    obtain ⟨hcut, -⟩ := Option.ite_none_right_eq_some.1 h
    simp only [Bool.and_eq_true, decide_eq_true_eq] at hcut
    exact absurd (hs.not_cut hcut.1.1 hcut.1.2 hcut.2) id
  | probes =>
    obtain ⟨hphase, h⟩ := Option.ite_none_right_eq_some.1 h
    split at h
    · cases h
      exact hs.client (List.Subset.refl _) (hs.place.move (.inr (.inr hphase)) (.inl rfl) rfl)
    · next hnone =>
      obtain ⟨c, hc, rfl⟩ := Option.map_eq_some_iff.1 h
      exact hs.afterPoll hphase (Bool.not_eq_true _ ▸ hnone) hc
  | types sent =>
    obtain ⟨hphase, h⟩ := Option.ite_none_right_eq_some.1 h
    obtain ⟨c, hc, rfl⟩ := Option.map_eq_some_iff.1 h
    obtain rfl : sent = true := hkeeps
    rw [Client.types] at hc
    split at hc
    · next rest hbatch =>
      cases hc
      exact hs.client (hbatch ▸ List.subset_cons_self _ _)
        (hs.place.move (.inr (.inl hphase)) (.inr (.inr (.inl hphase))) rfl)
    · cases hc
  | serves =>
    obtain ⟨hphase, h⟩ := Option.ite_none_right_eq_some.1 h
    obtain ⟨c, hc, rfl⟩ := Option.map_eq_some_iff.1 h
    exact hs.serves hphase hc

/-- What has been shown was sent, in this order. -/
theorem Inv.shown_prefix (hs : Inv s) (stream : Stream) :
    s.client.shown stream <+: shownOf s.session.sent stream := by
  cases hs.place with
  | header handled rest got hsent hphase hopen hlen hahead hshown =>
    rw [hshown, hsent, shownOf_append]
    exact List.prefix_append _ _
  | @payload handled rest frame front back got hsent hphase hopen hpayload hlen hahead hshown =>
    have hexit := hopen frame (List.mem_append_right _ (List.mem_singleton_self frame))
    rw [hshown, hsent, shownOf_append, ← List.singleton_append, shownOf_append,
      shownOf_singleton hexit, hpayload, ← List.append_assoc]
    refine List.IsPrefix.trans ?_ (List.prefix_append _ _)
    refine (List.prefix_append_right_inj _).2 ?_
    split
    · exact List.prefix_append _ _
    · exact List.prefix_rfl
  | code handled got hsent hphase hlen hahead hshown =>
    rw [hshown, hsent, shownOf_append]
    exact List.prefix_append _ _
  | ended handled hsent hphase hshown =>
    rw [hshown, hsent, shownOf_append]
    exact List.prefix_append _ _

theorem inv_of_guarded {isPty isRaw : Bool} {es : List LineEvent}
    (hkeeps : lineSystem.Guarded Keeps (.init isPty isRaw) es)
    (hrun : lineSystem.run (.init isPty isRaw) es = some s) : Inv s :=
  lineSystem.invariant_of_guarded inv_step (inv_init isPty isRaw) hkeeps hrun

/-- Beside the session nothing happens to it. -/
theorem watched_of_step {e : LineEvent} (h : s.step e = some t) : t.watched = s.watched ∨
    ∃ d, e = .daemon d ∧ watchedSystem.step s.watched d = some t.watched := by
  cases e with
  | daemon d =>
    obtain ⟨-, h⟩ := Option.ite_none_right_eq_some.1 h
    obtain ⟨w, hw, rfl⟩ := Option.map_eq_some_iff.1 h
    exact .inr ⟨d, rfl, hw⟩
  | arrives | closes | polls | fails | reads | cut =>
    obtain ⟨-, ⟨⟩⟩ := Option.ite_none_right_eq_some.1 h
    exact .inl rfl
  | probes =>
    obtain ⟨-, h⟩ := Option.ite_none_right_eq_some.1 h
    split at h
    · cases h
      exact .inl rfl
    · obtain ⟨c, -, rfl⟩ := Option.map_eq_some_iff.1 h
      exact .inl rfl
  | types | serves =>
    obtain ⟨-, h⟩ := Option.ite_none_right_eq_some.1 h
    obtain ⟨c, -, rfl⟩ := Option.map_eq_some_iff.1 h
    exact .inl rfl

end Run

theorem three_lt : 3 < 256 := by decide

/-- The command says something, and exits with 3 while the client is reading. -/
def exitsWhileRead : List LineEvent :=
  [.daemon (.starts .forked), .daemon (.createsEpoll true), .daemon .blocks,
    .daemon (.createsSignalfd true), .daemon .registers, .daemon (.writes .out [111, 107]),
    .daemon (.polls [.source .out true false false]), .daemon (.reads 2), .daemon (.reads 2),
    .daemon .checks, .arrives 6, .polls [.stdin, .sock true false], .types true, .serves, .reads 4,
    .reads 1, .reads 1, .daemon (.exits (.exited ⟨3, three_lt⟩)), .arrives 1, .reads 1, .probes, .serves,
    .daemon (.polls [.signal]), .daemon .readsSignal, .daemon .waits, .daemon .readsSignal,
    .daemon .checks, .daemon (.drains 1), .daemon (.drains 1), .daemon .ends, .arrives 9, .closes,
    .polls [.sock true true], .serves, .reads 5, .reads 4]

/-- Something is typed when the session is over and its last frame has come: the client ends with 0
instead of 3. -/
example : (lineSystem.run (.init true true) (exitsWhileRead.take 32 ++
    [.polls [.stdin, .sock true true], .types false])).any (fun s => s.client.phase = .ended &&
      s.client.exitCode = 0 && s.session.sent.getLast? = some (.exit 3)) = true := by
  decide +kernel

end Droidspaces.ClientRelay
