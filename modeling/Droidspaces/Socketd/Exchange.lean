import Droidspaces.Socketd.Connection

/-!
# The exchange with a client of the bridge

What is read from a client and sent to it, whatever the client and the host do
(`handleConn_answers_once`).
-/

namespace Droidspaces.Socketd

open Binary Config Transition

/-- What has gone over the connection. -/
structure Exchange where
  authorized : Bool
  /-- How many bytes have come. -/
  read : ℕ
  /-- How many the request has, as far as that is known. -/
  due : ℕ
  /-- The client has stopped in the middle. -/
  broken : Bool
  sent : List (Status × Bytes)

namespace Exchange

def start : Exchange := ⟨false, 0, header.size, false, []⟩

def note (g : Exchange) (op : BridgeOp) (r : op.Res) : Exchange :=
  match op, r with
  | .peerAuthorized, authorized => { g with authorized }
  | .readExact _, none => { g with broken := true }
  | .readExact n, some bytes =>
    { g with
      read := g.read + n
      due := if g.read = 0 then header.size + (header.get bytes.1).payloadLen else g.due }
  | .send status payload, _ => { g with sent := g.sent ++ [(status, payload)] }
  | _, _ => g

/-- The client is heard and nothing has been answered. -/
def IsOpen (g : Exchange) : Prop :=
  g.authorized = true ∧ g.broken = false ∧ g.sent = [] ∧ g.due ≤ header.size + maxPayload

/-- Nobody is answered twice, and with more than a status only if all is well; what comes behind
the request is not read, and the host not asked before the request is there in full. -/
def Admits (g : Exchange) : BridgeOp → Prop
  | .peerAuthorized => g.read = 0 ∧ g.sent = []
  | .readExact n => g.IsOpen ∧ g.read + n ≤ g.due
  | .send status payload => g.sent = [] ∧ (status ≠ .ok → payload = []) ∧
      payload.length ≤ maxPayload ∧ (g.authorized = false → status = .forbidden) ∧
      (g.broken = true → status = .badRequest)
  | _ => g.IsOpen ∧ g.read = g.due

/-- One answer. -/
def IsAnswered (g : Exchange) : Prop := g.sent.length = 1

/-- The request is there in full. -/
def IsComplete (g : Exchange) : Prop := g.IsOpen ∧ g.read = g.due

end Exchange

/-- The operation is about the host. -/
def BridgeOp.isHost : BridgeOp → Bool
  | peerAuthorized | readExact _ | send _ _ => false
  | _ => true

/-- The host is asked, and no container. -/
def BridgeOp.isCheck : BridgeOp → Bool
  | pathExists _ | kernelVersion | requirements _ | netNamespaces => true
  | _ => false

theorem BridgeOp.isHost_of_isCheck (op : BridgeOp) (hop : op.isCheck = true) :
    op.isHost = true := by
  cases op <;> first | rfl | cases hop

abbrev Exchanges {α : Type} (E : Exchange → α → Prop) (g : Exchange) (m : Bridge α) : Prop :=
  m.Traced Exchange.note Exchange.Admits E g

namespace Exchange

variable {g : Exchange} {op : BridgeOp} {α : Type}

theorem note_of_isHost (hop : op.isHost = true) (r : op.Res) : g.note op r = g := by
  cases op <;> first | rfl | cases hop

theorem admits_of_isHost (hop : op.isHost = true) (hg : g.IsComplete) : g.Admits op := by
  cases op <;> first | exact hg | cases hop

theorem exchanges_host {E : Exchange → α → Prop} {k : op.Res → Bridge α}
    (hop : op.isHost = true) (hg : g.IsComplete) (h : ∀ r, Exchanges E g (k r)) :
    Exchanges E g (ask op >>= k) :=
  Prog.traced_perform (admits_of_isHost hop hg) fun r => by rw [note_of_isHost hop]; exact h r

theorem exchanges_of_only {m : Bridge α} (hm : m.Only fun op => op.isHost = true)
    (hg : g.IsComplete) : Exchanges (fun g' _ => g' = g) g m :=
  hm.traced (I := fun g' => g' = g) (fun _ _ heq hop => heq ▸ admits_of_isHost hop hg)
    (fun _ _ r heq hop => by rw [note_of_isHost hop]; exact heq) rfl

theorem exchanges_send {status : Status} {payload : Bytes} (hg : g.IsOpen)
    (hpayload : status ≠ .ok → payload = []) (hlen : payload.length ≤ maxPayload) :
    Exchanges (fun g' _ => g'.IsAnswered) g (ask (.send status payload)) := by
  obtain ⟨hauth, hbroken, hsent, -⟩ := hg
  refine ⟨⟨hsent, hpayload, hlen, fun h => ?_, fun h => ?_⟩, fun _ => ?_⟩
  · rw [hauth] at h
    cases h
  · rw [hbroken] at h
    cases h
  · show (g.sent ++ [(status, payload)]).length = 1
    rw [hsent]
    rfl

theorem exchanges_sendStatus (status : Status) (hg : g.IsOpen) :
    Exchanges (fun g' _ => g'.IsAnswered) g (sendStatus status) :=
  exchanges_send hg (fun _ => rfl) (Nat.zero_le _)

/-- Somebody who is heard, and has no answer yet, can be refused. -/
def IsHeard (g : Exchange) : Prop := g.authorized = true ∧ g.sent = []

theorem exchanges_refuse (hg : g.IsHeard) :
    Exchanges (fun g' _ => g'.IsAnswered) g (sendStatus .badRequest) := by
  obtain ⟨hauth, hsent⟩ := hg
  refine ⟨⟨hsent, fun _ => rfl, Nat.zero_le _, fun h => ?_, fun _ => rfl⟩, fun _ => ?_⟩
  · rw [hauth] at h
    cases h
  · show (g.sent ++ [(Status.badRequest, [])]).length = 1
    rw [hsent]
    rfl

/-- The header is there, and so many bytes of payload are not. -/
def HasHeader (g : Exchange) (n : ℕ) : Prop := g.IsOpen ∧ 0 < g.read ∧ g.read + n = g.due

theorem HasHeader.isHeard {n : ℕ} (h : g.HasHeader n) : g.IsHeard := ⟨h.1.1, h.1.2.2.1⟩

/-- Some of the payload is read. -/
theorem exchanges_read {n k : ℕ} (hg : g.HasHeader n) (hk : k ≤ n) {E : Exchange → α → Prop}
    {next : Option { bytes : Bytes // bytes.length = k } → Bridge α}
    (hnone : ∀ g', g'.IsHeard → Exchanges E g' (next none))
    (hsome : ∀ g' bytes, g'.HasHeader (n - k) → Exchanges E g' (next (some bytes))) :
    Exchanges E g (ask (.readExact k) >>= next) := by
  obtain ⟨hopen, hpos, hdue⟩ := hg
  refine Prog.traced_perform ⟨hopen, by omega⟩ fun r => ?_
  cases r with
  | none => exact hnone _ ⟨hopen.1, hopen.2.2.1⟩
  | some bytes =>
    have hnote : (g.note (.readExact k) (some bytes)).due = g.due := if_neg (Nat.ne_of_gt hpos)
    refine hsome _ bytes ⟨⟨hopen.1, hopen.2.1, hopen.2.2.1, hnote ▸ hopen.2.2.2⟩, ?_, ?_⟩
    · exact Nat.add_pos_left hpos k
    · rw [hnote]
      show g.read + k + (n - k) = g.due
      omega

theorem discardPayload_spec {n : ℕ} (hg : g.HasHeader n) :
    Exchanges (fun g' ok => if ok = true then g'.IsComplete else g'.IsHeard) g
      (discardPayload n) := by
  induction n using Nat.strong_induction_on generalizing g with
  | _ n ih =>
    rw [discardPayload]
    by_cases hn : n = 0
    · rw [if_pos hn]
      subst hn
      exact ⟨hg.1, hg.2.2⟩
    · rw [if_neg hn]
      refine exchanges_read hg (Nat.min_le_left n 4096) (fun g' hg' => hg') fun g' bytes hg' => ?_
      exact ih (n - min n 4096) (by omega) hg'

theorem drainPayload_spec {n : ℕ} (hg : g.HasHeader n) :
    Exchanges (fun g' ok => if ok = true then g'.IsComplete else g'.IsAnswered) g
      (drainPayload n) := by
  rw [drainPayload]
  by_cases hn : n > 0
  · rw [if_pos hn]
    refine Prog.traced_bind ((discardPayload_spec hg).mono fun g' ok hok => ?_)
    cases ok with
    | true => exact hok
    | false => exact Prog.traced_bind (exchanges_refuse hok)
  · rw [if_neg hn]
    exact ⟨hg.1, by have := hg.2.2; omega⟩

theorem readPayload_spec {expected actual : ℕ} (hg : g.HasHeader actual) :
    Exchanges (fun g' req => if req.isSome = true then g'.IsComplete else g'.IsHeard) g
      (readPayload expected actual) := by
  rw [readPayload]
  by_cases hlen : actual ≠ expected
  · rw [if_pos hlen]
    exact hg.isHeard
  · rw [if_neg hlen]
    rw [not_not] at hlen
    subst hlen
    refine exchanges_read hg le_rfl (fun g' hg' => hg') fun g' bytes hg' => ?_
    exact ⟨hg'.1, by have := hg'.2.2; omega⟩

/-! ## The requests -/

/-- What is answered to a request whose payload says nothing. -/
theorem exchanges_drained {n : ℕ} (hg : g.HasHeader n) {m : Bridge Unit}
    (hm : ∀ g', g'.IsComplete → Exchanges (fun g' _ => g'.IsAnswered) g' m) :
    Exchanges (fun g' _ => g'.IsAnswered) g
      (drainPayload n >>= fun ok => if ok = true then m else pure ()) := by
  refine Prog.traced_bind ((drainPayload_spec hg).mono fun g' ok hok => ?_)
  cases ok with
  | true => exact hm g' hok
  | false => exact hok

/-- What is answered to a request with a payload, of `n` bytes or not. -/
theorem exchanges_payload {n expected : ℕ} (hg : g.HasHeader n) {m : Bytes → Bridge Unit}
    (hm : ∀ g' req, g'.IsComplete → Exchanges (fun g' _ => g'.IsAnswered) g' (m req)) :
    Exchanges (fun g' _ => g'.IsAnswered) g (readPayload expected n >>= fun req => match req with
      | none => sendStatus .badRequest
      | some req => m req) := by
  refine Prog.traced_bind ((readPayload_spec hg).mono fun g' req hreq => ?_)
  cases req with
  | none => exact exchanges_refuse hreq
  | some req => exact hm g' req hreq

/-- The same where no payload stands for `blank`. -/
theorem exchanges_optional {n expected : ℕ} {blank : Bytes} (hg : g.HasHeader n)
    {m : Bytes → Bridge Unit}
    (hm : ∀ g' req, g'.IsComplete → Exchanges (fun g' _ => g'.IsAnswered) g' (m req)) :
    Exchanges (fun g' _ => g'.IsAnswered) g
      (readOptional expected n blank >>= fun req => match req with
        | none => sendStatus .badRequest
        | some req => m req) := by
  rw [readOptional]
  by_cases hn : n ≠ 0
  · rw [if_pos hn]
    exact exchanges_payload hg hm
  · rw [if_neg hn]
    exact hm g blank ⟨hg.1, by have := hg.2.2; omega⟩

theorem exchanges_ok {payload : Bytes} (hg : g.IsOpen) (hlen : payload.length ≤ maxPayload) :
    Exchanges (fun g' _ => g'.IsAnswered) g (ask (.send .ok payload)) :=
  exchanges_send hg (fun h => absurd rfl h) hlen

theorem handlePing_spec {n : ℕ} (hg : g.HasHeader n) :
    Exchanges (fun g' _ => g'.IsAnswered) g (handlePing n) :=
  exchanges_drained hg fun _ hg' => exchanges_ok hg'.1 (by decide)

theorem handleCapabilities_spec {n : ℕ} (hg : g.HasHeader n) :
    Exchanges (fun g' _ => g'.IsAnswered) g (handleCapabilities n) :=
  exchanges_drained hg fun _ hg' => exchanges_ok hg'.1 (by decide)

theorem handleInfo_spec {n : ℕ} (hg : g.HasHeader n) :
    Exchanges (fun g' _ => g'.IsAnswered) g (handleInfo n) := by
  refine exchanges_drained hg fun _ hg' => exchanges_host rfl hg' fun installedCount =>
    exchanges_host rfl hg' fun running => exchanges_ok hg'.1 ?_
  rw [Codec.length_put]
  decide

/-- Records that fit are sent. -/
theorem exchanges_records {β : Type} {c : Codec β} (hg : g.IsOpen) (records : Option (Records c)) :
    Exchanges (fun g' _ => g'.IsAnswered) g (sendRecords c records) := by
  cases records with
  | none => exact exchanges_sendStatus _ hg
  | some records =>
    refine exchanges_ok hg ?_
    rw [length_flatMap_of_size c.length_put]
    exact records.2

theorem handleListContainers_spec {n : ℕ} (hg : g.HasHeader n) :
    Exchanges (fun g' _ => g'.IsAnswered) g (handleListContainers n) :=
  exchanges_optional hg fun _ _ hg' => exchanges_host rfl hg' fun records =>
    exchanges_records hg'.1 records

theorem handleListImages_spec {n : ℕ} (hg : g.HasHeader n) :
    Exchanges (fun g' _ => g'.IsAnswered) g (handleListImages n) :=
  exchanges_drained hg fun _ hg' => exchanges_host rfl hg' fun records =>
    exchanges_records hg'.1 records

theorem handleInspectContainer_spec {n : ℕ} (hg : g.HasHeader n) :
    Exchanges (fun g' _ => g'.IsAnswered) g (handleInspectContainer n) := by
  refine exchanges_payload hg fun g' req hg' => ?_
  by_cases htarget : targetOf req = []
  · simp only [htarget, if_true]
    exact exchanges_sendStatus _ hg'.1
  · simp only [htarget, if_false]
    refine exchanges_host rfl hg' fun answer => ?_
    cases answer with
    | refused status h => exact exchanges_sendStatus _ hg'.1
    | found loaded =>
      refine exchanges_host rfl hg' fun look => ?_
      have hsend (startedAt : ℤ) (pid : ℤ) : Exchanges (fun g' _ => g'.IsAnswered) g'
          (ask (.send .ok (inspectRecord.put
            (packInspectRecord (fun _ => startedAt) loaded.cfg [] pid)))) := by
        refine exchanges_ok hg'.1 ?_
        rw [Codec.length_put]
        decide
      refine Prog.traced_bind ((exchanges_of_only ?_ hg').mono fun _ startedAt heq => ?_)
      · exact Prog.only_ite (Prog.only_perform rfl) trivial
      · rw [heq]
        exact hsend startedAt _

theorem length_eventRecords {bytes record : Bytes} (h : record ∈ eventRecords bytes) :
    record.length = recordSize := by
  obtain ⟨i, hi, rfl⟩ := List.mem_map.1 h
  have hle : (i + 1) * recordSize ≤ bytes.length :=
    (Nat.mul_le_mul_right _ (List.mem_range.1 hi)).trans (Nat.div_mul_le_self _ _)
  exact length_field (by rw [Nat.succ_mul] at hle; exact hle)

/-- The events that are sent. -/
theorem pollEvents_eq_some {since : ℤ} {bytes payload : Bytes} :
    pollEvents since bytes = some payload ↔
      payload = ((eventRecords bytes).filter fun record => since ≤ eventTime record).flatten ∧
      Memory.HasRoom (maxPayload / recordSize) 16
        ((eventRecords bytes).filter fun record => since ≤ eventTime record).length := by
  have hcap : 16 ≤ maxPayload / recordSize := by decide
  simp only [pollEvents, Option.map_eq_some_iff (f := List.flatten),
    Memory.pushAll_eq_some (by decide : 0 < 16) hcap]
  constructor
  · rintro ⟨records, ⟨rfl, hroom⟩, rfl⟩
    exact ⟨rfl, hroom⟩
  · rintro ⟨rfl, hroom⟩
    exact ⟨_, ⟨rfl, hroom⟩, rfl⟩

theorem length_pollEvents {since : ℤ} {bytes payload : Bytes}
    (h : pollEvents since bytes = some payload) : payload.length ≤ maxPayload := by
  obtain ⟨rfl, hroom⟩ := pollEvents_eq_some.1 h
  have hsize : ∀ record ∈ (eventRecords bytes).filter fun record => since ≤ eventTime record,
      record.length = recordSize := fun record hrecord =>
    length_eventRecords (List.mem_filter.1 hrecord).1
  rw [List.length_flatten, List.map_congr_left hsize, List.map_const',
    List.sum_replicate_nat]
  exact (Nat.mul_le_mul_right _ hroom.le).trans (Nat.div_mul_le_self _ _)

theorem handlePollEvents_spec {n : ℕ} (hg : g.HasHeader n) :
    Exchanges (fun g' _ => g'.IsAnswered) g (handlePollEvents n) := by
  refine exchanges_optional hg fun g' req hg' => exchanges_host rfl hg' fun file => ?_
  cases file with
  | missing => exact exchanges_sendStatus _ hg'.1
  | unreadable => exact exchanges_sendStatus _ hg'.1
  | contents bytes =>
    dsimp only
    cases hpayload : pollEvents ((Codec.signed 8).get req) bytes with
    | none => exact exchanges_sendStatus _ hg'.1
    | some payload => exact exchanges_ok hg'.1 (length_pollEvents hpayload)

/-! ## What changes something -/

theorem validateStartConfig_only (cfg : DsConfig) :
    (validateStartConfig cfg).Only fun op => op.isCheck = true := by
  unfold validateStartConfig
  repeat first
    | exact trivial
    | refine Prog.only_ite ?_ ?_
    | refine Prog.only_bind (Prog.only_perform rfl) fun r => ?_

theorem only_ask {k : op.Res → Bridge α} (hop : op.isHost = true)
    (h : ∀ r, (k r).Only fun op => op.isHost = true) :
    (ask op >>= k).Only fun op => op.isHost = true :=
  ⟨hop, h⟩

theorem only_validate {cfg : DsConfig} {k : Bool → Bridge α}
    (h : ∀ ok, (k ok).Only fun op => op.isHost = true) :
    (validateStartConfig cfg >>= k).Only fun op => op.isHost = true :=
  Prog.only_bind ((validateStartConfig_only cfg).mono BridgeOp.isHost_of_isCheck) h

theorem lifecycle_only (request : Lifecycle) (cfg : DsConfig) (timeout : ℤ) :
    (request.run cfg timeout).Only fun op => op.isHost = true := by
  cases request with
  | start =>
    exact only_ask rfl fun look => Prog.only_ite trivial <| only_validate fun ok =>
      Prog.only_ite trivial <| only_ask rfl fun _ => only_ask rfl fun started =>
      Prog.only_ite trivial <| only_ask rfl fun look => Prog.only_ite trivial trivial
  | stop =>
    exact only_ask rfl fun look => Prog.only_ite trivial <| only_ask rfl fun _ =>
      only_ask rfl fun stopped => Prog.only_ite trivial <| only_ask rfl fun look =>
      Prog.only_ite trivial trivial
  | restart =>
    refine only_ask rfl fun look => only_validate fun ok => Prog.only_ite trivial <|
      only_ask rfl fun _ => ?_
    have hlook : (ask (.isRunning cfg) >>= fun look' =>
        if !isUp look' then pure .internalError
        else if isUp look then ask (.recordRestart cfg) >>= fun _ => pure Status.ok
        else pure .ok : Bridge Status).Only fun op => op.isHost = true :=
      only_ask rfl fun _ => Prog.only_ite trivial <|
        Prog.only_ite (only_ask rfl fun _ => trivial) trivial
    exact Prog.only_ite (only_ask rfl fun _ => Prog.only_ite trivial hlook)
      (only_ask rfl fun _ => Prog.only_ite trivial hlook)

theorem handleLifecycleRequest_spec {n : ℕ} (hg : g.HasHeader n) (request : Lifecycle) :
    Exchanges (fun g' _ => g'.IsAnswered) g (handleLifecycleRequest n request) := by
  have hread : Exchanges
      (fun g' req => if req.isSome = true then g'.IsComplete else g'.IsHeard) g
      (readLifecycleRequest n) := by
    refine Prog.traced_bind ((readPayload_spec hg).mono fun g' req hreq => ?_)
    cases req with
    | none => exact hreq
    | some req =>
      show if (lifecycleRequest req).isSome = true then g'.IsComplete else g'.IsHeard
      split
      · exact hreq
      · exact ⟨hreq.1.1, hreq.1.2.2.1⟩
  refine Prog.traced_bind (hread.mono fun g' req hreq => ?_)
  cases req with
  | none => exact exchanges_refuse hreq
  | some req =>
    refine exchanges_host rfl hreq fun answer => ?_
    cases answer with
    | refused status h => exact exchanges_sendStatus _ hreq.1
    | found loaded =>
      refine Prog.traced_bind ((exchanges_of_only (lifecycle_only request loaded.cfg req.2)
        hreq).mono fun g'' status heq => ?_)
      subst heq
      exact exchanges_sendStatus _ hreq.1

theorem handleOpcode_spec {n : ℕ} (hg : g.HasHeader n) (opcode : Opcode) :
    Exchanges (fun g' _ => g'.IsAnswered) g (handleOpcode n opcode) := by
  cases opcode with
  | ping => exact handlePing_spec hg
  | capabilities => exact handleCapabilities_spec hg
  | info => exact handleInfo_spec hg
  | listContainers => exact handleListContainers_spec hg
  | inspectContainer => exact handleInspectContainer_spec hg
  | startContainer | stopContainer | restartContainer =>
    exact handleLifecycleRequest_spec hg _
  | listImages => exact handleListImages_spec hg
  | pollEvents => exact handlePollEvents_spec hg

end Exchange

end Droidspaces.Socketd
