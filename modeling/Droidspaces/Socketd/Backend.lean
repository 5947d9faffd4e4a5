import Droidspaces.Socketd.Exchange
import Droidspaces.Socketd.ListImages

/-!
# The bridge on a host

A host with its containers, its processes and its log of events, which stands still, and a client
that sends one frame and waits.  `serve_request` has the frame taken apart and the request carried
out; what is packed then is in the range of the records.
-/

namespace Droidspaces.Socketd

open Binary Config Memory Transition

/-! ## Answers that fit -/

section Inventory

variable {sys : System} {android : Bool} {inv : Inventory sys android}

theorem Inventory.listContainers_le {includeAll : Bool} {records : List ContainerRecord}
    (h : inv.listContainers includeAll = some records) :
    records.length * containerRecord.size ≤ maxPayload := by
  by_cases hroom : inv.HasRoomFor (inv.found includeAll).length
  · rw [inv.listContainers_of_room includeAll hroom] at h
    obtain rfl := Option.some.inj h
    rw [List.length_map]
    exact (Nat.mul_le_mul_right _ hroom.le).trans (Nat.div_mul_le_self _ _)
  · rw [inv.listContainers_of_not includeAll hroom] at h
    cases h

theorem Inventory.listImages_le {records : List ImageRecord} (h : inv.listImages = some records) :
    records.length * imageRecord.size ≤ maxPayload := by
  obtain ⟨rfl, hroom⟩ := inv.listImages_eq_some.1 h
  rw [List.length_map]
  exact (Nat.mul_le_mul_right _ hroom.le).trans (Nat.div_mul_le_self _ _)

end Inventory

/-! ## The bridge on that host -/

/-- What a request finds: the containers, the log of events, and whether the host does what is asked
of it. -/
structure Backend (sys : System) (android : Bool) where
  inv : Inventory sys android
  chost : IsCHost sys inv.workspace.host
  startedAt : ∀ pid, 0 ≤ inv.startedAt pid ∧ inv.startedAt pid < 2 ^ 63
  events : EventFile
  does : BridgeOp → Bool

/-- What is still to be read from the client, and what was sent to it. -/
structure Conversation where
  input : Bytes
  output : Bytes

/-- What the connection gives and takes. -/
def Conversation.read (s : Conversation) (n : ℕ) :
    Conversation × Option { bytes : Bytes // bytes.length = n } :=
  if h : n ≤ s.input.length then
    ({ s with input := s.input.drop n }, some ⟨s.input.take n, List.length_take_of_le h⟩)
  else ({ s with input := [] }, none)

def Conversation.send (s : Conversation) (status : Status) (payload : Bytes) : Conversation :=
  { s with output := s.output ++ response status payload }

def LoadAnswer.ofAnswer (answer : Answer) : LoadAnswer :=
  if h : answer.1 = .ok then
    match answer.2 with
    | some loaded => .found loaded
    | none => .refused .internalError (by decide)
  else .refused answer.1 h

section Backend

variable {sys : System} {android : Bool} (b : Backend sys android)

def Backend.perform (s : Conversation) : (op : BridgeOp) → Conversation × op.Res
  | .peerAuthorized => (s, true)
  | .readExact n => s.read n
  | .send status payload => (s.send status payload, ())
  | .countInstalled => (s, b.inv.countInstalled)
  | .countRunning => (s, ((countRunningContainers b.inv.table b.inv.entries b.inv.files).2 : ℕ))
  | .listContainers includeAll =>
    (s, (b.inv.listContainers includeAll).pmap Subtype.mk fun _ => b.inv.listContainers_le)
  | .listImages => (s, b.inv.listImages.pmap Subtype.mk fun _ => b.inv.listImages_le)
  | .loadConfig target => (s, .ofAnswer (b.inv.workspace.answer target))
  | .isRunning cfg =>
    let look := isContainerRunning b.inv.table b.inv.files (nameOf cfg) (uuidOf cfg)
    (s, look.1, look.2.1)
  | .startedAt pid => (s, b.inv.startedAt pid)
  | .readEvents => (s, b.events)
  | .prepareRuntime _ | .recordRestart _ => (s, ())
  | .pathExists path => (s, b.does (.pathExists path))
  | .kernelVersion => (s, b.does .kernelVersion)
  | .requirements hwAccess => (s, b.does (.requirements hwAccess))
  | .netNamespaces => (s, b.does .netNamespaces)
  | .startRootfs cfg => (s, b.does (.startRootfs cfg))
  | .stopRootfs cfg timeout => (s, b.does (.stopRootfs cfg timeout))
  | .restartRootfs cfg timeout => (s, b.does (.restartRootfs cfg timeout))

/-- What comes back on a connection. -/
def Backend.serve (input : Bytes) : Bytes := (handleConn.runIn b.perform ⟨input, []⟩).1.output

end Backend

/-- What a client sends. -/
def request (opcode : Opcode) (payload : Bytes) : Bytes :=
  header.put ⟨protoMagic, protoVersion, opcode.code, payload.length⟩ ++ payload

/-- What a client hears. -/
def Backend.reply {sys : System} {android : Bool} (b : Backend sys android) (opcode : Opcode)
    (payload : Bytes) : Option (Status × Bytes) :=
  readResponse (b.serve (request opcode payload))

/-! ## What is done about a frame -/

section Run

variable {sys : System} {android : Bool} (b : Backend sys android) {α : Type} {payload out : Bytes}
  {opcode : Opcode}

def Backend.run (m : Bridge α) (s : Conversation) : Conversation × α := m.runIn b.perform s

theorem Backend.run_bind {β : Type} (m : Bridge α) (f : α → Bridge β) (s : Conversation) :
    b.run (m >>= f) s = b.run (f (b.run m s).2) (b.run m s).1 :=
  Prog.runIn_bind b.perform m f s

theorem Backend.run_ask (op : BridgeOp) (s : Conversation) : b.run (ask op) s = b.perform s op :=
  rfl

theorem Conversation.read_of_le {s : Conversation} {n : ℕ} (h : n ≤ s.input.length) :
    s.read n = ({ s with input := s.input.drop n },
      some ⟨s.input.take n, List.length_take_of_le h⟩) :=
  dif_pos h

theorem Backend.run_discard (n : ℕ) {s : Conversation} (h : n ≤ s.input.length) :
    b.run (discardPayload n) s = ({ s with input := s.input.drop n }, true) := by
  induction n using Nat.strongRecOn generalizing s with
  | ind n ih =>
    rw [discardPayload]
    split
    · next hzero =>
      subst hzero
      rfl
    · next hpos =>
      have hle : min n 4096 ≤ s.input.length := (Nat.min_le_left n 4096).trans h
      rw [b.run_bind, b.run_ask, Backend.perform, Conversation.read_of_le hle]
      dsimp only
      rw [ih _ (by omega) (by rw [List.length_drop]; omega), List.drop_drop,
        Nat.add_sub_cancel' (Nat.min_le_left n 4096)]

/-- A payload that says nothing is passed over. -/
theorem Backend.run_drain :
    b.run (drainPayload payload.length) ⟨payload, out⟩ = (⟨[], out⟩, true) := by
  have hdiscard := b.run_discard payload.length (s := ⟨payload, out⟩) (Nat.le_refl _)
  rw [drainPayload]
  split
  · rw [b.run_bind, hdiscard, List.drop_length]
    rfl
  · next hnot =>
    rw [List.length_eq_zero_iff.1 (Nat.eq_zero_of_not_pos hnot)]
    rfl

theorem Backend.run_payload :
    b.run (readPayload payload.length payload.length) ⟨payload, out⟩ =
      (⟨[], out⟩, some payload) := by
  rw [readPayload, if_neg (not_not.2 rfl), b.run_bind, b.run_ask, Backend.perform,
    Conversation.read_of_le (Nat.le_refl _)]
  simp only [List.drop_length, List.take_length]
  rfl

/-- The frame is taken apart, and the request is carried out. -/
theorem Backend.serve_request (h : payload.length ≤ maxPayload) :
    b.serve (request opcode payload) =
      (b.run (handleOpcode payload.length opcode) ⟨payload, []⟩).1.output := by
  have hlen : payload.length < 2 ^ 32 := Nat.lt_of_le_of_lt h (by decide)
  have hget := header.get_put ⟨protoMagic, protoVersion, opcode.code, payload.length⟩ [] <|
    header_fits (by show 0x44534150 < _; decide) (by show 1 < _; decide) opcode.code_lt hlen
  have hsize : header.size ≤ (request opcode payload).length := by
    rw [request, List.length_append, Codec.length_put]
    exact Nat.le_add_right _ _
  show (b.run handleConn ⟨request opcode payload, []⟩).1.output = _
  rw [handleConn, b.run_bind, b.run_ask, Backend.perform]
  simp only [Bool.not_true, Bool.false_eq_true, if_false]
  rw [b.run_bind, b.run_ask, Backend.perform, Conversation.read_of_le hsize]
  simp only [request, Codec.take_put, Codec.drop_put]
  rw [List.append_nil] at hget
  rw [hget]
  simp only [ne_eq, not_true_eq_false, or_self, if_false, Nat.not_lt.2 h, opcodeOf_code]

theorem Backend.reply_of_output {status : Status} {answer : Bytes} (h : payload.length ≤ maxPayload)
    (hanswer : answer.length ≤ maxPayload)
    (hout : (b.run (handleOpcode payload.length opcode) ⟨payload, []⟩).1.output =
      response status answer) :
    b.reply opcode payload = some (status, answer) := by
  rw [reply, b.serve_request h, hout,
    readResponse_response _ (Nat.lt_of_le_of_lt hanswer (by decide))]

end Run

/-! ## What is packed -/

section Packed

variable {sys : System} {android : Bool} {t : ProcTable} {files : PidFiles} {name uuid dir : Text}
  {pid : ℤ}

theorem mem_of_running {content : Option Text}
    (h : readAndValidatePid t content = (.running, pid)) : ∃ p ∈ t.procs, (p.pid : ℤ) = pid := by
  unfold readAndValidatePid at h
  split at h
  · cases h
  · split_ifs at h with hgone hcontainer
    · cases h
    · obtain ⟨p, hp, hpid⟩ := List.any_eq_true.1 hcontainer
      obtain rfl := (Prod.mk.inj h).2
      rw [Bool.and_eq_true, decide_eq_true_eq] at hpid
      exact ⟨p, hp, hpid.1⟩
    · cases h

/-- A process that is found has a number that a `pid_t` can have. -/
theorem runningPid_lt (h : runningPid t files name uuid = some pid) : pid < 2 ^ 31 := by
  have hmem : ∃ p ∈ t.procs, (p.pid : ℤ) = pid := by
    have hname : name ≠ [] := by
      rintro rfl
      cases h
    rw [runningPid_eq hname] at h
    split at h
    · next hread => exact Option.some.inj h ▸ mem_of_running hread
    · cases hfound : findContainerInitPid t uuid with
      | none =>
        rw [hfound] at h
        cases h
      | some n =>
        rw [hfound] at h
        obtain ⟨p, hp, rfl, -⟩ := findContainerInitPid_mem hfound
        exact ⟨p, hp, Option.some.inj h⟩
  obtain ⟨p, hp, rfl⟩ := hmem
  have hlt : p.pid < 2 ^ 31 := Nat.lt_trans (t.pid_lt p hp) (by decide)
  omega

theorem runningPid_getD_lt (t : ProcTable) (files : PidFiles) (name uuid : Text) :
    (runningPid t files name uuid).getD 0 < 2 ^ 31 := by
  cases h : runningPid t files name uuid with
  | none => decide
  | some pid => exact runningPid_lt h

variable (b : Backend sys android)

theorem Backend.isTyped_cfgOf (hdir : dir ∈ b.inv.containers) : IsTyped (b.inv.cfgOf dir) :=
  isTyped_load b.chost (configOf_eq_some_iff.1 (b.inv.mem_containers.1 hdir).2).2

theorem Backend.recordOf_fits (hdir : dir ∈ b.inv.containers) :
    containerRecord.Fits (b.inv.recordOf dir) :=
  containerRecord_fits (b.isTyped_cfgOf hdir) (runningPid_getD_lt _ _ _ _) b.startedAt

end Packed

/-! ## A host with one container -/

theorem isCChar_of_all {t : Text}
    (h : t.all (fun c => decide (0 < c.toNat) && decide (c.toNat < 256)) = true) :
    ∀ c ∈ t, IsCChar c := by
  intro c hc
  have := List.all_eq_true.1 h c hc
  rw [Bool.and_eq_true, decide_eq_true_eq, decide_eq_true_eq] at this
  exact this

theorem isCHost_lost : IsCHost plainSystem lostHost where
  resolve _ ht := ht
  file name t ht := by
    simp only [lostHost, Option.ite_none_right_eq_some, Option.some.injEq] at ht
    obtain ⟨-, rfl⟩ := ht
    exact isCChar_of_all (by decide)
  snapshot p hp t ht := by
    obtain rfl := List.mem_singleton.1 hp
    obtain rfl := Option.some.inj ht
    exact isCChar_of_all (by decide)

def lostBackend (events : EventFile) : Backend plainSystem true where
  inv := lostInventory
  chost := isCHost_lost
  startedAt _ := ⟨Int.le_refl 0, (by decide : (0 : ℤ) < 2 ^ 63)⟩
  events := events
  does _ := true

end Droidspaces.Socketd
