import Droidspaces.Socketd.Exchange

/-!
# What a client of the bridge can have done to containers

A request looks at a container before it does something to it, and again afterwards
(`handleConn_acts_on_sight`).  Between two looks the container may have come or gone.
-/

namespace Droidspaces.Socketd

open Binary Config Transition

/-- What is known about containers and was done to them. -/
structure Sight where
  opcode : Option Opcode
  /-- The last look at a container, unless something was done since. -/
  seen : Option (DsConfig × Bool)
  done : List (Lifecycle × DsConfig)

namespace Sight

def start : Sight := ⟨none, none, []⟩

def note (g : Sight) (op : BridgeOp) (r : op.Res) : Sight :=
  match op, r with
  | .readExact _, some bytes =>
    { g with opcode := if g.opcode = none then opcodeOf (header.get bytes.1).code else g.opcode }
  | .isRunning cfg, look => { g with seen := some (cfg, isUp look) }
  | .startRootfs cfg, _ => { g with seen := none, done := g.done ++ [(.start, cfg)] }
  | .stopRootfs cfg _, _ => { g with seen := none, done := g.done ++ [(.stop, cfg)] }
  | .restartRootfs cfg _, _ => { g with seen := none, done := g.done ++ [(.restart, cfg)] }
  | _, _ => g

/-- The container is as it was asked for, and was seen so after that was done. -/
def IsFulfilled (g : Sight) : Prop :=
  match g.opcode with
  | some .startContainer => ∃ cfg, g.done = [(.start, cfg)] ∧ g.seen = some (cfg, true)
  | some .stopContainer => ∃ cfg, g.done = [(.stop, cfg)] ∧ g.seen = some (cfg, false)
  | some .restartContainer => ∃ cfg, (g.done = [(.start, cfg)] ∨ g.done = [(.restart, cfg)]) ∧
      g.seen = some (cfg, true)
  | _ => g.done = []

/-- What a status says. -/
def Reports (g : Sight) : Status → Prop
  | .ok => g.IsFulfilled
  | .alreadyRunning => g.opcode = some .startContainer ∧ g.done = [] ∧
      ∃ cfg, g.seen = some (cfg, true)
  | .alreadyStopped => g.opcode = some .stopContainer ∧ g.done = [] ∧
      ∃ cfg, g.seen = some (cfg, false)
  | .internalError => True
  | .badRequest | .unsupported | .notFound | .forbidden => g.done = []

/-- One thing is done, which was asked for, to a container that was just seen to need it. -/
def Admits (g : Sight) : BridgeOp → Prop
  | .startRootfs cfg => g.done = [] ∧ g.seen = some (cfg, false) ∧
      (g.opcode = some .startContainer ∨ g.opcode = some .restartContainer)
  | .stopRootfs cfg _ => g.done = [] ∧ g.seen = some (cfg, true) ∧ g.opcode = some .stopContainer
  | .restartRootfs cfg _ => g.done = [] ∧ g.seen = some (cfg, true) ∧
      g.opcode = some .restartContainer
  | .recordRestart cfg => g.done = [(.restart, cfg)] ∧ g.seen = some (cfg, true)
  | .send status _ => g.Reports status
  | _ => True

end Sight

/-- Neither does anything to a container nor says anything about one. -/
def BridgeOp.isPlain : BridgeOp → Bool
  | startRootfs _ | stopRootfs _ _ | restartRootfs _ _ | recordRestart _ => false
  | send status _ => status ≠ .alreadyRunning && status ≠ .alreadyStopped
  | _ => true

abbrev Sights {α : Type} (E : Sight → α → Prop) (g : Sight) (m : Bridge α) : Prop :=
  m.Traced Sight.note Sight.Admits E g

namespace Sight

variable {g : Sight} {op : BridgeOp} {α : Type}

/-- Nothing is done yet. -/
def IsIdle (opcode : Opcode) (g : Sight) : Prop := g.opcode = some opcode ∧ g.done = []

theorem isIdle_note {opcode : Opcode} (hop : op.isPlain = true) (hg : g.IsIdle opcode)
    (r : op.Res) : (g.note op r).IsIdle opcode := by
  obtain ⟨hopcode, hdone⟩ := hg
  cases op with
  | readExact n =>
    cases r with
    | none => exact ⟨hopcode, hdone⟩
    | some bytes =>
      have hknown : g.opcode ≠ none := by
        rw [hopcode]
        exact Option.some_ne_none opcode
      exact ⟨(if_neg hknown).trans hopcode, hdone⟩
  | startRootfs | stopRootfs | restartRootfs | recordRestart => cases hop
  | _ => exact ⟨hopcode, hdone⟩

/-- The request asks for no more than a look. -/
def IsLook (opcode : Opcode) : Prop :=
  opcode ≠ .startContainer ∧ opcode ≠ .stopContainer ∧ opcode ≠ .restartContainer

theorem reports_of_isIdle {opcode : Opcode} (hopcode : IsLook opcode) (hg : g.IsIdle opcode)
    {status : Status} (hrunning : status ≠ .alreadyRunning) (hstopped : status ≠ .alreadyStopped) :
    g.Reports status := by
  cases status with
  | ok =>
    show g.IsFulfilled
    rw [IsFulfilled, hg.1]
    obtain ⟨hstart, hstop, hrestart⟩ := hopcode
    cases opcode with
    | startContainer => exact absurd rfl hstart
    | stopContainer => exact absurd rfl hstop
    | restartContainer => exact absurd rfl hrestart
    | _ => exact hg.2
  | alreadyRunning => exact absurd rfl hrunning
  | alreadyStopped => exact absurd rfl hstopped
  | internalError => trivial
  | _ => exact hg.2

theorem sights_of_plain {opcode : Opcode} (hopcode : IsLook opcode) (hg : g.IsIdle opcode)
    {m : Bridge α} (hm : m.Only fun op => op.isPlain = true) :
    Sights (fun g' _ => g'.IsIdle opcode) g m := by
  refine hm.traced (fun g op hg hop => ?_) (fun g op r hg hop => isIdle_note hop hg r) hg
  cases op with
  | send status payload =>
    simp only [BridgeOp.isPlain, ne_eq, Bool.and_eq_true, decide_eq_true_eq] at hop
    exact reports_of_isIdle hopcode hg hop.1 hop.2
  | startRootfs | stopRootfs | restartRootfs | recordRestart => cases hop
  | _ => trivial

/-! ### Requests that only look -/

theorem discardPayload_only {B : BridgeOp → Prop} (hread : ∀ n, B (.readExact n)) (n : ℕ) :
    (discardPayload n).Only B := by
  induction n using Nat.strong_induction_on with
  | _ n ih =>
    rw [discardPayload]
    by_cases hn : n = 0
    · rw [if_pos hn]
      trivial
    · rw [if_neg hn]
      refine Prog.only_bind (Prog.only_perform (hread _)) fun bytes => ?_
      cases bytes with
      | none => trivial
      | some bytes => exact ih _ (by omega)

theorem readPayload_only {B : BridgeOp → Prop} (hread : ∀ n, B (.readExact n)) (expected n : ℕ) :
    (readPayload expected n).Only B := by
  rw [readPayload]
  exact Prog.only_ite trivial (Prog.only_bind (Prog.only_perform (hread _)) fun _ => trivial)

/-- The requests that only look, whatever is answered. -/
theorem plain_drained {n : ℕ} {m : Bridge Unit} (hm : m.Only fun op => op.isPlain = true) :
    (drainPayload n >>= fun ok => if ok = true then m else pure ()).Only
      fun op => op.isPlain = true := by
  refine Prog.only_bind ?_ fun ok => Prog.only_ite hm trivial
  rw [drainPayload]
  exact Prog.only_ite (Prog.only_bind (discardPayload_only (fun _ => rfl) n) fun ok =>
    Prog.only_ite (Prog.only_bind (Prog.only_perform rfl) fun _ => trivial) trivial) trivial

theorem plain_payload {m : Bytes → Bridge Unit} {read : Bridge (Option Bytes)}
    (hread : read.Only fun op => op.isPlain = true)
    (hm : ∀ req, (m req).Only fun op => op.isPlain = true) :
    (read >>= fun req => match req with
      | none => sendStatus .badRequest
      | some req => m req).Only fun op => op.isPlain = true := by
  refine Prog.only_bind hread fun req => ?_
  cases req with
  | none => exact Prog.only_perform rfl
  | some req => exact hm req

theorem plain_optional (expected n : ℕ) (blank : Bytes) :
    (readOptional expected n blank).Only fun op => op.isPlain = true :=
  Prog.only_ite (readPayload_only (fun _ => rfl) expected n) trivial

theorem plain_records {β : Type} {c : Codec β} (records : Option (Records c)) :
    (sendRecords c records).Only fun op => op.isPlain = true := by
  cases records with
  | none => exact Prog.only_perform rfl
  | some records => exact Prog.only_perform rfl

theorem plain_status (status : SocketdStatus) :
    (sendStatus status.status).Only fun op => op.isPlain = true := by
  cases status <;> exact Prog.only_perform rfl

theorem handleInspectContainer_plain (n : ℕ) :
    (handleInspectContainer n).Only fun op => op.isPlain = true := by
  refine plain_payload (readPayload_only (fun _ => rfl) _ n) fun req => ?_
  refine Prog.only_ite (Prog.only_perform rfl) ?_
  refine Prog.only_bind (Prog.only_perform rfl) fun answer => ?_
  cases answer with
  | refused status h => exact plain_status status
  | found loaded =>
    exact Prog.only_bind (Prog.only_perform rfl) fun look => Prog.only_bind
      (Prog.only_ite (Prog.only_perform rfl) trivial) fun startedAt => Prog.only_perform rfl

theorem handlePollEvents_plain (n : ℕ) :
    (handlePollEvents n).Only fun op => op.isPlain = true := by
  refine plain_payload (plain_optional _ n _) fun req => ?_
  refine Prog.only_bind (Prog.only_perform rfl) fun file => ?_
  cases file with
  | missing => exact Prog.only_perform rfl
  | unreadable => exact Prog.only_perform rfl
  | contents bytes =>
    dsimp only
    cases pollEvents ((Codec.signed 8).get req) bytes with
    | none => exact Prog.only_perform rfl
    | some payload => exact Prog.only_perform rfl

theorem handleOpcode_plain (n : ℕ) {opcode : Opcode} (hopcode : IsLook opcode) :
    (handleOpcode n opcode).Only fun op => op.isPlain = true := by
  obtain ⟨hstart, hstop, hrestart⟩ := hopcode
  have hsend {status : Status} {payload : Bytes}
      (h : (BridgeOp.send status payload).isPlain = true) :
      (ask (.send status payload)).Only fun op => op.isPlain = true := Prog.only_perform h
  cases opcode with
  | ping => exact plain_drained (hsend rfl)
  | capabilities => exact plain_drained (hsend rfl)
  | info =>
    exact plain_drained (Prog.only_bind (Prog.only_perform rfl) fun installedCount =>
      Prog.only_bind (Prog.only_perform rfl) fun running => hsend rfl)
  | listContainers =>
    exact plain_payload (plain_optional _ n _) fun req =>
      Prog.only_bind (Prog.only_perform rfl) plain_records
  | inspectContainer => exact handleInspectContainer_plain n
  | startContainer => exact absurd rfl hstart
  | stopContainer => exact absurd rfl hstop
  | restartContainer => exact absurd rfl hrestart
  | listImages => exact plain_drained (Prog.only_bind (Prog.only_perform rfl) plain_records)
  | pollEvents => exact handlePollEvents_plain n

/-! ### Requests that change something -/

/-- The opcode of a request. -/
def opcodeOfLifecycle : Lifecycle → Opcode
  | .start => .startContainer
  | .stop => .stopContainer
  | .restart => .restartContainer

/-- How such a request ends. -/
abbrev Ends (g : Sight) (m : Bridge Status) : Prop :=
  Sights (fun g' status => g'.Reports status ∧ g'.done.length ≤ 1) g m

theorem ends_error (h : g.done.length ≤ 1) : Ends g (pure .internalError) := ⟨trivial, h⟩

theorem ends_validate {cfg : DsConfig} {k : Bool → Bridge Status} (h : ∀ ok, Ends g (k ok)) :
    Ends g (validateStartConfig cfg >>= k) := by
  refine Prog.traced_bind (((Exchange.validateStartConfig_only cfg).traced
    (I := fun g' => g' = g) (fun g' op _ hop => ?_) (fun g' op r heq hop => ?_) rfl).mono
      fun g' ok heq => heq ▸ h ok)
  · cases op <;> trivial
  · cases op <;> first | exact heq | cases hop

/-- The look after something was done. -/
theorem ends_up {cfg : DsConfig} {k : Bridge Status} (hdone : g.done.length ≤ 1)
    (hk : Ends { g with seen := some (cfg, true) } k) :
    Ends g (ask (.isRunning cfg) >>= fun look =>
      if !isUp look then pure .internalError else k) := by
  refine Prog.traced_perform trivial fun look => ?_
  by_cases hup : isUp look = true
  · rw [hup, Bool.not_true, if_neg Bool.false_ne_true]
    rw [← hup] at hk
    exact hk
  · rw [Bool.not_eq_true] at hup
    rw [hup, Bool.not_false, if_pos rfl]
    exact ends_error hdone

theorem lifecycleStart_ends (hg : g.IsIdle .startContainer) (cfg : DsConfig) :
    Ends g (lifecycleStart cfg) := by
  obtain ⟨hopcode, hdone⟩ := hg
  have hnone : g.done.length ≤ 1 := by simp [hdone]
  have hone : (g.done ++ [(Lifecycle.start, cfg)]).length ≤ 1 := by simp [hdone]
  refine Prog.traced_perform trivial fun look => ?_
  by_cases hup : isUp look = true
  · rw [if_pos hup]
    exact ⟨⟨hopcode, hdone, cfg, by rw [← hup]; rfl⟩, hnone⟩
  · rw [if_neg hup]
    rw [Bool.not_eq_true] at hup
    refine ends_validate fun ok => ?_
    split
    · exact ends_error hnone
    · refine Prog.traced_perform trivial fun _ => Prog.traced_perform
        ⟨hdone, by rw [← hup]; rfl, Or.inl hopcode⟩ fun started => ?_
      split
      · exact ends_error hone
      · refine ends_up hone ⟨?_, hone⟩
        show IsFulfilled _
        simp only [IsFulfilled, note, hopcode, hdone]
        exact ⟨cfg, rfl, rfl⟩

theorem lifecycleStop_ends (hg : g.IsIdle .stopContainer) (cfg : DsConfig) (timeout : ℤ) :
    Ends g (lifecycleStop cfg timeout) := by
  obtain ⟨hopcode, hdone⟩ := hg
  have hnone : g.done.length ≤ 1 := by simp [hdone]
  have hone : (g.done ++ [(Lifecycle.stop, cfg)]).length ≤ 1 := by simp [hdone]
  refine Prog.traced_perform trivial fun look => ?_
  by_cases hup : isUp look = true
  · rw [hup, Bool.not_true, if_neg Bool.false_ne_true]
    refine Prog.traced_perform trivial fun _ => Prog.traced_perform
      ⟨hdone, by rw [← hup]; rfl, hopcode⟩ fun stopped => ?_
    split
    · exact ends_error hone
    · refine Prog.traced_perform trivial fun look' => ?_
      by_cases hup' : isUp look' = true
      · rw [if_pos hup']
        exact ends_error hone
      · rw [if_neg hup']
        rw [Bool.not_eq_true] at hup'
        refine ⟨?_, hone⟩
        show IsFulfilled _
        simp only [IsFulfilled, note, hopcode, hdone, hup']
        exact ⟨cfg, rfl, rfl⟩
  · rw [Bool.not_eq_true] at hup
    rw [hup, Bool.not_false, if_pos rfl]
    exact ⟨⟨hopcode, hdone, cfg, by rw [← hup]; rfl⟩, hnone⟩

theorem lifecycleRestart_ends (hg : g.IsIdle .restartContainer) (cfg : DsConfig) (timeout : ℤ) :
    Ends g (lifecycleRestart cfg timeout) := by
  obtain ⟨hopcode, hdone⟩ := hg
  have hnone : g.done.length ≤ 1 := by simp [hdone]
  have hone (request : Lifecycle) : (g.done ++ [(request, cfg)]).length ≤ 1 := by simp [hdone]
  refine Prog.traced_perform trivial fun look => ends_validate fun ok => ?_
  split
  · exact ends_error hnone
  · refine Prog.traced_perform trivial fun _ => ?_
    by_cases hup : isUp look = true
    · simp only [hup, if_true]
      refine Prog.traced_perform ⟨hdone, by rw [← hup]; rfl, hopcode⟩ fun restarted => ?_
      split
      · exact ends_error (hone .restart)
      · refine ends_up (hone .restart) (Prog.traced_perform ⟨?_, rfl⟩ fun _ => ⟨?_, hone .restart⟩)
        · simp only [note, hdone, List.nil_append]
        · show IsFulfilled _
          simp only [IsFulfilled, note, hopcode, hdone]
          exact ⟨cfg, Or.inr rfl, rfl⟩
    · rw [Bool.not_eq_true] at hup
      simp only [hup, Bool.false_eq_true, if_false]
      refine Prog.traced_perform ⟨hdone, by rw [← hup]; rfl, Or.inr hopcode⟩ fun started => ?_
      split
      · exact ends_error (hone .start)
      · refine ends_up (hone .start) ⟨?_, hone .start⟩
        show IsFulfilled _
        simp only [IsFulfilled, note, hopcode, hdone]
        exact ⟨cfg, Or.inl rfl, rfl⟩

theorem lifecycle_ends (request : Lifecycle) (hg : g.IsIdle (opcodeOfLifecycle request))
    (cfg : DsConfig) (timeout : ℤ) : Ends g (request.run cfg timeout) := by
  cases request with
  | start => exact lifecycleStart_ends hg cfg
  | stop => exact lifecycleStop_ends hg cfg timeout
  | restart => exact lifecycleRestart_ends hg cfg timeout

/-- Requests that are refused are no news about a container. -/
theorem sights_refuse {opcode : Opcode} (hg : g.IsIdle opcode) (status : SocketdStatus)
    (h : status ≠ .ok) : Sights (fun g' _ => g'.done.length ≤ 1) g (sendStatus status.status) := by
  have hnone : g.done.length ≤ 1 := by simp [hg.2]
  cases status with
  | ok => exact absurd rfl h
  | internalError => exact ⟨trivial, fun _ => hnone⟩
  | badRequest => exact ⟨hg.2, fun _ => hnone⟩
  | notFound => exact ⟨hg.2, fun _ => hnone⟩

theorem handleLifecycleRequest_sights (request : Lifecycle)
    (hg : g.IsIdle (opcodeOfLifecycle request)) (n : ℕ) :
    Sights (fun g' _ => g'.done.length ≤ 1) g (handleLifecycleRequest n request) := by
  have hread : Sights (fun g' _ => g'.IsIdle (opcodeOfLifecycle request)) g
      (readLifecycleRequest n) :=
    Prog.traced_bind (((readPayload_only (B := fun op => ∃ k, op = .readExact k)
      (fun k => ⟨k, rfl⟩) lifecycleReqSize n).traced (I := IsIdle (opcodeOfLifecycle request))
      (by rintro g' op - ⟨k, rfl⟩; trivial)
      (by rintro g' op r hg' ⟨k, rfl⟩; exact isIdle_note rfl hg' r) hg).mono fun g' req hg' => hg')
  refine Prog.traced_bind (hread.mono fun g' req hg' => ?_)
  cases req with
  | none => exact sights_refuse hg' .badRequest (by decide)
  | some req =>
    refine Prog.traced_perform trivial fun answer => ?_
    cases answer with
    | refused status h => exact sights_refuse hg' status h
    | found loaded =>
      exact Prog.traced_bind ((lifecycle_ends request hg' loaded.cfg req.2).mono
        fun g'' status hend => ⟨hend.1, fun _ => hend.2⟩)

theorem handleOpcode_sights {opcode : Opcode} (hg : g.IsIdle opcode) (n : ℕ) :
    Sights (fun g' _ => g'.done.length ≤ 1) g (handleOpcode n opcode) := by
  by_cases hlook : IsLook opcode
  · refine (sights_of_plain hlook hg (handleOpcode_plain n hlook)).mono fun g' _ hg' => ?_
    simp [hg'.2]
  · cases opcode with
    | startContainer => exact handleLifecycleRequest_sights .start hg n
    | stopContainer => exact handleLifecycleRequest_sights .stop hg n
    | restartContainer => exact handleLifecycleRequest_sights .restart hg n
    | _ => exact absurd ⟨by decide, by decide, by decide⟩ hlook

end Sight

/-- **A container is only touched on sight.**  Whatever is asked for, and whatever happens to the
containers meanwhile: a request does one thing at most, which it asks for, to a container that was
just seen to need it, and says that all is well only if it has seen so afterwards. -/
theorem handleConn_acts_on_sight :
    handleConn.Traced Sight.note Sight.Admits (fun g _ => g.done.length ≤ 1) Sight.start := by
  have hsend (g : Sight) (hg : g.done = []) {status : Status} (h : g.Reports status) :
      Sights (fun g' _ => g'.done.length ≤ 1) g (sendStatus status) :=
    ⟨h, fun _ => show g.done.length ≤ 1 by simp [hg]⟩
  refine Prog.traced_perform trivial fun authorized => ?_
  cases authorized with
  | false => exact hsend _ rfl rfl
  | true =>
    refine Prog.traced_perform trivial fun bytes => ?_
    cases bytes with
    | none => exact hsend _ rfl rfl
    | some bytes =>
      dsimp only
      split
      · exact hsend _ rfl rfl
      · split
        · exact hsend _ rfl rfl
        · cases hopcode : opcodeOf (header.get bytes.1).code with
          | none => exact hsend _ rfl rfl
          | some opcode =>
            exact Sight.handleOpcode_sights ⟨hopcode, rfl⟩ _

end Droidspaces.Socketd
