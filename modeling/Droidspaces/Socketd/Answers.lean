import Droidspaces.Socketd.Backend

/-!
# What a client of the bridge is told

A client that asks and takes the answer apart has what the host has, cut to the fields of the
records: the containers and the images (`reply_listContainers`, `reply_listImages`), one container
in full (`reply_inspectContainer`), and the events (`reply_pollEvents`).
-/

namespace Droidspaces.Socketd

open Binary Config Memory Transition

/-! ## Lists -/

/-- `struct ds_socketd_list_containers_req` -/
def listReq (includeAll : Bool) : Bytes := Codec.flag.put includeAll ++ [0, 0, 0]

section Lists

variable {sys : System} {android : Bool} (b : Backend sys android) {payload : Bytes}

theorem Inventory.mem_of_found {inv : Inventory sys android} {includeAll : Bool} {dir : Text}
    (h : dir ∈ inv.found includeAll) : dir ∈ inv.containers :=
  List.mem_of_mem_filter ((inv.found_perm includeAll).subset h)

/-- Records that there are, or an error. -/
def listReply {α : Type} (c : Codec α) : Option (List α) → Status × Bytes
  | none => (.internalError, [])
  | some records => (.ok, records.flatMap c.put)

theorem Backend.reply_of_records {α : Type} {c : Codec α} {list : Option (List α)}
    (hfits : ∀ l, list = some l → l.length * c.size ≤ maxPayload) {opcode : Opcode}
    (h : payload.length ≤ maxPayload)
    (hrun : (b.run (handleOpcode payload.length opcode) ⟨payload, []⟩).1 =
      (b.run (sendRecords c (list.pmap Subtype.mk hfits)) ⟨[], []⟩).1) :
    b.reply opcode payload = some (listReply c list) := by
  cases list with
  | none =>
    refine b.reply_of_output h (Nat.zero_le _) ?_
    rw [hrun]
    rfl
  | some records =>
    refine b.reply_of_output h ?_ ?_
    · rw [length_flatMap_of_size c.length_put]
      exact hfits records rfl
    · rw [hrun]
      rfl

theorem Backend.reply_listContainers_eq (includeAll : Bool) :
    b.reply .listContainers (listReq includeAll) =
      some (listReply containerRecord (b.inv.listContainers includeAll)) := by
  have hsize : (listReq includeAll).length = listReqSize := by
    cases includeAll <;> rfl
  have hhead : (listReq includeAll).headD 0 ≠ 0 ↔ includeAll = true := by
    cases includeAll <;> decide
  have hread : b.run (readOptional listReqSize (listReq includeAll).length [0, 0, 0, 0])
      ⟨listReq includeAll, []⟩ = (⟨[], []⟩, some (listReq includeAll)) := by
    rw [readOptional, if_pos (by rw [hsize]; decide), ← hsize]
    exact b.run_payload
  refine b.reply_of_records (fun _ => b.inv.listContainers_le) (by rw [hsize]; decide) ?_
  rw [handleOpcode, handleListContainers, b.run_bind, hread]
  dsimp only
  rw [b.run_bind, b.run_ask, Backend.perform]
  simp only [hhead]
  cases includeAll <;> rfl

/-- **The client has the list of containers.** -/
theorem reply_listContainers (b : Backend sys android) (includeAll : Bool) :
    (b.inv.HasRoomFor (b.inv.found includeAll).length →
      ∃ payload, b.reply .listContainers (listReq includeAll) = some (.ok, payload) ∧
        containerRecord.getAll payload = (b.inv.found includeAll).map b.inv.recordOf) ∧
    (¬ b.inv.HasRoomFor (b.inv.found includeAll).length →
      b.reply .listContainers (listReq includeAll) = some (.internalError, [])) := by
  rw [b.reply_listContainers_eq]
  constructor
  · intro hroom
    rw [b.inv.listContainers_of_room includeAll hroom]
    refine ⟨_, rfl, containerRecord.getAll_flatMap (by decide) fun r hr => ?_⟩
    obtain ⟨dir, hdir, rfl⟩ := List.mem_map.1 hr
    exact b.recordOf_fits (Inventory.mem_of_found hdir)
  · intro hroom
    rw [b.inv.listContainers_of_not includeAll hroom]
    rfl

theorem Backend.reply_listImages_eq (h : payload.length ≤ maxPayload) :
    b.reply .listImages payload = some (listReply imageRecord b.inv.listImages) := by
  refine b.reply_of_records (fun _ => b.inv.listImages_le) h ?_
  rw [handleOpcode, handleListImages, b.run_bind, b.run_drain, if_pos rfl]
  rfl

theorem Backend.reply_info_eq (h : payload.length ≤ maxPayload) :
    ∃ running stopped, b.reply .info payload =
      some (.ok, infoPayload.put ⟨b.inv.countInstalled, running, stopped⟩) := by
  let running : ℤ := ((countRunningContainers b.inv.table b.inv.entries b.inv.files).2 : ℕ)
  let count := if running > 0 then running.toNat else 0
  refine ⟨count, if b.inv.countInstalled > count then b.inv.countInstalled - count else 0,
    b.reply_of_output h (by rw [Codec.length_put]; decide) ?_⟩
  rw [handleOpcode, handleInfo, b.run_bind, b.run_drain, if_pos rfl]
  rfl

theorem infoPayload_total {i : InfoPayload} (h : i.total < 2 ^ 32) :
    (infoPayload.get (infoPayload.put i)).total = i.total :=
  (Codec.number 4).get_put i.total
    ((Codec.number 4).put i.running ++ (Codec.number 4).put i.stopped) h

end Lists

/-! ## One container -/

/-- `struct ds_socketd_inspect_container_req` -/
def inspectReq (ref : Text) : Bytes := (text 255).put ref

section Inspect

variable {sys : System} {android : Bool} (b : Backend sys android) {ref : Text}

theorem toBytes_ne_zero (h : ∀ c ∈ ref, IsCChar c) : ∀ v ∈ toBytes ref, v ≠ 0 := by
  intro v hv hzero
  obtain ⟨c, hc, rfl⟩ := List.mem_map.1 hv
  have hback := toNat_byte (h c hc)
  rw [hzero] at hback
  exact absurd hback.symm (Nat.ne_of_gt (h c hc).1)

/-- The reference comes to the bridge. -/
theorem targetOf_inspectReq (h : ∀ c ∈ ref, IsCChar c) (hlen : ref.length ≤ 255) :
    targetOf (inspectReq ref) = ref := by
  have hbytes : (toBytes ref).length ≤ 255 := by rwa [toBytes, List.length_map]
  have htake : (inspectReq ref).take 255 =
      toBytes ref ++ List.replicate (255 - (toBytes ref).length) 0 := by
    show ((toBytes ref).take 255 ++
      List.replicate (256 - ((toBytes ref).take 255).length) 0).take 255 = _
    rw [List.take_of_length_le hbytes, List.take_append, List.take_of_length_le hbytes,
      List.take_replicate, Nat.min_eq_left (by omega)]
  have hwhile : ((inspectReq ref).take 255).takeWhile (· ≠ 0) = toBytes ref := by
    rw [htake, List.takeWhile_append_of_pos fun v hv => decide_eq_true (toBytes_ne_zero h v hv)]
    cases 255 - (toBytes ref).length <;> simp [List.replicate_succ]
  rw [targetOf, hwhile]
  exact (text_fits hlen h).2

/-- What is found was loaded by a name, and nothing is found without anything. -/
structure IsLoaded (sys : System) (android : Bool) (host : ProcHost) (answer : Answer) : Prop where
  isSome : answer.1 = .ok → answer.2.isSome = true
  byName : ∀ loaded, answer.2 = some loaded →
    ∃ name, dsConfigLoadByName sys android host name zeroed = some loaded.cfg

variable {host : ProcHost}

theorem IsLoaded.of_none {status : SocketdStatus} (h : status ≠ .ok) :
    IsLoaded sys android host (status, none) :=
  ⟨fun hok => absurd hok h, fun _ hnone => by cases hnone⟩

theorem IsLoaded.of_load {name dir : Text} {cfg : DsConfig}
    (h : dsConfigLoadByName sys android host name zeroed = some cfg) :
    IsLoaded sys android host (.ok, some ⟨dir, cfg⟩) :=
  ⟨fun _ => rfl, fun _ hsome => ⟨name, Option.some.inj hsome ▸ h⟩⟩

theorem scanByUuid_isLoaded (dirs : List Text) {answer : Answer}
    (h : IsLoaded sys android host answer) :
    IsLoaded sys android host
      (scanByUuid sys android host ref dirs answer) := by
  induction dirs generalizing answer with
  | nil => exact h
  | cons dir dirs ih =>
    rw [scanByUuid]
    split
    · exact ih h
    · cases hload : dsConfigLoadByName sys android host dir zeroed with
      | none =>
        refine ⟨fun hok => ?_, h.byName⟩
        cases hok
      | some candidate =>
        dsimp only
        split
        · exact ih h
        · split
          · exact .of_none (by decide)
          · split
            · exact .of_load hload
            · exact ih (.of_load hload)

theorem load_isLoaded (sys : System) (android : Bool) (host : ProcHost) (dirs : List Text)
    (ref : Text) :
    IsLoaded sys android host (socketdLoadConfigByRef sys android host dirs ref) := by
  have huuid : IsLoaded sys android host (loadByUuid sys android host dirs ref) := by
    rw [loadByUuid]
    split
    · exact scanByUuid_isLoaded dirs (.of_none (by decide))
    · exact .of_none (by decide)
  rw [socketdLoadConfigByRef]
  split
  · exact .of_none (by decide)
  · split
    · cases hload : dsConfigLoadByName sys android host ref zeroed with
      | none => exact .of_none (by decide)
      | some cfg =>
        dsimp only
        split
        · exact .of_load hload
        · exact huuid
    · exact huuid

/-- The process of a container, or 0. -/
def Backend.pidOf (cfg : DsConfig) : ℤ :=
  (runningPid b.inv.table b.inv.files (nameOf cfg) (uuidOf cfg)).getD 0

/-- What is said of the container that a reference leads to. -/
def Backend.inspected (answer : Answer) : Status × Option InspectRecord :=
  (answer.1.status, if answer.1 = .ok then answer.2.map fun loaded =>
    packInspectRecord b.inv.startedAt loaded.cfg [] (b.pidOf loaded.cfg) else none)

theorem Backend.run_startedAt (pid : ℤ) (s : Conversation) :
    b.run (startedAtOf pid) s = (s, if 0 < pid then b.inv.startedAt pid else 0) := by
  rw [startedAtOf]
  split <;> rfl

/-- The container is looked at, and its record is sent. -/
theorem Backend.run_found (loaded : Loaded) (s : Conversation) :
    (b.run (do
      let look ← ask (.isRunning loaded.cfg)
      let pid := if isUp look then look.2 else 0
      let startedAt ← startedAtOf pid
      ask (.send .ok
        (inspectRecord.put (packInspectRecord (fun _ => startedAt) loaded.cfg [] pid)))) s).1 =
      s.send .ok (inspectRecord.put
        (packInspectRecord b.inv.startedAt loaded.cfg [] (b.pidOf loaded.cfg))) := by
  have hlook : b.perform s (.isRunning loaded.cfg) =
      (s, (isContainerRunning b.inv.table b.inv.files (nameOf loaded.cfg) (uuidOf loaded.cfg)).1,
        (isContainerRunning b.inv.table b.inv.files (nameOf loaded.cfg)
          (uuidOf loaded.cfg)).2.1) := rfl
  have hpid : b.pidOf loaded.cfg =
      if isUp (b.perform s (.isRunning loaded.cfg)).2 then
        (b.perform s (.isRunning loaded.cfg)).2.2 else 0 := by
    simp only [hlook, Backend.pidOf, runningPid, isUp, Bool.and_eq_true, decide_eq_true_eq]
    split <;> rfl
  rw [b.run_bind, b.run_ask]
  dsimp only
  have hpack : packInspectRecord (fun _ => if 0 < b.pidOf loaded.cfg then
        b.inv.startedAt (b.pidOf loaded.cfg) else 0) loaded.cfg [] (b.pidOf loaded.cfg) =
      packInspectRecord b.inv.startedAt loaded.cfg [] (b.pidOf loaded.cfg) := by
    by_cases hpos : 0 < b.pidOf loaded.cfg
    · rw [if_pos hpos]
      rfl
    · simp only [packInspectRecord, if_neg hpos]
  rw [← hpid, hlook, b.run_bind, b.run_startedAt, ← hpack]
  rfl

theorem Backend.run_inspect (hchars : ∀ c ∈ ref, IsCChar c) (hlen : ref.length ≤ 255) :
    (b.run (handleOpcode (inspectReq ref).length .inspectContainer) ⟨inspectReq ref, []⟩).1.output =
      response (b.inspected (b.inv.workspace.answer ref)).1
        ((b.inspected (b.inv.workspace.answer ref)).2.elim [] inspectRecord.put) := by
  have hsize : (inspectReq ref).length = inspectReqSize := Codec.length_put _ _
  rw [handleOpcode, handleInspectContainer, b.run_bind, hsize, ← hsize, b.run_payload]
  dsimp only
  rw [targetOf_inspectReq hchars hlen]
  by_cases hnil : ref = []
  · subst hnil
    rfl
  · rw [if_neg hnil, b.run_bind, b.run_ask, Backend.perform]
    have hsome := (load_isLoaded sys android b.inv.workspace.host b.inv.workspace.dirs ref).isSome
    rw [← Workspace.answer] at hsome
    generalize b.inv.workspace.answer ref = answer at hsome
    obtain ⟨status, found⟩ := answer
    by_cases hok : status = .ok
    · subst hok
      obtain ⟨loaded, rfl⟩ := Option.isSome_iff_exists.1 (hsome rfl)
      exact congrArg Conversation.output (b.run_found loaded ⟨[], []⟩)
    · simp only [LoadAnswer.ofAnswer, dif_neg hok, Backend.inspected, if_neg hok]
      rfl

/-- **The client has the container that the reference leads to.** -/
theorem reply_inspectContainer (hchars : ∀ c ∈ ref, IsCChar c) (hlen : ref.length ≤ 255) :
    ∃ payload, b.reply .inspectContainer (inspectReq ref) =
        some ((b.inspected (b.inv.workspace.answer ref)).1, payload) ∧
      ∀ record, (b.inspected (b.inv.workspace.answer ref)).2 = some record →
        inspectRecord.get payload = record := by
  refine ⟨_, b.reply_of_output ?_ ?_ (b.run_inspect hchars hlen), fun record hrecord => ?_⟩
  · rw [inspectReq, Codec.length_put]
    decide
  · cases (b.inspected (b.inv.workspace.answer ref)).2 with
    | none => exact Nat.zero_le _
    | some record =>
      rw [Option.elim_some, Codec.length_put]
      decide
  · have hloaded := load_isLoaded sys android b.inv.workspace.host b.inv.workspace.dirs ref
    rw [hrecord, Option.elim_some]
    refine inspectRecord.get_put_self ?_
    simp only [Backend.inspected, Option.ite_none_right_eq_some, Option.map_eq_some_iff] at hrecord
    obtain ⟨-, loaded, hfound, rfl⟩ := hrecord
    obtain ⟨name, hload⟩ := hloaded.byName loaded hfound
    exact inspectRecord_fits (isTyped_load b.chost hload) (runningPid_getD_lt _ _ _ _) b.startedAt
      fun v hv => absurd hv List.not_mem_nil

theorem reply_inspectContainer_lost :
    (lostWorkspace.answer "web".toList).1 = .ok ∧
      ∃ payload, (lostBackend .missing).reply .inspectContainer (inspectReq "web".toList) =
          some (((lostBackend .missing).inspected (lostWorkspace.answer "web".toList)).1, payload) ∧
        ∀ record, ((lostBackend .missing).inspected (lostWorkspace.answer "web".toList)).2 =
          some record → inspectRecord.get payload = record :=
  ⟨by decide +kernel,
    reply_inspectContainer (lostBackend .missing) (isCChar_of_all (by decide)) (by decide)⟩

end Inspect

/-! ## Events -/

/-- `struct ds_socketd_poll_events_req` -/
def pollReq (since : ℤ) : Bytes := (Codec.signed 8).put since

/-- `struct ds_socketd_core_event_record` -/
structure EventRecord where
  time : ℤ
  timeNano : ℤ
  type : Bytes
  action : Bytes
  uuid : Bytes
  containerName : Bytes

def eventRecord : Codec EventRecord :=
  ((Codec.signed 8).pair <| (Codec.signed 8).pair <| (Codec.cString 31).pair <|
    (Codec.cString 31).pair <| (Codec.cString 32).pair (Codec.cString 255)).map
    (fun (time, timeNano, type, action, uuid, containerName) =>
      ⟨time, timeNano, type, action, uuid, containerName⟩)
    fun r => (r.time, r.timeNano, r.type, r.action, r.uuid, r.containerName)

/-- What a client is told of an event. -/
def packEvent (e : CoreEvent) : EventRecord where
  time := e.seconds
  timeNano := e.seconds * 1000000000 + e.nanos
  type := eventType
  action := e.action.take 31
  uuid := e.uuid.take 32
  containerName := e.containerName.take 255

/-- The time is one that a client can be told, and the texts are C strings. -/
structure CoreEvent.IsC (e : CoreEvent) : Prop where
  time : e.seconds * 1000000000 + e.nanos < 2 ^ 63
  action : ∀ v ∈ e.action, v ≠ 0
  uuid : ∀ v ∈ e.uuid, v ≠ 0
  containerName : ∀ v ∈ e.containerName, v ≠ 0

/-- Where the events are kept, after these calls. -/
def eventFile (calls : List (CoreEvent × List ℕ)) : EventFile :=
  if calls = [] then .missing else .contents (runCalls calls)

section Events

variable {e : CoreEvent}

theorem put_natCast {w v : ℕ} (h : v < 256 ^ w) : (Codec.signed w).put v = bigEndian w v := by
  have hcast : ((v : ℤ) % 256 ^ w).toNat = v := by
    have hmod : (v : ℤ) % 256 ^ w = ((v % 256 ^ w : ℕ) : ℤ) := by push_cast; rfl
    rw [hmod, Int.toNat_natCast, Nat.mod_eq_of_lt h]
  show bigEndian w ((v : ℤ) % 256 ^ w).toNat = _
  rw [hcast]

theorem coreEventRecord_eq (h : e.IsC) : coreEventRecord e = eventRecord.put (packEvent e) := by
  have htime := h.time
  have hseconds : (Codec.signed 8).put (packEvent e).time = hton64 e.seconds :=
    put_natCast (show e.seconds < 2 ^ 64 by omega)
  have hnano : (Codec.signed 8).put (packEvent e).timeNano =
      hton64 (e.seconds * 1000000000 + e.nanos) := by
    have := put_natCast (w := 8) (show e.seconds * 1000000000 + e.nanos < 2 ^ 64 by omega)
    push_cast at this
    exact this
  have hput : eventRecord.put (packEvent e) =
      (Codec.signed 8).put (packEvent e).time ++ ((Codec.signed 8).put (packEvent e).timeNano ++
        ((Codec.cString 31).put eventType ++ ((Codec.cString 31).put (e.action.take 31) ++
          ((Codec.cString 32).put (e.uuid.take 32) ++
            (Codec.cString 255).put (e.containerName.take 255))))) := rfl
  have htext (n : ℕ) (t : Bytes) : (Codec.cString n).put (t.take n) = charArray (n + 1) t := by
    show (t.take n).take n ++ _ = _
    rw [List.take_take, Nat.min_self, charArray, Nat.add_sub_cancel]
  have htype : (Codec.cString 31).put eventType = charArray 32 eventType := htext 31 eventType
  rw [hput, hseconds, hnano, htype, htext, htext, htext, coreEventRecord]
  simp only [List.append_assoc]

theorem packEvent_fits (h : e.IsC) : eventRecord.Fits (packEvent e) := by
  have htime := h.time
  have htext {n : ℕ} {t : Bytes} (ht : ∀ v ∈ t, v ≠ 0) : (Codec.cString n).Fits (t.take n) :=
    ⟨List.length_take_le n t, fun v hv => ht v (List.mem_of_mem_take hv)⟩
  have htype : ∀ v ∈ eventType, v ≠ 0 := fun v hv => ne_of_mem_of_not_mem hv (by decide)
  refine ⟨⟨natCast_fits (by omega), ?_, htext (t := eventType) htype, htext h.action,
    htext h.uuid, htext h.containerName⟩, rfl⟩
  have := natCast_fits htime
  push_cast at this
  exact this

theorem eventRecords_flatMap (kept : List CoreEvent) :
    eventRecords (kept.flatMap coreEventRecord) = kept.map coreEventRecord := by
  have hlen : (kept.flatMap coreEventRecord).length / recordSize = kept.length := by
    rw [length_flatMap_of_size length_coreEventRecord]
    exact Nat.mul_div_cancel _ (by decide)
  rw [eventRecords, hlen, Codec.map_field_flatMap length_coreEventRecord]

theorem eventTime_record (h : e.IsC) : eventTime (coreEventRecord e) = e.seconds := by
  have htime := h.time
  have hseconds : hton64 e.seconds = (Codec.signed 8).put e.seconds :=
    (put_natCast (show e.seconds < 2 ^ 64 by omega)).symm
  rw [eventTime, coreEventRecord, hseconds]
  simp only [List.append_assoc]
  exact (Codec.signed 8).get_put _ _ (natCast_fits (by omega))

variable {sys : System} {android : Bool} (b : Backend sys android)

/-- The events of the file from a time on, of which there are not too many. -/
theorem pollEvents_flatMap {kept : List CoreEvent} (hkept : ∀ e ∈ kept, e.IsC)
    (hlen : kept.length ≤ softCapRecords) (since : ℤ) :
    pollEvents since (kept.flatMap coreEventRecord) =
      some ((kept.filter fun e => since ≤ e.seconds).flatMap coreEventRecord) := by
  have hfilter : (kept.map coreEventRecord).filter (fun record => since ≤ eventTime record) =
      (kept.filter fun e => since ≤ e.seconds).map coreEventRecord := by
    rw [List.filter_map]
    refine congrArg _ (List.filter_congr fun e he => ?_)
    rw [Function.comp_apply, eventTime_record (hkept e he)]
  refine Exchange.pollEvents_eq_some.2 ⟨?_, ?_⟩
  · rw [eventRecords_flatMap, hfilter, List.flatMap_def]
  · rw [eventRecords_flatMap, hfilter, List.length_map]
    have hle := List.length_filter_le (fun e : CoreEvent => decide (since ≤ e.seconds)) kept
    exact ⟨3, by decide, hle.trans hlen⟩

theorem Backend.run_pollEvents {since : ℤ} (hsince : -2 ^ 63 ≤ since ∧ since < 2 ^ 63)
    {calls : List (CoreEvent × List ℕ)} (hevents : b.events = eventFile calls) {payload : Bytes}
    (hpoll : pollEvents since (runCalls calls) = some payload) :
    (b.run (handleOpcode (pollReq since).length .pollEvents) ⟨pollReq since, []⟩).1.output =
      response .ok payload := by
  have hsize : (pollReq since).length = pollReqSize := Codec.length_put _ _
  have hread : b.run (readOptional pollReqSize (pollReq since).length [0, 0, 0, 0, 0, 0, 0, 0])
      ⟨pollReq since, []⟩ = (⟨[], []⟩, some (pollReq since)) := by
    rw [readOptional, if_pos (by rw [hsize]; decide), ← hsize]
    exact b.run_payload
  have hget : (Codec.signed 8).get (pollReq since) = since :=
    (Codec.signed 8).get_put_self (Codec.signed_fits.2 (by omega))
  rw [handleOpcode, handlePollEvents, b.run_bind, hread]
  dsimp only
  rw [b.run_bind, b.run_ask, Backend.perform, hget, hevents, eventFile]
  by_cases hnone : calls = []
  · subst hnone
    have hnil : pollEvents since (runCalls []) = some [] := rfl
    obtain rfl := Option.some.inj (hnil.symm.trans hpoll)
    rfl
  · rw [if_neg hnone]
    dsimp only
    rw [hpoll]
    rfl

/-- **The client has the newest events, from the time on that it asks for.** -/
theorem reply_pollEvents {calls : List (CoreEvent × List ℕ)} (hcalls : ∀ call ∈ calls, call.1.IsC)
    (hevents : b.events = eventFile calls) {since : ℤ}
    (hsince : -2 ^ 63 ≤ since ∧ since < 2 ^ 63) :
    ∃ kept payload, kept <:+ calls.map Prod.fst ∧
      (if calls.length ≤ softCapRecords then kept = calls.map Prod.fst
        else retainRecords ≤ kept.length) ∧
      b.reply .pollEvents (pollReq since) = some (.ok, payload) ∧
      eventRecord.getAll payload = (kept.filter fun e => since ≤ e.seconds).map packEvent := by
  obtain ⟨kept, hsuffix, hfile, hkept⟩ := keepsNewest_runCalls calls
  rw [List.length_map] at hkept
  have hlen : kept.length ≤ softCapRecords := by
    split at hkept
    · next hfew =>
      rw [hkept, List.length_map]
      exact hfew
    · exact hkept.2
  have hC : ∀ e ∈ kept, e.IsC := fun e he => by
    obtain ⟨call, hcall, rfl⟩ := List.mem_map.1 (hsuffix.subset he)
    exact hcalls call hcall
  have hpoll := pollEvents_flatMap hC hlen since
  refine ⟨kept, _, hsuffix, ?_, b.reply_of_output ?_ (Exchange.length_pollEvents hpoll)
    (b.run_pollEvents hsince hevents (hfile ▸ hpoll)), ?_⟩
  · split at hkept
    · next hfew => rwa [if_pos hfew]
    · next hmany =>
      rw [if_neg hmany]
      exact hkept.1
  · rw [pollReq, Codec.length_put]
    decide
  · have hput : (kept.filter fun e => since ≤ e.seconds).flatMap coreEventRecord =
        ((kept.filter fun e => since ≤ e.seconds).map packEvent).flatMap eventRecord.put := by
      rw [List.flatMap_map]
      exact List.flatMap_congr fun e he => coreEventRecord_eq (hC e (List.mem_of_mem_filter he))
    rw [hput]
    refine eventRecord.getAll_flatMap (by decide) fun r hr => ?_
    obtain ⟨e, he, rfl⟩ := List.mem_map.1 hr
    exact packEvent_fits (hC e (List.mem_of_mem_filter he))

/-- A container was started in the first second. -/
def startedEvent : CoreEvent := ⟨1, 0, [115, 116, 97, 114, 116], [119, 101, 98], [48]⟩

theorem reply_pollEvents_lost : ∃ kept payload, kept <:+ [startedEvent] ∧
    (if [(startedEvent, ([] : List ℕ))].length ≤ softCapRecords then kept = [startedEvent]
      else retainRecords ≤ kept.length) ∧
    (lostBackend (eventFile [(startedEvent, [])])).reply .pollEvents (pollReq 0) =
      some (.ok, payload) ∧
    eventRecord.getAll payload = (kept.filter fun e => (0 : ℤ) ≤ e.seconds).map packEvent := by
  have hcalls : ∀ call ∈ [(startedEvent, ([] : List ℕ))], call.1.IsC := fun call hcall => by
    obtain rfl := List.mem_singleton.1 hcall
    exact ⟨by decide, fun v hv => ne_of_mem_of_not_mem hv (by decide),
      fun v hv => ne_of_mem_of_not_mem hv (by decide),
      fun v hv => ne_of_mem_of_not_mem hv (by decide)⟩
  exact reply_pollEvents (lostBackend _) hcalls rfl (by decide)

end Events

end Droidspaces.Socketd
