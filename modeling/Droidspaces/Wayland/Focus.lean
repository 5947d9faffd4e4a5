import Droidspaces.Wayland.Roles
import Droidspaces.Wayland.Seat

/-!
# The focus of pointer and keyboard

What is sent to a `wl_pointer` or a `wl_keyboard` has to follow the protocol of the device: it is
entered and left in turn, and hears of input only between an enter and its leave.  The seat does
not keep this state for each device.  It holds for all of them as long as every device of the
client that has the focus has been entered, and no other one (`Channel.Ok`).

The events do keep this.  It is lost when a device is bound at a time when the focus and the target
differ and there are others to tell, when the focus is made a cursor, and when the focus is
destroyed and is still the target (`focus_kept`).
-/

namespace Droidspaces.Wayland

open Function Transition

/-! ## What a device hears -/

/-- The messages to one device -/
def heard (d : Device) (log : Log) : List Message := (log.filter (·.1 = d)).map (·.2)

/-- The protocol of a pointer or a keyboard: which surface it has entered, after a message that is
in order. -/
def protocol (entered : Option ℕ) : Message → Option (Option ℕ)
  | .enter a => if entered = none then some (some a) else none
  | .leave a => if entered = some a then some none else none
  | .motion | .button _ _ | .axis _ | .key _ _ | .modifiers _ =>
    if entered.isSome then some entered else none
  | _ => some entered

/-- Which surface the device has entered, if everything that it has heard was in order -/
def follow (d : Device) (log : Log) : Option (Option ℕ) := (heard d log).foldlM protocol none

/-- To whom the last `down` of a touch went -/
def touchOwner (id : ℤ) (log : Log) : Option ℕ :=
  log.foldl (fun owner e => match e.2 with
    | .touchDown _ id' => if id' = id then some e.1.client else owner
    | _ => owner) none

/-- Each motion and each `up` of a touch goes to the client that its `down` went to. -/
def TouchesRight (log : Log) : Prop :=
  ∀ earlier d m later, log = earlier ++ (d, m) :: later → ∀ id,
    m = .touchMotion id ∨ m = .touchUp id → touchOwner id earlier = some d.client

/-- What the clients and the seat may rely on -/
structure Focused (s : Seat) : Prop where
  pointer : ∀ d, (follow d s.pointer.log).isSome
  keyboard : ∀ d, (follow d s.keyboard.log).isSome
  touch : TouchesRight s.touchLog
  pointer_live : ∀ f ∈ s.pointer.focus, (s.server.surface f).isSome
  keyboard_live : ∀ f ∈ s.keyboard.focus, (s.server.surface f).isSome

section Heard

variable {d : Device} {log log' : Log} {devices : List Device} {client : ℕ}
  {messages : Device → List Message}

theorem heard_append : heard d (log ++ log') = heard d log ++ heard d log' := by
  simp [heard]

theorem heard_self (ms : List Message) : heard d (ms.map (d, ·)) = ms := by
  induction ms with
  | nil => rfl
  | cons m ms ih =>
    have hcons : heard d ((m :: ms).map (d, ·)) = m :: heard d (ms.map (d, ·)) := by simp [heard]
    rw [hcons, ih]

theorem heard_other {d' : Device} (hne : d' ≠ d) (ms : List Message) :
    heard d (ms.map (d', ·)) = [] := by
  induction ms with
  | nil => rfl
  | cons m ms ih =>
    have hcons : heard d ((m :: ms).map (d', ·)) = heard d (ms.map (d', ·)) := by
      simp [heard, hne]
    rw [hcons, ih]

theorem heard_send_of_not (h : d ∉ devices ∨ d.client ≠ client) :
    heard d (send devices client messages) = [] := by
  induction devices with
  | nil => rfl
  | cons d' devices ih =>
    have hrest : d ∉ devices ∨ d.client ≠ client :=
      h.imp_left fun hnot hmem => hnot (List.mem_cons_of_mem _ hmem)
    by_cases hclient : d'.client = client
    · have hne : d' ≠ d := by
        rintro rfl
        exact h.elim (fun hnot => hnot List.mem_cons_self) (fun hnot => hnot hclient)
      have hsend : send (d' :: devices) client messages =
          (messages d').map (d', ·) ++ send devices client messages := by simp [send, hclient]
      rw [hsend, heard_append, heard_other hne, ih hrest, List.append_nil]
    · have hsend : send (d' :: devices) client messages = send devices client messages := by
        simp [send, hclient]
      rw [hsend, ih hrest]

/-- A device of the client hears what is meant for it, once. -/
theorem heard_send (hnodup : devices.Nodup) (hd : d ∈ devices) (hclient : d.client = client) :
    heard d (send devices client messages) = messages d := by
  induction devices with
  | nil => cases hd
  | cons d' devices ih =>
    obtain ⟨hnot, hnodup⟩ := List.nodup_cons.1 hnodup
    rcases List.mem_cons.1 hd with rfl | hd
    · have hsend : send (d :: devices) client messages =
          (messages d).map (d, ·) ++ send devices client messages := by simp [send, hclient]
      rw [hsend, heard_append, heard_self, heard_send_of_not (.inl hnot), List.append_nil]
    · have hne : d' ≠ d := by
        rintro rfl
        exact hnot hd
      by_cases hclient' : d'.client = client
      · have hsend : send (d' :: devices) client messages =
            (messages d').map (d', ·) ++ send devices client messages := by simp [send, hclient']
        rw [hsend, heard_append, heard_other hne, ih hnodup hd, List.nil_append]
      · have hsend : send (d' :: devices) client messages = send devices client messages := by
          simp [send, hclient']
        rw [hsend, ih hnodup hd]

theorem follow_append :
    follow d (log ++ log') = (follow d log).bind fun e => (heard d log').foldlM protocol e := by
  rw [follow, heard_append, List.foldlM_append]
  rfl

end Heard

/-! ## The devices of a channel -/

/-- The focus is there, and so are the devices, each once. -/
structure Channel.Sound (s : Server) (n : ℕ) (c : Channel) : Prop where
  live : ∀ f ∈ c.focus, (s.clientOf f).isSome
  nodup : c.devices.Nodup
  /-- Handles from `n` on have not been given out. -/
  known : ∀ d, n ≤ d.handle → d ∉ c.devices ∧ heard d c.log = []

/-- The devices of the client that has the focus have entered it, and no others have entered
anything. -/
structure Channel.Ok (s : Server) (n : ℕ) (c : Channel) : Prop extends Channel.Sound s n c where
  follows : ∀ d, (follow d c.log).isSome
  entered : ∀ d ∈ c.devices,
    follow d c.log = some (c.focus.filter fun f => s.clientOf f = some d.client)

namespace Channel

variable {s s' : Server} {n : ℕ} {c c' : Channel} {kind : Kind} {a client : ℕ} {d : Device}
  {messages : Device → List Message}

theorem ok_init (s : Server) (n : ℕ) : Ok s n .init where
  follows _ := rfl
  entered := nofun
  live := nofun
  nodup := List.nodup_nil
  known _ _ := ⟨nofun, rfl⟩

/-- The channel knows the surfaces by the client of the focus only. -/
theorem Sound.congr (hc : Sound s n c) (hs : ∀ f ∈ c.focus, s'.clientOf f = s.clientOf f) :
    Sound s' n c where
  live f hf := by
    rw [hs f hf]
    exact hc.live f hf
  nodup := hc.nodup
  known := hc.known

theorem Sound.mono {n' : ℕ} (hc : Sound s n c) (hn : n ≤ n') : Sound s n' c :=
  ⟨hc.live, hc.nodup, fun d hd => hc.known d (Nat.le_trans hn hd)⟩

theorem Ok.congr (hc : Ok s n c) (hs : ∀ f ∈ c.focus, s'.clientOf f = s.clientOf f) :
    Ok s' n c where
  toSound := hc.toSound.congr hs
  follows := hc.follows
  entered d hd := by
    rw [hc.entered d hd]
    congr 1
    cases hfocus : c.focus with
    | none => rfl
    | some f =>
      rw [Option.filter_some, Option.filter_some, hs f hfocus]

theorem Ok.mono {n' : ℕ} (hc : Ok s n c) (hn : n ≤ n') : Ok s n' c :=
  ⟨hc.toSound.mono hn, hc.follows, hc.entered⟩

/-- What is sent moves the devices of one client. -/
theorem follow_notify (hc : Sound s n c) (d : Device) :
    follow d (c.notify client messages).log =
      if d ∈ c.devices ∧ d.client = client then
        (follow d c.log).bind fun e => (messages d).foldlM protocol e
      else follow d c.log := by
  have happend : follow d (c.notify client messages).log = (follow d c.log).bind fun e =>
      (heard d (send c.devices client messages)).foldlM protocol e := follow_append
  rw [happend]
  split_ifs with h
  · rw [heard_send hc.nodup h.1 h.2]
  · have hnot : d ∉ c.devices ∨ d.client ≠ client := not_and_or.1 h
    rw [heard_send_of_not hnot]
    exact Option.bind_fun_some _

theorem Sound.notify (hc : Sound s n c) (focus : Option ℕ)
    (hlive : ∀ f ∈ focus, (s.clientOf f).isSome) (client : ℕ) (messages : Device → List Message) :
    Sound s n ({ c with focus := focus }.notify client messages) where
  live := hlive
  nodup := hc.nodup
  known d hd := by
    obtain ⟨hnot, hheard⟩ := hc.known d hd
    refine ⟨hnot, ?_⟩
    have happend : heard d (c.notify client messages).log =
        heard d c.log ++ heard d (send c.devices client messages) := heard_append
    show heard d (c.notify client messages).log = []
    rw [happend, hheard, heard_send_of_not (.inl hnot), List.append_nil]

/-- Messages that move each device of a client from the old focus to the new one, where no other
client has to be told. -/
theorem Ok.notify (hc : Ok s n c) (focus : Option ℕ) (hlive : ∀ f ∈ focus, (s.clientOf f).isSome)
    (hclient : ∀ d ∈ c.devices, d.client = client →
      (messages d).foldlM protocol (c.focus.filter fun f => s.clientOf f = some d.client) =
        some (focus.filter fun f => s.clientOf f = some d.client))
    (hothers : ∀ d ∈ c.devices, d.client ≠ client →
      (c.focus.filter fun f => s.clientOf f = some d.client) =
        focus.filter fun f => s.clientOf f = some d.client) :
    Ok s n ({ c with focus := focus }.notify client messages) where
  toSound := hc.toSound.notify focus hlive client messages
  follows d := by
    show (follow d (c.notify client messages).log).isSome
    rw [follow_notify hc.toSound]
    split_ifs with h
    · rw [hc.entered d h.1, Option.bind_some, hclient d h.1 h.2, Option.isSome_some]
    · exact hc.follows d
  entered d hd := by
    show follow d (c.notify client messages).log = _
    rw [follow_notify hc.toSound]
    by_cases h : d.client = client
    · rw [if_pos ⟨hd, h⟩, hc.entered d hd, Option.bind_some]
      exact hclient d hd h
    · rw [if_neg fun hand => h hand.2, hc.entered d hd]
      exact congrArg some (hothers d hd h)

theorem foldlM_frame (e : Option ℕ) (d : Device) :
    (Kind.frame d).foldlM protocol e = some e := by
  rw [Kind.frame]
  split_ifs
  · rfl
  · rfl

theorem foldlM_enter (kind : Kind) (a : ℕ) (d : Device) :
    (kind.enter a d).foldlM protocol none = some (some a) := by
  cases kind with
  | pointer => exact foldlM_frame (some a) d
  | keyboard => rfl

theorem foldlM_leave (kind : Kind) (a : ℕ) (d : Device) :
    (kind.leave a d).foldlM protocol (some a) = some none := by
  cases kind with
  | pointer =>
    have hleave : protocol (some a) (.leave a) = some none := by simp [protocol]
    rw [Kind.leave, List.foldlM_cons, hleave]
    exact foldlM_frame none d
  | keyboard => simp [Kind.leave, protocol]

/-- The leave is heard by those who have been entered. -/
theorem Ok.leave (hc : Ok s n c) (kind : Kind) :
    ∃ c', c.leave kind s = some c' ∧ c'.focus = c.focus ∧ Ok s n { c' with focus := none } := by
  cases hfocus : c.focus with
  | none =>
    refine ⟨c, by rw [Channel.leave, hfocus], hfocus, ?_⟩
    rw [← hfocus]
    exact hc
  | some f =>
    obtain ⟨client, hclient⟩ := Option.isSome_iff_exists.1 (hc.live f hfocus)
    refine ⟨c.notify client (kind.leave f), by simp [Channel.leave, hfocus, hclient], hfocus, ?_⟩
    apply hc.notify none fun a ha => absurd ha (Option.not_mem_none a)
    · rintro d - rfl
      rw [hfocus, Option.filter_some, if_pos (decide_eq_true hclient)]
      exact foldlM_leave kind f d
    · rintro d - hne
      have hother : ¬ s.clientOf f = some d.client := by
        rw [hclient]
        exact fun h => hne (Option.some.inj h).symm
      rw [hfocus, Option.filter_some, if_neg (by simpa using hother)]
      rfl

/-- A channel without a focus may enter any surface. -/
theorem Ok.enter (hc : Ok s n c) (kind : Kind) (hfocus : c.focus = none)
    (hclient : s.clientOf a = some client) :
    Ok s n ({ c with focus := some a }.notify client (kind.enter a)) := by
  apply hc.notify (some a)
  · rintro f ⟨⟩
    rw [hclient, Option.isSome_some]
  · rintro d - rfl
    rw [hfocus, Option.filter_some, if_pos (decide_eq_true hclient)]
    exact foldlM_enter kind a d
  · rintro d - hne
    have hother : ¬ s.clientOf a = some d.client := by
      rw [hclient]
      exact fun h => hne (Option.some.inj h).symm
    rw [hfocus, Option.filter_some, if_neg (by simpa using hother)]
    rfl

/-- Whoever has the focus may be told of input. -/
theorem Ok.input (hc : Ok s n c) (hfocus : c.focus = some a) (hclient : s.clientOf a = some client)
    (messages : Device → List Message)
    (hinput : ∀ d, (messages d).foldlM protocol (some a) = some (some a)) :
    Ok s n (c.notify client messages) := by
  have heq : c.notify client messages = { c with focus := some a }.notify client messages := by
    rw [← hfocus]
  rw [heq]
  apply hc.notify (some a)
  · rintro f ⟨⟩
    rw [hclient, Option.isSome_some]
  · rintro d - rfl
    rw [hfocus, Option.filter_some, if_pos (decide_eq_true hclient)]
    exact hinput d
  · rintro d - -
    rw [hfocus]

end Channel

/-! ## What moves the focus -/

/-- The target is there, and has a client. -/
theorem clientOf_target {s : Server} {a : ℕ} (h : s.target = some a) :
    ∃ client, s.clientOf a = some client := by
  have hany {P : Surface → Bool} (hsurf : (s.surface a).any P = true) :
      ∃ client, s.clientOf a = some client := by
    obtain ⟨surf, hsome, -⟩ := (Option.any_eq_true _ _).1 hsurf
    exact ⟨surf.client, by rw [Server.clientOf, hsome, Option.map_some]⟩
  simp only [Server.target, Option.orElse_eq_orElse, Option.orElse_eq_or,
    Option.or_eq_some_iff] at h
  rcases h with h | ⟨-, h | ⟨-, h⟩⟩
  · exact hany (Option.filter_eq_some_iff.1 h).2
  · have hmapped := List.find?_some h
    exact hany hmapped
  · have haccepted := List.find?_some h
    exact hany haccepted

namespace Channel

variable {s s' : Server} {n : ℕ} {c c' : Channel} {kind : Kind} {a client : ℕ} {d : Device}

theorem Ok.ensure (hc : Ok s n c) (kind : Kind) :
    ∃ c', c.ensure kind s = some c' ∧ Ok s n c' ∧
      c'.focus = if s.target.isSome then s.target else c.focus := by
  rw [Channel.ensure]
  cases htarget : s.target with
  | none => exact ⟨c, rfl, hc, rfl⟩
  | some a =>
    by_cases hfocus : c.focus = some a
    · exact ⟨c, if_pos hfocus, hc, hfocus⟩
    · obtain ⟨client, hclient⟩ := clientOf_target htarget
      obtain ⟨left, hleft, -, hok⟩ := hc.leave kind
      have hentered := hok.enter kind rfl hclient
      refine ⟨_, ?_, hentered, rfl⟩
      simp [hfocus, hleft, hclient]

/-- When the focus goes, it passes to the target, or to nobody. -/
theorem Ok.surfaceDestroyed (hc : Ok s n c) (kind : Kind) (a : ℕ) :
    ∃ c', c.surfaceDestroyed kind s a = some c' ∧ Ok s n c' ∧
      c'.focus = if c.focus = some a then s.target else c.focus := by
  rw [Channel.surfaceDestroyed]
  split_ifs with hfocus
  · obtain ⟨left, hleft, -, hok⟩ := hc.leave kind
    obtain ⟨c', hensure, hok', hfocus'⟩ := hok.ensure kind
    refine ⟨c', by rw [hleft, Option.bind_some, hensure], hok', ?_⟩
    rw [hfocus']
    cases s.target <;> rfl
  · exact ⟨c, rfl, hc, rfl⟩

theorem Sound.release (hc : Sound s n c) (d : Device) : Sound s n (c.release d) where
  live := hc.live
  nodup := hc.nodup.filter _
  known d' hd' :=
    ⟨fun hmem => (hc.known d' hd').1 (List.mem_filter.1 hmem).1, (hc.known d' hd').2⟩

theorem Ok.release (hc : Ok s n c) (d : Device) : Ok s n (c.release d) where
  toSound := hc.toSound.release d
  follows := hc.follows
  entered d' hd' := hc.entered d' (List.mem_filter.1 hd').1

/-- A device may be bound when it may be entered without telling others: its client has the focus
and the target, or neither, or it is the first to be told. -/
def MayBind (s : Server) (c : Channel) (client : ℕ) : Prop :=
  if s.target.bind s.clientOf = some client then
    c.focus = s.target ∨
      ∀ d ∈ c.devices, d.client ≠ client ∧ c.focus.bind s.clientOf ≠ some d.client
  else c.focus.bind s.clientOf ≠ some client

theorem Sound.add (hc : Sound s n c) (hd : d.handle = n) (focus : Option ℕ) (ms : List Message)
    (hlive : ∀ f ∈ focus, (s.clientOf f).isSome) :
    Sound s (n + 1) ⟨d :: c.devices, focus, c.log ++ ms.map (d, ·)⟩ where
  live := hlive
  nodup := List.nodup_cons.2 ⟨(hc.known d (Nat.le_of_eq hd.symm)).1, hc.nodup⟩
  known d' hd' := by
    obtain ⟨hnot, hnil⟩ := hc.known d' (Nat.le_of_succ_le hd')
    have hne : d ≠ d' := by
      rintro rfl
      omega
    refine ⟨fun hmem => ?_, ?_⟩
    · rcases List.mem_cons.1 hmem with rfl | hmem
      · exact hne rfl
      · exact hnot hmem
    · rw [heard_append, hnil, heard_other hne, List.append_nil]

/-- A new device is told what brings it to where the others are. -/
theorem Ok.add (hc : Ok s n c) (hd : d.handle = n) (focus : Option ℕ) (ms : List Message)
    (hlive : ∀ f ∈ focus, (s.clientOf f).isSome)
    (hms : ms.foldlM protocol none = some (focus.filter fun f => s.clientOf f = some d.client))
    (hothers : ∀ d' ∈ c.devices, (c.focus.filter fun f => s.clientOf f = some d'.client) =
      focus.filter fun f => s.clientOf f = some d'.client) :
    Ok s (n + 1) ⟨d :: c.devices, focus, c.log ++ ms.map (d, ·)⟩ := by
  obtain ⟨hnew, hheard⟩ := hc.known d (Nat.le_of_eq hd.symm)
  have hself : follow d (c.log ++ ms.map (d, ·)) =
      some (focus.filter fun f => s.clientOf f = some d.client) := by
    rw [follow, heard_append, hheard, heard_self, List.nil_append, hms]
  have hother {d' : Device} (hne : d ≠ d') :
      follow d' (c.log ++ ms.map (d, ·)) = follow d' c.log := by
    rw [follow, heard_append, heard_other hne, List.append_nil, follow]
  refine ⟨hc.toSound.add hd focus ms hlive, fun d' => ?_, fun d' hd' => ?_⟩
  · by_cases hne : d = d'
    · rw [← hne, hself, Option.isSome_some]
    · rw [hother hne]
      exact hc.follows d'
  · rcases List.mem_cons.1 hd' with rfl | hmem
    · exact hself
    · have hne : d ≠ d' := by
        rintro rfl
        exact hnew hmem
      rw [hother hne, hc.entered d' hmem, hothers d' hmem]

theorem foldlM_bound (kind : Kind) (keymap : Bool) (e : Option ℕ) (d : Device) :
    (kind.bound keymap d).foldlM protocol e = some e := by
  cases kind with
  | pointer => rfl
  | keyboard =>
    rw [Kind.bound]
    split_ifs <;> rfl

/-- A device of the client of the target -/
theorem bind_of_target (htarget : s.target = some a) (hclient : s.clientOf a = some d.client)
    (keymap : Bool) : c.bind kind s d keymap = ⟨d :: c.devices, some a,
      c.log ++ (kind.bound keymap d ++ kind.enter a d).map (d, ·)⟩ := by
  simp [Channel.bind, htarget, hclient]

/-- A device of another client -/
theorem bind_of_other (h : s.target.bind s.clientOf ≠ some d.client) (keymap : Bool) :
    c.bind kind s d keymap =
      ⟨d :: c.devices, c.focus, c.log ++ (kind.bound keymap d).map (d, ·)⟩ := by
  cases htarget : s.target with
  | none => simp [Channel.bind, htarget]
  | some a =>
    rw [htarget, Option.bind_some] at h
    simp [Channel.bind, htarget, h]

theorem Ok.bind (hc : Ok s n c) (hd : d.handle = n) (kind : Kind) (keymap : Bool)
    (hbind : MayBind s c d.client) : Ok s (n + 1) (c.bind kind s d keymap) := by
  by_cases htold : s.target.bind s.clientOf = some d.client
  · obtain ⟨a, htarget, hclient⟩ := Option.bind_eq_some_iff.1 htold
    rw [bind_of_target htarget hclient]
    rw [MayBind, if_pos htold] at hbind
    apply hc.add hd
    · rintro f ⟨⟩
      rw [hclient, Option.isSome_some]
    · rw [List.foldlM_append, foldlM_bound, Option.filter_some,
        if_pos (decide_eq_true hclient)]
      exact foldlM_enter kind a d
    · intro d' hd'
      rcases hbind with hfocus | hfirst
      · rw [hfocus, htarget]
      · -- Neither the old focus nor the new one is of a client with a device.
        obtain ⟨hne, hne'⟩ := hfirst d' hd'
        have hnew : ¬ s.clientOf a = some d'.client := by
          rw [hclient]
          exact fun h => hne (Option.some.inj h).symm
        rw [Option.filter_some, if_neg (by simpa using hnew)]
        cases hfocus : c.focus with
        | none => rfl
        | some f =>
          rw [hfocus, Option.bind_some] at hne'
          rw [Option.filter_some, if_neg (by simpa using hne')]
  · rw [bind_of_other htold]
    rw [MayBind, if_neg htold] at hbind
    apply hc.add hd
    · exact hc.live
    · rw [foldlM_bound]
      cases hfocus : c.focus with
      | none => rfl
      | some f =>
        rw [hfocus, Option.bind_some] at hbind
        rw [Option.filter_some, if_neg (by simpa using hbind)]
    · exact fun _ _ => rfl

end Channel

/-! ## What happens to the surfaces -/

namespace Server

variable {s t : Server} {a f : ℕ} {surf : Surface}

theorem clientOf_update (hsurf : s.surface a = some surf) (surf' : Surface)
    (hsame : surf'.client = surf.client) :
    (fun f => (update s.surface a (some surf') f).map Surface.client) = s.clientOf := by
  have hclient : s.clientOf a = some surf.client := by rw [clientOf, hsurf, Option.map_some]
  rw [map_update, Option.map_some, hsame, ← hclient]
  exact update_eq_self a _

/-- A surface keeps its client as long as it is there. -/
theorem clientOf_handle (hs : Fresh s) {e : Request} (h : s.handle e = some t)
    (hlive : (s.clientOf f).isSome) (hne : e ≠ .destroySurface f) :
    t.clientOf f = s.clientOf f := by
  have hkept {a : ℕ} {surf : Surface} (hsurf : s.surface a = some surf) (surf' : Surface)
      (hsame : surf'.client = surf.client) :
      (update s.surface a (some surf') f).map Surface.client = s.clientOf f :=
    congrFun (clientOf_update hsurf surf' hsame) f
  cases handled_of_handle h with
  | createSurface client id alloc =>
    have hold : f ≠ s.next := by
      rintro rfl
      rw [clientOf, hs.surface _ (Nat.le_refl _)] at hlive
      cases hlive
    cases alloc with
    | noMemory => rfl
    | noResource => rfl
    | created =>
      show (update s.surface s.next _ f).map Surface.client = _
      rw [update_of_ne hold]
      rfl
  | getXdgSurface hsurf id alloc =>
    cases alloc with
    | noMemory => rfl
    | noResource => exact hkept hsurf _ rfl
    | created => exact hkept hsurf _ rfl
  | getToplevel hxdg id alloc =>
    cases alloc with
    | noMemory => rfl
    | noResource => rfl
    | created =>
      simp only [getToplevel, if_true]
      split_ifs <;> rfl
  | ackConfigure hxdg => rfl
  | commit hsurf buffer =>
    cases buffer with
    | none => rfl
    | some size => exact hkept hsurf _ rfl
  | bufferDestroyed hsurf => exact hkept hsurf _ rfl
  | setCursor hsurf => exact hkept hsurf _ rfl
  | getSubsurface hsurf => exact hkept hsurf _ rfl
  | destroySurface hsurf =>
    split_ifs
    · show (update s.surface _ none f).map Surface.client = _
      rw [update_of_ne fun heq => hne (congrArg Request.destroySurface heq.symm)]
      rfl
    · rfl
  | destroyXdgSurface hxdg =>
    rw [freeXdgSurface]
    split
    · rfl
    case _ surf hsurf => exact hkept hsurf _ rfl
  | destroyToplevel htop =>
    rw [freeToplevel]
    split <;> rfl
  | resizeAll => split_ifs <;> rfl
  | input => split_ifs <;> rfl
  | disconnect client => rfl
  | gone => rfl

end Server

/-! ## Every event -/

/-- The events that leave no device behind -/
def KeepsFocus (s : Seat) : Event → Prop
  | .request (.destroySurface a) => s.pointer.focus = some a ∨ s.keyboard.focus = some a →
    (s.server.dropActive a).target ≠ some a
  | .request (.setCursor a) => s.pointer.focus ≠ some a
  | .getPointer client _ created => created = true → s.pointer.MayBind s.server client
  | .getKeyboard client _ _ created => created = true → s.keyboard.MayBind s.server client
  | .touchMotion id | .touchUp id => ∀ d ∈ s.touches,
    s.server.target.bind s.server.clientOf = some d.client →
      touchOwner id s.touchLog = some d.client
  | _ => True

structure FocusInv (s : Seat) : Prop where
  fresh : Fresh s.server
  pointer : s.pointer.Ok s.server s.nextHandle
  keyboard : s.keyboard.Ok s.server s.nextHandle
  touch : TouchesRight s.touchLog

theorem focused_of_inv {s : Seat} (hs : FocusInv s) : Focused s where
  pointer := hs.pointer.follows
  keyboard := hs.keyboard.follows
  touch := hs.touch
  pointer_live f hf := by simpa [Server.clientOf] using hs.pointer.live f hf
  keyboard_live f hf := by simpa [Server.clientOf] using hs.keyboard.live f hf

theorem focusInv_init : FocusInv .init where
  fresh := rolesInv_init.toFresh
  pointer := Channel.ok_init _ _
  keyboard := Channel.ok_init _ _
  touch earlier d m later h := by
    have hlen := congrArg List.length h
    simp [Seat.init] at hlen

/-! ### Touches -/

/-- What is not a `down` does not change to whom touches belong. -/
theorem touchOwner_append {id : ℤ} {log log' : Log}
    (h : ∀ e ∈ log', ∀ a id', e.2 ≠ .touchDown a id') :
    touchOwner id (log ++ log') = touchOwner id log := by
  induction log' using List.reverseRecOn with
  | nil => rw [List.append_nil]
  | append_singleton log' e ih =>
    have hrest := ih fun e' he' => h e' (List.mem_append_left _ he')
    have hlast := h e (List.mem_append_right _ List.mem_cons_self)
    rw [← List.append_assoc, touchOwner, List.foldl_append, ← touchOwner, hrest]
    obtain ⟨d, m⟩ := e
    cases m with
    | touchDown a id' => exact absurd rfl (hlast a id')
    | _ => rfl

theorem mem_send {devices : List Device} {client : ℕ} {m : Message} {e : Device × Message}
    (he : e ∈ send devices client fun _ => [m]) :
    e.1 ∈ devices ∧ e.1.client = client ∧ e.2 = m := by
  obtain ⟨d, hd, hmem⟩ := List.mem_flatMap.1 he
  obtain ⟨hdevice, hclient⟩ := List.mem_filter.1 hd
  obtain rfl : e = (d, m) := by simpa using hmem
  exact ⟨hdevice, of_decide_eq_true hclient, rfl⟩

/-- A motion or an `up` may be sent to those to whom the touch belongs. -/
theorem touchesRight_append {log : Log} {devices : List Device} {client : ℕ} {m : Message}
    (hlog : TouchesRight log)
    (hm : ∀ id, m = .touchMotion id ∨ m = .touchUp id → ∀ d ∈ devices, d.client = client →
      touchOwner id log = some d.client) :
    TouchesRight (log ++ send devices client fun _ => [m]) := by
  intro earlier d m' later heq id hkind
  rcases List.append_eq_append_iff.1 heq with ⟨sent, rfl, hsent⟩ | ⟨rest, rfl, hrest⟩
  · -- The message is one of those that are sent now.
    have hmem : (d, m') ∈ send devices client fun _ => [m] := by
      rw [hsent]
      exact List.mem_append_right _ List.mem_cons_self
    obtain ⟨hdevice, hclient, rfl⟩ := mem_send hmem
    rw [touchOwner_append]
    · exact hm id hkind d hdevice hclient
    · intro e he a id' hdown
      have hsame := (mem_send (hsent ▸ List.mem_append_left _ he)).2.2
      rw [hdown] at hsame
      rcases hkind with rfl | rfl
      · cases hsame
      · cases hsame
  · cases rest with
    | nil =>
      have hmem : (d, m') ∈ send devices client fun _ => [m] := by
        rw [List.nil_append] at hrest
        rw [← hrest]
        exact List.mem_cons_self
      obtain ⟨hdevice, hclient, rfl⟩ := mem_send hmem
      rw [List.append_nil] at hm
      exact hm id hkind d hdevice hclient
    | cons e rest =>
      obtain ⟨rfl, -⟩ := List.cons.inj hrest
      exact hlog earlier d m' rest rfl id hkind

/-! ### The handlers -/

section Handlers

variable {s t : Seat}

theorem FocusInv.dispatchTouch (hs : FocusInv s) (message : ℕ → Message)
    (hm : ∀ a id, message a = .touchMotion id ∨ message a = .touchUp id → ∀ d ∈ s.touches,
      s.server.target.bind s.server.clientOf = some d.client →
        touchOwner id s.touchLog = some d.client) :
    FocusInv (s.dispatchTouch message) := by
  rw [Seat.dispatchTouch]
  cases htarget : s.server.target with
  | none => exact hs
  | some a =>
    obtain ⟨client, hclient⟩ := clientOf_target htarget
    simp only [hclient]
    refine ⟨hs.fresh, hs.pointer, hs.keyboard, touchesRight_append hs.touch ?_⟩
    rintro id hkind d hd rfl
    exact hm a id hkind d hd (by rw [htarget, Option.bind_some, hclient])

theorem FocusInv.dispatchPointer (hs : FocusInv s) (message : Message)
    (hm : ∀ a, protocol (some a) message = some (some a)) :
    FocusInv (s.dispatchPointer message) := by
  rw [Seat.dispatchPointer]
  cases htarget : s.server.target with
  | none => exact hs
  | some a =>
    obtain ⟨client, hclient⟩ := clientOf_target htarget
    obtain ⟨pointer, hensure, hok, hfocus⟩ := hs.pointer.ensure .pointer
    rw [htarget, Option.isSome_some, if_pos rfl] at hfocus
    simp only [hensure, hclient]
    refine ⟨hs.fresh, hok.input hfocus hclient _ fun d => ?_, hs.keyboard, hs.touch⟩
    rw [List.foldlM_cons, hm a]
    exact Channel.foldlM_frame (some a) d

theorem FocusInv.dispatchKey (hs : FocusInv s) (key : ℕ) (pressed : Bool) :
    FocusInv ((s.dispatchKey key pressed).hold key pressed) := by
  rw [Seat.dispatchKey]
  cases htarget : s.server.target with
  | none => exact ⟨hs.fresh, hs.pointer, hs.keyboard, hs.touch⟩
  | some a =>
    obtain ⟨client, hclient⟩ := clientOf_target htarget
    obtain ⟨keyboard, hensure, hok, hfocus⟩ := hs.keyboard.ensure .keyboard
    rw [htarget, Option.isSome_some, if_pos rfl] at hfocus
    simp only [hensure, hclient]
    have hkey := hok.input hfocus hclient (fun _ => [.key key pressed]) fun _ => rfl
    have hmods := hkey.input hfocus hclient (fun _ => s.modifiersAfter key pressed) <| by
      intro d
      rw [Seat.modifiersAfter]
      split_ifs <;> rfl
    exact ⟨hs.fresh, hs.pointer, hmods, hs.touch⟩

/-- The focus passes on before the surface goes. -/
theorem FocusInv.surfaceDestroyed (hs : FocusInv s) {a : ℕ} {server : Server}
    (h : s.server.handle (.destroySurface a) = some server)
    (hkeeps : KeepsFocus s (.request (.destroySurface a))) :
    FocusInv (s.surfaceDestroyed a server) := by
  let before := s.server.dropActive a
  have hbefore : before.clientOf = s.server.clientOf := rfl
  have hpass (kind : Kind) (c : Channel) (hc : c.Ok s.server s.nextHandle)
      (hfocus : c.focus = some a → before.target ≠ some a) :
      ∃ c', c.surfaceDestroyed kind before a = some c' ∧ c'.Ok server s.nextHandle := by
    obtain ⟨c', heq, hok, hmoved⟩ := (hc.congr fun _ _ => congrFun hbefore _).surfaceDestroyed
      (s := before) kind a
    refine ⟨c', heq, hok.congr fun f hf => ?_⟩
    apply Server.clientOf_handle hs.fresh h (hok.live f hf)
    rintro ⟨⟩
    rw [hmoved] at hf
    split_ifs at hf with hmine
    · exact hfocus hmine hf
    · exact hmine hf
  obtain ⟨pointer, hpointer, hpok⟩ :=
    hpass .pointer s.pointer hs.pointer fun hmine => hkeeps (.inl hmine)
  obtain ⟨keyboard, hkeyboard, hkok⟩ :=
    hpass .keyboard s.keyboard hs.keyboard fun hmine => hkeeps (.inr hmine)
  have heq : s.surfaceDestroyed a server =
      { s with server := server, pointer := pointer, keyboard := keyboard } := by
    simp only [Seat.surfaceDestroyed]
    rw [hpointer, hkeyboard]
  rw [heq]
  exact ⟨Server.fresh_handle hs.fresh h, hpok, hkok, hs.touch⟩

theorem FocusInv.request (hs : FocusInv s) {request : Request} {server : Server}
    (hdestroy : ∀ a, request ≠ .destroySurface a) (h : s.server.handle request = some server) :
    FocusInv { s with server := server } := by
  have hkept (c : Channel) (hc : c.Ok s.server s.nextHandle) : c.Ok server s.nextHandle :=
    hc.congr fun f hf => Server.clientOf_handle hs.fresh h (hc.live f hf) (hdestroy f)
  exact ⟨Server.fresh_handle hs.fresh h, hkept _ hs.pointer, hkept _ hs.keyboard, hs.touch⟩

theorem FocusInv.postNoMemory (hs : FocusInv s) (client : ℕ) :
    FocusInv { s with server := s.server.postNoMemory client } :=
  ⟨⟨hs.fresh.surface, hs.fresh.xdgSurface, hs.fresh.toplevel⟩,
    hs.pointer.congr fun _ _ => rfl, hs.keyboard.congr fun _ _ => rfl, hs.touch⟩

theorem focusInv_step (s : Seat) (e : Event) (t : Seat) (hs : FocusInv s) (hkeeps : KeepsFocus s e)
    (hstep : s.step e = some t) : FocusInv t := by
  have hnext : s.nextHandle ≤ s.nextHandle + 1 := Nat.le_succ _
  cases Seat.stepped_of_step hstep with
  | destroySurface h => exact hs.surfaceDestroyed h hkeeps
  | setCursor h =>
    rw [Seat.setCursor, if_neg hkeeps]
    exact hs.request (fun _ heq => Request.noConfusion heq) h
  | request hdestroy h => exact hs.request hdestroy h
  | getPointer client version =>
    exact ⟨hs.fresh, hs.pointer.bind rfl .pointer false (hkeeps rfl), hs.keyboard.mono hnext,
      hs.touch⟩
  | getKeyboard client version keymap =>
    exact ⟨hs.fresh, hs.pointer.mono hnext, hs.keyboard.bind rfl .keyboard keymap (hkeeps rfl),
      hs.touch⟩
  | getTouch client version =>
    exact ⟨hs.fresh, hs.pointer.mono hnext, hs.keyboard.mono hnext, hs.touch⟩
  | noPointer client version => exact hs.postNoMemory client
  | noKeyboard client version keymap => exact hs.postNoMemory client
  | noTouch client version => exact hs.postNoMemory client
  | releasePointer d => exact ⟨hs.fresh, hs.pointer.release d, hs.keyboard, hs.touch⟩
  | releaseKeyboard d => exact ⟨hs.fresh, hs.pointer, hs.keyboard.release d, hs.touch⟩
  | releaseTouch d => exact ⟨hs.fresh, hs.pointer, hs.keyboard, hs.touch⟩
  | key key pressed hheld => exact hs.dispatchKey key pressed
  | pointerMotion => exact hs.dispatchPointer _ fun _ => rfl
  | pointerButton button pressed => exact hs.dispatchPointer _ fun _ => rfl
  | pointerAxis axis => exact hs.dispatchPointer _ fun _ => rfl
  | touchDown id => exact hs.dispatchTouch _ (by simp)
  | touchMotion id =>
    apply hs.dispatchTouch
    rintro a id' (hid | hid)
    · obtain rfl := Message.touchMotion.inj hid
      exact hkeeps
    · cases hid
  | touchUp id =>
    apply hs.dispatchTouch
    rintro a id' (hid | hid)
    · cases hid
    · obtain rfl := Message.touchUp.inj hid
      exact hkeeps
  | touchFrame => exact hs.dispatchTouch _ (by simp)

end Handlers

/-- In every run whose events leave no device behind, what the devices hear follows the protocol,
and the focus is on a surface that is there. -/
theorem focus_kept {es : List Event} {t : Seat} (hkeeps : seatSystem.Guarded KeepsFocus .init es)
    (hrun : seatSystem.run .init es = some t) : Focused t :=
  focused_of_inv (seatSystem.invariant_of_guarded focusInv_step focusInv_init hkeeps hrun)

instance (s : Server) (c : Channel) (client : ℕ) : Decidable (c.MayBind s client) :=
  inferInstanceAs (Decidable (ite _ _ _))

instance (s : Seat) (id : ℤ) : Decidable (∀ d ∈ s.touches,
    s.server.target.bind s.server.clientOf = some d.client →
      touchOwner id s.touchLog = some d.client) :=
  inferInstanceAs (Decidable (∀ d ∈ s.touches, _))

instance : ∀ (s : Seat) (e : Event), Decidable (KeepsFocus s e)
  | _, .request (.destroySurface _) => inferInstanceAs (Decidable (_ → _))
  | _, .request (.setCursor _) => inferInstanceAs (Decidable (_ ≠ _))
  | _, .getPointer _ _ _ | _, .getKeyboard _ _ _ _ => inferInstanceAs (Decidable (_ → _))
  | s, .touchMotion id | s, .touchUp id => inferInstanceAs (Decidable (∀ d ∈ s.touches, _ →
    touchOwner id s.touchLog = some d.client))
  | _, .request (.createSurface _ _ _) | _, .request (.getXdgSurface _ _ _)
  | _, .request (.getToplevel _ _ _) | _, .request (.ackConfigure _) | _, .request (.commit _ _)
  | _, .request (.bufferDestroyed _) | _, .request (.getSubsurface _)
  | _, .request (.destroyXdgSurface _) | _, .request (.destroyToplevel _)
  | _, .request .resizeAll | _, .request .input | _, .request (.disconnect _)
  | _, .request .gone | _, .getTouch _ _ _ | _, .releasePointer _ | _, .releaseKeyboard _
  | _, .releaseTouch _ | _, .key _ _ | _, .pointerMotion | _, .pointerButton _ _
  | _, .pointerAxis _ | _, .touchDown _ | _, .touchFrame => isTrue trivial

/-- Two clients with a window each; the first closes its own while it has the keyboard. -/
def twoWindows : List Event :=
  [.request (.createSurface 1 3 .created), .request (.getXdgSurface 0 4 .created),
    .request (.getToplevel 1 5 .created), .request (.commit 0 (some (1440, 3200))),
    .getPointer 1 7 true, .getKeyboard 1 5 true true, .getTouch 1 5 true, .pointerMotion,
    .key 42 true, .touchDown 0, .touchMotion 0,
    .request (.createSurface 2 3 .created), .request (.getXdgSurface 3 4 .created),
    .request (.commit 3 (some (1440, 3200))), .pointerMotion, .getPointer 2 7 true,
    .request (.destroyToplevel 2), .request (.destroyXdgSurface 1),
    .request (.destroySurface 0), .key 42 false]

theorem focus_kept_twoWindows :
    Focused ((seatSystem.run .init twoWindows).get (by decide +kernel)) :=
  @focus_kept twoWindows _ (by decide +kernel) (Option.some_get _).symm

/-- A client binds one pointer before it has a window, and one after. -/
def twoPointers : List Event :=
  [.getPointer 1 7 true, .request (.createSurface 1 3 .created),
    .request (.getXdgSurface 0 4 .created), .getPointer 1 7 true, .pointerMotion]

theorem not_focused_twoPointers : ¬ ∀ es t, seatSystem.run .init es = some t → Focused t := by
  intro h
  have hmotion : (seatSystem.run .init twoPointers).map (fun t =>
      (follow ⟨0, 1, 7⟩ t.pointer.log).isSome) = some false := by decide +kernel
  obtain ⟨t, ht, hfollow⟩ := Option.map_eq_some_iff.1 hmotion
  rw [(h twoPointers t ht).pointer] at hfollow
  cases hfollow

end Droidspaces.Wayland
