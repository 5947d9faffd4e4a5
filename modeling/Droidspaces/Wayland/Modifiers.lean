import Droidspaces.Wayland.Focus

/-!
# The modifiers that a keyboard is told of

`mods_depressed` is changed by the keys that are dispatched, one bit for two keys, and is sent to
the client of the target when it changes.  A client that gets the focus is told that no modifier is
depressed, whatever is.

So the clients know which modifiers are held as long as no second key of a modifier is released, no
modifier is pressed or released without a target, and the focus moves while none is held
(`modifiers_kept`).
-/

namespace Droidspaces.Wayland

open Transition

/-- What was last said of the modifiers, after more messages -/
def toldBy (last : Option (BitVec 32)) (ms : List Message) : Option (BitVec 32) :=
  ms.foldl (fun last m => match m with
    | .modifiers depressed => some depressed
    | _ => last) last

/-- What a device was last told of the modifiers -/
def lastModifiers (d : Device) (log : Log) : Option (BitVec 32) := toldBy none (heard d log)

/-- The keyboards of the client that has the focus know the modifiers. -/
def Channel.Told (s : Server) (mods : BitVec 32) (c : Channel) : Prop :=
  ∀ d ∈ c.devices, c.focus.bind s.clientOf = some d.client → lastModifiers d c.log = some mods

/-- A modifier is depressed when one of its keys is held. -/
def Depressed (mods : BitVec 32) (held : List ℕ) : Prop :=
  ∀ i, mods.getLsbD i = true ↔ ∃ key ∈ held, (keyToModifierMask key).getLsbD i = true

structure Truthful (s : Seat) : Prop where
  depressed : Depressed s.mods s.held
  told : s.keyboard.Told s.server s.mods

/-! ## The bits -/

theorem mask_cases (key : ℕ) :
    keyToModifierMask key = 0 ∨ ∃ j < 32, keyToModifierMask key = BitVec.twoPow 32 j := by
  rw [keyToModifierMask]
  split_ifs
  · exact .inr ⟨0, by decide, rfl⟩
  · exact .inr ⟨1, by decide, rfl⟩
  · exact .inr ⟨2, by decide, rfl⟩
  · exact .inr ⟨3, by decide, rfl⟩
  · exact .inr ⟨6, by decide, rfl⟩
  · exact .inl rfl

/-- Each modifier has a bit of its own. -/
theorem mask_of_getLsbD {key i : ℕ} (h : (keyToModifierMask key).getLsbD i = true) :
    keyToModifierMask key = BitVec.twoPow 32 i := by
  rcases mask_cases key with hzero | ⟨j, -, hj⟩
  · rw [hzero, BitVec.ofNat_eq_ofNat, BitVec.getLsbD_zero] at h
    cases h
  · rw [hj, BitVec.getLsbD_twoPow, Bool.and_eq_true, decide_eq_true_iff, decide_eq_true_iff] at h
    rw [hj, h.2]

theorem mask_ne_zero {key i : ℕ} (h : (keyToModifierMask key).getLsbD i = true) :
    keyToModifierMask key ≠ 0 := by
  intro hzero
  rw [hzero, BitVec.ofNat_eq_ofNat, BitVec.getLsbD_zero] at h
  cases h

theorem exists_getLsbD_mask {key : ℕ} (h : keyToModifierMask key ≠ 0) :
    ∃ i, (keyToModifierMask key).getLsbD i = true := by
  obtain ⟨j, hlt, hj⟩ := (mask_cases key).resolve_left h
  refine ⟨j, ?_⟩
  rw [hj, BitVec.getLsbD_twoPow, decide_eq_true hlt, decide_eq_true rfl, Bool.and_self]

section Depressed

variable {mods : BitVec 32} {held : List ℕ} {key : ℕ}

theorem depressed_press (h : Depressed mods held) (key : ℕ) :
    Depressed (mods ||| keyToModifierMask key) (key :: held) := by
  intro i
  rw [BitVec.getLsbD_or, Bool.or_eq_true, h i]
  constructor
  · rintro (⟨key', hmem, hbit⟩ | hbit)
    · exact ⟨key', List.mem_cons_of_mem _ hmem, hbit⟩
    · exact ⟨key, List.mem_cons_self, hbit⟩
  · rintro ⟨key', hmem, hbit⟩
    rcases List.mem_cons.1 hmem with rfl | hmem
    · exact .inr hbit
    · exact .inl ⟨key', hmem, hbit⟩

/-- The last key of a modifier that is released takes it along. -/
theorem depressed_release (h : Depressed mods held)
    (hlast : keyToModifierMask key ≠ 0 →
      ∀ key' ∈ held, key' ≠ key → keyToModifierMask key' ≠ keyToModifierMask key) :
    Depressed (mods &&& ~~~ keyToModifierMask key) (held.filter (· ≠ key)) := by
  intro i
  rw [BitVec.getLsbD_and, Bool.and_eq_true, h i]
  constructor
  · rintro ⟨⟨key', hmem, hbit⟩, hnot⟩
    refine ⟨key', List.mem_filter.2 ⟨hmem, decide_eq_true ?_⟩, hbit⟩
    rintro rfl
    rw [BitVec.getLsbD_not, hbit, Bool.not_true, Bool.and_false] at hnot
    cases hnot
  · rintro ⟨key', hmem, hbit⟩
    obtain ⟨hmem, hne⟩ := List.mem_filter.1 hmem
    refine ⟨⟨key', hmem, hbit⟩, ?_⟩
    have hlt : i < 32 := BitVec.lt_of_getLsbD hbit
    rw [BitVec.getLsbD_not, decide_eq_true hlt, Bool.true_and, Bool.not_eq_true']
    by_contra hkey
    rw [Bool.not_eq_false] at hkey
    have hsame := (mask_of_getLsbD hbit).trans (mask_of_getLsbD hkey).symm
    exact hlast (mask_ne_zero hkey) key' hmem (of_decide_eq_true hne) hsame

/-- A key that is not dispatched does no harm where its modifier is held anyway. -/
theorem depressed_press_unseen (h : Depressed mods held)
    (hshared : keyToModifierMask key ≠ 0 →
      ∃ key' ∈ held, keyToModifierMask key' = keyToModifierMask key) :
    Depressed mods (key :: held) := by
  intro i
  rw [h i]
  constructor
  · rintro ⟨key', hmem, hbit⟩
    exact ⟨key', List.mem_cons_of_mem _ hmem, hbit⟩
  · rintro ⟨key', hmem, hbit⟩
    rcases List.mem_cons.1 hmem with rfl | hmem
    · obtain ⟨other, hother, hsame⟩ := hshared (mask_ne_zero hbit)
      exact ⟨other, hother, hsame ▸ hbit⟩
    · exact ⟨key', hmem, hbit⟩

theorem depressed_release_unseen (h : Depressed mods held)
    (hshared : keyToModifierMask key ≠ 0 →
      ∃ key' ∈ held, key' ≠ key ∧ keyToModifierMask key' = keyToModifierMask key) :
    Depressed mods (held.filter (· ≠ key)) := by
  intro i
  rw [h i]
  constructor
  · rintro ⟨key', hmem, hbit⟩
    by_cases hne : key' = key
    · subst hne
      obtain ⟨other, hother, hdiff, hsame⟩ := hshared (mask_ne_zero hbit)
      exact ⟨other, List.mem_filter.2 ⟨hother, decide_eq_true hdiff⟩, hsame ▸ hbit⟩
    · exact ⟨key', List.mem_filter.2 ⟨hmem, decide_eq_true hne⟩, hbit⟩
  · rintro ⟨key', hmem, hbit⟩
    exact ⟨key', (List.mem_filter.1 hmem).1, hbit⟩

end Depressed

/-! ## What the keyboards are told -/

namespace Channel

variable {s : Server} {n : ℕ} {c : Channel} {a client : ℕ} {d : Device}
  {messages : Device → List Message}

theorem lastModifiers_append (log log' : Log) :
    lastModifiers d (log ++ log') = toldBy (lastModifiers d log) (heard d log') := by
  rw [lastModifiers, heard_append, toldBy, List.foldl_append]
  rfl

theorem lastModifiers_notify (hc : Sound s n c) (hd : d ∈ c.devices) :
    lastModifiers d (c.notify client messages).log =
      if d.client = client then toldBy (lastModifiers d c.log) (messages d)
      else lastModifiers d c.log := by
  have happend : lastModifiers d (c.notify client messages).log =
      toldBy (lastModifiers d c.log) (heard d (send c.devices client messages)) :=
    lastModifiers_append _ _
  rw [happend]
  split_ifs with hclient
  · rw [heard_send hc.nodup hd hclient]
  · rw [heard_send_of_not (.inr hclient)]
    rfl

/-- With a leave nothing is said about the modifiers. -/
theorem Sound.leave (hc : Sound s n c) :
    ∃ c', c.leave .keyboard s = some c' ∧ c'.devices = c.devices ∧
      Sound s n { c' with focus := none } ∧
        ∀ d ∈ c.devices, lastModifiers d c'.log = lastModifiers d c.log := by
  cases hfocus : c.focus with
  | none =>
    refine ⟨c, by rw [Channel.leave, hfocus], rfl, ?_, fun _ _ => rfl⟩
    rw [← hfocus]
    exact hc
  | some f =>
    obtain ⟨client, hclient⟩ := Option.isSome_iff_exists.1 (hc.live f hfocus)
    refine ⟨c.notify client (Kind.keyboard.leave f), by simp [Channel.leave, hfocus, hclient], rfl,
      hc.notify none (fun a ha => absurd ha (Option.not_mem_none a)) client _, fun d hd => ?_⟩
    rw [lastModifiers_notify hc hd]
    split_ifs <;> rfl

/-- The devices that are entered when the focus moves are told that nothing is depressed. -/
theorem Sound.ensure (hc : Sound s n c) :
    ∃ c', c.ensure .keyboard s = some c' ∧ c'.devices = c.devices ∧ Sound s n c' ∧
      (c'.focus = if s.target.isSome then s.target else c.focus) ∧
        ∀ d ∈ c.devices, lastModifiers d c'.log =
          if c.focus ≠ s.target ∧ s.target.bind s.clientOf = some d.client then some 0
          else lastModifiers d c.log := by
  rw [Channel.ensure]
  cases htarget : s.target with
  | none => exact ⟨c, rfl, rfl, hc, rfl, fun d _ => by simp⟩
  | some a =>
    by_cases hfocus : c.focus = some a
    · exact ⟨c, if_pos hfocus, rfl, hc, hfocus, fun d _ => by simp [hfocus]⟩
    · obtain ⟨client, hclient⟩ := clientOf_target htarget
      obtain ⟨left, hleft, hdevices, hsound, hsame⟩ := hc.leave
      have hlive : ∀ f ∈ some a, (s.clientOf f).isSome := by
        rintro f ⟨⟩
        rw [hclient, Option.isSome_some]
      refine ⟨{ left with focus := some a }.notify client (Kind.keyboard.enter a),
        by simp [hfocus, hleft, hclient], hdevices, hsound.notify (some a) hlive client _, rfl,
        fun d hd => ?_⟩
      have hnotify := @lastModifiers_notify s n { left with focus := none } client d
        (Kind.keyboard.enter a) hsound (hdevices ▸ hd)
      refine hnotify.trans ?_
      rw [Option.bind_some, hclient, hsame d hd]
      by_cases hmine : d.client = client
      · rw [if_pos hmine, if_pos ⟨hfocus, by rw [hmine]⟩]
        rfl
      · rw [if_neg hmine, if_neg fun h => hmine (Option.some.inj h.2).symm]

end Channel

/-! ## Every event -/

/-- The key that is pressed reaches the server, or another one has set its bit; and one that is
released is the last of its modifier, where it is seen. -/
def KeepsBits (s : Seat) (key : ℕ) (pressed : Bool) : Prop :=
  keyToModifierMask key ≠ 0 →
    if s.server.target.isSome then
      pressed = false →
        ∀ key' ∈ s.held, key' ≠ key → keyToModifierMask key' ≠ keyToModifierMask key
    else
      ∃ key' ∈ s.held, (pressed = false → key' ≠ key) ∧
        keyToModifierMask key' = keyToModifierMask key

/-- A client that is about to get the focus has no keyboard, or no modifier is depressed. -/
def MayEnter (s : Seat) (a : ℕ) : Prop :=
  (∀ d ∈ s.keyboard.devices, s.server.clientOf a ≠ some d.client) ∨ s.mods = 0

/-- The events after which the modifiers are known -/
def KeepsModifiers (s : Seat) : Event → Prop
  | .request (.destroySurface a) => s.keyboard.focus = some a →
    ∀ b ∈ (s.server.dropActive a).target, b ≠ a ∧ MayEnter s b
  | .getKeyboard client _ _ created => created = true →
    if s.server.target.bind s.server.clientOf = some client then
      s.mods = 0 ∧ ∀ d ∈ s.keyboard.devices, d.client = client →
        lastModifiers d s.keyboard.log = some 0
    else s.keyboard.focus.bind s.server.clientOf ≠ some client
  | .key key pressed => KeepsBits s key pressed ∧
    ∀ a ∈ s.server.target, s.keyboard.focus ≠ some a → MayEnter s a ∨
      keyToModifierMask key ≠ 0 ∧ (pressed = true → s.mods &&& keyToModifierMask key = 0)
  | _ => True

structure ModifiersInv (s : Seat) : Prop extends Truthful s where
  fresh : Fresh s.server
  sound : s.keyboard.Sound s.server s.nextHandle

theorem modifiersInv_init : ModifiersInv .init where
  depressed i := by simp [Seat.init]
  told := nofun
  fresh := rolesInv_init.toFresh
  sound := (Channel.ok_init _ _).toSound

section Handlers

variable {s t : Seat} {key : ℕ} {pressed : Bool}

/-- A key changes the bits as it changes what is held. -/
theorem depressed_hold (hs : Truthful s) (hkeeps : KeepsBits s key pressed) :
    Depressed (if s.server.target.isSome then s.modsAfter key pressed else s.mods)
      (s.hold key pressed).held := by
  rw [KeepsBits] at hkeeps
  split_ifs at hkeeps ⊢ with htarget
  · cases pressed with
    | false => exact depressed_release hs.depressed fun hmask => hkeeps hmask rfl
    | true => exact depressed_press hs.depressed key
  · cases pressed with
    | false =>
      apply depressed_release_unseen hs.depressed
      intro hmask
      obtain ⟨key', hmem, hne, hsame⟩ := hkeeps hmask
      exact ⟨key', hmem, hne rfl, hsame⟩
    | true =>
      apply depressed_press_unseen hs.depressed
      intro hmask
      obtain ⟨key', hmem, -, hsame⟩ := hkeeps hmask
      exact ⟨key', hmem, hsame⟩

/-- A modifier that was not set is set, and one whose key is held is cleared. -/
theorem modsAfter_ne (hs : Truthful s) (hheld : pressed = true ∨ key ∈ s.held)
    (hmask : keyToModifierMask key ≠ 0)
    (hclear : pressed = true → s.mods &&& keyToModifierMask key = 0) :
    s.modsAfter key pressed ≠ s.mods := by
  obtain ⟨i, hi⟩ := exists_getLsbD_mask hmask
  intro hsame
  have hbit := congrArg (fun mods => BitVec.getLsbD mods i) hsame
  cases pressed with
  | false =>
    have hset : s.mods.getLsbD i = true :=
      (hs.depressed i).2 ⟨key, hheld.resolve_left Bool.false_ne_true, hi⟩
    simp [Seat.modsAfter, hset, hi] at hbit
  | true =>
    have hunset := congrArg (fun mods => BitVec.getLsbD mods i) (hclear rfl)
    simp [hi] at hunset
    simp [Seat.modsAfter, hunset, hi] at hbit

theorem ModifiersInv.dispatchKey (hs : ModifiersInv s) (hheld : pressed = true ∨ key ∈ s.held)
    (hkeeps : KeepsModifiers s (.key key pressed)) :
    ModifiersInv ((s.dispatchKey key pressed).hold key pressed) := by
  obtain ⟨hbits, hfocus⟩ := hkeeps
  have hdepressed := depressed_hold hs.toTruthful hbits
  rw [Seat.dispatchKey]
  cases htarget : s.server.target with
  | none =>
    rw [htarget] at hdepressed
    exact ⟨⟨hdepressed, hs.told⟩, hs.fresh, hs.sound⟩
  | some a =>
    rw [htarget] at hdepressed hfocus
    obtain ⟨client, hclient⟩ := clientOf_target htarget
    obtain ⟨entered, hensure, hdevices, hsound, hmoved, hlast⟩ := hs.sound.ensure
    rw [htarget, Option.isSome_some, if_pos rfl] at hmoved
    simp only [hensure, hclient]
    have hkey := hsound.notify entered.focus hsound.live client fun _ => [.key key pressed]
    have hmods := hkey.notify entered.focus hsound.live client
      fun _ => s.modifiersAfter key pressed
    refine ⟨⟨hdepressed, fun d hd hmine => ?_⟩, hs.fresh, hmods⟩
    have hd : d ∈ s.keyboard.devices := hdevices ▸ hd
    have hmine : s.server.clientOf a = some d.client := by
      have hbind : entered.focus.bind s.server.clientOf = some d.client := hmine
      rwa [hmoved, Option.bind_some] at hbind
    have hself : d.client = client := (Option.some.inj (hclient.symm.trans hmine)).symm
    have hlog := @Channel.lastModifiers_notify _ _ _ client d
      (fun _ => s.modifiersAfter key pressed) hkey (hdevices ▸ hd)
    have hlog' := @Channel.lastModifiers_notify _ _ _ client d
      (fun _ => [.key key pressed]) hsound (hdevices ▸ hd)
    rw [if_pos hself] at hlog hlog'
    refine hlog.trans ?_
    show toldBy (lastModifiers d (entered.notify client _).log) _ = _
    rw [hlog', hlast d hd, htarget]
    -- Either the modifiers have just been sent, or they are what was known before.
    by_cases hsame : s.modsAfter key pressed = s.mods
    · have hsilent : s.modifiersAfter key pressed = [] := if_neg (not_not.2 hsame)
      rw [hsilent, Option.bind_some]
      show (if s.keyboard.focus ≠ some a ∧ s.server.clientOf a = some d.client then some 0
        else lastModifiers d s.keyboard.log) = some (s.modsAfter key pressed)
      rw [hsame]
      by_cases hhas : s.keyboard.focus = some a
      · rw [if_neg fun h => h.1 hhas]
        exact hs.told d hd (by rw [hhas, Option.bind_some, hmine])
      · rw [if_pos ⟨hhas, hmine⟩]
        rcases hfocus a rfl hhas with (hnobody | hzero) | ⟨hmask, hclear⟩
        · exact absurd hmine (hnobody d hd)
        · rw [hzero]
        · exact absurd hsame (modsAfter_ne hs.toTruthful hheld hmask hclear)
    · have hsent : s.modifiersAfter key pressed = [.modifiers (s.modsAfter key pressed)] :=
        if_pos hsame
      rw [hsent]
      rfl

theorem ModifiersInv.postNoMemory (hs : ModifiersInv s) (client : ℕ) :
    ModifiersInv { s with server := s.server.postNoMemory client } :=
  ⟨⟨hs.depressed, hs.told⟩, ⟨hs.fresh.surface, hs.fresh.xdgSurface, hs.fresh.toplevel⟩,
    hs.sound.congr fun _ _ => rfl⟩

theorem ModifiersInv.fault (hs : ModifiersInv s) : ModifiersInv s.fault :=
  ⟨⟨hs.depressed, hs.told⟩, ⟨hs.fresh.surface, hs.fresh.xdgSurface, hs.fresh.toplevel⟩,
    hs.sound.congr fun _ _ => rfl⟩

theorem ModifiersInv.dispatchPointer (hs : ModifiersInv s) (message : Message) :
    ModifiersInv (s.dispatchPointer message) := by
  rw [Seat.dispatchPointer]
  split
  · exact hs
  · split
    · exact ⟨⟨hs.depressed, hs.told⟩, hs.fresh, hs.sound⟩
    · exact hs.fault

theorem ModifiersInv.dispatchTouch (hs : ModifiersInv s) (message : ℕ → Message) :
    ModifiersInv (s.dispatchTouch message) := by
  rw [Seat.dispatchTouch]
  split
  · exact hs
  · split
    · exact ⟨⟨hs.depressed, hs.told⟩, hs.fresh, hs.sound⟩
    · exact hs.fault

/-- What happens to the surfaces is not told the keyboards, as long as the focus stays. -/
theorem ModifiersInv.request (hs : ModifiersInv s) {request : Request} {server : Server}
    (h : s.server.handle request = some server)
    (hlive : ∀ f ∈ s.keyboard.focus, request ≠ .destroySurface f) (pointer : Channel) :
    ModifiersInv { s with server := server, pointer := pointer } := by
  have hkept : ∀ f ∈ s.keyboard.focus, server.clientOf f = s.server.clientOf f := fun f hf =>
    Server.clientOf_handle hs.fresh h (hs.sound.live f hf) (hlive f hf)
  refine ⟨⟨hs.depressed, fun d hd hmine => hs.told d hd ?_⟩, Server.fresh_handle hs.fresh h,
    hs.sound.congr hkept⟩
  obtain ⟨f, hf, hclient⟩ := Option.bind_eq_some_iff.1 hmine
  rw [hf, Option.bind_some, ← hkept f hf, hclient]

theorem ModifiersInv.surfaceDestroyed (hs : ModifiersInv s) {a : ℕ} {server : Server}
    (h : s.server.handle (.destroySurface a) = some server)
    (hkeeps : KeepsModifiers s (.request (.destroySurface a))) :
    ModifiersInv (s.surfaceDestroyed a server) := by
  let before := s.server.dropActive a
  have hsound : s.keyboard.Sound before s.nextHandle := hs.sound.congr fun _ _ => rfl
  rw [Seat.surfaceDestroyed]
  cases s.pointer.surfaceDestroyed .pointer before a with
  | none => exact hs.fault
  | some pointer =>
    by_cases hfocus : s.keyboard.focus = some a
    · obtain ⟨left, hleft, hdevices, hnone, hsame⟩ := hsound.leave
      obtain ⟨entered, hensure, hdevices', hok, hmoved, hlast⟩ := hnone.ensure
      have heq : s.keyboard.surfaceDestroyed .keyboard before a = some entered := by
        rw [Channel.surfaceDestroyed, if_pos hfocus, hleft, Option.bind_some, hensure]
      simp only [before, heq]
      have hfocus' : entered.focus = before.target := by
        rw [hmoved]
        cases before.target <;> rfl
      have hkept : ∀ f ∈ entered.focus, server.clientOf f = before.clientOf f := by
        intro f hf
        apply Server.clientOf_handle hs.fresh h (hok.live f hf)
        rintro ⟨⟩
        exact (hkeeps hfocus a (hfocus' ▸ hf)).1 rfl
      refine ⟨⟨hs.depressed, fun d hd hmine => ?_⟩, Server.fresh_handle hs.fresh h,
        hok.congr hkept⟩
      obtain ⟨b, hb, hclient⟩ := Option.bind_eq_some_iff.1 hmine
      have hd' : d ∈ left.devices := hdevices' ▸ hd
      have htarget : before.target = some b := hfocus'.symm.trans hb
      have hclient' : before.clientOf b = some d.client := (hkept b hb).symm.trans hclient
      show lastModifiers d entered.log = some s.mods
      rw [hlast d hd', htarget, if_pos ⟨(Option.some_ne_none b).symm, by rw [Option.bind_some, hclient']⟩]
      rcases (hkeeps hfocus b htarget).2 with hnobody | hzero
      · exact absurd hclient' (hnobody d (hdevices ▸ hd'))
      · rw [hzero]
    · have heq : s.keyboard.surfaceDestroyed .keyboard before a = some s.keyboard := by
        rw [Channel.surfaceDestroyed, if_neg hfocus]
      simp only [before, heq]
      apply hs.request h
      rintro f hf ⟨⟩
      exact hfocus hf

/-- A keyboard that is entered is told that nothing is depressed, and that has to be so. -/
theorem ModifiersInv.getKeyboard (hs : ModifiersInv s) (client version : ℕ) (keymap : Bool)
    (hkeeps : KeepsModifiers s (.getKeyboard client version keymap true)) :
    ModifiersInv { s with
      nextHandle := s.nextHandle + 1
      keyboard := s.keyboard.bind .keyboard s.server (s.device client version) keymap } := by
  let d := s.device client version
  replace hkeeps := hkeeps rfl
  obtain ⟨hnew, hheard⟩ := hs.sound.known d (Nat.le_refl _)
  have hother (ms : List Message) {d' : Device} (hd' : d' ∈ s.keyboard.devices) :
      lastModifiers d' (s.keyboard.log ++ ms.map (d, ·)) = lastModifiers d' s.keyboard.log := by
    have hne : d ≠ d' := by
      rintro rfl
      exact hnew hd'
    rw [Channel.lastModifiers_append, heard_other hne]
    rfl
  by_cases htold : s.server.target.bind s.server.clientOf = some client
  · rw [if_pos htold] at hkeeps
    obtain ⟨hzero, hothers⟩ := hkeeps
    obtain ⟨a, htarget, hclient⟩ := Option.bind_eq_some_iff.1 htold
    have heq := @Channel.bind_of_target s.server s.keyboard .keyboard a d htarget hclient keymap
    have hlive : ∀ f ∈ some a, (s.server.clientOf f).isSome := by
      rintro f ⟨⟩
      rw [hclient, Option.isSome_some]
    rw [heq]
    refine ⟨⟨hs.depressed, fun d' hd' hmine => ?_⟩, hs.fresh,
      hs.sound.add rfl (some a) _ hlive⟩
    have hclient' : d'.client = client := by
      have hbind : s.server.clientOf a = some d'.client := hmine
      exact (Option.some.inj (hclient.symm.trans hbind)).symm
    rcases List.mem_cons.1 hd' with rfl | hd'
    · show lastModifiers d _ = some s.mods
      rw [Channel.lastModifiers_append, heard_self, toldBy, List.foldl_append, hzero]
      rfl
    · show lastModifiers d' _ = some s.mods
      rw [hother _ hd', hothers d' hd' hclient', hzero]
  · rw [if_neg htold] at hkeeps
    have heq := @Channel.bind_of_other s.server s.keyboard .keyboard d htold keymap
    rw [heq]
    refine ⟨⟨hs.depressed, fun d' hd' hmine => ?_⟩, hs.fresh,
      hs.sound.add rfl _ _ hs.sound.live⟩
    rcases List.mem_cons.1 hd' with rfl | hd'
    · exact absurd hmine hkeeps
    · show lastModifiers d' _ = some s.mods
      rw [hother _ hd']
      exact hs.told d' hd' hmine

theorem modifiersInv_step (s : Seat) (e : Event) (t : Seat) (hs : ModifiersInv s)
    (hkeeps : KeepsModifiers s e) (hstep : s.step e = some t) : ModifiersInv t := by
  have hnext : s.nextHandle ≤ s.nextHandle + 1 := Nat.le_succ _
  cases Seat.stepped_of_step hstep with
  | destroySurface h => exact hs.surfaceDestroyed h hkeeps
  | setCursor h => exact hs.request h (fun _ _ heq => Request.noConfusion heq) _
  | request hdestroy h => exact hs.request h (fun f _ => hdestroy f) _
  | getPointer client version =>
    exact ⟨⟨hs.depressed, hs.told⟩, hs.fresh, hs.sound.mono hnext⟩
  | getKeyboard client version keymap => exact hs.getKeyboard client version keymap hkeeps
  | getTouch client version =>
    exact ⟨⟨hs.depressed, hs.told⟩, hs.fresh, hs.sound.mono hnext⟩
  | noPointer client version => exact hs.postNoMemory client
  | noKeyboard client version keymap => exact hs.postNoMemory client
  | noTouch client version => exact hs.postNoMemory client
  | releasePointer d => exact ⟨⟨hs.depressed, hs.told⟩, hs.fresh, hs.sound⟩
  | releaseKeyboard d =>
    exact ⟨⟨hs.depressed, fun d' hd' => hs.told d' (List.mem_filter.1 hd').1⟩, hs.fresh,
      hs.sound.release d⟩
  | releaseTouch d => exact ⟨⟨hs.depressed, hs.told⟩, hs.fresh, hs.sound⟩
  | key key pressed hheld => exact hs.dispatchKey hheld hkeeps
  | pointerMotion => exact hs.dispatchPointer _
  | pointerButton button pressed => exact hs.dispatchPointer _
  | pointerAxis axis => exact hs.dispatchPointer _
  | touchDown id => exact hs.dispatchTouch _
  | touchMotion id => exact hs.dispatchTouch _
  | touchUp id => exact hs.dispatchTouch _
  | touchFrame => exact hs.dispatchTouch _

end Handlers

/-- In every run whose events keep the modifiers known, the bits are those of the keys that are
held, and the keyboards of the client that has the focus were last told them. -/
theorem modifiers_kept {es : List Event} {t : Seat}
    (hkeeps : seatSystem.Guarded KeepsModifiers .init es) (hrun : seatSystem.run .init es = some t) :
    Truthful t :=
  (seatSystem.invariant_of_guarded modifiersInv_step modifiersInv_init hkeeps hrun).toTruthful

instance (s : Seat) (key : ℕ) (pressed : Bool) : Decidable (KeepsBits s key pressed) :=
  inferInstanceAs (Decidable (_ → ite _ _ _))

instance (s : Seat) (a : ℕ) : Decidable (MayEnter s a) := inferInstanceAs (Decidable (_ ∨ _))

instance : ∀ (s : Seat) (e : Event), Decidable (KeepsModifiers s e)
  | s, .request (.destroySurface a) => inferInstanceAs (Decidable (s.keyboard.focus = some a →
    ∀ b ∈ (s.server.dropActive a).target, b ≠ a ∧ MayEnter s b))
  | _, .getKeyboard _ _ _ _ => inferInstanceAs (Decidable (_ → ite _ _ _))
  | s, .key key pressed => inferInstanceAs (Decidable (KeepsBits s key pressed ∧
    ∀ a ∈ s.server.target, s.keyboard.focus ≠ some a → MayEnter s a ∨
      keyToModifierMask key ≠ 0 ∧ (pressed = true → s.mods &&& keyToModifierMask key = 0)))
  | _, .request (.createSurface _ _ _) | _, .request (.getXdgSurface _ _ _)
  | _, .request (.getToplevel _ _ _) | _, .request (.ackConfigure _) | _, .request (.commit _ _)
  | _, .request (.bufferDestroyed _) | _, .request (.setCursor _) | _, .request (.getSubsurface _)
  | _, .request (.destroyXdgSurface _) | _, .request (.destroyToplevel _)
  | _, .request .resizeAll | _, .request .input | _, .request (.disconnect _)
  | _, .request .gone | _, .getPointer _ _ _ | _, .getTouch _ _ _ | _, .releasePointer _
  | _, .releaseKeyboard _ | _, .releaseTouch _ | _, .pointerMotion | _, .pointerButton _ _
  | _, .pointerAxis _ | _, .touchDown _ | _, .touchMotion _ | _, .touchUp _ | _, .touchFrame =>
    isTrue trivial

/-- Shift is held while a key is pressed, and the focus moves afterwards. -/
def shifted : List Event :=
  [.request (.createSurface 1 3 .created), .request (.getXdgSurface 0 4 .created),
    .getKeyboard 1 5 true true, .key 42 true, .key 30 true, .key 30 false, .key 42 false,
    .request (.createSurface 2 3 .created), .request (.getXdgSurface 2 4 .created),
    .getKeyboard 2 5 true true, .key 54 true]

theorem modifiers_kept_shifted :
    Truthful ((seatSystem.run .init shifted).get (by decide +kernel)) :=
  @modifiers_kept shifted _ (by decide +kernel) (Option.some_get _).symm

/-- Both shift keys are pressed, and one is released. -/
def bothShifts : List Event :=
  [.request (.createSurface 1 3 .created), .request (.getXdgSurface 0 4 .created),
    .getKeyboard 1 5 true true, .key 42 true, .key 54 true, .key 54 false]

theorem not_truthful_bothShifts : ¬ ∀ es t, seatSystem.run .init es = some t → Truthful t := by
  intro h
  have hshift : (seatSystem.run .init bothShifts).map (fun t =>
      (t.mods.getLsbD 0, t.held)) = some (false, [42]) := by decide +kernel
  obtain ⟨t, ht, heq⟩ := Option.map_eq_some_iff.1 hshift
  obtain ⟨hmods, hheld⟩ := Prod.mk.inj heq
  have hbit := (h bothShifts t ht).depressed 0
  rw [hmods, hheld] at hbit
  exact absurd (hbit.2 ⟨42, List.mem_cons_self, by decide⟩) (by decide)

end Droidspaces.Wayland
