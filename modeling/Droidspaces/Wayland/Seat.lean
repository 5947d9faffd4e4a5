import Droidspaces.Wayland.Surfaces
import Mathlib.Data.BitVec

/-!
# The seat of the embedded Wayland server

Pointer and keyboard have a surface in focus each.  Clients bind any number of `wl_pointer` and
`wl_keyboard` resources, and what is sent to a client goes to all that it has bound; so the one
focus has to do for many resources.

Positions, times and serials are left out of the messages, and the locked and latched modifiers,
which nothing sets.
-/

namespace Droidspaces.Wayland

open Transition

/-- A `wl_pointer`, `wl_keyboard` or `wl_touch` of a client -/
structure Device where
  handle : ℕ
  client : ℕ
  version : ℕ
  deriving DecidableEq

/-- What is sent to a device. -/
inductive Message where
  | enter (surf : ℕ)
  | leave (surf : ℕ)
  | frame
  | motion
  | button (button : ℕ) (pressed : Bool)
  | axis (axis : ℕ)
  | keymap
  | repeatInfo
  | key (key : ℕ) (pressed : Bool)
  | modifiers (depressed : BitVec 32)
  | touchDown (surf : ℕ) (id : ℤ)
  | touchMotion (id : ℤ)
  | touchUp (id : ℤ)
  | touchFrame
  deriving DecidableEq

abbrev Log := List (Device × Message)

/-- A loop over the resources of a client: each is sent its messages. -/
def send (devices : List Device) (client : ℕ) (messages : Device → List Message) : Log :=
  (devices.filter (·.client = client)).flatMap fun d => (messages d).map (d, ·)

inductive Kind where
  | pointer
  | keyboard
  deriving DecidableEq

namespace Kind

/-- From `WL_POINTER_FRAME_SINCE_VERSION` on -/
def frame (d : Device) : List Message := if 5 ≤ d.version then [.frame] else []

/-- With the enter a keyboard is told that no modifier is depressed. -/
def enter : Kind → ℕ → Device → List Message
  | pointer, a, d => .enter a :: frame d
  | keyboard, a, _ => [.enter a, .modifiers 0]

def leave : Kind → ℕ → Device → List Message
  | pointer, a, d => .leave a :: frame d
  | keyboard, a, _ => [.leave a]

/-- What a new device is told first; without a keymap only that keys are repeated. -/
def bound : Kind → (keymap : Bool) → Device → List Message
  | pointer, _, _ => []
  | keyboard, keymap, d =>
    (if keymap then [.keymap] else []) ++ if 4 ≤ d.version then [.repeatInfo] else []

end Kind

/-- `pointer_resources` and `pointer_focus`, or those of the keyboard, and what has been sent -/
structure Channel where
  devices : List Device
  focus : Option ℕ
  log : Log

/-- `wl_resource_get_client` of the resource of a surface -/
def Server.clientOf (s : Server) (a : ℕ) : Option ℕ := (s.surface a).map Surface.client

namespace Channel

variable (c : Channel) (kind : Kind) (s : Server)

/-- The messages go to all devices of a client. -/
def notify (client : ℕ) (messages : Device → List Message) : Channel :=
  { c with log := c.log ++ send c.devices client messages }

/-- The leave to the client of the focus, unless that is gone. -/
def leave : Option Channel :=
  match c.focus with
  | none => some c
  | some f => (s.clientOf f).map fun client => c.notify client (kind.leave f)

/-- `ensure_pointer_focus` and `ensure_keyboard_focus` -/
def ensure : Option Channel :=
  match s.target with
  | none => some c
  | some a =>
    if c.focus = some a then some c
    else
      (c.leave kind s).bind fun c =>
        (s.clientOf a).map fun client =>
          { c with focus := some a }.notify client (kind.enter a)

/-- One half of `ds_seat_surface_destroyed` -/
def surfaceDestroyed (a : ℕ) : Option Channel :=
  if c.focus = some a then
    (c.leave kind s).bind fun c => { c with focus := none }.ensure kind s
  else some c

/-- `seat_get_pointer` and `seat_get_keyboard`: who has the target is entered at once, and that
becomes the focus. -/
def bind (d : Device) (keymap : Bool) : Channel :=
  let c := { c with
    devices := d :: c.devices
    log := c.log ++ (kind.bound keymap d).map (d, ·) }
  match s.target with
  | none => c
  | some a =>
    if s.clientOf a = some d.client then
      { c with
        focus := some a
        log := c.log ++ (kind.enter a d).map (d, ·) }
    else c

/-- The resource is destroyed. -/
def release (d : Device) : Channel := { c with devices := c.devices.filter (· ≠ d) }

end Channel

/-- `key_to_modifier_mask` -/
def keyToModifierMask (key : ℕ) : BitVec 32 :=
  if key = 42 ∨ key = 54 then 1 <<< 0
  else if key = 58 then 1 <<< 1
  else if key = 29 ∨ key = 97 then 1 <<< 2
  else if key = 56 ∨ key = 100 then 1 <<< 3
  else if key = 125 ∨ key = 126 then 1 <<< 6
  else 0

structure Seat where
  server : Server
  pointer : Channel
  keyboard : Channel
  /-- `touch_resources` -/
  touches : List Device
  touchLog : Log
  /-- `mods_depressed` -/
  mods : BitVec 32
  /-- The keys that are held. -/
  held : List ℕ
  nextHandle : ℕ

def Channel.init : Channel where
  devices := []
  focus := none
  log := []

/-- After `ds_seat_init` -/
def Seat.init : Seat where
  server := .init
  pointer := .init
  keyboard := .init
  touches := []
  touchLog := []
  mods := 0
  held := []
  nextHandle := 0

inductive Event where
  | request (request : Request)
  | getPointer (client version : ℕ) (created : Bool)
  | getKeyboard (client version : ℕ) (keymap created : Bool)
  | getTouch (client version : ℕ) (created : Bool)
  | releasePointer (d : Device)
  | releaseKeyboard (d : Device)
  | releaseTouch (d : Device)
  | key (key : ℕ) (pressed : Bool)
  | pointerMotion
  | pointerButton (button : ℕ) (pressed : Bool)
  | pointerAxis (axis : ℕ)
  | touchDown (id : ℤ)
  | touchMotion (id : ℤ)
  | touchUp (id : ℤ)
  | touchFrame
  deriving DecidableEq

namespace Seat

variable (s : Seat)

def fault : Seat := { s with server := s.server.fault }

/-- `surface_resource_destroy`: the seat looks for a new target while the surface is still in the
list, and is not active any more. -/
def surfaceDestroyed (a : ℕ) (server : Server) : Seat :=
  let before := s.server.dropActive a
  match s.pointer.surfaceDestroyed .pointer before a,
      s.keyboard.surfaceDestroyed .keyboard before a with
  | some pointer, some keyboard =>
    { s with server := server, pointer := pointer, keyboard := keyboard }
  | _, _ => s.fault

/-- `pointer_set_cursor`: a cursor does not keep the focus. -/
def setCursor (a : ℕ) (server : Server) : Seat :=
  { s with
    server := server
    pointer := if s.pointer.focus = some a then { s.pointer with focus := none } else s.pointer }

/-- What `dispatch_pointer_motion`, `_button` and `_axis` do -/
def dispatchPointer (message : Message) : Seat :=
  match s.server.target with
  | none => s
  | some a =>
    match s.pointer.ensure .pointer s.server, s.server.clientOf a with
    | some pointer, some client =>
      { s with pointer := pointer.notify client fun d => message :: Kind.frame d }
    | _, _ => s.fault

def dispatchPointerMotion : Seat := s.dispatchPointer .motion

def dispatchPointerButton (button : ℕ) (pressed : Bool) : Seat :=
  s.dispatchPointer (.button button pressed)

def dispatchPointerAxis (axis : ℕ) : Seat := s.dispatchPointer (.axis axis)

/-- What `dispatch_touch_down`, `_motion`, `_up` and `_frame` do; the surface is the target. -/
def dispatchTouch (message : ℕ → Message) : Seat :=
  match s.server.target with
  | none => s
  | some a =>
    match s.server.clientOf a with
    | some client =>
      { s with touchLog := s.touchLog ++ send s.touches client fun _ => [message a] }
    | none => s.fault

def dispatchTouchDown (id : ℤ) : Seat := s.dispatchTouch fun a => .touchDown a id

def dispatchTouchMotion (id : ℤ) : Seat := s.dispatchTouch fun _ => .touchMotion id

def dispatchTouchUp (id : ℤ) : Seat := s.dispatchTouch fun _ => .touchUp id

def dispatchTouchFrame : Seat := s.dispatchTouch fun _ => .touchFrame

/-- `mods_depressed` after a key -/
def modsAfter (key : ℕ) (pressed : Bool) : BitVec 32 :=
  if pressed then s.mods ||| keyToModifierMask key else s.mods &&& ~~~ keyToModifierMask key

/-- The modifiers are sent when they have changed. -/
def modifiersAfter (key : ℕ) (pressed : Bool) : List Message :=
  if s.modsAfter key pressed ≠ s.mods then [.modifiers (s.modsAfter key pressed)] else []

def dispatchKey (key : ℕ) (pressed : Bool) : Seat :=
  match s.server.target with
  | none => s
  | some a =>
    match s.keyboard.ensure .keyboard s.server, s.server.clientOf a with
    | some keyboard, some client =>
      let keyboard := keyboard.notify client fun _ => [.key key pressed]
      { s with
        mods := s.modsAfter key pressed
        keyboard := keyboard.notify client fun _ => s.modifiersAfter key pressed }
    | _, _ => s.fault

/-- The key is held from now on, or no longer. -/
def hold (key : ℕ) (pressed : Bool) : Seat :=
  { s with held := if pressed then key :: s.held else s.held.filter (· ≠ key) }

/-- A new device of a client -/
def device (client version : ℕ) : Device := ⟨s.nextHandle, client, version⟩

/-- Devices and input are served between clients that leave; a key is released after it was
pressed. -/
def step (e : Event) : Option Seat :=
  if s.server.faulted then none
  else
    match e with
    | .request (.destroySurface a) =>
      (s.server.handle (.destroySurface a)).map fun server => s.surfaceDestroyed a server
    | .request (.setCursor a) =>
      (s.server.handle (.setCursor a)).map fun server => s.setCursor a server
    | .request request =>
      (s.server.handle request).map fun server => { s with server := server }
    | .releasePointer d =>
      if d ∈ s.pointer.devices then some { s with pointer := s.pointer.release d } else none
    | .releaseKeyboard d =>
      if d ∈ s.keyboard.devices then some { s with keyboard := s.keyboard.release d } else none
    | .releaseTouch d =>
      if d ∈ s.touches then some { s with touches := s.touches.filter (· ≠ d) } else none
    | e =>
      if s.server.leaving.isSome then none
      else
        match e with
        | .getPointer client version created =>
          some (if created then
            { s with
              nextHandle := s.nextHandle + 1
              pointer := s.pointer.bind .pointer s.server (s.device client version) false }
          else { s with server := s.server.postNoMemory client })
        | .getKeyboard client version keymap created =>
          some (if created then
            { s with
              nextHandle := s.nextHandle + 1
              keyboard := s.keyboard.bind .keyboard s.server (s.device client version) keymap }
          else { s with server := s.server.postNoMemory client })
        | .getTouch client version created =>
          some (if created then
            { s with
              nextHandle := s.nextHandle + 1
              touches := s.device client version :: s.touches }
          else { s with server := s.server.postNoMemory client })
        | .key key pressed =>
          if pressed || key ∈ s.held then some ((s.dispatchKey key pressed).hold key pressed)
          else none
        | .pointerMotion => some s.dispatchPointerMotion
        | .pointerButton button pressed => some (s.dispatchPointerButton button pressed)
        | .pointerAxis axis => some (s.dispatchPointerAxis axis)
        | .touchDown id => some (s.dispatchTouchDown id)
        | .touchMotion id => some (s.dispatchTouchMotion id)
        | .touchUp id => some (s.dispatchTouchUp id)
        | .touchFrame => some s.dispatchTouchFrame
        | _ => none

/-- What an event can do, where there is one -/
inductive Stepped : Event → Seat → Prop
  | destroySurface {a : ℕ} {server : Server}
    (h : s.server.handle (.destroySurface a) = some server) :
    Stepped (.request (.destroySurface a)) (s.surfaceDestroyed a server)
  | setCursor {a : ℕ} {server : Server} (h : s.server.handle (.setCursor a) = some server) :
    Stepped (.request (.setCursor a)) (s.setCursor a server)
  | request {request : Request} {server : Server} (hdestroy : ∀ a, request ≠ .destroySurface a)
    (h : s.server.handle request = some server) :
    Stepped (.request request) { s with server := server }
  | getPointer (client version : ℕ) : Stepped (.getPointer client version true)
      { s with
        nextHandle := s.nextHandle + 1
        pointer := s.pointer.bind .pointer s.server (s.device client version) false }
  | getKeyboard (client version : ℕ) (keymap : Bool) :
    Stepped (.getKeyboard client version keymap true)
      { s with
        nextHandle := s.nextHandle + 1
        keyboard := s.keyboard.bind .keyboard s.server (s.device client version) keymap }
  | getTouch (client version : ℕ) : Stepped (.getTouch client version true)
      { s with
        nextHandle := s.nextHandle + 1
        touches := s.device client version :: s.touches }
  | noPointer (client version : ℕ) : Stepped (.getPointer client version false)
      { s with server := s.server.postNoMemory client }
  | noKeyboard (client version : ℕ) (keymap : Bool) :
    Stepped (.getKeyboard client version keymap false)
      { s with server := s.server.postNoMemory client }
  | noTouch (client version : ℕ) : Stepped (.getTouch client version false)
      { s with server := s.server.postNoMemory client }
  | releasePointer (d : Device) :
    Stepped (.releasePointer d) { s with pointer := s.pointer.release d }
  | releaseKeyboard (d : Device) :
    Stepped (.releaseKeyboard d) { s with keyboard := s.keyboard.release d }
  | releaseTouch (d : Device) :
    Stepped (.releaseTouch d) { s with touches := s.touches.filter (· ≠ d) }
  | key (key : ℕ) (pressed : Bool) (hheld : pressed = true ∨ key ∈ s.held) :
    Stepped (.key key pressed) ((s.dispatchKey key pressed).hold key pressed)
  | pointerMotion : Stepped .pointerMotion s.dispatchPointerMotion
  | pointerButton (button : ℕ) (pressed : Bool) :
    Stepped (.pointerButton button pressed) (s.dispatchPointerButton button pressed)
  | pointerAxis (axis : ℕ) : Stepped (.pointerAxis axis) (s.dispatchPointerAxis axis)
  | touchDown (id : ℤ) : Stepped (.touchDown id) (s.dispatchTouchDown id)
  | touchMotion (id : ℤ) : Stepped (.touchMotion id) (s.dispatchTouchMotion id)
  | touchUp (id : ℤ) : Stepped (.touchUp id) (s.dispatchTouchUp id)
  | touchFrame : Stepped .touchFrame s.dispatchTouchFrame

variable {s}

theorem stepped_of_step {e : Event} {t : Seat} (h : s.step e = some t) : s.Stepped e t := by
  unfold step at h
  rw [Option.ite_none_left_eq_some] at h
  replace h := h.2
  cases e with
  | request request =>
    by_cases hdestroy : ∃ a, request = .destroySurface a
    · obtain ⟨a, rfl⟩ := hdestroy
      obtain ⟨server, hserver, rfl⟩ := Option.map_eq_some_iff.1 h
      exact .destroySurface hserver
    by_cases hcursor : ∃ a, request = .setCursor a
    · obtain ⟨a, rfl⟩ := hcursor
      obtain ⟨server, hserver, rfl⟩ := Option.map_eq_some_iff.1 h
      exact .setCursor hserver
    have hother : (s.server.handle request).map (fun server => { s with server := server }) =
        some t := by
      cases request
      case destroySurface a => exact absurd ⟨a, rfl⟩ hdestroy
      case setCursor a => exact absurd ⟨a, rfl⟩ hcursor
      all_goals exact h
    obtain ⟨server, hserver, rfl⟩ := Option.map_eq_some_iff.1 hother
    exact .request (fun a heq => hdestroy ⟨a, heq⟩) hserver
  | releasePointer d =>
    obtain ⟨-, ⟨⟩⟩ := Option.ite_none_right_eq_some.1 h
    exact .releasePointer d
  | releaseKeyboard d =>
    obtain ⟨-, ⟨⟩⟩ := Option.ite_none_right_eq_some.1 h
    exact .releaseKeyboard d
  | releaseTouch d =>
    obtain ⟨-, ⟨⟩⟩ := Option.ite_none_right_eq_some.1 h
    exact .releaseTouch d
  | getPointer client version created =>
    obtain ⟨-, ⟨⟩⟩ := Option.ite_none_left_eq_some.1 h
    cases created
    · exact .noPointer client version
    · exact .getPointer client version
  | getKeyboard client version keymap created =>
    obtain ⟨-, ⟨⟩⟩ := Option.ite_none_left_eq_some.1 h
    cases created
    · exact .noKeyboard client version keymap
    · exact .getKeyboard client version keymap
  | getTouch client version created =>
    obtain ⟨-, ⟨⟩⟩ := Option.ite_none_left_eq_some.1 h
    cases created
    · exact .noTouch client version
    · exact .getTouch client version
  | key key pressed =>
    obtain ⟨-, h⟩ := Option.ite_none_left_eq_some.1 h
    obtain ⟨hheld, ⟨⟩⟩ := Option.ite_none_right_eq_some.1 h
    exact .key key pressed (by simpa using hheld)
  | pointerMotion =>
    obtain ⟨-, ⟨⟩⟩ := Option.ite_none_left_eq_some.1 h
    exact .pointerMotion
  | pointerButton button pressed =>
    obtain ⟨-, ⟨⟩⟩ := Option.ite_none_left_eq_some.1 h
    exact .pointerButton button pressed
  | pointerAxis axis =>
    obtain ⟨-, ⟨⟩⟩ := Option.ite_none_left_eq_some.1 h
    exact .pointerAxis axis
  | touchDown id =>
    obtain ⟨-, ⟨⟩⟩ := Option.ite_none_left_eq_some.1 h
    exact .touchDown id
  | touchMotion id =>
    obtain ⟨-, ⟨⟩⟩ := Option.ite_none_left_eq_some.1 h
    exact .touchMotion id
  | touchUp id =>
    obtain ⟨-, ⟨⟩⟩ := Option.ite_none_left_eq_some.1 h
    exact .touchUp id
  | touchFrame =>
    obtain ⟨-, ⟨⟩⟩ := Option.ite_none_left_eq_some.1 h
    exact .touchFrame

end Seat

/-- The seat, under requests of any clients and input in any order -/
def seatSystem : System Seat Event where
  step := Seat.step

end Droidspaces.Wayland
