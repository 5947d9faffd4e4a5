import Droidspaces.Transition.System
import Droidspaces.Wayland.Surfaces

/-!
# The buffers of a surface

A client attaches a `wl_buffer` and commits; the compositor holds the buffer that it shows and
releases it when another one is shown.  For a buffer in shared memory it makes a wrapper at each
attach, which it has to free.  The descriptor of a dma-buf is made and freed with its `wl_buffer`,
and while it is shown a listener clears the pointers of the surface when that goes.

Addresses are not given out twice.  A handler that follows a pointer to what is gone leaves a
`faulted` compositor, and so does one that puts a listener into a second list.
-/

namespace Droidspaces.Wayland

open Function Transition

/-- A `wl_buffer` resource, for a dma-buf with its `ds_buffer` -/
structure WlBuffer where
  client : ℕ
  id : ℕ
  isShm : Bool
  /-- The surface whose pointers are cleared when the buffer goes -/
  surface : Option ℕ
  deriving DecidableEq

/-- A `struct ds_buffer *`: a wrapper, or what belongs to a dma-buf -/
inductive Ref where
  | wrapper (w : ℕ)
  | dmabuf (r : ℕ)
  deriving DecidableEq

inductive Slot where
  | pending
  | current
  | previous
  deriving DecidableEq

/-- A `ds_surface`, as far as it holds buffers and frame callbacks -/
structure Content where
  client : ℕ
  id : ℕ
  pending : Option Ref
  current : Option Ref
  previous : Option Ref
  /-- `frame_callback_list` -/
  callbacks : List ℕ
  deriving DecidableEq

def Content.slot (c : Content) : Slot → Option Ref
  | .pending => c.pending
  | .current => c.current
  | .previous => c.previous

/-- A `wl_callback` resource -/
structure Callback where
  client : ℕ
  id : ℕ
  deriving DecidableEq

structure Compositor where
  next : ℕ
  wlBuffer : ℕ → Option WlBuffer
  /-- The `wl_buffer` that a wrapper is for -/
  wrapper : ℕ → Option ℕ
  callback : ℕ → Option Callback
  content : ℕ → Option Content
  /-- The surfaces -/
  surfaces : List ℕ
  /-- What the last request has sent a release for -/
  released : List ℕ
  leaving : Option ℕ
  faulted : Bool

def Compositor.init : Compositor where
  next := 0
  wlBuffer _ := none
  wrapper _ := none
  callback _ := none
  content _ := none
  surfaces := []
  released := []
  leaving := none
  faulted := false

inductive BufferRequest where
  | createSurface (client id : ℕ) (alloc : Alloc)
  | createBuffer (client id : ℕ) (isShm : Bool) (alloc : Alloc)
  /-- `wl_surface.attach`, and whether there is memory for a wrapper -/
  | attach (surf : ℕ) (buffer : Option ℕ) (allocated : Bool)
  | frame (surf id : ℕ) (alloc : Alloc)
  | commit (surf : ℕ)
  /-- `ds_frame_timer_tick` -/
  | tick
  | destroyBuffer (buffer : ℕ)
  | destroySurface (surf : ℕ)
  /-- libwayland gets to a callback of a client that has gone. -/
  | destroyCallback (callback : ℕ)
  | disconnect (client : ℕ)
  | gone
  deriving DecidableEq

namespace Compositor

variable (s : Compositor)

/-! ## Resources -/

def allResources (P : ℕ → ℕ → Bool) : Bool :=
  (List.range s.next).all fun a =>
    (s.wlBuffer a).all (fun o => P o.client o.id) &&
      (s.callback a).all (fun o => P o.client o.id) &&
        (s.content a).all fun o => P o.client o.id

def isFree (client id : ℕ) : Bool := s.allResources fun c i => c != client || i != id

/-- A resource may be destroyed at any time by its client, and when the client has gone in the
order of the ids. -/
def mayDestroy (client id : ℕ) : Bool :=
  s.leaving.all fun c => c == client && s.allResources fun c' i => c' != client || id ≤ i

def fault : Compositor := { s with faulted := true }

/-- The `wl_buffer` that a pointer is for -/
def resourceOf : Ref → Option ℕ
  | .wrapper w => s.wrapper w
  | .dmabuf r => some r

/-! ## The handlers -/

/-- `ds_shm_free_buffer` for a wrapper, and `disarm_buffer` for a dma-buf -/
def dispose : Ref → Compositor
  | .wrapper w =>
    if (s.wrapper w).isSome then { s with wrapper := update s.wrapper w none } else s.fault
  | .dmabuf r =>
    match s.wlBuffer r with
    | none => s.fault
    | some buffer =>
      { s with wlBuffer := update s.wlBuffer r (some { buffer with surface := none }) }

/-- `wl_buffer_send_release` -/
def release (b : Ref) : Compositor :=
  match s.resourceOf b with
  | none => s.fault
  | some r =>
    if (s.wlBuffer r).isSome then { s with released := s.released ++ [r] } else s.fault

/-- Whether it is a wrapper is read from the buffer. -/
def freeIfShm : Option Ref → Compositor
  | none => s
  | some (.wrapper w) => s.dispose (.wrapper w)
  | some (.dmabuf r) => if (s.wlBuffer r).isSome then s else s.fault

/-- `arm_buffer`; a listener that is in the list of a resource must not be added to it again. -/
def arm (a : ℕ) : Ref → Compositor
  | .wrapper w => if (s.wrapper w).isSome then s else s.fault
  | .dmabuf r =>
    match s.wlBuffer r with
    | none => s.fault
    | some buffer =>
      if buffer.surface = some a then s
      else if buffer.surface.isSome then s.fault
      else { s with wlBuffer := update s.wlBuffer r (some { buffer with surface := some a }) }

/-- A callback is done, or goes with its surface: its resource is destroyed. -/
def endCallback (callback : ℕ) : Compositor :=
  if (s.callback callback).isSome then { s with callback := update s.callback callback none }
  else s.fault

/-- `flush_frame_callbacks` -/
def endCallbacks (callbacks : List ℕ) : Compositor := callbacks.foldl endCallback s

def setContent (a : ℕ) (c : Content) : Compositor :=
  { s with content := update s.content a (some c) }

/-- `surface_attach`: where no wrapper can be made, the user data of the `wl_buffer` is taken for a
`ds_buffer`. -/
def attach (a : ℕ) (c : Content) (allocated : Bool) : Option ℕ → Compositor
  | none => (s.freeIfShm c.pending).setContent a { c with pending := none }
  | some r =>
    match s.wlBuffer r with
    | none => s.fault
    | some buffer =>
      if buffer.isShm then
        let made := { s with next := s.next + 1 }
        if allocated then
          let made := made.freeIfShm c.pending
          { made with wrapper := update made.wrapper s.next (some r) }.setContent a
            { c with pending := some (.wrapper s.next) }
        else made.setContent a { c with pending := some (.wrapper s.next) }
      else s.setContent a { c with pending := some (.dmabuf r) }

/-- `surface_frame`; the callback is put into the list whether or not it has a resource. -/
def frame (a : ℕ) (c : Content) (id : ℕ) : Alloc → Compositor
  | .noMemory => s
  | alloc =>
    { s with
      next := s.next + 1
      callback := update s.callback s.next
        (if alloc = Alloc.created then some ⟨c.client, id⟩ else none) }.setContent a
      { c with callbacks := c.callbacks ++ [s.next] }

/-- The part of `surface_commit` for a buffer that is pending -/
def commitBuffer (a : ℕ) (c : Content) (p : Ref) : Compositor × Content :=
  -- What has been shown becomes the previous buffer.
  let (s, c) :=
    match c.current with
    | none => (s, c)
    | some q =>
      if q = p then (s, c)
      else
        (match c.previous with
          | none => s
          | some o => if o ≠ q ∧ o ≠ p then (s.release o).dispose o else s,
        { c with previous := some q })
  let s := s.arm a p
  let c := { c with current := some p }
  match c.previous with
  | none => (s, c)
  | some o =>
    if o ≠ p then ((s.release o).dispose o, { c with previous := none }) else (s, c)

/-- `surface_commit` -/
def commit (a : ℕ) (c : Content) : Compositor :=
  let (s, c) :=
    match c.pending with
    | none => (s, c)
    | some p => s.commitBuffer a c p
  (s.endCallbacks c.callbacks).setContent a { c with pending := none, callbacks := [] }

/-- The callbacks of one surface, in `ds_frame_timer_tick` -/
def flush (a : ℕ) : Compositor :=
  match s.content a with
  | none => s.fault
  | some c => (s.endCallbacks c.callbacks).setContent a { c with callbacks := [] }

/-- `buffer_destroy_notify` -/
def notify (r : ℕ) : Option ℕ → Compositor
  | none => s
  | some a =>
    match s.content a with
    | none => s.fault
    | some c =>
      let clear (b : Option Ref) := if b = some (.dmabuf r) then none else b
      s.setContent a { c with
        pending := clear c.pending
        current := clear c.current
        previous := clear c.previous }

/-- The `wl_buffer` is destroyed, with its `ds_buffer` if it is a dma-buf. -/
def freeBuffer (r : ℕ) (buffer : WlBuffer) : Compositor :=
  let s := s.notify r buffer.surface
  { s with wlBuffer := update s.wlBuffer r none }

/-- `surface_resource_destroy`; what is pending is left alone. -/
def freeSurface (a : ℕ) (c : Content) : Compositor :=
  let s := s.endCallbacks c.callbacks
  let s :=
    match c.previous with
    | none => s
    | some o => if c.current = some o then s else s.dispose o
  let s :=
    match c.current with
    | none => s
    | some q => s.dispose q
  { s with
    content := update s.content a none
    surfaces := s.surfaces.filter (· ≠ a) }

/-- A request is dispatched; `none` where there is no such request. -/
def handle (request : BufferRequest) : Option Compositor :=
  if s.faulted then none
  else
    let s := { s with released := [] }
    match request with
    | .createSurface client id alloc =>
      if s.leaving.isNone && s.isFree client id then
        some (if alloc = .created then
          { s with
            next := s.next + 1
            content := update s.content s.next (some ⟨client, id, none, none, none, []⟩)
            surfaces := s.next :: s.surfaces }
        else { s with leaving := some client })
      else none
    | .createBuffer client id isShm alloc =>
      if s.leaving.isNone && s.isFree client id then
        some (if alloc = .created then
          { s with
            next := s.next + 1
            wlBuffer := update s.wlBuffer s.next (some ⟨client, id, isShm, none⟩) }
        else { s with leaving := some client })
      else none
    | .attach a buffer allocated =>
      (s.content a).bind fun c =>
        if s.leaving.isNone && buffer.all fun r => (s.wlBuffer r).any (·.client = c.client) then
          some (s.attach a c allocated buffer)
        else none
    | .frame a id alloc =>
      (s.content a).bind fun c =>
        if s.leaving.isNone && s.isFree c.client id then some (s.frame a c id alloc) else none
    | .commit a =>
      (s.content a).bind fun c => if s.leaving.isNone then some (s.commit a c) else none
    | .tick => if s.leaving.isNone then some (s.surfaces.foldl flush s) else none
    | .destroyBuffer r =>
      (s.wlBuffer r).bind fun buffer =>
        if s.mayDestroy buffer.client buffer.id then some (s.freeBuffer r buffer) else none
    | .destroySurface a =>
      (s.content a).bind fun c =>
        if s.mayDestroy c.client c.id then some (s.freeSurface a c) else none
    | .destroyCallback k =>
      (s.callback k).bind fun callback =>
        if s.leaving.isSome && s.mayDestroy callback.client callback.id then
          some { s with callback := update s.callback k none }
        else none
    | .disconnect client =>
      if s.leaving.isNone then some { s with leaving := some client } else none
    | .gone =>
      s.leaving.bind fun client =>
        if s.allResources fun c _ => c != client then some { s with leaving := none } else none

end Compositor

/-- The buffers, under requests in any order -/
def bufferSystem : System Compositor BufferRequest where
  step := Compositor.handle

end Droidspaces.Wayland
