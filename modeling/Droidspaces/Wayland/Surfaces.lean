import Droidspaces.Transition.System
import Mathlib.Data.Int.Notation
import Mathlib.Data.Nat.Notation
import Mathlib.Logic.Function.Basic
import Mathlib.Tactic.Cases

/-!
# The surfaces of the embedded Wayland server

A `ds_surface` gets a role by an `ds_xdg_surface`, and that a window by a `ds_xdg_toplevel`.  Each
of them is allocated for a resource of a client and freed with the resource, which the client
destroys when it likes and libwayland, in the order of the ids, when the client has gone.

Addresses are natural numbers and are not given out twice, so that a pointer to what was freed is
one that nothing lives at.  A handler that follows such a pointer leaves a `faulted` server, of
which nothing more is said.
-/

namespace Droidspaces.Wayland

open Function Transition

/-- `enum ds_surface_role` -/
inductive Role where
  | none
  | toplevel
  | cursor
  | subsurface
  deriving DecidableEq

structure Surface where
  client : ℕ
  /-- The id of the resource, in the client's map -/
  id : ℕ
  role : Role
  xdgSurf : Option ℕ
  isMapped : Bool
  deriving DecidableEq

/-- `ds_xdg_surface`, of which `surface` is set when it is made and not cleared. -/
structure XdgSurface where
  client : ℕ
  id : ℕ
  surface : ℕ
  toplevel : Option ℕ
  configured : Bool
  deriving DecidableEq

/-- `ds_xdg_toplevel`; `xdg_surf` is set when it is made and not cleared. -/
structure Toplevel where
  client : ℕ
  id : ℕ
  xdgSurf : ℕ
  deriving DecidableEq

structure Server where
  /-- Where nothing has been allocated yet -/
  next : ℕ
  surface : ℕ → Option Surface
  xdgSurface : ℕ → Option XdgSurface
  toplevel : ℕ → Option Toplevel
  /-- `surfaces`, from the head -/
  surfaces : List ℕ
  /-- `active_surface` -/
  active : Option ℕ
  /-- The client whose resources libwayland is destroying -/
  leaving : Option ℕ
  /-- Freed memory has been touched. -/
  faulted : Bool

/-- After `ds_compositor_init` and `ds_xdg_shell_init` -/
def Server.init : Server where
  next := 0
  surface _ := none
  xdgSurface _ := none
  toplevel _ := none
  surfaces := []
  active := none
  leaving := none
  faulted := false

/-- How an object and its resource are made. -/
inductive Alloc where
  /-- `calloc` fails. -/
  | noMemory
  /-- `wl_resource_create` fails, and the object is freed again. -/
  | noResource
  | created
  deriving DecidableEq

/-- What clients and libwayland ask of the surfaces. -/
inductive Request where
  | createSurface (client id : ℕ) (alloc : Alloc)
  | getXdgSurface (surf id : ℕ) (alloc : Alloc)
  | getToplevel (xdgSurf id : ℕ) (alloc : Alloc)
  | ackConfigure (xdgSurf : ℕ)
  /-- A commit, with the size of the buffer that is pending -/
  | commit (surf : ℕ) (buffer : Option (ℤ × ℤ))
  /-- An armed buffer of the surface is destroyed. -/
  | bufferDestroyed (surf : ℕ)
  | setCursor (surf : ℕ)
  | getSubsurface (surf : ℕ)
  | destroySurface (surf : ℕ)
  | destroyXdgSurface (xdgSurf : ℕ)
  | destroyToplevel (toplevel : ℕ)
  /-- `ds_xdg_shell_resize_all` -/
  | resizeAll
  /-- An input event asks for `get_target_surface`. -/
  | input
  /-- The connection of a client ends. -/
  | disconnect (client : ℕ)
  /-- All resources of the client are gone. -/
  | gone
  deriving DecidableEq

namespace Server

variable (s : Server)

/-! ## Resources -/

/-- `P` holds of the client and id of every resource. -/
def allResources (P : ℕ → ℕ → Bool) : Bool :=
  (List.range s.next).all fun a =>
    (s.surface a).all (fun o => P o.client o.id) &&
      (s.xdgSurface a).all (fun o => P o.client o.id) &&
        (s.toplevel a).all fun o => P o.client o.id

/-- The id is not in the map of the client. -/
def isFree (client id : ℕ) : Bool := s.allResources fun c i => c != client || i != id

/-- A resource may be destroyed at any time by its client, and when the client has gone in the
order of the ids. -/
def mayDestroy (client id : ℕ) : Bool :=
  s.leaving.all fun c => c == client && s.allResources fun c' i => c' != client || id ≤ i

/-- `wl_client_post_no_memory`: the client is destroyed before anything else is dispatched. -/
def postNoMemory (client : ℕ) : Server := { s with leaving := some client }

def fault : Server := { s with faulted := true }

/-! ## The handlers -/

/-- `compositor_create_surface` -/
def createSurface (client id : ℕ) : Alloc → Server
  | .created => { s with
      next := s.next + 1
      surface := update s.surface s.next (some ⟨client, id, .none, none, false⟩)
      surfaces := s.next :: s.surfaces }
  | _ => s.postNoMemory client

/-- `wm_base_get_xdg_surface`: the surface points at the new object before its resource is made. -/
def getXdgSurface (a : ℕ) (surf : Surface) (id : ℕ) : Alloc → Server
  | .noMemory => s.postNoMemory surf.client
  | alloc =>
    let s := { s with
      next := s.next + 1
      surface := update s.surface a
        (some { surf with xdgSurf := some s.next, role := .toplevel })
      xdgSurface := update s.xdgSurface s.next
        (if alloc = .created then some ⟨surf.client, id, a, none, false⟩ else none) }
    if alloc = .created then s else s.postNoMemory surf.client

/-- `xdg_surface_get_toplevel`; the size is read from the server of the surface. -/
def getToplevel (x : ℕ) (xdgSurf : XdgSurface) (id : ℕ) : Alloc → Server
  | .noMemory => s.postNoMemory xdgSurf.client
  | alloc =>
    let s := { s with
      next := s.next + 1
      xdgSurface := update s.xdgSurface x (some { xdgSurf with toplevel := some s.next })
      toplevel := update s.toplevel s.next
        (if alloc = .created then some ⟨xdgSurf.client, id, x⟩ else none) }
    if alloc = .created then if (s.surface xdgSurf.surface).isSome then s else s.fault
    else s.postNoMemory xdgSurf.client

/-- `surface_commit`, as far as it decides which surface is active -/
def commit (a : ℕ) (surf : Surface) : Option (ℤ × ℤ) → Server
  | none => s
  | some (width, height) =>
    { s with
      surface := update s.surface a (some { surf with isMapped := true })
      active :=
        if surf.xdgSurf.isSome && surf.role ≠ .cursor && 200 ≤ width && 200 ≤ height then some a
        else s.active }

def setRole (a : ℕ) (surf : Surface) (role : Role) : Server :=
  { s with surface := update s.surface a (some { surf with role := role }) }

/-- `surface_resource_destroy` up to `ds_seat_surface_destroyed` -/
def dropActive (a : ℕ) : Server :=
  { s with active := if s.active = some a then none else s.active }

/-- `surface_resource_destroy` from there -/
def freeSurface (a : ℕ) : Server :=
  { s with
    surface := update s.surface a none
    surfaces := s.surfaces.filter (· ≠ a) }

/-- `xdg_surface_resource_destroy` -/
def freeXdgSurface (x : ℕ) (xdgSurf : XdgSurface) : Server :=
  match s.surface xdgSurf.surface with
  | none => s.fault
  | some surf => { s with
      surface := update s.surface xdgSurf.surface (some { surf with xdgSurf := none })
      xdgSurface := update s.xdgSurface x none }

/-- `toplevel_resource_destroy` -/
def freeToplevel (t : ℕ) (toplevel : Toplevel) : Server :=
  match s.xdgSurface toplevel.xdgSurf with
  | none => s.fault
  | some xdgSurf => { s with
      xdgSurface := update s.xdgSurface toplevel.xdgSurf (some { xdgSurf with toplevel := none })
      toplevel := update s.toplevel t none }

/-- What `ds_xdg_shell_resize_all` does for one surface of the list: which toplevel it configures,
unless it has followed a pointer to where nothing lives. -/
def resize (a : ℕ) : Option (Option ℕ) :=
  (s.surface a).bind fun surf =>
    match surf.xdgSurf with
    | none => some none
    | some x => (s.xdgSurface x).bind fun xdgSurf =>
      match xdgSurf.toplevel with
      | none => some none
      | some t => (s.toplevel t).map fun _ => if xdgSurf.configured then some t else none

/-- A surface that may have the focus -/
def accepts (surf : Surface) : Bool := surf.xdgSurf.isSome && surf.role ≠ .cursor

/-- `get_target_surface` -/
def target : Option ℕ :=
  (s.active.filter fun a => (s.surface a).any accepts)
    <|> s.surfaces.find? (fun a => (s.surface a).any fun surf => accepts surf && surf.isMapped)
    <|> s.surfaces.find? fun a => (s.surface a).any accepts

/-- The surfaces that `get_target_surface` may look at are there. -/
def targetLives : Bool :=
  s.active.all (fun a => (s.surface a).isSome) && s.surfaces.all fun a => (s.surface a).isSome

/-- A request is dispatched; `none` where there is no such request. -/
def handle (request : Request) : Option Server :=
  if s.faulted then none
  else
    match request with
    | .createSurface client id alloc =>
      if s.leaving.isNone && s.isFree client id then some (s.createSurface client id alloc)
      else none
    | .getXdgSurface a id alloc =>
      (s.surface a).bind fun surf =>
        if s.leaving.isNone && s.isFree surf.client id then
          some (s.getXdgSurface a surf id alloc)
        else none
    | .getToplevel x id alloc =>
      (s.xdgSurface x).bind fun xdgSurf =>
        if s.leaving.isNone && s.isFree xdgSurf.client id then
          some (s.getToplevel x xdgSurf id alloc)
        else none
    | .ackConfigure x =>
      (s.xdgSurface x).bind fun xdgSurf =>
        if s.leaving.isNone then
          some { s with
            xdgSurface := update s.xdgSurface x (some { xdgSurf with configured := true }) }
        else none
    | .commit a buffer =>
      (s.surface a).bind fun surf =>
        if s.leaving.isNone then some (s.commit a surf buffer) else none
    | .bufferDestroyed a =>
      (s.surface a).map fun surf =>
        { s with surface := update s.surface a (some { surf with isMapped := false }) }
    | .setCursor a =>
      (s.surface a).bind fun surf =>
        if s.leaving.isNone then some (s.setRole a surf .cursor) else none
    | .getSubsurface a =>
      (s.surface a).bind fun surf =>
        if s.leaving.isNone then some (s.setRole a surf .subsurface) else none
    | .destroySurface a =>
      (s.surface a).bind fun surf =>
        if s.mayDestroy surf.client surf.id then
          some (if (s.dropActive a).targetLives then (s.dropActive a).freeSurface a else s.fault)
        else none
    | .destroyXdgSurface x =>
      (s.xdgSurface x).bind fun xdgSurf =>
        if s.mayDestroy xdgSurf.client xdgSurf.id then some (s.freeXdgSurface x xdgSurf) else none
    | .destroyToplevel t =>
      (s.toplevel t).bind fun toplevel =>
        if s.mayDestroy toplevel.client toplevel.id then some (s.freeToplevel t toplevel) else none
    | .resizeAll =>
      if s.leaving.isNone then
        some (if s.surfaces.all fun a => (s.resize a).isSome then s else s.fault)
      else none
    | .input =>
      if s.leaving.isNone then some (if s.targetLives then s else s.fault) else none
    | .disconnect client =>
      if s.leaving.isNone then some { s with leaving := some client } else none
    | .gone =>
      s.leaving.bind fun client =>
        if s.allResources fun c _ => c != client then some { s with leaving := none } else none

/-- What a request can do, where there is one -/
inductive Handled : Request → Server → Prop
  | createSurface (client id : ℕ) (alloc : Alloc) :
    Handled (.createSurface client id alloc) (s.createSurface client id alloc)
  | getXdgSurface {a : ℕ} {surf : Surface} (hsurf : s.surface a = some surf) (id : ℕ)
    (alloc : Alloc) : Handled (.getXdgSurface a id alloc) (s.getXdgSurface a surf id alloc)
  | getToplevel {x : ℕ} {xdgSurf : XdgSurface} (hxdg : s.xdgSurface x = some xdgSurf) (id : ℕ)
    (alloc : Alloc) : Handled (.getToplevel x id alloc) (s.getToplevel x xdgSurf id alloc)
  | ackConfigure {x : ℕ} {xdgSurf : XdgSurface} (hxdg : s.xdgSurface x = some xdgSurf) :
    Handled (.ackConfigure x)
      { s with xdgSurface := update s.xdgSurface x (some { xdgSurf with configured := true }) }
  | commit {a : ℕ} {surf : Surface} (hsurf : s.surface a = some surf) (buffer : Option (ℤ × ℤ)) :
    Handled (.commit a buffer) (s.commit a surf buffer)
  | bufferDestroyed {a : ℕ} {surf : Surface} (hsurf : s.surface a = some surf) :
    Handled (.bufferDestroyed a)
      { s with surface := update s.surface a (some { surf with isMapped := false }) }
  | setCursor {a : ℕ} {surf : Surface} (hsurf : s.surface a = some surf) :
    Handled (.setCursor a) (s.setRole a surf .cursor)
  | getSubsurface {a : ℕ} {surf : Surface} (hsurf : s.surface a = some surf) :
    Handled (.getSubsurface a) (s.setRole a surf .subsurface)
  | destroySurface {a : ℕ} {surf : Surface} (hsurf : s.surface a = some surf) :
    Handled (.destroySurface a)
      (if (s.dropActive a).targetLives then (s.dropActive a).freeSurface a else s.fault)
  | destroyXdgSurface {x : ℕ} {xdgSurf : XdgSurface} (hxdg : s.xdgSurface x = some xdgSurf) :
    Handled (.destroyXdgSurface x) (s.freeXdgSurface x xdgSurf)
  | destroyToplevel {d : ℕ} {toplevel : Toplevel} (htop : s.toplevel d = some toplevel) :
    Handled (.destroyToplevel d) (s.freeToplevel d toplevel)
  | resizeAll :
    Handled .resizeAll (if s.surfaces.all fun a => (s.resize a).isSome then s else s.fault)
  | input : Handled .input (if s.targetLives then s else s.fault)
  | disconnect (client : ℕ) : Handled (.disconnect client) { s with leaving := some client }
  | gone : Handled .gone { s with leaving := none }

variable {s}

theorem handled_of_handle {e : Request} {t : Server} (h : s.handle e = some t) : s.Handled e t := by
  unfold handle at h
  rw [Option.ite_none_left_eq_some] at h
  replace h := h.2
  cases e with
  | createSurface client id alloc =>
    obtain ⟨-, ⟨⟩⟩ := Option.ite_none_right_eq_some.1 h
    exact .createSurface client id alloc
  | getXdgSurface a id alloc =>
    obtain ⟨surf, hsurf, h⟩ := Option.bind_eq_some_iff.1 h
    obtain ⟨-, ⟨⟩⟩ := Option.ite_none_right_eq_some.1 h
    exact .getXdgSurface hsurf id alloc
  | getToplevel x id alloc =>
    obtain ⟨xdgSurf, hxdg, h⟩ := Option.bind_eq_some_iff.1 h
    obtain ⟨-, ⟨⟩⟩ := Option.ite_none_right_eq_some.1 h
    exact .getToplevel hxdg id alloc
  | ackConfigure x =>
    obtain ⟨xdgSurf, hxdg, h⟩ := Option.bind_eq_some_iff.1 h
    obtain ⟨-, ⟨⟩⟩ := Option.ite_none_right_eq_some.1 h
    exact .ackConfigure hxdg
  | commit a buffer =>
    obtain ⟨surf, hsurf, h⟩ := Option.bind_eq_some_iff.1 h
    obtain ⟨-, ⟨⟩⟩ := Option.ite_none_right_eq_some.1 h
    exact .commit hsurf buffer
  | bufferDestroyed a =>
    obtain ⟨surf, hsurf, rfl⟩ := Option.map_eq_some_iff.1 h
    exact .bufferDestroyed hsurf
  | setCursor a =>
    obtain ⟨surf, hsurf, h⟩ := Option.bind_eq_some_iff.1 h
    obtain ⟨-, ⟨⟩⟩ := Option.ite_none_right_eq_some.1 h
    exact .setCursor hsurf
  | getSubsurface a =>
    obtain ⟨surf, hsurf, h⟩ := Option.bind_eq_some_iff.1 h
    obtain ⟨-, ⟨⟩⟩ := Option.ite_none_right_eq_some.1 h
    exact .getSubsurface hsurf
  | destroySurface a =>
    obtain ⟨surf, hsurf, h⟩ := Option.bind_eq_some_iff.1 h
    obtain ⟨-, ⟨⟩⟩ := Option.ite_none_right_eq_some.1 h
    exact .destroySurface hsurf
  | destroyXdgSurface x =>
    obtain ⟨xdgSurf, hxdg, h⟩ := Option.bind_eq_some_iff.1 h
    obtain ⟨-, ⟨⟩⟩ := Option.ite_none_right_eq_some.1 h
    exact .destroyXdgSurface hxdg
  | destroyToplevel d =>
    obtain ⟨toplevel, htop, h⟩ := Option.bind_eq_some_iff.1 h
    obtain ⟨-, ⟨⟩⟩ := Option.ite_none_right_eq_some.1 h
    exact .destroyToplevel htop
  | resizeAll =>
    obtain ⟨-, ⟨⟩⟩ := Option.ite_none_right_eq_some.1 h
    exact .resizeAll
  | input =>
    obtain ⟨-, ⟨⟩⟩ := Option.ite_none_right_eq_some.1 h
    exact .input
  | disconnect client =>
    obtain ⟨-, ⟨⟩⟩ := Option.ite_none_right_eq_some.1 h
    exact .disconnect client
  | gone =>
    obtain ⟨client, -, h⟩ := Option.bind_eq_some_iff.1 h
    obtain ⟨-, ⟨⟩⟩ := Option.ite_none_right_eq_some.1 h
    exact .gone

end Server

/-- The surfaces, under requests in any order -/
def surfaceSystem : System Server Request where
  step := Server.handle

end Droidspaces.Wayland
