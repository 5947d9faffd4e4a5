import Droidspaces.Boot.CustomBinds

/-!
# The values of a configuration

How the values of `container.config` and of the command line are read.  Interfaces and port
forwards are added to a list one by one, unless the list refuses them: `extend_of_prefix` says when
a list that was there before makes no difference to what comes out.
-/

namespace Droidspaces.Config

open CustomBinds

/-! ## Lists that are extended -/

section Extend

variable {α β : Type} (new : List β → α → Option β)

/-- The item that `new` makes of it is added, if it makes one. -/
def extend (l : List β) (a : α) : List β :=
  match new l a with
  | some b => l ++ [b]
  | none => l

/-- What is refused stays refused, and nothing is added twice. -/
structure Insertion : Prop where
  mono : ∀ l m a, l <+: m → new l a = none → new m a = none
  once : ∀ l a b, new l a = some b → new (l ++ [b]) a = none

variable {new} {l m : List β} {as : List α}

theorem prefix_foldl_extend (l : List β) (as : List α) : l <+: as.foldl (extend new) l := by
  induction as generalizing l with
  | nil => exact List.prefix_rfl
  | cons a as ih =>
    refine List.IsPrefix.trans ?_ (ih (extend new l a))
    unfold extend
    split
    · exact List.prefix_append _ _
    · exact List.prefix_rfl

/-- What is there already may as well have been added. -/
theorem Insertion.foldl_between (h : Insertion new) (hl : l <+: m)
    (hm : m <+: as.foldl (extend new) l) :
    as.foldl (extend new) m = as.foldl (extend new) l := by
  induction as generalizing l with
  | nil =>
    show m = l
    exact (List.IsPrefix.eq_of_length hl (Nat.le_antisymm hl.length_le hm.length_le)).symm
  | cons a as ih =>
    rw [List.foldl_cons] at hm
    rw [List.foldl_cons, List.foldl_cons]
    cases hnew : new l a with
    | none =>
      have hl' : extend new l a = l := by simp [extend, hnew]
      have hm' : extend new m a = m := by simp [extend, h.mono l m a hl hnew]
      rw [hl'] at hm ⊢
      rw [hm']
      exact ih hl hm
    | some b =>
      have hl' : extend new l a = l ++ [b] := by simp [extend, hnew]
      rw [hl'] at hm ⊢
      rcases List.prefix_or_prefix_of_prefix hm (prefix_foldl_extend (l ++ [b]) as) with hle | hle
      · -- `m` is `l` or has `b` in addition.
        rcases List.prefix_concat_iff.1 hle with rfl | hle
        · rw [show extend new (l ++ [b]) a = l ++ [b] by simp [extend, h.once l a b hnew]]
        · obtain rfl : l = m := List.IsPrefix.eq_of_length hl
            (Nat.le_antisymm hl.length_le hle.length_le)
          rw [hl']
      · have hm' : extend new m a = m := by
          simp [extend, h.mono _ m a hle (h.once l a b hnew)]
        rw [hm']
        exact ih hle hm

/-- **A list makes no difference exactly if it is what comes out first without it.** -/
theorem Insertion.extend_of_prefix (h : Insertion new) :
    as.foldl (extend new) m = as.foldl (extend new) [] ↔ m <+: as.foldl (extend new) [] := by
  constructor
  · intro heq
    rw [← heq]
    exact prefix_foldl_extend m as
  · exact h.foldl_between (List.nil_prefix)

/-- A list is rebuilt if each item is added to those before it. -/
theorem foldl_rebuild {step : List β → α → List β} {item : β → α} {bs : List β}
    (h : ∀ l b, l ++ [b] <+: bs → step l (item b) = l ++ [b]) :
    (bs.map item).foldl step [] = bs := by
  have hfrom : ∀ l rest, l ++ rest = bs → (rest.map item).foldl step l = bs := by
    intro l rest
    induction rest generalizing l with
    | nil => simp
    | cons b rest ih =>
      intro hbs
      have hnext : l ++ [b] ++ rest = bs := by rw [List.append_assoc]; exact hbs
      rw [List.map_cons, List.foldl_cons, h l b ⟨rest, hnext⟩]
      exact ih (l ++ [b]) hnext
  exact hfrom [] bs rfl

end Extend

/-! ## Single values -/

def lower (t : Text) : Text := t.map Char.toLower

/-- `trim_whitespace` -/
def trim (t : Text) : Text := (t.dropWhile isSpace).rdropWhile isSpace

/-- What `strtok_r` finds one after the other. -/
def tokens (t : Text) : List Text := (t.splitOn ',').filter (!·.isEmpty)

def parseBool (t : Text) : Bool :=
  ["1".toList, "true".toList, "yes".toList, "on".toList].contains (lower t)

/-- `LLONG_MAX` -/
def llongMax : ℕ := 2 ^ 63 - 1

def parseLlPositive (t : Text) : Option ℕ :=
  let digits := match t.dropWhile isSpace with
    | '+' :: ds => ds
    | ds => ds
  let v := Nat.ofDigitChars 10 digits 0
  if digits.isEmpty || !digits.all Char.isDigit || v == 0 || llongMax < v then none else some v

/-- `DS_PRIV_NOMASK`, `DS_PRIV_NOCAPS`, `DS_PRIV_NOSEC`, `DS_PRIV_SHARED` and `DS_PRIV_FULL` -/
def privilegedBits : List (String × ℕ) :=
  [("nomask", 1), ("nocaps", 2), ("noseccomp", 4), ("shared", 8), ("full", 255)]

def parsePrivileged (t : Text) : ℕ :=
  (tokens (t.take 1023)).foldl (fun mask tok =>
    mask ||| ((privilegedBits.find? fun e => e.1.toList == lower (trim tok)).map (·.2)).getD 0) 0

inductive NetMode where
  | host
  | nat
  | none
  | gateway
  deriving DecidableEq

/-- An unknown mode is taken for `nat`. -/
def parseNetMode (t : Text) : NetMode :=
  if t == "none".toList then .none
  else if t == "host".toList then .host
  else if t == "gateway".toList || t == "delegated-gateway".toList then .gateway
  else .nat

def validateContainerName (t : Text) : Bool :=
  !t.isEmpty && t != ['.'] && t != ['.', '.'] && t.length < 256 &&
    t.all fun c => c.isAlphanum || c == '.' || c == '_' || c == '-' || c == ' '

/-- One of the four numbers of an address, without leading zeros. -/
def parseOctet (t : Text) : Option ℕ :=
  let v := Nat.ofDigitChars 10 t 0
  if t.isEmpty || !t.all Char.isDigit || (t.head? == some '0' && 1 < t.length) || 255 < v then none
  else some v

/-- An address of `172.28.0.0/16` that is not reserved. -/
def validateStaticIp (t : Text) : Bool :=
  match (t.splitOn '.').map parseOctet with
  | [some 172, some 28, some o3, some o4] => 1 ≤ o3 && o3 ≤ 254 && 1 ≤ o4 && o4 ≤ 254
  | _ => false

/-! ## Interfaces -/

def isTabOrSpace (c : Char) : Bool := c == ' ' || c == '\t'

/-- `IFNAMSIZ` -/
def ifNameSize : ℕ := 16

/-- `DS_MAX_UPSTREAM_IFACES` -/
def maxUpstreamIfaces : ℕ := 32

def newIface (ifaces : List Text) (tok : Text) : Option Text :=
  let name := (tok.dropWhile isTabOrSpace).rdropWhile isTabOrSpace
  if name.isEmpty || ifNameSize ≤ name.length || ifaces.contains name ||
      maxUpstreamIfaces ≤ ifaces.length then none
  else some name

def parseIfaceCsv (val : Text) (ifaces : List Text) : List Text :=
  (tokens (val.take 1023)).foldl (extend newIface) ifaces

theorem newIface_insertion : Insertion newIface := by
  constructor
  · intro l m tok hlm h
    simp only [newIface, ite_eq_left_iff, reduceCtorEq, imp_false, not_not] at h ⊢
    simp only [Bool.or_eq_true, decide_eq_true_eq, List.contains_iff_mem] at h ⊢
    have hlen := hlm.length_le
    rcases h with (h | h) | h
    · exact Or.inl (Or.inl h)
    · exact Or.inl (Or.inr (hlm.subset h))
    · exact Or.inr (h.trans hlen)
  · intro l tok b h
    simp only [newIface, Option.ite_none_left_eq_some, Option.some.injEq] at h
    obtain ⟨-, rfl⟩ := h
    simp [newIface]

/-! ## Port forwards -/

structure PortForward where
  hostPort : ℕ
  /-- 0 for a single port. -/
  hostPortEnd : ℕ
  containerPort : ℕ
  containerPortEnd : ℕ
  proto : Text
  deriving DecidableEq

/-- `DS_MAX_PORT_FORWARDS` -/
def maxPortForwards : ℕ := 32

/-- What is left of a number that does not fit an `int`. -/
def wrap (v : ℤ) : ℤ := v.bmod (2 ^ 32)

/-- A port, or the first and the last of a range. -/
def parsePorts (side : Text) : Option (ℕ × ℕ) :=
  match side.dropWhile (· != '-') with
  | [] =>
    let p := wrap (atoi side)
    if p ≤ 0 || 65535 < p then none else some (p.toNat, 0)
  | _ :: rest =>
    let a := wrap (atoi side)
    let b := wrap (atoi rest)
    if a ≤ 0 || 65535 < a || b < a || 65535 < b then none else some (a.toNat, b.toNat)

/-- The number of ports of a range, less one. -/
def width (first last : ℕ) : ℕ := if last = 0 then 0 else last - first

def parsePortForward (tok : Text) : Option PortForward := do
  let tok := tok.dropWhile isTabOrSpace
  let spec := tok.takeWhile (· != '/')
  let proto := match tok.dropWhile (· != '/') with
    | [] => "tcp".toList
    | _ :: rest => rest.take 3
  let hostSide := spec.takeWhile (· != ':')
  let contSide := match spec.dropWhile (· != ':') with
    | [] => spec
    | _ :: rest => rest
  guard (proto = "tcp".toList ∨ proto = "udp".toList)
  let (hostPort, hostPortEnd) ← parsePorts hostSide
  let (containerPort, containerPortEnd) ← parsePorts contSide
  guard (width hostPort hostPortEnd = width containerPort containerPortEnd)
  return { hostPort, hostPortEnd, containerPort, containerPortEnd, proto }

/-- The ranges have a port in common. -/
def rangesMeet (first last first' last' : ℕ) : Bool :=
  first ≤ (if last' = 0 then first' else last') && first' ≤ (if last = 0 then first else last)

/-- The same rule, or one that is in its way. -/
def conflicts (pf ex : PortForward) : Bool :=
  ex.proto == pf.proto && (pf == ex ||
    rangesMeet pf.hostPort pf.hostPortEnd ex.hostPort ex.hostPortEnd ||
    rangesMeet pf.containerPort pf.containerPortEnd ex.containerPort ex.containerPortEnd)

def newPort (ports : List PortForward) (tok : Text) : Option PortForward :=
  if maxPortForwards ≤ ports.length then none
  else (parsePortForward tok).filter fun pf => !ports.any (conflicts pf)

def parsePortForwards (val : Text) (ports : List PortForward) : List PortForward :=
  (tokens (val.take 1023)).foldl (extend newPort) ports

theorem newPort_insertion : Insertion newPort := by
  constructor
  · intro l m tok hlm h
    unfold newPort at h ⊢
    have hlen := hlm.length_le
    split at h
    · rw [if_pos (by omega)]
    · split
      · rfl
      · rw [Option.filter_eq_none_iff] at h ⊢
        intro pf hpf
        have hl := h pf hpf
        simp only [Bool.not_eq_true', Bool.not_eq_false, List.any_eq_true] at hl ⊢
        obtain ⟨ex, hex, hconf⟩ := hl
        exact ⟨ex, hlm.subset hex, hconf⟩
  · intro l tok pf h
    unfold newPort at h ⊢
    split at h
    · cases h
    · split
      · rfl
      · have hparse := (Option.filter_eq_some_iff.1 h).1
        rw [Option.filter_eq_none_iff]
        intro pf' hpf'
        obtain rfl := Option.some.inj (hparse.symm.trans hpf')
        simp [conflicts]

/-! ## Bind mounts -/

def addBind (binds : List BindMount) (b : BindMount) : List BindMount :=
  if b.src.isEmpty || b.dest.isEmpty || binds.any fun e => e.src == b.src && e.dest == b.dest then
    binds
  else binds ++ [b]

/-- `SRC:DEST` or `SRC:DEST:ro`; the paths are resolved. -/
def parseBindMount (resolve : Text → Text) (tok : Text) : Option BindMount :=
  match tok.dropWhile (· != ':') with
  | [] => none
  | _ :: rest =>
    let ro := match rest.dropWhile (· != ':') with
      | [] => false
      | _ :: flag => trim flag == "ro".toList
    let b : BindMount := {
      src := resolve (trim (tok.takeWhile (· != ':')))
      dest := resolve (trim (rest.takeWhile (· != ':')))
      ro }
    if validateBindDestination b.dest then some b else none

def parseBindMounts (resolve : Text → Text) (val : Text) (binds : List BindMount) :
    List BindMount :=
  (tokens (val.take 4095)).foldl (fun binds tok =>
    match parseBindMount resolve tok with
    | some b => addBind binds b
    | none => binds) binds

end Droidspaces.Config
