import Droidspaces.Binary.Fields

/-!
# Codecs for packed records

A `Codec` writes a value into a fixed number of bytes and reads it back; what it cannot hold does
not have to come back (`Fits`).  Records are built from numbers, flags, texts that end with a zero,
and unused bytes by `pair`, arrays of records by `slots`; `map` gives a record the type that it has
in the program.  The layout of a record is the order of its codecs.
-/

namespace Binary

structure Codec (α : Type) where
  size : ℕ
  put : α → Bytes
  get : Bytes → α
  /-- The values that come back. -/
  Fits : α → Prop
  length_put : ∀ a, (put a).length = size
  get_put : ∀ a rest, Fits a → get (put a ++ rest) = a

namespace Codec

variable {α β : Type}

attribute [simp] length_put

theorem take_put (c : Codec α) (a : α) (rest : Bytes) : (c.put a ++ rest).take c.size = c.put a :=
  List.take_left' (c.length_put a)

theorem drop_put (c : Codec α) (a : α) (rest : Bytes) : (c.put a ++ rest).drop c.size = rest :=
  List.drop_left' (c.length_put a)

theorem get_put_self (c : Codec α) {a : α} (h : c.Fits a) : c.get (c.put a) = a := by
  simpa using c.get_put a [] h

/-! ## Fields -/

/-- A number in `w` bytes, the most significant first. -/
def number (w : ℕ) : Codec ℕ where
  size := w
  put := bigEndian w
  get bs := ofBigEndian (bs.take w)
  Fits v := v < 256 ^ w
  length_put := length_bigEndian w
  get_put v rest h := by
    rw [List.take_left' (length_bigEndian w v), ofBigEndian_bigEndian, Nat.mod_eq_of_lt h]

/-- The remainder that stands for a number in two's complement. -/
theorem emod_eq_of_fits {v m : ℤ} (hlow : -m ≤ 2 * v) (hhigh : 2 * v < m) :
    v % m = if v < 0 then v + m else v := by
  split
  · rw [← Int.add_emod_right, Int.emod_eq_of_lt (by omega) (by omega)]
  · exact Int.emod_eq_of_lt (by omega) (by omega)

/-- A byte as it is. -/
def byte : Codec UInt8 where
  size := 1
  put b := [b]
  get bs := bs.headD 0
  Fits _ := True
  length_put _ := rfl
  get_put _ _ _ := rfl

/-- A number in two's complement, in `w` bytes. -/
def signed (w : ℕ) : Codec ℤ where
  size := w
  put v := bigEndian w (v % 256 ^ w).toNat
  get bs :=
    let n : ℤ := ofBigEndian (bs.take w)
    if 2 * n < 256 ^ w then n else n - 256 ^ w
  Fits v := -256 ^ w ≤ 2 * v ∧ 2 * v < 256 ^ w
  length_put v := length_bigEndian _ _
  get_put v rest h := by
    obtain ⟨hlow, hhigh⟩ := h
    have hmod := emod_eq_of_fits hlow hhigh
    have hcast : ((256 ^ w : ℕ) : ℤ) = 256 ^ w := by push_cast; rfl
    have hlt : (v % 256 ^ w).toNat < 256 ^ w := by
      rw [hmod]
      split <;> omega
    rw [List.take_left' (length_bigEndian _ _), ofBigEndian_bigEndian, Nat.mod_eq_of_lt hlt, hmod]
    dsimp only
    split <;> split <;> omega

/-- A byte that is 1 or 0. -/
def flag : Codec Bool where
  size := 1
  put b := [if b then 1 else 0]
  get bs := bs.headD 0 ≠ 0
  Fits _ := True
  length_put _ := rfl
  get_put b _ _ := by cases b <;> rfl

/-- Bytes that say nothing. -/
def unused (bs : Bytes) : Codec Unit where
  size := bs.length
  put _ := bs
  get _ := ()
  Fits _ := True
  length_put _ := rfl
  get_put _ _ _ := rfl

/-- A text in `n + 1` bytes, cut off where it leaves no room for a zero behind it. -/
def cString (n : ℕ) : Codec Bytes where
  size := n + 1
  put t := t.take n ++ List.replicate (n + 1 - (t.take n).length) 0
  get bs := (bs.take (n + 1)).takeWhile (· ≠ 0)
  Fits t := t.length ≤ n ∧ ∀ b ∈ t, b ≠ 0
  length_put t := by
    rw [List.length_append, List.length_replicate, List.length_take]
    omega
  get_put t rest h := by
    obtain ⟨hlen, hne⟩ := h
    have hzero : List.replicate (n + 1 - t.length) (0 : UInt8) =
        0 :: List.replicate (n - t.length) 0 := by
      rw [show n + 1 - t.length = n - t.length + 1 by omega, List.replicate_succ]
    rw [List.take_of_length_le hlen, List.take_left' (by simp; omega), hzero,
      List.takeWhile_append_of_pos (fun b hb => decide_eq_true (hne b hb))]
    simp

/-! ## Records -/

/-- One record behind the other. -/
def pair (c : Codec α) (d : Codec β) : Codec (α × β) where
  size := c.size + d.size
  put a := c.put a.1 ++ d.put a.2
  get bs := (c.get bs, d.get (bs.drop c.size))
  Fits a := c.Fits a.1 ∧ d.Fits a.2
  length_put a := by rw [List.length_append, length_put, length_put]
  get_put a rest h := by
    rw [List.append_assoc, c.get_put _ _ h.1, c.drop_put, d.get_put _ _ h.2]

/-- The same bytes for another type. -/
def map (c : Codec α) (f : α → β) (g : β → α) : Codec β where
  size := c.size
  put b := c.put (g b)
  get bs := f (c.get bs)
  Fits b := c.Fits (g b) ∧ f (g b) = b
  length_put b := c.length_put (g b)
  get_put b rest h := by rw [c.get_put _ _ h.1, h.2]

/-! ## Arrays -/

/-- The first `n` of a list, with `blank` where it is too short. -/
def fill (n : ℕ) (blank : α) (l : List α) : List α := (l ++ List.replicate n blank).take n

@[simp] theorem length_fill (n : ℕ) (blank : α) (l : List α) : (fill n blank l).length = n := by
  rw [fill, List.length_take, List.length_append, List.length_replicate]
  omega

theorem take_fill {n : ℕ} {l : List α} (h : l.length ≤ n) (blank : α) :
    (fill n blank l).take l.length = l := by
  rw [fill, List.take_take, Nat.min_eq_left h, List.take_left]

theorem fill_of_length {n : ℕ} {l : List α} (h : l.length = n) (blank : α) :
    fill n blank l = l := by
  rw [fill, List.take_left' h]

theorem forall_mem_fill {p : α → Prop} {n : ℕ} {l : List α} {blank : α} (hblank : p blank)
    (h : ∀ a ∈ l, p a) : ∀ a ∈ fill n blank l, p a := by
  intro a ha
  rcases List.mem_append.1 (List.mem_of_mem_take ha) with hl | hr
  · exact h a hl
  · exact List.eq_of_mem_replicate hr ▸ hblank

def getSlots (c : Codec α) : ℕ → Bytes → List α
  | 0, _ => []
  | n + 1, bs => c.get bs :: getSlots c n (bs.drop c.size)

/-- Records that follow each other are read back. -/
theorem getSlots_flatMap (c : Codec α) {l : List α} (h : ∀ a ∈ l, c.Fits a) (rest : Bytes) :
    c.getSlots l.length (l.flatMap c.put ++ rest) = l := by
  induction l with
  | nil => rfl
  | cons a l ih =>
    obtain ⟨ha, hl⟩ := List.forall_mem_cons.1 h
    rw [List.flatMap_cons, List.append_assoc, List.length_cons, getSlots, c.get_put _ _ ha,
      c.drop_put, ih hl]

/-- An array of `n` records. -/
def slots (n : ℕ) (c : Codec α) (blank : α) : Codec (List α) where
  size := n * c.size
  put l := (fill n blank l).flatMap c.put
  get := c.getSlots n
  Fits l := l.length = n ∧ ∀ a ∈ l, c.Fits a
  length_put l := by rw [length_flatMap_of_size c.length_put, length_fill]
  get_put l rest h := by
    obtain ⟨rfl, hl⟩ := h
    rw [fill_of_length rfl, c.getSlots_flatMap hl]

@[simp] theorem length_getSlots (c : Codec α) (n : ℕ) (bs : Bytes) :
    (c.getSlots n bs).length = n := by
  induction n generalizing bs with
  | zero => rfl
  | succ n ih => rw [getSlots, List.length_cons, ih]

/-- As many records as there are bytes for. -/
def getAll (c : Codec α) (bs : Bytes) : List α := c.getSlots (bs.length / c.size) bs

theorem getAll_flatMap (c : Codec α) (hsize : 0 < c.size) {l : List α} (h : ∀ a ∈ l, c.Fits a) :
    c.getAll (l.flatMap c.put) = l := by
  have := c.getSlots_flatMap h []
  rwa [List.append_nil, ← Nat.mul_div_cancel l.length hsize,
    ← length_flatMap_of_size c.length_put] at this

/-- Records of one size are found where they were put. -/
theorem map_field_flatMap {body : α → Bytes} {size : ℕ} (h : ∀ a, (body a).length = size)
    (l : List α) :
    (List.range l.length).map (fun i => field (i * size) size (l.flatMap body)) = l.map body := by
  refine List.ext_getElem (by simp) fun i hi hi' => ?_
  have hlt : i < l.length := by simpa using hi
  rw [List.getElem_map, List.getElem_map, List.getElem_range, field, drop_flatMap_of_size h,
    List.drop_eq_getElem_cons hlt, List.flatMap_cons, List.take_left' (h _)]

/-! ## What fits -/

@[simp] theorem number_fits {w v : ℕ} : (number w).Fits v ↔ v < 256 ^ w := Iff.rfl

@[simp] theorem byte_fits (b : UInt8) : byte.Fits b := trivial

@[simp] theorem signed_fits {w : ℕ} {v : ℤ} :
    (signed w).Fits v ↔ -256 ^ w ≤ 2 * v ∧ 2 * v < 256 ^ w := Iff.rfl

@[simp] theorem flag_fits (b : Bool) : flag.Fits b := trivial

@[simp] theorem unused_fits (bs : Bytes) (u : Unit) : (unused bs).Fits u := trivial

@[simp] theorem pair_fits {c : Codec α} {d : Codec β} {a : α × β} :
    (c.pair d).Fits a ↔ c.Fits a.1 ∧ d.Fits a.2 := Iff.rfl

@[simp] theorem map_fits {c : Codec α} {f : α → β} {g : β → α} {b : β} :
    (c.map f g).Fits b ↔ c.Fits (g b) ∧ f (g b) = b := Iff.rfl

theorem slots_fits {n : ℕ} {c : Codec α} {blank : α} {l : List α} (hblank : c.Fits blank)
    (h : ∀ a ∈ l, c.Fits a) : (slots n c blank).Fits (fill n blank l) :=
  ⟨length_fill n blank l, forall_mem_fill hblank h⟩

end Codec

end Binary
