import Mathlib.Algebra.Order.Ring.Int
import Mathlib.Data.Int.Notation
import Mathlib.Data.List.TakeDrop
import Mathlib.Data.Nat.Notation
import Mathlib.Order.Nat

/-!
# Fields of binary records

A record is a list of bytes.  `field off n` reads `n` bytes of it and `splice off ws` overwrites
bytes with `ws`; what a write does to a read is said by one lemma for each way the two can lie.
Numbers are little endian, or `bigEndian`; a signed number of 32 bits is in two's complement.
-/

namespace Binary

abbrev Bytes := List UInt8

/-! ## Reading and writing -/

/-- The `n` bytes from `off` on. -/
def field (off n : ℕ) (bs : Bytes) : Bytes := (bs.drop off).take n

/-- Write `ws` over the bytes from `off` on. -/
def splice (off : ℕ) (ws bs : Bytes) : Bytes := bs.take off ++ ws ++ bs.drop (off + ws.length)

variable {off n i : ℕ} {ws bs : Bytes}

theorem length_field (h : off + n ≤ bs.length) : (field off n bs).length = n := by
  rw [field, List.length_take, List.length_drop]
  omega

/-- A field of the first record does not see what follows it. -/
theorem field_append (h : off + n ≤ bs.length) (rest : Bytes) :
    field off n (bs ++ rest) = field off n bs := by
  rw [field, List.drop_append_of_le_length (by omega), List.take_append_of_le_length, field]
  rw [List.length_drop]
  omega

/-- The first of several fields. -/
theorem field_here (h : ws.length = n) (rest : Bytes) : field 0 n (ws ++ rest) = ws := by
  rw [field, List.drop_zero, ← h, List.take_left]

/-- A field behind the first one. -/
theorem field_skip {k : ℕ} (h : ws.length = k) (rest : Bytes) :
    field (k + off) n (ws ++ rest) = field off n rest := by
  rw [field, ← List.drop_drop, ← h, List.drop_left, field]

/-- The field that follows the first one. -/
theorem field_next {k : ℕ} (h : ws.length = k) (rest : Bytes) :
    field k n (ws ++ rest) = field 0 n rest := by
  rw [field, ← h, List.drop_left, field, List.drop_zero]

theorem length_splice (h : off + ws.length ≤ bs.length) :
    (splice off ws bs).length = bs.length := by
  simp only [splice, List.length_append, List.length_take, List.length_drop]
  omega

/-- What was written is read. -/
theorem field_splice_self (off : ℕ) (ws bs : Bytes) (h : off + ws.length ≤ bs.length) :
    field off ws.length (splice off ws bs) = ws := by
  have hlen : (bs.take off).length = off := by
    rw [List.length_take]
    omega
  rw [field, splice, List.append_assoc, List.drop_append_of_le_length (by omega),
    List.drop_of_length_le (by omega), List.nil_append, List.take_left]

theorem field_splice_before (h : off + ws.length ≤ bs.length) (hi : i + n ≤ off) :
    field i n (splice off ws bs) = field i n bs := by
  have hlen : (bs.take off).length = off := by
    rw [List.length_take]
    omega
  rw [splice, List.append_assoc, field_append (by omega)]
  conv_rhs => rw [← List.take_append_drop off bs]
  rw [field_append (by omega)]

theorem splice_splice {vs : Bytes} (h : off + ws.length ≤ bs.length)
    (hlen : vs.length = ws.length) : splice off vs (splice off ws bs) = splice off vs bs := by
  have htake : (splice off ws bs).take off = bs.take off := by
    rw [splice, List.append_assoc, List.take_append_of_le_length (by rw [List.length_take]; omega),
      List.take_take, Nat.min_self]
  have hdrop : (splice off ws bs).drop (off + vs.length) = bs.drop (off + vs.length) := by
    have hfront : (bs.take off ++ ws).length = off + vs.length := by
      rw [List.length_append, List.length_take]
      omega
    rw [splice, ← hfront, List.drop_left, hfront, hlen]
  rw [splice, htake, hdrop, splice]

/-- What is overwritten behind a front. -/
theorem splice_append (front old ws rest : Bytes) (h : old.length = ws.length) :
    splice front.length ws (front ++ (old ++ rest)) = front ++ (ws ++ rest) := by
  have hdrop : (front ++ (old ++ rest)).drop (front.length + ws.length) = rest := by
    rw [← h, List.drop_length_add_append, List.drop_left]
  rw [splice, hdrop, List.take_left, List.append_assoc]

/-- Writing back what was read. -/
theorem splice_field (h : off + n ≤ bs.length) : splice off (field off n bs) bs = bs := by
  rw [splice, length_field h, field, List.append_assoc]
  conv_rhs => rw [← List.take_append_drop off bs, ← List.take_append_drop n (bs.drop off)]
  rw [List.drop_drop]

/-! ## Records of one size -/

section Records

variable {α : Type} {body : α → Bytes} {size : ℕ}

theorem length_flatMap_of_size (h : ∀ a, (body a).length = size) (l : List α) :
    (l.flatMap body).length = l.length * size := by
  induction l with
  | nil => exact (Nat.zero_mul size).symm
  | cons a l ih =>
    rw [List.flatMap_cons, List.length_append, h, ih, List.length_cons, Nat.succ_mul, Nat.add_comm]

theorem drop_flatMap_of_size (h : ∀ a, (body a).length = size) (l : List α) (k : ℕ) :
    (l.flatMap body).drop (k * size) = (l.drop k).flatMap body := by
  induction l generalizing k with
  | nil => rw [List.drop_nil, List.flatMap_nil, List.drop_nil]
  | cons a l ih =>
    cases k with
    | zero => rw [Nat.zero_mul, List.drop_zero, List.drop_zero]
    | succ k =>
      rw [List.flatMap_cons, List.drop_succ_cons, Nat.succ_mul, Nat.add_comm, ← List.drop_drop,
        ← h a, List.drop_left, h a, ih]

end Records

/-! ## Numbers -/

/-- The number that bytes stand for, the least significant first. -/
def toNat : Bytes → ℕ
  | [] => 0
  | b :: bs => b.toNat + 256 * toNat bs

/-- A number in `w` bytes. -/
def ofNat : ℕ → ℕ → Bytes
  | 0, _ => []
  | w + 1, v => UInt8.ofNat v :: ofNat w (v / 256)

@[simp] theorem length_ofNat (w v : ℕ) : (ofNat w v).length = w := by
  induction w generalizing v with
  | zero => rfl
  | succ w ih => rw [ofNat, List.length_cons, ih]

theorem toNat_ofNat (w v : ℕ) : toNat (ofNat w v) = v % 256 ^ w := by
  induction w generalizing v with
  | zero => rw [ofNat, toNat, Nat.pow_zero, Nat.mod_one]
  | succ w ih =>
    have hsplit : v % 256 ^ (w + 1) = v % 256 + 256 * (v / 256 % 256 ^ w) := by
      rw [Nat.pow_succ, Nat.mul_comm (256 ^ w), Nat.mod_mul]
    rw [ofNat, toNat, ih, UInt8.toNat_ofNat', hsplit]

theorem toNat_lt (bs : Bytes) : toNat bs < 256 ^ bs.length := by
  induction bs with
  | nil => exact Nat.one_pos
  | cons b bs ih =>
    have hb := b.toNat_lt
    rw [toNat, List.length_cons, Nat.pow_succ]
    omega

theorem ofNat_toNat (bs : Bytes) : ofNat bs.length (toNat bs) = bs := by
  induction bs with
  | nil => rfl
  | cons b bs ih =>
    have hb := b.toNat_lt
    have hlow : UInt8.ofNat (b.toNat + 256 * toNat bs) = b := by
      apply UInt8.toNat_inj.1
      rw [UInt8.toNat_ofNat']
      omega
    have hhigh : (b.toNat + 256 * toNat bs) / 256 = toNat bs := by
      omega
    rw [toNat, List.length_cons, ofNat, hlow, hhigh, ih]

/-- A number in `w` bytes, the most significant first, which is how a network has it. -/
def bigEndian (w v : ℕ) : Bytes := (ofNat w v).reverse

def ofBigEndian (bs : Bytes) : ℕ := toNat bs.reverse

@[simp] theorem length_bigEndian (w v : ℕ) : (bigEndian w v).length = w := by
  rw [bigEndian, List.length_reverse, length_ofNat]

theorem ofBigEndian_bigEndian (w v : ℕ) : ofBigEndian (bigEndian w v) = v % 256 ^ w := by
  rw [ofBigEndian, bigEndian, List.reverse_reverse, toNat_ofNat]

/-- The signed number of four bytes. -/
def toInt32 (bs : Bytes) : ℤ := if toNat bs < 2 ^ 31 then toNat bs else toNat bs - 2 ^ 32

/-- A signed number in four bytes. -/
def ofInt32 (v : ℤ) : Bytes := ofNat 4 (v % 2 ^ 32).toNat

@[simp] theorem length_ofInt32 (v : ℤ) : (ofInt32 v).length = 4 := length_ofNat 4 _

theorem toInt32_ofInt32 {v : ℤ} (hlow : -2 ^ 31 ≤ v) (hhigh : v < 2 ^ 31) :
    toInt32 (ofInt32 v) = v := by
  rw [toInt32, ofInt32, toNat_ofNat]
  split <;> omega

theorem ofInt32_toInt32 {bs : Bytes} (h : bs.length = 4) : ofInt32 (toInt32 bs) = bs := by
  have hlt := toNat_lt bs
  rw [h] at hlt
  have hmod : (toInt32 bs % 2 ^ 32).toNat = toNat bs := by
    rw [toInt32]
    split <;> omega
  rw [ofInt32, hmod, ← h, ofNat_toNat]

end Binary
