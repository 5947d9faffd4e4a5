import Mathlib.Data.List.Basic
import Mathlib.Data.Nat.Notation

/-!
# Classic BPF

Programs that load words of the data that they filter, compare them and return a verdict.  Jumps go
forward only, over a number of instructions.  A block that is put together with others either has a
verdict or hands on the word that it was given (`Decides`), and does not jump past its end
(`StaysIn`); both are kept when blocks are put one behind the other.
-/

namespace Bpf

/-- `BPF_JEQ`, `BPF_JGE` and `BPF_JSET` -/
inductive Cond where
  | jeq
  | jge
  | jset

def Cond.holds : Cond → UInt32 → UInt32 → Bool
  | .jeq, a, k => a == k
  | .jge, a, k => k ≤ a
  | .jset, a, k => a &&& k != 0

inductive Insn where
  /-- `BPF_LD | BPF_W | BPF_ABS` -/
  | ld (off : ℕ)
  /-- `BPF_JMP` with `BPF_K` -/
  | jump (c : Cond) (k : UInt32) (jt jf : ℕ)
  /-- `BPF_RET | BPF_K` -/
  | ret (k : UInt32)

section

variable (load : ℕ → Option UInt32)

/-- Run a program behind the instructions that are jumped over.  There is no result if a word cannot
be loaded, or if the program ends without one. -/
def run : ℕ → List Insn → UInt32 → Option UInt32
  | _, [], _ => none
  | skip + 1, _ :: p, a => run skip p a
  | 0, .ld off :: p, _ => (load off).bind fun w => run 0 p w
  | 0, .jump c k jt jf :: p, a => run (if c.holds a k then jt else jf) p a
  | 0, .ret k :: _, _ => some k

/-- Every jump goes to an instruction. -/
def JumpsInside (p : List Insn) : Prop :=
  ∀ i c k jt jf, p[i]? = some (.jump c k jt jf) → i + 1 + jt < p.length ∧ i + 1 + jf < p.length

/-- A block that has the verdict `out`, or else goes on behind it with the word that it was given. -/
def Decides (a : UInt32) (block : List Insn) (out : Option UInt32) : Prop :=
  ∀ rest, run load 0 (block ++ rest) a = out.or (run load 0 rest a)

/-- No jump goes further than right behind the block. -/
def StaysIn : List Insn → Prop
  | [] => True
  | .jump _ _ jt jf :: p => jt ≤ p.length ∧ jf ≤ p.length ∧ StaysIn p
  | _ :: p => StaysIn p

end

/-! ## Blocks -/

variable {load : ℕ → Option UInt32} {a w : UInt32}

theorem holds_jeq_iff {k : UInt32} : Cond.jeq.holds a k = true ↔ k = a := beq_iff_eq.trans eq_comm

theorem decides_nil : Decides load a [] none := fun _ => rfl

theorem Decides.append {p q : List Insn} {out out' : Option UInt32} (hp : Decides load a p out)
    (hq : Decides load a q out') : Decides load a (p ++ q) (out.or out') := by
  intro rest
  rw [List.append_assoc, hp, hq, Option.or_assoc]

/-- A verdict for one value of the word. -/
theorem decides_check (c : Cond) (k v : UInt32) :
    Decides load a [.jump c k 0 1, .ret v] (if c.holds a k then some v else none) := by
  intro rest
  change run load (if c.holds a k then 0 else 1) (.ret v :: rest) a = _
  split
  · rfl
  · rfl

/-- The word is loaded again. -/
theorem decides_reload {off : ℕ} (h : load off = some a) : Decides load a [.ld off] none := by
  intro rest
  change ((load off).bind fun w => run load 0 rest w) = _
  rw [h]
  rfl

/-- A verdict for one value of the word, with another word to decide; then the first is loaded
again.  That may also be the first instruction behind the block. -/
theorem decides_checkArg {off off' : ℕ} (hnr : load off = some a) (harg : load off' = some w) {jf : ℕ}
    (hjf : jf = 3 ∨ jf = 4) (c c' : Cond) (k k' v : UInt32) :
    Decides load a [.jump c k 0 jf, .ld off', .jump c' k' 0 1, .ret v, .ld off]
      (if c.holds a k && c'.holds w k' then some v else none) := by
  intro rest
  have hreload : run load 0 (.ld off :: rest) a = run load 0 rest a := decides_reload hnr rest
  change run load (if c.holds a k then 0 else jf)
    (.ld off' :: .jump c' k' 0 1 :: .ret v :: .ld off :: rest) a = _
  cases c.holds a k with
  | false =>
    rcases hjf with rfl | rfl
    · exact hreload
    · rfl
  | true =>
    change ((load off').bind fun w => run load (if c'.holds w k' then 0 else 1)
      (.ret v :: .ld off :: rest) w) = _
    rw [harg, Option.bind_some]
    cases c'.holds w k' with
    | false =>
      change ((load off).bind fun w => run load 0 rest w) = _
      rw [hnr]
      rfl
    | true => rfl

/-- The same with two words. -/
theorem decides_checkArgs {w' : UInt32} {off off' off'' : ℕ} (hnr : load off = some a)
    (harg : load off' = some w) (harg' : load off'' = some w') (c c' c'' : Cond)
    (k k' k'' v : UInt32) :
    Decides load a [.jump c k 0 6, .ld off', .jump c' k' 0 3, .ld off'', .jump c'' k'' 0 1, .ret v,
      .ld off] (if c.holds a k && (c'.holds w k' && c''.holds w' k'') then some v else none) := by
  intro rest
  have hreload (w : UInt32) : run load 0 (.ld off :: rest) w = run load 0 rest a := by
    change ((load off).bind fun w => run load 0 rest w) = _
    rw [hnr]
    rfl
  change run load (if c.holds a k then 0 else 6) (.ld off' :: .jump c' k' 0 3 :: .ld off'' ::
    .jump c'' k'' 0 1 :: .ret v :: .ld off :: rest) a = _
  cases c.holds a k with
  | false => rfl
  | true =>
    change ((load off').bind fun w => run load (if c'.holds w k' then 0 else 3)
      (.ld off'' :: .jump c'' k'' 0 1 :: .ret v :: .ld off :: rest) w) = _
    rw [harg, Option.bind_some]
    cases c'.holds w k' with
    | false => exact hreload w
    | true =>
      change ((load off'').bind fun w => run load (if c''.holds w k'' then 0 else 1)
        (.ret v :: .ld off :: rest) w) = _
      rw [harg', Option.bind_some]
      cases c''.holds w' k'' with
      | false => exact hreload w'
      | true => rfl

theorem staysIn_append {p q : List Insn} (hp : StaysIn p) (hq : StaysIn q) :
    StaysIn (p ++ q) := by
  induction p with
  | nil => exact hq
  | cons i p ih =>
    cases i with
    | ld off => exact ih hp
    | ret k => exact ih hp
    | jump c k jt jf =>
      obtain ⟨hjt, hjf, hp⟩ := hp
      have hle : p.length ≤ (p ++ q).length := (List.prefix_append p q).length_le
      exact ⟨Nat.le_trans hjt hle, Nat.le_trans hjf hle, ih hp⟩

theorem StaysIn.le_of_getElem? {p : List Insn} (h : StaysIn p) {i : ℕ} {c : Cond} {k : UInt32}
    {jt jf : ℕ} (hi : p[i]? = some (.jump c k jt jf)) :
    i + 1 + jt ≤ p.length ∧ i + 1 + jf ≤ p.length := by
  induction p generalizing i with
  | nil => cases hi
  | cons insn p ih =>
    rw [List.length_cons]
    cases i with
    | zero =>
      obtain rfl : insn = .jump c k jt jf := Option.some.inj hi
      obtain ⟨hjt, hjf, -⟩ := h
      omega
    | succ i =>
      have hp : StaysIn p := by
        cases insn with
        | ld off => exact h
        | ret k => exact h
        | jump c k jt jf => exact h.2.2
      obtain ⟨hjt, hjf⟩ := ih hp hi
      omega

/-- With a return at its end a closed block is a program. -/
theorem StaysIn.jumpsInside {p : List Insn} (h : StaysIn p) (k : UInt32) :
    JumpsInside (p ++ [.ret k]) := by
  intro i c k' jt jf hi
  rw [List.length_append, List.length_singleton]
  by_cases hlt : i < p.length
  · rw [List.getElem?_append_left hlt] at hi
    obtain ⟨hjt, hjf⟩ := h.le_of_getElem? hi
    omega
  · rw [List.getElem?_append_right (Nat.le_of_not_lt hlt)] at hi
    cases hzero : i - p.length with
    | zero =>
      rw [hzero] at hi
      cases hi
    | succ j =>
      rw [hzero] at hi
      cases hi

end Bpf
