import BrowserTrace.Deflate.Bits

/-! # Canonical prefix codes

A prefix code is a binary tree whose leaves are symbols; a symbol is read by walking from the root,
one bit a step. The code words are fixed by their lengths alone: shorter words come first, words of
one length in the order of their symbols, and each takes the leftmost place that is left at its
depth.
-/

namespace BrowserTrace.Deflate

/-- A prefix code, or a part of one below some bits. -/
inductive Code where
  | absent
  | symbol (s : Nat)
  | branch (zero one : Code)
deriving DecidableEq, Repr

namespace Code

/-- Reads a symbol below a node. -/
def walk? : Code → Bits → Option (Nat × Bits)
  | absent, _ => none
  | symbol s, bits => some (s, bits)
  | branch _ _, [] => none
  | branch zero one, b :: bits => if b then one.walk? bits else zero.walk? bits

/-- Reads a symbol, which takes at least one bit. -/
def read? : Code → Bits → Option (Nat × Bits)
  | branch zero one, bits => walk? (branch zero one) bits
  | _, _ => none

theorem walk?_length_le {c : Code} {bits rest : Bits} {s : Nat}
    (h : c.walk? bits = some (s, rest)) : rest.length ≤ bits.length := by
  induction c generalizing bits with
  | absent => simp [walk?] at h
  | symbol _ =>
    simp only [walk?, Option.some.injEq, Prod.mk.injEq] at h
    simp [h.2]
  | branch zero one ihz iho =>
    cases bits with
    | nil => simp [walk?] at h
    | cons b bits =>
      simp only [walk?] at h
      split at h
      · exact Nat.le_succ_of_le (iho h)
      · exact Nat.le_succ_of_le (ihz h)

theorem read?_length_lt {c : Code} {bits rest : Bits} {s : Nat}
    (h : c.read? bits = some (s, rest)) : rest.length < bits.length := by
  cases c with
  | absent => simp [read?] at h
  | symbol _ => simp [read?] at h
  | branch zero one =>
    cases bits with
    | nil => simp [read?, walk?] at h
    | cons b bits =>
      simp only [read?, walk?] at h
      split at h
      · exact Nat.lt_succ_of_le (walk?_length_le h)
      · exact Nat.lt_succ_of_le (walk?_length_le h)

/-! ## Building a code from lengths -/

/-- Fills the node at `depth`, above `levels` further levels, with the first of the words, given as
pairs of length and symbol; returns the words that found no place. -/
def fill : (levels depth : Nat) → List (Nat × Nat) → Code × List (Nat × Nat)
  | _, _, [] => (absent, [])
  | 0, depth, (length, s) :: words =>
    if length = depth then (symbol s, words) else (absent, (length, s) :: words)
  | levels + 1, depth, (length, s) :: words =>
    if length = depth then
      (symbol s, words)
    else
      let (zero, words) := fill levels (depth + 1) ((length, s) :: words)
      let (one, words) := fill levels (depth + 1) words
      (branch zero one, words)

/-- Whether every place is taken. -/
def isFull : Code → Bool
  | absent => false
  | symbol _ => true
  | branch zero one => zero.isFull && one.isFull

/-- The greatest length of a code word. -/
def maxLength : Nat := 15

/-- The used symbols with their lengths, in the order of their code words. -/
def words (lengths : List Nat) : List (Nat × Nat) :=
  (List.range maxLength).flatMap fun n =>
    (lengths.zipIdx.filter fun (length, _) => length == n + 1)

/-- The code with these lengths by symbol, a length of zero leaving its symbol out. The words must
fit, and fill all places unless there is at most one of them. -/
def ofLengths? (lengths : List Nat) : Option Code :=
  let words := words lengths
  let (code, left) := fill maxLength 0 words
  if left.isEmpty && (code.isFull || words.length ≤ 1) then some code else none

end Code

end BrowserTrace.Deflate
