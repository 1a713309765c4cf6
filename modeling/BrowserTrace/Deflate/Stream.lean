import BrowserTrace.Deflate.Code
import BrowserTrace.Deflate.Token

/-! # Reading a deflate stream

A stream is a sequence of blocks, of which the last one says so. A block holds bytes as they are,
or tokens in a prefix code that is either fixed or described at the start of the block. Reading
gives the tokens of the stream and whether it ended with its last block: a stream that is cut or
corrupt still gives the tokens before that.
-/

namespace BrowserTrace.Deflate

/-! ## Tokens of a compressed block -/

/-- The codes of a compressed block. -/
structure Codes where
  literals : Code
  distances : Code
deriving Repr

/-- For the length symbols from 257: the least length and the number of extra bits. -/
def lengthTable : List (Nat × Nat) :=
  [(3, 0), (4, 0), (5, 0), (6, 0), (7, 0), (8, 0), (9, 0), (10, 0), (11, 1), (13, 1), (15, 1),
    (17, 1), (19, 2), (23, 2), (27, 2), (31, 2), (35, 3), (43, 3), (51, 3), (59, 3), (67, 4),
    (83, 4), (99, 4), (115, 4), (131, 5), (163, 5), (195, 5), (227, 5), (258, 0)]

/-- For the distance symbols: the least distance and the number of extra bits. -/
def distanceTable : List (Nat × Nat) :=
  [(1, 0), (2, 0), (3, 0), (4, 0), (5, 1), (7, 1), (9, 2), (13, 2), (17, 3), (25, 3), (33, 4),
    (49, 4), (65, 5), (97, 5), (129, 6), (193, 6), (257, 7), (385, 7), (513, 8), (769, 8),
    (1025, 9), (1537, 9), (2049, 10), (3073, 10), (4097, 11), (6145, 11), (8193, 12), (12289, 12),
    (16385, 13), (24577, 13)]

/-- The number that an entry of a table stands for, with its extra bits read. -/
def readScaled? (table : List (Nat × Nat)) (index : Nat) (bits : Bits) : Option (Nat × Bits) := do
  let (least, extra) ← table[index]?
  let (n, bits) ← readBits? extra bits
  some (least + n, bits)

/-- Reads a token; no token stands for the end of the block. -/
def readToken? (codes : Codes) (bits : Bits) : Option (Option Token × Bits) :=
  match codes.literals.read? bits with
  | none => none
  | some (s, bits) =>
    if s < 256 then some (some (.literal (UInt8.ofNat s)), bits)
    else if s = 256 then some (none, bits)
    else do
      let (length, bits) ← readScaled? lengthTable (s - 257) bits
      let (s, bits) ← codes.distances.read? bits
      let (distance, bits) ← readScaled? distanceTable s bits
      some (some (.copy length distance), bits)

theorem readScaled?_length_le {table : List (Nat × Nat)} {index n : Nat} {bits rest : Bits}
    (h : readScaled? table index bits = some (n, rest)) : rest.length ≤ bits.length := by
  simp only [readScaled?, Option.bind_eq_bind, Option.bind_eq_some_iff, Prod.exists] at h
  obtain ⟨least, extra, _, m, rest', hm, hr⟩ := h
  have := readBits?_length hm
  simp only [Option.some.injEq, Prod.mk.injEq] at hr
  rw [← hr.2]
  omega

theorem readToken?_length_lt {codes : Codes} {bits rest : Bits} {token : Option Token}
    (h : readToken? codes bits = some (token, rest)) : rest.length < bits.length := by
  unfold readToken? at h
  split at h
  · contradiction
  · next s bits₁ hs =>
    have h₁ := Code.read?_length_lt hs
    split at h
    · simp only [Option.some.injEq, Prod.mk.injEq] at h
      rw [← h.2]
      exact h₁
    · split at h
      · simp only [Option.some.injEq, Prod.mk.injEq] at h
        rw [← h.2]
        exact h₁
      · simp only [Option.bind_eq_bind, Option.bind_eq_some_iff, Prod.exists] at h
        obtain ⟨length, bits₂, hl, s', bits₃, hs', distance, bits₄, hd, hr⟩ := h
        have h₂ := readScaled?_length_le hl
        have h₃ := Code.read?_length_lt hs'
        have h₄ := readScaled?_length_le hd
        simp only [Option.some.injEq, Prod.mk.injEq] at hr
        rw [← hr.2]
        omega

/-- Reads the tokens of a compressed block in front of `acc`, the newest first; the rest is none
when the block does not come to its end. -/
def readTokens (codes : Codes) (bits : Bits) (acc : List Token) : List Token × Option Bits :=
  match _read : readToken? codes bits with
  | none => (acc, none)
  | some (none, rest) => (acc, some rest)
  | some (some token, rest) => readTokens codes rest (token :: acc)
termination_by bits.length
decreasing_by exact readToken?_length_lt _read

theorem readTokens_length_le {codes : Codes} {bits rest : Bits} {acc tokens : List Token}
    (h : readTokens codes bits acc = (tokens, some rest)) : rest.length ≤ bits.length := by
  fun_induction readTokens codes bits acc with
  | case1 => simp at h
  | case2 bits acc rest' hr =>
    have := readToken?_length_lt hr
    simp only [Prod.mk.injEq, Option.some.injEq] at h
    rw [← h.2]
    omega
  | case3 bits acc token rest' hr ih =>
    have := readToken?_length_lt hr
    have := ih h
    omega

/-! ## The codes of a block -/

/-- The codes of a block that describes none. -/
def fixedCodes? : Option Codes := do
  let literals ← Code.ofLengths?
    (List.replicate 144 8 ++ List.replicate 112 9 ++ List.replicate 24 7 ++ List.replicate 8 8)
  let distances ← Code.ofLengths? (List.replicate 32 5)
  some ⟨literals, distances⟩

/-- Reads `count` numbers of three bits. -/
def readShortLengths? : Nat → Bits → Option (List Nat × Bits)
  | 0, bits => some ([], bits)
  | count + 1, bits => do
    let (n, bits) ← readBits? 3 bits
    let (ns, bits) ← readShortLengths? count bits
    some (n :: ns, bits)

/-- The order in which the lengths of the code for lengths are written. -/
def lengthOrder : List Nat :=
  [16, 17, 18, 0, 8, 7, 9, 6, 10, 5, 11, 4, 12, 3, 13, 2, 14, 1, 15]

/-- The lengths by symbol, from those written in `lengthOrder`; the ones not written are zero. -/
def orderLengths (written : List Nat) : List Nat :=
  (List.range 19).map fun s => (written[lengthOrder.idxOf s]?).getD 0

/-- Reads a run of lengths in front of `acc`, the newest first: a length, or a repetition of the
last one or of zero. -/
def readRun? (code : Code) (acc : List Nat) (bits : Bits) : Option (Nat × Nat × Bits) := do
  let (s, bits) ← code.read? bits
  match s with
  | 16 =>
    let (n, bits) ← readBits? 2 bits
    some (n + 3, ← acc.head?, bits)
  | 17 =>
    let (n, bits) ← readBits? 3 bits
    some (n + 3, 0, bits)
  | 18 =>
    let (n, bits) ← readBits? 7 bits
    some (n + 11, 0, bits)
  | s => some (1, s, bits)

/-- Reads code lengths until there are `missing` more of them, and no more than that. -/
def readLengths? (code : Code) (missing : Nat) (bits : Bits) (acc : List Nat) :
    Option (List Nat × Bits) :=
  if missing = 0 then some (acc.reverse, bits)
  else
    match readRun? code acc bits with
    | none => none
    | some (count, length, bits) =>
      if _fits : 0 < count ∧ count ≤ missing then
        readLengths? code (missing - count) bits (List.replicate count length ++ acc)
      else
        none
termination_by missing

/-- Reads the codes that a block describes. -/
def readCodes? (bits : Bits) : Option (Codes × Bits) := do
  let (literalCount, bits) ← readBits? 5 bits
  let (distanceCount, bits) ← readBits? 5 bits
  let (writtenCount, bits) ← readBits? 4 bits
  let literalCount := literalCount + 257
  let distanceCount := distanceCount + 1
  if 286 < literalCount || 30 < distanceCount then none
  else
    let (written, bits) ← readShortLengths? (writtenCount + 4) bits
    let code ← Code.ofLengths? (orderLengths written)
    let (lengths, bits) ← readLengths? code (literalCount + distanceCount) bits []
    let literals ← Code.ofLengths? (lengths.take literalCount)
    let distances ← Code.ofLengths? (lengths.drop literalCount)
    some (⟨literals, distances⟩, bits)

theorem readShortLengths?_length_le {count : Nat} {ns : List Nat} {bits rest : Bits}
    (h : readShortLengths? count bits = some (ns, rest)) : rest.length ≤ bits.length := by
  induction count generalizing ns bits rest with
  | zero =>
    simp only [readShortLengths?, Option.some.injEq, Prod.mk.injEq] at h
    simp [h.2]
  | succ count ih =>
    simp only [readShortLengths?, Option.bind_eq_bind, Option.bind_eq_some_iff, Prod.exists] at h
    obtain ⟨n, bits₁, hn, ns', bits₂, hns, hr⟩ := h
    have := readBits?_length hn
    have := ih hns
    simp only [Option.some.injEq, Prod.mk.injEq] at hr
    rw [← hr.2]
    omega

theorem readRun?_length_lt {code : Code} {acc : List Nat} {bits rest : Bits} {count length : Nat}
    (h : readRun? code acc bits = some (count, length, rest)) : rest.length < bits.length := by
  simp only [readRun?, Option.bind_eq_bind, Option.bind_eq_some_iff, Prod.exists] at h
  obtain ⟨s, bits₁, hs, h⟩ := h
  have := Code.read?_length_lt hs
  split at h
  all_goals
    simp only [Option.bind_eq_some_iff, Prod.exists, Option.some.injEq, Prod.mk.injEq] at h
  · obtain ⟨n, bits₂, hn, _, _, hr⟩ := h
    have := readBits?_length hn
    rw [← hr.2.2]
    omega
  · obtain ⟨n, bits₂, hn, hr⟩ := h
    have := readBits?_length hn
    rw [← hr.2.2]
    omega
  · obtain ⟨n, bits₂, hn, hr⟩ := h
    have := readBits?_length hn
    rw [← hr.2.2]
    omega
  · rw [← h.2.2]
    exact this

theorem readLengths?_length_le {code : Code} {missing : Nat} {acc lengths : List Nat}
    {bits rest : Bits} (h : readLengths? code missing bits acc = some (lengths, rest)) :
    rest.length ≤ bits.length := by
  fun_induction readLengths? code missing bits acc with
  | case1 =>
    simp only [Option.some.injEq, Prod.mk.injEq] at h
    simp [h.2]
  | case2 => contradiction
  | case3 missing bits acc _ count length bits₁ hr _ ih =>
    have := readRun?_length_lt hr
    have := ih h
    omega
  | case4 => contradiction

theorem readCodes?_length_le {codes : Codes} {bits rest : Bits}
    (h : readCodes? bits = some (codes, rest)) : rest.length ≤ bits.length := by
  simp only [readCodes?, Option.bind_eq_bind, Option.bind_eq_some_iff, Prod.exists] at h
  obtain ⟨n₁, bits₁, h₁, n₂, bits₂, h₂, n₃, bits₃, h₃, h⟩ := h
  split at h
  · contradiction
  · simp only [Option.bind_eq_some_iff, Prod.exists] at h
    obtain ⟨written, bits₄, h₄, code, _, lengths, bits₅, h₅, _, _, _, _, hr⟩ := h
    have := readBits?_length h₁
    have := readBits?_length h₂
    have := readBits?_length h₃
    have := readShortLengths?_length_le h₄
    have := readLengths?_length_le h₅
    simp only [Option.some.injEq, Prod.mk.injEq] at hr
    rw [← hr.2]
    omega

/-! ## Blocks -/

/-- Reads the length of a block of bytes as they are, which its complement follows. -/
def readStoredLength? (bits : Bits) : Option (Nat × Bits) := do
  let (length, bits) ← readBits? 16 (align bits)
  let (complement, bits) ← readBits? 16 bits
  if length + complement = 65535 then some (length, bits) else none

theorem readStoredLength?_length_le {n : Nat} {bits rest : Bits}
    (h : readStoredLength? bits = some (n, rest)) : rest.length ≤ bits.length := by
  simp only [readStoredLength?, Option.bind_eq_bind, Option.bind_eq_some_iff, Prod.exists] at h
  obtain ⟨n, bits₁, h₁, m, bits₂, h₂, h⟩ := h
  split at h
  · have := readBits?_length h₁
    have := readBits?_length h₂
    have := align_length_le bits
    simp only [Option.some.injEq, Prod.mk.injEq] at h
    rw [← h.2]
    omega
  · contradiction

/-- Reads the contents of a block of the given kind in front of `acc`, the newest token first; the
rest is none when the block does not come to its end. -/
def readContents (kind : Nat) (bits : Bits) (acc : List Token) : List Token × Option Bits :=
  match kind with
  | 0 =>
    match readStoredLength? bits with
    | some (length, rest) =>
      match readBytes length rest with
      | (bs, rest) => ((bs.map Token.literal).reverseAux acc, rest)
    | none => (acc, none)
  | 1 =>
    match fixedCodes? with
    | some codes => readTokens codes bits acc
    | none => (acc, none)
  | 2 =>
    match readCodes? bits with
    | some (codes, rest) => readTokens codes rest acc
    | none => (acc, none)
  | _ => (acc, none)

theorem readContents_length_le {kind : Nat} {bits rest : Bits} {acc tokens : List Token}
    (h : readContents kind bits acc = (tokens, some rest)) : rest.length ≤ bits.length := by
  unfold readContents at h
  split at h
  · split at h
    · next length start hs =>
      have := readStoredLength?_length_le hs
      split at h
      next hb =>
        simp only [Prod.mk.injEq] at h
        have := readBytes_length_le (hb.trans (by rw [h.2]))
        omega
    · simp at h
  · split at h
    · exact readTokens_length_le h
    · simp at h
  · split at h
    · next hc =>
      have := readCodes?_length_le hc
      have := readTokens_length_le h
      omega
    · simp at h
  · simp at h

/-- How a stream ends: with its last block, the bits after it being no part of the stream; or
before that, where it is cut or corrupt. -/
inductive Ending where
  | complete (rest : Bits)
  | broken
deriving DecidableEq, Repr

/-- Reads blocks in front of `acc`, the newest token first, up to the last block. -/
def readBlocks (bits : Bits) (acc : List Token) : List Token × Ending :=
  match _head : readBits? 3 bits with
  | none => (acc, .broken)
  | some (head, bits₁) =>
    match _contents : readContents (head / 2) bits₁ acc with
    | (acc, none) => (acc, .broken)
    | (acc, some rest) =>
      if head % 2 = 1 then (acc, .complete rest) else readBlocks rest acc
termination_by bits.length
decreasing_by
  have := readBits?_length _head
  have := readContents_length_le _contents
  omega

/-- The tokens of a stream and how it ends. -/
def readStream (bits : Bits) : List Token × Ending :=
  let (tokens, ending) := readBlocks bits []
  (tokens.reverse, ending)

/-- The first `limit` bytes of what a stream describes, or all when it describes fewer; none when
the stream breaks off before there are so many. Bytes after the stream are ignored. -/
def inflate? (limit : Nat) (data : ByteArray) : Option ByteArray :=
  let (tokens, ending) := readStream (bitsOf data)
  match expand? limit tokens ByteArray.empty with
  | none => none
  | some out =>
    match ending with
    | .complete _ => some out
    | .broken => if limit ≤ out.size then some out else none

end BrowserTrace.Deflate
