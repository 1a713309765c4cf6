import BrowserTrace.Deflate.Stream
import BrowserTrace.Proofs.Deflate.Bits
import BrowserTrace.Proofs.Deflate.Canonical

/-!
# The format of a deflate stream

This file says which bits make up a deflate stream, by a grammar that knows no reader: each rule
names the parts that a piece of the stream consists of, in their order.  The parts of a compressed
block are words of two codes, which are given by lengths alone (`IsCodeWord`).  Only a stored block
looks beyond itself, to find the byte boundary; so a block relates the bits from its first one on to
those behind it.

A stream ends with the first block that says it is the last one.  Hence a stream stays a stream when
whole bytes are added behind it (`IsStream.append`), and what ends sooner is none.
-/

namespace BrowserTrace.Deflate

/-! ## Tokens of a compressed block -/

/-- An entry of a table with its extra bits stands for a number. -/
def IsScaled (table : List (Nat × Nat)) (index n : Nat) (w : Bits) : Prop :=
  ∃ least extra m, table[index]? = some (least, extra) ∧ m < 2 ^ extra ∧ n = least + m ∧
    w = numberBits extra m

section Tokens

variable (literals distances : List Nat)

/-- A token in codes with these lengths.  Bytes and lengths share a code, the lengths from 257 on.
-/
inductive IsToken : Token → Bits → Prop
  | literal {b : UInt8} {w : Bits} (hw : IsCodeWord literals b.toNat w) : IsToken (.literal b) w
  | copy {i j length distance : Nat} {u v w x : Bits} (hu : IsCodeWord literals (257 + i) u)
      (hv : IsScaled lengthTable i length v) (hw : IsCodeWord distances j w)
      (hx : IsScaled distanceTable j distance x) :
      IsToken (.copy length distance) (u ++ (v ++ (w ++ x)))

/-- Tokens up to the end of their block, for which the symbol 256 stands. -/
inductive AreTokens : List Token → Bits → Prop
  | nil {w : Bits} (hw : IsCodeWord literals 256 w) : AreTokens [] w
  | cons {t : Token} {ts : List Token} {w ws : Bits} (ht : IsToken literals distances t w)
      (hts : AreTokens ts ws) : AreTokens (t :: ts) (w ++ ws)

end Tokens

/-! ## The codes of a block -/

/-- The lengths of the code for bytes and lengths that a block uses when it describes none. -/
def fixedLiterals : List Nat :=
  List.replicate 144 8 ++ List.replicate 112 9 ++ List.replicate 24 7 ++ List.replicate 8 8

/-- The lengths of the code for distances that a block uses when it describes none. -/
def fixedDistances : List Nat := List.replicate 32 5

section Runs

variable (code : List Nat)

/-- A number of equal lengths behind those that are given: one that is named, the last one again, or
zero. -/
inductive IsRun (given : List Nat) : (count length : Nat) → Bits → Prop
  | single {s : Nat} {w : Bits} (hs : s < 16) (hw : IsCodeWord code s w) : IsRun given 1 s w
  | again {n s : Nat} {w : Bits} (hs : given.getLast? = some s) (hn : n < 4)
      (hw : IsCodeWord code 16 w) : IsRun given (n + 3) s (w ++ numberBits 2 n)
  | zeros {n : Nat} {w : Bits} (hn : n < 8) (hw : IsCodeWord code 17 w) :
      IsRun given (n + 3) 0 (w ++ numberBits 3 n)
  | manyZeros {n : Nat} {w : Bits} (hn : n < 128) (hw : IsCodeWord code 18 w) :
      IsRun given (n + 11) 0 (w ++ numberBits 7 n)

/-- Runs of lengths behind those that are given. -/
inductive AreRuns : (given lengths : List Nat) → Bits → Prop
  | nil {given : List Nat} : AreRuns given [] []
  | cons {given lengths : List Nat} {count length : Nat} {w ws : Bits}
      (hr : IsRun code given count length w)
      (hrs : AreRuns (given ++ List.replicate count length) lengths ws) :
      AreRuns given (List.replicate count length ++ lengths) (w ++ ws)

end Runs

/-- The bits describe two codes: how many lengths there are, the code for lengths, and the lengths
of both codes in that code, where a run may go from one to the other. -/
inductive IsDescription (literals distances : List Nat) : Bits → Prop
  | mk {written : List Nat} {w : Bits}
      (hliterals : 257 ≤ literals.length ∧ literals.length ≤ 286)
      (hdistances : 1 ≤ distances.length ∧ distances.length ≤ 30)
      (hwritten : 4 ≤ written.length ∧ written.length ≤ 19) (hshort : ∀ k ∈ written, k < 8)
      (hcode : DescribesCode (orderLengths written))
      (hruns : AreRuns (orderLengths written) [] (literals ++ distances) w)
      (hliteralCode : DescribesCode literals) (hdistanceCode : DescribesCode distances) :
      IsDescription literals distances
        (numberBits 5 (literals.length - 257) ++ (numberBits 5 (distances.length - 1) ++
          (numberBits 4 (written.length - 4) ++ (written.flatMap (numberBits 3) ++ w))))

/-! ## Blocks -/

/-- What follows the first three bits of a block of a kind, up to the bits behind the block. -/
inductive IsContents : (kind : Nat) → List Token → (bits rest : Bits) → Prop
  | stored {bs : List UInt8} {padding rest : Bits} (hlength : bs.length < 2 ^ 16)
      (hpadding : padding.length < 8) (haligned : rest.length % 8 = 0) :
      IsContents 0 (bs.map .literal)
        (padding ++ (numberBits 16 bs.length ++ (numberBits 16 (65535 - bs.length) ++
          (bs.flatMap byteBits ++ rest)))) rest
  | fixed {ts : List Token} {w rest : Bits} (hts : AreTokens fixedLiterals fixedDistances ts w) :
      IsContents 1 ts (w ++ rest) rest
  | described {literals distances : List Nat} {ts : List Token} {d w rest : Bits}
      (hd : IsDescription literals distances d) (hts : AreTokens literals distances ts w) :
      IsContents 2 ts (d ++ (w ++ rest)) rest

/-- A block, which says whether it is the last one and of which kind it is. -/
inductive IsBlock (last : Bool) (ts : List Token) : (bits rest : Bits) → Prop
  | mk {kind : Nat} {bits rest : Bits} (hc : IsContents kind ts bits rest) :
      IsBlock last ts (last :: (numberBits 2 kind ++ bits)) rest

/-- Blocks up to the one that is the last. -/
inductive IsStream : List Token → (bits rest : Bits) → Prop
  | last {ts : List Token} {bits rest : Bits} (hb : IsBlock true ts bits rest) :
      IsStream ts bits rest
  | more {ts us : List Token} {bits mid rest : Bits} (hb : IsBlock false ts bits mid)
      (hs : IsStream us mid rest) : IsStream (ts ++ us) bits rest

/-! ## Bytes behind a stream -/

section Behind

variable {ts : List Token} {bits rest more : Bits}

theorem IsContents.append {kind : Nat} (hc : IsContents kind ts bits rest)
    (hm : more.length % 8 = 0) : IsContents kind ts (bits ++ more) (rest ++ more) := by
  cases hc with
  | stored hlength hpadding haligned =>
    have hboundary : (rest ++ more).length % 8 = 0 := by
      rw [List.length_append]
      omega
    simp only [List.append_assoc]
    exact .stored hlength hpadding hboundary
  | fixed hts =>
    rw [List.append_assoc]
    exact .fixed hts
  | described hd hts =>
    rw [List.append_assoc, List.append_assoc]
    exact .described hd hts

theorem IsBlock.append {last : Bool} (hb : IsBlock last ts bits rest) (hm : more.length % 8 = 0) :
    IsBlock last ts (bits ++ more) (rest ++ more) := by
  cases hb with
  | mk hc =>
    rw [List.cons_append, List.append_assoc]
    exact .mk (hc.append hm)

/-- Whole bytes behind a stream are no part of it. -/
theorem IsStream.append (hs : IsStream ts bits rest) (hm : more.length % 8 = 0) :
    IsStream ts (bits ++ more) (rest ++ more) := by
  induction hs with
  | last hb => exact .last (hb.append hm)
  | more hb _ ih => exact .more (hb.append hm) ih

end Behind

end BrowserTrace.Deflate
