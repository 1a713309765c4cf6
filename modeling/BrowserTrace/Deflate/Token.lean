/-! # Literals and copies

A deflate stream describes its output as literal bytes and copies of earlier output. `expand`
carries the description out, up to a limit on the output.
-/

namespace BrowserTrace.Deflate

/-- A piece of the output: a byte, or the `length` bytes that begin `distance` bytes back. -/
inductive Token where
  | literal (b : UInt8)
  | copy (length distance : Nat)
deriving DecidableEq, Repr

/-- Appends `count` bytes, each the one `distance` back from the end at its turn, so that a copy may
overlap what it writes. -/
def copyBack (distance : Nat) : (count : Nat) → ByteArray → ByteArray
  | 0, out => out
  | count + 1, out => copyBack distance count (out.push (out[out.size - distance]?.getD 0))

/-- The output of tokens after `out`, cut at `limit` bytes; none when a copy reaches back beyond the
start before that. -/
def expand? (limit : Nat) : List Token → ByteArray → Option ByteArray
  | [], out => some out
  | token :: tokens, out =>
    if limit ≤ out.size then
      some out
    else
      match token with
      | .literal b => expand? limit tokens (out.push b)
      | .copy length distance =>
        if 0 < distance ∧ distance ≤ out.size then
          expand? limit tokens (copyBack distance (min length (limit - out.size)) out)
        else
          none

end BrowserTrace.Deflate
