/-! # The index of names

The entries of an archive are found through an index from their names to their positions in the
directory. A name may stand there more than once; it keeps the position that was noted first. The
index is in buckets, by the hash of the name.
-/

namespace BrowserTrace

/-- Positions under names, in buckets. -/
structure NameIndex where
  buckets : Array (List (String × Nat))
  buckets_pos : 0 < buckets.size

namespace NameIndex

/-- The number of the bucket of a name. -/
def slot (index : NameIndex) (name : String) : Nat :=
  (hash name).toNat % index.buckets.size

/-- An index without positions, for this many names. -/
def empty (count : Nat) : NameIndex where
  buckets := .replicate (count + 1) []
  buckets_pos := by simp

/-- The position under a name. -/
def get? (index : NameIndex) (name : String) : Option Nat :=
  index.buckets[index.slot name]?.bind (·.lookup name)

/-- Notes a position under a name; a name that has one keeps it. -/
def insertIfNew (index : NameIndex) (name : String) (position : Nat) : NameIndex :=
  if (index.get? name).isSome then index
  else
    { buckets := index.buckets.modify (index.slot name) ((name, position) :: ·)
      buckets_pos := by simpa using index.buckets_pos }

/-- The positions of the names of a list. -/
def ofNames (names : List String) : NameIndex :=
  names.zipIdx.foldl (fun index (name, position) => index.insertIfNew name position)
    (empty names.length)

end NameIndex

end BrowserTrace
