import BrowserTrace.Archive.Basic

/-!
# The first entry with a name

The index of names is filled from the first entry to the last, and a name keeps the position that was
noted first.  What the index holds after each step is said by one law (`get?_insertIfNew`); from it,
looking a name up gives the position where the name stands first in the list
(`get?_ofNames`), and so the entry that is found is the first one with the name
(`Archive.find?_eq`), at a position that is always in the directory.
-/

namespace BrowserTrace

namespace NameIndex

variable {index : NameIndex} {name n : String} {position : Nat}

theorem slot_lt (index : NameIndex) (name : String) : index.slot name < index.buckets.size :=
  Nat.mod_lt _ index.buckets_pos

theorem get?_empty (count : Nat) (name : String) : (empty count).get? name = none := by
  unfold get? empty
  rw [Array.getElem?_replicate]
  split
  · rfl
  · rfl

/-- What stands under a name stays; what is noted counts only where nothing stands. -/
theorem get?_insertIfNew (index : NameIndex) (name : String) (position : Nat) (n : String) :
    (index.insertIfNew name position).get? n =
      (index.get? n).or (if name = n then some position else none) := by
  unfold insertIfNew
  split
  · next hsome =>
    by_cases hn : name = n
    · subst hn
      obtain ⟨old, hold⟩ := Option.isSome_iff_exists.mp hsome
      rw [hold, Option.some_or]
    · rw [if_neg hn, Option.or_none]
  · next hnone =>
    obtain ⟨bucket, hbucket⟩ : ∃ bucket, index.buckets[index.slot n]? = some bucket :=
      ⟨_, Array.getElem?_eq_some_iff.mpr ⟨index.slot_lt n, rfl⟩⟩
    simp only [get?, slot, Array.size_modify, Array.getElem?_modify] at hbucket hnone ⊢
    rw [hbucket]
    by_cases hn : name = n
    · subst hn
      rw [hbucket] at hnone
      have hold : bucket.lookup name = none := Option.not_isSome_iff_eq_none.mp hnone
      simp [hold]
    · -- The names may share a bucket; then the new binding is passed over.
      have hne : (n == name) = false := beq_eq_false_iff_ne.mpr (Ne.symm hn)
      rw [if_neg hn, Option.or_none]
      split
      · rw [Option.map_some, Option.bind_some, List.lookup_cons, hne, Option.bind_some]
      · rfl

/-- Names that are noted one after the other, with the positions from `start` on. -/
theorem get?_foldl_insertIfNew (names : List String) (start : Nat) (index : NameIndex)
    (name : String) :
    ((names.zipIdx start).foldl (fun index (name, position) => index.insertIfNew name position)
      index).get? name =
      (index.get? name).or ((names.findIdx? (· == name)).map (· + start)) := by
  induction names generalizing start index with
  | nil => simp
  | cons first names ih =>
    rw [List.zipIdx_cons, List.foldl_cons, ih, get?_insertIfNew, Option.or_assoc,
      List.findIdx?_cons]
    congr 1
    by_cases hfirst : first = name
    · simp [hfirst]
    · have hshift : (fun i ↦ i + (start + 1)) = (· + start) ∘ (· + 1) :=
        funext fun i ↦ (Nat.add_right_comm i 1 start).symm
      simp [hfirst, hshift]

/-- The position under a name is where it stands first. -/
theorem get?_ofNames (names : List String) (name : String) :
    (ofNames names).get? name = names.findIdx? (· == name) := by
  rw [ofNames, get?_foldl_insertIfNew, get?_empty, Option.none_or]
  exact Option.map_id'

end NameIndex

namespace Archive

variable {a : Archive} {name : String} {e : Entry}

theorem entryIndex?_eq (a : Archive) (name : String) :
    a.entryIndex? name = a.entries.findIdx? (·.name == name) := by
  rw [entryIndex?, nameIndex, NameIndex.get?_ofNames, List.findIdx?_map]
  rfl

/-- A position in the index is one in the directory, so every name in the index is found. -/
theorem lt_length_of_entryIndex? {i : Nat} (h : a.entryIndex? name = some i) :
    i < a.entries.length := by
  rw [entryIndex?_eq, List.findIdx?_eq_some_iff_getElem] at h
  exact h.1

/-- The entry that is found is the first one with the name. -/
theorem find?_eq (a : Archive) (name : String) :
    a.find? name = a.entries.find? (·.name == name) := by
  rw [find?, entryIndex?_eq, List.find?_eq_bind_findIdx?_getElem?]

end Archive

end BrowserTrace
