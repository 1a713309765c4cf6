import BrowserTrace.Proofs.Settings

/-!
# Limits by their keys

The five limits have keys, meanings of what is set for them and defaults of their own, and whatever
is done to all of them is the same for each: here they are the cases of `Limit`, and a limit of some
settings is `Limit.of`.  Two things are done to the limits that were read: those that are zero are
named (`mem_zeroLimits_iff`), and the size of an entry is cut (`entrySize_cutEntrySize`).
-/

namespace BrowserTrace.Settings

/-- A limit that can be set. -/
inductive Limit where
  | consoleRecords
  | bodyChars
  | textChars
  | entrySize
  | archiveSize
deriving DecidableEq, Repr

namespace Limit

/-- All limits, in the order of the defaults. -/
def all : List Limit := [consoleRecords, bodyChars, textChars, entrySize, archiveSize]

/-- The key of a limit. -/
def key : Limit → String
  | consoleRecords => "max-console-records"
  | bodyChars => "max-body-chars"
  | textChars => "max-console-text-chars"
  | entrySize => "max-entry-size"
  | archiveSize => "max-archive-size"

/-- The number that a setting means for a limit: a count, or a size in bytes. -/
def meaning? : Limit → Setting → Option Nat
  | consoleRecords | bodyChars | textChars => Setting.count?
  | entrySize | archiveSize => fun v ↦ v.size?.map ByteSize.bytes

/-- The number of a limit. -/
def ofLimits : Limit → Limits → Nat
  | consoleRecords, l => l.records.maxConsoleRecords
  | bodyChars, l => l.records.maxBodyChars
  | textChars, l => l.records.maxTextChars
  | entrySize, l => l.archive.maxEntrySize.bytes
  | archiveSize, l => l.archive.maxArchiveSize.bytes

/-- The number of a limit in settings. -/
def of (l : Limit) (s : Settings) : Nat := l.ofLimits ⟨s.recordLimits, s.archiveLimits⟩

/-- The setting of a limit among the defaults. -/
def default : Limit → Setting
  | consoleRecords => .integer 50
  | bodyChars | textChars => .integer 2048
  | entrySize => .text "256MiB"
  | archiveSize => .text "1GiB"

theorem mem_all (l : Limit) : l ∈ all := by
  cases l <;> decide

theorem meaning?_table (l : Limit) (members : List (String × Setting)) :
    l.meaning? (.table members) = none := by
  cases l <;> rfl

/-- The defaults are given twice, as settings and as what a file would have, and these agree. -/
theorem meaning?_default (l : Limit) : l.meaning? l.default = some (l.of {}) := by
  cases l <;> decide +kernel

end Limit

variable {s : Settings}

/-! ## Zero limits -/

/-- All limits, in the alphabetical order of their keys. -/
def Limit.sorted : List Limit := [archiveSize, bodyChars, consoleRecords, textChars, entrySize]

theorem Limit.mem_sorted (l : Limit) : l ∈ sorted := by
  cases l <;> decide

theorem zeroLimits_eq (s : Settings) :
    s.zeroLimits =
      (Limit.sorted.filter fun l ↦ l.of s == 0).map fun l ↦ "limits." ++ l.key := by
  have hpairs : Limit.sorted.map (fun l ↦ ("limits." ++ l.key, l.of s)) =
      [("limits.max-archive-size", s.archiveLimits.maxArchiveSize.bytes),
        ("limits.max-body-chars", s.recordLimits.maxBodyChars),
        ("limits.max-console-records", s.recordLimits.maxConsoleRecords),
        ("limits.max-console-text-chars", s.recordLimits.maxTextChars),
        ("limits.max-entry-size", s.archiveLimits.maxEntrySize.bytes)] := rfl
  rw [zeroLimits, ← hpairs, List.filter_map, List.map_map]
  rfl

theorem mem_zeroLimits_iff {key : String} :
    key ∈ s.zeroLimits ↔ ∃ l : Limit, l.of s = 0 ∧ key = "limits." ++ l.key := by
  rw [zeroLimits_eq, List.mem_map]
  constructor
  · rintro ⟨l, hl, rfl⟩
    exact ⟨l, beq_iff_eq.mp (List.mem_filter.mp hl).2, rfl⟩
  · rintro ⟨l, hl, rfl⟩
    exact ⟨l, List.mem_filter.mpr ⟨l.mem_sorted, beq_iff_eq.mpr hl⟩, rfl⟩

/-- Zero limits are named in the order of their keys. -/
theorem zeroLimits_sorted (s : Settings) : s.zeroLimits.Pairwise (· < ·) := by
  have hkeys : (Limit.sorted.map fun l ↦ "limits." ++ l.key).Pairwise (· < ·) := by
    decide +kernel
  rw [zeroLimits_eq]
  exact hkeys.sublist (List.filter_sublist.map _)

theorem zeroLimits_eq_nil_iff_of : s.zeroLimits = [] ↔ ∀ l : Limit, l.of s ≠ 0 := by
  rw [zeroLimits_eq_nil_iff]
  constructor
  · rintro ⟨harchive, hbody, hconsole, htext, hentry⟩ l
    cases l with
    | consoleRecords => exact Nat.ne_of_gt hconsole
    | bodyChars => exact Nat.ne_of_gt hbody
    | textChars => exact Nat.ne_of_gt htext
    | entrySize => exact Nat.ne_of_gt hentry
    | archiveSize => exact Nat.ne_of_gt harchive
  · intro h
    exact ⟨Nat.pos_of_ne_zero (h .archiveSize), Nat.pos_of_ne_zero (h .bodyChars),
      Nat.pos_of_ne_zero (h .consoleRecords), Nat.pos_of_ne_zero (h .textChars),
      Nat.pos_of_ne_zero (h .entrySize)⟩

/-! ## Cutting the size of an entry -/

theorem Limited.one_le (h : s.Limited) (l : Limit) : 1 ≤ l.of s := by
  cases l with
  | consoleRecords => exact h.consoleRecords_pos
  | bodyChars => exact h.bodyChars_pos
  | textChars => exact h.textChars_pos
  | entrySize => exact h.entrySize_pos
  | archiveSize => exact h.archiveSize_pos

theorem Limit.of_entrySize (s : Settings) : entrySize.of s = s.archiveLimits.maxEntrySize.bytes :=
  rfl

theorem entrySize_cutEntrySize (s : Settings) :
    Limit.entrySize.of s.cutEntrySize.1 = min (Limit.entrySize.of s) (Nat.pow 2 30) := by
  have hlargest : largestEntrySize.bytes = Nat.pow 2 30 := rfl
  rw [Limit.of_entrySize, Limit.of_entrySize, ← hlargest]
  unfold cutEntrySize
  dsimp only
  split
  · next hlarge => rw [Nat.min_eq_right (Nat.le_of_lt hlarge)]
  · next hsmall => rw [Nat.min_eq_left (Nat.not_lt.mp hsmall)]

/-- Only the limit on the size of an entry is cut. -/
theorem of_cutEntrySize {l : Limit} (hl : l ≠ .entrySize) (s : Settings) :
    l.of s.cutEntrySize.1 = l.of s := by
  unfold cutEntrySize
  dsimp only
  split
  · cases l with
    | entrySize => contradiction
    | _ => rfl
  · rfl

theorem archiveContentType_cutEntrySize (s : Settings) :
    s.cutEntrySize.1.archiveContentType = s.archiveContentType := by
  unfold cutEntrySize
  dsimp only
  split
  · rfl
  · rfl

end BrowserTrace.Settings
