import BrowserTrace.Settings.Load

/-!
# Settings that were loaded

Whatever file settings are loaded from, none of their limits is zero, and the limit on the size of
an entry is at most the largest one (`Limited`).  Loading checks the limits before it cuts one of
them, so both facts are about the settings that come out (`load_limited`).
-/

namespace BrowserTrace.Settings

/-- No limit is zero, and none is above the largest size of an entry that is used. -/
structure Limited (s : Settings) : Prop where
  consoleRecords_pos : 0 < s.recordLimits.maxConsoleRecords
  bodyChars_pos : 0 < s.recordLimits.maxBodyChars
  textChars_pos : 0 < s.recordLimits.maxTextChars
  entrySize_pos : 0 < s.archiveLimits.maxEntrySize.bytes
  archiveSize_pos : 0 < s.archiveLimits.maxArchiveSize.bytes
  entrySize_le : s.archiveLimits.maxEntrySize.bytes ≤ largestEntrySize.bytes

variable {s : Settings}

theorem zeroLimits_eq_nil_iff :
    s.zeroLimits = [] ↔ 0 < s.archiveLimits.maxArchiveSize.bytes ∧
      0 < s.recordLimits.maxBodyChars ∧ 0 < s.recordLimits.maxConsoleRecords ∧
      0 < s.recordLimits.maxTextChars ∧ 0 < s.archiveLimits.maxEntrySize.bytes := by
  simp [zeroLimits, Nat.pos_iff_ne_zero]

/-- Cutting the size of an entry keeps every limit above zero. -/
theorem cutEntrySize_limited (h : s.zeroLimits = []) : s.cutEntrySize.1.Limited := by
  obtain ⟨harchive, hbody, hconsole, htext, hentry⟩ := zeroLimits_eq_nil_iff.mp h
  simp only [cutEntrySize]
  split
  · exact ⟨hconsole, hbody, htext, show 0 < largestEntrySize.bytes by decide, harchive,
      Nat.le_refl _⟩
  · next hle => exact ⟨hconsole, hbody, htext, hentry, harchive, Nat.le_of_not_lt hle⟩

theorem loadTable_limited {file : String} {incoming : List (String × Setting)}
    (h : (loadTable file incoming).result = .ok s) : s.Limited := by
  unfold loadTable at h
  split at h
  · contradiction
  · split at h
    · next hzero =>
      obtain rfl := Except.ok.inj h
      exact cutEntrySize_limited hzero
    · contradiction

/-- The limits of settings that were loaded are in order. -/
theorem load_limited {files : Files} {path : Option String}
    (h : (load files path).result = .ok s) : s.Limited := by
  unfold load at h
  split at h
  · exact loadTable_limited h
  · split at h
    · contradiction
    · exact loadTable_limited h

/-- The defaults are settings that can be loaded. -/
theorem load_none (files : Files) : (load files none).result = .ok {} := by
  have h : (loadTable defaultsName []).result.toOption = some {} := by decide +kernel
  change (loadTable defaultsName []).result = _
  generalize (loadTable defaultsName []).result = result at h ⊢
  cases result with
  | ok s => rw [Option.some.inj h]
  | error e => contradiction

end BrowserTrace.Settings
