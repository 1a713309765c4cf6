import BrowserTrace.Event
import BrowserTrace.Proofs.Text.Lines
import Mathlib.Data.List.Basic

/-!
# Lines of events are independent

An entry is decoded as a whole and only then cut into lines, so a bad byte or a bad line could
reach beyond its own line.  It does not: the events of two runs of bytes with a line feed between
them are the events of the first and then those of the second, whatever stands in either
(`ofBytes_append_newline`).  From that, line by line, carriage returns before the line feeds make no
difference.
-/

namespace BrowserTrace

/-! ## The contents of an entry -/

namespace Event

/-- The events of an entry with these contents. -/
def ofContents (x : ByteArray) : List Event := ofText (Text.ofContents x).toList

/-! ## Lines of a text -/

theorem ofText_append_newline (cs ds : List Char) :
    ofText (cs ++ '\n' :: ds) = ofText cs ++ ofText ds := by
  rw [ofText, Text.lines_append_newline, List.filterMap_append]
  rfl

/-- A blank at the end of the last line does not count. -/
theorem ofText_concat_blank {c : Char} (hc : Text.isBlank c) (hne : c ≠ '\n') (cs : List Char) :
    ofText (cs ++ [c]) = ofText cs := by
  obtain ⟨ls, l, hl, hlc⟩ := Text.lines_concat hne cs
  rw [ofText, ofText, hl, hlc, List.filterMap_append, List.filterMap_append]
  congr 1
  simp only [List.filterMap_cons, List.filterMap_nil, Text.trim_concat_blank hc]

/-! ## Lines of bytes -/

/-- The events of some bytes, decoded as a whole. -/
def ofBytes (xs : List UInt8) : List Event := ofText (Text.Utf8.chars .start xs)

theorem ofContents_eq (x : ByteArray) : ofContents x = ofBytes x.data.toList := by
  rw [ofContents, Text.ofContents_eq, Text.toList_decodeLossy, ofBytes]

theorem ofBytes_append_newline (xs ys : List UInt8) :
    ofBytes (xs ++ 0x0A :: ys) = ofBytes xs ++ ofBytes ys := by
  rw [ofBytes, Text.Utf8.chars_append_ascii (by decide)]
  exact ofText_append_newline _ _

/-- A carriage return at the end of the last line does not count. -/
theorem ofBytes_concat_return (xs : List UInt8) : ofBytes (xs ++ [0x0D]) = ofBytes xs := by
  rw [ofBytes, Text.Utf8.chars_append_ascii (by decide)]
  exact ofText_concat_blank (by decide) (by decide) _

/-- The bytes with a carriage return before every line feed. -/
def withReturns (xs : List UInt8) : List UInt8 :=
  xs.flatMap fun b ↦ if b = 0x0A then [0x0D, 0x0A] else [b]

theorem withReturns_of_notMem {xs : List UInt8} (h : 0x0A ∉ xs) : withReturns xs = xs := by
  have hplain : withReturns xs = xs.flatMap fun b ↦ [b] :=
    List.flatMap_congr fun b hb ↦ if_neg fun heq : b = 0x0A ↦ h (heq ▸ hb)
  rw [hplain, List.flatMap_singleton']

/-- Carriage returns before the line feeds make no difference.  The induction goes from line to
line: the first line has no line feed in it, so all that changes in it is its end. -/
theorem ofBytes_withReturns (xs : List UInt8) : ofBytes (withReturns xs) = ofBytes xs := by
  by_cases h : 0x0A ∈ xs
  · obtain ⟨line, rest, hxs, hline⟩ := List.eq_append_cons_of_mem h
    have hsplit : withReturns xs = (line ++ [0x0D]) ++ 0x0A :: withReturns rest := by
      rw [hxs, withReturns, List.flatMap_append, List.flatMap_cons, if_pos rfl, ← withReturns,
        ← withReturns, withReturns_of_notMem hline, List.append_assoc]
      rfl
    have hshorter : rest.length < xs.length := by
      rw [hxs, List.length_append, List.length_cons]
      omega
    rw [hsplit, ofBytes_append_newline, ofBytes_concat_return, ofBytes_withReturns rest, hxs,
      ofBytes_append_newline]
  · rw [withReturns_of_notMem h]
termination_by xs.length

end Event

/-! ## Entries -/

/-- The contents of a text are the text. -/
theorem Event.ofContents_toByteArray (s : String) :
    ofContents s.toByteArray = ofText s.toList := by
  rw [ofContents, Text.ofContents_eq, Text.decodeLossy_toByteArray]

/-- The events of an entry that can be read are those of its contents. -/
theorem Archive.eventsOf_eq (a : Archive) (e : Entry) :
    a.eventsOf e = (a.read e).map Event.ofContents := by
  rw [eventsOf, readText]
  cases a.read e with
  | error error => rfl
  | ok x => simp only [Except.map, Event.ofContents, Text.ofContents_eq]

/-- **One bad line or byte never reaches another line.**  The events of an entry that can be read
are those of its contents.  Contents that are UTF-8 are taken as they are.  The events of contents
with a line feed in them are those of what stands before it and then those of what stands behind it,
and line feeds with carriage returns before them are as good as without. -/
theorem events_of_contents_line_by_line :
    (∀ (a : Archive) (e : Entry), a.eventsOf e = (a.read e).map Event.ofContents) ∧
      (∀ s : String, Event.ofContents s.toByteArray = Event.ofText s.toList) ∧
      (∀ x y : ByteArray, Event.ofContents (x ++ [0x0A].toByteArray ++ y) =
        Event.ofContents x ++ Event.ofContents y) ∧
      ∀ x : ByteArray, Event.ofContents (Event.withReturns x.data.toList).toByteArray =
        Event.ofContents x := by
  refine ⟨Archive.eventsOf_eq, Event.ofContents_toByteArray, fun x y ↦ ?_, fun x ↦ ?_⟩
  · rw [Event.ofContents_eq, Event.ofContents_eq, Event.ofContents_eq,
      ← Event.ofBytes_append_newline, ByteArray.toList_data_append, ByteArray.toList_data_append,
      List.append_assoc]
    rfl
  · rw [Event.ofContents_eq, Event.ofContents_eq, List.data_toByteArray]
    exact Event.ofBytes_withReturns x.data.toList

end BrowserTrace
