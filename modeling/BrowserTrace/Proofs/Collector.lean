import BrowserTrace.Collector
import Mathlib.Algebra.Order.Ring.Nat

/-!
# What a collector holds

A collector is given archives to read, archives to pass over, and single events.  Everything it
holds apart from its notes is determined by what it was given: the network records of all events, as
many console records as the limit allows, and the counts.  `Collector.Tells limits c h` says that
`c` is in the state that the history `h` leads to; each operation extends the history
(`Tells.addEvent`, `Tells.addArchive`, `Tells.skipArchive`), so a run of operations is read off its
history.

Nothing that a collector has accepted is given up again: whatever it is given next, its lists only
grow at their ends (`call_extends`).  With what the histories tell, this is what can be said of the
lists and their counts after any run of calls (`run_keeps_records`).
-/

namespace BrowserTrace

namespace Collector

/-! ## Histories -/

/-- What a collector was given: the archives it read, the number of archives it passed over, and the
events it was given, each with its archive. -/
structure History where
  read : List Archive := []
  skipped : Nat := 0
  events : List (Archive × Event) := []

/-- The network records of events, each with the bodies from its own archive. -/
def networkOf (limits : RecordLimits) (events : List (Archive × Event)) : List NetworkRecord :=
  events.filterMap fun (a, e) ↦ e.networkRecord? a limits

/-- The console records of events, without any limit on their number. -/
def consoleOf (limits : RecordLimits) (events : List (Archive × Event)) : List ConsoleRecord :=
  events.filterMap fun (_, e) ↦ e.consoleRecord? limits

/-- The counts that a history leads to. -/
def History.stats (limits : RecordLimits) (h : History) : Stats where
  archivesRead := h.read.length
  archivesSkipped := h.skipped
  entriesSkipped := (h.read.map fun a ↦ a.scan.unreadable.length).sum
  eventsRecognized := h.events.length
  networkRecords := (networkOf limits h.events).length
  consoleRecords := ((consoleOf limits h.events).take limits.maxConsoleRecords).length
  consoleRecordsDropped := ((consoleOf limits h.events).drop limits.maxConsoleRecords).length

/-- The collector is in the state that the history leads to. -/
structure Tells (limits : RecordLimits) (c : Collector) (h : History) : Prop where
  limits_eq : c.limits = limits
  network_eq : c.network.toList = networkOf limits h.events
  console_eq : c.consoleMessages.toList = (consoleOf limits h.events).take limits.maxConsoleRecords
  stats_eq : c.stats = h.stats limits

variable {limits : RecordLimits} {c : Collector} {h : History}

theorem tells_empty (limits : RecordLimits) : Tells limits (.empty limits) {} where
  limits_eq := rfl
  network_eq := rfl
  console_eq := List.take_nil.symm
  stats_eq := by simp [empty, History.stats, networkOf, consoleOf]

/-! ## Notes -/

/-- Adding notes changes nothing but the notes. -/
theorem foldl_addNote_eq {α : Type} (f : α → Note) (xs : List α) (c : Collector) :
    ∃ notes, xs.foldl (fun c x ↦ c.addNote (f x)) c = { c with notes } := by
  induction xs generalizing c with
  | nil => exact ⟨c.notes, rfl⟩
  | cons x xs ih =>
    obtain ⟨notes, hn⟩ := ih (c.addNote (f x))
    exact ⟨notes, hn⟩

theorem notePayloads_eq (c : Collector) (a : Archive) (s : Snapshot) :
    ∃ notes, c.notePayloads a s = { c with notes } :=
  foldl_addNote_eq (fun p : Entry × EntryError ↦ .unreadablePayload p.1.name p.2) _ c

theorem Tells.addNote (ht : Tells limits c h) (n : Note) : Tells limits (c.addNote n) h :=
  ⟨ht.limits_eq, ht.network_eq, ht.console_eq, ht.stats_eq⟩

/-! ## One event -/

/-- Whether there is room for a further console record. -/
def hasRoom (c : Collector) : Prop := c.consoleMessages.size < c.limits.maxConsoleRecords

instance (c : Collector) : Decidable c.hasRoom := inferInstanceAs (Decidable (_ < _))

/-- What an event adds: its network record, and its console record if there is room. -/
structure Adds (c : Collector) (a : Archive) (e : Event) (c' : Collector) : Prop where
  limits_eq : c'.limits = c.limits
  network_eq : c'.network.toList = c.network.toList ++ (e.networkRecord? a c.limits).toList
  console_eq : c'.consoleMessages.toList =
    c.consoleMessages.toList ++ if c.hasRoom then (e.consoleRecord? c.limits).toList else []
  stats_eq : c'.stats = { c.stats with
    eventsRecognized := c.stats.eventsRecognized + 1
    networkRecords := c.stats.networkRecords + (e.networkRecord? a c.limits).toList.length
    consoleRecords := c.stats.consoleRecords +
      if c.hasRoom then (e.consoleRecord? c.limits).toList.length else 0
    consoleRecordsDropped := c.stats.consoleRecordsDropped +
      if c.hasRoom then 0 else (e.consoleRecord? c.limits).toList.length }

theorem addSnapshot_adds (c : Collector) (a : Archive) (s : Snapshot) :
    Adds c a (.snapshot s) (c.addEvent a (.snapshot s)) := by
  have hc : Event.consoleRecord? (.snapshot s) c.limits = none := rfl
  simp only [addEvent, addSnapshot]
  split
  · next record hr =>
    obtain ⟨notes, hn⟩ := notePayloads_eq
      { c with stats := { c.stats with eventsRecognized := c.stats.eventsRecognized + 1 } } a s
    rw [hn]
    have hr' : Event.networkRecord? (.snapshot s) a c.limits = some record := hr
    constructor <;> simp [hr', hc]
  · next hr =>
    have hr' : Event.networkRecord? (.snapshot s) a c.limits = none := hr
    constructor <;> simp [hr', hc]

theorem addConsole_adds {c : Collector} {e : Event} (a : Archive)
    (hn : e.networkRecord? a c.limits = none) (he : c.addEvent a e =
      match e.consoleRecord? c.limits with
      | some record => Collector.addConsole
          { c with stats := { c.stats with eventsRecognized := c.stats.eventsRecognized + 1 } }
          record
      | none =>
        { c with stats := { c.stats with eventsRecognized := c.stats.eventsRecognized + 1 } }) :
    Adds c a e (c.addEvent a e) := by
  rw [he]
  cases hr : e.consoleRecord? c.limits with
  | none => constructor <;> simp [hn, hr]
  | some record =>
    dsimp only [addConsole]
    by_cases hroom : c.hasRoom
    · rw [if_pos (show c.consoleMessages.size < c.limits.maxConsoleRecords from hroom)]
      constructor <;> simp [hn, hr, hroom]
    · rw [if_neg (show ¬ c.consoleMessages.size < c.limits.maxConsoleRecords from hroom)]
      constructor <;> simp [hn, hr, hroom]

theorem addEvent_adds (c : Collector) (a : Archive) (e : Event) : Adds c a e (c.addEvent a e) := by
  cases e with
  | snapshot s => exact addSnapshot_adds c a s
  | console messageType text => exact addConsole_adds a rfl rfl
  | pageError text => exact addConsole_adds a rfl rfl

/-! ## Histories grow -/

/-- At most one more element goes to the first `n` while there is room, and to the rest after
that. -/
theorem take_drop_append_toList {α : Type} (n : Nat) (xs : List α) (x? : Option α) :
    (xs ++ x?.toList).take n = xs.take n ++ (if xs.length < n then x?.toList else []) ∧
      (xs ++ x?.toList).drop n = xs.drop n ++ (if xs.length < n then [] else x?.toList) := by
  by_cases hn : xs.length < n
  · have hle : (xs ++ x?.toList).length ≤ n := by
      rw [List.length_append]
      cases x? with
      | none => exact Nat.le_of_lt hn
      | some x => exact hn
    rw [if_pos hn, if_pos hn]
    constructor
    · rw [List.take_of_length_le hle, List.take_of_length_le (Nat.le_of_lt hn)]
    · rw [List.drop_of_length_le hle, List.drop_of_length_le (Nat.le_of_lt hn), List.nil_append]
  · rw [if_neg hn, if_neg hn]
    rw [Nat.not_lt] at hn
    constructor
    · rw [List.take_append_of_le_length hn, List.append_nil]
    · rw [List.drop_append_of_le_length hn]

theorem filterMap_concat {α β : Type} (f : α → Option β) (xs : List α) (x : α) :
    (xs ++ [x]).filterMap f = xs.filterMap f ++ (f x).toList := by
  rw [List.filterMap_append]
  cases hf : f x with
  | none => rw [List.filterMap_cons_none hf]; rfl
  | some y => rw [List.filterMap_cons_some hf]; rfl

/-- There is room exactly while the history has fewer console records than the limit. -/
theorem Tells.hasRoom_iff (ht : Tells limits c h) :
    c.hasRoom ↔ (consoleOf limits h.events).length < limits.maxConsoleRecords := by
  have hsize : c.consoleMessages.size =
      min limits.maxConsoleRecords (consoleOf limits h.events).length := by
    rw [← Array.length_toList, ht.console_eq, List.length_take]
  rw [hasRoom, hsize, ht.limits_eq]
  omega

theorem Tells.addEvent (ht : Tells limits c h) (a : Archive) (e : Event) :
    Tells limits (c.addEvent a e) { h with events := h.events ++ [(a, e)] } := by
  have hadds := addEvent_adds c a e
  have hnetwork : networkOf limits (h.events ++ [(a, e)]) =
      networkOf limits h.events ++ (e.networkRecord? a limits).toList := filterMap_concat ..
  have hconsole : consoleOf limits (h.events ++ [(a, e)]) =
      consoleOf limits h.events ++ (e.consoleRecord? limits).toList := filterMap_concat ..
  obtain ⟨htake, hdrop⟩ := take_drop_append_toList limits.maxConsoleRecords
    (consoleOf limits h.events) (e.consoleRecord? limits)
  rw [← hconsole] at htake hdrop
  constructor
  · rw [hadds.limits_eq, ht.limits_eq]
  · rw [hadds.network_eq, ht.network_eq, ht.limits_eq, hnetwork]
  · rw [hadds.console_eq, ht.console_eq, ht.limits_eq, htake]
    simp only [ht.hasRoom_iff]
  · rw [hadds.stats_eq, ht.stats_eq, ht.limits_eq]
    simp only [History.stats, hnetwork, htake, hdrop, ht.hasRoom_iff, List.length_append,
      apply_ite List.length, List.length_nil, List.length_singleton]

/-- A run of events from one archive. -/
theorem Tells.addEvents (ht : Tells limits c h) (a : Archive) (events : List Event) :
    Tells limits (events.foldl (fun c e ↦ c.addEvent a e) c)
      { h with events := h.events ++ events.map (a, ·) } := by
  induction events generalizing c h with
  | nil =>
    rw [List.map_nil, List.append_nil]
    exact ht
  | cons e events ih =>
    have hrest := ih (ht.addEvent a e)
    rw [List.append_assoc] at hrest
    exact hrest

/-- An archive is read: its unreadable entries are counted, and all of its events follow. -/
theorem Tells.addArchive (ht : Tells limits c h) (a : Archive) :
    Tells limits (c.addArchive a)
      { h with read := h.read ++ [a], events := h.events ++ a.scan.events.map (a, ·) } := by
  obtain ⟨notes, hn⟩ := foldl_addNote_eq Note.unreadableEntry a.scan.unreadable c
  have hcounted : Tells limits
      { c with
        notes
        stats := { c.stats with
          archivesRead := c.stats.archivesRead + 1
          entriesSkipped := c.stats.entriesSkipped + a.scan.unreadable.length } }
      { h with read := h.read ++ [a] } := by
    refine ⟨ht.limits_eq, ht.network_eq, ht.console_eq, ?_⟩
    simp [ht.stats_eq, History.stats]
  have hevents := hcounted.addEvents a a.scan.events
  simp only [Collector.addArchive, hn]
  exact hevents

/-- An archive is passed over. -/
theorem Tells.skipArchive (ht : Tells limits c h) (n : Note) :
    Tells limits (c.skipArchive n) { h with skipped := h.skipped + 1 } := by
  refine ⟨ht.limits_eq, ht.network_eq, ht.console_eq, ?_⟩
  have hs : (c.addNote n).stats = h.stats limits := ht.stats_eq
  simp only [Collector.skipArchive, hs]
  rfl

/-- The notes at the end change nothing else. -/
theorem Tells.finish (ht : Tells limits c h) : Tells limits c.finish h := by
  unfold Collector.finish
  split
  · exact ht.addNote _
  · exact (ht.addNote _).addNote _

/-! ## Lists that grow at their ends -/

/-- What the first collector holds comes first in the lists of the second one. -/
structure Extends (c c' : Collector) : Prop where
  network : c.network.toList <+: c'.network.toList
  console : c.consoleMessages.toList <+: c'.consoleMessages.toList

theorem Extends.refl (c : Collector) : c.Extends c := ⟨List.prefix_refl _, List.prefix_refl _⟩

theorem Extends.trans {c₁ c₂ c₃ : Collector} (h : c₁.Extends c₂) (h' : c₂.Extends c₃) :
    c₁.Extends c₃ :=
  ⟨h.network.trans h'.network, h.console.trans h'.console⟩

theorem addEvent_extends (c : Collector) (a : Archive) (e : Event) : c.Extends (c.addEvent a e) := by
  have hadds := addEvent_adds c a e
  constructor
  · rw [hadds.network_eq]
    exact List.prefix_append _ _
  · rw [hadds.console_eq]
    exact List.prefix_append _ _

theorem addEvents_extends (c : Collector) (a : Archive) (events : List Event) :
    c.Extends (events.foldl (fun c e ↦ c.addEvent a e) c) := by
  induction events generalizing c with
  | nil => exact .refl c
  | cons e events ih => exact (addEvent_extends c a e).trans (ih _)

theorem addArchive_extends (c : Collector) (a : Archive) : c.Extends (c.addArchive a) := by
  obtain ⟨notes, hn⟩ := foldl_addNote_eq Note.unreadableEntry a.scan.unreadable c
  simp only [addArchive, hn]
  -- Counting the archive leaves both lists as they are, and its events come behind them.
  refine Extends.trans ?_ (addEvents_extends _ a a.scan.events)
  exact ⟨List.prefix_refl _, List.prefix_refl _⟩

/-! ## Runs of calls -/

/-- A call on a collector: it is given an archive, or a single event with the archive that the event
was read from. -/
inductive Call where
  | archive (a : Archive)
  | event (a : Archive) (e : Event)

namespace Call

/-- The archives that are read in a call. -/
def read : Call → List Archive
  | archive a => [a]
  | event .. => []

/-- The events that a call gives to the collector, each with its archive. -/
def events : Call → List (Archive × Event)
  | archive a => a.scan.events.map (a, ·)
  | event a e => [(a, e)]

end Call

/-- What a call does. -/
def call (c : Collector) : Call → Collector
  | .archive a => c.addArchive a
  | .event a e => c.addEvent a e

/-- A collector that was empty before a run of calls. -/
def run (limits : RecordLimits) (calls : List Call) : Collector := calls.foldl call (.empty limits)

/-- A call never takes away, replaces or moves what was accepted before. -/
theorem call_extends (c : Collector) (k : Call) : c.Extends (c.call k) := by
  cases k with
  | archive a => exact addArchive_extends c a
  | event a e => exact addEvent_extends c a e

theorem Tells.call (ht : Tells limits c h) (k : Call) :
    Tells limits (c.call k) { h with read := h.read ++ k.read, events := h.events ++ k.events } := by
  cases k with
  | archive a => exact ht.addArchive a
  | event a e =>
    rw [Call.read, List.append_nil]
    exact ht.addEvent a e

theorem Tells.calls (ht : Tells limits c h) (calls : List Call) :
    Tells limits (calls.foldl Collector.call c)
      { h with
        read := h.read ++ calls.flatMap Call.read
        events := h.events ++ calls.flatMap Call.events } := by
  induction calls generalizing c h with
  | nil =>
    rw [List.flatMap_nil, List.flatMap_nil, List.append_nil, List.append_nil]
    exact ht
  | cons k calls ih =>
    rw [List.flatMap_cons, List.flatMap_cons, ← List.append_assoc, ← List.append_assoc]
    exact ih (ht.call k)

/-- A run leads to the history of its calls. -/
theorem tells_run (limits : RecordLimits) (calls : List Call) :
    Tells limits (run limits calls)
      { read := calls.flatMap Call.read, events := calls.flatMap Call.events } :=
  (tells_empty limits).calls calls

/-- Console records are dropped only where as many are kept as the limit allows. -/
theorem Tells.size_of_dropped (ht : Tells limits c h) (hdropped : 0 < c.stats.consoleRecordsDropped) :
    c.consoleMessages.size = limits.maxConsoleRecords := by
  rw [ht.stats_eq, History.stats, List.length_drop] at hdropped
  rw [← Array.length_toList, ht.console_eq, List.length_take]
  exact Nat.min_eq_left (Nat.le_of_lt (Nat.lt_of_sub_pos hdropped))

/-- **What holds of a collector at any time.**  After any run of calls, in whatever order, the next
call only extends the lists at their ends; the console records stay within their limit; the counts of
records are the lengths of the lists; console records are dropped only at the limit; and those that
are kept and those that are dropped are together as many as all events of the run have given. -/
theorem run_keeps_records (limits : RecordLimits) (calls : List Call) :
    let c := run limits calls
    let given := (calls.flatMap Call.events).filterMap fun (_, e) ↦ e.consoleRecord? limits
    (∀ k, c.Extends (c.call k)) ∧
      c.consoleMessages.size ≤ limits.maxConsoleRecords ∧
      c.stats.networkRecords = c.network.size ∧
      c.stats.consoleRecords = c.consoleMessages.size ∧
      (0 < c.stats.consoleRecordsDropped → c.consoleMessages.size = limits.maxConsoleRecords) ∧
      c.stats.consoleRecords + c.stats.consoleRecordsDropped = given.length := by
  intro c given
  have htells : Tells limits c _ := tells_run limits calls
  have hnetwork : c.stats.networkRecords = c.network.size := by
    rw [htells.stats_eq, ← Array.length_toList, htells.network_eq]
    rfl
  have hconsole : c.stats.consoleRecords = c.consoleMessages.size := by
    rw [htells.stats_eq, ← Array.length_toList, htells.console_eq]
    rfl
  have hlimit : c.consoleMessages.size ≤ limits.maxConsoleRecords := by
    rw [← Array.length_toList, htells.console_eq]
    exact List.length_take_le _ _
  have hsum : c.stats.consoleRecords + c.stats.consoleRecordsDropped = given.length := by
    rw [htells.stats_eq]
    change (given.take _).length + (given.drop _).length = given.length
    rw [← List.length_append, List.take_append_drop]
  exact ⟨c.call_extends, hlimit, hnetwork, hconsole, htells.size_of_dropped, hsum⟩

/-- Three console records for a collector with room for one of them, and an archive without entries
between them. -/
def Sample.calls : List Call :=
  let a : Archive := ⟨.empty, [], {}⟩
  [.event a (.console "error" (some "first")), .archive a,
    .event a (.pageError (some "second")), .event a (.console "warning" (some "third"))]

theorem run_keeps_records_full :
    0 < (run { maxConsoleRecords := 1 } Sample.calls).stats.consoleRecordsDropped ∧
      (run { maxConsoleRecords := 1 } Sample.calls).consoleMessages.size = 1 := by
  have hdropped : 0 < (run { maxConsoleRecords := 1 } Sample.calls).stats.consoleRecordsDropped := by
    decide
  obtain ⟨-, -, -, -, hfull, -⟩ := run_keeps_records { maxConsoleRecords := 1 } Sample.calls
  exact ⟨hdropped, hfull hdropped⟩

end Collector

end BrowserTrace
