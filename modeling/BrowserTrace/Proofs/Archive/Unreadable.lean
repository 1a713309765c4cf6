import BrowserTrace.Proofs.Archive.Contents
import BrowserTrace.Proofs.Extraction
import BrowserTrace.Proofs.Lookup

/-!
# Entries that cannot be read

A member cannot be read for six reasons (`Member.Unreadable`), whatever stands around it.  This file
compares an archive with such a member to the archive without it (`Archive.OneMoreUnreadable`), or
with the member as it was (`Archive.LosesBodies`).  Everything an archive says is a function of its
contents, so it is two lists of contents that are compared, which differ in one place.
-/

namespace BrowserTrace

/-! ## Members that cannot be read -/

namespace Member

variable {limits : ArchiveLimits} {m : Member}

/-- Why a member cannot be read. -/
inductive Unreadable (limits : ArchiveLimits) (m : Member) : Prop
  /-- The flag of encrypted data is set. -/
  | encrypted (h : m.flags.toNat % 2 = 1)
  /-- The method is neither that of stored nor that of deflated data. -/
  | unsupported (h₀ : m.method ≠ 0) (h₈ : m.method ≠ 8)
  /-- The declared size is above the limit. -/
  | tooLarge (h : limits.maxEntrySize.bytes < m.uncompressedSize.toNat)
  /-- Stored data have another size than the declared one. -/
  | storedSize (hm : m.method = 0) (h : m.data.size ≠ m.uncompressedSize.toNat)
  /-- What the data decode to has another size than the declared one. -/
  | wrongLength (hm : m.method = 8) {x : ByteArray} (hx : Deflate.Decodes m.data x)
      (h : x.size ≠ m.uncompressedSize.toNat)
  /-- The data do not begin with a complete stream. -/
  | corrupt (hm : m.method = 8) (h : ∀ x, ¬ Deflate.Decodes m.data x)

/-- A member cannot be read for one of these reasons, and for no other. -/
theorem unreadable_iff (hdata : m.data.size < 0xFFFFFFFF) :
    m.Unreadable limits ↔ ∀ x, m.read limits ≠ .ok x := by
  constructor
  · intro hu x hx
    obtain ⟨hplain, hlimit, hc⟩ := (read_eq_ok_iff hdata).mp hx
    cases hu with
    | encrypted h => exact hplain h
    | unsupported h₀ h₈ => exact hc.elim (fun h ↦ h₀ h.1) fun h ↦ h₈ h.1
    | tooLarge h => exact Nat.not_le.mpr h hlimit
    | storedSize hm h =>
      obtain ⟨-, hs, -⟩ | ⟨hm', -, -⟩ := hc
      · exact h hs
      · exact absurd (hm.symm.trans hm') (by decide)
    | wrongLength hm hy h =>
      obtain ⟨hm', -, -⟩ | ⟨-, hd, hs⟩ := hc
      · exact absurd (hm.symm.trans hm') (by decide)
      · exact h (hy.unique hd ▸ hs)
    | corrupt hm h =>
      obtain ⟨hm', -, -⟩ | ⟨-, hd, -⟩ := hc
      · exact absurd (hm.symm.trans hm') (by decide)
      · exact h x hd
  · intro hread
    by_cases hplain : m.flags.toNat % 2 = 1
    case pos => exact .encrypted hplain
    by_cases hlimit : m.uncompressedSize.toNat ≤ limits.maxEntrySize.bytes
    case neg => exact .tooLarge (Nat.not_le.mp hlimit)
    by_cases h₀ : m.method = 0
    case pos =>
      refine .storedSize h₀ fun hs ↦ hread m.data ?_
      exact (read_eq_ok_iff hdata).mpr ⟨hplain, hlimit, .inl ⟨h₀, hs, rfl⟩⟩
    by_cases h₈ : m.method = 8
    case neg => exact .unsupported h₀ h₈
    by_cases hd : ∃ x, Deflate.Decodes m.data x
    case neg => exact .corrupt h₈ (not_exists.mp hd)
    obtain ⟨x, hx⟩ := hd
    refine .wrongLength h₈ hx fun hs ↦ hread x ?_
    exact (read_eq_ok_iff hdata).mpr ⟨hplain, hlimit, .inr ⟨h₈, hx, hs⟩⟩

/-- Reading the member fails, in whatever archive it stands. -/
theorem exists_read_eq_error (hdata : m.data.size < 0xFFFFFFFF)
    (h : m.Unreadable limits) : ∃ error, m.read limits = .error error := by
  cases hr : m.read limits with
  | ok x => exact absurd hr ((unreadable_iff hdata).mp h x)
  | error error => exact ⟨error, rfl⟩

end Member

/-! ## Archives that lost an entry -/

namespace Snapshot

/-- A record of a snapshot without the bodies that stood in the entry of this name. -/
def withoutBodies (s : Snapshot) (name : String) (r : NetworkRecord) : NetworkRecord :=
  { r with
    requestBody :=
      if s.postData.bind PayloadRef.target? = some name then none else r.requestBody
    responseBody :=
      if (s.response.bind Response.content).bind PayloadRef.target? = some name then none
      else r.responseBody }

end Snapshot

namespace Archive

variable {a a' : Archive}

/-- The second archive gives what the first one gives, and has one unreadable entry more. -/
structure OneMoreUnreadable (a a' : Archive) : Prop where
  events_eq : a'.scan.events = a.scan.events
  unreadable_eq : a'.scan.unreadable.length = a.scan.unreadable.length + 1
  record_eq : ∀ s limits, Snapshot.record? s a' limits = s.record? a limits

/-- The second archive gives what the first one gives, apart from the bodies that stood in the entry
of this name. -/
structure LosesBodies (name : String) (a a' : Archive) : Prop where
  scan_eq : a'.scan = a.scan
  record_eq : ∀ s limits,
    Snapshot.record? s a' limits = (s.record? a limits).map (s.withoutBodies name)

/-- The network records of the events of an archive, without the bodies that stood in the entry of
this name. -/
def networkWithout (a : Archive) (name : String) (limits : RecordLimits) : List NetworkRecord :=
  a.recognized.filterMap fun
    | .snapshot s => (s.record? a limits).map (s.withoutBodies name)
    | .console .. | .pageError _ => none

/-- Two archives with the same events give the same network records, up to what is made of each
snapshot. -/
theorem network_eq_filterMap {limits : RecordLimits} {g : Snapshot → Option NetworkRecord}
    (hevents : a'.recognized = a.recognized) (hrecord : ∀ s, Snapshot.record? s a' limits = g s) :
    a'.network limits = a.recognized.filterMap fun
      | .snapshot s => g s
      | .console .. | .pageError _ => none := by
  rw [network, hevents]
  refine List.filterMap_congr fun e _ ↦ ?_
  cases e with
  | snapshot s => exact hrecord s
  | console => rfl
  | pageError => rfl

theorem OneMoreUnreadable.recognized_eq (h : OneMoreUnreadable a a') :
    a'.recognized = a.recognized := by
  rw [← scan_events, ← scan_events, h.events_eq]

theorem OneMoreUnreadable.network_eq (h : OneMoreUnreadable a a') (limits : RecordLimits) :
    a'.network limits = a.network limits :=
  (network_eq_filterMap h.recognized_eq fun s ↦ h.record_eq s limits).trans
    (network_eq_filterMap rfl fun _ ↦ rfl).symm

theorem LosesBodies.recognized_eq {name : String} (h : LosesBodies name a a') :
    a'.recognized = a.recognized := by
  rw [← scan_events, ← scan_events, h.scan_eq]

theorem LosesBodies.network_eq {name : String} (h : LosesBodies name a a')
    (limits : RecordLimits) : a'.network limits = a.networkWithout name limits :=
  network_eq_filterMap h.recognized_eq fun s ↦ h.record_eq s limits

theorem length_networkWithout (a : Archive) (name : String) (limits : RecordLimits) :
    (a.networkWithout name limits).length = (a.network limits).length := by
  rw [networkWithout, network, List.length_filterMap_eq_countP, List.length_filterMap_eq_countP]
  congr 1
  funext e
  cases e with
  | snapshot s => exact Option.isSome_map
  | console => rfl
  | pageError => rfl

/-! ## Contents that differ in one place -/

section Contents

variable {xs ys : List (String × Except EntryError ByteArray)} {name : String}
  {r : Except EntryError ByteArray} {error : EntryError}

theorem oneMoreUnreadable_of_contents (hn : namesEvents name) (ha : a.contents = xs ++ ys)
    (ha' : a'.contents = xs ++ (name, .error error) :: ys) : OneMoreUnreadable a a' := by
  constructor
  · rw [scan_events_eq_flatMap, scan_events_eq_flatMap, ha, ha', List.flatMap_append,
      List.flatMap_append, List.flatMap_cons, eventsIn_error, List.nil_append]
  · rw [scan_unreadable_eq_filterMap, scan_unreadable_eq_filterMap, ha, ha',
      List.filterMap_append, List.filterMap_append,
      List.filterMap_cons_some (faultIn?_error hn error), List.length_append, List.length_append,
      List.length_cons, Nat.add_assoc]
  · intro s limits
    refine Snapshot.record?_congr fun ref ↦ ?_
    rw [payload?_eq_bind, payload?_eq_bind, ha, ha']
    refine Option.bind_congr fun target htarget ↦ ?_
    have hne : target ≠ name := by
      rintro rfl
      exact not_namesEvents_of_target? htarget hn
    rw [Lookup.lookup_append_cons_of_ne hne]

/-- A body is lost exactly when it stood in the entry that cannot be read any more. -/
theorem payload?_of_contents (hxs : ∀ c ∈ xs, c.1 ≠ name)
    (ha : a.contents = xs ++ (name, r) :: ys) (ha' : a'.contents = xs ++ (name, .error error) :: ys)
    (ref : PayloadRef) (max : Nat) :
    a'.payload? ref max = if ref.target? = some name then none else a.payload? ref max := by
  rw [payload?_eq_bind, payload?_eq_bind, ha, ha']
  cases ref.target? with
  | none => rfl
  | some target =>
    rw [Option.bind_some, Option.bind_some]
    by_cases ht : target = name
    · rw [ht, Lookup.lookup_append_cons_self hxs, if_pos rfl]
      rfl
    · rw [if_neg (ht ∘ Option.some.inj), Lookup.lookup_append_cons_of_ne ht,
        Lookup.lookup_append_cons_of_ne ht]

theorem losesBodies_of_contents (hn : ¬ namesEvents name) (hxs : ∀ c ∈ xs, c.1 ≠ name)
    (ha : a.contents = xs ++ (name, r) :: ys)
    (ha' : a'.contents = xs ++ (name, .error error) :: ys) : LosesBodies name a a' := by
  constructor
  · have hevents : a'.scan.events = a.scan.events := by
      rw [scan_events_eq_flatMap, scan_events_eq_flatMap, ha, ha', List.flatMap_append,
        List.flatMap_append, List.flatMap_cons, List.flatMap_cons, eventsIn_of_not hn,
        eventsIn_of_not hn]
    have hunreadable : a'.scan.unreadable = a.scan.unreadable := by
      rw [scan_unreadable_eq_filterMap, scan_unreadable_eq_filterMap, ha, ha',
        List.filterMap_append, List.filterMap_append,
        List.filterMap_cons_none (faultIn?_of_not hn _),
        List.filterMap_cons_none (faultIn?_of_not hn _)]
    exact congrArg₂ Scan.mk hevents hunreadable
  · intro s limits
    have hbody (ref? : Option PayloadRef) : ref?.bind (a'.payload? · limits.maxBodyChars) =
        if ref?.bind PayloadRef.target? = some name then none
        else ref?.bind (a.payload? · limits.maxBodyChars) := by
      cases ref? with
      | none => rfl
      | some ref => exact payload?_of_contents hxs ha ha' ref limits.maxBodyChars
    rw [Snapshot.record?_eq_map s a a' limits]
    refine Option.map_congr fun record hrecord ↦ ?_
    obtain ⟨-, -, hrequest, hresponse⟩ := Snapshot.record?_eq_some hrecord
    rw [Snapshot.withoutBodies, hbody, hbody, hrequest, hresponse]

end Contents

end Archive

/-! ## A member that cannot be read -/

section Members

variable {members : List Member} {i : Nat} {bad : Member} {limits : ArchiveLimits}

/-- The contents with a member replaced by one that cannot be read. -/
theorem exists_contents_set (hi : i < members.length)
    (hbad : Representable (members.set i bad) ByteArray.empty)
    (hunreadable : bad.Unreadable limits) :
    ∃ a error, Archive.ofBytes (writeArchive (members.set i bad) ByteArray.empty) limits = .ok a ∧
      a.contents = (members.take i).map (Member.content limits) ++
        (bad.name, .error error) :: (members.drop (i + 1)).map (Member.content limits) := by
  obtain ⟨error, herror⟩ :=
    Member.exists_read_eq_error (hbad.data_lt (List.mem_set hi bad)) hunreadable
  obtain ⟨a, ha, hc⟩ := exists_contents_writeArchive hbad limits
  refine ⟨a, error, ha, ?_⟩
  rw [hc, List.set_eq_take_append_cons_drop, if_pos hi, List.map_append, List.map_cons,
    Member.content, herror]

/-- The contents with a member left out. -/
theorem exists_contents_eraseIdx (h : Representable members ByteArray.empty)
    (limits : ArchiveLimits) :
    ∃ a, Archive.ofBytes (writeArchive (members.eraseIdx i) ByteArray.empty) limits = .ok a ∧
      a.contents = (members.take i).map (Member.content limits) ++
        (members.drop (i + 1)).map (Member.content limits) := by
  obtain ⟨a, ha, hc⟩ := exists_contents_writeArchive (h.sublist (List.eraseIdx_sublist _ i)) limits
  refine ⟨a, ha, ?_⟩
  rw [hc, List.eraseIdx_eq_take_drop_succ, List.map_append]

/-- The contents with every member as it is. -/
theorem exists_contents_getElem (hi : i < members.length)
    (h : Representable members ByteArray.empty) (limits : ArchiveLimits) :
    ∃ a, Archive.ofBytes (writeArchive members ByteArray.empty) limits = .ok a ∧
      a.contents = (members.take i).map (Member.content limits) ++
        (members[i].name, members[i].read limits) ::
          (members.drop (i + 1)).map (Member.content limits) := by
  obtain ⟨a, ha, hc⟩ := exists_contents_writeArchive h limits
  refine ⟨a, ha, ?_⟩
  conv_lhs => rw [hc, ← take_append_getElem_cons_drop hi]
  rw [List.map_append, List.map_cons, Member.content]

end Members

end BrowserTrace
