import BrowserTrace.Proofs.Event.Fields
import BrowserTrace.Proofs.Number.Value
import BrowserTrace.Proofs.Record

/-!
# Statuses

A status is an integer of 64 bits with a sign, read from a JSON number of any form.  The number is
taken at its exact value (`Json.value?`), and the status is that value if it is such an integer
(`Json.Is`).  There is one exception: the greatest such integer is read for the numbers that lie just
above it (`Json.JustAbove`), because the bound is checked in double precision, where it is `2 ^ 63`.

The case of a floating-point number is that of its integer value; an unsigned integer beyond the
signed ones is first rounded, to a multiple of 2048.
-/

namespace BrowserTrace

open Number (Binary64 maxWord leastNormal roundDiv)

namespace Json

/-! ## The value of a number -/

/-- The rational number that a JSON number is. -/
def Numeral.value : Numeral → ℚ
  | .integer i => i
  | .float x => x.value

/-- The rational number that a JSON value is. -/
def value? : Json → Option ℚ
  | .number n => some n.value
  | _ => none

/-- An integer has at most 64 bits, with a sign or without one. -/
def InRange (v : Json) : Prop :=
  ∀ i, v = .number (.integer i) → minInt64 ≤ i ∧ i ≤ (maxWord : Int)

/-- The value is a number, and it is the integer `k` of 64 bits with a sign. -/
def Is (v : Json) (k : Int) : Prop :=
  v.value? = some (k : ℚ) ∧ minInt64 ≤ k ∧ k ≤ maxInt64

/-- The value is a number that is too large for 64 bits with a sign, by at most 1025. -/
def JustAbove (v : Json) : Prop :=
  ∃ q, v.value? = some q ∧ 2 ^ 63 ≤ q ∧ q ≤ 2 ^ 63 + 1024

/-- The value is taken for the integer `k`: it is `k`, or it is just above the greatest integer and
`k` is that one. -/
def TakenFor (v : Json) (k : Int) : Prop := v.Is k ∨ v.JustAbove ∧ k = maxInt64

theorem JustAbove.not_is {v : Json} {k : Int} (h : v.JustAbove) : ¬ v.Is k := by
  rintro ⟨hvalue, -, hmax⟩
  obtain ⟨q, hq, hlow, -⟩ := h
  obtain rfl := Option.some.inj (hvalue.symm.trans hq)
  have hk : 2 ^ 63 ≤ k := by exact_mod_cast hlow
  unfold maxInt64 at hmax
  omega

/-- A value that is no number is taken for none. -/
theorem not_takenFor_of_value? {v : Json} {k : Int} (h : v.value? = none) : ¬ v.TakenFor k := by
  rintro (⟨hvalue, -⟩ | ⟨⟨q, hvalue, -⟩, -⟩)
  · rw [h] at hvalue
    contradiction
  · rw [h] at hvalue
    contradiction

end Json

open Json (minInt64 maxInt64)

/-! ## Reading a number -/

section Reading

variable {n : Json.Numeral} {k : Int}

theorem takenFor_number_iff :
    (Json.number n).TakenFor k ↔ (n.value = k ∧ minInt64 ≤ k ∧ k ≤ maxInt64) ∨
      (2 ^ 63 ≤ n.value ∧ n.value ≤ 2 ^ 63 + 1024 ∧ k = maxInt64) := by
  constructor
  · rintro (⟨hvalue, hrange⟩ | ⟨⟨q, hq, hlow, hhigh⟩, hk⟩)
    · exact .inl ⟨Option.some.inj hvalue, hrange⟩
    · obtain rfl := Option.some.inj hq
      exact .inr ⟨hlow, hhigh, hk⟩
  · rintro (⟨hvalue, hrange⟩ | ⟨hlow, hhigh, hk⟩)
    · exact .inl ⟨congrArg some hvalue, hrange⟩
    · exact .inr ⟨⟨n.value, rfl, hlow, hhigh⟩, hk⟩

/-- A floating-point status is its integer value, and `2 ^ 63` is brought down by one. -/
theorem statusOf?_float_iff {x : Binary64} :
    statusOf? (.float x) = some k ↔
      ∃ i : Int, x.value = i ∧ minInt64 ≤ i ∧ i ≤ maxInt64 + 1 ∧ min i maxInt64 = k := by
  simp only [statusOf?, Json.Numeral.toBinary64?, Option.bind_eq_bind, Option.bind_some,
    Option.bind_eq_some_iff, Number.Binary64.toInt?_eq_some_iff]
  constructor
  · rintro ⟨i, hi, h⟩
    split at h
    · next hrange => exact ⟨i, hi, hrange.1, hrange.2, Option.some.inj h⟩
    · contradiction
  · rintro ⟨i, hi, hmin, hmax, rfl⟩
    exact ⟨i, hi, if_pos ⟨hmin, hmax⟩⟩

theorem statusOf?_float_takenFor {x : Binary64} :
    statusOf? (.float x) = some k ↔ (Json.number (.float x)).TakenFor k := by
  rw [statusOf?_float_iff, takenFor_number_iff]
  change _ ↔ (x.value = k ∧ _) ∨ (_ ≤ x.value ∧ x.value ≤ _ ∧ _)
  constructor
  · rintro ⟨i, hi, hmin, hmax, rfl⟩
    rcases le_or_gt i maxInt64 with hle | hgt
    · rw [min_eq_left hle]
      exact .inl ⟨hi, hmin, hle⟩
    · have htop : i = 2 ^ 63 := by
        unfold maxInt64 at hgt hmax
        omega
      rw [min_eq_right hgt.le, hi, htop]
      refine .inr ⟨?_, ?_, rfl⟩
      · norm_num
      · norm_num
  · rintro (⟨hk, hmin, hmax⟩ | ⟨hmin, hmax, rfl⟩)
    · exact ⟨k, hk, hmin, by omega, min_eq_left hmax⟩
    · refine ⟨2 ^ 63, ?_, by decide, by decide, by decide⟩
      rw [Number.Binary64.value_eq_of_near hmin hmax]
      norm_num

theorem ofInt?_natCast (n : Nat) : Binary64.ofInt? n = Binary64.ofNat? n := by
  have hsign : decide ((n : Int) < 0) = false := decide_eq_false (Int.natCast_nonneg n).not_gt
  rw [Binary64.ofInt?, Binary64.ofNat?, hsign, Int.natAbs_natCast]

/-- An integer beyond the signed ones is judged by what it is rounded to. -/
theorem statusOf?_word {i : Int} (hmin : maxInt64 < i) (hmax : i ≤ (maxWord : Int)) :
    statusOf? (.integer i) = if i ≤ 2 ^ 63 + 1024 then some maxInt64 else none := by
  have hsigned : ¬ (minInt64 ≤ i ∧ i ≤ maxInt64) := fun h ↦ Int.not_le.mpr hmin h.2
  unfold maxInt64 at hmin
  unfold maxWord at hmax
  obtain ⟨n, rfl⟩ := Int.eq_ofNat_of_zero_le (show 0 ≤ i by omega)
  have hlow : 2 ^ 63 ≤ n := by omega
  have hhigh : n < 2 ^ 64 := by omega
  have hround := Number.Binary64.toInt?_ofNat?_of_word hlow hhigh
  have hleast := (Number.Binary64.roundDiv_of_word hlow hhigh).1
  have hiff := Number.Binary64.roundDiv_le_leastNormal_iff hlow
  unfold leastNormal at hleast hiff
  generalize roundDiv n 2048 = rounded at hround hleast hiff
  simp only [statusOf?, if_neg hsigned, Json.Numeral.toBinary64?, Option.bind_eq_bind,
    ofInt?_natCast, ← Option.bind_assoc, hround, Option.bind_some]
  by_cases hnear : n ≤ 2 ^ 63 + 1024
  · have htop : rounded = 0x10000000000000 := Nat.le_antisymm (hiff.mpr hnear) hleast
    rw [htop, if_pos (by decide), if_pos (by omega)]
    rfl
  · have hbeyond : ¬ rounded ≤ 0x10000000000000 := fun h ↦ hnear (hiff.mp h)
    have hfar : ¬ (minInt64 ≤ ((rounded * 2048 : Nat) : Int) ∧
        ((rounded * 2048 : Nat) : Int) ≤ maxInt64 + 1) := by
      unfold maxInt64
      omega
    rw [if_neg hfar, if_neg (by omega)]

theorem statusOf?_integer_takenFor {i : Int} (hmin : minInt64 ≤ i) (hmax : i ≤ (maxWord : Int)) :
    statusOf? (.integer i) = some k ↔ (Json.number (.integer i)).TakenFor k := by
  rw [takenFor_number_iff]
  have hcast : ((i : ℚ) = k ↔ i = k) ∧ ((2 : ℚ) ^ 63 ≤ i ↔ 2 ^ 63 ≤ i) ∧
      ((i : ℚ) ≤ 2 ^ 63 + 1024 ↔ i ≤ 2 ^ 63 + 1024) := by
    refine ⟨Int.cast_inj, ?_, ?_⟩
    · exact_mod_cast Iff.rfl
    · exact_mod_cast Iff.rfl
  simp only [Json.Numeral.value, hcast.1, hcast.2.1, hcast.2.2]
  rcases le_or_gt i maxInt64 with hle | hgt
  · have hvalue : statusOf? (.integer i) = some i := if_pos ⟨hmin, hle⟩
    have hsmall : ¬ 2 ^ 63 ≤ i := by
      unfold maxInt64 at hle
      omega
    rw [hvalue, Option.some.injEq]
    constructor
    · rintro rfl
      exact .inl ⟨rfl, hmin, hle⟩
    · rintro (⟨rfl, -, -⟩ | ⟨hlarge, -, -⟩)
      · rfl
      · exact absurd hlarge hsmall
  · have hlarge : 2 ^ 63 ≤ i := by
      unfold maxInt64 at hgt
      omega
    rw [statusOf?_word hgt hmax]
    constructor
    · intro h
      split at h
      · next hnear => exact .inr ⟨hlarge, hnear, (Option.some.inj h).symm⟩
      · contradiction
    · rintro (⟨rfl, -, hk⟩ | ⟨-, hnear, rfl⟩)
      · exact absurd hk hgt.not_ge
      · exact if_pos hnear

end Reading

/-! ## The status of a response -/

section Recorded

variable {v w s : Json} {k : Int}

namespace Response

theorem ofJson_status (hs : w.get? "status" = some s) :
    (ofJson w).status = match s with
      | .number n => statusOf? n
      | _ => none := by
  cases s <;> simp [ofJson, hs]

theorem get?_of_status (h : (ofJson w).status = some k) : ∃ s, w.get? "status" = some s := by
  cases hs : w.get? "status" with
  | none => simp [ofJson, hs] at h
  | some s => exact ⟨s, rfl⟩

theorem status_eq_some_iff (hs : w.get? "status" = some s) (hrange : s.InRange) :
    (ofJson w).status = some k ↔ s.TakenFor k := by
  rw [ofJson_status hs]
  cases s with
  | number n =>
    cases n with
    | integer i =>
      obtain ⟨hmin, hmax⟩ := hrange i rfl
      exact statusOf?_integer_takenFor hmin hmax
    | float x => exact statusOf?_float_takenFor
  | null => exact iff_of_false nofun (Json.not_takenFor_of_value? rfl)
  | bool b => exact iff_of_false nofun (Json.not_takenFor_of_value? rfl)
  | string t => exact iff_of_false nofun (Json.not_takenFor_of_value? rfl)
  | array items => exact iff_of_false nofun (Json.not_takenFor_of_value? rfl)
  | object members => exact iff_of_false nofun (Json.not_takenFor_of_value? rfl)

end Response

/-! ## The status of a record -/

/-- What a line of a trace has for the status of its response. -/
def Json.recordedStatus? (v : Json) : Option Json :=
  ((v.get? "snapshot").bind (·.get? "response")).bind (·.get? "status")

theorem Snapshot.record?_status {x : Snapshot} {a : Archive} {limits : RecordLimits}
    {r : NetworkRecord} (h : x.record? a limits = some r) :
    ∃ response, x.response = some response ∧ response.status = some r.status := by
  obtain ⟨-, -, -, -, hstatus, -⟩ := Snapshot.record?_eq_some_iff.mp h
  exact Option.bind_eq_some_iff.mp hstatus

theorem Snapshot.ofJson?_response {x : Snapshot} {response : Response} (h : ofJson? v = some x)
    (hresponse : x.response = some response) :
    ∃ w, v.get? "response" = some w ∧ response = Response.ofJson w := by
  obtain ⟨request, -, h⟩ := Option.bind_eq_some_iff.mp h
  obtain ⟨-, -, h⟩ := Option.bind_eq_some_iff.mp h
  obtain rfl := Option.some.inj h
  obtain ⟨w, hw, rfl⟩ := Option.map_eq_some_iff.mp hresponse
  exact ⟨w, (Option.filter_eq_some_iff.mp hw).1, rfl⟩

theorem Event.ofJson?_snapshot {x : Snapshot} (h : ofJson? v = some (.snapshot x)) :
    ∃ u, v.get? "snapshot" = some u ∧ Snapshot.ofJson? u = some x := by
  rcases Event.ofJson?_eq_some_iff.mp h with
    ⟨-, u, s, hu, hs, heq⟩ | ⟨-, _, _, -, -, heq⟩ | ⟨-, -, heq⟩
  · obtain rfl := Event.snapshot.inj heq
    exact ⟨u, hu, hs⟩
  · contradiction
  · contradiction

theorem Event.networkRecord?_status {e : Event} {a : Archive} {limits : RecordLimits}
    {r : NetworkRecord} (he : ofJson? v = some e) (h : e.networkRecord? a limits = some r) :
    ∃ s w, v.recordedStatus? = some s ∧ w.get? "status" = some s ∧
      (Response.ofJson w).status = some r.status := by
  cases e with
  | snapshot x =>
    obtain ⟨u, hu, hx⟩ := Event.ofJson?_snapshot he
    obtain ⟨response, hresponse, hstatus⟩ := Snapshot.record?_status h
    obtain ⟨w, hw, rfl⟩ := Snapshot.ofJson?_response hx hresponse
    obtain ⟨s, hs⟩ := Response.get?_of_status hstatus
    refine ⟨s, w, ?_, hs, hstatus⟩
    rw [Json.recordedStatus?, hu, Option.bind_some, hw, Option.bind_some, hs]
  | console messageType text => contradiction
  | pageError text => contradiction

/-- **Statuses.** A response has the status `k` if and only if its value is a number that is `k`, an
integer of 64 bits with a sign, and so the status of a network record is the number that its line
has.  The exception are the numbers just above the greatest such integer, which is read for them
although they are no such integer. -/
theorem status_of_value (hrange : s.InRange) :
    (¬ s.JustAbove →
      (∀ w k, w.get? "status" = some s → ((Response.ofJson w).status = some k ↔ s.Is k)) ∧
      ∀ (v : Json) (e : Event) (a : Archive) (limits : RecordLimits) (r : NetworkRecord),
        v.recordedStatus? = some s → Event.ofJson? v = some e →
          e.networkRecord? a limits = some r → s.Is r.status) ∧
    (s.JustAbove →
      ∀ w, w.get? "status" = some s →
        (Response.ofJson w).status = some maxInt64 ∧ ∀ k, ¬ s.Is k) := by
  constructor
  · intro hnear
    have his (k : Int) : s.TakenFor k ↔ s.Is k := or_iff_left fun h ↦ hnear h.1
    constructor
    · intro w k hs
      rw [Response.status_eq_some_iff hs hrange, his]
    · intro v e a limits r hv he hr
      obtain ⟨s', w, hv', hs, hstatus⟩ := Event.networkRecord?_status he hr
      obtain rfl := Option.some.inj (hv.symm.trans hv')
      exact (his r.status).mp ((Response.status_eq_some_iff hs hrange).mp hstatus)
  · intro hnear w hs
    exact ⟨(Response.status_eq_some_iff hs hrange).mpr (.inr ⟨hnear, rfl⟩), fun k ↦ hnear.not_is⟩

end Recorded

namespace Sample

/-- A network event whose response has this status. -/
def networkLine (status : Json) : Json :=
  .object [
    ("snapshot", .object [
      ("request", .object [("method", .string "GET"), ("url", .string "u")]),
      ("response", .object [("status", status)])]),
    ("type", .string "resource-snapshot")]

theorem ofJson?_networkLine (status : Json) :
    Event.ofJson? (networkLine status) = some (.snapshot {
      time := none
      resourceType := none
      method := some "GET"
      url := some "u"
      postData := none
      response := some (Response.ofJson (.object [("status", status)])) }) := rfl

/-- The record of a status is its own, where it is read at all. -/
theorem networkRecord?_networkLine {status : Json} {k : Int} (a : Archive)
    (h : (Response.ofJson (.object [("status", status)])).status = some k) :
    ∃ e r, Event.ofJson? (networkLine status) = some e ∧ e.networkRecord? a {} = some r ∧
      r.status = k := by
  refine ⟨_, ⟨"GET", "u", k, none, none, none, none⟩, ofJson?_networkLine status, ?_, rfl⟩
  simp only [Event.networkRecord?, Snapshot.record?, Option.bind_eq_bind, Option.bind_some, h]
  rfl

/-- An archive without entries. -/
def emptyArchive : Archive := ⟨ByteArray.empty, [], {}⟩

/-- A status of 404 is read and recorded as it is. -/
theorem status_of_value_notFound :
    let status := Json.number (.integer 404)
    (Response.ofJson (.object [("status", status)])).status = some 404 ∧
      ∃ e r, Event.ofJson? (networkLine status) = some e ∧
        e.networkRecord? emptyArchive {} = some r ∧ status.Is r.status := by
  intro status
  have hrange : status.InRange := by
    intro i hi
    obtain rfl : 404 = i := by simpa [status] using hi
    decide
  have hvalue : status.value? = some 404 := by norm_num [status, Json.value?, Json.Numeral.value]
  have hsmall : ¬ status.JustAbove := by
    rintro ⟨q, hq, hlow, -⟩
    obtain rfl := Option.some.inj (hvalue.symm.trans hq)
    norm_num at hlow
  obtain ⟨hread, hrecorded⟩ := (status_of_value hrange).1 hsmall
  have h404 : (Response.ofJson (.object [("status", status)])).status = some 404 :=
    (hread _ 404 rfl).mpr ⟨hvalue, by decide, by decide⟩
  obtain ⟨e, r, he, hr, -⟩ := networkRecord?_networkLine emptyArchive h404
  exact ⟨h404, e, r, he, hr, hrecorded _ e emptyArchive {} r rfl he hr⟩

/-- A status of `2 ^ 63` is recorded as `2 ^ 63 - 1`, which it is not. -/
theorem status_brought_down :
    let status := Json.number (.integer 9223372036854775808)
    status.InRange ∧ status.value? = some 9223372036854775808 ∧
      (Response.ofJson (.object [("status", status)])).status = some 9223372036854775807 ∧
      ¬ status.Is 9223372036854775807 ∧
      ∃ e r, Event.ofJson? (networkLine status) = some e ∧
        e.networkRecord? emptyArchive {} = some r ∧ r.status = 9223372036854775807 := by
  intro status
  have hrange : status.InRange := by
    intro i hi
    obtain rfl : 9223372036854775808 = i := by simpa [status] using hi
    decide
  have hvalue : status.value? = some 9223372036854775808 := by
    norm_num [status, Json.value?, Json.Numeral.value]
  have hnear : status.JustAbove := ⟨_, hvalue, by norm_num, by norm_num⟩
  have hread : (Response.ofJson (.object [("status", status)])).status =
      some 9223372036854775807 :=
    (Response.status_eq_some_iff rfl hrange).mpr (.inr ⟨hnear, rfl⟩)
  exact ⟨hrange, hvalue, hread, hnear.not_is, networkRecord?_networkLine emptyArchive hread⟩

end Sample

end BrowserTrace
