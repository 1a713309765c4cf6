import BrowserTrace.Deflate.Token
import BrowserTrace.Proofs.Bytes

/-!
# What tokens describe

A literal appends its byte.  A copy appends as many bytes as it says, each the one that lies its
distance back; where it overlaps what it writes, these are bytes of its own, so the rule is stated
of the output as a whole (`Token.Appends`).  `expand?` cuts its output at a limit: below the limit
it gives exactly what the tokens describe (`expand?_eq_some_iff`), and of a longer output it gives as
much of the beginning as the limit allows (`Expands.expand?_eq_take`).
-/

namespace BrowserTrace.Deflate

open Bytes (length_toList_data)

/-! ## The output of tokens -/

/-- A token takes the output before it to the output after it. -/
inductive Token.Appends : Token → (before after : List UInt8) → Prop
  | literal {b : UInt8} {before : List UInt8} : Appends (.literal b) before (before ++ [b])
  | copy {distance : Nat} {before appended : List UInt8} (hpos : 0 < distance)
      (hle : distance ≤ before.length)
      (hback : ∀ i < appended.length, (before ++ appended)[before.length + i]? =
        (before ++ appended)[before.length + i - distance]?) :
      Appends (.copy appended.length distance) before (before ++ appended)

/-- Tokens take the output before them to the output after them. -/
inductive Expands : List Token → (before after : List UInt8) → Prop
  | nil {out : List UInt8} : Expands [] out out
  | cons {t : Token} {ts : List Token} {before mid after : List UInt8}
      (ht : t.Appends before mid) (hts : Expands ts mid after) : Expands (t :: ts) before after

theorem Token.Appends.length_le {t : Token} {before after : List UInt8}
    (h : t.Appends before after) : before.length ≤ after.length := by
  cases h <;> simp

theorem Token.Appends.length_copy {length distance : Nat} {before after : List UInt8}
    (h : (Token.copy length distance).Appends before after) :
    after.length = before.length + length := by
  cases h
  exact List.length_append

theorem Expands.length_le {ts : List Token} {before after : List UInt8}
    (h : Expands ts before after) : before.length ≤ after.length := by
  induction h with
  | nil => exact Nat.le_refl _
  | cons ht _ ih => exact Nat.le_trans ht.length_le ih

/-! ## Copies -/

/-- A copy determines the bytes that it appends, each by the ones before it. -/
theorem Token.Appends.unique {t : Token} {before after after' : List UInt8}
    (h : t.Appends before after) (h' : t.Appends before after') : after = after' := by
  cases h with
  | literal =>
    cases h'
    rfl
  | @copy distance _ xs hpos hle hxs =>
    generalize hlen : xs.length = length at h'
    cases h' with
    | @copy _ _ ys _ _ hys =>
      apply List.ext_getElem?
      intro k
      induction k using Nat.strongRecOn with
      | ind k ih =>
        by_cases hold : k < before.length
        · rw [List.getElem?_append_left hold, List.getElem?_append_left hold]
        by_cases hend : k < before.length + xs.length
        · obtain ⟨i, rfl⟩ := Nat.exists_eq_add_of_le (Nat.le_of_not_lt hold)
          rw [hxs i (by omega), hys i (by omega)]
          exact ih _ (by omega)
        · rw [List.getElem?_eq_none (by simp; omega), List.getElem?_eq_none (by simp; omega)]

/-- The byte that lies a distance back. -/
theorem getElem?_back {out : ByteArray} {distance : Nat} (hpos : 0 < distance)
    (hle : distance ≤ out.size) :
    out.data.toList[out.size - distance]? = some (out[out.size - distance]?.getD 0) := by
  have hlt : out.size - distance < out.size := by omega
  have hlt' : out.size - distance < out.data.toList.length := by rwa [length_toList_data]
  rw [List.getElem?_eq_getElem hlt', getElem?_pos out _ hlt]
  rfl

theorem copyBack_appends {distance : Nat} (count : Nat) {out : ByteArray} (hpos : 0 < distance)
    (hle : distance ≤ out.size) :
    (Token.copy count distance).Appends out.data.toList
      (copyBack distance count out).data.toList := by
  suffices h : ∃ appended : List UInt8, appended.length = count ∧
      (copyBack distance count out).data.toList = out.data.toList ++ appended ∧
      ∀ i < count, (out.data.toList ++ appended)[out.size + i]? =
        (out.data.toList ++ appended)[out.size + i - distance]? by
    obtain ⟨appended, rfl, heq, hback⟩ := h
    rw [heq]
    refine .copy hpos ?_ ?_
    · rwa [length_toList_data]
    · rwa [length_toList_data]
  induction count generalizing out with
  | zero => exact ⟨[], rfl, (List.append_nil _).symm, fun i hi ↦ absurd hi (Nat.not_lt_zero i)⟩
  | succ count ih =>
    have hfirst := getElem?_back hpos hle
    generalize hb : out[out.size - distance]?.getD 0 = b at hfirst
    have hsize : (out.push b).size = out.size + 1 := ByteArray.size_push
    have hle' : distance ≤ (out.push b).size := by omega
    obtain ⟨appended, hlen, heq, hback⟩ := ih hle'
    have hpush : (out.push b).data.toList ++ appended = out.data.toList ++ b :: appended := by
      simp
    rw [hpush] at heq hback
    refine ⟨b :: appended, by rw [List.length_cons, hlen], ?_, ?_⟩
    · rw [copyBack, hb, heq]
    · intro i hi
      cases i with
      | zero =>
        have hlt : out.size - distance < out.data.toList.length := by
          rw [length_toList_data]
          omega
        have hnew : (out.data.toList ++ b :: appended)[out.size]? = some b := by
          rw [← length_toList_data, List.getElem?_append_right (Nat.le_refl _), Nat.sub_self]
          rfl
        rw [Nat.add_zero, hnew, List.getElem?_append_left hlt, hfirst]
      | succ i =>
        have hi := hback i (by omega)
        rw [hsize] at hi
        have hindex : out.size + (i + 1) = out.size + 1 + i := by omega
        rw [hindex]
        exact hi

/-! ## Below the limit -/

theorem toList_data_push (out : ByteArray) (b : UInt8) :
    (out.push b).data.toList = out.data.toList ++ [b] := by
  simp

theorem eq_of_toList_data_eq {out x : ByteArray} (h : out.data.toList = x.data.toList) : out = x :=
  ByteArray.ext (Array.toList_inj.mp h)

/-- A copy that stays below the limit is not cut. -/
theorem min_eq_of_lt {length limit : Nat} {before after : List UInt8} {distance : Nat}
    (h : (Token.copy (min length (limit - before.length)) distance).Appends before after)
    (hlt : after.length < limit) : min length (limit - before.length) = length := by
  have := h.length_copy
  omega

/-- Output that stays below the limit is what the tokens describe. -/
theorem expand?_eq_some_iff {limit : Nat} {ts : List Token} {out x : ByteArray}
    (hx : x.size < limit) :
    expand? limit ts out = some x ↔ Expands ts out.data.toList x.data.toList := by
  rw [← length_toList_data] at hx
  induction ts generalizing out with
  | nil =>
    simp only [expand?, Option.some.injEq]
    constructor
    · rintro rfl
      exact .nil
    · intro h
      generalize hout : out.data.toList = before at h
      generalize hx : x.data.toList = after at h
      cases h
      exact eq_of_toList_data_eq (hout.trans hx.symm)
  | cons t ts ih =>
    constructor
    · intro h
      unfold expand? at h
      split at h
      · next hcut =>
        obtain rfl := Option.some.inj h
        rw [length_toList_data] at hx
        omega
      · split at h
        · next b =>
          have hts := ih.mp h
          rw [toList_data_push] at hts
          exact .cons .literal hts
        · next length distance =>
          split at h
          · next hback =>
            have hts := ih.mp h
            have ht := copyBack_appends (min length (limit - out.size)) hback.1 hback.2
            rw [← length_toList_data out] at ht hts
            have hmin := min_eq_of_lt ht (Nat.lt_of_le_of_lt hts.length_le hx)
            rw [hmin] at ht hts
            exact .cons ht hts
          · contradiction
    · intro h
      cases h with
      | @cons _ _ _ mid _ ht hts =>
        have hmid : mid.length < limit := Nat.lt_of_le_of_lt hts.length_le hx
        have hroom : ¬ limit ≤ out.size := by
          have := ht.length_le
          rw [length_toList_data] at this
          omega
        unfold expand?
        rw [if_neg hroom]
        cases ht with
        | literal =>
          refine ih.mpr ?_
          rw [toList_data_push]
          exact hts
        | @copy distance _ appended hpos hle hback =>
          have hsize : distance ≤ out.size := by rwa [length_toList_data] at hle
          have hmin : min appended.length (limit - out.size) = appended.length := by
            rw [List.length_append, length_toList_data] at hmid
            omega
          have hcopy := (copyBack_appends appended.length hpos hsize).unique (.copy hpos hle hback)
          refine (if_pos ⟨hpos, hsize⟩).trans (ih.mpr ?_)
          rw [hmin, hcopy]
          exact hts

/-! ## At the limit -/

theorem Token.Appends.isPrefix {t : Token} {before after : List UInt8}
    (h : t.Appends before after) : before <+: after := by
  cases h with
  | literal => exact List.prefix_append _ _
  | copy => exact List.prefix_append _ _

theorem Expands.isPrefix {ts : List Token} {before after : List UInt8}
    (h : Expands ts before after) : before <+: after := by
  induction h with
  | nil => exact List.prefix_refl _
  | cons ht _ ih => exact ht.isPrefix.trans ih

/-- A copy can be made in two turns. -/
theorem copyBack_add (distance count more : Nat) (out : ByteArray) :
    copyBack distance (count + more) out = copyBack distance more (copyBack distance count out) := by
  induction count generalizing out with
  | zero => rw [Nat.zero_add, copyBack]
  | succ count ih =>
    rw [Nat.succ_add, copyBack, copyBack]
    exact ih _

theorem size_copyBack (distance count : Nat) (out : ByteArray) :
    (copyBack distance count out).size = out.size + count := by
  induction count generalizing out with
  | zero => rfl
  | succ count ih =>
    rw [copyBack, ih, ByteArray.size_push]
    omega

theorem expand?_of_full {limit : Nat} {out : ByteArray} (h : limit ≤ out.size) (ts : List Token) :
    expand? limit ts out = some out := by
  cases ts with
  | nil => rw [expand?]
  | cons t ts =>
    unfold expand?
    exact if_pos h

/-- An output that has come to the limit is the beginning of every output that begins with it. -/
theorem eq_take_of_isPrefix {limit : Nat} {out : ByteArray} {after : List UInt8}
    (hsize : out.size = limit) (h : out.data.toList <+: after) :
    out.data.toList = after.take limit := by
  rw [← hsize, ← length_toList_data]
  exact List.prefix_iff_eq_take.mp h

/-- Tokens whose output goes beyond the limit give the beginning of it.  The induction is on the
tokens; the one that crosses the limit is a copy that is cut, and what follows it is not looked
at. -/
theorem Expands.expand?_eq_take {limit : Nat} {ts : List Token} {out : ByteArray}
    {after : List UInt8} (h : Expands ts out.data.toList after) (hout : out.size ≤ limit) :
    ∃ x, expand? limit ts out = some x ∧ x.data.toList = after.take limit := by
  induction ts generalizing out with
  | nil =>
    generalize hbefore : out.data.toList = before at h
    cases h
    refine ⟨out, by rw [expand?], ?_⟩
    rw [hbefore, List.take_of_length_le]
    rwa [← hbefore, length_toList_data]
  | cons t ts ih =>
    by_cases hfull : limit ≤ out.size
    case pos =>
      exact ⟨out, expand?_of_full hfull _,
        eq_take_of_isPrefix (Nat.le_antisymm hout hfull) h.isPrefix⟩
    cases h with
    | @cons _ _ _ mid _ ht hts =>
      unfold expand?
      rw [if_neg hfull]
      cases ht with
      | @literal b =>
        refine ih ?_ ?_
        · rw [toList_data_push]
          exact hts
        · rw [ByteArray.size_push]
          omega
      | @copy distance _ appended hpos hle hback =>
        have hsize : distance ≤ out.size := by rwa [length_toList_data] at hle
        have hcopy := (copyBack_appends appended.length hpos hsize).unique (.copy hpos hle hback)
        dsimp only
        rw [if_pos ⟨hpos, hsize⟩]
        rcases Nat.le_total appended.length (limit - out.size) with hfits | hcut
        · rw [Nat.min_eq_left hfits]
          refine ih ?_ ?_
          · rw [hcopy]
            exact hts
          · rw [size_copyBack]
            omega
        · have hlimit : (copyBack distance (limit - out.size) out).size = limit := by
            rw [size_copyBack]
            omega
          have hback' : distance ≤ (copyBack distance (limit - out.size) out).size := by omega
          obtain ⟨more, hmore⟩ := Nat.exists_eq_add_of_le hcut
          rw [hmore, copyBack_add] at hcopy
          rw [Nat.min_eq_right hcut]
          refine ⟨_, expand?_of_full (Nat.le_of_eq hlimit.symm) ts,
            eq_take_of_isPrefix hlimit ?_⟩
          refine (copyBack_appends more hpos hback').isPrefix.trans ?_
          rw [hcopy]
          exact hts.isPrefix

end BrowserTrace.Deflate
