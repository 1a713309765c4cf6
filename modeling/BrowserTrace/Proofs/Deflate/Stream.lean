import BrowserTrace.Proofs.Deflate.Description

/-!
# Reading a stream

Blocks are read one after the other up to the last one.  What `readStream` reads to its end is the
one stream of the format that the bits begin with (`readStream_eq_complete_iff`); so no bits begin
with two of them (`IsStream.unique`), and a stream that is cut before the end of its last block is
no stream (`IsStream.not_of_cut`).
-/

namespace BrowserTrace.Deflate

/-! ## Contents of a block -/

/-- The length of a stored block stands behind the padding, with its complement. -/
theorem readStoredLength?_eq_some_iff {n : Nat} {bits rest : Bits} :
    readStoredLength? bits = some (n, rest) ↔
      n < 2 ^ 16 ∧ align bits = numberBits 16 n ++ (numberBits 16 (65535 - n) ++ rest) := by
  simp only [readStoredLength?, Option.bind_eq_bind, Option.bind_eq_some_iff, Prod.exists]
  constructor
  · rintro ⟨n, mid, hn, m, mid', hm, h⟩
    obtain ⟨hnlt, halign⟩ := readBits?_eq_some_iff.mp hn
    obtain ⟨-, rfl⟩ := readBits?_eq_some_iff.mp hm
    split at h
    · next hsum =>
      simp only [Option.some.injEq, Prod.mk.injEq] at h
      obtain ⟨rfl, rfl⟩ := h
      have hcomplement : m = 65535 - n := by omega
      rw [← hcomplement]
      exact ⟨hnlt, halign⟩
    · contradiction
  · rintro ⟨hnlt, halign⟩
    have hcomplement : 65535 - n < 2 ^ 16 := by omega
    have hsum : n + (65535 - n) = 65535 := by omega
    refine ⟨n, _, ?_, 65535 - n, rest, readBits?_append hcomplement rest, if_pos hsum⟩
    rw [halign]
    exact readBits?_append hnlt _

section Contents

variable {kind : Nat} {bits rest : Bits} {acc ts : List Token}

theorem IsContents.kind_lt (hc : IsContents kind ts bits rest) : kind < 4 := by
  cases hc <;> decide

theorem IsContents.readContents_eq (hc : IsContents kind ts bits rest) (acc : List Token) :
    readContents kind bits acc = (ts.reverse ++ acc, some rest) := by
  cases hc with
  | @stored bs padding rest hlength hpadding haligned =>
    have halign : align (padding ++ (numberBits 16 bs.length ++
        (numberBits 16 (65535 - bs.length) ++ (bs.flatMap byteBits ++ rest)))) =
          numberBits 16 bs.length ++
            (numberBits 16 (65535 - bs.length) ++ (bs.flatMap byteBits ++ rest)) := by
      refine align_eq_iff.mpr ⟨padding, hpadding, ?_, rfl⟩
      simp only [List.length_append, length_numberBits, length_flatMap_byteBits]
      omega
    have hstored := readStoredLength?_eq_some_iff.mpr ⟨hlength, halign⟩
    have hbytes : readBytes bs.length (bs.flatMap byteBits ++ rest) = (bs, some rest) :=
      readBytes_eq_some_iff.mpr ⟨rfl, rfl⟩
    simp only [readContents, hstored, hbytes, List.reverseAux_eq]
  | @fixed _ w _ hts =>
    obtain ⟨codes, hcodes, hr⟩ := exists_fixedCodes
    simp only [readContents, hcodes, hts.append hr]
  | @described literals distances _ d w _ hd hts =>
    obtain ⟨codes, hc⟩ := hd.exists_haveLengths
    simp only [readContents, hd.append hc, hts.append (hd.readsBoth hc)]

/-- Reading the contents of a block takes them off the front. -/
theorem readContents_eq_some_iff :
    readContents kind bits acc = (ts, some rest) ↔
      ∃ us, IsContents kind us bits rest ∧ ts = us.reverse ++ acc := by
  constructor
  · intro h
    unfold readContents at h
    split at h
    · split at h
      · next length mid hlength =>
        obtain ⟨hlt, halign⟩ := readStoredLength?_eq_some_iff.mp hlength
        obtain ⟨padding, hpadding, haligned, rfl⟩ := align_eq_iff.mp halign
        split at h
        next bs rest' hbytes =>
        simp only [Prod.mk.injEq] at h
        obtain ⟨rfl, rfl⟩ := h
        obtain ⟨rfl, rfl⟩ := readBytes_eq_some_iff.mp hbytes
        refine ⟨_, .stored hlt hpadding ?_, List.reverseAux_eq ..⟩
        simp only [List.length_append, length_numberBits, length_flatMap_byteBits] at haligned
        omega
      · simp at h
    · obtain ⟨codes, hcodes, hr⟩ := exists_fixedCodes
      rw [hcodes] at h
      obtain ⟨us, w, hus, rfl, rfl⟩ := (readTokens_eq_some_iff hr).mp h
      exact ⟨us, .fixed hus, rfl⟩
    · split at h
      · next codes mid hcodes =>
        obtain ⟨literals, distances, d, hd, hc, rfl⟩ := readCodes?_eq_some_iff.mp hcodes
        obtain ⟨us, w, hus, rfl, rfl⟩ := (readTokens_eq_some_iff (hd.readsBoth hc)).mp h
        exact ⟨us, .described hd hus, rfl⟩
      · simp at h
    · simp at h
  · rintro ⟨us, hc, rfl⟩
    exact hc.readContents_eq acc

end Contents

/-! ## Blocks -/

section Blocks

variable {bits mid rest : Bits} {acc ts : List Token}

theorem readBlocks_of_contents {head : Nat} (hhead : readBits? 3 bits = some (head, mid))
    (hc : readContents (head / 2) mid acc = (ts, some rest)) :
    readBlocks bits acc =
      if head % 2 = 1 then (ts, .complete rest) else readBlocks rest ts := by
  rw [readBlocks]
  split
  · simp_all
  · next head' mid' hhead' =>
    obtain ⟨rfl, rfl⟩ : head' = head ∧ mid' = mid := by simpa using hhead'.symm.trans hhead
    split
    · simp_all
    · next ts' rest' hc' =>
      obtain ⟨rfl, rfl⟩ : ts' = ts ∧ rest' = rest := by simpa using hc'.symm.trans hc
      rfl

/-- What is read as a block is one. -/
theorem isBlock_of_contents {head : Nat} (hhead : readBits? 3 bits = some (head, mid))
    (hc : readContents (head / 2) mid acc = (ts, some rest)) :
    ∃ us, IsBlock (decide (head % 2 = 1)) us bits rest ∧ ts = us.reverse ++ acc := by
  obtain ⟨us, hus, hts⟩ := readContents_eq_some_iff.mp hc
  obtain ⟨-, rfl⟩ := readBits?_eq_some_iff.mp hhead
  refine ⟨us, ?_, hts⟩
  rw [numberBits_succ, Nat.testBit_zero, List.cons_append]
  exact .mk hus

theorem IsBlock.readBlocks_eq {last : Bool} (hb : IsBlock last ts bits rest) (acc : List Token) :
    readBlocks bits acc =
      if last then (ts.reverse ++ acc, .complete rest)
      else readBlocks rest (ts.reverse ++ acc) := by
  cases hb with
  | @mk kind mid _ hc =>
    have hkind := hc.kind_lt
    have hhead : readBits? 3 (last :: (numberBits 2 kind ++ mid)) =
        some (last.toNat + 2 * kind, mid) := by
      refine readBits?_eq_some_iff.mpr ⟨?_, ?_⟩
      · have := last.toNat_le
        omega
      · rw [numberBits_succ_add]
        rfl
    have hkind : (last.toNat + 2 * kind) / 2 = kind := by
      have := last.toNat_lt
      omega
    have hlast : (last.toNat + 2 * kind) % 2 = last.toNat := by
      have := last.toNat_lt
      omega
    rw [readBlocks_of_contents hhead (by rw [hkind]; exact hc.readContents_eq acc), hlast]
    cases last <;> rfl

theorem IsStream.readBlocks_eq (hs : IsStream ts bits rest) (acc : List Token) :
    readBlocks bits acc = (ts.reverse ++ acc, .complete rest) := by
  induction hs generalizing acc with
  | last hb => exact hb.readBlocks_eq acc
  | more hb _ ih =>
    rw [hb.readBlocks_eq acc, if_neg Bool.false_ne_true, ih, List.reverse_append, List.append_assoc]

/-- Reading blocks up to the last one takes a stream off the front. -/
theorem readBlocks_eq_complete_iff :
    readBlocks bits acc = (ts, .complete rest) ↔
      ∃ us, IsStream us bits rest ∧ ts = us.reverse ++ acc := by
  constructor
  · intro h
    fun_induction readBlocks bits acc with
    | case1 => simp at h
    | case2 => simp at h
    | case3 bits acc head mid hhead ts' rest' hc hlast =>
      obtain ⟨us, hb, rfl⟩ := isBlock_of_contents hhead hc
      rw [decide_eq_true hlast] at hb
      simp only [Prod.mk.injEq, Ending.complete.injEq] at h
      obtain ⟨rfl, rfl⟩ := h
      exact ⟨us, .last hb, rfl⟩
    | case4 bits acc head mid hhead ts' rest' hc hlast ih =>
      obtain ⟨us, hb, rfl⟩ := isBlock_of_contents hhead hc
      rw [decide_eq_false hlast] at hb
      obtain ⟨vs, hs, rfl⟩ := ih h
      refine ⟨us ++ vs, .more hb hs, ?_⟩
      rw [List.reverse_append, List.append_assoc]
  · rintro ⟨us, hs, rfl⟩
    exact hs.readBlocks_eq acc

end Blocks

/-! ## Streams -/

section Streams

variable {bits rest : Bits} {ts : List Token}

/-- A stream is read to its end exactly when the bits begin with it. -/
theorem readStream_eq_complete_iff :
    readStream bits = (ts, .complete rest) ↔ IsStream ts bits rest := by
  simp only [readStream, Prod.mk.injEq]
  constructor
  · rintro ⟨rfl, hending⟩
    have hread : readBlocks bits [] = ((readBlocks bits []).1, .complete rest) :=
      Prod.ext rfl hending
    obtain ⟨us, hs, hus⟩ := readBlocks_eq_complete_iff.mp hread
    rw [List.append_nil] at hus
    rw [hus, List.reverse_reverse]
    exact hs
  · intro hs
    rw [hs.readBlocks_eq [], List.append_nil, List.reverse_reverse]
    exact ⟨rfl, rfl⟩

/-- Bits begin with at most one stream. -/
theorem IsStream.unique {ts' : List Token} {rest' : Bits} (hs : IsStream ts bits rest)
    (hs' : IsStream ts' bits rest') : ts = ts' ∧ rest = rest' := by
  have h := (readStream_eq_complete_iff.mpr hs).symm.trans (readStream_eq_complete_iff.mpr hs')
  simpa using h

/-- Bits that end before the stream does hold no stream, whatever the stream gave before that. -/
theorem IsStream.not_of_cut {more : Bits} (hs : IsStream ts (bits ++ more) rest)
    (hm : more.length % 8 = 0) (hcut : rest.length < more.length) {us : List Token} {rest' : Bits} :
    ¬ IsStream us bits rest' := by
  intro hus
  obtain ⟨-, rfl⟩ := hs.unique (hus.append hm)
  rw [List.length_append] at hcut
  omega

end Streams

end BrowserTrace.Deflate
