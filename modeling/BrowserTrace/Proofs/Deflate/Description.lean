import BrowserTrace.Proofs.Deflate.Tokens

/-!
# Reading the codes of a block

A block either uses the fixed codes or describes its own, as runs of lengths in a third code.  The
reader accepts exactly the descriptions of the format (`readCodes?_eq_some_iff`), and the codes that
it builds are those with the lengths described (`IsDescription.readsBoth`).
-/

namespace BrowserTrace.Deflate

/-! ## Codes from lengths -/

section Lengths

variable {lengths : List Nat}

theorem reads_of_ofLengths? (hb : ∀ k ∈ lengths, k ≤ Code.maxLength) {c : Code}
    (hc : Code.ofLengths? lengths = some c) : Reads c lengths :=
  ⟨Code.ofLengths?_read?_eq_some_iff hb hc⟩

/-- Lengths that describe a code are those of a code that is built. -/
theorem DescribesCode.exists_reads (h : DescribesCode lengths)
    (hb : ∀ k ∈ lengths, k ≤ Code.maxLength) :
    ∃ c, Code.ofLengths? lengths = some c ∧ Reads c lengths := by
  obtain ⟨c, hc⟩ := (Code.ofLengths?_isSome_iff hb).mpr h
  exact ⟨c, hc, reads_of_ofLengths? hb hc⟩

theorem describesCode_of_ofLengths? (hb : ∀ k ∈ lengths, k ≤ Code.maxLength) {c : Code}
    (hc : Code.ofLengths? lengths = some c) : DescribesCode lengths :=
  (Code.ofLengths?_isSome_iff hb).mp ⟨c, hc⟩

end Lengths

theorem fixedLiterals_le : ∀ k ∈ fixedLiterals, k ≤ Code.maxLength := by decide +kernel

theorem fixedDistances_le : ∀ k ∈ fixedDistances, k ≤ Code.maxLength := by decide +kernel

theorem describesCode_fixedLiterals : DescribesCode fixedLiterals := by decide +kernel

theorem describesCode_fixedDistances : DescribesCode fixedDistances := by decide +kernel

/-- The fixed codes exist, and have the fixed lengths. -/
theorem exists_fixedCodes : ∃ codes, fixedCodes? = some codes ∧
    ReadsBoth codes fixedLiterals fixedDistances := by
  obtain ⟨literals, hl, hrl⟩ := describesCode_fixedLiterals.exists_reads fixedLiterals_le
  obtain ⟨distances, hd, hrd⟩ := describesCode_fixedDistances.exists_reads fixedDistances_le
  refine ⟨⟨literals, distances⟩, ?_, ⟨hrl, hrd⟩⟩
  rw [fixedLiterals] at hl
  rw [fixedDistances] at hd
  simp only [fixedCodes?, hl, hd, Option.bind_eq_bind, Option.bind_some]

/-! ## Runs of lengths -/

section Runs

variable {c : Code} {code : List Nat}

theorem IsRun.append {given : List Nat} {count length : Nat} {w : Bits}
    (hrun : IsRun code given count length w) (hr : Reads c code) (rest : Bits) :
    readRun? c given.reverse (w ++ rest) = some (count, length, rest) := by
  cases hrun with
  | single hs hw =>
    simp only [readRun?, hr.append hw, Option.bind_eq_bind, Option.bind_some]
    split <;> first | omega | rfl
  | @again n _ _ hs hn hw =>
    have hn : n < 2 ^ 2 := hn
    simp only [readRun?, List.append_assoc, hr.append hw, Option.bind_eq_bind, Option.bind_some,
      readBits?_append hn, List.head?_reverse, hs]
  | @zeros n _ hn hw =>
    have hn : n < 2 ^ 3 := hn
    simp only [readRun?, List.append_assoc, hr.append hw, Option.bind_eq_bind, Option.bind_some,
      readBits?_append hn]
  | @manyZeros n _ hn hw =>
    have hn : n < 2 ^ 7 := hn
    simp only [readRun?, List.append_assoc, hr.append hw, Option.bind_eq_bind, Option.bind_some,
      readBits?_append hn]

/-- Reading a run of lengths takes it off the front.  The code for lengths has 19 symbols. -/
theorem readRun?_eq_some_iff (hr : Reads c code) (hcode : code.length = 19) {given : List Nat}
    {bits rest : Bits} {count length : Nat} :
    readRun? c given.reverse bits = some (count, length, rest) ↔
      ∃ w, IsRun code given count length w ∧ bits = w ++ rest := by
  constructor
  · intro h
    simp only [readRun?, Option.bind_eq_bind, Option.bind_eq_some_iff, Prod.exists] at h
    obtain ⟨s, mid, hs, h⟩ := h
    obtain ⟨w, hw, rfl⟩ := hr.read?_iff.mp hs
    split at h
    all_goals
      simp only [Option.bind_eq_some_iff, Prod.exists, Option.some.injEq, Prod.mk.injEq,
        List.head?_reverse] at h
    · obtain ⟨n, mid', hn, last, hlast, rfl, rfl, rfl⟩ := h
      obtain ⟨hlt, rfl⟩ := readBits?_eq_some_iff.mp hn
      exact ⟨_, .again hlast hlt hw, (List.append_assoc ..).symm⟩
    · obtain ⟨n, mid', hn, rfl, rfl, rfl⟩ := h
      obtain ⟨hlt, rfl⟩ := readBits?_eq_some_iff.mp hn
      exact ⟨_, .zeros hlt hw, (List.append_assoc ..).symm⟩
    · obtain ⟨n, mid', hn, rfl, rfl, rfl⟩ := h
      obtain ⟨hlt, rfl⟩ := readBits?_eq_some_iff.mp hn
      exact ⟨_, .manyZeros hlt hw, (List.append_assoc ..).symm⟩
    · next h16 h17 h18 =>
      obtain ⟨rfl, rfl, rfl⟩ := h
      have hlt : s < 19 := by
        rw [← hcode]
        exact (List.getElem?_eq_some_iff.mp hw.length_eq).1
      have hsmall : s < 16 := by
        have h16 : s ≠ 16 := h16
        have h17 : s ≠ 17 := h17
        have h18 : s ≠ 18 := h18
        omega
      exact ⟨w, .single hsmall hw, rfl⟩
  · rintro ⟨w, hrun, rfl⟩
    exact hrun.append hr rest

theorem IsRun.count_pos {given : List Nat} {count length : Nat} {w : Bits}
    (hrun : IsRun code given count length w) : 0 < count := by
  cases hrun <;> omega

/-- A run repeats what is given or names a length of a code word. -/
theorem IsRun.length_le {given : List Nat} {count length : Nat} {w : Bits}
    (hrun : IsRun code given count length w) (hg : ∀ k ∈ given, k ≤ Code.maxLength) :
    length ≤ Code.maxLength := by
  cases hrun with
  | single hs hw => exact Nat.le_of_lt_succ hs
  | again hs hn hw => exact hg length (List.mem_of_getLast? hs)
  | zeros hn hw => exact Nat.zero_le _
  | manyZeros hn hw => exact Nat.zero_le _

theorem AreRuns.lengths_le {given lengths : List Nat} {w : Bits}
    (hruns : AreRuns code given lengths w) (hg : ∀ k ∈ given, k ≤ Code.maxLength) :
    ∀ k ∈ lengths, k ≤ Code.maxLength := by
  induction hruns with
  | nil => exact fun k hk ↦ absurd hk List.not_mem_nil
  | @cons _ _ count length _ _ hr _ ih =>
    have hrun : ∀ k ∈ List.replicate count length, k ≤ Code.maxLength := by
      intro k hk
      rw [List.eq_of_mem_replicate hk]
      exact hr.length_le hg
    intro k hk
    rcases List.mem_append.mp hk with hk | hk
    · exact hrun k hk
    · refine ih (fun k hk ↦ ?_) k hk
      exact (List.mem_append.mp hk).elim (hg k) (hrun k)

/-- Runs behind nothing are lengths of code words, on either side of a boundary. -/
theorem AreRuns.both_le {literals distances : List Nat} {w : Bits}
    (hruns : AreRuns code [] (literals ++ distances) w) :
    (∀ k ∈ literals, k ≤ Code.maxLength) ∧ ∀ k ∈ distances, k ≤ Code.maxLength := by
  rw [← List.forall_mem_append]
  exact hruns.lengths_le fun k hk ↦ absurd hk List.not_mem_nil

theorem readLengths?_of_run {missing count length : Nat} {bits rest : Bits} {acc : List Nat}
    (h : readRun? c acc bits = some (count, length, rest)) (hpos : 0 < count)
    (hle : count ≤ missing) :
    readLengths? c missing bits acc =
      readLengths? c (missing - count) rest (List.replicate count length ++ acc) := by
  rw [readLengths?]
  have hmissing : missing ≠ 0 := by omega
  have hfits : 0 < count ∧ count ≤ missing := ⟨hpos, hle⟩
  simp only [if_neg hmissing, h, dif_pos hfits]

theorem reverse_append_replicate (given : List Nat) (count length : Nat) :
    (given ++ List.replicate count length).reverse =
      List.replicate count length ++ given.reverse := by
  rw [List.reverse_append, List.reverse_replicate]

theorem AreRuns.append {given lengths : List Nat} {w : Bits} (hruns : AreRuns code given lengths w)
    (hr : Reads c code) (rest : Bits) :
    readLengths? c lengths.length (w ++ rest) given.reverse = some (given ++ lengths, rest) := by
  induction hruns with
  | nil =>
    rw [readLengths?]
    simp
  | @cons given lengths count length w ws hrun _ ih =>
    have hread := hrun.append hr (ws ++ rest)
    have hlen : (List.replicate count length ++ lengths).length = count + lengths.length := by
      rw [List.length_append, List.length_replicate]
    rw [List.append_assoc, hlen, readLengths?_of_run hread hrun.count_pos (Nat.le_add_right ..),
      Nat.add_sub_cancel_left, ← List.append_assoc, ← ih, reverse_append_replicate]

/-- Reading lengths takes runs of them off the front, as many as are missing. -/
theorem readLengths?_eq_some_iff (hr : Reads c code) (hcode : code.length = 19) {missing : Nat}
    {given lengths : List Nat} {bits rest : Bits} :
    readLengths? c missing bits given.reverse = some (lengths, rest) ↔
      ∃ more w, AreRuns code given more w ∧ more.length = missing ∧ bits = w ++ rest ∧
        lengths = given ++ more := by
  constructor
  · intro h
    generalize hacc : given.reverse = acc at h
    fun_induction readLengths? c missing bits acc generalizing given with
    | case1 bits acc =>
      simp only [Option.some.injEq, Prod.mk.injEq] at h
      obtain ⟨rfl, rfl⟩ := h
      refine ⟨[], [], .nil, rfl, rfl, ?_⟩
      rw [List.append_nil, ← hacc, List.reverse_reverse]
    | case2 => contradiction
    | case3 missing bits acc hmissing count length mid hread hfits ih =>
      subst hacc
      obtain ⟨w, hrun, rfl⟩ := (readRun?_eq_some_iff hr hcode).mp hread
      obtain ⟨more, ws, hmore, hlen, rfl, rfl⟩ := ih (reverse_append_replicate given count length) h
      refine ⟨_, _, .cons hrun hmore, ?_, (List.append_assoc ..).symm, List.append_assoc ..⟩
      rw [List.length_append, List.length_replicate, hlen]
      omega
    | case4 => contradiction
  · rintro ⟨more, w, hmore, rfl, rfl, rfl⟩
    exact hmore.append hr rest

theorem readLengths?_nil_eq_some_iff (hr : Reads c code) (hcode : code.length = 19) {missing : Nat}
    {lengths : List Nat} {bits rest : Bits} :
    readLengths? c missing bits [] = some (lengths, rest) ↔
      ∃ w, AreRuns code [] lengths w ∧ lengths.length = missing ∧ bits = w ++ rest := by
  rw [← List.reverse_nil, readLengths?_eq_some_iff hr hcode]
  constructor
  · rintro ⟨more, w, hruns, hlen, hbits, rfl⟩
    exact ⟨w, hruns, hlen, hbits⟩
  · rintro ⟨w, hruns, hlen, hbits⟩
    exact ⟨lengths, w, hruns, hlen, hbits, rfl⟩

end Runs

/-! ## Descriptions -/

theorem readShortLengths?_eq_some_iff {count : Nat} {ns : List Nat} {bits rest : Bits} :
    readShortLengths? count bits = some (ns, rest) ↔
      ns.length = count ∧ (∀ n ∈ ns, n < 8) ∧ bits = ns.flatMap (numberBits 3) ++ rest := by
  induction count generalizing ns bits with
  | zero =>
    simp only [readShortLengths?, Option.some.injEq, Prod.mk.injEq, List.length_eq_zero_iff]
    constructor
    · rintro ⟨rfl, rfl⟩
      exact ⟨rfl, fun n hn ↦ absurd hn List.not_mem_nil, rfl⟩
    · rintro ⟨rfl, -, h⟩
      exact ⟨rfl, h⟩
  | succ count ih =>
    simp only [readShortLengths?, Option.bind_eq_bind, Option.bind_eq_some_iff, Prod.exists,
      Option.some.injEq, Prod.mk.injEq]
    constructor
    · rintro ⟨n, mid, hn, ns, mid', hns, rfl, rfl⟩
      obtain ⟨hlt, rfl⟩ := readBits?_eq_some_iff.mp hn
      obtain ⟨hlen, hall, rfl⟩ := ih.mp hns
      refine ⟨by rw [List.length_cons, hlen], ?_, ?_⟩
      · exact List.forall_mem_cons.mpr ⟨hlt, hall⟩
      · rw [List.flatMap_cons, List.append_assoc]
    · rintro ⟨hlen, hall, rfl⟩
      cases ns with
      | nil => contradiction
      | cons n ns =>
        obtain ⟨hlt, hall⟩ := List.forall_mem_cons.mp hall
        have hns := ih.mpr ⟨Nat.succ.inj hlen, hall, rfl⟩
        refine ⟨n, _, ?_, ns, rest, hns, rfl, rfl⟩
        rw [List.flatMap_cons, List.append_assoc]
        have hlt : n < 2 ^ 3 := hlt
        exact readBits?_append hlt _

theorem length_orderLengths (written : List Nat) : (orderLengths written).length = 19 := by
  rw [orderLengths, List.length_map, List.length_range]

theorem orderLengths_le {written : List Nat} (h : ∀ k ∈ written, k < 8) :
    ∀ k ∈ orderLengths written, k ≤ Code.maxLength := by
  intro k hk
  obtain ⟨s, -, rfl⟩ := List.mem_map.mp hk
  cases hw : written[lengthOrder.idxOf s]? with
  | none => exact Nat.zero_le _
  | some k =>
    have hk := h k (List.mem_of_getElem? hw)
    exact Nat.le_of_lt (Nat.lt_of_lt_of_le hk (by decide))

/-- The codes have the lengths that are described for them. -/
structure HaveLengths (codes : Codes) (literals distances : List Nat) : Prop where
  literals_eq : Code.ofLengths? literals = some codes.literals
  distances_eq : Code.ofLengths? distances = some codes.distances

theorem IsDescription.lengths_le {literals distances : List Nat} {w : Bits}
    (hd : IsDescription literals distances w) :
    (∀ k ∈ literals, k ≤ Code.maxLength) ∧ ∀ k ∈ distances, k ≤ Code.maxLength := by
  cases hd with
  | mk _ _ _ _ _ hruns => exact hruns.both_le

/-- Codes with the lengths described exist. -/
theorem IsDescription.exists_haveLengths {literals distances : List Nat} {w : Bits}
    (hd : IsDescription literals distances w) : ∃ codes, HaveLengths codes literals distances := by
  obtain ⟨hbl, hbd⟩ := hd.lengths_le
  cases hd with
  | mk _ _ _ _ _ _ hliteralCode hdistanceCode =>
    obtain ⟨l, hl, -⟩ := hliteralCode.exists_reads hbl
    obtain ⟨d, hd, -⟩ := hdistanceCode.exists_reads hbd
    exact ⟨⟨l, d⟩, hl, hd⟩

theorem IsDescription.readsBoth {codes : Codes} {literals distances : List Nat} {w : Bits}
    (hd : IsDescription literals distances w) (hc : HaveLengths codes literals distances) :
    ReadsBoth codes literals distances := by
  obtain ⟨hbl, hbd⟩ := hd.lengths_le
  exact ⟨reads_of_ofLengths? hbl hc.literals_eq, reads_of_ofLengths? hbd hc.distances_eq⟩

theorem IsDescription.append {codes : Codes} {literals distances : List Nat} {w : Bits}
    (hd : IsDescription literals distances w) (hc : HaveLengths codes literals distances)
    (rest : Bits) : readCodes? (w ++ rest) = some (codes, rest) := by
  cases hd with
  | @mk written w hliterals hdistances hwritten hshort hcode hruns _ _ =>
    obtain ⟨c, hlengths, hr⟩ := hcode.exists_reads (orderLengths_le hshort)
    have h₁ : literals.length - 257 < 2 ^ 5 := by omega
    have h₂ : distances.length - 1 < 2 ^ 5 := by omega
    have h₃ : written.length - 4 < 2 ^ 4 := by omega
    have h₄ : readShortLengths? written.length (written.flatMap (numberBits 3) ++ (w ++ rest)) =
        some (written, w ++ rest) := readShortLengths?_eq_some_iff.mpr ⟨rfl, hshort, rfl⟩
    have h₅ := hruns.append hr rest
    rw [List.reverse_nil, List.nil_append, List.length_append] at h₅
    have hcounts : ¬ (decide (286 < literals.length) || decide (30 < distances.length)) = true := by
      simp only [Bool.or_eq_true, decide_eq_true_eq]
      omega
    simp only [readCodes?, List.append_assoc, readBits?_append h₁, readBits?_append h₂,
      readBits?_append h₃, Nat.sub_add_cancel hliterals.1, Nat.sub_add_cancel hdistances.1,
      Nat.sub_add_cancel hwritten.1, if_neg hcounts, h₄, hlengths, h₅, List.take_left,
      List.drop_left, hc.literals_eq, hc.distances_eq, Option.bind_eq_bind, Option.bind_some]

/-- A list of the length of two others is one of the first length in front of one of the second. -/
theorem exists_append_of_length {α : Type} {xs : List α} {m n : Nat} (h : xs.length = m + n) :
    ∃ ys zs, xs = ys ++ zs ∧ ys.length = m ∧ zs.length = n := by
  refine ⟨xs.take m, xs.drop m, (List.take_append_drop m xs).symm, ?_, ?_⟩
  · rw [List.length_take, h]
    exact Nat.min_eq_left (Nat.le_add_right m n)
  · rw [List.length_drop, h, Nat.add_sub_cancel_left]

/-- Reading the codes of a block takes their description off the front. -/
theorem readCodes?_eq_some_iff {codes : Codes} {bits rest : Bits} :
    readCodes? bits = some (codes, rest) ↔
      ∃ literals distances w, IsDescription literals distances w ∧
        HaveLengths codes literals distances ∧ bits = w ++ rest := by
  constructor
  · intro h
    simp only [readCodes?, Option.bind_eq_bind, Option.bind_eq_some_iff, Prod.exists] at h
    obtain ⟨n₁, bits₁, h₁, n₂, bits₂, h₂, n₃, bits₃, h₃, h⟩ := h
    obtain ⟨hlt₁, rfl⟩ := readBits?_eq_some_iff.mp h₁
    obtain ⟨hlt₂, rfl⟩ := readBits?_eq_some_iff.mp h₂
    obtain ⟨hlt₃, rfl⟩ := readBits?_eq_some_iff.mp h₃
    split at h
    · contradiction
    · next hcounts =>
      simp only [Bool.or_eq_true, decide_eq_true_eq, not_or, Nat.not_lt] at hcounts
      simp only [Option.bind_eq_some_iff, Prod.exists, Option.some.injEq, Prod.mk.injEq] at h
      obtain ⟨written, bits₄, h₄, c, hc, lengths, bits₅, h₅, literals, hl, distances, hd, rfl, rfl⟩
        := h
      obtain ⟨hwritten, hshort, rfl⟩ := readShortLengths?_eq_some_iff.mp h₄
      have hcode := orderLengths_le hshort
      obtain ⟨w, hruns, hlen, rfl⟩ := (readLengths?_nil_eq_some_iff
        (reads_of_ofLengths? hcode hc) (length_orderLengths written)).mp h₅
      obtain ⟨ls, ds, rfl, hls, hds⟩ := exists_append_of_length hlen
      rw [List.take_left' hls] at hl
      rw [List.drop_left' hls] at hd
      obtain ⟨hbl, hbd⟩ := hruns.both_le
      have hn₁ : n₁ = ls.length - 257 := by omega
      have hn₂ : n₂ = ds.length - 1 := by omega
      have hn₃ : n₃ = written.length - 4 := by omega
      have hdescription := IsDescription.mk (by omega) (by omega) (by omega) hshort
        (describesCode_of_ofLengths? hcode hc) hruns (describesCode_of_ofLengths? hbl hl)
        (describesCode_of_ofLengths? hbd hd)
      refine ⟨ls, ds, _, hdescription, ⟨hl, hd⟩, ?_⟩
      simp only [List.append_assoc, hn₁, hn₂, hn₃]
  · rintro ⟨literals, distances, w, hd, hc, rfl⟩
    exact hd.append hc rest

end BrowserTrace.Deflate
