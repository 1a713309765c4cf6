import BrowserTrace.Proofs.Deflate.Code

/-!
# Canonical codes, from their lengths alone

A format that describes a prefix code gives the length of each symbol's word and nothing more.  The
words follow from that: words are numbered in the order of their lengths and then of their symbols,
and each begins where the ones in front of it end (`codeValue`).  This file states which bits are
the word of a symbol without any tree (`IsCodeWord`), when lengths describe a code
(`DescribesCode`), and proves that `Code.ofLengths?` builds exactly the codes so described and reads
exactly these words.
-/

namespace BrowserTrace.Deflate

/-! ## Code words -/

/-- The used symbols, each behind the length of its word. -/
def used (lengths : List Nat) : List (Nat × Nat) := lengths.zipIdx.filter fun p ↦ decide (0 < p.1)

/-- Shorter words come first, and words of one length in the order of their symbols. -/
def precedes (p q : Nat × Nat) : Bool := decide (p.1 < q.1 ∨ p.1 = q.1 ∧ p.2 < q.2)

/-- The number that the word of a symbol spells.  Each word in front of it takes all the numbers of
`length` bits that begin with it. -/
def codeValue (lengths : List Nat) (length s : Nat) : Nat :=
  (((used lengths).filter (precedes · (length, s))).map fun p ↦ 2 ^ (length - p.1)).sum

/-- The bits are the word of a symbol in the canonical code with these lengths. -/
structure IsCodeWord (lengths : List Nat) (s : Nat) (w : Bits) : Prop where
  length_eq : lengths[s]? = some w.length
  length_pos : 0 < w.length
  value_eq : Code.wordValue w = codeValue lengths w.length s

/-- The words of these lengths take all places, or there is at most one word. -/
def DescribesCode (lengths : List Nat) : Prop :=
  ((used lengths).map fun p ↦ 2 ^ (Code.maxLength - p.1)).sum = 2 ^ Code.maxLength ∨
    (used lengths).length ≤ 1

instance (lengths : List Nat) : Decidable (DescribesCode lengths) :=
  inferInstanceAs (Decidable (_ ∨ _))

theorem mem_used {lengths : List Nat} {length s : Nat} :
    (length, s) ∈ used lengths ↔ lengths[s]? = some length ∧ 0 < length := by
  simp [used, List.mk_mem_zipIdx_iff_getElem?]

theorem precedes_irrefl (p : Nat × Nat) : precedes p p = false := by
  simp [precedes]

theorem precedes_asymm {p q : Nat × Nat} (h : precedes p q = true) : precedes q p = false := by
  simp only [precedes, decide_eq_true_eq, decide_eq_false_iff_not] at h ⊢
  omega

theorem DescribesCode.sum_le {lengths : List Nat} (h : DescribesCode lengths) :
    ((used lengths).map fun p ↦ 2 ^ (Code.maxLength - p.1)).sum ≤ 2 ^ Code.maxLength := by
  rcases h with heq | hle
  · exact Nat.le_of_eq heq
  · match used lengths, hle with
    | [], _ => exact Nat.zero_le _
    | [p], _ =>
      rw [List.map_singleton, List.sum_singleton]
      exact Nat.pow_le_pow_right (Nat.zero_lt_succ 1) (Nat.sub_le ..)

/-! ## The order of the words -/

namespace Code

/-- Sorting by length keeps every pair whose length is among the sorted ones. -/
theorem flatMap_filter_perm (ps : List (Nat × Nat)) (n : Nat) :
    ((List.range n).flatMap fun k ↦ ps.filter fun p ↦ p.1 == k + 1).Perm
      (ps.filter fun p ↦ decide (0 < p.1 ∧ p.1 ≤ n)) := by
  induction n with
  | zero =>
    have hnone : (ps.filter fun p ↦ decide (0 < p.1 ∧ p.1 ≤ 0)) = [] := by
      refine List.filter_eq_nil_iff.mpr fun p _ ↦ ?_
      simp only [decide_eq_true_eq]
      omega
    rw [hnone]
    rfl
  | succ n ih =>
    have hsplit := List.filter_append_perm (fun p : Nat × Nat ↦ decide (p.1 ≤ n))
      (ps.filter fun p ↦ decide (0 < p.1 ∧ p.1 ≤ n + 1))
    rw [List.filter_filter, List.filter_filter] at hsplit
    have hle : (ps.filter fun p ↦ decide (p.1 ≤ n) && decide (0 < p.1 ∧ p.1 ≤ n + 1)) =
        ps.filter fun p ↦ decide (0 < p.1 ∧ p.1 ≤ n) := by
      congr 1
      funext p
      rw [Bool.eq_iff_iff]
      simp only [Bool.and_eq_true, decide_eq_true_eq]
      omega
    have heq : (ps.filter fun p ↦ !decide (p.1 ≤ n) && decide (0 < p.1 ∧ p.1 ≤ n + 1)) =
        ps.filter fun p ↦ p.1 == n + 1 := by
      congr 1
      funext p
      rw [Bool.eq_iff_iff]
      simp only [Bool.and_eq_true, Bool.not_eq_true', decide_eq_false_iff_not, decide_eq_true_eq,
        beq_iff_eq]
      omega
    rw [hle, heq] at hsplit
    rw [List.range_succ, List.flatMap_append, List.flatMap_singleton]
    exact (ih.append_right _).trans hsplit

variable {lengths : List Nat}

theorem words_perm_used (hb : ∀ k ∈ lengths, k ≤ maxLength) :
    (words lengths).Perm (used lengths) := by
  have hused :
      (lengths.zipIdx.filter fun p ↦ decide (0 < p.1 ∧ p.1 ≤ maxLength)) = used lengths := by
    refine List.filter_congr fun p hp ↦ ?_
    have hle : p.1 ≤ maxLength := hb p.1 (List.mem_of_getElem? (List.mem_zipIdx_iff_getElem?.mp hp))
    rw [Bool.eq_iff_iff]
    simp only [decide_eq_true_eq]
    omega
  rw [← hused]
  exact flatMap_filter_perm lengths.zipIdx maxLength

theorem words_pairwise (lengths : List Nat) :
    (words lengths).Pairwise fun p q ↦ precedes p q = true := by
  have hindex : lengths.zipIdx.Pairwise fun p q ↦ p.2 < q.2 := by
    rw [← List.pairwise_map (f := Prod.snd) (R := (· < ·)), List.zipIdx_map_snd]
    exact List.pairwise_lt_range'
  refine List.pairwise_flatMap.mpr ⟨fun k _ ↦ ?_, ?_⟩
  · refine List.Pairwise.imp_of_mem ?_ (hindex.filter _)
    intro p q hp hq hlt
    have hpk := (List.mem_filter.mp hp).2
    have hqk := (List.mem_filter.mp hq).2
    rw [beq_iff_eq] at hpk hqk
    exact decide_eq_true (.inr ⟨hpk.trans hqk.symm, hlt⟩)
  · refine List.pairwise_lt_range.imp ?_
    intro k k' hlt p hp q hq
    have hpk := (List.mem_filter.mp hp).2
    have hqk := (List.mem_filter.mp hq).2
    rw [beq_iff_eq] at hpk hqk
    refine decide_eq_true (.inl ?_)
    omega

theorem words_fit (lengths : List Nat) : Fit maxLength 0 (words lengths) where
  sorted := by
    refine (words_pairwise lengths).imp ?_
    intro p q h
    simp only [precedes, decide_eq_true_eq] at h
    omega
  bounds := by
    intro p hp
    obtain ⟨k, hk, hpk⟩ := List.mem_flatMap.mp hp
    have hk := List.mem_range.mp hk
    have hpk := (List.mem_filter.mp hpk).2
    rw [beq_iff_eq] at hpk
    omega

/-- The words in front of a word are those that precede it. -/
theorem before_perm (hb : ∀ k ∈ lengths, k ≤ maxLength) {before after : List (Nat × Nat)}
    {p : Nat × Nat} (h : words lengths = before ++ p :: after) :
    before.Perm ((used lengths).filter (precedes · p)) := by
  have hpairs := words_pairwise lengths
  rw [h, List.pairwise_append, List.pairwise_cons] at hpairs
  obtain ⟨-, ⟨hafter, -⟩, hbefore⟩ := hpairs
  have hwords : (words lengths).filter (precedes · p) = before := by
    have hall : before.filter (precedes · p) = before :=
      List.filter_eq_self.mpr fun q hq ↦ hbefore q hq p List.mem_cons_self
    have hnone : (p :: after).filter (precedes · p) = [] := by
      refine List.filter_eq_nil_iff.mpr fun q hq ↦ ?_
      rw [Bool.not_eq_true]
      rcases List.mem_cons.mp hq with rfl | hq
      · exact precedes_irrefl q
      · exact precedes_asymm (hafter q hq)
    rw [h, List.filter_append, hall, hnone, List.append_nil]
  rw [← hwords]
  exact (words_perm_used hb).filter _

/-- At the depth of a word, the words in front of it take the places that `codeValue` counts; each
of these has `2 ^ (maxLength - length)` below it at the greatest depth. -/
theorem sum_before_eq (hb : ∀ k ∈ lengths, k ≤ maxLength) {before after : List (Nat × Nat)}
    {length s : Nat} (hlength : length ≤ maxLength)
    (h : words lengths = before ++ (length, s) :: after) :
    (before.map fun p ↦ 2 ^ (maxLength - p.1)).sum =
      codeValue lengths length s * 2 ^ (maxLength - length) := by
  have hmul : ∀ ps : List (Nat × Nat), (∀ p ∈ ps, p.1 ≤ length) →
      (ps.map fun p ↦ 2 ^ (maxLength - p.1)).sum =
        (ps.map fun p ↦ 2 ^ (length - p.1)).sum * 2 ^ (maxLength - length) := by
    intro ps hps
    induction ps with
    | nil => rw [List.map_nil, List.map_nil, List.sum_nil, Nat.zero_mul]
    | cons p ps ih =>
      have hp := hps p List.mem_cons_self
      have hpow : 2 ^ (maxLength - p.1) = 2 ^ (length - p.1) * 2 ^ (maxLength - length) := by
        rw [← Nat.pow_add]
        congr 1
        omega
      simp only [List.map_cons, List.sum_cons, Nat.add_mul]
      rw [hpow, ih fun q hq ↦ hps q (List.mem_cons_of_mem p hq)]
  rw [((before_perm hb h).map _).sum_nat, codeValue]
  refine hmul _ fun p hp ↦ ?_
  have hprecedes := (List.mem_filter.mp hp).2
  simp only [precedes, decide_eq_true_eq] at hprecedes
  omega

/-! ## The code with given lengths -/

/-- The tree of the words. -/
def tree (lengths : List Nat) : Code := (fill maxLength 0 (words lengths)).1

/-- The words that found no place. -/
def unplaced (lengths : List Nat) : List (Nat × Nat) := (fill maxLength 0 (words lengths)).2

theorem ofLengths?_eq_some_iff {c : Code} :
    ofLengths? lengths = some c ↔
      unplaced lengths = [] ∧ ((tree lengths).isFull = true ∨ (words lengths).length ≤ 1) ∧
        c = tree lengths := by
  simp only [ofLengths?, tree, unplaced]
  split
  · next h =>
    simp only [Bool.and_eq_true, List.isEmpty_iff, Bool.or_eq_true, decide_eq_true_eq] at h
    constructor
    · intro hc
      exact ⟨h.1, h.2, (Option.some.inj hc).symm⟩
    · rintro ⟨-, -, rfl⟩
      rfl
  · next h =>
    simp only [Bool.and_eq_true, List.isEmpty_iff, Bool.or_eq_true, decide_eq_true_eq] at h
    constructor
    · intro hc
      contradiction
    · rintro ⟨hnone, hfull, -⟩
      exact absurd ⟨hnone, hfull⟩ h

theorem words_eq (lengths : List Nat) :
    words lengths = (tree lengths).leaves.map (given 0) ++ unplaced lengths :=
  fill_leaves maxLength 0 (words lengths)

theorem height_tree_le (lengths : List Nat) : (tree lengths).height ≤ maxLength :=
  fill_height_le maxLength 0 (words lengths)

/-- The places that words take, from their lengths. -/
theorem sum_given (depth : Nat) (xs : List (Bits × Nat)) :
    ((xs.map (given 0)).map fun p ↦ 2 ^ (depth - p.1)).sum = weight depth xs := by
  simp [weight, given, Function.comp_def]

/-- The places that the used words take, from where they went. -/
theorem sum_used (hb : ∀ k ∈ lengths, k ≤ maxLength) :
    ((used lengths).map fun p ↦ 2 ^ (maxLength - p.1)).sum =
      weight maxLength (tree lengths).leaves +
        ((unplaced lengths).map fun p ↦ 2 ^ (maxLength - p.1)).sum := by
  rw [← ((words_perm_used hb).map _).sum_nat, words_eq lengths, List.map_append, List.sum_append,
    sum_given]

/-- A word finds no place only when the places are all taken. -/
theorem lt_sum_used (hb : ∀ k ∈ lengths, k ≤ maxLength) (h : unplaced lengths ≠ []) :
    2 ^ maxLength < ((used lengths).map fun p ↦ 2 ^ (maxLength - p.1)).sum := by
  have hfull : (tree lengths).isFull = true := (fill_packed (words_fit lengths)).2.resolve_left h
  rw [sum_used hb, (isFull_iff_weight_eq (height_tree_le lengths)).mp hfull]
  obtain ⟨p, ps, hp⟩ := List.exists_cons_of_ne_nil h
  rw [hp, List.map_cons, List.sum_cons]
  have := Nat.two_pow_pos (maxLength - p.1)
  omega

/-- A code is built from lengths exactly when they describe one. -/
theorem ofLengths?_isSome_iff (hb : ∀ k ∈ lengths, k ≤ maxLength) :
    (∃ c, ofLengths? lengths = some c) ↔ DescribesCode lengths := by
  have hlen : (words lengths).length = (used lengths).length := (words_perm_used hb).length_eq
  have hfull := isFull_iff_weight_eq (height_tree_le lengths)
  have hsum := sum_used hb
  constructor
  · rintro ⟨c, hc⟩
    obtain ⟨hnone, hplaces, -⟩ := ofLengths?_eq_some_iff.mp hc
    rw [hnone, List.map_nil, List.sum_nil, Nat.add_zero] at hsum
    refine hplaces.imp ?_ ?_
    · intro hf
      rw [hsum, hfull.mp hf]
    · intro hle
      rwa [← hlen]
  · intro h
    have hle := h.sum_le
    have hnone : unplaced lengths = [] :=
      Classical.byContradiction fun hne ↦ Nat.not_lt.mpr hle (lt_sum_used hb hne)
    rw [hnone, List.map_nil, List.sum_nil, Nat.add_zero] at hsum
    refine ⟨_, ofLengths?_eq_some_iff.mpr ⟨hnone, h.imp ?_ ?_, rfl⟩⟩
    · intro heq
      rw [hfull, ← hsum, heq]
    · intro hle
      rwa [hlen]

/-- The leaves of the code are the words of its symbols. -/
theorem mem_leaves_iff {c : Code} (hb : ∀ k ∈ lengths, k ≤ maxLength)
    (hc : ofLengths? lengths = some c) {w : Bits} {s : Nat} :
    (w, s) ∈ c.leaves ↔ IsCodeWord lengths s w := by
  obtain ⟨hnone, -, rfl⟩ := ofLengths?_eq_some_iff.mp hc
  have hwords := words_eq lengths
  rw [hnone, List.append_nil] at hwords
  have hleaf : ∀ {w s}, (w, s) ∈ (tree lengths).leaves → IsCodeWord lengths s w := by
    intro w s hmem
    obtain ⟨before, after, hleaves⟩ := List.append_of_mem hmem
    have hplace : words lengths =
        before.map (given 0) ++ (w.length, s) :: after.map (given 0) := by
      rw [hwords, hleaves, List.map_append, List.map_cons, given, Nat.zero_add]
    have hused : (w.length, s) ∈ used lengths := by
      refine (words_perm_used hb).mem_iff.mp ?_
      rw [hplace]
      exact List.mem_append_right _ List.mem_cons_self
    obtain ⟨hlength, hpos⟩ := mem_used.mp hused
    have hle : w.length ≤ maxLength := hb w.length (List.mem_of_getElem? hlength)
    have hpacked : (tree lengths).IsPacked := (fill_packed (words_fit lengths)).1
    have hbefore := hpacked.weight_before (height_tree_le lengths) hleaves
    rw [← sum_given, sum_before_eq hb hle hplace] at hbefore
    exact ⟨hlength, hpos, (Nat.eq_of_mul_eq_mul_right (Nat.two_pow_pos _) hbefore).symm⟩
  constructor
  · exact hleaf
  · intro h
    have hused := mem_used.mpr ⟨h.length_eq, h.length_pos⟩
    have hword : (w.length, s) ∈ words lengths := (words_perm_used hb).mem_iff.mpr hused
    rw [hwords] at hword
    obtain ⟨⟨w', s'⟩, hmem, hg⟩ := List.mem_map.mp hword
    obtain ⟨hlen, rfl⟩ : w'.length = w.length ∧ s' = s := by simpa [given] using hg
    have hvalue : wordValue w' = wordValue w := by
      rw [(hleaf hmem).value_eq, h.value_eq, hlen]
    rwa [← wordValue_injective hlen hvalue]

/-- Reading a symbol takes its word off the front. -/
theorem ofLengths?_read?_eq_some_iff {c : Code} (hb : ∀ k ∈ lengths, k ≤ maxLength)
    (hc : ofLengths? lengths = some c) {bits rest : Bits} {s : Nat} :
    c.read? bits = some (s, rest) ↔ ∃ w, IsCodeWord lengths s w ∧ bits = w ++ rest := by
  have hread : c.read? bits = c.walk? bits := by
    cases c with
    | absent => rfl
    | branch zero one => rfl
    | symbol s' =>
      have hroot : IsCodeWord lengths s' [] := (mem_leaves_iff hb hc).mp List.mem_cons_self
      exact absurd hroot.length_pos (Nat.lt_irrefl 0)
  rw [hread, walk?_eq_some_iff]
  simp only [mem_leaves_iff hb hc]

end Code

end BrowserTrace.Deflate
