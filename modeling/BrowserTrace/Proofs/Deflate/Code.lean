import BrowserTrace.Deflate.Code
import Mathlib.Algebra.Order.Ring.Nat

/-!
# The words of a prefix code

A code is read by walking its tree, so its words are the paths to its leaves (`Code.leaves`), and
what the walk takes off a bit stream is one of these words (`Code.walk?_eq_some_iff`).  `Code.fill`
puts given words into a tree from left to right.  Two facts about the result fix where each word
goes: the leaves are the given words in their order (`Code.fill_leaves`), and no place is left free
in front of a leaf (`Code.fill_packed`).  Hence the places in front of a word, counted at the depth
of the word, are the number that the word spells (`Code.IsPacked.weight_before`).
-/

namespace BrowserTrace.Deflate

namespace Code

/-! ## Leaves -/

/-- The words of a code with their symbols, from left to right. -/
def leaves : Code → List (Bits × Nat)
  | absent => []
  | symbol s => [([], s)]
  | branch zero one =>
    zero.leaves.map (Prod.map (false :: ·) id) ++ one.leaves.map (Prod.map (true :: ·) id)

theorem mem_leaves_branch {zero one : Code} {w : Bits} {s : Nat} :
    (w, s) ∈ (branch zero one).leaves ↔
      ∃ b w', w = b :: w' ∧ (w', s) ∈ (if b then one else zero).leaves := by
  simp only [leaves, List.mem_append, List.mem_map, Prod.exists, Prod.map_apply, id, Prod.mk.injEq]
  constructor
  · rintro (⟨w', s', hmem, rfl, rfl⟩ | ⟨w', s', hmem, rfl, rfl⟩)
    · exact ⟨false, w', rfl, hmem⟩
    · exact ⟨true, w', rfl, hmem⟩
  · rintro ⟨b, w', rfl, hmem⟩
    cases b with
    | false => exact .inl ⟨w', s, hmem, rfl, rfl⟩
    | true => exact .inr ⟨w', s, hmem, rfl, rfl⟩

/-- Walking takes one of the words off the front. -/
theorem walk?_eq_some_iff {c : Code} {bits rest : Bits} {s : Nat} :
    c.walk? bits = some (s, rest) ↔ ∃ w, (w, s) ∈ c.leaves ∧ bits = w ++ rest := by
  induction c generalizing bits with
  | absent => simp [walk?, leaves]
  | symbol s' =>
    simp only [walk?, leaves, Option.some.injEq, Prod.mk.injEq, List.mem_singleton]
    constructor
    · rintro ⟨rfl, rfl⟩
      exact ⟨[], ⟨rfl, rfl⟩, rfl⟩
    · rintro ⟨w, ⟨rfl, rfl⟩, rfl⟩
      exact ⟨rfl, rfl⟩
  | branch zero one ihz iho =>
    simp only [mem_leaves_branch]
    cases bits with
    | nil =>
      constructor
      · intro h
        simp [walk?] at h
      · rintro ⟨_, ⟨b, w, rfl, _⟩, h⟩
        contradiction
    | cons b bits =>
      have hstep : walk? (branch zero one) (b :: bits) = some (s, rest) ↔
          ∃ w, (w, s) ∈ (if b then one else zero).leaves ∧ bits = w ++ rest := by
        cases b with
        | false => exact ihz
        | true => exact iho
      rw [hstep]
      constructor
      · rintro ⟨w, hmem, rfl⟩
        exact ⟨b :: w, ⟨b, w, rfl, hmem⟩, rfl⟩
      · rintro ⟨_, ⟨b', w, rfl, hmem⟩, h⟩
        obtain ⟨rfl, hbits⟩ := List.cons.inj h
        exact ⟨w, hmem, hbits⟩

/-- A place in the leaves of a branch is one in the leaves of either side; the words below zero are
all in front of those below one. -/
theorem leaves_branch_split {zero one : Code} {before after : List (Bits × Nat)} {w : Bits}
    {s : Nat} (h : (branch zero one).leaves = before ++ (w, s) :: after) :
    (∃ before' w' after', zero.leaves = before' ++ (w', s) :: after' ∧
        before = before'.map (Prod.map (false :: ·) id) ∧ w = false :: w') ∨
      ∃ before' w' after', one.leaves = before' ++ (w', s) :: after' ∧
        before = zero.leaves.map (Prod.map (false :: ·) id) ++
          before'.map (Prod.map (true :: ·) id) ∧
        w = true :: w' := by
  have below : ∀ {b : Bool} {xs before after : List (Bits × Nat)},
      xs.map (Prod.map (b :: ·) id) = before ++ (w, s) :: after →
        ∃ before' w' after', xs = before' ++ (w', s) :: after' ∧
          before = before'.map (Prod.map (b :: ·) id) ∧ w = b :: w' := by
    intro b xs before after hxs
    obtain ⟨before', rest, rfl, rfl, hrest⟩ := List.map_eq_append_iff.mp hxs
    obtain ⟨⟨w', s'⟩, after', rfl, hw, -⟩ := List.map_eq_cons_iff.mp hrest
    obtain ⟨rfl, rfl⟩ : b :: w' = w ∧ s' = s := by simpa using hw
    exact ⟨before', w', after', rfl, rfl, rfl⟩
  rw [leaves, List.append_eq_append_iff] at h
  rcases h with ⟨before', rfl, hone⟩ | ⟨after', hzero, hone⟩
  · obtain ⟨before', w', after', hleaves, rfl, rfl⟩ := below hone
    exact .inr ⟨before', w', after', hleaves, rfl, rfl⟩
  · cases after' with
    | nil =>
      have hfirst : one.leaves.map (Prod.map (true :: ·) id) = [] ++ (w, s) :: after := hone.symm
      obtain ⟨before', w', after', hleaves, hb, rfl⟩ := below hfirst
      rw [List.append_nil] at hzero
      refine .inr ⟨before', w', after', hleaves, ?_, rfl⟩
      rw [← hb, List.append_nil, hzero]
    | cons p after' =>
      obtain ⟨rfl, -⟩ := List.cons.inj hone
      exact .inl (below hzero)

/-! ## Weights

At depth `depth` a code has `2 ^ depth` places, of which a shorter word takes all those below it. -/

/-- The greatest number of bits of a place. -/
def height : Code → Nat
  | absent | symbol _ => 0
  | branch zero one => max zero.height one.height + 1

theorem length_le_height {c : Code} {w : Bits} {s : Nat} (h : (w, s) ∈ c.leaves) :
    w.length ≤ c.height := by
  induction c generalizing w with
  | absent => simp [leaves] at h
  | symbol s' =>
    obtain ⟨rfl, rfl⟩ : w = [] ∧ s = s' := by simpa [leaves] using h
    exact Nat.le_refl 0
  | branch zero one ihz iho =>
    obtain ⟨b, w', rfl, hmem⟩ := mem_leaves_branch.mp h
    rw [List.length_cons, height]
    cases b with
    | false => exact Nat.succ_le_succ (Nat.le_trans (ihz hmem) (Nat.le_max_left ..))
    | true => exact Nat.succ_le_succ (Nat.le_trans (iho hmem) (Nat.le_max_right ..))

/-- The number of places at a depth that words take. -/
def weight (depth : Nat) (words : List (Bits × Nat)) : Nat :=
  (words.map fun p ↦ 2 ^ (depth - p.1.length)).sum

theorem weight_append (depth : Nat) (xs ys : List (Bits × Nat)) :
    weight depth (xs ++ ys) = weight depth xs + weight depth ys := by
  simp [weight]

theorem weight_map_cons (depth : Nat) (b : Bool) (xs : List (Bits × Nat)) :
    weight (depth + 1) (xs.map (Prod.map (b :: ·) id)) = weight depth xs := by
  simp only [weight, List.map_map]
  congr 2
  funext p
  simp

theorem weight_leaves_branch (depth : Nat) (zero one : Code) :
    weight (depth + 1) (branch zero one).leaves =
      weight depth zero.leaves + weight depth one.leaves := by
  rw [leaves, weight_append, weight_map_cons, weight_map_cons]

/-- Words of a code never take more places than there are. -/
theorem weight_leaves_le {c : Code} {depth : Nat} (hh : c.height ≤ depth) :
    weight depth c.leaves ≤ 2 ^ depth := by
  induction c generalizing depth with
  | absent => simp [weight, leaves]
  | symbol s => simp [weight, leaves]
  | branch zero one ihz iho =>
    cases depth with
    | zero => simp [height] at hh
    | succ depth =>
      simp only [height, Nat.add_le_add_iff_right, Nat.max_le] at hh
      have hz := ihz hh.1
      have ho := iho hh.2
      rw [weight_leaves_branch, Nat.pow_succ]
      omega

/-- A code is full exactly when its words take all places. -/
theorem isFull_iff_weight_eq {c : Code} {depth : Nat} (hh : c.height ≤ depth) :
    c.isFull = true ↔ weight depth c.leaves = 2 ^ depth := by
  induction c generalizing depth with
  | absent =>
    have hpos := Nat.two_pow_pos depth
    simp only [isFull, weight, leaves, List.map_nil, List.sum_nil]
    constructor
    · exact fun h ↦ absurd h Bool.false_ne_true
    · intro h
      rw [← h] at hpos
      exact absurd hpos (Nat.lt_irrefl 0)
  | symbol s => simp [weight, leaves, isFull]
  | branch zero one ihz iho =>
    cases depth with
    | zero => simp [height] at hh
    | succ depth =>
      simp only [height, Nat.add_le_add_iff_right, Nat.max_le] at hh
      have hz := weight_leaves_le hh.1
      have ho := weight_leaves_le hh.2
      rw [isFull, Bool.and_eq_true, ihz hh.1, iho hh.2, weight_leaves_branch, Nat.pow_succ]
      omega

/-! ## Packed codes -/

/-- The number that a word spells, the highest bit first. -/
def wordValue : Bits → Nat
  | [] => 0
  | b :: w => b.toNat * 2 ^ w.length + wordValue w

theorem wordValue_lt (w : Bits) : wordValue w < 2 ^ w.length := by
  induction w with
  | nil => exact Nat.one_pos
  | cons b w ih =>
    rw [wordValue, List.length_cons, Nat.pow_succ]
    cases b with
    | false => simp only [Bool.toNat_false]; omega
    | true => simp only [Bool.toNat_true]; omega

/-- Words of one length differ in the numbers that they spell. -/
theorem wordValue_injective {w w' : Bits} (hlen : w.length = w'.length)
    (h : wordValue w = wordValue w') : w = w' := by
  induction w generalizing w' with
  | nil => exact (List.length_eq_zero_iff.mp hlen.symm).symm
  | cons b w ih =>
    cases w' with
    | nil => contradiction
    | cons b' w' =>
      have hrest : w.length = w'.length := Nat.succ.inj hlen
      have hw := wordValue_lt w
      have hw' := wordValue_lt w'
      rw [wordValue, wordValue, hrest] at h
      rw [hrest] at hw
      obtain rfl : b = b' := by
        cases b <;> cases b' <;> simp at h ⊢ <;> omega
      rw [ih hrest (Nat.add_left_cancel h)]

/-- No place in front of a leaf is free. -/
def IsPacked : Code → Prop
  | absent | symbol _ => True
  | branch zero one => zero.IsPacked ∧ one.IsPacked ∧ (one.leaves = [] ∨ zero.isFull = true)

/-- The places that the words in front of a word take are those whose number is less than the one
that the word spells. -/
theorem IsPacked.weight_before {c : Code} (hp : c.IsPacked) {depth : Nat} (hh : c.height ≤ depth)
    {before after : List (Bits × Nat)} {w : Bits} {s : Nat}
    (hc : c.leaves = before ++ (w, s) :: after) :
    weight depth before = wordValue w * 2 ^ (depth - w.length) := by
  induction c generalizing depth before after w with
  | absent => simp [leaves] at hc
  | symbol s' =>
    obtain ⟨rfl, h⟩ | ⟨_, _, h⟩ := List.append_eq_cons_iff.mp hc.symm
    · obtain ⟨⟨rfl, -⟩, -⟩ := by simpa using h
      simp [weight, wordValue]
    · simp at h
  | branch zero one ihz iho =>
    cases depth with
    | zero => simp [height] at hh
    | succ depth =>
      simp only [height, Nat.add_le_add_iff_right, Nat.max_le] at hh
      obtain ⟨hpz, hpo, hfull⟩ := hp
      rcases leaves_branch_split hc with
        ⟨before', w', after', hzero, rfl, rfl⟩ | ⟨before', w', after', hone, rfl, rfl⟩
      · have hrest := ihz hpz hh.1 hzero
        rw [weight_map_cons, hrest, wordValue, List.length_cons, Nat.add_sub_add_right,
          Bool.toNat_false, Nat.zero_mul, Nat.zero_add]
      · -- All words below zero are in front, and they take every place there.
        have hrest := iho hpo hh.2 hone
        have hne : one.leaves ≠ [] := by simp [hone]
        have hzero := (isFull_iff_weight_eq hh.1).mp (hfull.resolve_left hne)
        have hmem : (w', s) ∈ one.leaves := by simp [hone]
        have hlen : w'.length ≤ depth := Nat.le_trans (length_le_height hmem) hh.2
        have hpow : 2 ^ w'.length * 2 ^ (depth - w'.length) = 2 ^ depth := by
          rw [← Nat.pow_add, Nat.add_sub_cancel' hlen]
        rw [weight_append, weight_map_cons, weight_map_cons, hzero, hrest, wordValue,
          List.length_cons, Nat.add_sub_add_right, Nat.add_mul, Bool.toNat_true, Nat.one_mul, hpow]

/-! ## Filling -/

theorem fill_nil (levels depth : Nat) : fill levels depth [] = (absent, []) := by
  cases levels <;> rfl

theorem fill_cons_same {levels depth s : Nat} {ws : List (Nat × Nat)} :
    fill levels depth ((depth, s) :: ws) = (symbol s, ws) := by
  cases levels <;> simp [fill]

theorem fill_cons_deeper {levels depth length s : Nat} {ws : List (Nat × Nat)}
    (h : length ≠ depth) :
    fill (levels + 1) depth ((length, s) :: ws) =
      let zero := fill levels (depth + 1) ((length, s) :: ws)
      let one := fill levels (depth + 1) zero.2
      (branch zero.1 one.1, one.2) := by
  simp [fill, h]

/-- A word as it is given: its length and its symbol. -/
def given (depth : Nat) (p : Bits × Nat) : Nat × Nat := (depth + p.1.length, p.2)

theorem map_given_map_cons (depth : Nat) (b : Bool) (xs : List (Bits × Nat)) :
    (xs.map (Prod.map (b :: ·) id)).map (given depth) = xs.map (given (depth + 1)) := by
  rw [List.map_map]
  congr 1
  funext p
  simp [given, Nat.add_comm, Nat.add_left_comm]

/-- Filling uses the words from the front on, and keeps their order. -/
theorem fill_leaves (levels depth : Nat) (ws : List (Nat × Nat)) :
    ws = (fill levels depth ws).1.leaves.map (given depth) ++ (fill levels depth ws).2 := by
  induction levels generalizing depth ws with
  | zero =>
    rcases ws with - | ⟨⟨length, s⟩, ws⟩
    · rfl
    · simp only [fill]
      split
      · next h => simp [leaves, given, h]
      · rfl
  | succ levels ih =>
    rcases ws with - | ⟨⟨length, s⟩, ws⟩
    · rfl
    · by_cases h : length = depth
      · subst h
        rw [fill_cons_same]
        rfl
      · have hzero := ih (depth + 1) ((length, s) :: ws)
        have hone := ih (depth + 1) (fill levels (depth + 1) ((length, s) :: ws)).2
        rw [fill_cons_deeper h]
        simp only [leaves, List.map_append, map_given_map_cons, List.append_assoc]
        rw [← hone]
        exact hzero

theorem fill_height_le (levels depth : Nat) (ws : List (Nat × Nat)) :
    (fill levels depth ws).1.height ≤ levels := by
  induction levels generalizing depth ws with
  | zero =>
    rcases ws with - | ⟨⟨length, s⟩, ws⟩
    · exact Nat.le_refl 0
    · simp only [fill]
      split <;> exact Nat.le_refl 0
  | succ levels ih =>
    rcases ws with - | ⟨⟨length, s⟩, ws⟩
    · exact Nat.zero_le _
    · by_cases h : length = depth
      · subst h
        rw [fill_cons_same]
        exact Nat.zero_le _
      · rw [fill_cons_deeper h]
        exact Nat.succ_le_succ (Nat.max_le.mpr ⟨ih .., ih ..⟩)

/-- Words that fit below a node, the shorter ones first. -/
structure Fit (levels depth : Nat) (ws : List (Nat × Nat)) : Prop where
  sorted : ws.Pairwise fun p q ↦ p.1 ≤ q.1
  bounds : ∀ p ∈ ws, depth ≤ p.1 ∧ p.1 ≤ depth + levels

theorem Fit.suffix {levels depth : Nat} {xs ys : List (Nat × Nat)}
    (h : Fit levels depth (xs ++ ys)) : Fit levels depth ys :=
  ⟨(List.pairwise_append.mp h.sorted).2.1, fun p hp ↦ h.bounds p (List.mem_append_right xs hp)⟩

theorem Fit.deeper {levels depth length s : Nat} {ws : List (Nat × Nat)}
    (h : Fit (levels + 1) depth ((length, s) :: ws)) (hne : length ≠ depth) :
    Fit levels (depth + 1) ((length, s) :: ws) := by
  refine ⟨h.sorted, fun p hp ↦ ?_⟩
  have hfirst := h.bounds (length, s) List.mem_cons_self
  have hp' := h.bounds p hp
  have hle : length ≤ p.1 := by
    rcases List.mem_cons.mp hp with rfl | hp
    · exact Nat.le_refl _
    · exact List.rel_of_pairwise_cons h.sorted hp
  simp only at hfirst
  omega

/-- Filling leaves no place free in front of a word, and words without a place only when none is
left. -/
theorem fill_packed {levels depth : Nat} {ws : List (Nat × Nat)} (h : Fit levels depth ws) :
    (fill levels depth ws).1.IsPacked ∧
      ((fill levels depth ws).2 = [] ∨ (fill levels depth ws).1.isFull = true) := by
  induction levels generalizing depth ws with
  | zero =>
    rcases ws with - | ⟨⟨length, s⟩, ws⟩
    · exact ⟨trivial, .inl rfl⟩
    · have hlength : length = depth := by
        have := h.bounds (length, s) List.mem_cons_self
        simp only at this
        omega
      subst hlength
      rw [fill_cons_same]
      exact ⟨trivial, .inr rfl⟩
  | succ levels ih =>
    rcases ws with - | ⟨⟨length, s⟩, ws⟩
    · exact ⟨trivial, .inl rfl⟩
    · by_cases hne : length = depth
      · subst hne
        rw [fill_cons_same]
        exact ⟨trivial, .inr rfl⟩
      · have hdeeper := h.deeper hne
        obtain ⟨hpz, hz⟩ := ih hdeeper
        have hleft : Fit levels (depth + 1) (fill levels (depth + 1) ((length, s) :: ws)).2 := by
          rw [fill_leaves levels (depth + 1) ((length, s) :: ws)] at hdeeper
          exact hdeeper.suffix
        obtain ⟨hpo, ho⟩ := ih hleft
        rw [fill_cons_deeper hne]
        dsimp only
        rcases hz with hnone | hfull
        · rw [hnone, fill_nil] at hpo ho ⊢
          exact ⟨⟨hpz, hpo, .inl rfl⟩, .inl rfl⟩
        · refine ⟨⟨hpz, hpo, .inr hfull⟩, ho.imp_right fun hone ↦ ?_⟩
          rw [isFull, hfull, hone]
          rfl

end Code

end BrowserTrace.Deflate
