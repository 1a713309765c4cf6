import BrowserTrace.Proofs.Settings.Layering
import BrowserTrace.Settings.Load

/-!
# Reading settings that lie over the defaults

A group of settings is read from a table that lies over the one of its defaults.  Such a table gives
every key of the group in the order of the defaults, and other keys after them, which are noted and
change nothing else (`readGroup_overlay`).  What a setting means does not depend on the default below
it, so each key of the group is what the upper table gives for it, or else the default.
-/

namespace BrowserTrace

namespace Setting

/-! ## Meanings -/

/-- What means nothing as a table means the same over any other setting. -/
theorem meaning_overlay {α : Type} {meaning : Setting → Option α}
    (htable : ∀ members, meaning (table members) = none) (new old : Setting) :
    meaning (overlay new old) = meaning new := by
  unfold overlay
  split
  · rw [htable, htable]
  · rfl

/-! ## Groups -/

section Groups

variable {σ α : Type} {keys : List (Key σ)} {start s : σ}
  {incoming known extras members : List (String × Setting)}

/-- What was read, where neither unknown keys nor the place of an error matter. -/
def valueOf? : Except Path (Read α) → Option α
  | .ok r => some r.value
  | .error _ => none

theorem valueOf?_eq_some_iff {read : Except Path (Read α)} {a : α} :
    valueOf? read = some a ↔ ∃ unknown, read = .ok ⟨a, unknown⟩ := by
  cases read with
  | error place => simp [valueOf?]
  | ok r =>
    obtain ⟨value, unknown⟩ := r
    simp [valueOf?]

theorem valueOf?_reading (f : Setting → Option α) (v : Setting) :
    valueOf? (reading f v) = f v := by
  unfold reading
  split
  · next h => exact h.symm
  · next h => exact h.symm

/-- A key whose setting is a part of the group puts it there. -/
theorem valueOf?_of {name : String} {read : Reader α} {set : α → σ → σ} (v : Setting) :
    valueOf? ((Key.of name read set).read v) = (valueOf? (read v)).map set := by
  simp only [Key.of]
  cases read v <;> rfl

/-- What members of a table make of a group, where only the values of the keys matter. -/
def applied? (keys : List (Key σ)) : List (String × Setting) → σ → Option σ
  | [], s => some s
  | (name, v) :: rest, s =>
    match keys.find? (·.name == name) with
    | none => applied? keys rest s
    | some key => (valueOf? (key.read v)).bind fun change ↦ applied? keys rest (change s)

/-- A member with the key of a part of the group sets this part. -/
theorem applied?_cons_eq_some_iff {name : String} {v : Setting} {t : σ} {read : Reader α}
    {set : α → σ → σ} (hkey : keys.find? (·.name == name) = some (.of name read set)) :
    applied? keys ((name, v) :: members) s = some t ↔
      ∃ a, valueOf? (read v) = some a ∧ applied? keys members (set a s) = some t := by
  rw [applied?, hkey, ← Option.bind_eq_some_iff]
  simp only [valueOf?_of, Option.bind_map, Function.comp_def]

theorem valueOf?_readMembers (members : List (String × Setting)) (r : Read σ) :
    valueOf? (readMembers keys members r) = applied? keys members r.value := by
  induction members generalizing r with
  | nil => rfl
  | cons m rest ih =>
    obtain ⟨name, v⟩ := m
    rw [readMembers, applied?]
    cases keys.find? (·.name == name) with
    | none => exact ih _
    | some key =>
      dsimp only
      cases key.read v with
      | error place => rfl
      | ok change => exact ih _

/-! ## Unknown keys -/

/-- The places of keys. -/
def keyPaths (keys : List String) : List Path := keys.map fun key ↦ [.key key]

/-- What was read, with more unknown keys. -/
def Read.note (paths : List Path) (r : Read α) : Read α := { r with unknown := r.unknown ++ paths }

theorem Read.note_note (ps qs : List Path) (r : Read α) : (r.note ps).note qs = r.note (ps ++ qs) := by
  simp only [note, List.append_assoc]

theorem valueOf?_map_note (paths : List Path) (read : Except Path (Read α)) :
    valueOf? (read.map (Read.note paths)) = valueOf? read := by
  cases read <;> rfl

/-- Members with other keys than those of a group are noted. -/
theorem readMembers_of_unknown (h : ∀ m ∈ extras, m.1 ∉ keys.map Key.name) (r : Read σ) :
    readMembers keys extras r = .ok (r.note (keyPaths (extras.map Prod.fst))) := by
  induction extras generalizing r with
  | nil => rw [readMembers, List.map_nil, keyPaths, List.map_nil, Read.note, List.append_nil]
  | cons m rest ih =>
    obtain ⟨name, v⟩ := m
    rw [List.forall_mem_cons] at h
    have hnone : keys.find? (·.name == name) = none := by
      rw [List.find?_eq_none]
      intro key hkey heq
      exact h.1 (List.mem_map.mpr ⟨key, hkey, beq_iff_eq.mp heq⟩)
    have hnote : r.note (keyPaths (((name, v) :: rest).map Prod.fst)) =
        (r.note [[.key name]]).note (keyPaths (rest.map Prod.fst)) := by
      rw [Read.note_note]
      rfl
    rw [readMembers, hnone, hnote]
    exact ih h.2 _

theorem readMembers_append_unknown (h : ∀ m ∈ extras, m.1 ∉ keys.map Key.name) (r : Read σ) :
    readMembers keys (known ++ extras) r =
      (readMembers keys known r).map (Read.note (keyPaths (extras.map Prod.fst))) := by
  induction known generalizing r with
  | nil => exact readMembers_of_unknown h r
  | cons m rest ih =>
    obtain ⟨name, v⟩ := m
    rw [List.cons_append, readMembers, readMembers]
    cases keys.find? (·.name == name) with
    | none => exact ih _
    | some key =>
      dsimp only
      cases under (.key name) (key.read v) with
      | error place => rfl
      | ok change => exact ih _

/-- A table that gives all keys of a group is read by its members. -/
theorem readGroup_of_keys (h : ∀ key ∈ keys, key.name ∈ members.map Prod.fst) :
    readGroup keys start (.table members) = readMembers keys members { value := start } := by
  have hall : (keys.all fun key ↦ members.any (·.1 == key.name)) = true := by
    rw [List.all_eq_true]
    intro key hkey
    obtain ⟨m, hm, hname⟩ := List.mem_map.mp (h key hkey)
    exact List.any_eq_true.mpr ⟨m, hm, beq_iff_eq.mpr hname⟩
  rw [readGroup, hall]
  cases readMembers keys members { value := start } <;> rfl

/-- A group is read from a table over its defaults as each default with its own setting over it, and
the new keys are noted. -/
theorem readGroup_overlay (hincoming : (incoming.map Prod.fst).Nodup)
    (hknown : known.map Prod.fst = keys.map Key.name) (hdistinct : (keys.map Key.name).Nodup) :
    readGroup keys start (.table (overlayMembers incoming known)) =
      (readMembers keys (known.map (laid incoming)) { value := start }).map
        (Read.note (keyPaths ((added incoming known).map Prod.fst))) := by
  have hkeys := (keys_laid incoming known).trans hknown
  rw [overlayMembers_eq hincoming (hknown ▸ hdistinct), readGroup_of_keys, readMembers_append_unknown]
  · intro m hm
    rw [← hknown]
    exact notMem_keys_of_mem_added hm
  · intro key hkey
    rw [List.map_append, hkeys]
    exact List.mem_append_left _ (List.mem_map_of_mem hkey)

theorem valueOf?_readGroup_overlay (hincoming : (incoming.map Prod.fst).Nodup)
    (hknown : known.map Prod.fst = keys.map Key.name) (hdistinct : (keys.map Key.name).Nodup) :
    valueOf? (readGroup keys start (.table (overlayMembers incoming known))) =
      applied? keys (known.map (laid incoming)) start := by
  rw [readGroup_overlay hincoming hknown hdistinct, valueOf?_map_note, valueOf?_readMembers]

/-- A member with the key of a part of the group is read as this part. -/
theorem readMembers_cons_of {name : String} {v : Setting} {read : Reader α} {set : α → σ → σ}
    (hkey : keys.find? (·.name == name) = some (.of name read set)) (r : Read σ) :
    readMembers keys ((name, v) :: members) r =
      match read v with
      | .error place => .error (.key name :: place)
      | .ok change => readMembers keys members
        { value := set change.value r.value
          unknown := r.unknown ++ change.unknown.map (.key name :: ·) } := by
  rw [readMembers, hkey]
  simp only [Key.of]
  cases read v <;> rfl

/-- A key whose settings have no unknown keys inside. -/
def Key.Quiet (key : Key σ) : Prop := ∀ v r, key.read v = .ok r → r.unknown = []

theorem Key.quiet_of_reading (name : String) (f : Setting → Option α) (set : α → σ → σ) :
    (Key.of name (reading f) set).Quiet := by
  intro v r h
  simp only [Key.of, reading] at h
  cases hv : f v with
  | none =>
    rw [hv] at h
    contradiction
  | some a =>
    rw [hv] at h
    obtain rfl := Except.ok.inj h
    rfl

/-- Where only known keys are read, and none has unknown ones inside, nothing is collected. -/
theorem unknown_readMembers (hquiet : ∀ key ∈ keys, key.Quiet)
    (hmembers : ∀ m ∈ members, m.1 ∈ keys.map Key.name) {r r' : Read σ}
    (h : readMembers keys members r = .ok r') : r'.unknown = r.unknown := by
  induction members generalizing r with
  | nil =>
    obtain rfl := Except.ok.inj h
    rfl
  | cons m rest ih =>
    obtain ⟨name, v⟩ := m
    rw [List.forall_mem_cons] at hmembers
    rw [readMembers] at h
    split at h
    · next hnone =>
      obtain ⟨key, hkey, rfl⟩ := List.mem_map.mp hmembers.1
      exact absurd (beq_self_eq_true _) (List.find?_eq_none.mp hnone key hkey)
    · next key hkey =>
      cases hread : key.read v with
      | error place =>
        rw [hread] at h
        contradiction
      | ok change =>
        rw [hread] at h
        have hnone : change.unknown = [] := hquiet key (List.mem_of_find?_eq_some hkey) v change hread
        rw [ih hmembers.2 h, hnone, List.map_nil, List.append_nil]

end Groups

end Setting

end BrowserTrace
