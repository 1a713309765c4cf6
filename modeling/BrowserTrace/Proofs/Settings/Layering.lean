import BrowserTrace.Proofs.Lookup
import BrowserTrace.Settings.Layering
import BrowserTrace.Toml.Lexeme
import Mathlib.Data.List.TakeWhile

/-!
# Tables that are laid over others

Laying a table over another one changes the members of the lower table in their places and puts the
new ones behind them (`overlayMembers_eq`).  So what is read from the members of the lower table can
be told key by key, and what follows them are keys that it did not have.  A file whose keys are all
bare is laid over in this way as a whole, since none of its keys is a path (`layer_of_bare`).
-/

namespace BrowserTrace.Setting

variable {key : String} {new : Setting} {f : Setting → Setting}
  {incoming rest members : List (String × Setting)}

/-! ## Changing one member -/

theorem update_of_notMem (h : key ∉ members.map Prod.fst) :
    update key f members = members ++ [(key, f nothing)] := by
  induction members with
  | nil => rfl
  | cons m rest ih =>
    rw [List.map_cons, List.mem_cons, not_or] at h
    rw [update, if_neg (Ne.symm h.1), ih h.2, List.cons_append]

/-- A key that is there keeps its place. -/
theorem update_of_mem (hdistinct : (members.map Prod.fst).Nodup) (h : key ∈ members.map Prod.fst) :
    update key f members = members.map fun m ↦ (m.1, if m.1 = key then f m.2 else m.2) := by
  induction members with
  | nil => contradiction
  | cons m rest ih =>
    rw [List.map_cons, List.nodup_cons] at hdistinct
    by_cases hm : m.1 = key
    · have hrest : ∀ m' ∈ rest, (m'.1, if m'.1 = key then f m'.2 else m'.2) = m' := by
        intro m' hm'
        have hne : m'.1 ≠ key := by
          rintro rfl
          exact hdistinct.1 (hm ▸ List.mem_map_of_mem hm')
        rw [if_neg hne]
      rw [update, if_pos hm, List.map_cons, if_pos hm, List.map_congr_left hrest, List.map_id']
    · have hmem : key ∈ rest.map Prod.fst := (List.mem_cons.mp h).resolve_left (Ne.symm hm)
      rw [update, if_neg hm, ih hdistinct.2 hmem, List.map_cons, if_neg hm]

/-! ## Laying over -/

/-- What becomes of a member of a table when others are laid over it. -/
def laid (incoming : List (String × Setting)) (m : String × Setting) : String × Setting :=
  (m.1, match incoming.lookup m.1 with
    | some new => overlay new m.2
    | none => m.2)

theorem laid_of_lookup {v : Setting} (h : incoming.lookup key = some new) :
    laid incoming (key, v) = (key, overlay new v) := by
  rw [laid, h]

theorem laid_of_lookup_none {v : Setting} (h : incoming.lookup key = none) :
    laid incoming (key, v) = (key, v) := by
  rw [laid, h]

theorem laid_congr {incoming' : List (String × Setting)} {m : String × Setting}
    (h : incoming.lookup m.1 = incoming'.lookup m.1) : laid incoming m = laid incoming' m := by
  rw [laid, laid, h]

/-- A key that comes once is laid over its member alone. -/
theorem laid_cons (hrest : key ∉ rest.map Prod.fst) (m : String × Setting) :
    laid ((key, new) :: rest) m = laid rest (m.1, if m.1 = key then overlay new m.2 else m.2) := by
  obtain ⟨k, v⟩ := m
  by_cases hk : k = key
  · subst hk
    have hnone : rest.lookup k = none := Lookup.lookup_eq_none_iff_notMem.mpr hrest
    rw [if_pos rfl, laid_of_lookup List.lookup_cons_self, laid_of_lookup_none hnone]
  · rw [if_neg hk, laid, laid, List.lookup_cons, beq_eq_false_iff_ne.mpr hk]

/-- The members that come behind those of a table when others are laid over it. -/
def added (incoming members : List (String × Setting)) : List (String × Setting) :=
  (incoming.filter fun m ↦ m.1 ∉ members.map Prod.fst).map fun m ↦ (m.1, overlay m.2 nothing)

theorem keys_laid (incoming members : List (String × Setting)) :
    (members.map (laid incoming)).map Prod.fst = members.map Prod.fst := by
  rw [List.map_map]
  rfl

theorem keys_added (incoming members : List (String × Setting)) :
    (added incoming members).map Prod.fst =
      (incoming.map Prod.fst).filter fun key ↦ key ∉ members.map Prod.fst := by
  rw [added, List.map_map, List.filter_map]
  rfl

theorem notMem_keys_of_mem_added {m : String × Setting} (h : m ∈ added incoming members) :
    m.1 ∉ members.map Prod.fst := by
  have hkey := List.mem_map_of_mem (f := Prod.fst) h
  rw [keys_added] at hkey
  exact of_decide_eq_true (List.mem_filter.mp hkey).2

/-- Only the keys of the lower table decide what is added. -/
theorem added_congr {members' : List (String × Setting)}
    (h : ∀ m ∈ incoming, m.1 ∈ members.map Prod.fst ↔ m.1 ∈ members'.map Prod.fst) :
    added incoming members = added incoming members' := by
  rw [added, added]
  congr 1
  exact List.filter_congr fun m hm ↦ decide_eq_decide.mpr (not_congr (h m hm))

/-- The members of the lower table stay in front, and what comes behind them has new keys. -/
theorem overlayMembers_eq (hincoming : (incoming.map Prod.fst).Nodup)
    (hmembers : (members.map Prod.fst).Nodup) :
    overlayMembers incoming members = members.map (laid incoming) ++ added incoming members := by
  induction incoming generalizing members with
  | nil => exact (List.map_id' members).symm.trans (List.append_nil _).symm
  | cons m rest ih =>
    obtain ⟨key, new⟩ := m
    rw [List.map_cons, List.nodup_cons] at hincoming
    obtain ⟨hrest, hdistinct⟩ := hincoming
    rw [overlayMembers, funext (laid_cons hrest)]
    by_cases hmem : key ∈ members.map Prod.fst
    · have hkeys : (members.map fun m ↦ (m.1, if m.1 = key then overlay new m.2 else m.2)).map
          Prod.fst = members.map Prod.fst := by
        rw [List.map_map]
        rfl
      have hadded : added ((key, new) :: rest) members = added rest members := by
        rw [added, List.filter_cons_of_neg (by simpa using hmem), added]
      rw [update_of_mem hmembers hmem, ih hdistinct (hkeys ▸ hmembers), hadded, List.map_map]
      congr 1
      exact added_congr fun _ _ ↦ by rw [hkeys]
    · have hnew := Lookup.nodup_keys_concat hmembers hmem (overlay new nothing)
      have hkept : members.map (laid rest) = members.map fun m ↦
          laid rest (m.1, if m.1 = key then overlay new m.2 else m.2) := by
        refine List.map_congr_left ?_
        intro m hm
        have hne : m.1 ≠ key := fun h ↦ hmem (h ▸ List.mem_map_of_mem hm)
        rw [if_neg hne]
      have hadded : added ((key, new) :: rest) members =
          (key, overlay new nothing) :: added rest members := by
        rw [added, List.filter_cons_of_pos (by simpa using hmem), List.map_cons, added]
      -- The new member is not changed any more, since its key comes once.
      have hlast : laid rest (key, overlay new nothing) = (key, overlay new nothing) :=
        laid_of_lookup_none (Lookup.lookup_eq_none_iff_notMem.mpr hrest)
      have hlater : added rest (members ++ [(key, overlay new nothing)]) = added rest members := by
        refine added_congr ?_
        intro m hm
        have hin : m.1 ∈ rest.map Prod.fst := List.mem_map_of_mem hm
        have hne : m.1 ≠ key := fun h ↦ hrest (h ▸ hin)
        rw [List.map_append, List.mem_append, List.map_singleton, List.mem_singleton]
        exact or_iff_left hne
      rw [update_of_notMem hmem, ih hdistinct hnew, List.map_append, List.map_singleton, hlast,
        hlater, hadded, hkept, List.append_assoc, List.singleton_append]

/-! ## Keys that are no paths -/

theorem pathOf_of_bare (h : ∀ c ∈ key.toList, Toml.isKeyChar c) : pathOf key = (key, []) := by
  have htake : key.toList.takeWhile isNameChar = key.toList := List.takeWhile_eq_self_iff.mpr h
  have hdrop : key.toList.dropWhile isNameChar = [] := List.dropWhile_eq_nil_iff.mpr h
  have hsteps : steps? [] = some [] := by rw [steps?]
  simp only [pathOf, htake, hdrop, hsteps]
  split
  · rfl
  · contradiction
  · next steps heq _ =>
    rw [← Option.some.inj heq, String.ofList_toList]

/-- Settings whose keys are bare are laid over key by key. -/
theorem layer_of_bare (h : ∀ m ∈ incoming, ∀ c ∈ m.1.toList, Toml.isKeyChar c) :
    layer incoming members = overlayMembers incoming members := by
  induction incoming generalizing members with
  | nil => rw [layer, List.foldl_nil, overlayMembers]
  | cons m rest ih =>
    obtain ⟨key, new⟩ := m
    rw [List.forall_mem_cons] at h
    rw [overlayMembers, ← ih h.2, layer, List.foldl_cons]
    dsimp only at h ⊢
    rw [pathOf_of_bare h.1]
    rfl

end BrowserTrace.Setting
