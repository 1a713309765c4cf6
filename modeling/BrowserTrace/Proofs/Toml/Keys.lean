import BrowserTrace.Proofs.Lookup
import BrowserTrace.Toml.Document

/-!
# Keys of a TOML document

A document gives each key once, and so does every table in it, at any depth (`document?_distinct`).
Its tables grow statement by statement, and whatever adds to one of them changes what stands under a
key that is there, or puts a new key behind the others: `Draft.update` is the one place where that is
shown, and a table that is moved behind its neighbours is taken away from where it stood.
-/

namespace BrowserTrace.Toml

/-- Every table of the value, at any depth, has distinct keys. -/
inductive Value.Distinct : Value → Prop
  | text (s : String) : Distinct (.text s)
  | integer (i : Int) : Distinct (.integer i)
  | float (x : Number.Extended) : Distinct (.float x)
  | boolean (b : Bool) : Distinct (.boolean b)
  | moment (m : Moment) : Distinct (.moment m)
  | array {items : List Value} (hitems : ∀ v ∈ items, Distinct v) : Distinct (.array items)
  | table {members : Table} (hkeys : (members.map Prod.fst).Nodup)
      (hmembers : ∀ m ∈ members, Distinct m.2) : Distinct (.table members)

namespace Value.Distinct

variable {t : Table} {key : String} {v : Value}

theorem keys_nodup (h : (Value.table t).Distinct) : (t.map Prod.fst).Nodup := by
  cases h with
  | table hkeys hmembers => exact hkeys

theorem lookup (h : (Value.table t).Distinct) (hv : t.lookup key = some v) : v.Distinct := by
  cases h with
  | table hkeys hmembers =>
    obtain ⟨l₁, l₂, rfl, -⟩ := List.lookup_eq_some_iff.mp hv
    exact hmembers (key, v) (List.mem_append_right _ List.mem_cons_self)

end Value.Distinct

/-- Every table under construction below the node has distinct keys, and so do the finished ones. -/
inductive Node.Distinct : Node → Prop
  | value {v : Value} (hv : v.Distinct) : Distinct (.value v)
  | table (origin : Origin) {members : Draft} (hkeys : (members.map Prod.fst).Nodup)
      (hmembers : ∀ m ∈ members, Distinct m.2) : Distinct (.table origin members)
  | tables {items : List Draft} (hkeys : ∀ members ∈ items, (members.map Prod.fst).Nodup)
      (hmembers : ∀ members ∈ items, ∀ m ∈ members, Distinct m.2) : Distinct (.tables items)

namespace Draft

/-- A table under construction whose keys are distinct, as are those of all tables below it. -/
structure Distinct (draft : Draft) : Prop where
  keys : (draft.map Prod.fst).Nodup
  members : ∀ m ∈ draft, m.2.Distinct

theorem distinct_nil : Distinct [] := ⟨List.nodup_nil, List.forall_mem_nil _⟩

theorem distinct_table_iff {origin : Origin} {members : Draft} :
    (Node.table origin members).Distinct ↔ Distinct members := by
  constructor
  · rintro ⟨⟩
    next hkeys hmembers => exact ⟨hkeys, hmembers⟩
  · intro h
    exact .table origin h.keys h.members

theorem distinct_tables_iff {items : List Draft} :
    (Node.tables items).Distinct ↔ ∀ members ∈ items, Distinct members := by
  constructor
  · rintro ⟨⟩
    next hkeys hmembers => exact fun members hm ↦ ⟨hkeys members hm, hmembers members hm⟩
  · intro h
    exact .tables (fun members hm ↦ (h members hm).keys) fun members hm ↦ (h members hm).members

/-! ## Changing one key -/

section Update

variable {key : String} {f : Option Node → Option Node} {draft draft' : Draft}

/-- A key that is there keeps its place, and a new one goes to the end. -/
theorem keys_update (h : draft.update key f = some draft') :
    draft'.map Prod.fst =
      if key ∈ draft.map Prod.fst then draft.map Prod.fst else draft.map Prod.fst ++ [key] := by
  induction draft generalizing draft' with
  | nil =>
    obtain ⟨node, -, rfl⟩ := Option.map_eq_some_iff.mp h
    rfl
  | cons m rest ih =>
    obtain ⟨k, node⟩ := m
    by_cases hk : k = key
    · rw [update, if_pos hk] at h
      obtain ⟨node', -, rfl⟩ := Option.map_eq_some_iff.mp h
      simp [hk]
    · rw [update, if_neg hk] at h
      obtain ⟨rest', hrest, rfl⟩ := Option.map_eq_some_iff.mp h
      simp only [List.map_cons, ih hrest, List.mem_cons, Ne.symm hk, false_or]
      split
      · rfl
      · rw [List.cons_append]

/-- What stands in the draft afterwards stood there before, or was put under the key. -/
theorem mem_update (h : draft.update key f = some draft') {m : String × Node} (hm : m ∈ draft') :
    m ∈ draft ∨ ∃ old, (∀ node ∈ old, (key, node) ∈ draft) ∧ f old = some m.2 := by
  induction draft generalizing draft' with
  | nil =>
    obtain ⟨node, hnode, rfl⟩ := Option.map_eq_some_iff.mp h
    obtain rfl := List.mem_singleton.mp hm
    refine .inr ⟨none, ?_, hnode⟩
    intro old hold
    contradiction
  | cons m' rest ih =>
    obtain ⟨k, node⟩ := m'
    by_cases hk : k = key
    · subst hk
      rw [update, if_pos rfl] at h
      obtain ⟨node', hnode, rfl⟩ := Option.map_eq_some_iff.mp h
      rcases List.mem_cons.mp hm with rfl | hrest
      · refine .inr ⟨some node, ?_, hnode⟩
        rintro _ ⟨⟩
        exact List.mem_cons_self
      · exact .inl (List.mem_cons_of_mem _ hrest)
    · rw [update, if_neg hk] at h
      obtain ⟨rest', hrest, rfl⟩ := Option.map_eq_some_iff.mp h
      rcases List.mem_cons.mp hm with rfl | hm
      · exact .inl List.mem_cons_self
      · rcases ih hrest hm with hmem | ⟨old, hold, hf⟩
        · exact .inl (List.mem_cons_of_mem _ hmem)
        · exact .inr ⟨old, fun node hnode ↦ List.mem_cons_of_mem _ (hold node hnode), hf⟩

/-- Changing one key keeps the keys distinct, if what is put there does. -/
theorem Distinct.update (hdraft : draft.Distinct)
    (hf : ∀ old node, (∀ o ∈ old, o.Distinct) → f old = some node → node.Distinct)
    (h : draft.update key f = some draft') : draft'.Distinct := by
  constructor
  · rw [keys_update h]
    split
    · exact hdraft.keys
    · next hnew =>
      rw [← List.concat_eq_append]
      exact hdraft.keys.concat hnew
  · intro m hm
    rcases mem_update h hm with hmem | ⟨old, hold, hnode⟩
    · exact hdraft.members m hmem
    · exact hf old m.2 (fun o ho ↦ hdraft.members _ (hold o ho)) hnode

end Update

/-! ## Adding to a draft -/

section Add

variable {draft draft' : Draft} {key : String} {keys : List String} {v : Value}

/-- What keeps the keys of a table distinct does so for a table further in. -/
theorem Distinct.within {dotted : Bool} {f : Origin → Draft → Option Draft}
    (hf : ∀ {origin : Origin} {draft draft' : Draft}, draft.Distinct →
      f origin draft = some draft' → draft'.Distinct)
    {path : List String} {origin : Origin} (hdraft : draft.Distinct)
    (h : draft.within dotted f path origin = some draft') : draft'.Distinct := by
  induction path generalizing draft draft' origin with
  | nil => exact hf hdraft h
  | cons key path ih =>
    refine hdraft.update ?_ h
    intro old node hold hnode
    split at hnode
    · obtain ⟨inner', hinner, rfl⟩ := Option.map_eq_some_iff.mp hnode
      exact distinct_table_iff.mpr (ih distinct_nil hinner)
    · next origin inner =>
      split at hnode
      · contradiction
      · obtain ⟨inner', hinner, rfl⟩ := Option.map_eq_some_iff.mp hnode
        exact distinct_table_iff.mpr (ih (distinct_table_iff.mp (hold _ rfl)) hinner)
    · next newest older =>
      obtain ⟨newest', hnewest, rfl⟩ := Option.map_eq_some_iff.mp hnode
      have hitems := distinct_tables_iff.mp (hold _ rfl)
      rw [distinct_tables_iff, List.forall_mem_cons]
      exact ⟨ih (hitems _ List.mem_cons_self) hnewest,
        fun members hm ↦ hitems members (List.mem_cons_of_mem _ hm)⟩
    · contradiction
    · contradiction

theorem Distinct.addValue (hv : v.Distinct) (hdraft : draft.Distinct)
    (h : draft.addValue key v = some draft') : draft'.Distinct := by
  refine hdraft.update ?_ h
  intro old node _ hnode
  split at hnode
  · obtain rfl := Option.some.inj hnode
    exact .value hv
  · contradiction

theorem Distinct.addDotted (hv : v.Distinct) {origin : Origin} (hdraft : draft.Distinct)
    (h : addDotted keys v origin draft = some draft') : draft'.Distinct := by
  unfold Draft.addDotted at h
  split at h
  · contradiction
  · refine hdraft.within ?_ h
    intro origin inner inner' hinner hadd
    split at hadd
    · contradiction
    · exact hinner.addValue hv hadd

theorem Distinct.openKey (hdraft : draft.Distinct) (h : draft.openKey key = some draft') :
    draft'.Distinct := by
  unfold Draft.openKey at h
  split at h
  · next hnone =>
    obtain rfl := Option.some.inj h
    have hnew := Lookup.lookup_eq_none_iff_notMem.mp hnone
    constructor
    · exact Lookup.nodup_keys_concat hdraft.keys hnew _
    · intro m hm
      rcases List.mem_append.mp hm with hm | hm
      · exact hdraft.members m hm
      · obtain rfl := List.mem_singleton.mp hm
        exact distinct_table_iff.mpr distinct_nil
  · next inner hsome =>
    obtain rfl := Option.some.inj h
    have hinner : (Node.table .implied inner).Distinct := by
      obtain ⟨l₁, l₂, rfl, -⟩ := List.lookup_eq_some_iff.mp hsome
      exact hdraft.members (key, _) (List.mem_append_right _ List.mem_cons_self)
    constructor
    · refine Lookup.nodup_keys_concat (hdraft.keys.sublist (List.filter_sublist.map _)) ?_ _
      intro hmem
      obtain ⟨m, hm, rfl⟩ := List.mem_map.mp hmem
      simpa using (List.mem_filter.mp hm).2
    · intro m hm
      rcases List.mem_append.mp hm with hm | hm
      · exact hdraft.members m (List.mem_of_mem_filter hm)
      · obtain rfl := List.mem_singleton.mp hm
        exact distinct_table_iff.mpr (distinct_table_iff.mp hinner)
  · contradiction

theorem Distinct.openTable (hdraft : draft.Distinct) (h : draft.openTable keys = some draft') :
    draft'.Distinct := by
  unfold Draft.openTable at h
  split at h
  · contradiction
  · exact hdraft.within (fun hinner hopen ↦ hinner.openKey hopen) h

theorem Distinct.appendTable (hdraft : draft.Distinct) (h : draft.appendTable keys = some draft') :
    draft'.Distinct := by
  unfold Draft.appendTable at h
  split at h
  · contradiction
  · refine hdraft.within ?_ h
    intro origin inner inner' hinner happend
    refine hinner.update ?_ happend
    intro old node hold hnode
    split at hnode
    · obtain rfl := Option.some.inj hnode
      rw [distinct_tables_iff, List.forall_mem_singleton]
      exact distinct_nil
    · next items =>
      obtain rfl := Option.some.inj hnode
      rw [distinct_tables_iff, List.forall_mem_cons]
      exact ⟨distinct_nil, distinct_tables_iff.mp (hold _ rfl)⟩
    · contradiction

end Add

end Draft

/-! ## Finishing a table -/

theorem finishMembers_eq_map (draft : Draft) :
    finishMembers draft = draft.map fun m ↦ (m.1, m.2.finish) := by
  induction draft with
  | nil => rw [finishMembers, List.map_nil]
  | cons m rest ih => rw [finishMembers, ih, List.map_cons]

theorem finishTables_eq_map (items : List Draft) :
    finishTables items = items.map fun draft ↦ .table (finishMembers draft) := by
  induction items with
  | nil => rw [finishTables, List.map_nil]
  | cons draft rest ih => rw [finishTables, ih, List.map_cons]

theorem keys_finishMembers (draft : Draft) :
    (finishMembers draft).map Prod.fst = draft.map Prod.fst := by
  rw [finishMembers_eq_map, List.map_map]
  rfl

theorem Node.Distinct.finish {node : Node} (h : node.Distinct) : node.finish.Distinct := by
  have hmembers {draft : Draft} (hkeys : (draft.map Prod.fst).Nodup)
      (ih : ∀ m ∈ draft, m.2.finish.Distinct) : (Value.table (finishMembers draft)).Distinct := by
    refine .table ((keys_finishMembers draft).symm ▸ hkeys) ?_
    rw [finishMembers_eq_map, List.forall_mem_map]
    exact ih
  induction h with
  | value hv =>
    rw [Node.finish]
    exact hv
  | table origin hkeys _ ih =>
    rw [Node.finish]
    exact hmembers hkeys ih
  | tables hkeys _ ih =>
    rw [Node.finish, finishTables_eq_map]
    refine .array ?_
    intro v hv
    obtain ⟨draft, hdraft, rfl⟩ := List.mem_map.mp (List.mem_reverse.mp hv)
    exact hmembers (hkeys draft hdraft) (ih draft hdraft)

theorem Draft.Distinct.finish {draft : Draft} (h : draft.Distinct) :
    (Value.table (finishMembers draft)).Distinct := by
  have hnode : (Node.table .opened draft).Distinct := distinct_table_iff.mpr h
  have hfinish := hnode.finish
  rwa [Node.finish] at hfinish

/-! ## Reading -/

section Reading

variable {s r : List Char} {v : Value}

/-- A reader gives only values whose tables have distinct keys. -/
def ValueReader.Distinct (value : ValueReader) : Prop :=
  ∀ {s : List Char} {v : Value} {r : List Char}, value.run s = some (v, r) → v.Distinct

theorem readElements_distinct {value : ValueReader} (hvalue : value.Distinct) {acc : List Value}
    (hacc : ∀ v ∈ acc, v.Distinct) (h : readElements value s acc = some (v, r)) : v.Distinct := by
  have harray {items : List Value} (hitems : ∀ v ∈ items, v.Distinct) :
      (Value.array items.reverse).Distinct :=
    .array fun v hv ↦ hitems v (List.mem_reverse.mp hv)
  fun_induction readElements value s acc with
  | case1 s acc rest hend =>
    obtain ⟨rfl, -⟩ := Prod.mk.inj (Option.some.inj h)
    exact harray hacc
  | case2 => contradiction
  | case3 s acc v' rest next _ _ hv' ih =>
    exact ih (List.forall_mem_cons.mpr ⟨hvalue hv', hacc⟩) h
  | case4 s acc v' rest next _ _ hv' =>
    obtain ⟨rfl, -⟩ := Prod.mk.inj (Option.some.inj h)
    exact harray (List.forall_mem_cons.mpr ⟨hvalue hv', hacc⟩)
  | case5 => contradiction

theorem readPair_distinct {inBraces : Bool} {value : ValueReader} (hvalue : value.Distinct)
    {keys : List String} (h : readPair inBraces value s = some ((keys, v), r)) : v.Distinct := by
  unfold readPair at h
  split at h
  · contradiction
  · split at h
    · obtain ⟨⟨v', r'⟩, hv', heq⟩ := Option.map_eq_some_iff.mp h
      obtain ⟨heq, -⟩ := Prod.mk.inj heq
      obtain ⟨-, rfl⟩ := Prod.mk.inj heq
      exact hvalue hv'
    · contradiction

theorem readMembers_distinct {value : ValueReader} (hvalue : value.Distinct) {draft : Draft}
    (hdraft : draft.Distinct) (h : readMembers value s draft = some (v, r)) : v.Distinct := by
  fun_induction readMembers value s draft with
  | case1 s draft rest hend =>
    obtain ⟨rfl, -⟩ := Prod.mk.inj (Option.some.inj h)
    exact hdraft.finish
  | case2 => contradiction
  | case3 => contradiction
  | case4 s draft keys v' rest draft' hadd next _ _ hpair ih =>
    exact ih (hdraft.addDotted (readPair_distinct hvalue hpair) hadd) h
  | case5 s draft keys v' rest draft' hadd next _ _ hpair =>
    obtain ⟨rfl, -⟩ := Prod.mk.inj (Option.some.inj h)
    exact (hdraft.addDotted (readPair_distinct hvalue hpair) hadd).finish
  | case6 => contradiction

/-- A word has no members. -/
theorem scalar?_distinct {word : List Char} (h : scalar? word = some v) : v.Distinct := by
  unfold scalar? at h
  split at h
  · obtain rfl := Option.some.inj h
    exact .boolean true
  · split at h
    · obtain rfl := Option.some.inj h
      exact .boolean false
    · split at h
      · obtain ⟨i, -, rfl⟩ := Option.map_eq_some_iff.mp h
        exact .integer i
      · rcases Option.or_eq_some_iff.mp h with h | ⟨-, h⟩
        · obtain ⟨x, -, rfl⟩ := Option.map_eq_some_iff.mp h
          exact .float x
        · obtain ⟨m, -, rfl⟩ := Option.map_eq_some_iff.mp h
          exact .moment m

theorem readPlain_distinct (h : readPlain s = some (v, r)) : v.Distinct := by
  unfold readPlain at h
  split at h
  · obtain ⟨rfl, -⟩ := Prod.mk.inj (Option.some.inj h)
    exact .text _
  · obtain ⟨v', hv', heq⟩ := Option.map_eq_some_iff.mp h
    obtain ⟨rfl, -⟩ := Prod.mk.inj heq
    exact scalar?_distinct hv'

theorem readValue_distinct (depth : Nat) : (readValue depth).Distinct := by
  induction depth with
  | zero =>
    intro s v r h
    unfold readValue at h
    dsimp only at h
    split at h
    · contradiction
    · contradiction
    · exact readPlain_distinct h
  | succ depth ih =>
    intro s v r h
    unfold readValue at h
    dsimp only at h
    split at h
    · exact readElements_distinct ih (List.forall_mem_nil _) h
    · exact readMembers_distinct ih Draft.distinct_nil h
    · exact readPlain_distinct h

/-! ## Documents -/

/-- The values of a statement have distinct keys. -/
theorem readStatement_distinct {keys : List String}
    (h : readStatement s = some (.pair keys v, r)) : v.Distinct := by
  unfold readStatement at h
  split at h
  · split at h
    · cases h
    · contradiction
  · split at h
    · cases h
    · contradiction
  · cases h
  · split at h
    · cases h
    · obtain ⟨⟨⟨keys', v'⟩, r'⟩, hpair, heq⟩ := Option.map_eq_some_iff.mp h
      cases heq
      exact readPair_distinct (readValue_distinct maxDepth) hpair

theorem Builder.add_distinct {b b' : Builder} {statement : Statement} (hb : b.root.Distinct)
    (hvalue : ∀ keys v, statement = .pair keys v → v.Distinct)
    (h : b.add statement = some b') : b'.root.Distinct := by
  cases statement with
  | blank =>
    obtain rfl := Option.some.inj h
    exact hb
  | header keys =>
    obtain ⟨root, hroot, rfl⟩ := Option.map_eq_some_iff.mp h
    exact hb.openTable hroot
  | tablesHeader keys =>
    obtain ⟨root, hroot, rfl⟩ := Option.map_eq_some_iff.mp h
    exact hb.appendTable hroot
  | pair keys v =>
    obtain ⟨root, hroot, rfl⟩ := Option.map_eq_some_iff.mp h
    exact hb.within (fun hinner hadd ↦ hinner.addDotted (hvalue keys v rfl) hadd) hroot

theorem readStatements_distinct {b b' : Builder} (hb : b.root.Distinct)
    (h : readStatements s b = some b') : b'.root.Distinct := by
  fun_induction readStatements s b with
  | case1 => contradiction
  | case2 s b statement rest hstatement b₁ _ hadd =>
    obtain rfl := Option.some.inj h
    refine Builder.add_distinct hb ?_ hadd
    rintro keys v rfl
    exact readStatement_distinct hstatement
  | case3 s b statement rest hstatement b₁ c next _ hadd ih =>
    refine ih (Builder.add_distinct hb ?_ hadd) h
    rintro keys v rfl
    exact readStatement_distinct hstatement
  | case4 => contradiction

/-- A document gives each key of each of its tables once. -/
theorem document?_distinct {text : List Char} {doc : Table} (h : document? text = some doc) :
    (Value.table doc).Distinct := by
  obtain ⟨b, hb, rfl⟩ := Option.map_eq_some_iff.mp h
  exact (readStatements_distinct Draft.distinct_nil hb).finish

end Reading

end BrowserTrace.Toml
