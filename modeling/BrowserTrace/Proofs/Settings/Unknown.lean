import BrowserTrace.Proofs.Settings.Loading
import BrowserTrace.Proofs.Settings.Sorted
import BrowserTrace.Proofs.Text.Parts

/-!
# Unknown keys of a settings file

A file that is laid over the defaults is read as its known settings alone would be, and its unknown
keys are collected on the way (`ofTable_layer_eq`).  The known settings depend on nothing but what the
file sets for the known keys, so what is loaded stays the same when the others are deleted
(`result_load_of_prunes`).  What is collected depends on nothing but the keys of the file
(`exists_mem_unknownPaths_iff`), and it is reported in the order of its paths, each of them once.
-/

namespace BrowserTrace.Settings

open Setting (Key Read added keyPaths laid membersOfToml overlayMembers)

/-! ## Reading a file over the defaults -/

section Reading

variable {doc : Toml.Table}

/-- The known settings of a file, as they lie over the defaults. -/
def known (doc : Toml.Table) : List (String × Setting) :=
  [("attachments", .table (attachmentDefaults.map (laid (membersAt doc "attachments")))),
    ("limits", .table (limitDefaults.map (laid (membersAt doc "limits"))))]

/-- The places of the unknown keys of a group, from the root. -/
def unknownIn (doc : Toml.Table) (group : String) (below : List (String × Setting)) : List Path :=
  (keyPaths ((added (membersAt doc group) below).map Prod.fst)).map (.key group :: ·)

/-- The places of the unknown keys of a file. -/
def unknownPaths (doc : Toml.Table) : List Path :=
  unknownIn doc "attachments" attachmentDefaults ++ unknownIn doc "limits" limitDefaults ++
    keyPaths ((added (membersOfToml doc) defaults).map Prod.fst)

/-- Both groups are read from their own tables. -/
theorem ofTable_groups (attachments limits : Setting) :
    ofTable [("attachments", attachments), ("limits", limits)] =
      match Setting.readGroup attachmentKeys "" attachments with
      | .error place => .error (.key "attachments" :: place)
      | .ok contentType =>
        match Setting.readGroup limitKeys {} limits with
        | .error place => .error (.key "limits" :: place)
        | .ok r => .ok
          { value := ⟨contentType.value, r.value.records, r.value.archive⟩
            unknown := contentType.unknown.map (.key "attachments" :: ·) ++
              r.unknown.map (.key "limits" :: ·) } := by
  have hkeys : ∀ key ∈ groups,
      key.name ∈ [("attachments", attachments), ("limits", limits)].map Prod.fst := by
    intro key hkey
    exact List.mem_map_of_mem (f := Key.name) hkey
  rw [ofTable, Setting.readGroup_of_keys hkeys, Setting.readMembers_cons_of rfl]
  cases Setting.readGroup attachmentKeys "" attachments with
  | error place => rfl
  | ok contentType =>
    dsimp only
    rw [Setting.readMembers_cons_of rfl]
    cases Setting.readGroup limitKeys {} limits <;> rfl

theorem quiet_attachmentKeys : ∀ key ∈ attachmentKeys, key.Quiet := by
  rw [attachmentKeys, List.forall_mem_singleton]
  exact Key.quiet_of_reading _ _ _

theorem quiet_limitKeys : ∀ key ∈ limitKeys, key.Quiet := by
  simp only [limitKeys, List.forall_mem_cons]
  exact ⟨Key.quiet_of_reading _ _ _, Key.quiet_of_reading _ _ _, Key.quiet_of_reading _ _ _,
    Key.quiet_of_reading _ _ _, Key.quiet_of_reading _ _ _, List.forall_mem_nil _⟩

/-- A group with the file over it is read as its known settings are, and the others are noted. -/
theorem readGroup_over {σ : Type} {keys : List (Key σ)} {start : σ} {group : String}
    {below : List (String × Setting)} (hdoc : (Toml.Value.table doc).Distinct)
    (hquiet : ∀ key ∈ keys, key.Quiet) (hbelow : below.map Prod.fst = keys.map Key.name)
    (hdistinct : (keys.map Key.name).Nodup) :
    Setting.readGroup keys start (.table (overlayMembers (membersAt doc group) below)) =
      (Setting.readGroup keys start (.table (below.map (laid (membersAt doc group))))).map
        fun r ↦ ⟨r.value, keyPaths ((added (membersAt doc group) below).map Prod.fst)⟩ := by
  have hkeys : (below.map (laid (membersAt doc group))).map Prod.fst = keys.map Key.name :=
    (Setting.keys_laid _ _).trans hbelow
  have hall : ∀ key ∈ keys, key.name ∈ (below.map (laid (membersAt doc group))).map Prod.fst :=
    fun key hkey ↦ hkeys ▸ List.mem_map_of_mem hkey
  have hmembers : ∀ m ∈ below.map (laid (membersAt doc group)), m.1 ∈ keys.map Key.name :=
    fun m hm ↦ hkeys ▸ List.mem_map_of_mem hm
  rw [Setting.readGroup_overlay (nodup_membersAt hdoc group) hbelow hdistinct,
    Setting.readGroup_of_keys hall]
  cases hread : Setting.readMembers keys (below.map (laid (membersAt doc group)))
      { value := start } with
  | error place => rfl
  | ok r =>
    have hnone : r.unknown = [] := Setting.unknown_readMembers hquiet hmembers hread
    rw [Except.map, Except.map, Read.note, hnone, List.nil_append]

/-- A file over the defaults is read as its known settings are, and the unknown keys are noted. -/
theorem ofTable_layer_eq (hdoc : (Toml.Value.table doc).Distinct) (hplain : Plain doc) :
    ofTable (Setting.layer (membersOfToml doc) defaults) =
      (ofTable (known doc)).map fun r ↦ ⟨r.value, unknownPaths doc⟩ := by
  have hover : ofTable (Setting.layer (membersOfToml doc) defaults) =
      (ofTable (defaults.map (laid (membersOfToml doc)))).map
        (Read.note (keyPaths ((added (membersOfToml doc) defaults).map Prod.fst))) := by
    have hkeys : ∀ key ∈ groups,
        key.name ∈ (defaults.map (laid (membersOfToml doc))).map Prod.fst := by
      intro key hkey
      rw [Setting.keys_laid]
      exact List.mem_map_of_mem (f := Key.name) hkey
    rw [layer_defaults hplain, ofTable, ofTable,
      Setting.readGroup_overlay (nodup_membersOfToml hdoc) rfl (by decide),
      Setting.readGroup_of_keys hkeys]
  rw [hover, laid_defaults hplain, ofTable_groups,
    readGroup_over hdoc quiet_attachmentKeys rfl (by decide),
    readGroup_over hdoc quiet_limitKeys rfl (by decide), known, ofTable_groups]
  cases Setting.readGroup attachmentKeys ""
      (.table (attachmentDefaults.map (laid (membersAt doc "attachments")))) with
  | error place => rfl
  | ok contentType =>
    cases Setting.readGroup limitKeys {}
        (.table (limitDefaults.map (laid (membersAt doc "limits")))) with
    | error place => rfl
    | ok r => rfl

end Reading

/-! ## Which keys are unknown -/

section Unknown

/-- The groups of settings, each with the names of its keys. -/
def groupKeys : List (String × List String) :=
  [("attachments", ["archive-content-type"]), ("limits", Limit.all.map Limit.key)]

/-- A key of a file is unknown, and this is its path: a key at the top that is no group, or a key of
a group that is none of the group's own. -/
inductive Unknown (doc : Toml.Table) : (path : String) → Prop where
  | top {key : String} (hkey : key ∈ doc.map Prod.fst) (hnew : key ∉ groupKeys.map Prod.fst) :
      Unknown doc key
  | inGroup {group key : String} {names : List String} {members : Toml.Table}
      (hgroup : (group, names) ∈ groupKeys) (hmembers : doc.lookup group = some (.table members))
      (hkey : key ∈ members.map Prod.fst) (hnew : key ∉ names) :
      Unknown doc (group ++ "." ++ key)

variable {doc : Toml.Table} {group key : String} {path : Path}

theorem render_key (key : String) : Path.render [.key key] = key := by
  rw [Path.render, Path.renderRest, String.append_empty]

theorem render_key_key (group key : String) :
    Path.render [.key group, .key key] = group ++ "." ++ key := by
  simp only [Path.render, Path.renderRest, String.append_empty, String.append_assoc]
  rfl

theorem mem_keys_membersAt_iff : key ∈ (membersAt doc group).map Prod.fst ↔
    ∃ members, doc.lookup group = some (.table members) ∧ key ∈ members.map Prod.fst := by
  unfold membersAt
  split
  · next members hmembers =>
    rw [keys_membersOfToml]
    constructor
    · intro hkey
      exact ⟨members, hmembers, hkey⟩
    · rintro ⟨members', heq, hkey⟩
      rw [hmembers] at heq
      cases heq
      exact hkey
  · next hnone =>
    constructor
    · intro h
      contradiction
    · rintro ⟨members, hmembers, -⟩
      exact absurd hmembers (hnone members)

theorem mem_keyPaths_added_iff {incoming members : List (String × Setting)} :
    path ∈ keyPaths ((added incoming members).map Prod.fst) ↔
      ∃ key ∈ incoming.map Prod.fst, key ∉ members.map Prod.fst ∧ path = [.key key] := by
  rw [Setting.keys_added, keyPaths, List.mem_map]
  constructor
  · rintro ⟨key, hkey, rfl⟩
    obtain ⟨hmem, hnew⟩ := List.mem_filter.mp hkey
    exact ⟨key, hmem, of_decide_eq_true hnew, rfl⟩
  · rintro ⟨key, hmem, hnew, rfl⟩
    exact ⟨key, List.mem_filter.mpr ⟨hmem, decide_eq_true hnew⟩, rfl⟩

theorem exists_mem_unknownIn_iff {below : List (String × Setting)} :
    (∃ path ∈ unknownIn doc group below, path.render = key) ↔
      ∃ name members, doc.lookup group = some (.table members) ∧ name ∈ members.map Prod.fst ∧
        name ∉ below.map Prod.fst ∧ key = group ++ "." ++ name := by
  constructor
  · rintro ⟨path, hpath, rfl⟩
    obtain ⟨path', hpath', rfl⟩ := List.mem_map.mp hpath
    obtain ⟨name, hname, hnew, rfl⟩ := mem_keyPaths_added_iff.mp hpath'
    obtain ⟨members, hmembers, hkey⟩ := mem_keys_membersAt_iff.mp hname
    exact ⟨name, members, hmembers, hkey, hnew, render_key_key group name⟩
  · rintro ⟨name, members, hmembers, hkey, hnew, rfl⟩
    have hname := mem_keys_membersAt_iff.mpr ⟨members, hmembers, hkey⟩
    exact ⟨_, List.mem_map_of_mem (mem_keyPaths_added_iff.mpr ⟨name, hname, hnew, rfl⟩),
      render_key_key group name⟩

/-- What is collected are the unknown keys. -/
theorem exists_mem_unknownPaths_iff :
    (∃ path ∈ unknownPaths doc, path.render = key) ↔ Unknown doc key := by
  have hsplit : (∃ path ∈ unknownPaths doc, path.render = key) ↔
      (∃ path ∈ unknownIn doc "attachments" attachmentDefaults, path.render = key) ∨
        (∃ path ∈ unknownIn doc "limits" limitDefaults, path.render = key) ∨
          ∃ path ∈ keyPaths ((added (membersOfToml doc) defaults).map Prod.fst),
            path.render = key := by
    simp only [unknownPaths, List.mem_append, or_and_right, exists_or, or_assoc]
  have htop : defaults.map Prod.fst = groupKeys.map Prod.fst := rfl
  have hattachments : attachmentDefaults.map Prod.fst = ["archive-content-type"] := rfl
  have hlimits : limitDefaults.map Prod.fst = Limit.all.map Limit.key := rfl
  rw [hsplit, exists_mem_unknownIn_iff, exists_mem_unknownIn_iff, hattachments, hlimits]
  constructor
  · rintro (⟨name, members, hmembers, hkey, hnew, rfl⟩ | ⟨name, members, hmembers, hkey, hnew, rfl⟩ |
      ⟨path, hpath, rfl⟩)
    · exact .inGroup List.mem_cons_self hmembers hkey hnew
    · exact .inGroup (List.mem_cons_of_mem _ List.mem_cons_self) hmembers hkey hnew
    · obtain ⟨name, hname, hnew, rfl⟩ := mem_keyPaths_added_iff.mp hpath
      rw [keys_membersOfToml] at hname
      exact (render_key name).symm ▸ .top hname (htop ▸ hnew)
  · intro h
    cases h with
    | top hkey hnew =>
      rw [← keys_membersOfToml] at hkey
      exact .inr (.inr ⟨_, mem_keyPaths_added_iff.mpr ⟨key, hkey, htop ▸ hnew, rfl⟩, render_key key⟩)
    | inGroup hgroup hmembers hkey hnew =>
      rw [groupKeys, List.mem_cons, List.mem_singleton] at hgroup
      rcases hgroup with heq | heq
      · cases heq
        exact .inl ⟨_, _, hmembers, hkey, hnew, rfl⟩
      · cases heq
        exact .inr (.inl ⟨_, _, hmembers, hkey, hnew, rfl⟩)

/-! ## Paths with a point -/

theorem dotted_inj {a b x y : String} (ha : '.' ∉ a.toList) (hb : '.' ∉ b.toList)
    (h : a ++ "." ++ x = b ++ "." ++ y) : a = b ∧ x = y := by
  have hlist := congrArg String.toList h
  simp only [String.toList_append, List.append_assoc] at hlist
  obtain ⟨hfront, hrest⟩ := (Text.append_cons_inj_of_notMem ha hb).mp hlist
  exact ⟨String.toList_inj.mp hfront, String.toList_inj.mp hrest⟩

theorem dot_notMem_of_mem (hplain : Plain doc) (h : key ∈ doc.map Prod.fst) : '.' ∉ key.toList := by
  obtain ⟨m, hm, rfl⟩ := List.mem_map.mp h
  exact fun hdot ↦ absurd ((hplain.bare m hm).2 '.' hdot) (by decide)

theorem dot_notMem_group (h : group ∈ groupKeys.map Prod.fst) : '.' ∉ group.toList := by
  revert group
  decide +kernel

/-- What is unknown below a key is a key of a group, and no part of a key's own value. -/
theorem Unknown.group_of_dotted {name : String} (h : Unknown doc (group ++ "." ++ name))
    (hplain : Plain doc) (hgroup : '.' ∉ group.toList) :
    group ∈ groupKeys.map Prod.fst ∧
      ∃ members, doc.lookup group = some (.table members) ∧ name ∈ members.map Prod.fst := by
  generalize hpath : group ++ "." ++ name = path at h
  cases h with
  | top hkey hnew =>
    refine absurd ?_ (dot_notMem_of_mem hplain hkey)
    rw [← hpath, String.toList_append, String.toList_append]
    exact List.mem_append_left _ (List.mem_append_right _ List.mem_cons_self)
  | inGroup hknown hmembers hkey hnew =>
    have hgroup' := List.mem_map_of_mem (f := Prod.fst) hknown
    obtain ⟨rfl, rfl⟩ := dotted_inj hgroup (dot_notMem_group hgroup') hpath
    exact ⟨hgroup', _, hmembers, hkey⟩

end Unknown

/-! ## What is reported -/

/-- The reports of unknown keys among what is noted, with the file that each names. -/
def reports (notes : List SettingsNote) : List (String × List String) :=
  notes.filterMap fun
    | .unknownKeys file keys => some (file, keys)
    | .entrySizeCut _ => none

section Reports

variable {file : String} {incoming : List (String × Setting)} {r : Read Settings}

theorem reports_unknownNotes (file : String) (paths : List Path) :
    reports (unknownNotes file paths) =
      if sortedKeys paths = [] then [] else [(file, sortedKeys paths)] := by
  unfold unknownNotes
  by_cases h : paths = []
  · rw [if_pos (List.isEmpty_iff.mpr h), if_pos (sortedKeys_eq_nil_iff.mpr h)]
    rfl
  · rw [if_neg (fun hempty ↦ h (List.isEmpty_iff.mp hempty)),
      if_neg (fun hnil ↦ h (sortedKeys_eq_nil_iff.mp hnil))]
    rfl

theorem reports_append (notes notes' : List SettingsNote) :
    reports (notes ++ notes') = reports notes ++ reports notes' := List.filterMap_append

theorem reports_cutEntrySize (s : Settings) : reports s.cutEntrySize.2 = [] := by
  unfold cutEntrySize
  dsimp only
  split <;> rfl

theorem loadTable_of_error {place : Path}
    (h : ofTable (Setting.layer incoming defaults) = .error place) :
    loadTable file incoming = ⟨[], .error ⟨file, .wrongSetting place⟩⟩ := by
  rw [loadTable, h]

/-- Unknown keys are reported when everything could be read, whatever comes of it. -/
theorem reports_loadTable (h : ofTable (Setting.layer incoming defaults) = .ok r) :
    reports (loadTable file incoming).notes = reports (unknownNotes file r.unknown) := by
  rw [loadTable, h]
  dsimp only
  cases r.value.zeroLimits with
  | nil =>
    dsimp only
    rw [reports_append, reports_cutEntrySize, List.append_nil]
  | cons key keys => rfl

end Reports

/-! ## Deleting unknown keys -/

section Pruning

variable {doc doc' : Toml.Table} {group : String} {names : List String}

/-- A document without the unknown keys of another one: the known keys are set as they are there. -/
structure Prunes (doc doc' : Toml.Table) : Prop where
  plain : Plain doc'
  clean : ∀ key, ¬ Unknown doc' key
  kept : ∀ group names, (group, names) ∈ groupKeys → ∀ name ∈ names,
    set? doc' group name = set? doc group name

/-- A group without its unknown keys. -/
def pruneGroup (names : List String) : Toml.Value → Toml.Value
  | .table members => .table (members.filter fun m ↦ m.1 ∈ names)
  | v => v

/-- A document without its unknown keys. -/
def prune (doc : Toml.Table) : Toml.Table :=
  (doc.filter fun m ↦ m.1 ∈ groupKeys.map Prod.fst).map fun m ↦
    (m.1, pruneGroup ((groupKeys.lookup m.1).getD []) m.2)

theorem lookup_prune (hgroup : (group, names) ∈ groupKeys) :
    (prune doc).lookup group = (doc.lookup group).map (pruneGroup names) := by
  have hnames : ∀ g ∈ groupKeys, groupKeys.lookup g.1 = some g.2 := by decide
  have hmem : decide (group ∈ groupKeys.map Prod.fst) = true :=
    decide_eq_true (List.mem_map_of_mem hgroup)
  rw [prune, Lookup.lookup_map (fun group ↦ pruneGroup ((groupKeys.lookup group).getD [])),
    Lookup.lookup_filter (p := fun key ↦ key ∈ groupKeys.map Prod.fst) hmem, hnames _ hgroup,
    Option.getD_some]

theorem membersAt_prune (hgroup : (group, names) ∈ groupKeys) :
    membersAt (prune doc) group = (membersAt doc group).filter fun m ↦ m.1 ∈ names := by
  unfold membersAt
  rw [lookup_prune hgroup]
  cases doc.lookup group with
  | none => rfl
  | some v =>
    cases v with
    | table members =>
      simp only [Option.map_some, pruneGroup, membersOfToml_eq_map, List.filter_map]
      rfl
    | _ => rfl

theorem Prunes.of_prune (hplain : Plain doc) : Prunes doc (prune doc) := by
  constructor
  · constructor
    · intro m hm
      obtain ⟨m', hm', rfl⟩ := List.mem_map.mp hm
      exact hplain.bare m' (List.mem_of_mem_filter hm')
    · intro group hgroup v hv
      obtain ⟨⟨group, names⟩, hnames, rfl⟩ :=
        List.mem_map.mp (show group ∈ groupKeys.map Prod.fst from hgroup)
      rw [lookup_prune hnames] at hv
      obtain ⟨v', hv', rfl⟩ := Option.map_eq_some_iff.mp hv
      obtain ⟨members, rfl⟩ := hplain.groups group hgroup v' hv'
      exact ⟨_, rfl⟩
  · intro key h
    cases h with
    | top hkey hnew =>
      obtain ⟨m, hm, rfl⟩ := List.mem_map.mp hkey
      obtain ⟨m', hm', rfl⟩ := List.mem_map.mp hm
      exact hnew (of_decide_eq_true (List.mem_filter.mp hm').2)
    | inGroup hnames hmembers hkey hnew =>
      have hname := mem_keys_membersAt_iff.mpr ⟨_, hmembers, hkey⟩
      rw [membersAt_prune hnames] at hname
      obtain ⟨m, hm, rfl⟩ := List.mem_map.mp hname
      exact hnew (of_decide_eq_true (List.mem_filter.mp hm).2)
  · intro group names hnames name hname
    rw [set?, set?, membersAt_prune hnames]
    exact Lookup.lookup_filter (p := fun key ↦ key ∈ names) (decide_eq_true hname) _

/-- A group over its defaults depends on nothing but what the file sets for the keys of the group. -/
theorem Prunes.laid_eq (h : Prunes doc doc') {below : List (String × Setting)}
    (hgroup : (group, below.map Prod.fst) ∈ groupKeys) :
    below.map (laid (membersAt doc' group)) = below.map (laid (membersAt doc group)) := by
  refine List.map_congr_left ?_
  intro m hm
  exact Setting.laid_congr (h.kept group _ hgroup m.1 (List.mem_map_of_mem hm))

theorem Prunes.known_eq (h : Prunes doc doc') : known doc' = known doc := by
  have hattachments : ("attachments", attachmentDefaults.map Prod.fst) ∈ groupKeys :=
    List.mem_cons_self
  have hlimits : ("limits", limitDefaults.map Prod.fst) ∈ groupKeys :=
    List.mem_cons_of_mem _ List.mem_cons_self
  rw [known, known, h.laid_eq hattachments, h.laid_eq hlimits]

end Pruning

/-! ## Loading -/

section Files

variable {doc doc' : Toml.Table} {path : String} {files files' : Files}

/-- What is loaded from a file depends on its known settings alone. -/
theorem result_load (hfile : Holds files path doc) (hplain : Plain doc) :
    (load files (some path)).result =
      match (ofTable (known doc)).map Read.value with
      | .error place => .error ⟨path, .wrongSetting place⟩
      | .ok s =>
        if s.zeroLimits = [] then .ok s.cutEntrySize.1
        else .error ⟨path, .zeroLimits s.zeroLimits⟩ := by
  rw [load_of_holds hfile, result_loadTable, ofTable_layer_eq (distinct_of_holds hfile) hplain]
  cases ofTable (known doc) <;> rfl

theorem result_load_of_prunes (hfile : Holds files path doc) (hplain : Plain doc)
    (hfile' : Holds files' path doc') (h : Prunes doc doc') :
    (load files' (some path)).result = (load files (some path)).result := by
  rw [result_load hfile' h.plain, result_load hfile hplain, h.known_eq]

/-- What is noted about a file that cannot be converted, and reported about any other. -/
theorem load_cases (hfile : Holds files path doc) (hplain : Plain doc) :
    (∃ place, load files (some path) = ⟨[], .error ⟨path, .wrongSetting place⟩⟩) ∨
      (∀ place, (load files (some path)).result ≠ .error ⟨path, .wrongSetting place⟩) ∧
        reports (load files (some path)).notes = reports (unknownNotes path (unknownPaths doc)) := by
  have hread := ofTable_layer_eq (distinct_of_holds hfile) hplain
  cases hknown : ofTable (known doc) with
  | error place =>
    rw [hknown] at hread
    rw [load_of_holds hfile]
    exact .inl ⟨place, loadTable_of_error hread⟩
  | ok r =>
    rw [hknown] at hread
    refine .inr ⟨?_, ?_⟩
    · intro place
      rw [result_load hfile hplain, hknown]
      dsimp only [Except.map]
      split
      · simp
      · simp
    · rw [load_of_holds hfile]
      exact reports_loadTable hread

/-- Loading fails at a setting if and only if some known key of the file cannot be converted. -/
theorem wrong_iff (hfile : Holds files path doc) (hplain : Plain doc) :
    (∃ place, (load files (some path)).result = .error ⟨path, .wrongSetting place⟩) ↔
      ¬ Convertible doc := by
  constructor
  · rintro ⟨place, hwrong⟩ hconvertible
    obtain ⟨s, hs⟩ := (exists_means_iff hfile hplain).mpr hconvertible
    rw [load_of_means hfile hplain hs] at hwrong
    split at hwrong
    · contradiction
    · simp at hwrong
  · exact load_wrong hfile hplain

/-- **Unknown keys.**  If the known keys of a file can be converted, its unknown keys are reported
once, in the order of their paths, or not at all if there are none, also when limits are zero; if
they cannot, nothing is noted.  A path that leads into the value of an unknown key is not reported:
none does below a key at the top, and below a group only the group's own keys are.  A file from which
the unknown keys are deleted gives the same settings or the same error, and nothing to report. -/
theorem load_reports_unknown_keys (hfile : Holds files path doc) (hplain : Plain doc) :
    (∃ keys : List String, keys.Pairwise (· < ·) ∧ (∀ key, key ∈ keys ↔ Unknown doc key) ∧
      ((∀ place, (load files (some path)).result ≠ .error ⟨path, .wrongSetting place⟩) →
        reports (load files (some path)).notes = if keys = [] then [] else [(path, keys)])) ∧
    (∀ place, (load files (some path)).result = .error ⟨path, .wrongSetting place⟩ →
      (load files (some path)).notes = []) ∧
    ((∃ place, (load files (some path)).result = .error ⟨path, .wrongSetting place⟩) ↔
      ¬ Convertible doc) ∧
    (∀ key ∈ doc.map Prod.fst, key ∉ groupKeys.map Prod.fst →
      ∀ inner, ¬ Unknown doc (key ++ "." ++ inner)) ∧
    (∀ group ∈ groupKeys.map Prod.fst, ∀ name, Unknown doc (group ++ "." ++ name) →
      ∃ members, doc.lookup group = some (.table members) ∧ name ∈ members.map Prod.fst) ∧
    Prunes doc (prune doc) ∧
    ∀ files' doc', Holds files' path doc' → Prunes doc doc' →
      (load files' (some path)).result = (load files (some path)).result ∧
        reports (load files' (some path)).notes = [] := by
  refine ⟨⟨sortedKeys (unknownPaths doc), sortedKeys_sorted _, ?_, ?_⟩, ?_,
    wrong_iff hfile hplain, ?_, ?_, Prunes.of_prune hplain, ?_⟩
  · intro key
    rw [mem_sortedKeys_iff, exists_mem_unknownPaths_iff]
  · intro hread
    rw [← reports_unknownNotes]
    rcases load_cases hfile hplain with ⟨place, hwrong⟩ | ⟨-, hreports⟩
    · exact absurd (congrArg SettingsLoad.result hwrong) (hread place)
    · exact hreports
  · intro place hwrong
    rcases load_cases hfile hplain with ⟨place', hload⟩ | ⟨hread, -⟩
    · rw [hload]
    · exact absurd hwrong (hread place)
  · intro key hkey hnew inner h
    exact hnew (h.group_of_dotted hplain (dot_notMem_of_mem hplain hkey)).1
  · intro group hgroup name h
    exact (h.group_of_dotted hplain (dot_notMem_group hgroup)).2
  · intro files' doc' hfile' h
    refine ⟨result_load_of_prunes hfile hplain hfile' h, ?_⟩
    have hnone : sortedKeys (unknownPaths doc') = [] := by
      rw [List.eq_nil_iff_forall_not_mem]
      intro key hkey
      exact h.clean key (exists_mem_unknownPaths_iff.mp (mem_sortedKeys_iff.mp hkey))
    rcases load_cases hfile' h.plain with ⟨place, hload⟩ | ⟨-, hreports⟩
    · rw [hload]
      rfl
    · rw [hreports, reports_unknownNotes, if_pos hnone]

end Files

namespace Sample

/-- The text of a settings file with a zero limit and unknown keys, one with a point in it and two
with tables. -/
def unknownKeys : String :=
  "reporter.color = 'no'\n[limits]\nmax-body-chars = 0\n'a.b' = 1\nold = { keep = true }\n"

/-- This file without its unknown keys. -/
def onlyKnownKeys : String := "[limits]\nmax-body-chars = 0\n"

/-- What the file with unknown keys gives. -/
def unknownKeysDoc : Toml.Table :=
  [("reporter", .table [("color", .text "no")]),
    ("limits", .table [("max-body-chars", .integer 0), ("a.b", .integer 1),
      ("old", .table [("keep", .boolean true)])])]

/-- Whether a document is the one with unknown keys. -/
def isUnknownKeysDoc : Toml.Table → Bool
  | [("reporter", .table [("color", .text "no")]),
      ("limits", .table [("max-body-chars", .integer 0), ("a.b", .integer 1),
        ("old", .table [("keep", .boolean true)])])] => true
  | _ => false

/-- Whether a document is that one without its unknown keys. -/
def isOnlyKnownKeysDoc : Toml.Table → Bool
  | [("limits", .table [("max-body-chars", .integer 0)])] => true
  | _ => false

/-- A text file holds the document that it is checked for. -/
theorem holds_of_check {text : String} {check : Toml.Table → Bool} {doc : Toml.Table}
    (hcheck : ∀ doc', check doc' = true → doc' = doc)
    (h : (Toml.document? (textOf text.toUTF8)).any check = true) :
    Holds (textFile text) "tracediag.toml" doc := by
  obtain ⟨doc', hdoc, hdoc'⟩ := (Option.any_eq_true _ _).mp h
  obtain rfl := hcheck doc' hdoc'
  exact ⟨"tracediag.toml", _, rfl, rfl, hdoc⟩

theorem holds_unknownKeys : Holds (textFile unknownKeys) "tracediag.toml" unknownKeysDoc := by
  have h : (Toml.document? (textOf unknownKeys.toUTF8)).any isUnknownKeysDoc = true := by
    decide +kernel
  refine holds_of_check ?_ h
  intro doc h
  unfold isUnknownKeysDoc at h
  split at h
  · rfl
  · contradiction

theorem holds_onlyKnownKeys :
    Holds (textFile onlyKnownKeys) "tracediag.toml" (prune unknownKeysDoc) := by
  have h : (Toml.document? (textOf onlyKnownKeys.toUTF8)).any isOnlyKnownKeysDoc = true := by
    decide +kernel
  refine holds_of_check ?_ h
  intro doc h
  unfold isOnlyKnownKeysDoc at h
  split at h
  · rfl
  · contradiction

theorem plain_unknownKeys : Plain unknownKeysDoc := by
  have hkeys : "reporter".toList.all Toml.isKeyChar = true ∧
      "limits".toList.all Toml.isKeyChar = true := by decide +kernel
  constructor
  · simp only [unknownKeysDoc, List.forall_mem_cons]
    exact ⟨⟨by decide, List.all_eq_true.mp hkeys.1⟩, ⟨by decide, List.all_eq_true.mp hkeys.2⟩,
      List.forall_mem_nil _⟩
  · simp only [List.forall_mem_cons]
    refine ⟨?_, ?_, List.forall_mem_nil _⟩
    · rintro v ⟨⟩
    · rintro v ⟨⟩
      exact ⟨_, rfl⟩

/-- A zero limit does not keep the unknown keys from being reported, and of a table that is unknown
only the table itself is. -/
theorem load_reports_unknown_keys_and_zero :
    (∃ keys, reports (load (textFile unknownKeys) (some "tracediag.toml")).notes =
        [("tracediag.toml", keys)] ∧
      "limits.a.b" ∈ keys ∧ "limits.old" ∈ keys ∧ "reporter" ∈ keys ∧ "limits.old.keep" ∉ keys) ∧
    (load (textFile unknownKeys) (some "tracediag.toml")).result =
      .error ⟨"tracediag.toml", .zeroLimits ["limits.max-body-chars"]⟩ ∧
    (load (textFile onlyKnownKeys) (some "tracediag.toml")).result =
      .error ⟨"tracediag.toml", .zeroLimits ["limits.max-body-chars"]⟩ ∧
    reports (load (textFile onlyKnownKeys) (some "tracediag.toml")).notes = [] := by
  obtain ⟨⟨keys, -, hmem, hreports⟩, -, -, -, hnested, hprunes, hload⟩ :=
    load_reports_unknown_keys holds_unknownKeys plain_unknownKeys
  obtain ⟨hresult, hnone⟩ := hload _ _ holds_onlyKnownKeys hprunes
  have hzero : (load (textFile unknownKeys) (some "tracediag.toml")).result =
      .error ⟨"tracediag.toml", .zeroLimits ["limits.max-body-chars"]⟩ := by decide +kernel
  have htop : "reporter" ∈ keys := (hmem _).mpr (.top (by decide) (by decide))
  have hlimits : ("limits", Limit.all.map Limit.key) ∈ groupKeys := by decide
  have hquoted : Unknown unknownKeysDoc ("limits" ++ "." ++ "a.b") :=
    .inGroup hlimits rfl (by decide) (by decide)
  have htable : Unknown unknownKeysDoc ("limits" ++ "." ++ "old") :=
    .inGroup hlimits rfl (by decide) (by decide)
  refine ⟨⟨keys, ?_, ?_, ?_, htop, ?_⟩, hzero, hresult.trans hzero, hnone⟩
  · rw [hreports, if_neg (List.ne_nil_of_mem htop)]
    intro place hwrong
    rw [hzero] at hwrong
    simp at hwrong
  · exact (hmem _).mpr hquoted
  · exact (hmem _).mpr htable
  · intro hkeep
    obtain ⟨members, hmembers, hname⟩ := hnested "limits" (by decide) "old.keep" ((hmem _).mp hkeep)
    cases hmembers
    revert hname
    decide

end Sample

end BrowserTrace.Settings
