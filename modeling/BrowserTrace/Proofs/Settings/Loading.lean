import BrowserTrace.Proofs.Settings.Limits
import BrowserTrace.Proofs.Settings.Reading
import BrowserTrace.Proofs.Toml.Keys

/-!
# What is loaded from a settings file

Each setting is the one that the file gives for its key, or else the default.  The file is laid over
the defaults as a table over a table, so a key that it does not set leaves the default where it is,
and the group of a key is there even if the file has no table for it.

Three things can become of a file that can be read: a setting that does not mean what its key asks
for, limits that are zero, all of which are named, and settings.  They exclude each other in this
order (`load_layered`).
-/

namespace BrowserTrace.Settings

open Setting (applied? applied?_cons_eq_some_iff laid membersOfToml overlayMembers valueOf?
  valueOf?_reading)

/-- The default of the content type as a file would have it. -/
def attachmentDefaults : List (String × Setting) :=
  [("archive-content-type", .text "application/zip")]

/-- The defaults of the limits as a file would have them. -/
def limitDefaults : List (String × Setting) := Limit.all.map fun l ↦ (l.key, l.default)

theorem defaults_eq :
    defaults = [("attachments", .table attachmentDefaults), ("limits", .table limitDefaults)] := rfl

/-! ## What a file sets -/

/-- The members of a group of settings in a file; a file without the group has none. -/
def membersAt (doc : Toml.Table) (group : String) : List (String × Setting) :=
  match doc.lookup group with
  | some (.table members) => membersOfToml members
  | _ => []

/-- The setting that a file has for a key of a group. -/
def set? (doc : Toml.Table) (group key : String) : Option Setting := (membersAt doc group).lookup key

/-- The content type that a file means: what it sets, or else the default. -/
def contentType? (doc : Toml.Table) : Option String :=
  match set? doc "attachments" "archive-content-type" with
  | some v => v.text?
  | none => some ({} : Settings).archiveContentType

/-- The number that a file means for a limit: what it sets, or else the default. -/
def number? (doc : Toml.Table) (l : Limit) : Option Nat :=
  match set? doc "limits" l.key with
  | some v => l.meaning? v
  | none => some (l.of {})

/-- Every known key that the file sets has a setting that can be converted. -/
structure Convertible (doc : Toml.Table) : Prop where
  contentType : ∀ v, set? doc "attachments" "archive-content-type" = some v → v.text?.isSome
  limits : ∀ l v, set? doc "limits" (Limit.key l) = some v → (l.meaning? v).isSome

/-- The keys at the top of the file are bare, and the known ones among them are tables. -/
structure Plain (doc : Toml.Table) : Prop where
  bare : ∀ m ∈ doc, m.1 ≠ "" ∧ ∀ c ∈ m.1.toList, Toml.isKeyChar c
  groups : ∀ name ∈ ["attachments", "limits"], ∀ v ∈ doc.lookup name, ∃ members, v = .table members

/-- The settings file at a path is there, can be read, and is this document. -/
def Holds (files : Files) (path : String) (doc : Toml.Table) : Prop :=
  ∃ p bytes, (candidates path).find? files.isFile = some p ∧ files.read p = .ok bytes ∧
    Toml.document? (textOf bytes) = some doc

section

variable {doc : Toml.Table} {s : Settings} {file path : String} {files : Files}
  {incoming : List (String × Setting)}

theorem convertible_iff :
    Convertible doc ↔ (contentType? doc).isSome ∧ ∀ l, (number? doc l).isSome := by
  unfold contentType? number?
  constructor
  · rintro ⟨hcontent, hlimits⟩
    refine ⟨?_, fun l ↦ ?_⟩
    · split
      · next v hv => exact hcontent v hv
      · rfl
    · split
      · next v hv => exact hlimits l v hv
      · rfl
  · rintro ⟨hcontent, hlimits⟩
    refine ⟨fun v hv ↦ ?_, fun l v hv ↦ ?_⟩
    · rwa [hv] at hcontent
    · have h := hlimits l
      rwa [hv] at h

/-! ## The file of the defaults -/

/-- The lines of the settings file that gives the defaults, without comments. -/
def defaultLines : List String :=
  ["[attachments]",
    "archive-content-type = \"application/zip\"",
    "",
    "[limits]",
    "max-console-records = 50",
    "max-body-chars = 2048",
    "max-console-text-chars = 2048",
    "max-entry-size = \"256MiB\"",
    "max-archive-size = \"1GiB\""]

/-- The file of the defaults sets every key, and each to its default. -/
theorem defaultLines_set :
    ∃ doc, Toml.document? (defaultLines.flatMap fun line ↦ line.toList ++ ['\n']) = some doc ∧
      (set? doc "attachments" "archive-content-type").bind Setting.text? =
        some ({} : Settings).archiveContentType ∧
      ∀ l : Limit, (set? doc "limits" l.key).bind l.meaning? = some (l.of {}) := by
  have h : (Toml.document? (defaultLines.flatMap fun line ↦ line.toList ++ ['\n'])).any (fun doc ↦
      (set? doc "attachments" "archive-content-type").bind Setting.text? =
          some ({} : Settings).archiveContentType ∧
        ∀ l ∈ Limit.all, (set? doc "limits" l.key).bind l.meaning? = some (l.of {})) = true := by
    decide +kernel
  obtain ⟨doc, hdoc, hsets⟩ := (Option.any_eq_true _ _).mp h
  obtain ⟨hcontent, hlimits⟩ := of_decide_eq_true hsets
  exact ⟨doc, hdoc, hcontent, fun l ↦ hlimits l l.mem_all⟩

/-! ## Laying the file over the defaults -/

theorem membersOfToml_eq_map (t : Toml.Table) :
    membersOfToml t = t.map fun m ↦ (m.1, Setting.ofToml m.2) := by
  induction t with
  | nil => rw [membersOfToml, List.map_nil]
  | cons m rest ih => rw [membersOfToml, ih, List.map_cons]

theorem keys_membersOfToml (t : Toml.Table) :
    (membersOfToml t).map Prod.fst = t.map Prod.fst := by
  rw [membersOfToml_eq_map, List.map_map]
  rfl

theorem nodup_membersAt (hdoc : (Toml.Value.table doc).Distinct) (group : String) :
    ((membersAt doc group).map Prod.fst).Nodup := by
  unfold membersAt
  split
  · next members hmembers =>
    rw [keys_membersOfToml]
    exact (hdoc.lookup hmembers).keys_nodup
  · exact List.nodup_nil

/-- A group of the defaults becomes that group with the file's members over it. -/
theorem laid_group (hplain : Plain doc) {name : String} (hname : name ∈ ["attachments", "limits"])
    (members : List (String × Setting)) :
    laid (membersOfToml doc) (name, .table members) =
      (name, .table (overlayMembers (membersAt doc name) members)) := by
  have hlookup : (membersOfToml doc).lookup name = (doc.lookup name).map Setting.ofToml := by
    rw [membersOfToml_eq_map, Lookup.lookup_map_snd]
  unfold membersAt
  cases hv : doc.lookup name with
  | none =>
    rw [hv, Option.map_none] at hlookup
    rw [Setting.laid_of_lookup_none hlookup]
    dsimp only
    rw [overlayMembers]
  | some v =>
    obtain ⟨inner, rfl⟩ := hplain.groups name hname v hv
    rw [hv, Option.map_some, Setting.ofToml] at hlookup
    rw [Setting.laid_of_lookup hlookup, Setting.overlay]
    rfl

/-- The groups of the defaults, with those of the file over them. -/
theorem laid_defaults (hplain : Plain doc) :
    defaults.map (laid (membersOfToml doc)) =
      [("attachments", .table (overlayMembers (membersAt doc "attachments") attachmentDefaults)),
        ("limits", .table (overlayMembers (membersAt doc "limits") limitDefaults))] := by
  rw [defaults_eq, List.map_cons, List.map_singleton, laid_group hplain (by decide),
    laid_group hplain (by decide)]

theorem nodup_membersOfToml (hdoc : (Toml.Value.table doc).Distinct) :
    ((membersOfToml doc).map Prod.fst).Nodup :=
  (keys_membersOfToml doc).symm ▸ hdoc.keys_nodup

/-- No key of the file is a path, so the file is laid over the defaults as a table. -/
theorem layer_defaults (hplain : Plain doc) :
    Setting.layer (membersOfToml doc) defaults = overlayMembers (membersOfToml doc) defaults := by
  refine Setting.layer_of_bare ?_
  rw [membersOfToml_eq_map, List.forall_mem_map]
  exact fun m hm ↦ (hplain.bare m hm).2

/-- What lies over the default of a limit means what the file means for it. -/
theorem meaning?_laid (doc : Toml.Table) (l : Limit) :
    l.meaning? (laid (membersAt doc "limits") (l.key, l.default)).2 = number? doc l := by
  unfold number? set?
  cases hv : (membersAt doc "limits").lookup l.key with
  | none =>
    rw [Setting.laid_of_lookup_none hv]
    exact l.meaning?_default
  | some v =>
    rw [Setting.laid_of_lookup hv]
    exact Setting.meaning_overlay l.meaning?_table v l.default

theorem text?_laid (doc : Toml.Table) :
    (laid (membersAt doc "attachments")
      ("archive-content-type", .text "application/zip")).2.text? = contentType? doc := by
  unfold contentType? set?
  cases hv : (membersAt doc "attachments").lookup "archive-content-type" with
  | none =>
    rw [Setting.laid_of_lookup_none hv]
    rfl
  | some v =>
    rw [Setting.laid_of_lookup hv]
    exact Setting.meaning_overlay (fun _ ↦ rfl) v _

/-! ## Reading the groups -/

theorem applied?_limitKeys {v : Limit → Setting} {limits : Limits} :
    applied? limitKeys (Limit.all.map fun l ↦ (l.key, v l)) {} = some limits ↔
      ∀ l : Limit, l.meaning? (v l) = some (l.ofLimits limits) := by
  constructor
  · intro h
    obtain ⟨records, hrecords, h⟩ := (applied?_cons_eq_some_iff rfl).mp h
    obtain ⟨body, hbody, h⟩ := (applied?_cons_eq_some_iff rfl).mp h
    obtain ⟨text, htext, h⟩ := (applied?_cons_eq_some_iff rfl).mp h
    obtain ⟨entry, hentry, h⟩ := (applied?_cons_eq_some_iff rfl).mp h
    obtain ⟨archive, harchive, h⟩ := (applied?_cons_eq_some_iff rfl).mp h
    obtain rfl := Option.some.inj h
    rw [valueOf?_reading] at hrecords hbody htext hentry harchive
    intro l
    cases l with
    | consoleRecords => exact hrecords
    | bodyChars => exact hbody
    | textChars => exact htext
    | entrySize => exact Option.map_eq_some_iff.mpr ⟨entry, hentry, rfl⟩
    | archiveSize => exact Option.map_eq_some_iff.mpr ⟨archive, harchive, rfl⟩
  · intro h
    have hread {α : Type} {meaning : Setting → Option α} {w : Setting} {a : α}
        (hw : meaning w = some a) : valueOf? (Setting.reading meaning w) = some a :=
      (valueOf?_reading meaning w).trans hw
    obtain ⟨⟨consoles, bodies, texts⟩, ⟨⟨archiveBytes⟩, ⟨entryBytes⟩⟩⟩ := limits
    obtain ⟨⟨entry⟩, hentry, hbytes⟩ := Option.map_eq_some_iff.mp (h .entrySize)
    obtain ⟨⟨archive⟩, harchive, hbytes'⟩ := Option.map_eq_some_iff.mp (h .archiveSize)
    obtain rfl : entry = entryBytes := hbytes
    obtain rfl : archive = archiveBytes := hbytes'
    refine (applied?_cons_eq_some_iff rfl).mpr ⟨_, hread (h .consoleRecords), ?_⟩
    refine (applied?_cons_eq_some_iff rfl).mpr ⟨_, hread (h .bodyChars), ?_⟩
    refine (applied?_cons_eq_some_iff rfl).mpr ⟨_, hread (h .textChars), ?_⟩
    refine (applied?_cons_eq_some_iff rfl).mpr ⟨_, hread hentry, ?_⟩
    exact (applied?_cons_eq_some_iff rfl).mpr ⟨_, hread harchive, rfl⟩

theorem readGroup_limits (hdoc : (Toml.Value.table doc).Distinct) {limits : Limits} :
    valueOf? (Setting.readGroup limitKeys {}
      (.table (overlayMembers (membersAt doc "limits") limitDefaults))) = some limits ↔
        ∀ l, number? doc l = some (l.ofLimits limits) := by
  have hlaid : limitDefaults.map (laid (membersAt doc "limits")) = Limit.all.map fun l ↦
      (l.key, (laid (membersAt doc "limits") (l.key, l.default)).2) := by
    rw [limitDefaults, List.map_map]
    rfl
  rw [Setting.valueOf?_readGroup_overlay (nodup_membersAt hdoc _) rfl (by decide), hlaid,
    applied?_limitKeys]
  simp only [meaning?_laid]

theorem readGroup_attachments (hdoc : (Toml.Value.table doc).Distinct) {contentType : String} :
    valueOf? (Setting.readGroup attachmentKeys ""
      (.table (overlayMembers (membersAt doc "attachments") attachmentDefaults))) =
        some contentType ↔ contentType? doc = some contentType := by
  rw [Setting.valueOf?_readGroup_overlay (nodup_membersAt hdoc _) rfl (by decide), ← text?_laid,
    attachmentDefaults, List.map_singleton, laid]
  constructor
  · intro h
    obtain ⟨text, htext, h⟩ := (applied?_cons_eq_some_iff rfl).mp h
    obtain rfl := Option.some.inj h
    rwa [valueOf?_reading] at htext
  · intro h
    exact (applied?_cons_eq_some_iff rfl).mpr ⟨_, (valueOf?_reading _ _).trans h, rfl⟩

/-- The settings that are read are those that the file means. -/
theorem ofTable_layer_iff (hdoc : (Toml.Value.table doc).Distinct) (hplain : Plain doc) :
    valueOf? (ofTable (Setting.layer (membersOfToml doc) defaults)) = some s ↔
      contentType? doc = some s.archiveContentType ∧ ∀ l : Limit, number? doc l = some (l.of s) := by
  rw [ofTable, layer_defaults hplain,
    Setting.valueOf?_readGroup_overlay (nodup_membersOfToml hdoc) rfl (by decide),
    laid_defaults hplain]
  constructor
  · intro h
    obtain ⟨contentType, hcontent, h⟩ := (applied?_cons_eq_some_iff rfl).mp h
    obtain ⟨limits, hlimits, h⟩ := (applied?_cons_eq_some_iff rfl).mp h
    obtain rfl := Option.some.inj h
    exact ⟨(readGroup_attachments hdoc).mp hcontent, (readGroup_limits hdoc).mp hlimits⟩
  · rintro ⟨hcontent, hlimits⟩
    have hread := (readGroup_limits hdoc).mpr
      (show ∀ l, number? doc l = some (l.ofLimits ⟨s.recordLimits, s.archiveLimits⟩) from hlimits)
    refine (applied?_cons_eq_some_iff rfl).mpr ⟨_, (readGroup_attachments hdoc).mpr hcontent, ?_⟩
    exact (applied?_cons_eq_some_iff rfl).mpr ⟨_, hread, rfl⟩

/-- Settings can be read if and only if the file can be converted. -/
theorem exists_ofTable_layer_iff (hdoc : (Toml.Value.table doc).Distinct) (hplain : Plain doc) :
    (∃ s, valueOf? (ofTable (Setting.layer (membersOfToml doc) defaults)) = some s) ↔
      Convertible doc := by
  rw [convertible_iff]
  constructor
  · rintro ⟨s, hs⟩
    obtain ⟨hcontent, hlimits⟩ := (ofTable_layer_iff hdoc hplain).mp hs
    exact ⟨hcontent ▸ rfl, fun l ↦ hlimits l ▸ rfl⟩
  · rintro ⟨hcontent, hlimits⟩
    obtain ⟨contentType, hcontent⟩ := Option.isSome_iff_exists.mp hcontent
    choose number hnumber using fun l ↦ Option.isSome_iff_exists.mp (hlimits l)
    refine ⟨⟨contentType, ⟨number .consoleRecords, number .bodyChars, number .textChars⟩,
      ⟨⟨number .archiveSize⟩, ⟨number .entrySize⟩⟩⟩, ?_⟩
    refine (ofTable_layer_iff hdoc hplain).mpr ⟨hcontent, ?_⟩
    intro l
    rw [hnumber]
    cases l <;> rfl

/-! ## Loading -/

/-- What is loaded depends only on the settings that are read, or on the place of an error. -/
theorem result_loadTable (file : String) (incoming : List (String × Setting)) :
    (loadTable file incoming).result =
      match (ofTable (Setting.layer incoming defaults)).map Setting.Read.value with
      | .error place => .error ⟨file, .wrongSetting place⟩
      | .ok s =>
        if s.zeroLimits = [] then .ok s.cutEntrySize.1
        else .error ⟨file, .zeroLimits s.zeroLimits⟩ := by
  unfold loadTable
  cases ofTable (Setting.layer incoming defaults) with
  | error place => rfl
  | ok r =>
    dsimp only [Except.map]
    cases r.value.zeroLimits with
    | nil => rfl
    | cons key keys => rfl

/-- Settings that cannot be read are wrong in some place. -/
theorem loadTable_wrong
    (h : ∀ s, valueOf? (ofTable (Setting.layer incoming defaults)) ≠ some s) :
    ∃ place, (loadTable file incoming).result = .error ⟨file, .wrongSetting place⟩ := by
  rw [result_loadTable]
  cases hread : ofTable (Setting.layer incoming defaults) with
  | error place => exact ⟨place, rfl⟩
  | ok r => exact absurd (congrArg valueOf? hread) (h r.value)

/-- Settings that can be read are refused only for zero limits. -/
theorem loadTable_read (h : valueOf? (ofTable (Setting.layer incoming defaults)) = some s) :
    (loadTable file incoming).result =
      if s.zeroLimits = [] then .ok s.cutEntrySize.1
      else .error ⟨file, .zeroLimits s.zeroLimits⟩ := by
  obtain ⟨unknown, hread⟩ := Setting.valueOf?_eq_some_iff.mp h
  rw [result_loadTable, hread]
  rfl

theorem load_of_holds (h : Holds files path doc) :
    load files (some path) = loadTable path (membersOfToml doc) := by
  obtain ⟨p, bytes, hfind, hread, hdoc⟩ := h
  have hfile : readFile files path = .ok (membersOfToml doc) := by
    simp only [readFile, hfind, hread, hdoc]
  rw [load, hfile]

theorem distinct_of_holds (h : Holds files path doc) : (Toml.Value.table doc).Distinct := by
  obtain ⟨p, bytes, -, -, hdoc⟩ := h
  exact Toml.document?_distinct hdoc

theorem load_wrong (hfile : Holds files path doc) (hplain : Plain doc)
    (hconvertible : ¬ Convertible doc) :
    ∃ place, (load files (some path)).result = .error ⟨path, .wrongSetting place⟩ := by
  rw [load_of_holds hfile]
  refine loadTable_wrong ?_
  intro s hs
  exact hconvertible ((exists_ofTable_layer_iff (distinct_of_holds hfile) hplain).mp ⟨s, hs⟩)

/-- What the file means. -/
def Means (doc : Toml.Table) (s : Settings) : Prop :=
  contentType? doc = some s.archiveContentType ∧ ∀ l : Limit, number? doc l = some (l.of s)

theorem exists_means_iff (hfile : Holds files path doc) (hplain : Plain doc) :
    (∃ s, Means doc s) ↔ Convertible doc := by
  rw [← exists_ofTable_layer_iff (distinct_of_holds hfile) hplain]
  exact exists_congr fun s ↦ (ofTable_layer_iff (distinct_of_holds hfile) hplain).symm

/-- What the file means is checked and cut as a whole. -/
theorem load_of_means (hfile : Holds files path doc) (hplain : Plain doc) (hs : Means doc s) :
    (load files (some path)).result =
      if s.zeroLimits = [] then .ok s.cutEntrySize.1
      else .error ⟨path, .zeroLimits s.zeroLimits⟩ := by
  rw [load_of_holds hfile]
  exact loadTable_read ((ofTable_layer_iff (distinct_of_holds hfile) hplain).mpr hs)

theorem load_eq_ok_iff (hfile : Holds files path doc) (hplain : Plain doc) :
    (load files (some path)).result = .ok s ↔
      ∃ t, Means doc t ∧ (∀ l : Limit, l.of t ≠ 0) ∧ t.cutEntrySize.1 = s := by
  constructor
  · intro h
    by_cases hconvertible : Convertible doc
    · obtain ⟨t, ht⟩ := (exists_means_iff hfile hplain).mpr hconvertible
      rw [load_of_means hfile hplain ht] at h
      split at h
      · next hzero => exact ⟨t, ht, zeroLimits_eq_nil_iff_of.mp hzero, Except.ok.inj h⟩
      · contradiction
    · obtain ⟨place, hplace⟩ := load_wrong hfile hplain hconvertible
      rw [hplace] at h
      contradiction
  · rintro ⟨t, ht, hpos, rfl⟩
    rw [load_of_means hfile hplain ht, if_pos (zeroLimits_eq_nil_iff_of.mpr hpos)]

/-- A number of what the file means is what the file means for it. -/
theorem Means.number_eq_zero_iff (h : Means doc s) (l : Limit) :
    number? doc l = some 0 ↔ l.of s = 0 := by
  rw [h.2 l, Option.some.injEq]

theorem load_zero (hfile : Holds files path doc) (hplain : Plain doc)
    (hconvertible : Convertible doc) (hzero : ∃ l, number? doc l = some 0) :
    ∃ keys, (load files (some path)).result = .error ⟨path, .zeroLimits keys⟩ ∧
      keys.Pairwise (· < ·) ∧
      ∀ key, key ∈ keys ↔ ∃ l, number? doc l = some 0 ∧ key = "limits." ++ l.key := by
  obtain ⟨s, hs⟩ := (exists_means_iff hfile hplain).mpr hconvertible
  have hne : s.zeroLimits ≠ [] := by
    obtain ⟨l, hl⟩ := hzero
    exact fun hnil ↦ zeroLimits_eq_nil_iff_of.mp hnil l ((hs.number_eq_zero_iff l).mp hl)
  refine ⟨s.zeroLimits, ?_, zeroLimits_sorted s, ?_⟩
  · rw [load_of_means hfile hplain hs, if_neg hne]
  · intro key
    rw [mem_zeroLimits_iff]
    exact exists_congr fun l ↦ and_congr_left' (hs.number_eq_zero_iff l).symm

theorem means_default (hcontent : set? doc "attachments" "archive-content-type" = none)
    (hlimits : ∀ l : Limit, set? doc "limits" l.key = none) : Means doc {} := by
  constructor
  · rw [contentType?, hcontent]
  · intro l
    rw [number?, hlimits]

/-- **Settings files.** A file that can be read gives settings if and only if every known key that it
sets can be converted and no limit is zero.  Each setting is then what the file sets, or else the
default, but for the size of an entry, which is cut to `2 ^ 30`.  Zero limits are all named, in the
order of their keys, if everything can be converted.  A file without known keys gives the defaults. -/
theorem load_layered (hfile : Holds files path doc) (hplain : Plain doc) :
    ((∃ s, (load files (some path)).result = .ok s) ↔
      Convertible doc ∧ ∀ l, number? doc l ≠ some 0) ∧
    (∀ s, (load files (some path)).result = .ok s →
      contentType? doc = some s.archiveContentType ∧
      (∀ l, ∃ n, number? doc l = some n ∧
        l.of s = if l = .entrySize then min n (Nat.pow 2 30) else n) ∧
      (∀ l : Limit, 1 ≤ l.of s) ∧ Limit.entrySize.of s ≤ Nat.pow 2 30) ∧
    (Convertible doc → (∃ l, number? doc l = some 0) →
      ∃ keys, (load files (some path)).result = .error ⟨path, .zeroLimits keys⟩ ∧
        keys.Pairwise (· < ·) ∧
        ∀ key, key ∈ keys ↔ ∃ l, number? doc l = some 0 ∧ key = "limits." ++ l.key) ∧
    (¬ Convertible doc →
      ∃ place, (load files (some path)).result = .error ⟨path, .wrongSetting place⟩) ∧
    (set? doc "attachments" "archive-content-type" = none →
      (∀ l : Limit, set? doc "limits" l.key = none) →
      (load files (some path)).result = .ok {}) := by
  refine ⟨⟨?_, ?_⟩, ?_, load_zero hfile hplain, load_wrong hfile hplain, ?_⟩
  · rintro ⟨s, hs⟩
    obtain ⟨t, ht, hpos, -⟩ := (load_eq_ok_iff hfile hplain).mp hs
    exact ⟨(exists_means_iff hfile hplain).mp ⟨t, ht⟩,
      fun l hl ↦ hpos l ((ht.number_eq_zero_iff l).mp hl)⟩
  · rintro ⟨hconvertible, hpos⟩
    obtain ⟨t, ht⟩ := (exists_means_iff hfile hplain).mpr hconvertible
    exact ⟨_, (load_eq_ok_iff hfile hplain).mpr
      ⟨t, ht, fun l hl ↦ hpos l ((ht.number_eq_zero_iff l).mpr hl), rfl⟩⟩
  · intro s hs
    have hlimited := load_limited hs
    obtain ⟨t, ⟨hcontent, hnumber⟩, -, rfl⟩ := (load_eq_ok_iff hfile hplain).mp hs
    refine ⟨(archiveContentType_cutEntrySize t).symm ▸ hcontent, ?_, hlimited.one_le,
      hlimited.entrySize_le⟩
    intro l
    refine ⟨l.of t, hnumber l, ?_⟩
    by_cases hl : l = .entrySize
    · rw [if_pos hl, hl, entrySize_cutEntrySize]
    · rw [if_neg hl, of_cutEntrySize hl]
  · intro hcontent hlimits
    refine (load_eq_ok_iff hfile hplain).mpr ⟨{}, means_default hcontent hlimits, ?_, rfl⟩
    intro l
    cases l <;> decide

end

namespace Sample

/-- A file system in which every file is this text. -/
def textFile (text : String) : Files where
  info _ := .ok { size := text.utf8ByteSize, isFile := true }
  read _ := .ok text.toUTF8

/-- Whether a document is two tables, of both groups, and means this content type and these limits. -/
def gives (contentType : String) (number : Limit → Nat) (doc : Toml.Table) : Bool :=
  match doc with
  | [("attachments", .table _), ("limits", .table _)] =>
    contentType? doc = some contentType && Limit.all.all fun l ↦ number? doc l = some (number l)
  | _ => false

theorem exists_doc {text contentType : String} {number : Limit → Nat}
    (h : (Toml.document? (textOf text.toUTF8)).any (gives contentType number) = true) :
    ∃ doc, Holds (textFile text) "tracediag.toml" doc ∧ Plain doc ∧ Convertible doc ∧
      contentType? doc = some contentType ∧ ∀ l, number? doc l = some (number l) := by
  obtain ⟨doc, hdoc, hgives⟩ := (Option.any_eq_true _ _).mp h
  refine ⟨doc, ⟨"tracediag.toml", _, rfl, rfl, hdoc⟩, ?_⟩
  unfold gives at hgives
  split at hgives
  · next attachments limits =>
    obtain ⟨hcontent, hall⟩ := Bool.and_eq_true_iff.mp hgives
    have hcontent := of_decide_eq_true hcontent
    have hnumber := fun l ↦ of_decide_eq_true (List.all_eq_true.mp hall l l.mem_all)
    refine ⟨⟨?_, ?_⟩, convertible_iff.mpr ⟨hcontent ▸ rfl, fun l ↦ hnumber l ▸ rfl⟩,
      hcontent, hnumber⟩
    · have hkeys : "attachments".toList.all Toml.isKeyChar = true ∧
          "limits".toList.all Toml.isKeyChar = true := by decide +kernel
      simp only [List.forall_mem_cons]
      exact ⟨⟨by decide, List.all_eq_true.mp hkeys.1⟩, ⟨by decide, List.all_eq_true.mp hkeys.2⟩,
        List.forall_mem_nil _⟩
    · simp only [List.forall_mem_cons]
      refine ⟨?_, ?_, List.forall_mem_nil _⟩
      · rintro v ⟨⟩
        exact ⟨attachments, rfl⟩
      · rintro v ⟨⟩
        exact ⟨limits, rfl⟩
  · contradiction

/-- The text of a settings file that sets three keys, one of them to a size that is cut. -/
def someKeys : String :=
  "attachments.archive-content-type = 'x/zip'\n[limits]\nmax-body-chars=15.5\nmax-entry-size='2GiB'\n"

/-- What this file means for the limits. -/
def someNumbers : Limit → Nat
  | .consoleRecords => 50
  | .bodyChars => 16
  | .textChars => 2048
  | .entrySize => 2147483648
  | .archiveSize => 1073741824

/-- The text of a settings file with a limit that rounds to zero, and one that is zero as it is. -/
def zeroKeys : String :=
  "[attachments]\n[limits]\nmax-entry-size = '0 kB'\nmax-body-chars = 0.25\n"

/-- What this file means for the limits. -/
def zeroNumbers : Limit → Nat
  | .bodyChars | .entrySize => 0
  | l => l.of {}

theorem load_layered_someKeys :
    (∃ s : Settings, (load (textFile someKeys) (some "tracediag.toml")).result = .ok s ∧
      s.archiveContentType = "x/zip" ∧ Limit.bodyChars.of s = 16 ∧
      Limit.textChars.of s = 2048 ∧ Limit.entrySize.of s = Nat.pow 2 30) ∧
    ∃ keys, (load (textFile zeroKeys) (some "tracediag.toml")).result =
      .error ⟨"tracediag.toml", .zeroLimits keys⟩ ∧
      "limits.max-body-chars" ∈ keys ∧ "limits.max-archive-size" ∉ keys := by
  constructor
  · have hgives : (Toml.document? (textOf someKeys.toUTF8)).any
        (gives "x/zip" someNumbers) = true := by decide +kernel
    obtain ⟨doc, hfile, hplain, hconvertible, hcontent, hnumber⟩ := exists_doc hgives
    obtain ⟨hok, hvalues, -⟩ := load_layered hfile hplain
    have hpos : ∀ l, number? doc l ≠ some 0 := by
      intro l
      rw [hnumber]
      cases l <;> decide
    obtain ⟨s, hs⟩ := hok.mpr ⟨hconvertible, hpos⟩
    obtain ⟨hcontent', hlimits, -, -⟩ := hvalues s hs
    have hof (l : Limit) :
        l.of s = if l = .entrySize then min (someNumbers l) (Nat.pow 2 30) else someNumbers l := by
      obtain ⟨n, hn, heq⟩ := hlimits l
      rwa [Option.some.inj ((hnumber l).symm.trans hn)]
    exact ⟨s, hs, Option.some.inj (hcontent'.symm.trans hcontent), hof .bodyChars, hof .textChars,
      hof .entrySize⟩
  · have hgives : (Toml.document? (textOf zeroKeys.toUTF8)).any
        (gives "application/zip" zeroNumbers) = true := by decide +kernel
    obtain ⟨doc, hfile, hplain, hconvertible, -, hnumber⟩ := exists_doc hgives
    obtain ⟨-, -, hzero, -⟩ := load_layered hfile hplain
    obtain ⟨keys, hkeys, -, hmem⟩ := hzero hconvertible ⟨.bodyChars, hnumber .bodyChars⟩
    refine ⟨keys, hkeys, (hmem _).mpr ⟨.bodyChars, hnumber .bodyChars, rfl⟩, ?_⟩
    intro harchive
    obtain ⟨l, hl, hkey⟩ := (hmem _).mp harchive
    rw [hnumber] at hl
    revert hl hkey
    cases l <;> decide

end Sample

end BrowserTrace.Settings
