import BrowserTrace.Archive.Writer
import BrowserTrace.Command.InTree
import BrowserTrace.Proofs.Json.Lexeme
import BrowserTrace.Proofs.Text.Lines

/-!
# What a listing tells

Each entry of an archive is a line of its listing: the method, both sizes and the name, in columns.
The columns before the name can be told apart again (`entryLine_injective`), and a name that has no
line feed stays on its line (`lines_join_entryLine`), so the listing of an archive without such names
tells its entries.

A name is printed as it stands.  One that has a line feed takes more than one line
(`count_newline_listing`), and what stands behind the line feed can be made to look like the line of
another entry.
-/

namespace BrowserTrace.Command

/-- What the line of an entry shows. -/
def shown (e : Entry) : String × Method × UInt32 × UInt32 :=
  (e.name, e.method, e.compressedSize, e.uncompressedSize)

/-! ## Sizes -/

section Sizes

variable {m n : Nat} {s t : List Char}

theorem toList_toString (n : Nat) : (toString n).toList = Nat.toDigits 10 n :=
  String.toList_ofList

theorem toList_padLeft (width : Nat) (text : String) :
    (padLeft width text).toList = List.replicate (width - text.length) ' ' ++ text.toList := by
  rw [padLeft, String.toList_append, String.toList_ofList]

/-- A number of 32 bits fills its column, and no more. -/
theorem length_padLeft (h : n < UInt32.size) : (padLeft 12 (toString n)).toList.length = 12 := by
  have hdigits : (toString n).length ≤ 12 := by
    rw [← String.length_toList, toList_toString,
      Nat.length_toDigits_le_iff (by decide) (by decide)]
    exact Nat.lt_trans h (by decide)
  rw [toList_padLeft, List.length_append, List.length_replicate, String.length_toList]
  omega

theorem padLeft_injective {width : Nat}
    (h : (padLeft width (toString m)).toList = (padLeft width (toString n)).toList) : m = n := by
  -- The digits are what is left without the blanks in front of them.
  have hdigits (k : Nat) :
      (padLeft width (toString k)).toList.dropWhile (· == ' ') = Nat.toDigits 10 k := by
    rw [toList_padLeft, toList_toString,
      List.dropWhile_append_of_pos fun c hc ↦ by rw [List.eq_of_mem_replicate hc]; rfl]
    obtain ⟨d, ds, hds⟩ := List.exists_cons_of_ne_nil (Nat.toDigits_ne_nil (b := 10) (n := k))
    have hd : d ≠ ' ' := by
      rintro rfl
      exact absurd (Json.isDigit_of_mem_toDigits (hds ▸ List.mem_cons_self)) (by decide)
    rw [hds, List.dropWhile_cons_of_neg (by simpa using hd)]
  have heq := congrArg (List.dropWhile (· == ' ')) h
  rw [hdigits, hdigits] at heq
  rw [← Json.digitsValue_toDigits m, heq, Json.digitsValue_toDigits]

/-- A size can be told from what stands behind its column. -/
theorem size_append_inj (hm : m < UInt32.size) (hn : n < UInt32.size)
    (h : (padLeft 12 (toString m)).toList ++ s = (padLeft 12 (toString n)).toList ++ t) :
    m = n ∧ s = t := by
  obtain ⟨hcolumn, hrest⟩ := List.append_inj h (by rw [length_padLeft hm, length_padLeft hn])
  exact ⟨padLeft_injective hcolumn, hrest⟩

/-- Digits can be told from what stands behind them, if that begins with no digit. -/
theorem toDigits_append_inj {c : Char} (hc : c.isDigit = false)
    (h : Nat.toDigits 10 m ++ c :: s = Nat.toDigits 10 n ++ c :: t) : m = n ∧ s = t := by
  have hend (r : List Char) : Json.EndsDigits (c :: r) := by
    rintro d ⟨⟩
    exact hc
  have hread := Json.readDigits_toDigits (hend s) m
  rw [h, Json.readDigits_toDigits (hend t) n] at hread
  obtain ⟨hdigits, hrest⟩ := Prod.mk.inj (Except.ok.inj hread)
  refine ⟨?_, (List.cons.inj hrest).2.symm⟩
  rw [← Json.digitsValue_toDigits m, ← hdigits, Json.digitsValue_toDigits]

end Sizes

/-! ## Methods -/

theorem toList_padRight_unsupported (n : UInt16) :
    (padRight 8 (Method.unsupported n).name).toList =
      "unsupported (".toList ++ (Nat.toDigits 10 n.toNat ++ [')']) := by
  have hname : (Method.unsupported n).name.toList =
      "unsupported (".toList ++ (Nat.toDigits 10 n.toNat ++ [')']) := by
    rw [← toList_toString, ← List.append_assoc, ← String.toList_append]
    exact String.toList_append
  have hfull : 8 - (Method.unsupported n).name.length = 0 := by
    rw [← String.length_toList, hname, List.length_append]
    exact Nat.sub_eq_zero_of_le (Nat.le_trans (by decide) (Nat.le_add_right 13 _))
  rw [padRight, String.toList_append, hfull, hname]
  exact List.append_nil _

/-- The letter that the name of a method begins with. -/
def initial : Method → Char
  | .stored => 's'
  | .deflate => 'd'
  | .unsupported _ => 'u'

theorem head?_padRight (m : Method) : (padRight 8 m.name).toList.head? = some (initial m) := by
  cases m with
  | stored => decide
  | deflate => decide
  | unsupported n =>
    rw [toList_padRight_unsupported]
    rfl

/-- A method can be told from what stands behind its column. -/
theorem method_append_inj {m m' : Method} {s s' : List Char}
    (h : (padRight 8 m.name).toList ++ s = (padRight 8 m'.name).toList ++ s') :
    m = m' ∧ s = s' := by
  -- The first letter tells which of the three it is, and the digits which unsupported one.
  have hinitial : initial m = initial m' := by
    have hhead := congrArg List.head? h
    rw [List.head?_append, List.head?_append, head?_padRight, head?_padRight] at hhead
    exact Option.some.inj hhead
  cases m with
  | stored =>
    cases m' with
    | stored => exact ⟨rfl, List.append_cancel_left h⟩
    | deflate => exact absurd (show 's' = 'd' from hinitial) (by decide)
    | unsupported n' => exact absurd (show 's' = 'u' from hinitial) (by decide)
  | deflate =>
    cases m' with
    | stored => exact absurd (show 'd' = 's' from hinitial) (by decide)
    | deflate => exact ⟨rfl, List.append_cancel_left h⟩
    | unsupported n' => exact absurd (show 'd' = 'u' from hinitial) (by decide)
  | unsupported n =>
    cases m' with
    | stored => exact absurd (show 'u' = 's' from hinitial) (by decide)
    | deflate => exact absurd (show 'u' = 'd' from hinitial) (by decide)
    | unsupported n' =>
      simp only [toList_padRight_unsupported, List.append_assoc, List.append_cancel_left_eq] at h
      obtain ⟨hn, hs⟩ := toDigits_append_inj (c := ')') rfl h
      exact ⟨by rw [UInt16.toNat_inj.mp hn], hs⟩

/-! ## Lines -/

/-- The columns of a line before the name. -/
def columns (e : Entry) : List Char :=
  (padRight 8 e.method.name).toList ++ ' ' ::
    ((padLeft 12 (toString e.compressedSize.toNat)).toList ++ ' ' ::
      ((padLeft 12 (toString e.uncompressedSize.toNat)).toList ++ [' ', ' ']))

theorem toList_entryLine (e : Entry) :
    (entryLine false e).toList = columns e ++ (e.name.toList ++ ['\n']) := by
  have hone : " ".toList = [' '] := rfl
  have htwo : "  ".toList = [' ', ' '] := rfl
  have hend : "\n".toList = ['\n'] := rfl
  simp only [entryLine, Style.paint, Bool.false_eq_true, if_false, columns, String.toList_append,
    hone, htwo, hend, List.append_assoc, List.cons_append, List.nil_append]

/-- A line tells its entry. -/
theorem entryLine_injective {e e' : Entry}
    (h : columns e ++ e.name.toList = columns e' ++ e'.name.toList) : shown e = shown e' := by
  simp only [columns, List.append_assoc, List.cons_append] at h
  obtain ⟨hmethod, h⟩ := method_append_inj h
  obtain ⟨hcompressed, h⟩ := size_append_inj (UInt32.toNat_lt_size _) (UInt32.toNat_lt_size _)
    (List.cons.inj h).2
  obtain ⟨huncompressed, h⟩ := size_append_inj (UInt32.toNat_lt_size _) (UInt32.toNat_lt_size _)
    (List.cons.inj h).2
  have hname : e.name = e'.name :=
    String.toList_inj.mp (List.cons.inj (List.cons.inj h).2).2
  rw [shown, shown, hname, hmethod, UInt32.toNat_inj.mp hcompressed,
    UInt32.toNat_inj.mp huncompressed]

theorem newline_notMem_digits (n : Nat) : '\n' ∉ Nat.toDigits 10 n :=
  fun h ↦ absurd (Json.isDigit_of_mem_toDigits h) (by decide)

theorem newline_notMem_padLeft (n : Nat) : '\n' ∉ (padLeft 12 (toString n)).toList := by
  rw [toList_padLeft, toList_toString, List.mem_append, not_or]
  exact ⟨fun h ↦ absurd (List.eq_of_mem_replicate h) (by decide), newline_notMem_digits n⟩

theorem newline_notMem_padRight (m : Method) : '\n' ∉ (padRight 8 m.name).toList := by
  cases m with
  | stored => decide
  | deflate => decide
  | unsupported n =>
    rw [toList_padRight_unsupported, List.mem_append, List.mem_append, not_or, not_or]
    exact ⟨by decide, newline_notMem_digits _, by decide⟩

/-- No line feed stands before the name. -/
theorem newline_notMem_columns (e : Entry) : '\n' ∉ columns e := by
  have hspace : '\n' ≠ ' ' := by decide
  simp only [columns, List.mem_append, List.mem_cons, not_or]
  exact ⟨newline_notMem_padRight _, hspace, newline_notMem_padLeft _, hspace,
    newline_notMem_padLeft _, hspace, hspace, List.not_mem_nil⟩

/-! ## Listings -/

/-- The lines of a listing are those of the entries, as long as no name has a line feed. -/
theorem lines_join_entryLine {entries : List Entry} (h : ∀ e ∈ entries, '\n' ∉ e.name.toList) :
    Text.lines (String.join (entries.map (entryLine false))).toList =
      entries.map (fun e ↦ columns e ++ e.name.toList) ++ [[]] := by
  rw [String.toList_join]
  induction entries with
  | nil => rfl
  | cons e entries ih =>
    have hline : '\n' ∉ columns e ++ e.name.toList := by
      rw [List.mem_append, not_or]
      exact ⟨newline_notMem_columns e, h e List.mem_cons_self⟩
    rw [List.map_cons, List.flatMap_cons, toList_entryLine, ← List.append_assoc, List.append_assoc,
      List.singleton_append, Text.lines_append_newline, Text.lines_of_notMem hline,
      ih fun e' he' ↦ h e' (List.mem_cons_of_mem e he')]
    rfl

theorem shown_of_columns {as bs : List Entry}
    (h : as.map (fun e ↦ columns e ++ e.name.toList) = bs.map fun e ↦ columns e ++ e.name.toList) :
    as.map shown = bs.map shown := by
  induction as generalizing bs with
  | nil =>
    rw [List.map_nil, eq_comm, List.map_eq_nil_iff] at h
    rw [h]
  | cons a as ih =>
    obtain ⟨b, bs, rfl, hhead, htail⟩ := List.map_eq_cons_iff.mp h.symm
    rw [List.map_cons, List.map_cons, ih htail.symm, entryLine_injective hhead.symm]

/-- How many lines a listing has: one an entry, and one more for each line feed in a name. -/
theorem count_newline_listing (entries : List Entry) :
    (String.join (entries.map (entryLine false))).toList.count '\n' =
      entries.length + (entries.flatMap fun e ↦ e.name.toList).count '\n' := by
  rw [String.toList_join]
  induction entries with
  | nil => rfl
  | cons e entries ih =>
    have hcolumns : (columns e).count '\n' = 0 :=
      List.count_eq_zero_of_not_mem (newline_notMem_columns e)
    rw [List.map_cons, List.flatMap_cons, List.count_append, ih, toList_entryLine,
      List.count_append, List.count_append, hcolumns, List.length_cons, List.flatMap_cons,
      List.count_append, List.count_singleton_self]
    omega

theorem listing_eq {files : Files} {settings : Settings} {path : String} {a : Archive}
    (ha : Archive.load files path settings.archiveLimits = .ok a) (colored : Bool) :
    listing files settings colored path =
      .ok (String.join (a.entries.map (entryLine colored))) := by
  rw [listing, ha]

/-- The listing of an archive whose names have no line feed tells its entries in order, and has one
line for each of them. -/
theorem listing_injective {files : Files} {settings : Settings} {path path' : String}
    {a b : Archive} {text : String}
    (ha : Archive.load files path settings.archiveLimits = .ok a)
    (hb : Archive.load files path' settings.archiveLimits = .ok b)
    (hnames : ∀ e ∈ a.entries, '\n' ∉ e.name.toList)
    (hnames' : ∀ e ∈ b.entries, '\n' ∉ e.name.toList)
    (htext : listing files settings false path = .ok text)
    (htext' : listing files settings false path' = .ok text) :
    a.entries.map shown = b.entries.map shown ∧
      Text.lines text.toList = a.entries.map (fun e ↦ columns e ++ e.name.toList) ++ [[]] := by
  rw [listing_eq ha] at htext
  rw [listing_eq hb] at htext'
  have hlines := lines_join_entryLine hnames
  have hlines' := lines_join_entryLine hnames'
  rw [Except.ok.inj htext] at hlines
  rw [Except.ok.inj htext', hlines] at hlines'
  exact ⟨shown_of_columns (List.append_cancel_right hlines'), hlines⟩

/-- Archives with the same listing: of one entry with a line feed in its name, of two entries, and of
the same two with a comment behind them. -/
def Sample.listed : FileTree where
  files :=
    [(["one.zip"], writeArchive [.stored "a\nstored              0            0  b" .empty] .empty),
      (["two.zip"], writeArchive [.stored "a" .empty, .stored "b" .empty] .empty),
      (["commented.zip"], writeArchive [.stored "a" .empty, .stored "b" .empty] "b".toUTF8)]

/-- The archive at a path has these names and these lines in a listing. -/
def Sample.Opens (path : String) (rows : List (String × String)) (a : Archive) : Prop :=
  Archive.load Sample.listed.toFiles path {} = .ok a ∧
    a.entries.map (fun e ↦ (e.name, entryLine false e)) = rows

theorem Sample.exists_opens (path : String) (rows : List (String × String))
    (h : ((Archive.load Sample.listed.toFiles path {}).toOption.map fun a ↦
      a.entries.map fun e ↦ (e.name, entryLine false e)) = some rows) : ∃ a, Opens path rows a := by
  cases ha : Archive.load Sample.listed.toFiles path {} with
  | error error =>
    rw [ha] at h
    contradiction
  | ok a =>
    rw [ha] at h
    exact ⟨a, ha, Option.some.inj h⟩

theorem Sample.Opens.listing_eq {path : String} {rows : List (String × String)} {a : Archive}
    (h : Opens path rows a) :
    listing Sample.listed.toFiles {} false path = .ok (String.join (rows.map (·.2))) := by
  rw [Command.listing_eq h.1, ← h.2, List.map_map]
  rfl

/-- Two entries, on a line each. -/
def Sample.twoRows : List (String × String) :=
  [("a", "stored              0            0  a\n"),
    ("b", "stored              0            0  b\n")]

theorem Sample.opens_two : ∃ a, Opens "two.zip" twoRows a :=
  exists_opens "two.zip" twoRows (by decide +kernel)

theorem listing_injective_commented :
    ∃ a b, Archive.load Sample.listed.toFiles "two.zip" {} = .ok a ∧
      Archive.load Sample.listed.toFiles "commented.zip" {} = .ok b ∧
      a.entries.map shown = b.entries.map shown := by
  obtain ⟨a, ha⟩ := Sample.opens_two
  obtain ⟨b, hb⟩ := Sample.exists_opens "commented.zip" Sample.twoRows (by decide +kernel)
  have hplain {path : String} {c : Archive} (hc : Sample.Opens path Sample.twoRows c) :
      ∀ e ∈ c.entries, '\n' ∉ e.name.toList := by
    have hnone : ∀ row ∈ Sample.twoRows, '\n' ∉ row.1.toList := by decide
    exact fun e he ↦ hnone (e.name, entryLine false e) (hc.2 ▸ List.mem_map_of_mem he)
  have hsame := @listing_injective _ {} _ _ a b _ ha.1 hb.1 (hplain ha) (hplain hb)
    ha.listing_eq hb.listing_eq
  exact ⟨a, b, ha.1, hb.1, hsame.1⟩

/-- A name with a line feed makes two archives with different entries look the same. -/
theorem listing_forged :
    ∃ a b, Archive.load Sample.listed.toFiles "one.zip" {} = .ok a ∧
      Archive.load Sample.listed.toFiles "two.zip" {} = .ok b ∧
      listing Sample.listed.toFiles {} false "one.zip" =
        listing Sample.listed.toFiles {} false "two.zip" ∧
      a.entries.map shown ≠ b.entries.map shown := by
  obtain ⟨b, hb⟩ := Sample.opens_two
  obtain ⟨a, ha⟩ := Sample.exists_opens "one.zip" [("a\nstored              0            0  b",
    "stored              0            0  a\nstored              0            0  b\n")]
    (by decide +kernel)
  refine ⟨a, b, ha.1, hb.1, ?_, fun hsame ↦ ?_⟩
  · rw [ha.listing_eq, hb.listing_eq]
    decide
  · have hlength := congrArg List.length hsame
    have hone := congrArg List.length ha.2
    have htwo := congrArg List.length hb.2
    simp only [Sample.twoRows, List.length_map, List.length_cons, List.length_nil] at hlength hone htwo
    omega

end BrowserTrace.Command
