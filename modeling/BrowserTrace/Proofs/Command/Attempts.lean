import BrowserTrace.Command.InTree
import BrowserTrace.Proofs.Contracts
import BrowserTrace.Proofs.Json.Front

/-!
# Where a list of attempts ends

The attempts of an extraction are read from the front of a text.  The reader of the list is closed,
so a text is accepted if and only if a front of it is such a list as a whole, and the attempts are
those of that list (`Attempt.readList_eq_ok`).

What stands behind the list is not looked at, not even to see that it is blank, so another list there
is lost without a word.
-/

namespace BrowserTrace

open Json

theorem Attachment.closed_reader : Closed reader := by
  refine closed_record (fun field hfield ↦ ?_) _
  rcases hfield with _ | ⟨_, _ | ⟨_, _ | ⟨_, hnone⟩⟩⟩
  · exact closed_text.toLocal.map _
  · exact closed_text.toLocal.map _
  · exact closed_text.toLocal.option.map _
  · contradiction

namespace Attempt

theorem closed_reader : Closed reader := by
  refine closed_record (fun field hfield ↦ ?_) _
  obtain rfl := List.mem_singleton.mp hfield
  exact (closed_list Attachment.closed_reader.toLocal).toLocal.map _

theorem closed_list_reader : Closed reader.list := closed_list closed_reader.toLocal

/-- A text is accepted as a list of attempts if a front of it is one as a whole. -/
theorem readList_eq_ok {text : List Char} {attempts : List Attempt} :
    readList text = .ok attempts ↔
      ∃ front rest, text = front ++ rest ∧ reader.list.whole front = some attempts := by
  constructor
  · intro h
    rw [readList] at h
    cases hrun : reader.list.run text with
    | error e =>
      rw [hrun] at h
      contradiction
    | ok result =>
      obtain ⟨attempts', rest⟩ := result
      rw [hrun] at h
      obtain rfl : attempts' = attempts := Except.ok.inj h
      obtain ⟨front, rfl, hfront⟩ := closed_list_reader.run_eq_ok.mp hrun
      exact ⟨front, rest, rfl, by simp only [Parser.whole, hfront]; rfl⟩
  · rintro ⟨front, rest, rfl, h⟩
    unfold Parser.whole at h
    split at h
    · next attempts' blank hrun =>
      split at h
      · obtain rfl := Option.some.inj h
        obtain ⟨front, rfl, hfront⟩ := closed_list_reader hrun
        rw [readList, List.append_assoc, hfront]
        rfl
      · contradiction
    · contradiction

end Attempt

namespace Command

/-- An extraction from a list of attempts accepts just the texts that begin with one, and its output
has the diagnostics of each attempt of that list, in order. -/
theorem extract_attachments {content : String} {files : Files} {stdin : ByteArray} {path : String}
    (hplace : StandsAt content files stdin path) (settings : Settings) (verbose colored : Bool)
    (output : Option String) (attempts : List Attempt) :
    (readAttempts files stdin path = .ok attempts ↔
      ∃ front rest, content.toList = front ++ rest ∧
        Attempt.reader.list.whole front = some attempts) ∧
    (readAttempts files stdin path = .ok attempts →
      ((Task.extract (.attachments path) output).perform files stdin settings verbose colored).result =
        .ok ((Json.array (attempts.map fun attempt ↦
          (extract files settings attempt).diagnostics.toJson)).pretty ++ "\n")) := by
  constructor
  · rw [readAttempts_eq_ok hplace, Attempt.readList_eq_ok]
  · intro hread
    simp only [Task.perform, hread, extractAttempts, List.map_map]
    rfl

/-- An empty list of attempts, and behind it another list. -/
def Sample.twoLists : String := "[] [\x7b\"attachments\":[]\x7d]\n"

/-- A tree with a file of these two lists. -/
def Sample.twoListsTree : FileTree := { files := [(["a.json"], Sample.twoLists.toUTF8)] }

theorem Sample.standsAt_twoLists (stdin : ByteArray) :
    StandsAt Sample.twoLists Sample.twoListsTree.toFiles stdin "a.json" := by
  rw [StandsAt, if_neg (by decide)]
  rfl

theorem extract_attachments_twoLists :
    StandsAt Sample.twoLists Sample.twoListsTree.toFiles .empty "a.json" ∧
    ∃ front rest, Sample.twoLists.toList = front ++ rest ∧
      Attempt.reader.list.whole front = some [] := by
  have hplace := Sample.standsAt_twoLists .empty
  have hread : readAttempts Sample.twoListsTree.toFiles .empty "a.json" = .ok [] :=
    (readAttempts_eq_ok hplace).mpr (by decide +kernel)
  exact ⟨hplace, (extract_attachments hplace {} false false none []).1.mp hread⟩

/-- The second list is lost: the text is no list of attempts, and the extraction succeeds with the
diagnostics of none. -/
theorem extract_attachments_second_list :
    Attempt.readList Sample.twoLists.toList = .ok [] ∧
    Attempt.reader.list.whole Sample.twoLists.toList = none ∧
    (run { words := ["extract", "--attachments", "a.json"] } Sample.twoListsTree).1 =
      { exit := .success, stdout := "[]\n" } := by
  refine ⟨by decide +kernel, by decide +kernel, by decide +kernel⟩

end Command

end BrowserTrace
