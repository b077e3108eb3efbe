import Scaffold.Proofs.Json.RoundTrip
import Scaffold.Proofs.Outcome
import Scaffold.Store

namespace Scaffold.Scripts

theorem whole_toJson (scripts : Scripts) : scripts.toJson.Whole := by
  refine .object _ (by simp) fun field present => ?_
  rw [List.mem_singleton.mp present]
  refine .object _ ?_ ?_
  all_goals
    intro entry inside
    obtain ⟨saved, -, rfl⟩ := List.mem_map.mp inside
  · rfl
  · exact .string saved.2

theorem entryOfJson?_string (entry : String × String) :
    entryOfJson? (some entry.1, .string (some entry.2)) = some entry := rfl

theorem ofJson?_toJson (scripts : Scripts) : ofJson? scripts.toJson = some scripts := by
  have entries : ofFields? (scripts.entries.map fun entry =>
      (some entry.1, Json.string (some entry.2))) = some scripts := by
    rw [ofFields?, mapM_map_eq_some entryOfJson?_string, Option.map_some, Dict.ofList_entries]
  simpa [toJson, ofJson?] using entries

theorem ofText?_toText (scripts : Scripts) : ofText? scripts.toText = some scripts := by
  rw [ofText?, toText, Json.parse_pretty scripts.whole_toJson]
  exact ofJson?_toJson scripts

end Scaffold.Scripts
