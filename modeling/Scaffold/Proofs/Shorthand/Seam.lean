import Mathlib.Data.List.DropRight
import Scaffold.Proofs.Shorthand.Written

namespace Scaffold.Token

/-- What stands behind the last delimiter of a text. -/
def lastRun (source : String) : List Char := source.toList.rtakeWhile (!isDelimiter ·)

variable {d : Char} {token : Token}

theorem scan_delimiter (delimits : isDelimiter d = true) (rest : List Char) :
    scan (d :: rest) = (marker? d).toList ++ scan rest := by
  cases marks : marker? d with
  | some token => rw [scan_marker marks, Option.toList_some, List.singleton_append]
  | none =>
    have space : isSpace d = true := by simpa [isDelimiter, marks] using delimits
    rw [scan_space space, Option.toList_none, List.nil_append]

def markers : List Token := [openBracket, closeBracket, less, ampersand, semicolon]

theorem exists_char_of_marker (present : token ∈ markers) :
    ∃ d, token.text.toList = [d] ∧ marker? d = some token := by
  cases token with
  | openBracket => exact ⟨'[', by decide, rfl⟩
  | closeBracket => exact ⟨']', by decide, rfl⟩
  | less => exact ⟨'<', by decide, rfl⟩
  | ampersand => exact ⟨'&', by decide, rfl⟩
  | semicolon => exact ⟨';', by decide, rfl⟩
  | path | name => simp [markers] at present

section Between
variable {between : String} (alone : between.toList = [d])
include alone

theorem listOfText_delimited (delimits : isDelimiter d = true) (a b : String) :
    listOfText (a ++ between ++ b) = listOfText a ++ ((marker? d).toList ++ listOfText b) := by
  have split : (a ++ between ++ b).toList = a.toList ++ d :: b.toList := by simp [alone]
  calc
    _ = scan (a.toList ++ d :: b.toList) := by rw [listOfText, split]
    _ = scan a.toList ++ scan (d :: b.toList) := scan_append delimits a.toList b.toList
    _ = _ := by rw [scan_delimiter delimits, listOfText, listOfText]

theorem listOfText_spaced (space : isSpace d = true) (a b : String) :
    listOfText (a ++ between ++ b) = listOfText a ++ listOfText b := by
  have unmarked : marker? d = none := by
    cases marks : marker? d with
    | none => rfl
    | some token => simp [isSpace_of_marker? marks] at space
  rw [listOfText_delimited alone (by simp [isDelimiter, space]), unmarked, Option.toList_none,
    List.nil_append]

theorem listOfText_marked (marks : marker? d = some token) (a b : String) :
    listOfText (a ++ between ++ b) = listOfText a ++ token :: listOfText b := by
  rw [listOfText_delimited alone (by simp [isDelimiter, marks]), marks, Option.toList_some,
    List.singleton_append]

end Between

theorem scan_name_slash {run : List Char} (bare : ∀ c ∈ run, endsName c = false)
    (rest : List Char) : scan (run ++ '/' :: rest) = scan run ++ scan ('/' :: rest) := by
  cases run with
  | nil => rw [scan_nil, List.nil_append, List.nil_append]
  | cons c cs =>
    have slash : (!endsName '/') = false := by decide
    have stays : ∀ d ∈ cs, (!endsName d) = true := by
      intro d member
      simp [bare d (by simp [member])]
    obtain ⟨taken, dropped⟩ := takeWhile_of_all stays
    have plain := bare c (by simp)
    rw [List.cons_append, scan_name plain, scan_name plain, takeWhile_append_cons slash,
      dropWhile_append_cons slash, taken, dropped, scan_nil, List.nil_append, List.singleton_append]

theorem scan_append_of_delimited {front : List Char}
    (ends : ∀ filled : front ≠ [], isDelimiter (front.getLast filled) = true)
    (rest : List Char) : scan (front ++ rest) = scan front ++ scan rest := by
  rcases List.eq_nil_or_concat front with empty | ⟨before, d, last⟩
  · rw [empty, scan_nil, List.nil_append, List.nil_append]
  · subst last
    have delimits : isDelimiter d = true := by simpa using ends (by simp)
    calc
      _ = scan (before ++ d :: rest) := by simp
      _ = scan before ++ ((marker? d).toList ++ scan rest) := by
        rw [scan_append delimits, scan_delimiter delimits]
      _ = scan before ++ scan [d] ++ scan rest := by
        rw [scan_delimiter delimits, scan_nil, List.append_nil, List.append_assoc]
      _ = _ := by rw [← scan_append delimits, List.concat_eq_append]

theorem scan_before_run (cs rest : List Char) :
    scan (cs.rdropWhile (!isDelimiter ·) ++ rest) =
      scan (cs.rdropWhile (!isDelimiter ·)) ++ scan rest := by
  apply scan_append_of_delimited
  intro filled
  simpa using List.rdropWhile_last_not _ _ filled

theorem scan_append_slash {source : String} (noSlash : '/' ∉ lastRun source) (rest : List Char) :
    scan (source.toList ++ '/' :: rest) = scan source.toList ++ scan ('/' :: rest) := by
  let front := source.toList.rdropWhile (!isDelimiter ·)
  have whole : front ++ lastRun source = source.toList := List.rdropWhile_append_rtakeWhile
  have apart : ∀ after, scan (front ++ after) = scan front ++ scan after := scan_before_run _
  have bare : ∀ c ∈ lastRun source, endsName c = false := by
    intro c member
    have undelimited : isDelimiter c = false := by simpa using List.mem_rtakeWhile_imp member
    have apart : c ≠ '/' := fun slash => noSlash (slash ▸ member)
    simp [endsName, undelimited, apart]
  calc
    _ = scan (front ++ (lastRun source ++ '/' :: rest)) := by rw [← whole, List.append_assoc]
    _ = scan front ++ (scan (lastRun source) ++ scan ('/' :: rest)) := by
      rw [apart, scan_name_slash bare]
    _ = _ := by rw [← List.append_assoc, ← apart, whole]

/-- A text is scanned by its parts: where a space stands between two texts, where a marker does, and
where the second begins with a slash while no path is open at the end of the first. -/
theorem listOfText_by_parts (a b : String) :
    (∀ space, Text.isBlank space = true ∨ space = '\ufeff' →
      listOfText (a ++ String.singleton space ++ b) = listOfText a ++ listOfText b) ∧
    (∀ marker ∈ markers,
      listOfText (a ++ marker.text ++ b) = listOfText a ++ marker :: listOfText b) ∧
    (Path.isRooted b = true → a = "" ∨ '/' ∉ lastRun a →
      listOfText (a ++ b) = listOfText a ++ listOfText b) := by
  refine ⟨?_, ?_, ?_⟩
  · intro space blank
    have alone : (String.singleton space).toList = [space] := by simp
    exact listOfText_spaced alone (by simpa [isSpace] using blank) a b
  · intro marker present
    obtain ⟨d, alone, marks⟩ := exists_char_of_marker present
    exact listOfText_marked alone marks a b
  · intro rooted closed
    have noSlash : '/' ∉ lastRun a := by
      rcases closed with empty | noSlash
      · simp [empty, lastRun]
      · exact noSlash
    obtain ⟨rest, split⟩ := List.head?_eq_some_iff.mp (of_decide_eq_true rooted)
    rw [listOfText, String.toList_append, split, scan_append_slash noSlash, ← split]
    rfl

-- A path that is open reads on.
example : listOfText ("/a" ++ "/b") = [path ["a", "b"] false] := by decide +kernel

end Scaffold.Token
