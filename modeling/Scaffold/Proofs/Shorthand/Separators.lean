import Scaffold.Proofs.Shorthand.Seam

namespace Scaffold.Token

def isSolid (c : Char) : Bool := !Text.isBlank c && c ≠ '\ufeff' && c ≠ '/'

theorem isSolid_eq (c : Char) : isSolid c = (!isSpace c && c ≠ '/') := by
  simp [isSolid, isSpace]

theorem filter_text_ofRun (run : List Char) :
    ((ofRun run).flatMap fun token => token.text.toList).filter (· ≠ '/') =
      run.filter (· ≠ '/') := by
  have pieces := Path.flatMap_pieces (String.ofList run)
  rw [String.toList_ofList] at pieces
  rw [← pieces]
  cases ends : (Path.pieces (String.ofList run)).getLast? with
  | none =>
    have none : Path.pieces (String.ofList run) = [] := List.getLast?_eq_none_iff.mp ends
    simp [ofRun, none]
  | some last =>
    have noSlash : ∀ part ∈ (Path.pieces (String.ofList run)).map String.toList, '/' ∉ part := by
      intro part member
      obtain ⟨piece, present, rfl⟩ := List.mem_map.mp member
      exact (Path.mem_pieces present).2.1
    have written : (ofRun run).flatMap (fun token => token.text.toList) =
        '/' :: ("/".intercalate (Path.pieces (String.ofList run))).toList ++
          (if last.toList.contains '.' then "" else "/").toList := by
      simp only [ofRun, ends, List.flatMap_singleton, text, String.toList_append]
      rfl
    have slash : "/".toList = ['/'] := by simp
    have tail : (if last.toList.contains '.' then "" else "/").toList.filter (· ≠ '/') = [] := by
      split <;> rfl
    rw [written, List.filter_append, tail, List.append_nil, List.filter_cons_of_neg (by simp),
      String.toList_intercalate, slash, Path.filter_intercalate noSlash, List.flatMap_def]

theorem text_marker {c : Char} {token : Token} (marks : marker? c = some token) :
    token.text.toList = [c] ∧ isSolid c = true := by
  unfold marker? at marks
  split at marks <;> cases marks <;> exact ⟨rfl, by decide⟩

theorem filter_solid {run : List Char} (plain : ∀ c ∈ run, isDelimiter c = false) :
    run.filter isSolid = run.filter (· ≠ '/') := by
  apply List.filter_congr
  intro c member
  have bare := plain c member
  simp only [isDelimiter, Bool.or_eq_false_iff] at bare
  simp [isSolid_eq, bare.1]

theorem filter_text_scan (cs : List Char) :
    ((scan cs).flatMap fun token => token.text.toList).filter (· ≠ '/') = cs.filter isSolid := by
  fun_induction scan cs with
  | case1 => rfl
  | case2 c cs space ih => rw [ih, List.filter_cons_of_neg (by simp [isSolid_eq, space])]
  | case3 c cs apart token marks ih =>
    obtain ⟨alone, solid⟩ := text_marker marks
    have noSlash : c ≠ '/' := by
      rintro rfl
      cases marks
    rw [List.flatMap_cons, alone, List.filter_append, ih, List.filter_cons_of_pos solid]
    simp [noSlash]
  | case4 cs apart unmarked ih =>
    have run : ∀ c ∈ cs.takeWhile (!isDelimiter ·), isDelimiter c = false := by
      intro c member
      simpa using List.all_eq_true.mp List.all_takeWhile c member
    calc
      _ = (cs.takeWhile (!isDelimiter ·)).filter (· ≠ '/') ++
          (cs.dropWhile (!isDelimiter ·)).filter isSolid := by
        rw [List.flatMap_append, List.filter_append, filter_text_ofRun, ih]
      _ = (cs.takeWhile (!isDelimiter ·) ++ cs.dropWhile (!isDelimiter ·)).filter isSolid := by
        rw [List.filter_append, filter_solid run]
      _ = _ := by
        rw [List.takeWhile_append_dropWhile, List.filter_cons_of_neg (by decide)]
  | case5 c cs apart unmarked noSlash ih =>
    have name : ∀ d ∈ c :: cs.takeWhile (!endsName ·), isDelimiter d = false ∧ d ≠ '/' := by
      intro d member
      rcases List.mem_cons.mp member with rfl | member
      · exact ⟨by simp [isDelimiter, apart, unmarked], noSlash⟩
      · simpa [endsName] using List.all_eq_true.mp List.all_takeWhile d member
    have kept : (c :: cs.takeWhile (!endsName ·)).filter (· ≠ '/') =
        c :: cs.takeWhile (!endsName ·) := by
      apply List.filter_eq_self.mpr
      intro d member
      simpa using (name d member).2
    have solid := filter_solid fun d member => (name d member).1
    calc
      _ = (c :: cs.takeWhile (!endsName ·)).filter (· ≠ '/') ++
          (cs.dropWhile (!endsName ·)).filter isSolid := by
        rw [List.flatMap_cons, List.filter_append, ih, text, String.toList_ofList]
      _ = (c :: cs.takeWhile (!endsName ·) ++ cs.dropWhile (!endsName ·)).filter isSolid := by
        rw [List.filter_append, solid]
      _ = _ := by rw [List.cons_append, List.takeWhile_append_dropWhile]

/-- No name begins there: the text is over, or a delimiter or a further slash comes first. -/
def Idle (rest : List Char) : Prop := ∀ c ∈ rest.head?, isDelimiter c = true ∨ c = '/'

instance (rest : List Char) : Decidable (Idle rest) := Option.decidableForallMem rest.head?

theorem Idle.cases {rest : List Char} (idle : Idle rest) :
    rest = [] ∨ (∃ d cs, rest = d :: cs ∧ isDelimiter d = true) ∨ ∃ cs, rest = '/' :: cs := by
  cases rest with
  | nil => exact .inl rfl
  | cons c cs =>
    rcases idle c rfl with delimits | slash
    · exact .inr (.inl ⟨c, cs, rfl, delimits⟩)
    · exact .inr (.inr ⟨cs, by rw [slash]⟩)

theorem ofRun_congr {run other : List Char}
    (same : Path.pieces (String.ofList run) = Path.pieces (String.ofList other)) :
    ofRun run = ofRun other := by
  simp only [ofRun, same]

theorem scan_slash_append {run : List Char} (plain : ∀ c ∈ run, isDelimiter c = false)
    (rest : List Char) : scan ('/' :: (run ++ rest)) =
      ofRun (run ++ rest.takeWhile (!isDelimiter ·)) ++ scan (rest.dropWhile (!isDelimiter ·)) := by
  have stays : ∀ c ∈ run, (!isDelimiter c) = true := by
    intro c member
    simp [plain c member]
  rw [scan_slash, List.takeWhile_append_of_pos stays, List.dropWhile_append_of_pos stays]

theorem pieces_slash_between (run rest : List Char) :
    Path.pieces (String.ofList (run ++ '/' :: rest)) =
      Path.pieces (String.ofList run) ++ Path.pieces (String.ofList rest) := by
  have split : String.ofList (run ++ '/' :: rest) = String.ofList run ++ "/" ++ String.ofList rest := by
    apply String.toList_inj.mp
    simp
  rw [split, Path.pieces_append_slash_append]

theorem reads_on (rest : List Char) :
    ('/' :: rest).takeWhile (!isDelimiter ·) = '/' :: rest.takeWhile (!isDelimiter ·) ∧
      ('/' :: rest).dropWhile (!isDelimiter ·) = rest.dropWhile (!isDelimiter ·) := by
  have slash : isDelimiter '/' = false := by decide
  simp [slash]

theorem pieces_slash_first (rest : List Char) :
    Path.pieces (String.ofList ('/' :: rest)) = Path.pieces (String.ofList rest) := by
  simpa [Path.pieces_empty] using pieces_slash_between [] rest

section IdleSlash

variable {rest : List Char} (idle : Idle rest)
include idle

theorem pieces_idle_slash (run : List Char) :
    Path.pieces (String.ofList (run ++ '/' :: rest.takeWhile (!isDelimiter ·))) =
      Path.pieces (String.ofList (run ++ rest.takeWhile (!isDelimiter ·))) := by
  have nothing : Path.pieces (String.ofList []) = [] := Path.pieces_empty
  rcases idle.cases with empty | ⟨d, cs, split, delimits⟩ | ⟨cs, split⟩
  · rw [empty, List.takeWhile_nil, pieces_slash_between, nothing, List.append_nil, List.append_nil]
  · have ends : rest.takeWhile (!isDelimiter ·) = [] := by simp [split, delimits]
    rw [ends, pieces_slash_between, nothing, List.append_nil, List.append_nil]
  · rw [split, (reads_on cs).1, pieces_slash_between, pieces_slash_between, pieces_slash_first]

theorem scan_path_idle {run : List Char} (plain : ∀ c ∈ run, isDelimiter c = false) :
    scan ('/' :: (run ++ '/' :: rest)) = scan ('/' :: (run ++ rest)) := by
  obtain ⟨taken, dropped⟩ := reads_on rest
  rw [scan_slash_append plain, scan_slash_append plain, taken, dropped,
    ofRun_congr (pieces_idle_slash idle run)]

theorem scan_idle : scan ('/' :: rest) = scan rest := by
  have nothing : ofRun [] = [] := by decide +kernel
  rcases idle.cases with empty | ⟨d, cs, split, delimits⟩ | ⟨cs, split⟩
  · rw [empty, scan_slash, List.takeWhile_nil, List.dropWhile_nil, nothing, List.nil_append]
  · have ends : rest.takeWhile (!isDelimiter ·) = [] := by simp [split, delimits]
    have whole : rest.dropWhile (!isDelimiter ·) = rest := by simp [split, delimits]
    rw [scan_slash, ends, whole, nothing, List.nil_append]
  · obtain ⟨taken, dropped⟩ := reads_on cs
    rw [split, scan_slash, scan_slash cs, taken, dropped, ofRun_congr (pieces_slash_first _)]

theorem scan_name_idle {run : List Char} (bare : ∀ c ∈ run, endsName c = false) :
    scan (run ++ rest) = scan run ++ scan rest := by
  rcases idle.cases with empty | ⟨d, cs, split, delimits⟩ | ⟨cs, split⟩
  · rw [empty, List.append_nil, scan_nil, List.append_nil]
  · rw [split, scan_append delimits]
  · rw [split, scan_name_slash bare]

theorem scan_run_idle {run : List Char} (plain : ∀ c ∈ run, isDelimiter c = false) :
    scan (run ++ '/' :: rest) = scan (run ++ rest) := by
  have ends {c : Char} (member : c ∈ run) (apart : c ≠ '/') : endsName c = false := by
    simp [endsName, plain c member, apart]
  by_cases slashed : '/' ∈ run
  · -- A bare name, and a path behind it that takes the idle slash in.
    obtain ⟨name, path, split, noSlash⟩ := List.eq_append_cons_of_mem slashed
    have bare : ∀ c ∈ name, endsName c = false := by
      intro c member
      exact ends (by simp [split, member]) fun slash => noSlash (slash ▸ member)
    have inside : ∀ c ∈ path, isDelimiter c = false := by
      intro c member
      exact plain c (by simp [split, member])
    rw [split, List.append_assoc, List.append_assoc, List.cons_append, List.cons_append,
      scan_name_slash bare, scan_name_slash bare, scan_path_idle idle inside]
  · have bare : ∀ c ∈ run, endsName c = false := by
      intro c member
      exact ends member fun slash => slashed (slash ▸ member)
    rw [scan_name_slash bare, scan_idle idle, scan_name_idle idle bare]

theorem scan_idle_slash (first : List Char) :
    scan (first ++ '/' :: rest) = scan (first ++ rest) := by
  let front := first.rdropWhile (!isDelimiter ·)
  let run := first.rtakeWhile (!isDelimiter ·)
  have whole : front ++ run = first := List.rdropWhile_append_rtakeWhile
  have plain : ∀ c ∈ run, isDelimiter c = false := by
    intro c member
    simpa using List.mem_rtakeWhile_imp member
  rw [← whole, List.append_assoc, List.append_assoc, scan_before_run, scan_before_run,
    scan_run_idle idle plain]

end IdleSlash

/-- Some idle slashes of a text are left out, each of them idle in the text as it was. -/
inductive Thinned : List Char → List Char → Prop
  | nil : Thinned [] []
  | keep (c : Char) {cs thinner : List Char} (thinned : Thinned cs thinner) :
      Thinned (c :: cs) (c :: thinner)
  | drop {cs thinner : List Char} (idle : Idle cs) (thinned : Thinned cs thinner) :
      Thinned ('/' :: cs) thinner

-- What comes before the slash that is left out decides how it is read, so it is kept in view.
theorem Thinned.scan_append {cs thinner : List Char} (thinned : Thinned cs thinner)
    (first : List Char) : scan (first ++ thinner) = scan (first ++ cs) := by
  induction thinned generalizing first with
  | nil => rfl
  | keep c _ ih =>
    rw [List.append_cons first c, ih, ← List.append_cons]
  | drop idle _ ih => rw [ih, scan_idle_slash idle]

/-- Scanning drops separators only. The written forms of a text's tokens hold its characters, all
but blanks, byte-order marks and slashes, each once and in their order; and the tokens stay the same
without a slash that is followed by a further one, by a delimiter or by nothing, and without any
number of such. -/
theorem scanning_drops_separators :
    (∀ source : String,
      (String.join ((listOfText source).map text)).toList.filter (· ≠ '/') =
        source.toList.filter fun c => !Text.isBlank c && c ≠ '\ufeff' && c ≠ '/') ∧
    (∀ before after : String, Idle after.toList →
      listOfText (before ++ "/" ++ after) = listOfText (before ++ after)) ∧
    ∀ source thinner : String, Thinned source.toList thinner.toList →
      listOfText thinner = listOfText source := by
  refine ⟨?_, ?_, ?_⟩
  · intro source
    rw [String.toList_join, List.flatMap_map]
    exact filter_text_scan source.toList
  · intro before after idle
    have slashed : (before ++ "/" ++ after).toList = before.toList ++ '/' :: after.toList := by
      simp
    rw [listOfText, slashed, scan_idle_slash idle, listOfText, String.toList_append]
  · intro source thinner thinned
    exact thinned.scan_append []

-- The first slash begins a path and stays; the second of two, and one at the end, are left out.
theorem scanning_drops_separators_in_script :
    Idle "; b/".toList ∧ Thinned "/a//; b/".toList "/a/; b".toList ∧
      listOfText ("/a/" ++ "/" ++ "; b/") = listOfText ("/a/" ++ "; b/") ∧
      listOfText "/a/; b" = listOfText "/a//; b/" := by
  have idle : Idle "; b/".toList := by decide
  have whole : "/a//; b/".toList = ['/', 'a', '/', '/', ';', ' ', 'b', '/'] := by decide
  have left : "/a/; b".toList = ['/', 'a', '/', ';', ' ', 'b'] := by decide
  have ends : Thinned [' ', 'b', '/'] [' ', 'b'] := .keep _ (.keep _ (.drop (by decide) .nil))
  have thinned : Thinned "/a//; b/".toList "/a/; b".toList := by
    rw [whole, left]
    exact .keep _ (.keep _ (.keep _ (.drop (by decide) (.keep _ ends))))
  obtain ⟨-, one, many⟩ := scanning_drops_separators
  exact ⟨idle, thinned, one "/a/" "; b/" idle, many _ _ thinned⟩

end Scaffold.Token
