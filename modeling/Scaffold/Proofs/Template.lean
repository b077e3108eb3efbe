import Scaffold.Proofs.Path.Pieces
import Scaffold.Proofs.Text.Search
import Scaffold.Proofs.Text.Trim
import Scaffold.Template

namespace Scaffold

theorem Path.name?_of_segments {above : List String} {name : String}
    (proper : ∀ segment ∈ above ++ [name], segment ≠ "" ∧ '/' ∉ segment.toList)
    (stays : name ≠ ".") (onward : name ≠ "..") :
    (Path.parse ("/".intercalate (above ++ [name]))).name? = some name := by
  have segments : (Path.parse ("/".intercalate (above ++ [name]))).segments =
      above.filter (· ≠ ".") ++ [name] := by
    rw [Path.parse, pieces_intercalate proper, List.filter_append]
    simp [stays]
  rw [Path.name?, segments, List.getLast?_append]
  simp [onward]

namespace Templates

variable {name extension key text : String} {pairs : List (String × String)}

/-- The part of a name from its last dot on, where something comes before that dot. -/
def HasExtension (name extension : String) : Prop :=
  ∃ stem ending, stem ≠ "" ∧ '.' ∉ ending.toList ∧ name = stem ++ extension ∧
    extension = "." ++ ending

theorem plain_of_no_dot {ending : List Char} (noDot : '.' ∉ ending) :
    ∀ c ∈ ending.reverse, decide (c ≠ '.') = true := by
  intro c member
  have apart : c ≠ '.' := fun dot => noDot (dot ▸ List.mem_reverse.mp member)
  simpa using apart

theorem extension?_of_no_dot (noDot : '.' ∉ name.toList) : extension? name = none := by
  have nothing : name.toList.reverse.dropWhile (· ≠ '.') = [] :=
    List.dropWhile_eq_nil_iff.mpr (plain_of_no_dot noDot)
  rw [extension?, nothing]

theorem extension?_of_last_dot {stem ending : String} (noDot : '.' ∉ ending.toList) :
    extension? (stem ++ ("." ++ ending)) = if stem = "" then none else some ("." ++ ending) := by
  have whole : (stem ++ ("." ++ ending)).toList.reverse =
      ending.toList.reverse ++ '.' :: stem.toList.reverse := by simp
  have plain := plain_of_no_dot noDot
  rw [extension?, whole, List.takeWhile_append_of_pos plain, List.dropWhile_append_of_pos plain]
  by_cases first : stem = ""
  · simp [first]
  · have some : stem.toList.reverse ≠ [] := by simpa using first
    obtain ⟨last, rest, split⟩ := List.exists_cons_of_ne_nil some
    have written : String.ofList ('.' :: ending.toList) = "." ++ ending := by
      apply String.toList_inj.mp
      simp
    simp [first, split, written]

theorem extension?_eq_some_iff :
    extension? name = some extension ↔ HasExtension name extension := by
  constructor
  · intro found
    by_cases dotted : '.' ∈ name.toList
    · obtain ⟨after, before, split, noDot⟩ :=
        List.eq_append_cons_of_mem (List.mem_reverse.mpr dotted)
      have whole : name = String.ofList before.reverse ++ ("." ++ String.ofList after.reverse) := by
        apply String.toList_inj.mp
        simpa using congrArg List.reverse split
      have plain : '.' ∉ (String.ofList after.reverse).toList := by simpa using noDot
      rw [whole, extension?_of_last_dot plain] at found
      split at found
      next => cases found
      next filled => exact ⟨_, _, filled, plain, (Option.some.inj found) ▸ whole,
          (Option.some.inj found).symm⟩
    · rw [extension?_of_no_dot dotted] at found
      cases found
  · rintro ⟨stem, ending, filled, noDot, rfl, rfl⟩
    rw [extension?_of_last_dot noDot, if_neg filled]

/-- The extension that a template's key means: blanks around it do not count, and the dot may have
been left out. -/
def IsKeyFor (extension key : String) : Prop :=
  ∃ bare, Text.TrimsTo key bare ∧
    extension = if bare.toList.head? = some '.' then bare else "." ++ bare

theorem dotted_eq_iff : dotted key = extension ↔ IsKeyFor extension key := by
  constructor
  · intro same
    exact ⟨Text.trim key, Text.trim_eq_iff.mp rfl, same.symm⟩
  · rintro ⟨bare, trims, same⟩
    rw [dotted, Text.trim_eq_iff.mpr trims, same]

/-- Of the templates whose keys mean the extension, the last one has this text. -/
def IsLastFor (extension text : String) (pairs : List (String × String)) : Prop :=
  ∃ before key after, pairs = before ++ (key, text) :: after ∧ IsKeyFor extension key ∧
    ∀ pair ∈ after, ¬ IsKeyFor extension pair.1

theorem texts_ofList (pairs : List (String × String)) :
    (ofList pairs).texts = Dict.ofList (pairs.map fun pair => (dotted pair.1, pair.2)) := rfl

theorem get?_texts_eq_some_iff :
    (ofList pairs).texts.get? extension = some text ↔ IsLastFor extension text pairs := by
  rw [texts_ofList, Dict.get?_ofList_eq_some_iff]
  constructor
  · rintro ⟨before, after, split, apart⟩
    obtain ⟨first, rest, rfl, -, onward⟩ := List.map_eq_append_iff.mp split
    obtain ⟨⟨key, other⟩, last, rfl, same, rfl⟩ := List.map_eq_cons_iff.mp onward
    obtain ⟨named, rfl⟩ := Prod.mk.inj same
    refine ⟨first, key, last, rfl, dotted_eq_iff.mp named, ?_⟩
    intro pair member meant
    have differs := apart _ (List.mem_map_of_mem member)
    simp only [dotted_eq_iff.mpr meant, ne_eq, not_true_eq_false] at differs
  · rintro ⟨before, key, after, rfl, meant, apart⟩
    refine ⟨before.map fun pair => (dotted pair.1, pair.2),
      after.map fun pair => (dotted pair.1, pair.2), ?_, ?_⟩
    · have same : dotted key = extension := dotted_eq_iff.mpr meant
      rw [List.map_append, List.map_cons, same]
    · intro entry member same
      obtain ⟨pair, present, rfl⟩ := List.mem_map.mp member
      exact apart pair present (dotted_eq_iff.mp (by simpa only using same))

theorem content_of_template {templates : Templates} {path : String}
    (named : (Path.parse path).name? = some name) (ext : HasExtension name extension)
    (found : templates.texts.get? extension = some text) (filled : text ≠ "") :
    templates.content path =
      String.ofList (Text.replaceAll nameMark name.toList text.toList) := by
  have chosen : templates.find? extension = some text := by
    rw [find?, found]
    simp [filled]
  unfold content
  dsimp only
  rw [named, Option.getD_some, extension?_eq_some_iff.mpr ext, Option.bind_some, chosen]

theorem content_of_none {templates : Templates} {path : String}
    (named : (Path.parse path).name? = some name)
    (empty : ∀ extension text, HasExtension name extension →
      templates.texts.get? extension = some text → text = "") :
    templates.content path = builtIn path name (extension? name) := by
  have none : (extension? name).bind templates.find? = none := by
    rw [Option.eq_none_iff_forall_ne_some]
    intro text found
    obtain ⟨extension, ext, chosen⟩ := Option.bind_eq_some_iff.mp found
    obtain ⟨there, filled⟩ := Option.filter_eq_some_iff.mp chosen
    simp [empty extension text (extension?_eq_some_iff.mp ext) there] at filled
  unfold content
  dsimp only
  rw [named, Option.getD_some, none]

section BuiltIn

variable {path stem : String} (filled : stem ≠ "")
include filled

theorem hasExtension_html : HasExtension (stem ++ ".html") ".html" :=
  ⟨stem, "html", filled, by decide, rfl, by decide⟩

theorem hasExtension_js : HasExtension (stem ++ ".js") ".js" :=
  ⟨stem, "js", filled, by decide, rfl, by decide⟩

theorem builtIn_page :
    builtIn path (stem ++ ".html") (extension? (stem ++ ".html")) = page stem := by
  have split : (stem ++ ".html").toList.reverse =
      ".html".toList.reverse ++ stem.toList.reverse := by simp
  have title : Text.withoutEnding? ".html".toList (stem ++ ".html").toList = some stem.toList := by
    rw [Text.withoutEnding?, Text.after?_eq_some_iff.mpr split, Option.map_some,
      List.reverse_reverse]
  rw [extension?_eq_some_iff.mpr (hasExtension_html filled), builtIn, title, Option.map_some,
    Option.getD_some, String.ofList_toList]

theorem builtIn_script :
    builtIn path (stem ++ ".js") (extension? (stem ++ ".js")) = script path (stem ++ ".js") := by
  rw [extension?_eq_some_iff.mpr (hasExtension_js filled)]
  rfl

end BuiltIn

theorem builtIn_else {path : String}
    (others : ∀ stem, stem ≠ "" → name ≠ stem ++ ".html" ∧ name ≠ stem ++ ".js") :
    builtIn path name (extension? name) = "" := by
  cases found : extension? name with
  | none => rfl
  | some extension =>
    obtain ⟨stem, ending, filled, -, whole, -⟩ := extension?_eq_some_iff.mp found
    obtain ⟨notPage, notScript⟩ := others stem filled
    unfold builtIn
    split
    next same => exact absurd (Option.some.inj same ▸ whole) notPage
    next same => exact absurd (Option.some.inj same ▸ whole) notScript
    next => rfl

/-- The stretches of a text before, between and behind the occurrences of a mark. -/
def IsCutAt (mark : List Char) (gaps : List (List Char)) (text : String) : Prop :=
  (∀ gap ∈ gaps, ¬ mark <:+: gap) ∧ text.toList = mark.intercalate gaps

theorem dotted_dot {bare : String} (trimmed : Text.Trimmed bare)
    (plain : bare.toList.head? ≠ some '.') : dotted ("." ++ bare) = dotted bare := by
  have ends : Text.Trimmed ("." ++ bare) := by
    refine ⟨by simp; decide, ?_⟩
    rw [String.toList_append, List.getLast?_append]
    intro c last
    rcases Option.or_eq_some_iff.mp last with own | ⟨-, dot⟩
    · exact trimmed.2 c own
    · have same : c = '.' := by simpa [eq_comm] using dot
      rw [same]
      decide
  have own : IsKeyFor ("." ++ bare) bare := ⟨bare, trimmed.trimsTo, by rw [if_neg plain]⟩
  have long : IsKeyFor ("." ++ bare) ("." ++ bare) := ⟨"." ++ bare, ends.trimsTo, by simp⟩
  rw [dotted_eq_iff.mpr own, dotted_eq_iff.mpr long]

/-- A new file gets the last of the templates whose keys mean its extension, with each occurrence of
the mark replaced by the file's name; what the name holds is not searched. Where there is none, or
it is empty, a page gets a skeleton with its title, a script a line with its path, and any other
file nothing. -/
theorem content_by_extension (pairs : List (String × String)) {above : List String} {name : String}
    (proper : ∀ segment ∈ above ++ [name], segment ≠ "" ∧ '/' ∉ segment.toList)
    (stays : name ≠ ".") (onward : name ≠ "..") :
    let path := "/".intercalate (above ++ [name])
    let content := (ofList pairs).content path
    (∀ extension text, HasExtension name extension → IsLastFor extension text pairs → text ≠ "" →
      (∃ gaps, IsCutAt "$\x7bname\x7d".toList gaps text) ∧
        ∀ gaps, IsCutAt "$\x7bname\x7d".toList gaps text →
          content.toList = name.toList.intercalate gaps) ∧
    ((∀ extension text, HasExtension name extension → IsLastFor extension text pairs →
        text = "") →
      (∀ stem, stem ≠ "" → name = stem ++ ".html" → content =
        "<!doctype html>\n<html>\n<head>\n<meta charset=\"utf-8\">\n<title>" ++ stem ++
          "</title>\n</head>\n<body>\n\n</body>\n</html>\n") ∧
      (∀ stem, stem ≠ "" → name = stem ++ ".js" → content =
        "// " ++ path ++ "\nconsole.log('Loaded " ++ name ++ "');\n") ∧
      ((∀ stem, stem ≠ "" → name ≠ stem ++ ".html" ∧ name ≠ stem ++ ".js") → content = "")) ∧
    ((∀ extension, ¬ HasExtension name extension) → content = "") ∧
    ∀ before bare text after, Text.Trimmed bare → bare.toList.head? ≠ some '.' →
      ofList (before ++ (bare, text) :: after) =
        ofList (before ++ ("." ++ bare, text) :: after) := by
  intro path content
  have named : (Path.parse path).name? = some name := Path.name?_of_segments proper stays onward
  have bare (empty : ∀ extension text, HasExtension name extension →
      IsLastFor extension text pairs → text = "") :
      content = builtIn path name (extension? name) :=
    content_of_none named fun extension text ext found =>
      empty extension text ext (get?_texts_eq_some_iff.mp found)
  refine ⟨?_, ?_, ?_, ?_⟩
  · intro extension text ext last filled
    have replaced := content_of_template named ext (get?_texts_eq_some_iff.mpr last) filled
    have mark : nameMark = "$\x7bname\x7d".toList := by decide
    have written : "$\x7bname\x7d".toList ≠ [] := by decide
    rw [mark] at replaced
    obtain ⟨gaps, -, clear, cut⟩ := Text.exists_gaps written text.toList
    refine ⟨⟨gaps, clear, cut⟩, ?_⟩
    intro others ⟨clearToo, split⟩
    rw [show content = _ from replaced, String.toList_ofList, split]
    exact Text.replaceAll_intercalate (by decide) clearToo
  · intro empty
    rw [bare empty]
    refine ⟨?_, ?_, builtIn_else⟩
    · rintro stem filled rfl
      exact builtIn_page filled
    · rintro stem filled rfl
      exact builtIn_script filled
  · intro plain
    rw [bare fun extension _ ext => absurd ext (plain extension)]
    cases found : extension? name with
    | none => rfl
    | some extension => exact absurd (extension?_eq_some_iff.mp found) (plain extension)
  · intro before bare text after trimmed plain
    have same : (ofList (before ++ (bare, text) :: after)).texts =
        (ofList (before ++ ("." ++ bare, text) :: after)).texts := by
      simp only [texts_ofList, List.map_append, List.map_cons, dotted_dot trimmed plain]
    exact congrArg Templates.mk same

theorem untemplated (unfound : (extension? name).bind (ofList pairs).texts.get? = none) :
    ∀ extension text, HasExtension name extension → IsLastFor extension text pairs →
      text = "" := by
  intro extension text ext last
  rw [extension?_eq_some_iff.mpr ext, Option.bind_some, get?_texts_eq_some_iff.mpr last] at unfound
  cases unfound

-- The later of two keys for one extension counts, though it has its dot and the other has not; the
-- page and the script have no template.
theorem content_by_extension_of_later_key :
    let pairs := [("md", "old"), (" .md ", "# $\x7bname\x7d, $\x7bname\x7d\n")]
    let content := (ofList pairs).content
    content "docs/$\x7bname\x7d.md" = "# $\x7bname\x7d.md, $\x7bname\x7d.md\n" ∧
      content "site/index.html" =
        "<!doctype html>\n<html>\n<head>\n<meta charset=\"utf-8\">\n<title>index</title>\n" ++
          "</head>\n<body>\n\n</body>\n</html>\n" ∧
      content "src/app.js" = "// src/app.js\nconsole.log('Loaded app.js');\n" := by
  intro pairs content
  refine ⟨?template, ?page, ?script⟩
  case template =>
    have ext : HasExtension "$\x7bname\x7d.md" ".md" :=
      ⟨"$\x7bname\x7d", "md", by decide, by decide, by decide, by decide⟩
    have last : IsLastFor ".md" "# $\x7bname\x7d, $\x7bname\x7d\n" pairs := by
      refine ⟨[("md", "old")], " .md ", [], rfl, ?_, by simp⟩
      exact ⟨".md", ⟨by decide, " ", " ", by decide, by decide, by decide⟩, by decide⟩
    have path : "/".intercalate (["docs"] ++ ["$\x7bname\x7d.md"]) = "docs/$\x7bname\x7d.md" := by
      decide +kernel
    have proper : ∀ segment ∈ ["docs"] ++ ["$\x7bname\x7d.md"],
        segment ≠ "" ∧ '/' ∉ segment.toList := by decide
    obtain ⟨filled, -⟩ := content_by_extension pairs proper (by decide) (by decide)
    rw [path] at filled
    obtain ⟨-, replaced⟩ := filled ".md" _ ext last (by decide)
    have cut : IsCutAt "$\x7bname\x7d".toList [['#', ' '], [',', ' '], ['\n']]
        "# $\x7bname\x7d, $\x7bname\x7d\n" := ⟨by decide, by decide⟩
    apply String.toList_inj.mp
    rw [show (content _).toList = _ from replaced _ cut]
    decide
  case page =>
    have proper : ∀ segment ∈ ["site"] ++ ["index.html"],
        segment ≠ "" ∧ '/' ∉ segment.toList := by decide
    have path : "/".intercalate (["site"] ++ ["index.html"]) = "site/index.html" := by
      decide +kernel
    obtain ⟨-, unfilled, -⟩ := content_by_extension pairs proper (by decide) (by decide)
    obtain ⟨titled, -⟩ := unfilled (untemplated (by decide))
    rw [path] at titled
    exact (titled "index" (by decide) (by decide)).trans (by decide +kernel)
  case script =>
    have proper : ∀ segment ∈ ["src"] ++ ["app.js"],
        segment ≠ "" ∧ '/' ∉ segment.toList := by decide
    have path : "/".intercalate (["src"] ++ ["app.js"]) = "src/app.js" := by decide +kernel
    obtain ⟨-, unfilled, -⟩ := content_by_extension pairs proper (by decide) (by decide)
    obtain ⟨-, lines, -⟩ := unfilled (untemplated (by decide))
    rw [path] at lines
    exact (lines "app" (by decide) (by decide)).trans (by decide +kernel)

end Templates
end Scaffold
