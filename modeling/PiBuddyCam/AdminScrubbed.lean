import PiBuddyCam.AdminRedact
import PiBuddyCam.PyReplace

/-! What `redact` hides: the values under sensitive keys, and every secret of its list. -/
namespace PiBuddyCam.Admin

mutual

/-- The same value, up to what is stored under sensitive keys. -/
inductive Alike : Json → Json → Prop
  | null : Alike .null .null
  | bool (b : Bool) : Alike (.bool b) (.bool b)
  | other : Alike .other .other
  | str (s : String) : Alike (.str s) (.str s)
  | list {items items' : List Json} : AlikeItems items items' → Alike (.list items) (.list items')
  | dict {entries entries' : List (String × Json)} : AlikeEntries entries entries' →
      Alike (.dict entries) (.dict entries')

inductive AlikeItems : List Json → List Json → Prop
  | nil : AlikeItems [] []
  | cons {item item' : Json} {items items' : List Json} : Alike item item' → AlikeItems items items' →
      AlikeItems (item :: items) (item' :: items')

inductive AlikeEntries : List (String × Json) → List (String × Json) → Prop
  | nil : AlikeEntries [] []
  | sensitive {key : String} (item item' : Json) {entries entries' : List (String × Json)} :
      isSensitiveKey key = true → AlikeEntries entries entries' →
      AlikeEntries ((key, item) :: entries) ((key, item') :: entries')
  | cons {key : String} {item item' : Json} {entries entries' : List (String × Json)} : Alike item item' →
      AlikeEntries entries entries' → AlikeEntries ((key, item) :: entries) ((key, item') :: entries')

end

mutual

def Json.strings : Json → List String
  | .str s => [s]
  | .list items => stringsOfItems items
  | .dict entries => stringsOfEntries entries
  | _ => []

def stringsOfItems : List Json → List String
  | [] => []
  | item :: items => item.strings ++ stringsOfItems items

def stringsOfEntries : List (String × Json) → List String
  | [] => []
  | (_, item) :: entries => item.strings ++ stringsOfEntries entries

end

section Independence

variable (secrets : List String)

mutual

theorem redactWith_alike {a b : Json} (h : Alike a b) : redactWith secrets a = redactWith secrets b := by
  cases h with
  | null => rfl
  | bool b => rfl
  | other => rfl
  | str s => rfl
  | list hitems => rw [redactWith, redactWith, redactItems_alike hitems]
  | dict hentries => rw [redactWith, redactWith, redactEntries_alike hentries]

theorem redactItems_alike {a b : List Json} (h : AlikeItems a b) : redactItems secrets a = redactItems secrets b := by
  cases h with
  | nil => rfl
  | cons hitem hitems => rw [redactItems, redactItems, redactWith_alike hitem, redactItems_alike hitems]

theorem redactEntries_alike {a b : List (String × Json)} (h : AlikeEntries a b) :
    redactEntries secrets a = redactEntries secrets b := by
  cases h with
  | nil => rfl
  | sensitive item item' hkey hentries =>
    rw [redactEntries, redactEntries, if_pos hkey, if_pos hkey, redactEntries_alike hentries]
  | cons hitem hentries => rw [redactEntries, redactEntries, redactWith_alike hitem, redactEntries_alike hentries]

end

end Independence

section Absence

/-- The text has no bracket of the mark and is no part of the word in it. -/
structure Unbracketed (secret : String) : Prop where
  left : '<' ∉ secret.toList
  right : '>' ∉ secret.toList
  word : PyText.contains secret "redacted" = false

variable {secret x : String}

theorem Unbracketed.ne (h : Unbracketed secret) : secret.toList ≠ [] := by
  intro hnil
  have hin : PyText.contains secret "redacted" = true := by
    rw [PyText.contains_iff, hnil]
    exact List.nil_infix
  exact Bool.false_ne_true (h.word.symm.trans hin)

theorem Unbracketed.notWord (h : Unbracketed x) : ¬ x.toList <:+: "redacted".toList := by
  rw [← PyText.contains_iff, h.word]
  exact Bool.false_ne_true

theorem redacted_toList : redacted.toList = '<' :: ("redacted".toList ++ ['>']) := by decide

theorem infix_of_replace (hsecret : Unbracketed secret) (hx : Unbracketed x) {value : String}
    (h : x.toList <:+: (PyText.replace value secret redacted).toList) :
    ∃ piece, piece <:+: value.toList ∧ ¬ secret.toList <:+: piece ∧ x.toList <:+: piece := by
  rw [PyText.replace, String.toList_ofList, redacted_toList] at h
  exact (PyText.infix_of_replaceFrom hsecret.ne hx.left hx.right h).resolve_left hx.notWord

theorem not_infix_scrubString (hx : Unbracketed x) {secrets : List String} (hsecrets : ∀ s ∈ secrets, Unbracketed s)
    {value : String} (h : ¬ x.toList <:+: value.toList) : ¬ x.toList <:+: (scrubString value secrets).toList := by
  induction secrets generalizing value with
  | nil => exact h
  | cons secret secrets ih =>
    obtain ⟨hsecret, hsecrets⟩ := List.forall_mem_cons.mp hsecrets
    refine ih hsecrets fun hin => ?_
    obtain ⟨piece, hpiece, -, hxpiece⟩ := infix_of_replace hsecret hx hin
    exact h (hxpiece.trans hpiece)

/-- After the scrubbing none of the secrets occurs: each is gone after its own replacement, and no later one brings
it back. -/
theorem not_infix_scrubString_of_mem {secrets : List String} (hsecrets : ∀ s ∈ secrets, Unbracketed s) (value : String)
    (hmem : secret ∈ secrets) : ¬ secret.toList <:+: (scrubString value secrets).toList := by
  induction secrets generalizing value with
  | nil => cases hmem
  | cons first secrets ih =>
    obtain ⟨hfirst, hrest⟩ := List.forall_mem_cons.mp hsecrets
    rcases List.mem_cons.mp hmem with rfl | hmem
    · refine not_infix_scrubString hfirst hrest fun hin => ?_
      obtain ⟨piece, -, hpiece, hsecret⟩ := infix_of_replace hfirst hfirst hin
      exact hpiece hsecret
    · exact ih hrest _ hmem

theorem not_infix_redacted (h : Unbracketed secret) : ¬ secret.toList <:+: redacted.toList := by
  intro hin
  rw [redacted_toList] at hin
  have hnil : ¬ secret.toList <:+: [] := fun hnil => h.ne (List.infix_nil.mp hnil)
  have hinner := (PyText.infix_of_notMem (x := []) h.left hin).resolve_left hnil
  rcases PyText.infix_of_notMem h.right hinner with hword | hend
  · exact h.notWord hword
  · exact hnil hend

variable {secrets : List String}

mutual

theorem not_infix_redactWith (hsecrets : ∀ s ∈ secrets, Unbracketed s) (hmem : secret ∈ secrets) (value : Json) :
    ∀ text ∈ (redactWith secrets value).strings, ¬ secret.toList <:+: text.toList := by
  cases value with
  | str s =>
    intro text htext
    rw [redactWith, Json.strings, List.mem_singleton] at htext
    rw [htext]
    exact not_infix_scrubString_of_mem hsecrets s hmem
  | list items =>
    rw [redactWith, Json.strings]
    exact not_infix_redactItems hsecrets hmem items
  | dict entries =>
    rw [redactWith, Json.strings]
    exact not_infix_redactEntries hsecrets hmem entries
  | null => exact fun text htext => absurd htext List.not_mem_nil
  | bool b => exact fun text htext => absurd htext List.not_mem_nil
  | other => exact fun text htext => absurd htext List.not_mem_nil

theorem not_infix_redactItems (hsecrets : ∀ s ∈ secrets, Unbracketed s) (hmem : secret ∈ secrets) (items : List Json) :
    ∀ text ∈ stringsOfItems (redactItems secrets items), ¬ secret.toList <:+: text.toList := by
  cases items with
  | nil => exact fun text htext => absurd htext List.not_mem_nil
  | cons item items =>
    intro text htext
    rw [redactItems, stringsOfItems] at htext
    rcases List.mem_append.mp htext with htext | htext
    · exact not_infix_redactWith hsecrets hmem item text htext
    · exact not_infix_redactItems hsecrets hmem items text htext

theorem not_infix_redactEntries (hsecrets : ∀ s ∈ secrets, Unbracketed s) (hmem : secret ∈ secrets)
    (entries : List (String × Json)) :
    ∀ text ∈ stringsOfEntries (redactEntries secrets entries), ¬ secret.toList <:+: text.toList := by
  cases entries with
  | nil => exact fun text htext => absurd htext List.not_mem_nil
  | cons entry entries =>
    obtain ⟨key, item⟩ := entry
    intro text htext
    rw [redactEntries, stringsOfEntries] at htext
    rcases List.mem_append.mp htext with htext | htext
    · split_ifs at htext
      · rw [Json.strings, List.mem_singleton] at htext
        rw [htext]
        exact not_infix_redacted (hsecrets secret hmem)
      · exact not_infix_redactWith hsecrets hmem item text htext
    · exact not_infix_redactEntries hsecrets hmem entries text htext

end

end Absence

/-- The output of `redact` does not depend on what is stored under sensitive keys; and if no secret has a bracket or
is part of the word `redacted`, no string value of the output contains a secret. -/
theorem redact_hides_values_and_secrets (secrets : List String) :
    (∀ a b, Alike a b → redact a secrets = redact b secrets) ∧
    ((∀ s ∈ secrets, Unbracketed s) → ∀ value, ∀ text ∈ (redact value secrets).strings, ∀ secret ∈ secrets,
      PyText.contains secret text = false) := by
  constructor
  · intro a b h
    exact redactWith_alike _ h
  · intro hsecrets value text htext secret hmem
    have hvalues : secret ∈ secretValues secrets := by
      refine List.mem_filter.mpr ⟨hmem, decide_eq_true fun hempty => ?_⟩
      exact (hsecrets secret hmem).ne (String.toList_eq_nil_iff.mpr hempty)
    have hall : ∀ s ∈ secretValues secrets, Unbracketed s := fun s hs => hsecrets s (List.mem_filter.mp hs).1
    rw [← Bool.not_eq_true, PyText.contains_iff]
    exact not_infix_redactWith hall hvalues value text htext

def tokenReport (token : String) : Json :=
  .dict [("camera_token", .str token), ("log", .list [.str "code abab", .str "baba"])]

/-- Two tokens, and secrets that overlap each other. -/
theorem tokenReport_hidden :
    redact (tokenReport "one") ["aba", "bab", "ba"] = redact (tokenReport "two") ["aba", "bab", "ba"] ∧
      ∀ text ∈ (redact (tokenReport "one") ["aba", "bab", "ba"]).strings, ∀ secret ∈ ["aba", "bab", "ba"],
        PyText.contains secret text = false := by
  have hkey : isSensitiveKey "camera_token" = true := by decide +kernel
  have hlog : AlikeItems [.str "code abab", .str "baba"] [.str "code abab", .str "baba"] :=
    .cons (.str _) (.cons (.str _) .nil)
  have halike : Alike (tokenReport "one") (tokenReport "two") :=
    .dict (.sensitive _ _ hkey (.cons (.list hlog) .nil))
  have hsecrets : ∀ s ∈ ["aba", "bab", "ba"], Unbracketed s := by
    simp only [List.forall_mem_cons, List.not_mem_nil, false_imp_iff, implies_true, and_true]
    refine ⟨⟨?_, ?_, ?_⟩, ⟨?_, ?_, ?_⟩, ⟨?_, ?_, ?_⟩⟩ <;> decide
  obtain ⟨hsame, hgone⟩ := redact_hides_values_and_secrets ["aba", "bab", "ba"]
  exact ⟨hsame _ _ halike, hgone hsecrets _⟩

end PiBuddyCam.Admin
