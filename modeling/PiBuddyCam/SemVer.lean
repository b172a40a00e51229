import PiBuddyCam.PyText

/-! The version texts of `app/updater.py`. -/
namespace PiBuddyCam.Updater

def maxVersionLength : ℕ := 64

def isDigit (c : Char) : Bool := '0' ≤ c && c ≤ '9'

def digitsValue (ds : List Char) : ℕ := ds.foldl (fun n c => n*10 + (c.toNat - '0'.toNat)) 0

def readNumeral (cs : List Char) : Option (ℕ × List Char) :=
  let ds := cs.takeWhile isDigit
  if ds = [] ∨ (ds.head? = some '0' ∧ ds ≠ ['0']) then none
  else some (digitsValue ds, cs.dropWhile isDigit)

def readDot : List Char → Option (List Char)
  | '.' :: cs => some cs
  | _ => none

def matchSemver (cs : List Char) : Option (ℕ × ℕ × ℕ) := do
  let (major, cs) ← readNumeral cs
  let cs ← readDot cs
  let (minor, cs) ← readNumeral cs
  let cs ← readDot cs
  let (patch, cs) ← readNumeral cs
  if cs = [] then some (major, minor, patch) else none

def parseSemver (text : String) : Option (ℕ × ℕ × ℕ) :=
  if text = "" ∨ maxVersionLength < text.toList.length then none
  else matchSemver (PyText.beforeDollar text.toList)

def isSemver (text : String) : Bool := (parseSemver text).isSome

def semverLt (a b : ℕ × ℕ × ℕ) : Bool :=
  a.1 < b.1 || (a.1 == b.1 && (a.2.1 < b.2.1 || (a.2.1 == b.2.1 && a.2.2 < b.2.2)))

def isNewer (candidate current : String) : Bool :=
  match parseSemver candidate, parseSemver current with
  | some a, some b => semverLt b a
  | _, _ => false

def newestVersion (versions : List String) : String :=
  versions.foldl (fun best version => if best = "" || isNewer version best then version else best) ""

theorem head?_of_readNumeral (cs : List Char) (h : (readNumeral cs).isSome) :
    ∃ c, cs.head? = some c ∧ isDigit c = true := by
  cases cs with
  | nil => simp [readNumeral] at h
  | cons c cs =>
    refine ⟨c, rfl, ?_⟩
    by_contra hc
    simp [readNumeral, hc] at h

/-- A version starts with a digit, which sets it apart from every other name in the
releases directory. -/
theorem head?_of_isSemver (text : String) (h : isSemver text = true) :
    ∃ c, text.toList.head? = some c ∧ isDigit c = true := by
  rw [isSemver, parseSemver] at h
  split_ifs at h with hlen
  · exact absurd h Bool.false_ne_true
  · have hnum : (readNumeral (PyText.beforeDollar text.toList)).isSome := by
      rw [matchSemver] at h
      cases hr : readNumeral (PyText.beforeDollar text.toList) with
      | none => simp [hr] at h
      | some r => rfl
    obtain ⟨c, hc, hdigit⟩ := head?_of_readNumeral _ hnum
    exact ⟨c, PyText.head?_beforeDollar _ c hc, hdigit⟩

theorem readNumeral_split {cs rest : List Char} {n : ℕ} (h : readNumeral cs = some (n, rest)) :
    ∃ ds, cs = ds ++ rest ∧ ∀ c ∈ ds, isDigit c = true := by
  unfold readNumeral at h
  dsimp only at h
  split_ifs at h
  refine ⟨cs.takeWhile isDigit, ?_, List.all_eq_true.mp List.all_takeWhile⟩
  rw [← (Prod.mk.inj (Option.some.inj h)).2, List.takeWhile_append_dropWhile]

theorem readDot_eq {cs rest : List Char} (h : readDot cs = some rest) : cs = '.' :: rest := by
  unfold readDot at h
  split at h
  · rw [Option.some.inj h]
  · exact nomatch h

theorem mem_matchSemver {cs : List Char} {v : ℕ × ℕ × ℕ} (h : matchSemver cs = some v) :
    ∀ c ∈ cs, isDigit c = true ∨ c = '.' := by
  unfold matchSemver at h
  obtain ⟨⟨major, cs1⟩, h1, h⟩ := Option.bind_eq_some_iff.mp h
  obtain ⟨cs2, h2, h⟩ := Option.bind_eq_some_iff.mp h
  obtain ⟨⟨minor, cs3⟩, h3, h⟩ := Option.bind_eq_some_iff.mp h
  obtain ⟨cs4, h4, h⟩ := Option.bind_eq_some_iff.mp h
  obtain ⟨⟨patch, cs5⟩, h5, h⟩ := Option.bind_eq_some_iff.mp h
  obtain rfl : cs5 = [] := by
    dsimp only at h
    split_ifs at h with hend
    exact hend
  obtain ⟨a, rfl, ha⟩ := readNumeral_split h1
  obtain rfl := readDot_eq h2
  obtain ⟨b, rfl, hb⟩ := readNumeral_split h3
  obtain rfl := readDot_eq h4
  obtain ⟨d, rfl, hd⟩ := readNumeral_split h5
  intro c hc
  simp only [List.mem_append, List.mem_cons, List.not_mem_nil, or_false] at hc
  rcases hc with hc | hc | hc | hc | hc
  · exact Or.inl (ha c hc)
  · exact Or.inr hc
  · exact Or.inl (hb c hc)
  · exact Or.inr hc
  · exact Or.inl (hd c hc)

theorem newestVersion_mem (versions : List String) :
    newestVersion versions = "" ∨ newestVersion versions ∈ versions := by
  have hfold (best : String) (vs : List String) :
      vs.foldl (fun best version => if best = "" || isNewer version best then version else best) best = best ∨
        vs.foldl (fun best version => if best = "" || isNewer version best then version else best) best ∈ vs := by
    induction vs generalizing best with
    | nil => exact Or.inl rfl
    | cons v vs ih =>
      rw [List.foldl_cons]
      rcases ih (if best = "" || isNewer v best then v else best) with h | h
      · rw [h]
        split_ifs
        · exact Or.inr List.mem_cons_self
        · exact Or.inl rfl
      · exact Or.inr (List.mem_cons_of_mem v h)
  exact hfold "" versions

theorem newestVersion_eq_empty {versions : List String} (hne : ∀ v ∈ versions, v ≠ "")
    (h : newestVersion versions = "") : versions = [] := by
  have hfold (best : String) (hbest : best ≠ "") (vs : List String) (hvs : ∀ v ∈ vs, v ≠ "") :
      vs.foldl (fun best version => if best = "" || isNewer version best then version else best) best ≠ "" := by
    induction vs generalizing best with
    | nil => exact hbest
    | cons v vs ih =>
      obtain ⟨hv, hvs⟩ := List.forall_mem_cons.mp hvs
      rw [List.foldl_cons]
      apply ih _ _ hvs
      split_ifs
      · exact hv
      · exact hbest
  cases versions with
  | nil => rfl
  | cons v vs =>
    obtain ⟨hv, hvs⟩ := List.forall_mem_cons.mp hne
    exact absurd h (hfold v hv vs hvs)

end PiBuddyCam.Updater
