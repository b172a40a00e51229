import PiBuddyCam.PyText

/-! The names of `app/admin_tls.py`: from the stored host name to the names that a certificate is asked for, and from
the text that `openssl` prints back to the names of a certificate. -/
namespace PiBuddyCam.AdminTls

/-- The lower case of a character, as far as letters of ASCII come of it: beside those of ASCII only the Kelvin sign
and the dotted capital I have such letters in theirs. -/
def lowerChars (c : Char) : List Char :=
  if c = '\u212a' then ['k'] else if c = '\u0130' then ['i', '\u0307'] else [c.toLower]

def folded (value : String) : List Char := (PyText.strip value).toList.flatMap lowerChars

def isAlnum (c : Char) : Bool := ('a' ≤ c && c ≤ 'z') || ('0' ≤ c && c ≤ '9')

def isLabelChar (c : Char) : Bool := isAlnum c || c = '-'

/-- `_LABEL_RE.sub('-', text)`: a run of other characters becomes one hyphen. `skip` says that the run's hyphen is
already written. -/
def hyphenate (skip : Bool) : List Char → List Char
  | [] => []
  | c :: cs =>
    if isLabelChar c then c :: hyphenate false cs
    else if skip then hyphenate true cs else '-' :: hyphenate true cs

def stripHyphens (cs : List Char) : List Char :=
  ((cs.dropWhile (· = '-')).reverse.dropWhile (· = '-')).reverse

def sanitizeLabel (value : String) : String :=
  String.ofList ((stripHyphens (hyphenate false (folded value))).take 63)

def insertNew (values : List String) (value : String) : List String :=
  if value ∈ values then values else values ++ [value]

def addLabel (names : List String) (raw : String) : List String :=
  if sanitizeLabel raw = "" then names else insertNew names (sanitizeLabel raw)

def distinctLabels (raws : List String) : List String := raws.foldl addLabel []

/-- `hostname_candidates`, with what it reads: the stored and the derived host name, each empty where reading raises. -/
def hostnameCandidates (configured derived : String) : List String := distinctLabels [configured, derived]

def dnsNames (candidates : List String) : List String :=
  insertNew ((candidates.flatMap fun name => [name, name ++ ".local"]).foldl insertNew []) "localhost"

def sanEntries (candidates : List String) : List String :=
  (dnsNames candidates).map ("DNS:" ++ ·) ++ ["IP:127.0.0.1"]

def commonName : List String → String
  | [] => "localhost"
  | name :: _ => name ++ ".local"

def isSanChar (c : Char) : Bool := c.isAlphanum || c = '.' || c = '_' || c = '-'

/-- `_SAN_DNS_RE.findall(text)`; `skip` counts the characters left of the last match. -/
def findDns : ℕ → List Char → List String
  | _, [] => []
  | skip+1, _ :: cs => findDns skip cs
  | 0, c :: cs =>
    let word := ((c :: cs).drop 4).takeWhile isSanChar
    if "DNS:".toList.isPrefixOf (c :: cs) && word ≠ [] then String.ofList word :: findDns (3 + word.length) cs
    else findDns 0 cs

/-- What `openssl x509 -noout -ext subjectAltName` prints for a certificate with these names and the loopback
address. -/
def sanText (names : List String) : List Char :=
  "X509v3 Subject Alternative Name: \n    ".toList ++
    (names.flatMap (fun name => "DNS:".toList ++ name.toList ++ ", ".toList) ++ "IP Address:127.0.0.1\n".toList)

def hostLabel : List Char → Bool
  | [] => false
  | c :: cs =>
    isAlnum c && (cs = [] || (cs.length ≤ 62 && cs.dropLast.all isLabelChar && cs.getLast?.any isAlnum))

/-- `network_settings.validate_hostname`; `none` is a value that is no text. -/
def validateHostname : Option String → Except String String
  | none => .error "hostname must be a string"
  | some value =>
    if hostLabel (PyText.beforeDollar (folded value)) then .ok (String.ofList (folded value))
    else .error "hostname must be 1-63 letters, digits or hyphens, and must not start or end with a hyphen"

section Found

variable {names : List String}

theorem mem_insertNew {values : List String} {value x : String} :
    x ∈ insertNew values value ↔ x ∈ values ∨ x = value := by
  unfold insertNew
  split_ifs with h
  · constructor
    · exact Or.inl
    · rintro (hx | rfl)
      · exact hx
      · exact h
  · rw [List.mem_append, List.mem_singleton]

theorem mem_foldl_insertNew {xs values : List String} {x : String} :
    x ∈ xs.foldl insertNew values ↔ x ∈ values ∨ x ∈ xs := by
  induction xs generalizing values with
  | nil => simp
  | cons y xs ih => rw [List.foldl_cons, ih, mem_insertNew, List.mem_cons, or_assoc]

theorem mem_dnsNames {candidates : List String} {x : String} :
    x ∈ dnsNames candidates ↔ (∃ name ∈ candidates, x = name ∨ x = name ++ ".local") ∨ x = "localhost" := by
  rw [dnsNames, mem_insertNew, mem_foldl_insertNew]
  simp

theorem commonName_mem_dnsNames (candidates : List String) : commonName candidates ∈ dnsNames candidates := by
  rw [mem_dnsNames]
  cases candidates with
  | nil => exact Or.inr rfl
  | cons name candidates => exact Or.inl ⟨name, List.mem_cons_self, Or.inr rfl⟩

theorem findDns_skip (k : ℕ) (cs : List Char) : findDns k cs = findDns 0 (cs.drop k) := by
  induction cs generalizing k with
  | nil => rw [List.drop_nil]; cases k <;> rfl
  | cons c cs ih =>
    cases k with
    | zero => rfl
    | succ k => rw [findDns, List.drop_succ_cons, ih]

theorem findDns_append {cs : List Char} (h : 'D' ∉ cs) (rest : List Char) :
    findDns 0 (cs ++ rest) = findDns 0 rest := by
  induction cs with
  | nil => rfl
  | cons c cs ih =>
    obtain ⟨hc, hcs⟩ : 'D' ≠ c ∧ 'D' ∉ cs := by simpa using h
    have hpre : ("DNS:".toList.isPrefixOf (c :: (cs ++ rest))) = false := by
      have hlist : "DNS:".toList = 'D' :: "NS:".toList := by decide
      rw [hlist, List.isPrefixOf_cons_cons, beq_eq_false_iff_ne.mpr hc, Bool.false_and]
    rw [List.cons_append, findDns, hpre, Bool.false_and]
    exact ih hcs

def Findable (name : String) : Prop := name.toList ≠ [] ∧ ∀ c ∈ name.toList, isSanChar c = true

theorem findDns_entry {name : String} (hname : Findable name) {rest : List Char}
    (hrest : ∀ c, rest.head? = some c → isSanChar c = false) :
    findDns 0 ("DNS:".toList ++ name.toList ++ rest) = name :: findDns 0 rest := by
  have hword : (name.toList ++ rest).takeWhile isSanChar = name.toList := by
    rw [List.takeWhile_append_of_pos hname.2]
    cases rest with
    | nil => rw [List.takeWhile_nil, List.append_nil]
    | cons c rest =>
      rw [List.takeWhile_cons, hrest c rfl]
      exact List.append_nil _
  have hlist : "DNS:".toList ++ name.toList ++ rest = 'D' :: ("NS:".toList ++ (name.toList ++ rest)) := by
    rw [List.append_assoc]
    rfl
  have hdrop : ('D' :: ("NS:".toList ++ (name.toList ++ rest))).drop 4 = name.toList ++ rest := rfl
  have hpre : "DNS:".toList.isPrefixOf ('D' :: ("NS:".toList ++ (name.toList ++ rest))) = true := by
    rw [List.isPrefixOf_iff_prefix]
    exact ⟨name.toList ++ rest, rfl⟩
  have hskip : ("NS:".toList ++ (name.toList ++ rest)).drop (3 + name.toList.length) = rest := by
    rw [← List.drop_drop]
    exact List.drop_left
  rw [hlist, findDns, hdrop, hword, hpre, Bool.true_and, if_pos (decide_eq_true hname.1), findDns_skip, hskip,
    String.ofList_toList]

theorem findDns_entries (hnames : ∀ name ∈ names, Findable name) {sep tail : List Char} (hsep : 'D' ∉ sep)
    (hhead : ∀ rest c, (sep ++ rest).head? = some c → isSanChar c = false) (htail : findDns 0 tail = []) :
    findDns 0 (names.flatMap (fun name => "DNS:".toList ++ name.toList ++ sep) ++ tail) = names := by
  induction names with
  | nil => exact htail
  | cons name names ih =>
    obtain ⟨hname, hnames⟩ := List.forall_mem_cons.mp hnames
    obtain ⟨rest, hrest⟩ :
        ∃ rest, rest = names.flatMap (fun name => "DNS:".toList ++ name.toList ++ sep) ++ tail := ⟨_, rfl⟩
    have hlist : (name :: names).flatMap (fun name => "DNS:".toList ++ name.toList ++ sep) ++ tail =
        "DNS:".toList ++ name.toList ++ (sep ++ rest) := by
      rw [hrest, List.flatMap_cons]
      simp only [List.append_assoc]
    rw [hlist, findDns_entry hname (hhead rest), findDns_append hsep, hrest, ih hnames]

theorem findDns_sanText (hnames : ∀ name ∈ names, Findable name) : findDns 0 (sanText names) = names := by
  have hheader : 'D' ∉ "X509v3 Subject Alternative Name: \n    ".toList := by decide
  have hsep : 'D' ∉ ", ".toList := by decide
  have haddress : findDns 0 "IP Address:127.0.0.1\n".toList = [] := by decide
  have hcomma (rest : List Char) (c : Char) (hc : (", ".toList ++ rest).head? = some c) : isSanChar c = false := by
    have hlist : ", ".toList = [',', ' '] := by decide
    rw [hlist, List.cons_append, List.head?_cons] at hc
    rw [← Option.some.inj hc]
    decide
  exact (findDns_append hheader _).trans (findDns_entries hnames hsep hcomma haddress)

end Found

section Labels

theorem isSanChar_of_isLabelChar {c : Char} (h : isLabelChar c = true) : isSanChar c = true := by
  simp only [isLabelChar, isAlnum, Bool.or_eq_true, Bool.and_eq_true, decide_eq_true_eq] at h
  delta isSanChar Char.isAlphanum Char.isAlpha Char.isLower Char.isDigit
  simp only [Bool.or_eq_true, Bool.and_eq_true, decide_eq_true_eq]
  rcases h with (hletter | hdigit) | hhyphen
  · exact Or.inl (Or.inl (Or.inl (Or.inl (Or.inr hletter))))
  · exact Or.inl (Or.inl (Or.inl (Or.inr hdigit)))
  · exact Or.inr hhyphen

theorem mem_hyphenate {cs : List Char} {skip : Bool} {c : Char} (h : c ∈ hyphenate skip cs) : isLabelChar c = true := by
  induction cs generalizing skip with
  | nil => cases h
  | cons d cs ih =>
    rw [hyphenate] at h
    split_ifs at h with hd hskip
    · rcases List.mem_cons.mp h with rfl | h
      · exact hd
      · exact ih h
    · exact ih h
    · rcases List.mem_cons.mp h with rfl | h
      · decide
      · exact ih h

theorem mem_stripHyphens {cs : List Char} {c : Char} (h : c ∈ stripHyphens cs) : c ∈ cs := by
  have hback := (List.dropWhile_suffix _).subset (List.mem_reverse.mp h)
  exact (List.dropWhile_suffix _).subset (List.mem_reverse.mp hback)

theorem findable_sanitizeLabel {raw : String} (h : sanitizeLabel raw ≠ "") : Findable (sanitizeLabel raw) := by
  refine ⟨fun hnil => h (String.toList_eq_nil_iff.mp hnil), fun c hc => ?_⟩
  rw [sanitizeLabel, String.toList_ofList] at hc
  exact isSanChar_of_isLabelChar (mem_hyphenate (mem_stripHyphens (List.mem_of_mem_take hc)))

theorem Findable.local {name : String} (h : Findable name) : Findable (name ++ ".local") := by
  have hsuffix : ∀ c ∈ ".local".toList, isSanChar c = true := List.all_eq_true.mp (by decide)
  rw [Findable, String.toList_append]
  refine ⟨fun hnil => h.1 (List.append_eq_nil_iff.mp hnil).1, fun c hc => ?_⟩
  rcases List.mem_append.mp hc with hc | hc
  · exact h.2 c hc
  · exact hsuffix c hc

theorem findable_addLabel {names : List String} (hnames : ∀ n ∈ names, Findable n) (raw : String) :
    ∀ n ∈ addLabel names raw, Findable n := by
  intro n hn
  unfold addLabel at hn
  split_ifs at hn with hempty
  · exact hnames n hn
  · rcases mem_insertNew.mp hn with hn | rfl
    · exact hnames n hn
    · exact findable_sanitizeLabel hempty

theorem findable_distinctLabels (raws : List String) : ∀ name ∈ distinctLabels raws, Findable name := by
  -- what the loop has gathered so far
  have hloop (xs names : List String) (hnames : ∀ n ∈ names, Findable n) :
      ∀ n ∈ xs.foldl addLabel names, Findable n := by
    induction xs generalizing names with
    | nil => exact hnames
    | cons raw xs ih =>
      rw [List.foldl_cons]
      exact ih _ (findable_addLabel hnames raw)
  exact hloop raws [] fun n hn => nomatch hn

theorem findable_dnsNames (raws : List String) : ∀ name ∈ dnsNames (distinctLabels raws), Findable name := by
  intro name hname
  rcases mem_dnsNames.mp hname with ⟨label, hlabel, rfl | rfl⟩ | rfl
  · exact findable_distinctLabels raws _ hlabel
  · exact (findable_distinctLabels raws label hlabel).local
  · exact ⟨by decide, List.all_eq_true.mp (by decide)⟩

end Labels

end PiBuddyCam.AdminTls
