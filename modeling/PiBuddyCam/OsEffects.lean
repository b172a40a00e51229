import PiBuddyCam.OsCalls
import PiBuddyCam.VolumeRoutes

/-! What the calls of `OsCalls` can take away, and where: programs on a volume that keeps a
log of its calls. -/
namespace LinkTree

/-- The entries that a call takes away or moves, whether it succeeds or not. -/
def Act.removed {β : Type} : Act β → List Path
  | .remove p | .rmdir p => [p]
  | .replace p q => [p, q]
  | _ => []

/-- The call makes no directory and no link, and takes away entries of the zone only. -/
def Act.Clears {β : Type} (Z : Path → Prop) (o : Act β) : Prop := o.Flat ∧ ∀ p ∈ o.removed, Z p

theorem Route.rstrip_join {upper : Route} {name : String} (hname : Named name) :
    (upper.join [name]).rstrip = upper.join [name] := by
  have hlast : (upper.parts ++ [name]).rdropWhile (· = "") = upper.parts ++ [name] := by
    rw [List.rdropWhile_concat, if_neg]
    simpa using hname.1
  rw [rstrip, join, hlast]

namespace Os

abbrev Log := Traced (Act Content) Act.Res Fs

def journal : Machine (Act Content) Act.Res Log (Chance Content) := (volume Content).traced

/-- Every removal so far was in the zone, and the volume has the property. -/
structure Guarded (Z : Path → Prop) (J : Fs → Prop) (t : Log) : Prop where
  log : ∀ e ∈ t.log, ∀ p ∈ e.1.removed, Z p
  state : J t.state

section Rules

variable {Z : Path → Prop} {J J' : Fs → Prop} {A : Chance Content → Prop} {α : Type} {t : Log}

theorem Guarded.imp (h : Guarded Z J t) (hJ : ∀ u, J u → J' u) : Guarded Z J' t := ⟨h.log, hJ _ h.state⟩

theorem Guarded.any (t : Log) (h : Guarded Z J t) : Guarded Z (fun _ => True) t := ⟨h.log, trivial⟩

theorem Guarded.step (h : Guarded Z J t) {o : Act Content} (c : Chance Content) (hZ : ∀ p ∈ o.removed, Z p)
    (hJ : J (t.state.step o c).2) : Guarded Z J (journal.step t o c).2 := by
  refine ⟨?_, hJ⟩
  intro e he p hp
  rcases List.mem_append.mp he with he | he
  · exact h.log e he p hp
  · rw [List.mem_singleton.mp he] at hp
    exact hZ p hp

theorem safe_of_within {p : Run α} {P : Act Content → Prop} (hp : p.Within P) (hZ : ∀ o, P o → ∀ q ∈ o.removed, Z q)
    (hJ : ∀ u o c, P o → J u → J (u.step o c).2) (ht : Guarded Z J t) :
    p.Keeps journal A (Guarded Z J) t := by
  apply hp.safe ht
  intro u o c ho _ hu
  exact hu.step c (hZ o ho) (hJ u.state o c ho hu.state)

theorem safe_look_weaken {I : Log → Prop} {f : Fs → Run α} {Q : α → Log → Prop} (ht : Guarded Z J t)
    (hI : ∀ t', Guarded Z J t' → I t')
    (h : ∀ t', t'.state = t.state → Guarded Z J t' → (f t.state).Safe journal A I Q t') :
    (look >>= f).Safe journal A I Q t := by
  intro c _
  have hnext : Guarded Z J (journal.step t .look c).2 := ht.step c (fun _ hp => absurd hp List.not_mem_nil) ht.state
  exact ⟨hI _ hnext, h _ rfl hnext⟩

theorem safe_look {f : Fs → Run α} {Q : α → Log → Prop} (ht : Guarded Z J t)
    (h : ∀ t', t'.state = t.state → Guarded Z J t' → (f t.state).Safe journal A (Guarded Z J) Q t') :
    (look >>= f).Safe journal A (Guarded Z J) Q t := safe_look_weaken ht (fun _ h => h) h

theorem safe_onEntry {r : Route} {act : Path → Run (Except Fault Unit)} (ht : Guarded Z J t)
    (h : ∀ p t', t'.state = t.state → Guarded Z J t' → t.state.entry r = some p →
      (act p).Safe journal A (Guarded Z J) (fun _ => Guarded Z J) t') :
    (onEntry r act).Keeps journal A (Guarded Z J) t := by
  apply safe_look ht
  intro t' hstate ht'
  cases hentry : t.state.entry r with
  | none => exact ht'
  | some p => exact h p t' hstate ht' hentry

end Rules

section Adding

variable {α : Type} {P : Act Content → Prop}

theorem within_look (hP : P .look) {f : Fs → Run α} (h : ∀ v, (f v).Within P) : (look >>= f).Within P := ⟨hP, h⟩

theorem within_sys {o : Act Content} (ho : P o) : (sys o).Within P := ⟨ho, fun _ => trivial⟩

theorem within_onEntry (hP : P .look) {r : Route} {act : Path → Run (Except Fault Unit)} (h : ∀ p, (act p).Within P) :
    (onEntry r act).Within P := by
  apply within_look hP
  intro v
  cases v.entry r with
  | none => trivial
  | some p => exact h p

theorem adds_mkdir (r : Route) : (mkdir r).Within Act.Adds := within_onEntry trivial fun _ => within_sys trivial

theorem within_write (hlook : P .look) (hwrite : ∀ p content, P (.write p content)) (r : Route) (bytes : List UInt8) :
    (write r bytes).Within P := by
  apply within_look hlook
  intro v
  cases v.locate true r with
  | none => trivial
  | some p => exact within_sys (hwrite p _)

theorem adds_mkdirExistOk (r : Route) : (mkdirExistOk r).Within Act.Adds := by
  apply (adds_mkdir r).bind
  intro result
  cases result with
  | ok _ => trivial
  | error e => exact within_look trivial fun _ => trivial

theorem adds_makedirs (absolute : Bool) (parts : List String) : (makedirs absolute parts).Within Act.Adds := by
  induction parts with
  | nil => exact adds_mkdirExistOk _
  | cons tail head ih =>
    apply within_look trivial
    intro v
    split_ifs
    · exact adds_mkdirExistOk _
    · apply ih.bind
      intro result
      split
      · trivial
      · exact adds_mkdirExistOk _

theorem adds_copyfile (src dst : Route) : (copyfile src dst).Within Act.Adds := by
  apply within_look trivial
  intro v
  cases copiedBytes v src dst with
  | none => trivial
  | some bytes => exact within_write trivial (fun _ _ => trivial) dst bytes

theorem within_scandir (hlook : P .look) (hscan : ∀ p, P (.scan p)) (r : Route) : (scandir r).Within P := by
  apply within_look hlook
  intro v
  cases v.locate true r with
  | none => trivial
  | some p =>
    refine ⟨hscan p, fun result => ?_⟩
    change Except Fault (List String) at result
    cases result with
    | error e => trivial
    | ok names => trivial

theorem within_walk {top : Route}
    {body : List String → List String → List String → Run (Except Fault (List α × List String))} (hlook : P .look)
    (hscan : ∀ p, P (.scan p)) (hbody : ∀ sub dirs files, (body sub dirs files).Within P) (depth : ℕ)
    (sub : List String) : (walk top body depth sub).Within P := by
  induction depth generalizing sub with
  | zero => trivial
  | succ depth ih =>
    apply (within_scandir hlook hscan _).bind
    intro result
    cases result with
    | error e => trivial
    | ok entries =>
      apply (hbody sub entries.1 entries.2).andThen
      intro found
      apply within_look hlook
      intro v
      apply Prog.Within.foldOk
      intro found name _
      exact (ih (sub ++ [name])).andThen fun _ => trivial

end Adding

section Removing

theorem within_tolerate {P : Act Content → Prop} (ignore : Bool) {p : Run (Except Fault Unit)} (hp : p.Within P) :
    (tolerate ignore p).Within P := by
  apply hp.bind
  intro result
  cases result with
  | ok _ => trivial
  | error e => trivial

theorem within_rmtreeEntries (ignore : Bool) (depth : ℕ) (p : Path) :
    (rmtreeEntries ignore depth p).Within (Act.Clears (p <+: ·)) := by
  induction depth generalizing p with
  | zero => trivial
  | succ depth ih =>
    refine ⟨⟨trivial, List.forall_mem_nil _⟩, fun result => ?_⟩
    change Except Fault (List String) at result
    cases result with
    | error e => trivial
    | ok names =>
      apply Prog.Within.foldOk
      intro _ name _
      have hbelow : p <+: p ++ [name] := List.prefix_append _ _
      have hself : ∀ q ∈ [p ++ [name]], p <+: q := List.forall_mem_singleton.mpr hbelow
      apply within_look ⟨trivial, List.forall_mem_nil _⟩
      intro v
      split_ifs
      · apply ((ih (p ++ [name])).mono fun o ho => ⟨ho.1, fun q hq => hbelow.trans (ho.2 q hq)⟩).andThen
        intro _
        exact within_tolerate ignore (within_sys ⟨trivial, hself⟩)
      · exact within_tolerate ignore (within_sys ⟨trivial, hself⟩)

theorem removed_of_adds {o : Act Content} (ho : o.Adds) : o.removed = [] := by
  cases o with
  | look | scan _ | mkdir _ | write _ _ => rfl
  | remove q => exact ho.elim
  | rmdir q => exact ho.elim
  | replace q q' => exact ho.elim

/-- The route ends in a name, and the entry that it leads to is in the zone. -/
def Aims (Z : Path → Prop) (v : Fs) (r : Route) : Prop :=
  ∃ upper name, r = upper.join [name] ∧ Named name ∧ ∀ d, v.Reaches upper d → Z (d ++ [name])

section Zone

variable {Z : Path → Prop} {A : Chance Content → Prop} {v u : Fs} {t : Log} {r : Route}

theorem Aims.entry (hr : Aims Z v r) (h : Volume.Tied v u) {p : Path} (hp : u.entry r = some p) : Z p := by
  obtain ⟨upper, name, rfl, hname, hZ⟩ := hr
  obtain ⟨e, he, rfl⟩ := Volume.reaches_of_entry_join hname hp
  exact hZ e (h.reaches he)

theorem safe_of_clears {α : Type} {p : Run α} (hp : p.Within (Act.Clears Z)) (ht : Guarded Z (Volume.Tied v) t) :
    p.Keeps journal A (Guarded Z (Volume.Tied v)) t :=
  safe_of_within hp (fun _ ho => ho.2) (fun _ _ c ho hu => hu.step ho.1 c) ht

theorem safe_remove (hr : ∀ p, t.state.entry r = some p → Z p) (ht : Guarded Z (Volume.Tied v) t) :
    (remove r).Keeps journal A (Guarded Z (Volume.Tied v)) t := by
  apply safe_onEntry ht
  intro p t' _ ht' hp
  exact safe_of_clears (within_sys ⟨trivial, List.forall_mem_singleton.mpr (hr p hp)⟩) ht'

theorem safe_rmdir {upper : Route} {name : String} (hname : Named name)
    (hr : ∀ p, t.state.entry (upper.join [name]) = some p → Z p) (ht : Guarded Z (Volume.Tied v) t) :
    (rmdir (upper.join [name])).Keeps journal A (Guarded Z (Volume.Tied v)) t := by
  unfold rmdir
  rw [Route.rstrip_join hname]
  apply safe_onEntry ht
  intro p t' _ ht' hp
  exact safe_of_clears (within_sys ⟨trivial, List.forall_mem_singleton.mpr (hr p hp)⟩) ht'

theorem safe_write (r : Route) (bytes : List UInt8) (ht : Guarded Z (Volume.Tied v) t) :
    (write r bytes).Keeps journal A (Guarded Z (Volume.Tied v)) t := by
  apply safe_of_clears (within_write _ _ r bytes) ht
  · exact ⟨trivial, List.forall_mem_nil _⟩
  · exact fun _ _ => ⟨trivial, List.forall_mem_nil _⟩

theorem safe_replaceAt {p q : Path} (hp : Z p) (hq : Z q) (ht : Guarded Z (Volume.Tied v) t) :
    (sys (.replace p q)).Safe journal A (Guarded Z fun _ => True)
      (Prog.Ended (fun _ => Guarded Z fun _ => True) fun _ => Guarded Z (Volume.Tied v)) t := by
  intro c _
  have hremoved : ∀ x ∈ (Act.replace p q : Act Content).removed, Z x := by
    intro x hx
    rw [Act.removed, List.mem_cons, List.mem_singleton] at hx
    rcases hx with rfl | rfl
    · exact hp
    · exact hq
  have hnext := ht.any.step c hremoved trivial
  refine ⟨hnext, ?_⟩
  change Prog.Ended _ _ (t.state.attempt c (t.state.replace p q)).1 _
  cases hresult : (t.state.attempt c (t.state.replace p q)).1 with
  | ok _ => exact hnext
  | error e =>
    have hsame : (t.state.attempt c (t.state.replace p q)).2 = t.state := by
      rcases t.state.attempt_cases c (t.state.replace p q) with he | he
      · rw [he] at hresult ⊢
        rcases t.state.replace_cases p q with hkeep | ⟨hok, -⟩
        · exact hkeep
        · rw [hok] at hresult
          cases hresult
      · rw [he]
    refine ⟨hnext.log, ?_⟩
    change Volume.Tied v (t.state.attempt c (t.state.replace p q)).2
    rw [hsame]
    exact ht.state

theorem safe_replace {src dst : Route} (hsrc : Aims Z v src) (hdst : Aims Z v dst) (ht : Guarded Z (Volume.Tied v) t) :
    (replace src dst).Safe journal A (Guarded Z fun _ => True)
      (Prog.Ended (fun _ => Guarded Z fun _ => True) fun _ => Guarded Z (Volume.Tied v)) t := by
  apply safe_look_weaken ht Guarded.any
  intro t1 hsame1 ht1
  cases hp : t.state.entry src with
  | none => exact ht1
  | some p =>
    apply safe_look_weaken ht1 Guarded.any
    intro t2 hsame2 ht2
    cases hq : t1.state.entry dst with
    | none => exact ht2
    | some q => exact safe_replaceAt (hsrc.entry ht.state hp) (hdst.entry ht1.state hq) ht2

theorem safe_tolerate {I : Log → Prop} (ignore : Bool) {p : Run (Except Fault Unit)}
    (hp : p.Keeps journal A I t) : (tolerate ignore p).Keeps journal A I t := by
  apply hp.bind
  intro result t' ht'
  cases result with
  | ok _ => exact ht'
  | error e => exact ht'

theorem safe_rmtree {upper : Route} {name : String} (ignore : Bool) (depth : ℕ) (hname : Named name)
    (hZ : ∀ d q, v.Reaches upper d → t.state.node (d ++ [name]) = some .dir → d ++ [name] <+: q → Z q)
    (ht : Guarded Z (Volume.Tied v) t) :
    (rmtree ignore depth (upper.join [name])).Keeps journal A (Guarded Z (Volume.Tied v)) t := by
  apply safe_look ht
  intro t1 hstate ht1
  cases hlocate : t.state.locate false (upper.join [name]) with
  | none => exact ht1
  | some p =>
    dsimp only
    split
    · rename_i hdir
      obtain ⟨d, hd, rfl⟩ := Volume.reaches_of_locate_join hname hlocate
      have hreach := ht.state.reaches hd
      have hzone (q : Path) (hq : d ++ [name] <+: q) : Z q := hZ d q hreach hdir hq
      have hself : Aims Z v (upper.join [name]) :=
        ⟨upper, name, rfl, hname, fun e he => hzone _ (he.unique hreach ▸ List.prefix_rfl)⟩
      have hentries : (rmtreeEntries ignore depth (d ++ [name])).Within (Act.Clears Z) :=
        (within_rmtreeEntries ignore depth _).mono fun o ho => ⟨ho.1, fun q hq => hzone q (ho.2 q hq)⟩
      apply (safe_of_clears hentries ht1).andThen_keep
      intro _ t2 ht2
      exact safe_tolerate ignore (safe_rmdir hname (fun p hp => hself.entry ht2.state hp) ht2)
    · exact ht1

end Zone

end Removing

section Walking

variable {Z : Path → Prop} {A : Chance Content → Prop} {α : Type} {t : Log} {r top : Route} {w : Fs} {d D : Path}

theorem safe_scan (ht : Guarded Z (· = w) t) :
    (scan d).Safe journal A (Guarded Z (· = w)) (Prog.Ended (fun names t' => Guarded Z (· = w) t' ∧ names = w.list d)
      fun _ => Guarded Z (· = w)) t := by
  intro c _
  have hstate : t.state = w := ht.state
  have hnext : Guarded Z (· = w) (journal.step t (.scan d) c).2 := ht.step c (List.forall_mem_nil _) ht.state
  refine ⟨hnext, ?_⟩
  change Prog.Ended _ _ (if c.unreadable = false ∧ t.state.node d = some .dir then .ok (t.state.list d)
    else .error Fault.other) _
  rw [hstate]
  split_ifs
  · exact ⟨hnext, rfl⟩
  · exact hnext

theorem safe_scandir (hr : w.Reaches r d) (ht : Guarded Z (· = w) t) :
    (scandir r).Safe journal A (Guarded Z (· = w)) (Prog.Ended
      (fun entries t' => Guarded Z (· = w) t' ∧ (∀ name ∈ entries.1, Named name ∧ w.isdir (r.join [name]) = true) ∧
        ∀ name ∈ entries.2, Named name)
      fun _ => Guarded Z (· = w)) t := by
  apply safe_look ht
  intro t1 _ ht1
  have hstate : t.state = w := ht.state
  rw [hstate, hr.locate_true]
  apply (safe_scan ht1).bind
  intro result t2 h2
  cases result with
  | error e => exact h2
  | ok names =>
    obtain ⟨ht2, rfl⟩ := h2
    have hlisted (f : String → Bool) (name : String) (hname : name ∈ (w.list d).filter f) : Named name ∧ f name = true :=
      (List.mem_filter.mp hname).imp_left Volume.named_of_mem_list
    change Guarded Z (· = w) t2 ∧ _
    rw [List.partition_eq_filter_filter]
    exact ⟨ht2, hlisted _, fun name hname => (hlisted _ name hname).1⟩

/-- The directory `sub` below the top, which is at `D`, is entered without a link. -/
structure Descent (w : Fs) (top : Route) (D : Path) (sub : List String) : Prop where
  named : ∀ name ∈ sub, Named name
  reaches : ∀ upper, upper <+: sub → w.Reaches (top.join upper) (D ++ upper)
  dir : sub ≠ [] → w.node (D ++ sub) = some .dir

namespace Descent

variable {name : String} {sub : List String}

theorem self (h : Descent w top D sub) : w.Reaches (top.join sub) (D ++ sub) := h.reaches sub List.prefix_rfl

theorem start (h : w.Reaches top D) : Descent w top D [] where
  named _ hname := absurd hname List.not_mem_nil
  reaches upper hupper := by
    rw [List.prefix_nil.mp hupper, Route.join_nil, List.append_nil]
    exact h
  dir hne := absurd rfl hne

theorem next (h : Descent w top D sub) (hname : Named name) (hdir : w.isdir (top.join (sub ++ [name])) = true)
    (hlink : w.islink (top.join (sub ++ [name])) = false) : Descent w top D (sub ++ [name]) := by
  rw [← Route.join_join] at hdir hlink
  rw [Volume.islink_eq_false_iff, h.self.lstat_join hname] at hlink
  rw [Volume.isdir_eq_true_iff, h.self.stat_join hname hlink] at hdir
  refine ⟨List.forall_mem_append.mpr ⟨h.named, List.forall_mem_singleton.mpr hname⟩, fun upper hupper => ?_, fun _ => ?_⟩
  · rcases List.prefix_concat_iff.mp hupper with rfl | hupper
    · rw [← Route.join_join, ← List.append_assoc]
      exact h.self.join hname hdir
    · exact h.reaches upper hupper
  · rw [← List.append_assoc]
    exact hdir

end Descent

/-- A walk that changes nothing: what its body finds, it finds in a directory below the top, entered without a link. -/
theorem safe_walk_reads {body : List String → List String → List String → Run (Except Fault (List α × List String))}
    {Found : α → Prop}
    (hbody : ∀ sub dirs files t, Guarded Z (· = w) t → Descent w top D sub → (∀ name ∈ dirs, Named name) →
      (∀ name ∈ files, Named name) →
      (body sub dirs files).Safe journal A (Guarded Z (· = w)) (Prog.Ended
        (fun out t' => Guarded Z (· = w) t' ∧ (∀ a ∈ out.1, Found a) ∧ ∀ name ∈ out.2, name ∈ dirs)
        fun _ => Guarded Z (· = w)) t)
    (depth : ℕ) {sub : List String} (hsub : Descent w top D sub) (ht : Guarded Z (· = w) t) :
    (walk top body depth sub).Safe journal A (Guarded Z (· = w)) (Prog.Ended
      (fun found t' => Guarded Z (· = w) t' ∧ ∀ a ∈ found, Found a) fun _ => Guarded Z (· = w)) t := by
  induction depth generalizing sub t with
  | zero => exact ⟨ht, List.forall_mem_nil _⟩
  | succ depth ih =>
    apply (safe_scandir hsub.self ht).bind
    intro result t1 h1
    cases result with
    | error e => exact ⟨h1, List.forall_mem_nil _⟩
    | ok entries =>
      obtain ⟨dirs, files⟩ := entries
      obtain ⟨ht1, hdirs, hfiles⟩ := h1
      apply (hbody sub dirs files t1 ht1 hsub (fun name hname => (hdirs name hname).1) hfiles).andThen
      rintro ⟨found, kept⟩ t2 ⟨ht2, hfound, hkept⟩
      apply safe_look ht2
      intro t3 _ ht3
      have hstate2 : t2.state = w := ht2.state
      rw [hstate2]
      -- the loop over the directories: all that was found so far is such
      refine Prog.safe_foldOk (J := fun _ found t' => Guarded Z (· = w) t' ∧ ∀ a ∈ found, Found a) ⟨ht3, hfound⟩ ?_
      rintro done name rest hsplit found' t4 ⟨ht4, hfound'⟩
      have hmem : name ∈ kept.filter fun name => !w.islink (top.join (sub ++ [name])) := by
        rw [hsplit]
        exact List.mem_append_right _ List.mem_cons_self
      obtain ⟨hin, hlink⟩ := List.mem_filter.mp hmem
      rw [Bool.not_eq_true'] at hlink
      obtain ⟨hname, hdir⟩ := hdirs name (hkept name hin)
      rw [Route.join_join] at hdir
      apply (ih (hsub.next hname hdir hlink) ht4).andThen
      rintro more t5 ⟨ht5, hmore⟩
      exact ⟨ht5, List.forall_mem_append.mpr ⟨hfound', hmore⟩⟩

end Walking

end Os

end LinkTree
