import PiBuddyCam.ProtoRoundTrip

/-! `decode_config_message` of `app/proto.py`: a nested message, taken apart level by level.
Every level takes a frame of the interpreter's stack, and of those there are only so many. -/
namespace PiBuddyCam.Proto

/-- What `walk` makes of a message: values, and dictionaries in place of submessages. -/
inductive Decoded where
  | value (v : Value)
  | fields (items : List (ℤ × Decoded))

def Value.raw : Value → Option Bytes
  | .bytes b => some b
  | .text s => some (utf8Encode s)
  | _ => Option.none

def Decoded.orValue : Option (List (ℤ × Decoded)) → Value → Decoded
  | some (e :: items), _ => .fields (e :: items)
  | _, v => .value v

def messageFrames (raw : Bytes) : ℕ := if raw = [] then 1 else 2

/-- The nested `walk`, with the frames that are left for it and for what it calls. It takes a
`RecursionError` of `decode_message` for a message that cannot be decoded. -/
def walkConfig : ℕ → Bytes → Option (List (ℤ × Decoded))
  | 0, _ => none
  | frames+1, raw =>
    if frames < messageFrames raw then none
    else some ((decodeMessage raw).entries.map fun e =>
      (e.1, Decoded.orValue (e.2.raw.bind (walkConfig frames)) e.2))

inductive ConfigError where
  | recursionError
  deriving DecidableEq

def decodeConfigMessage (frames : ℕ) (data : Value) : Except ConfigError (Option (List (ℤ × Decoded))) :=
  if frames = 0 then .error .recursionError else .ok (data.raw.bind (walkConfig frames))

/-- A tree of integers, its inner nodes being dictionaries. -/
inductive Tree where
  | leaf (n : ℕ)
  | node (items : List (ℤ × Tree))

/-- Every node has a field, the fields of a node have different numbers, and all numbers are from one up. -/
inductive Tree.Valid : Tree → Prop
  | leaf (n : ℕ) : Valid (.leaf n)
  | node {items : List (ℤ × Tree)} (nonempty : items ≠ []) (nodup : (items.map Prod.fst).Nodup)
      (positive : ∀ e ∈ items, 1 ≤ e.1) (children : ∀ e ∈ items, Valid e.2) : Valid (.node items)

structure ConfigTree where
  items : List (ℤ × Tree)
  valid : (Tree.node items).Valid

mutual

def Tree.encode : Tree → Except ProtoError Value
  | .leaf n => pure (.int n)
  | .node items => do
    let values ← Tree.encodeAll items
    let raw ← encodeMessage (.ofList values)
    pure (.bytes raw)

def Tree.encodeAll : List (ℤ × Tree) → Except ProtoError (List (ℤ × Value))
  | [] => pure []
  | (k, t) :: items => do
    let v ← t.encode
    let values ← Tree.encodeAll items
    pure ((k, v) :: values)

end

mutual

def Tree.depth : Tree → ℕ
  | .leaf _ => 0
  | .node items => Tree.depthAll items + 1

def Tree.depthAll : List (ℤ × Tree) → ℕ
  | [] => 0
  | (_, t) :: items => max t.depth (Tree.depthAll items)

end

/-- What stands at the end of a path of field numbers: a value, or `none` for a dictionary. -/
def Decoded.look : Decoded → List ℤ → Option (Option Value)
  | .value v, [] => some (some v)
  | .fields _, [] => some none
  | .value _, _ :: _ => none
  | .fields items, k :: path => (items.find? fun e => e.1 = k).bind fun e => e.2.look path

def Tree.look : Tree → List ℤ → Option (Option Value)
  | .leaf n, [] => some (some (.int n))
  | .node _, [] => some none
  | .leaf _, _ :: _ => none
  | .node items, k :: path => (items.find? fun e => e.1 = k).bind fun e => e.2.look path

section Encoding

variable {items : List (ℤ × Tree)}

theorem Tree.depth_lt_of_mem {e : ℤ × Tree} (he : e ∈ items) :
    e.2.depth < (Tree.node items).depth := by
  have hall : e.2.depth ≤ Tree.depthAll items := by
    induction items with
    | nil => cases he
    | cons e' items ih =>
      rw [Tree.depthAll]
      rcases List.mem_cons.mp he with rfl | he
      · exact le_max_left _ _
      · exact (ih he).trans (le_max_right _ _)
  rw [Tree.depth]
  omega

theorem Tree.exists_deepest (h : Tree.depthAll items ≠ 0) :
    ∃ e ∈ items, e.2.depth = Tree.depthAll items := by
  induction items with
  | nil => exact absurd rfl h
  | cons e items ih =>
    rw [Tree.depthAll] at h ⊢
    rcases le_total e.2.depth (Tree.depthAll items) with hle | hle
    · rw [max_eq_right hle] at h ⊢
      obtain ⟨e', he', hdepth⟩ := ih h
      exact ⟨e', List.mem_cons_of_mem e he', hdepth⟩
    · rw [max_eq_left hle]
      exact ⟨e, List.mem_cons_self, rfl⟩

theorem find?_of_nodup {α : Type} {items : List (ℤ × α)} (hnodup : (items.map Prod.fst).Nodup) {e : ℤ × α}
    (he : e ∈ items) : items.find? (fun e' => e'.1 = e.1) = some e := by
  have hget : (items.find? fun e' => e'.1 = e.1).map Prod.snd = some e.2 :=
    (OrderedDict.get?_eq_some_iff ⟨items, hnodup⟩ e.1 e.2).mpr he
  obtain ⟨e', hfind, hsnd⟩ := Option.map_eq_some_iff.mp hget
  have hfst : e'.1 = e.1 := by simpa using List.find?_some hfind
  rw [hfind, Prod.ext hfst hsnd]

def Tree.wire (t : Tree) : Option Value := t.encode.toOption.bind wireValue

theorem Tree.encodeAll_ok (h : ∀ e ∈ items, ∃ v, e.2.encode = .ok v ∧ Encodable v) :
    ∃ values, Tree.encodeAll items = .ok values ∧ values.map Prod.fst = items.map Prod.fst ∧
      (∀ e ∈ values, Encodable e.2) ∧
      ∀ k, (values.find? fun e => e.1 = k).bind (fun e => wireValue e.2) =
        (items.find? fun e => e.1 = k).bind fun e => e.2.wire := by
  induction items with
  | nil => exact ⟨[], rfl, rfl, List.forall_mem_nil _, fun _ => rfl⟩
  | cons e items ih =>
    obtain ⟨v, hv, hsend⟩ := h e List.mem_cons_self
    obtain ⟨values, hvalues, hkeys, hall, hfind⟩ := ih fun e' he' => h e' (List.mem_cons_of_mem e he')
    refine ⟨(e.1, v) :: values, ?_, ?_, ?_, fun k => ?_⟩
    · simp only [Tree.encodeAll, hv, hvalues]
      rfl
    · rw [List.map_cons, List.map_cons, hkeys]
    · intro e' he'
      rcases List.mem_cons.mp he' with rfl | he'
      · exact hsend
      · exact hall e' he'
    · by_cases hk : e.1 = k
      · have hwire : e.2.wire = wireValue v := by
          rw [Tree.wire, hv]
          rfl
        simp [hk, hwire]
      · simp [hk, hfind]

theorem Tree.encode_node (hnodup : (items.map Prod.fst).Nodup)
    (hpos : ∀ e ∈ items, 1 ≤ e.1) (hchildren : ∀ e ∈ items, ∃ v, e.2.encode = .ok v ∧ Encodable v) :
    ∃ raw, (Tree.node items).encode = .ok (.bytes raw) ∧
      ∀ k, (decodeMessage raw).get? k = (items.find? fun e => e.1 = k).bind fun e => e.2.wire := by
  obtain ⟨values, hvalues, hkeys, hall, hfind⟩ := Tree.encodeAll_ok hchildren
  have hnodup' : (values.map Prod.fst).Nodup := hkeys ▸ hnodup
  have hentries := OrderedDict.entries_ofList values hnodup'
  have hpos' : ∀ k ∈ (OrderedDict.ofList values).keys, 1 ≤ k := by
    intro k hk
    rw [OrderedDict.keys, hentries, hkeys] at hk
    obtain ⟨e, he, rfl⟩ := List.mem_map.mp hk
    exact hpos e he
  have hall' : ∀ k v, (OrderedDict.ofList values).get? k = some v → Encodable v := by
    intro k v hget
    rw [OrderedDict.get?_eq_some_iff, hentries] at hget
    exact hall _ hget
  obtain ⟨raw, hraw, hdecode⟩ := decode_encode_message _ hpos' hall'
  refine ⟨raw, ?_, fun k => ?_⟩
  · simp only [Tree.encode, hvalues]
    exact congrArg (fun r => r >>= fun raw => pure (Value.bytes raw)) hraw
  · rw [hdecode, OrderedDict.get?_ofList _ hnodup', ← hfind, Option.bind_map]
    rfl

theorem Tree.encode_ok {t : Tree} (h : t.Valid) : ∃ v, t.encode = .ok v ∧ Encodable v := by
  induction h with
  | leaf n => exact ⟨.int n, rfl, Int.natCast_nonneg n⟩
  | node _ hnodup hpos _ ih =>
    obtain ⟨raw, hraw, -⟩ := Tree.encode_node hnodup hpos ih
    exact ⟨.bytes raw, hraw, trivial⟩

theorem Tree.wire_leaf (n : ℕ) : (Tree.leaf n).wire = some (.int n) := rfl

theorem Tree.wire_node {raw : Bytes} (h : (Tree.node items).encode = .ok (.bytes raw)) :
    (Tree.node items).wire = some (textOrBytes raw) := by
  rw [Tree.wire, h]
  rfl

theorem Tree.exists_wire {t : Tree} (h : t.Valid) : ∃ v, t.wire = some v := by
  cases h with
  | leaf n => exact ⟨_, Tree.wire_leaf n⟩
  | node _ hnodup hpos hchildren =>
    obtain ⟨raw, hraw, -⟩ := Tree.encode_node hnodup hpos fun e he => Tree.encode_ok (hchildren e he)
    exact ⟨_, Tree.wire_node hraw⟩

theorem raw_textOrBytes (raw : Bytes) : (textOrBytes raw).raw = some raw := by
  unfold textOrBytes
  split
  · next s hs => exact congrArg some (utf8Encode_of_utf8Decode hs)
  · rfl

end Encoding

section Levels

def nestedConfig (frames : ℕ) (v : Value) : Decoded := Decoded.orValue (v.raw.bind (walkConfig frames)) v

variable {raw : Bytes} {items : List (ℤ × Decoded)}

theorem look_walkConfig {frames : ℕ}
    (h : walkConfig (frames+1) raw = some items) (k : ℤ) (path : List ℤ) :
    (Decoded.fields items).look (k :: path) =
      ((decodeMessage raw).get? k).bind fun v => (nestedConfig frames v).look path := by
  rw [walkConfig] at h
  split_ifs at h
  obtain rfl := Option.some.inj h
  rw [Decoded.look, List.find?_map, OrderedDict.get?, Option.bind_map, Option.bind_map]
  rfl

theorem walkConfig_isSome {frames : ℕ} (hraw : raw ≠ []) :
    (walkConfig frames raw).isSome = true ↔ 3 ≤ frames := by
  cases frames with
  | zero => simp [walkConfig]
  | succ frames =>
    rw [walkConfig, messageFrames, if_neg hraw]
    split_ifs with h
    · exact ⟨fun hnone => absurd hnone Bool.false_ne_true, fun hle => by omega⟩
    · exact ⟨fun _ => by omega, fun _ => rfl⟩

variable (frames : ℕ)

theorem nestedConfig_textOrBytes (raw : Bytes) :
    nestedConfig frames (textOrBytes raw) = Decoded.orValue (walkConfig frames raw) (textOrBytes raw) := by
  rw [nestedConfig, raw_textOrBytes, Option.bind_some]

variable (tree : ConfigTree)

theorem ConfigTree.encode_ok :
    ∃ raw, (Tree.node tree.items).encode = .ok (.bytes raw) ∧ raw ≠ [] ∧
      ∀ k, (decodeMessage raw).get? k = (tree.items.find? fun e => e.1 = k).bind fun e => e.2.wire := by
  obtain ⟨items, hvalid⟩ := tree
  cases hvalid with
  | node hne hnodup hpos hchildren =>
    obtain ⟨raw, hraw, hget⟩ := Tree.encode_node hnodup hpos fun e he => Tree.encode_ok (hchildren e he)
    refine ⟨raw, hraw, ?_, hget⟩
    rintro rfl
    obtain ⟨e, items, rfl⟩ := List.exists_cons_of_ne_nil hne
    obtain ⟨v, hv⟩ := Tree.exists_wire (hchildren e List.mem_cons_self)
    have hfirst := hget e.1
    rw [decodeMessage, decodeFields_nil, OrderedDict.get?_empty, find?_of_nodup hnodup List.mem_cons_self,
      Option.bind_some, hv] at hfirst
    cases hfirst

variable {tree}

theorem ConfigTree.child {e : ℤ × Tree} (he : e ∈ tree.items) : e.2.Valid := by
  cases tree.valid with
  | node _ _ _ hchildren => exact hchildren e he

theorem ConfigTree.find_child {e : ℤ × Tree} (he : e ∈ tree.items) :
    tree.items.find? (fun e' => e'.1 = e.1) = some e := by
  cases tree.valid with
  | node _ hnodup _ _ => exact find?_of_nodup hnodup he

variable (tree)

theorem ConfigTree.exists_item : ∃ e, e ∈ tree.items := by
  cases tree.valid with
  | node hne _ _ _ => exact List.exists_mem_of_ne_nil _ hne

theorem Tree.look_nil_ne (t : Tree) : t.look [] ≠ none := by
  cases t <;> exact fun h => nomatch h

/-- With enough frames the dictionary has at every path what the tree has there. The induction is
on the frames, of which every level leaves one less to the next. -/
theorem walkConfig_encode (hframes : (Tree.node tree.items).depth + 2 ≤ frames)
    (hraw : (Tree.node tree.items).encode = .ok (.bytes raw)) :
    ∃ e items, walkConfig frames raw = some (e :: items) ∧
      ∀ path, (Decoded.fields (e :: items)).look path = (Tree.node tree.items).look path := by
  induction frames generalizing tree raw with
  | zero => omega
  | succ frames ih =>
    obtain ⟨raw', hraw', hne, hget⟩ := tree.encode_ok
    obtain rfl : raw' = raw := Value.bytes.inj (Except.ok.inj (hraw'.symm.trans hraw))
    have hdepth : 1 ≤ (Tree.node tree.items).depth := by
      rw [Tree.depth]
      omega
    obtain ⟨out, hout⟩ := Option.isSome_iff_exists.mp ((walkConfig_isSome hne).mpr (show 3 ≤ frames+1 by omega))
    have hlook (path : List ℤ) : (Decoded.fields out).look path = (Tree.node tree.items).look path := by
      cases path with
      | nil => rw [Decoded.look, Tree.look]
      | cons k path =>
        rw [look_walkConfig hout, hget, Tree.look, Option.bind_assoc]
        cases hfind : tree.items.find? fun e => e.1 = k with
        | none => rfl
        | some e =>
          obtain ⟨j, t⟩ := e
          have he : (j, t) ∈ tree.items := List.mem_of_find?_eq_some hfind
          have hlt : t.depth < (Tree.node tree.items).depth := Tree.depth_lt_of_mem he
          have hvalid : t.Valid := ConfigTree.child he
          rw [Option.bind_some, Option.bind_some]
          cases t with
          | leaf n =>
            rw [Tree.wire_leaf, Option.bind_some]
            cases path <;> rfl
          | node items =>
            obtain ⟨rawBelow, hbelow, -⟩ := ConfigTree.encode_ok ⟨items, hvalid⟩
            have henough : (Tree.node items).depth + 2 ≤ frames := by omega
            obtain ⟨e', items', hwalk, hpaths⟩ := ih ⟨items, hvalid⟩ henough hbelow
            rw [Tree.wire_node hbelow, Option.bind_some, nestedConfig_textOrBytes, hwalk]
            exact hpaths path
    cases out with
    | nil =>
      -- the tree has a field, and so has what agrees with it at every path
      obtain ⟨e, he⟩ := tree.exists_item
      have hfield := hlook [e.1]
      rw [Tree.look, ConfigTree.find_child he, Option.bind_some] at hfield
      exact absurd hfield.symm (Tree.look_nil_ne e.2)
    | cons e items => exact ⟨e, items, hout, hlook⟩

theorem walkConfig_too_deep (hframes : frames < (Tree.node tree.items).depth + 2)
    (hraw : (Tree.node tree.items).encode = .ok (.bytes raw))
    (hwalk : walkConfig frames raw = some items) :
    ∃ path, (Decoded.fields items).look path ≠ (Tree.node tree.items).look path := by
  induction frames generalizing tree raw items with
  | zero => cases hwalk
  | succ frames ih =>
    obtain ⟨raw', hraw', hne, hget⟩ := tree.encode_ok
    obtain rfl : raw' = raw := Value.bytes.inj (Except.ok.inj (hraw'.symm.trans hraw))
    have hthree : 3 ≤ frames+1 := (walkConfig_isSome hne).mp (by rw [hwalk]; rfl)
    have hdepth : (Tree.node tree.items).depth = Tree.depthAll tree.items + 1 := rfl
    have hdeeper : Tree.depthAll tree.items ≠ 0 := by omega
    obtain ⟨⟨k, t⟩, he, hdeep⟩ := Tree.exists_deepest hdeeper
    have hvalid : t.Valid := ConfigTree.child he
    replace hdeep : t.depth = Tree.depthAll tree.items := hdeep
    cases t with
    | leaf n =>
      have hzero : (Tree.leaf n).depth = 0 := rfl
      omega
    | node below =>
      obtain ⟨rawBelow, hbelow, -⟩ := ConfigTree.encode_ok ⟨below, hvalid⟩
      have hat (path : List ℤ) : (Decoded.fields items).look (k :: path) =
          (Decoded.orValue (walkConfig frames rawBelow) (textOrBytes rawBelow)).look path := by
        rw [look_walkConfig hwalk, hget, ConfigTree.find_child he, Option.bind_some, Tree.wire_node hbelow,
          Option.bind_some, nestedConfig_textOrBytes]
      have htree (path : List ℤ) : (Tree.node tree.items).look (k :: path) = (Tree.node below).look path := by
        rw [Tree.look, ConfigTree.find_child he, Option.bind_some]
      -- either the submessage was taken apart, and then not to the end, or it stands there as a value
      cases hsub : walkConfig frames rawBelow with
      | none =>
        refine ⟨[k], ?_⟩
        rw [hat, htree, hsub]
        exact fun h => nomatch h
      | some items' =>
        have hmissing : frames < (Tree.node below).depth + 2 := by omega
        obtain ⟨path, hpath⟩ := ih ⟨below, hvalid⟩ hmissing hbelow hsub
        cases items' with
        | nil =>
          refine ⟨[k], ?_⟩
          rw [hat, htree, hsub]
          exact fun h => nomatch h
        | cons e' items' =>
          refine ⟨k :: path, ?_⟩
          rw [hat, htree, hsub]
          exact hpath

end Levels

theorem walkConfig_of_decode {frames : ℕ} {raw : Bytes} {items : List (ℤ × Decoded)}
    (h : decodeConfigMessage frames (.bytes raw) = .ok (some items)) : walkConfig frames raw = some items := by
  unfold decodeConfigMessage at h
  split_ifs at h
  exact Except.ok.inj h

/-- Encoding a tree succeeds, and decoding the message gives the tree back, at every path, exactly
when there are frames for every level and the two calls that read the last one. -/
theorem config_tree_decoded_iff (tree : ConfigTree) (frames : ℕ) :
    ∃ raw, (Tree.node tree.items).encode = .ok (.bytes raw) ∧
      ((∃ items, decodeConfigMessage frames (.bytes raw) = .ok (some items) ∧
          ∀ path, (Decoded.fields items).look path = (Tree.node tree.items).look path) ↔
        (Tree.node tree.items).depth + 2 ≤ frames) := by
  obtain ⟨raw, hraw, -, -⟩ := tree.encode_ok
  refine ⟨raw, hraw, ?_, ?_⟩
  · rintro ⟨items, hdecode, hlook⟩
    by_contra hfew
    obtain ⟨path, hpath⟩ := walkConfig_too_deep frames tree (by omega) hraw (walkConfig_of_decode hdecode)
    exact hpath (hlook path)
  · intro henough
    obtain ⟨e, items, hwalk, hlook⟩ := walkConfig_encode frames tree henough hraw
    refine ⟨e :: items, ?_, hlook⟩
    rw [decodeConfigMessage, if_neg (by omega)]
    exact congrArg Except.ok hwalk

/-- Submessages one in another, each the only field of the one above it. -/
def Tree.chain : ℕ → Tree
  | 0 => .leaf 0
  | n+1 => .node [(1, Tree.chain n)]

theorem Tree.chain_valid (n : ℕ) : (Tree.chain n).Valid := by
  induction n with
  | zero => exact .leaf 0
  | succ n ih =>
    have hnodup : ([(1, Tree.chain n)].map Prod.fst : List ℤ).Nodup := List.nodup_singleton 1
    apply Tree.Valid.node (List.cons_ne_nil _ _) hnodup
    · exact List.forall_mem_singleton.mpr le_rfl
    · exact List.forall_mem_singleton.mpr ih

theorem Tree.depth_chain (n : ℕ) : (Tree.chain n).depth = n := by
  induction n with
  | zero => rfl
  | succ n ih => simp [Tree.chain, Tree.depth, Tree.depthAll, ih]

/-- A thousand submessages are too many for the thousand frames that the interpreter allows by default. -/
theorem thousand_levels_not_decoded :
    ∃ raw, (Tree.chain 1000).encode = .ok (.bytes raw) ∧
      ¬ ∃ items, decodeConfigMessage 1000 (.bytes raw) = .ok (some items) ∧
        ∀ path, (Decoded.fields items).look path = (Tree.chain 1000).look path := by
  obtain ⟨raw, hraw, -, -⟩ := ConfigTree.encode_ok ⟨[(1, Tree.chain 999)], Tree.chain_valid 1000⟩
  refine ⟨raw, hraw, ?_⟩
  rintro ⟨items, hdecode, hlook⟩
  have hdepth : (Tree.node [(1, Tree.chain 999)]).depth = 1000 := Tree.depth_chain 1000
  obtain ⟨path, hpath⟩ := walkConfig_too_deep 1000 ⟨[(1, Tree.chain 999)], Tree.chain_valid 1000⟩
    (by rw [hdepth]; omega) hraw (walkConfig_of_decode hdecode)
  exact hpath (hlook path)

end PiBuddyCam.Proto
