import Mathlib.Algebra.Order.Ring.Rat
import PiBuddyCam.JsonText
import PiBuddyCam.OrderedDict

/-! The control socket between the admin UI and the camera runtime: a request and its response are each one
line of JSON, with a limit on both sides. -/
namespace PiBuddyCam.Ipc

open JsonText

def paramsDepth : ℕ := 4

def paramsItems : ℕ := 64

def responseDepth : ℕ := 8

def responseItems : ℕ := 256

def maxText : ℕ := 4096

def maxKey : ℕ := 128

def readOperations : List String := ["dashboard", "ping"]

def writeOperations : List String := ["settings.set"]

def allowedOperations : List String := readOperations ++ writeOperations

/-- A Python object: what JSON has, with the `str` of each key, and of other objects their `str`. -/
inductive Raw where
  | none
  | bool (b : Bool)
  | int (n : ℤ)
  | float (x : FloatText)
  | str (s : String)
  | list (items : List Raw)
  | dict (entries : List (String × Raw))
  | other (text : String)

def Raw.truthy : Raw → Bool
  | .none => false
  | .bool b => b
  | .int n => n ≠ 0
  | .float x => x.text ≠ ['0', '.', '0'] && x.text ≠ ['-', '0', '.', '0']
  | .str s => s ≠ ""
  | .list items => !items.isEmpty
  | .dict entries => !entries.isEmpty
  | .other _ => true

def Raw.get (entries : List (String × Raw)) (key : String) : Raw := (entries.lookup key).getD .none

/-- What the interpreter brings: `str.isprintable` of a character, and `json.loads(line.decode('utf-8'))`, `none`
where that raises. -/
structure Host where
  printable : Char → Bool
  loads : List UInt8 → Option Raw

section Bounds

variable (h : Host)

def boundedText (value : String) (limit : ℕ) : String :=
  String.ofList ((value.toList.filter h.printable).take limit)

mutual

def boundValue (maxItems : ℕ) : (levels : ℕ) → Raw → Value
  | 0, _ => .null
  | _+1, .none => .null
  | _+1, .bool b => .bool b
  | _+1, .int n => .int n
  | _+1, .float x => .float x
  | _+1, .str s => .str (boundedText h s maxText)
  | depth+1, .list items => .list (boundItems maxItems depth maxItems items)
  | depth+1, .dict entries => .dict (OrderedDict.ofList (boundEntries maxItems depth maxItems entries)).entries
  | _+1, .other text => .str (boundedText h text maxText)

def boundItems (maxItems levels : ℕ) : (n : ℕ) → List Raw → List Value
  | 0, _ => []
  | _+1, [] => []
  | n+1, item :: items => boundValue maxItems levels item :: boundItems maxItems levels n items

def boundEntries (maxItems levels : ℕ) : (n : ℕ) → List (String × Raw) → List (String × Value)
  | 0, _ => []
  | _+1, [] => []
  | n+1, (key, item) :: entries =>
    (boundedText h key maxKey, boundValue maxItems levels item) :: boundEntries maxItems levels n entries

end

def boundParams (params : Raw) : Value := boundValue h paramsItems (paramsDepth+1) params

def boundData (data : Raw) : Value := boundValue h responseItems (responseDepth+1) data

end Bounds

/-- One turn of the loop of `_read_line`: the time since its start, and what `recv` returns, `none` where it raises. -/
structure Read where
  elapsed : ℚ
  got : Option (List UInt8)

/-- `_read_line`, of the client and of the server. Where no more reads are left, the last one runs into its
timeout. -/
def readLine (timeout : ℚ) (limit : ℕ) : List UInt8 → List Read → Option (List UInt8)
  | _, [] => none
  | chunks, r :: reads =>
    if timeout - r.elapsed ≤ 0 then none
    else match r.got with
      | none => none
      | some chunk =>
        if chunk = [] then none
        else if limit < (chunks ++ chunk).length then none
        else if newline ∈ chunk then
          let line := (chunks ++ chunk).takeWhile (· ≠ newline)
          if line = [] then none else some line
        else readLine timeout limit (chunks ++ chunk) reads

structure RuntimeClient where
  timeout : ℚ := 3
  maxRequestBytes : ℕ := 64*1024
  maxResponseBytes : ℕ := 256*1024

/-- A handler returns an object, or raises. -/
structure RuntimeServer where
  handlers : List (String × (Value → Option Raw)) := []
  timeout : ℚ := 3
  maxRequestBytes : ℕ := 64*1024
  maxResponseBytes : ℕ := 256*1024

inductive Answer where
  | ok (data : Value)
  | degraded (error : String)

def degraded (h : Host) (reason : String) : Answer :=
  .degraded (if boundedText h reason 200 = "" then "runtime unavailable" else boundedText h reason 200)

namespace RuntimeClient

variable (c : RuntimeClient) (h : Host)

def envelope (op : String) (params : Raw) : Value :=
  .dict [("op", .str op), ("params", boundParams h (if params.truthy then params else .dict []))]

/-- The first half of `request`, up to the payload that is sent. -/
def payload (op : String) (params : Raw) : Except String (List UInt8) :=
  if op ∉ allowedOperations then .error "operation not allowed"
  else match dumps (envelope h op params) with
    | none => .error "invalid request"
    | some text =>
      if c.maxRequestBytes < (encode text).length then .error "request too large" else .ok (encode text)

def receive (reads : List Read) : Answer :=
  match (readLine c.timeout c.maxResponseBytes [] reads).bind h.loads with
  | none => degraded h "runtime unavailable"
  | some (.dict entries) =>
    if (Raw.get entries "ok").truthy then .ok (boundData h (Raw.get entries "data"))
    else
      let reason := match Raw.get entries "error" with
        | .str s => boundedText h s 200
        | _ => ""
      degraded h (if reason = "" then "runtime error" else reason)
  | some _ => degraded h "runtime error"

end RuntimeClient

namespace RuntimeServer

variable (s : RuntimeServer) (h : Host)

/-- The table that the constructor makes: only operations of the allowlist, and `ping` in any case. -/
def handler (op : String) : Option (Value → Option Raw) :=
  if op ∉ allowedOperations then none
  else match s.handlers.lookup op with
    | some f => some f
    | none => if op = "ping" then some fun _ => some (.dict [("pong", .bool true)]) else none

def refusal (error : String) : Value := .dict [("ok", .bool false), ("error", .str error)]

def dispatch (line : List UInt8) : Value :=
  match h.loads line with
  | some (.dict entries) =>
    match Raw.get entries "op" with
    | .str op =>
      match s.handler op with
      | none => refusal "operation not allowed"
      | some f =>
        match Raw.get entries "params" with
        | .none => answer (f (boundParams h (.dict [])))
        | .dict params => answer (f (boundParams h (.dict params)))
        | _ => refusal "invalid params"
    | _ => refusal "operation not allowed"
  | _ => refusal "malformed request"
where
  answer : Option Raw → Value
    | none => refusal "operation failed"
    | some data => .dict [("ok", .bool true), ("data", boundData h data)]

/-- The payload of the response to a line, `none` where the text cannot be made. -/
def respond (line : List UInt8) : Option (List UInt8) := do
  let text ← dumps (s.dispatch h line)
  if s.maxResponseBytes < (encode text).length then (dumps (refusal "response too large")).map encode
  else pure (encode text)

end RuntimeServer

inductive Delivers (timeout : ℚ) : List UInt8 → List Read → Prop
  | done : Delivers timeout [] []
  | read {elapsed : ℚ} {chunk rest : List UInt8} {reads : List Read} (htime : elapsed < timeout) (hchunk : chunk ≠ [])
      (hrest : Delivers timeout rest reads) : Delivers timeout (chunk ++ rest) (⟨elapsed, some chunk⟩ :: reads)

section Reader

variable {timeout : ℚ} {limit : ℕ} {payload bytes : List UInt8} {reads : List Read}

theorem takeWhile_payload (h : newline ∉ payload) :
    (payload ++ [newline]).takeWhile (· ≠ newline) = payload := by
  have hall : ∀ b ∈ payload, decide (b ≠ newline) = true := fun b hb => decide_eq_true fun heq => h (heq ▸ hb)
  rw [List.takeWhile_append_of_pos hall, List.takeWhile_cons_of_neg (by simp), List.append_nil]

theorem last_chunk {chunks chunk rest : List UInt8} (hpayload : newline ∉ payload)
    (hbytes : chunks ++ (chunk ++ rest) = payload ++ [newline]) (hchunk : newline ∈ chunk) : rest = [] := by
  rcases List.eq_nil_or_concat' rest with hnil | ⟨init, last, rfl⟩
  · exact hnil
  rw [← List.append_assoc, ← List.append_assoc] at hbytes
  have hinit : chunks ++ chunk ++ init = payload := (List.append_inj' hbytes rfl).1
  have hmem : newline ∈ chunks ++ chunk ++ init :=
    List.mem_append_left _ (List.mem_append_right _ hchunk)
  rw [hinit] at hmem
  exact absurd hmem hpayload

/-- The reader counts the newline, too: it takes a line that is shorter than the limit, however it comes. -/
theorem readLine_of_delivers (hne : payload ≠ []) (hpayload : newline ∉ payload) (after : List Read)
    (hreads : Delivers timeout bytes reads) : ∀ chunks, newline ∉ chunks → chunks ++ bytes = payload ++ [newline] →
      readLine timeout limit chunks (reads ++ after) = if payload.length < limit then some payload else none := by
  induction hreads with
  | done =>
    intro chunks hchunks hbytes
    rw [List.append_nil] at hbytes
    rw [hbytes] at hchunks
    exact absurd (List.mem_append_right _ List.mem_cons_self) hchunks
  | read htime hchunk hrest ih =>
    rename_i elapsed chunk rest reads
    intro chunks hchunks hbytes
    have hremaining : ¬ timeout - elapsed ≤ 0 := by
      rw [sub_nonpos, not_le]
      exact htime
    rw [List.cons_append, readLine, if_neg hremaining]
    dsimp only
    rw [if_neg hchunk]
    have hlength : (chunks ++ chunk).length + rest.length = payload.length + 1 := by
      have := congrArg List.length hbytes
      rwa [← List.append_assoc, List.length_append, List.length_append, List.length_append, List.length_singleton,
        ← List.length_append] at this
    by_cases hmem : newline ∈ chunk
    · obtain rfl := last_chunk hpayload hbytes hmem
      rw [List.append_nil] at hbytes
      rw [List.length_nil, Nat.add_zero] at hlength
      rw [if_pos hmem, hlength, hbytes, takeWhile_payload hpayload, if_neg hne]
      split_ifs with hlong hshort hshort
      · omega
      · rfl
      · rfl
      · omega
    · rw [if_neg hmem]
      have hjoined : newline ∉ chunks ++ chunk := fun hin => (List.mem_append.mp hin).elim hchunks hmem
      have hleft : rest ≠ [] := by
        rintro rfl
        have hin : newline ∈ payload ++ [newline] := List.mem_append_right _ List.mem_cons_self
        rw [← hbytes, List.append_nil] at hin
        exact hjoined hin
      rw [ih (chunks ++ chunk) hjoined (by rw [List.append_assoc]; exact hbytes)]
      -- a line that is too long already is too long as a whole
      split_ifs with hlong hshort
      · omega
      · rfl
      · rfl
      · rfl

end Reader

section Payloads

variable {h : Host} {bytes : List UInt8}

theorem oneLine_payload {c : RuntimeClient} {op : String} {params : Raw} (hsent : c.payload h op params = .ok bytes) :
    ∃ text, OneLine text ∧ bytes = encode text := by
  unfold RuntimeClient.payload at hsent
  split_ifs at hsent
  split at hsent
  · cases hsent
  · rename_i text htext
    split_ifs at hsent
    cases hsent
    exact ⟨text, oneLine_dumps htext, rfl⟩

theorem oneLine_respond {s : RuntimeServer} {line : List UInt8} (hsent : s.respond h line = some bytes) :
    ∃ text, OneLine text ∧ bytes = encode text := by
  obtain ⟨text, htext, hsent⟩ := Option.bind_eq_some_iff.mp hsent
  split_ifs at hsent
  · obtain ⟨short, hshort, rfl⟩ := Option.map_eq_some_iff.mp hsent
    exact ⟨short, oneLine_dumps hshort, rfl⟩
  · cases hsent
    exact ⟨text, oneLine_dumps htext, rfl⟩

theorem readLine_oneLine_iff {timeout : ℚ} {limit : ℕ} {text : List Char} {reads : List Read} (htext : OneLine text)
    (hreads : Delivers timeout (encode text ++ [newline]) reads) (after : List Read) :
    readLine timeout limit [] (reads ++ after) = some (encode text) ↔ (encode text).length < limit := by
  rw [readLine_of_delivers htext.encode_ne_nil htext.newline_notMem after hreads [] List.not_mem_nil rfl]
  split_ifs with hshort
  · exact iff_of_true rfl hshort
  · exact iff_of_false nofun hshort

end Payloads

/-- A request that the client sends is what the server's reader returns, for every split of its bytes, if and only
if it is shorter than the limit; and so is a response of the server for the client's reader. At the limit itself
the sender lets a payload pass that the reader refuses. -/
theorem line_read_back_iff (h : Host) (c : RuntimeClient) (s : RuntimeServer) (payload : List UInt8)
    (reads after : List Read) :
    (∀ op params, c.payload h op params = .ok payload → Delivers s.timeout (payload ++ [newline]) reads →
      (readLine s.timeout s.maxRequestBytes [] (reads ++ after) = some payload ↔ payload.length < s.maxRequestBytes)) ∧
    (∀ line, s.respond h line = some payload → Delivers c.timeout (payload ++ [newline]) reads →
      (readLine c.timeout c.maxResponseBytes [] (reads ++ after) = some payload ↔
        payload.length < c.maxResponseBytes)) := by
  constructor
  · intro op params hsent hreads
    obtain ⟨text, htext, rfl⟩ := oneLine_payload hsent
    exact readLine_oneLine_iff htext hreads after
  · intro line hsent hreads
    obtain ⟨text, htext, rfl⟩ := oneLine_respond hsent
    exact readLine_oneLine_iff htext hreads after

def plainHost : Host := ⟨fun _ => true, fun _ => none⟩

def pingPayload : List UInt8 :=
  encode "\x7b\"op\": \"ping\", \"params\": \x7b\x7d\x7d".toList

theorem ping_read_back :
    ({} : RuntimeClient).payload plainHost "ping" .none = .ok pingPayload ∧
    readLine 3 (64*1024) [] [⟨1, some (pingPayload.take 5)⟩, ⟨2, some (pingPayload.drop 5 ++ [newline])⟩] =
      some pingPayload := by
  have hsent : ({} : RuntimeClient).payload plainHost "ping" .none = .ok pingPayload := by decide +kernel
  have hsecond : Delivers 3 (pingPayload.drop 5 ++ [newline] ++ []) [⟨2, some (pingPayload.drop 5 ++ [newline])⟩] :=
    .read (by decide) (by decide +kernel) .done
  have hreads : Delivers 3 (pingPayload.take 5 ++ (pingPayload.drop 5 ++ [newline] ++ []))
      [⟨1, some (pingPayload.take 5)⟩, ⟨2, some (pingPayload.drop 5 ++ [newline])⟩] :=
    .read (by decide) (by decide +kernel) hsecond
  exact ⟨hsent, ((line_read_back_iff plainHost {} {} pingPayload _ []).1 "ping" .none hsent hreads).mpr
    (by decide +kernel)⟩

/-- A payload of exactly the length that both sides are configured with is sent and not read. -/
theorem payload_at_limit_refused :
    ({ maxRequestBytes := 28 } : RuntimeClient).payload plainHost "ping" .none = .ok pingPayload ∧
    pingPayload.length = 28 ∧ readLine 3 28 [] [⟨1, some (pingPayload ++ [newline])⟩] = none := by
  refine ⟨?_, ?_, ?_⟩
  all_goals decide +kernel

end PiBuddyCam.Ipc
