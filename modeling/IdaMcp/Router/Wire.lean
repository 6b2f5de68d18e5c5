import IdaMcp.Lib.JsonText
import IdaMcp.Lib.Serde
import IdaMcp.Lib.Text
import IdaMcp.Router.Ops

/-!
# Messages between the router and a worker (`src/src/router/protocol.rs`)

A message is the text of a JSON object and a newline. The reader takes a line,
trims it, parses it and looks for the request that waits for it. A `null` in an
optional field is read as an absent one. How a text is parsed is left open.
-/

namespace Router
open Lib (Json Field Codec Map)

structure RpcRequest where
  jsonrpc : String
  id : String
  method : String
  params : Json

structure RpcError where
  code : Int64
  message : String
  data : Option Json

/-- Models `RpcResponse` with all its fields. -/
structure WireResponse where
  jsonrpc : String
  id : String
  result : Option Json
  error : Option RpcError

namespace RpcRequest

def fields : List Field :=
    [{name := "jsonrpc"},{name := "id"},{name := "method"},{name := "params"}]

def value (r : RpcRequest) : Json :=
  .obj (Field.entries fields
    [some (.str r.jsonrpc),some (.str r.id),some (.str r.method),some r.params])

def ofRow : Lib.Row → Option RpcRequest
  | [jsonrpc,id,method,params] => do
    return ⟨← Codec.string.req jsonrpc,← Codec.string.req id,← Codec.string.req method,
      ← Json.req params⟩
  | _ => none

def ofValue (v : Json) : Option RpcRequest := (Field.row fields v).bind ofRow

theorem ofValue_value (r : RpcRequest) : ofValue r.value=some r := by
  rw [ofValue,value,Field.row_entries (by decide +kernel) rfl]
  rfl

end RpcRequest

namespace RpcError

def fields : List Field := [{name := "code"},{name := "message"},{name := "data"}]

def value (e : RpcError) : Json :=
  .obj (Field.entries fields [some (Codec.i64.enc e.code),some (.str e.message),e.data])

def ofRow : Lib.Row → Option RpcError
  | [code,message,data] => do
    return ⟨← Codec.i64.req code,← Codec.string.req message,← Json.opt data⟩
  | _ => none

def ofValue (v : Json) : Option RpcError := (Field.row fields v).bind ofRow

theorem ofValue_value (code : Int64) (message : String) :
    ofValue (value ⟨code,message,none⟩)=some ⟨code,message,none⟩ := by
  rw [ofValue,value,Field.row_entries (by decide +kernel) rfl]
  simp only [Option.bind_some,ofRow,Codec.req_enc]
  rfl

end RpcError

namespace WireResponse

def ok (id : String) (result : Json) : WireResponse := ⟨"2.0",id,some result,none⟩
def err (id : String) (code : Int64) (message : String) : WireResponse :=
  ⟨"2.0",id,none,some ⟨code,message,none⟩⟩

def fields : List Field := [{name := "jsonrpc"},{name := "id"},{name := "result"},{name := "error"}]

def value (r : WireResponse) : Json :=
  .obj (Field.entries fields
    [some (.str r.jsonrpc),some (.str r.id),r.result,r.error.map RpcError.value])

def optError : Option Json → Option (Option RpcError)
  | none | some .null => some none
  | some v => (RpcError.ofValue v).map some

def ofRow : Lib.Row → Option WireResponse
  | [jsonrpc,id,result,error] => do
    return ⟨← Codec.string.req jsonrpc,← Codec.string.req id,← Json.opt result,← optError error⟩
  | _ => none

def ofValue (v : Json) : Option WireResponse := (Field.row fields v).bind ofRow

/-- What the reader takes from a response. -/
def seen (r : WireResponse) : RpcResponse := ⟨r.id,r.result,r.error.map RpcError.message⟩

end WireResponse

/-- The message and the newline after it. -/
def asLine (v : Json) : List Char := v.print++['\n']

/-- Lines 764-790 of the reader: what a line of a worker's stdout is. -/
def workerLine (parse : List Char → Option Json) (line : List Char) : WorkerLine :=
  let trimmed:=Lib.trim line
  if trimmed=[] then .other
  else match (parse trimmed).bind WireResponse.ofValue with
    | some r => .response r.seen
    | none => .other

/-- The same on the other side, lines 864-885 of `src/src/main.rs`. -/
def requestLine (parse : List Char → Option Json) (line : List Char) : Option RpcRequest :=
  let trimmed:=Lib.trim line
  if trimmed=[] then none else (parse trimmed).bind RpcRequest.ofValue

/-- The caller that waits for the answer to a request. -/
def RouterInner.waiting (s : RouterInner) (h : DbHandle) (id : ReqId) : Option Chan :=
  (s.workers.get h).bind fun w => w.pending.get id

theorem line_of_obj (fields : List (String × Json)) (rest : List Char) :
    Lib.readLine (asLine (.obj fields)++rest)=(asLine (.obj fields),rest) := by
  have hn : '\n'∉(Json.obj fields).print :=
    fun h => absurd (Lib.print_controls _ _ h) (by decide)
  rw [asLine,List.append_assoc]
  exact Lib.readLine_append hn rest

theorem trim_of_obj (fields : List (String × Json)) :
    Lib.trim (asLine (.obj fields))=(Json.obj fields).print ∧ (Json.obj fields).print≠[] := by
  obtain ⟨cs,hcs⟩:=Lib.print_obj fields
  rw [asLine,hcs]
  exact ⟨Lib.trim_line (by decide) (by decide) cs,List.cons_ne_nil _ _⟩

section
variable {parse : List Char → Option Json}

theorem workerLine_of_obj {fields : List (String × Json)} {r : WireResponse}
    (hp : parse (Json.obj fields).print=some (.obj fields))
    (hr : WireResponse.ofValue (.obj fields)=some r) :
    workerLine parse (asLine (.obj fields))=.response r.seen := by
  obtain ⟨ht,hne⟩:=trim_of_obj fields
  rw [workerLine,ht,if_neg hne,hp,Option.bind_some,hr]

theorem requestLine_of_obj {fields : List (String × Json)} {r : RpcRequest}
    (hp : parse (Json.obj fields).print=some (.obj fields))
    (hr : RpcRequest.ofValue (.obj fields)=some r) :
    requestLine parse (asLine (.obj fields))=some r := by
  obtain ⟨ht,hne⟩:=trim_of_obj fields
  rw [requestLine,ht,if_neg hne,hp,Option.bind_some,hr]

end

/-- The message of a worker with an outcome. -/
def WireResponse.of (id : String) (code : Int64) : Answer → WireResponse
  | .ok v => .ok id v
  | .error message => .err id code message

theorem ofValue_of (id : String) (code : Int64) (outcome : Answer) :
    ∃ r,WireResponse.ofValue (WireResponse.of id code outcome).value=some r ∧ r.id=id ∧
      r.seen.answer=outcome := by
  cases outcome with
  | ok v =>
    refine ⟨⟨"2.0",id,Json.solid (some v),none⟩,?_,rfl,?_⟩
    · change (Field.row WireResponse.fields (.obj (Field.entries _ [_,_,_,_]))).bind _=_
      rw [Field.row_entries (by decide +kernel) rfl]
      cases v <;> rfl
    · cases v <;> rfl
  | error message =>
    refine ⟨⟨"2.0",id,none,some ⟨code,message,none⟩⟩,?_,rfl,rfl⟩
    change (Field.row WireResponse.fields (.obj (Field.entries _ [_,_,_,_]))).bind _=_
    rw [Field.row_entries (by decide +kernel) rfl]
    have he:=RpcError.ofValue_value code message
    change (RpcError.ofValue (RpcError.value ⟨code,message,none⟩)).map some >>= _=_
    rw [he]
    rfl

/-- An outcome reaches the caller that waits for it, and nobody else. -/
structure Resolves (s after : RouterInner) (sends : List Delivery) (h : DbHandle) (id : ReqId)
    (outcome : Answer) : Prop where
  answered : ∀ c,s.waiting h id=some c → sends=[⟨c,.line h id,outcome⟩]
  unasked : s.waiting h id=none → sends=[] ∧ after=s
  gone : after.waiting h id=none
  others : ∀ h' id',¬(h'=h ∧ id'=id) → after.waiting h' id'=s.waiting h' id'

theorem readerLine_of_none {s : RouterInner} {h : DbHandle} {r : RpcResponse}
    (hn : s.waiting h r.id=none) : s.readerLine h r=([],s) := by
  rw [RouterInner.readerLine]
  rw [RouterInner.waiting] at hn
  cases hw : s.workers.get h with
  | none => rfl
  | some w =>
    rw [hw,Option.bind_some] at hn
    dsimp only
    rw [hn]

theorem readerLine_of_some {s : RouterInner} {h : DbHandle} {r : RpcResponse} {c : Chan}
    (hc : s.waiting h r.id=some c) :
    ∃ w,s.workers.get h=some w ∧ s.readerLine h r=([⟨c,.line h r.id,r.answer⟩],{s with
      workers := s.workers.insert h {w with pending := w.pending.remove r.id}}) := by
  obtain ⟨w,hw,hp⟩:=Option.bind_eq_some_iff.mp hc
  refine ⟨w,hw,?_⟩
  rw [RouterInner.readerLine,hw]
  dsimp only
  rw [hp]

theorem readerLine_resolves (s : RouterInner) (h : DbHandle) (r : RpcResponse) :
    Resolves s (s.readerLine h r).2 (s.readerLine h r).1 h r.id r.answer := by
  cases hc : s.waiting h r.id with
  | none =>
    rw [readerLine_of_none hc]
    exact ⟨fun c h => (by rw [hc] at h; cases h),fun _ => ⟨rfl,rfl⟩,hc,fun _ _ _ => rfl⟩
  | some c =>
    obtain ⟨w,hw,he⟩:=readerLine_of_some hc
    rw [he]
    refine ⟨fun d hd => ?_,fun hn => ?_,?_,fun h' id' hne => ?_⟩
    · rw [hc] at hd
      cases hd
      rfl
    · rw [hc] at hn
      cases hn
    · simp [RouterInner.waiting]
    · simp only [RouterInner.waiting,Map.get_insert]
      split
      case isTrue hh =>
        have hid : id'≠r.id := fun h => hne ⟨hh,h⟩
        rw [hh,hw,Option.bind_some,Option.bind_some,Map.get_remove,if_neg hid]
      case isFalse => rfl

/-- What is written is read back, and a response resolves its caller with its outcome. -/
theorem wire_outcome (parse : List Char → Option Json) :
    (∀ id code outcome m,m=WireResponse.of id code outcome → parse m.value.print=some m.value →
      ∀ rest,(Lib.readLine (asLine m.value++rest)).2=rest ∧
        ∃ r,workerLine parse (Lib.readLine (asLine m.value++rest)).1=.response r ∧
          ∀ s h,Resolves s (RouterInner.readerLine h r s).2 (RouterInner.readerLine h r s).1 h id
            outcome) ∧
    ∀ m : RpcRequest,parse m.value.print=some m.value →
      ∀ rest,(Lib.readLine (asLine m.value++rest)).2=rest ∧
        requestLine parse (Lib.readLine (asLine m.value++rest)).1=some m := by
  constructor
  · rintro id code outcome m rfl hp rest
    obtain ⟨r,hr,hid,ha⟩:=ofValue_of id code outcome
    have hl : Lib.readLine (asLine (WireResponse.of id code outcome).value++rest)=
        (asLine (WireResponse.of id code outcome).value,rest) := line_of_obj _ rest
    rw [hl]
    refine ⟨rfl,r.seen,workerLine_of_obj hp hr,fun s h => ?_⟩
    have hs:=readerLine_resolves s h r.seen
    rwa [ha,show r.seen.id=id from hid] at hs
  · intro m hp rest
    have hl : Lib.readLine (asLine m.value++rest)=(asLine m.value,rest) := line_of_obj _ rest
    rw [hl]
    exact ⟨rfl,requestLine_of_obj hp (RpcRequest.ofValue_value _)⟩

/-- A result that is `null`, and whoever waits for it. -/
theorem wire_outcome_null :
    ∃ r,workerLine (fun _ => some (WireResponse.ok "req-1" .null).value)
      (Lib.readLine (asLine (WireResponse.ok "req-1" .null).value++[])).1=.response r ∧
        ∀ s h c,RouterInner.waiting s h "req-1"=some c →
          (RouterInner.readerLine h r s).1=[⟨c,.line h "req-1",.ok .null⟩] := by
  obtain ⟨-,r,hr,hs⟩:=(wire_outcome fun _ => some (WireResponse.ok "req-1" .null).value).1 "req-1" 0
    (.ok .null) _ rfl rfl []
  exact ⟨r,hr,fun s h => (hs s h).answered⟩

end Router
