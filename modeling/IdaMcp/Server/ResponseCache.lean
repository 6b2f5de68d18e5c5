import IdaMcp.Lib.Hex
import IdaMcp.Lib.Path
import IdaMcp.Lib.Utf8
import IdaMcp.Router.Jobs
import IdaMcp.Router.Wire
import IdaMcp.Rpc.Compat

/-!
# Large answers on the CLI socket

`guard_response_size` of `src/src/server/response_cache.rs` and
`handle_cli_connection` of `src/src/server/socket_listener.rs`. An answer with too
long a text goes to a file that is named after the method as the client wrote it,
and the client gets the path of the file.
-/

namespace Server
open Lib (Json Monitor)
open Lib.Path (Text Name)
open Router
open Tools (primaryNameFor TOOL_REGISTRY)
variable {s method : String} {result : Json}

def defaultMaxInlineBytes : Nat := 512
def cacheDir : Text := "/tmp/ida-cli-out".toList

/-- What the guard finds outside. A write that fails leaves no file. -/
structure Outside where
  maxInlineBytes : Option String
  hash : Text → UInt64
  /-- The size over 1024, with one digit behind the point. -/
  kilobytes : Nat → String
  writes : Text → Text → Bool

def Outside.maxBytes (o : Outside) : Nat :=
  ((o.maxInlineBytes.bind fun v => Lib.fromStrRadix 10 v.toList).map UInt64.toNat).getD
    defaultMaxInlineBytes

structure CachedFile where
  path : Text
  content : Text
  deriving DecidableEq

def byteLength (text : Text) : Nat := (String.ofList text).utf8ByteSize

def itemKeys : List String :=
  ["strings","functions","exports","imports","segments","xrefs","results","items","callgraph"]

def countItems (v : Json) : Option Nat :=
  ((itemKeys.findSome? fun key => (v.get? key).bind Json.asArray).or v.asArray).map List.length

/-- Models `{:016x}`. -/
def hashText (n : UInt64) : Text :=
  let digits:=Nat.toDigits 16 n.toNat
  List.replicate (16-digits.length) '0'++digits

def filename (method : String) (hash : UInt64) : Text :=
  method.toList++ '-'::hashText hash++".json".toList

def summary (kilobytes : String) (itemCount : Option Nat) (path : String) : String :=
  let items:=match itemCount with
    | some n => s!", {n} items"
    | none => ""
  s!"Response too large for inline display ({kilobytes}KB{items}). Full output saved to: {path}\n"++
    s!"Use `cat {path}` or Read tool to access the data."

/-- The reply that stands for a file. -/
def cachedReply (o : Outside) (file : CachedFile) (result : Json) : Json :=
  let size:=byteLength file.content
  let path:=String.ofList file.path
  .ofFields [("cached",.bool true),("file",.str path),("size_bytes",.ofNat size),
    ("item_count",(countItems result).elim .null .ofNat),
    ("summary",.str (summary (o.kilobytes size) (countItems result) path))]

/-- Lines 22-73. -/
def guardResponseSize (o : Outside) (method : String) (result : Json) : Json × Option CachedFile :=
  let text:=result.print
  if byteLength text ≤ o.maxBytes then (result,none)
  else
    let file : CachedFile := ⟨Lib.Path.push cacheDir (filename method (o.hash text)),text⟩
    if o.writes file.path file.content then (cachedReply o file result,some file)
    else (result,none)

structure Handled where
  reply : Option WireResponse
  written : Option CachedFile

/-- Lines 55-91, with the dispatch of a request left open. -/
def handleCliConnection (o : Outside) (parse : Text → Option Json) (parseError : Text → String)
    (dispatch : RpcRequest → WireResponse) (line : Text) : Handled :=
  let trimmed:=Lib.trim line
  if trimmed=[] then ⟨none,none⟩
  else match (parse trimmed).bind RpcRequest.ofValue with
    | none => ⟨some (.err "null" (-32700) ("Parse error: "++parseError trimmed)),none⟩
    | some req =>
      let response:=dispatch req
      match response.result with
      | none => ⟨some response,none⟩
      | some result =>
        let guarded:=guardResponseSize o req.method result
        ⟨some {response with result:=some guarded.1},guarded.2⟩

/-- The methods that the router answers by itself. -/
def cliCommands : List String :=
  ["close","shutdown","status","list_tasks","task_status","enqueue","cancel_task","prewarm"]

/-- The two kinds of worker behind the router, each with the dispatcher it has. -/
inductive Backend where
  | native (host : Rpc.Host) (worker : Rpc.Worker)
  | compat (perform : Rpc.CompatOp → Rpc.Result Json)

def Backend.answer (method : String) (params : Json) : Backend → Rpc.Result Json
  | .native host worker => (Rpc.dispatchRpc host method params).bind fun job => job.run worker
  | .compat perform => (Rpc.dispatchRequest method params).bind perform

/-- The responses of `dispatch_cli_request`. A method that is no command goes to a
worker under its primary name. -/
inductive Answers (req : RpcRequest) : WireResponse → Prop where
  | failed (code : Int64) (message : String) : Answers req (.err req.id code message)
  | command (result : Json) (h : primaryNameFor req.method∈cliCommands) :
      Answers req (.ok req.id result)
  | routed (backend : Backend) (result : Json)
      (h : backend.answer (primaryNameFor req.method) req.params=.ok result) :
      Answers req (.ok req.id result)

/-- The last answer a task received on a channel, what it told its client, and whether it found
no worker for its path. -/
structure Heard where
  received : Option Json
  replied : Option (Except (Int × String) Json)
  missed : Prop

def hear (m : Heard) : Lib.Event Op.Res → Heard
  | ⟨.receive _,.answer (.ok v)⟩ => {m with received:=some v}
  | ⟨.receive _,_⟩ => {m with received:=none}
  | ⟨.world (.respond (.rpc r)),_⟩ => {m with replied:=some r}
  | ⟨.inner (.ensureLookup _),none⟩ => {m with missed:=True}
  | _ => m

def heardMonitor : Monitor Op.Res Heard where
  next := hear
  allowed _ _ := True
  good _ _ := True

def heardOf (t : Lib.Task Op.Res Job) : Heard := heardMonitor.track (fun _ => ⟨none,none,False⟩) t

def wireResponse (id : String) : Except (Int × String) Json → WireResponse
  | .ok v => .ok id v
  | .error (code,message) => .err id (Int64.ofInt code) message

/-- The client was told something. A result is the last one received, so that the response is
one of the answers to the request if what the workers send is. -/
def Heard.Passed (req : RpcRequest) (m : Heard) : Prop :=
  ∃ r,m.replied=some r ∧ (∀ v,r=.ok v → m.received=some v) ∧
    ((∀ v,m.received=some v → ∃ backend : Backend,
      backend.answer (primaryNameFor req.method) req.params=.ok v) →
        Answers req (wireResponse req.id r))

theorem Heard.passed {req : RpcRequest} {m : Heard} {r : Except (Int × String) Json}
    (hr : m.replied=some r) (hv : ∀ v,r=.ok v → m.received=some v) : m.Passed req := by
  refine ⟨r,hr,hv,fun hw => ?_⟩
  rcases r with ⟨code,message⟩ | v
  · exact .failed _ _
  · obtain ⟨backend,h⟩:=hw v (hv v rfl)
    exact .routed backend v h

theorem missed_stays (m : Heard) (e : Lib.Event Op.Res) (h : m.missed) : (hear m e).missed := by
  unfold hear
  split <;> first | exact h | trivial

theorem ensure_ends (path : Path) (tenantId : Option String) (m : Heard) :
    heardMonitor.ends Heard.missed (ensureWorkerWithRef path tenantId) (fun _ _ => True) m := by
  -- the path is resolved and made canonical twice before the lookup
  refine fun _ _ _ _ _ _ r _ => ?_
  cases r with
  | none => exact heardMonitor.ends_any missed_stays _ trivial
  | some handle => exact fun _ _ _ => trivial

theorem routeRequest_ends (handle : Option DbHandle) (method : String) (params : Json)
    (m : Heard) : heardMonitor.ends Heard.missed (routeRequest handle method params)
      (fun r m => ∀ v,r=.ok v → m.received=some v) m := by
  refine fun _ r _ => ?_
  rcases r with e | target
  · exact fun v hv => by cases hv
  refine fun _ id _ chan _ r _ => ?_
  rcases r with e | _
  · exact fun v hv => by cases hv
  intro r
  rcases r with (e | v) | _ | _
  all_goals intro w hw
  all_goals cases hw
  rfl

theorem dispatchCliRequest_ends {req : RpcRequest} (h : primaryNameFor req.method∉cliCommands)
    (m : Heard) : heardMonitor.ends Heard.missed (dispatchCliRequest req.method req.params)
      (fun _ m => m.Passed req) m := by
  simp only [cliCommands,List.mem_cons,List.not_mem_nil,or_false,not_or] at h
  obtain ⟨h1,h2,h3,h4,h5,h6,h7,h8⟩:=h
  simp only [dispatchCliRequest,h1,h2,h3,h4,h5,h6,h7,h8,if_false]
  unfold cliRequest
  split
  · exact fun _ => Heard.passed rfl fun v hv => by cases hv
  refine heardMonitor.ends_seq (ensure_ends _ _ m) fun r m _ => ?_
  rcases r with e | ⟨handle,token⟩
  · exact fun _ => Heard.passed rfl fun v hv => by cases hv
  refine heardMonitor.ends_seq (routeRequest_ends _ _ _ m) fun r m hm => ?_
  refine fun _ _ => Heard.passed rfl fun v hv => ?_
  cases r with
  | error e => cases hv
  | ok _ =>
    cases hv
    exact hm v rfl

/-- Wherever it stands, the task that serves a routed request ends once its operations are
answered, and has then told its client what the worker answered. Where no worker has the path, it
may also halt in the loop that makes room for one. -/
theorem routed_told (cfg : RouterConfig) {C : Service → Router.Move → Prop} {p : Service}
    (hr : (service cfg).Reach C (.new cfg) p) {t : Lib.Task Op.Res Job} (ht : t∈p.tasks)
    {req : RpcRequest} (hc : t.call=.cli req.method req.params)
    (h : primaryNameFor req.method∉cliCommands) :
    heardMonitor.ends Heard.missed t.prog (fun _ m => m.Passed req) (heardOf t) :=
  Lib.reach_ends (service cfg) heardMonitor _ C (dispatchCliRequest_ends h _) hr t ht hc

/-- It asks for the functions of `/a`. -/
def asksList : Job → Bool
  | .cli method params => method="list_functions" && fieldStr params "path"=some "/a"
  | _ => false

/-- The worker of the path answers. -/
theorem routed_told_answered :
    ∃ p,(service sampleConfig).Reach (fun _ _ => True) (.new sampleConfig) p ∧
      ∃ t∈p.tasks,asksList t.call=true ∧ t.prog.finished=true ∧
        (heardOf t).received.bind Json.asBool=some true ∧
        ∃ params,(heardOf t).Passed ⟨"2.0","7","list_functions",params⟩ := by
  obtain ⟨p,hp,ha⟩:=(service sampleConfig).play_free (.new sampleConfig)
    (.start (.openIdb (openRequest "/a"))::steps 0 (idles 2++spawnInputs "/a" 1)++
      .start (.cli "list_functions" (.ofFields [("path",.str "/a")]))::steps 2 ({}::{path := "/a"}::
        {canonical := some "/a"}::{path := "/a"}::{canonical := some "/a"}::idles 4++
        {now := 3}::idles 11)++
      steps 1 ({rounds := 1}::{line := .response ⟨"r2",some (.bool true),none⟩}::idles 3)++
      steps 2 (idles 3))
    (fun p => p.tasks.any fun t => asksList t.call && t.prog.finished &&
      (heardOf t).received.bind Json.asBool=some true) (by decide +kernel)
  obtain ⟨t,ht,ha⟩:=List.any_eq_true.mp ha
  simp only [Bool.and_eq_true,decide_eq_true_eq] at ha
  obtain ⟨⟨hc,hf⟩,hv⟩:=ha
  refine ⟨p,hp,t,ht,hc,hf,hv,?_⟩
  cases hj : t.call with
  | cli method params =>
    rw [hj] at hc
    obtain rfl:=of_decide_eq_true (Bool.and_eq_true_iff.mp hc).1
    have hroute : primaryNameFor "list_functions"∉cliCommands := by decide +kernel
    have hends:=@routed_told sampleConfig _ p hp t ht ⟨"2.0","7",_,params⟩ hj hroute
    cases hprog : t.prog with
    | ret a =>
      rw [hprog] at hends
      exact ⟨params,hends⟩
    | halt | call => rw [hprog] at hf; cases hf
  | _ => rw [hj] at hc; cases hc

def knownNames : List String :=
  cliCommands++Rpc.Method.all.map Rpc.Method.name++TOOL_REGISTRY.flatMap fun t => t.name::t.aliases

theorem knownNames_plain (h : s∈knownNames) : '/' ∉ s.toList := by
  -- the bytes of the names are quicker to look through than their characters
  have hall : knownNames.all fun s => !s.toByteArray.data.toList.contains 47 := by decide +kernel
  have hno:=List.all_eq_true.mp hall s h
  intro hs
  have hb : 47∈s.toByteArray.data.toList := Lib.byte_mem (c := '/') (by decide) hs
  rw [List.contains_iff_mem.mpr hb] at hno
  exact Bool.noConfusion hno

theorem known_of_primary (h : primaryNameFor s∈knownNames) : s∈knownNames := by
  unfold primaryNameFor at h
  split at h
  case h_1 tool ht =>
    have hm:=List.mem_of_find?_eq_some ht
    have hs:=List.find?_some ht
    simp only [Bool.or_eq_true,decide_eq_true_eq,List.contains_iff_mem] at hs
    refine List.mem_append_right _ (List.mem_flatMap.mpr ⟨tool,hm,?_⟩)
    rcases hs with rfl | hs
    · exact List.mem_cons_self
    · exact List.mem_cons_of_mem _ hs
  case h_2 => exact h

theorem known_of_ofName {m : Rpc.Method} (h : Rpc.Method.ofName s=some m) : s∈knownNames := by
  rw [← Rpc.Method.ofName_eq_some_iff.mp h]
  exact List.mem_append_left _ (List.mem_append_right _ (List.mem_map_of_mem m.mem_all))

theorem known_of_answer {backend : Backend} {params : Json}
    (h : backend.answer method params=.ok result) : method∈knownNames := by
  have hname : ∃ m,Rpc.Method.ofName (primaryNameFor method)=some m := by
    refine Option.ne_none_iff_exists'.mp fun hn => ?_
    cases backend with
    | native host worker =>
      simp only [Backend.answer,Rpc.dispatchRpc,hn] at h
      cases h
    | compat perform =>
      simp only [Backend.answer,Rpc.dispatchRequest,hn] at h
      cases h
  obtain ⟨m,hm⟩:=hname
  exact known_of_primary (known_of_ofName hm)

theorem known_of_answers {req : RpcRequest} {response : WireResponse} (h : Answers req response)
    (hr : response.result=some result) : req.method∈knownNames := by
  cases h with
  | failed code message => cases hr
  | command v hc => exact known_of_primary (List.mem_append_left _ (List.mem_append_left _ hc))
  | routed backend v hb => exact known_of_primary (known_of_answer hb)

theorem hashText_plain (n : UInt64) : '/' ∉ hashText n := by
  intro h
  rcases List.mem_append.mp h with h | h
  · exact absurd (List.eq_of_mem_replicate h) (by decide)
  · exact Lib.not_mem_toDigits (by decide) _ h

theorem dash_mem_filename (method : String) (hash : UInt64) : '-'∈filename method hash :=
  List.mem_append_left _ (List.mem_append_right _ List.mem_cons_self)

def cacheName (method : String) (hash : UInt64) (h : '/' ∉ method.toList) : Name where
  chars := filename method hash
  nonempty := List.ne_nil_of_mem (dash_mem_filename method hash)
  plain hm := by
    rcases List.mem_append.mp hm with hm | hm
    · rcases List.mem_append.mp hm with hm | hm
      · exact h hm
      · exact (List.mem_cons.mp hm).elim (by decide) (hashText_plain hash)
    · exact absurd hm (by decide)
  notHere he := absurd (he ▸ dash_mem_filename method hash) (by decide)
  notUp he := absurd (he ▸ dash_mem_filename method hash) (by decide)

theorem guardResponseSize_file {o : Outside} {file : CachedFile}
    (h : (guardResponseSize o method result).2=some file) :
    file=⟨Lib.Path.push cacheDir (filename method (o.hash result.print)),result.print⟩ ∧
      (guardResponseSize o method result).1=cachedReply o file result := by
  simp only [guardResponseSize] at h ⊢
  split at h
  · cases h
  · next hs =>
    split at h
    · next hw =>
      cases h
      rw [if_neg hs,if_pos hw]
      exact ⟨rfl,rfl⟩
    · cases h

theorem cachedReply_fields (o : Outside) (file : CachedFile) (result : Json) :
    (cachedReply o file result).get? "file"=some (.str (String.ofList file.path)) ∧
      (cachedReply o file result).get? "size_bytes"=some (.ofNat (byteLength file.content)) :=
  ⟨Lib.Json.get?_ofFields _ _,Lib.Json.get?_ofFields _ _⟩

theorem cached_in_directory {o : Outside} {file : CachedFile} (hm : method∈knownNames)
    (h : (guardResponseSize o method result).2=some file) :
    ∃ name,file.path=Lib.Path.join cacheDir name := by
  rw [(guardResponseSize_file h).1]
  exact ⟨_,Lib.Path.push_name (by decide) (by decide)
    (cacheName method (o.hash result.print) (knownNames_plain hm))⟩

/-- A file that a connection leaves stands in the cache directory itself, whatever the
line says, and holds the text of the result the client is told about. -/
theorem cached_file_named (o : Outside) (parse : Text → Option Json) (parseError : Text → String)
    (dispatch : RpcRequest → WireResponse) (hd : ∀ req,Answers req (dispatch req)) (line : Text)
    (file : CachedFile)
    (h : (handleCliConnection o parse parseError dispatch line).written=some file) :
    (∃ name,file.path=Lib.Path.join cacheDir name) ∧
      ∃ req result told,(parse (Lib.trim line)).bind RpcRequest.ofValue=some req ∧
        (dispatch req).result=some result ∧ file.content=result.print ∧
        (handleCliConnection o parse parseError dispatch line).reply=
          some {dispatch req with result:=some told} ∧
        told.get? "file"=some (.str (String.ofList file.path)) ∧
        told.get? "size_bytes"=some (.ofNat (byteLength file.content)) := by
  unfold handleCliConnection at h ⊢
  dsimp only at h ⊢
  split at h
  · cases h
  next ht =>
  rw [if_neg ht]
  cases hp : (parse (Lib.trim line)).bind RpcRequest.ofValue with
  | none =>
    rw [hp] at h
    cases h
  | some req =>
    rw [hp] at h
    cases hr : (dispatch req).result with
    | none =>
      simp only [hr] at h
      cases h
    | some result =>
      simp only [hr] at h ⊢
      obtain ⟨hfile,hreply⟩:=guardResponseSize_file h
      obtain ⟨hpath,hsize⟩:=cachedReply_fields o file result
      refine ⟨cached_in_directory (known_of_answers (hd req) hr) h,req,result,_,rfl,hr,?_,rfl,?_⟩
      · rw [hfile]
      · rw [hreply]
        exact ⟨hpath,hsize⟩

/-- A service without workers, and a limit of three bytes. -/
def commandsOnly (req : RpcRequest) : WireResponse :=
  if primaryNameFor req.method∈cliCommands then .ok req.id (.bool true)
  else .err req.id (-32000) "no worker"

theorem commandsOnly_answers (req : RpcRequest) : Answers req (commandsOnly req) := by
  unfold commandsOnly
  split
  case isTrue h => exact .command _ h
  case isFalse => exact .failed _ _

def threeBytes : Outside := ⟨some "3",fun _ => 0,fun _ => "0.0",fun _ _ => true⟩
def statusRequest : RpcRequest := ⟨"2.0","7","status",.null⟩

theorem handle_statusRequest (line : Text) (hl : Lib.trim line≠[]) :
    (handleCliConnection threeBytes (fun _ => some statusRequest.value) (fun _ => "") commandsOnly
      line).written=
    some ⟨"/tmp/ida-cli-out/status-0000000000000000.json".toList,"true".toList⟩ := by
  have hc : commandsOnly statusRequest=.ok "7" (.bool true) := if_pos (by decide +kernel)
  have hg : (guardResponseSize threeBytes "status" (.bool true)).2=
      some ⟨"/tmp/ida-cli-out/status-0000000000000000.json".toList,"true".toList⟩ :=
        by decide +kernel
  simp only [handleCliConnection,if_neg hl,Option.bind_some,RpcRequest.ofValue_value,hc]
  exact hg

theorem cached_file_named_status :
    ∃ name,"/tmp/ida-cli-out/status-0000000000000000.json".toList=Lib.Path.join cacheDir name :=
  (cached_file_named threeBytes (fun _ => some statusRequest.value) (fun _ => "") commandsOnly
    commandsOnly_answers ['x'] _ (handle_statusRequest ['x'] (by decide))).1

end Server
