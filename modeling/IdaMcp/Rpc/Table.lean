import IdaMcp.Rpc.Dispatch

/-!
# Scanning a table (`scan_memory_table`)

The worker's arm and the server's own tool read the entries of a table one by
one, at addresses they compute with machine arithmetic. What is asked for is
arithmetic without a limit.
-/

namespace Rpc
open Lib

/-- Both front ends: a stride of at least one, at most 256 entries. -/
def scanMemoryTable (base stride count : UInt64) : Job :=
  scanTable base (max stride 1) (min count 256).toNat

/-- Lines 1739-1803 of `server/mod.rs`, without a router. -/
def Server.scanMemoryTable (fromStr : String → Option Json) (req : TableScanRequest) : Result Job :=
  let stride:=max (req.stride.getD 8) 1
  let count:=min (req.count.getD 16) 256
  match valueToSingleAddress fromStr req.baseAddress with
  | .ok base => .ok (scanTable base stride count.toNat)
  | .error _ =>
    .error (.invalidParams "base_address is required and must be a valid address")

/-- Entry `i` as it should be shown. -/
def exactEntry (base stride i : Nat) (answer : Answer) : Json :=
  let label:=Json.str ("0x"++String.ofList (Nat.toDigits 16 (base+i*stride)))
  match answer with
  | .ok v => .ofFields [("index",.ofNat i),("address",label),("bytes",(v.get? "bytes").getD .null)]
  | .error e => .ofFields [("index",.ofNat i),("address",label),("error",.str e.text)]

/-- A scan of a worker without an overflow. -/
structure ScanExact (base stride count : Nat) (job : Job) (w : Worker) : Prop where
  fits : ∀ i < (job.answers w).length,i*stride < UInt64.size ∧ base+i*stride < UInt64.size
  reads : job.performed w=(List.range (job.answers w).length).map fun i =>
    .getBytes (some (UInt64.ofNat (base+i*stride))) none 0 (UInt64.ofNat stride)
  labels : job.run w=.ok (.ofFields
    [("base_address",.str ("0x"++String.ofList (Nat.toDigits 16 base))),("stride",.ofNat stride),
      ("count",.ofNat (job.answers w).length),
      ("entries",.arr ((job.answers w).zipIdx.map fun x => exactEntry base stride x.2 x.1))])
  /-- An entry that cannot be read is the last. -/
  stops : ∀ i a,(job.answers w)[i]?=some a → Answer.failed a=true → i+1=(job.answers w).length
  /-- And there is no other reason to stop before the end. -/
  ends : (job.answers w).length=count ∨
    (∃ a,(job.answers w).getLast?=some a ∧ Answer.failed a=true) ∨
    UInt64.size ≤ base+(job.answers w).length*stride

namespace Plan

theorem failed_last {w : Worker} {past ops : List Op} {i : Nat} {a : Answer}
    (h : (answersAfter true w past ops)[i]?=some a) (hf : Answer.failed a=true) :
    i+1=(answersAfter true w past ops).length := by
  induction ops generalizing past i with
  | nil => cases h
  | cons op ops ih =>
    rw [answersAfter] at h ⊢
    by_cases hw : Answer.failed (w past op)=true
    · rw [if_pos (by simpa using hw)] at h ⊢
      cases i with
      | zero => rfl
      | succ i => cases h
    · rw [if_neg (by simpa using hw)] at h ⊢
      cases i with
      | zero =>
        cases h
        exact absurd hf hw
      | succ i => exact congrArg (·+1) (ih h)

theorem complete_or_failed (w : Worker) (past ops : List Op) :
    (answersAfter true w past ops).length=ops.length ∨
      ∃ a,(answersAfter true w past ops).getLast?=some a ∧ Answer.failed a=true := by
  induction ops generalizing past with
  | nil => exact .inl rfl
  | cons op ops ih =>
    rw [answersAfter]
    by_cases hw : Answer.failed (w past op)=true
    · rw [if_pos (by simpa using hw)]
      exact .inr ⟨_,rfl,hw⟩
    · rw [if_neg (by simpa using hw)]
      rcases ih (past++[op]) with h | ⟨a,ha,hf⟩
      · exact .inl (congrArg (·+1) h)
      · refine .inr ⟨a,?_,hf⟩
        rw [List.getLast?_cons,ha]
        rfl

end Plan

theorem entryAddress_eq (base stride : UInt64) (i : Nat) :
    entryAddress base stride i=UInt64.ofNat (base.toNat+i*stride.toNat) := by
  rw [UInt64.ofNat_add,UInt64.ofNat_mul,UInt64.ofNat_toNat,UInt64.ofNat_toNat,entryAddress]

theorem scanEntry_exact {base stride : UInt64} {i : Nat}
    (h : base.toNat+i*stride.toNat < UInt64.size) (answer : Answer) :
    scanEntry base stride i answer=exactEntry base.toNat stride.toNat i answer := by
  have hl : hexText (entryAddress base stride i)=
      "0x"++String.ofList (Nat.toDigits 16 (base.toNat+i*stride.toNat)) := by
    rw [hexText,entryAddress_eq,UInt64.toNat_ofNat_of_lt' h]
  cases answer <;> simp only [scanEntry,exactEntry,hl]

theorem scanExact_of_fits {base stride : UInt64} {count : Nat} {w : Worker}
    (hfits : ∀ i < ((scanTable base stride count).answers w).length,
      base.toNat+i*stride.toNat < UInt64.size) :
    ScanExact base.toNat stride.toNat count (scanTable base stride count) w := by
  have hle : ((scanTable base stride count).answers w).length ≤ count := by
    have hl:=Plan.length_answersAfter_le true w [] (scanTable base stride count).ops
    rwa [show (scanTable base stride count).ops.length=count by simp [scanTable]] at hl
  refine ⟨fun i hi => ⟨by have:=hfits i hi; omega,hfits i hi⟩,?_,?_,?_,?_⟩
  · rw [Plan.performed,show (scanTable base stride count).ops=(List.range count).map fun i =>
      .getBytes (some (entryAddress base stride i)) none 0 stride from rfl,← List.map_take,
      List.take_range,Nat.min_eq_left hle]
    simp only [entryAddress_eq,UInt64.ofNat_toNat]
  · have hentries : ((scanTable base stride count).answers w).zipIdx.map
        (fun x => scanEntry base stride x.2 x.1)=
        ((scanTable base stride count).answers w).zipIdx.map
          fun x => exactEntry base.toNat stride.toNat x.2 x.1 := by
      apply List.map_congr_left
      intro x hx
      exact scanEntry_exact (hfits _ (List.mem_zipIdx' hx).1) _
    change Except.ok (Json.ofFields [("base_address",.str (hexText base)),
      ("stride",.ofNat stride.toNat),("count",.ofNat (List.map _ (List.zipIdx _)).length),
      ("entries",.arr (List.map _ (List.zipIdx _)))])=_
    rw [hentries,List.length_map,List.length_zipIdx]
    rfl
  · exact fun i a ha hf => Plan.failed_last ha hf
  · rcases Plan.complete_or_failed w [] (scanTable base stride count).ops with h | h
    · refine .inl (h.trans ?_)
      simp [scanTable]
    · exact .inr (.inl h)

/-- Every entry of the table has an address. -/
def TableFits (base stride count : Nat) : Prop := ∀ i < count,base+i*stride < UInt64.size

theorem scanExact_iff (base stride : UInt64) (count : Nat) :
    (∀ w,ScanExact base.toNat stride.toNat count (scanTable base stride count) w) ↔
      TableFits base.toNat stride.toNat count := by
  constructor
  · intro h i hi
    -- a worker that reads everything gets to the end
    have hl : ((scanTable base stride count).answers Plan.willing).length=count := by
      rw [show ((scanTable base stride count).answers Plan.willing).length=
        (scanTable base stride count).ops.length from
          Plan.length_answersAfter (.inr fun _ _ => rfl)]
      simp [scanTable]
    exact ((h Plan.willing).fits i (by rw [hl]; exact hi)).2
  · intro h w
    refine scanExact_of_fits fun i hi => h i (Nat.lt_of_lt_of_le hi ?_)
    have hle:=Plan.length_answersAfter_le true w [] (scanTable base stride count).ops
    rwa [show (scanTable base stride count).ops.length=count by simp [scanTable]] at hle

def tableRequest (base stride count : UInt64) : TableScanRequest :=
  ⟨none,.ofNat base.toNat,some stride,some count⟩

def tableParams (base stride count : UInt64) : Json :=
  .ofFields [("base_address",.ofNat base.toNat),("stride",.ofNat stride.toNat),
    ("count",.ofNat count.toNat)]

theorem dispatch_table (host : Host) (base stride count : UInt64) :
    dispatchRpc host "scan_memory_table" (tableParams base stride count)=
      .ok (scanMemoryTable base stride count) := by
  have hd : TableScanRequest.schema.decode (tableParams base stride count)=
      some (tableRequest base stride count) := by
    have hw : tableParams base stride count=Field.write TableScanRequest.schema.fields
        [none,some (.ofNat base.toNat),some (Codec.u64.enc stride),some (Codec.u64.enc count)] :=
          rfl
    rw [hw,Schema.decode_write _ rfl]
    change (do return ⟨none,.ofNat base.toNat,← Codec.u64.opt (some (Codec.u64.enc stride)),
      ← Codec.u64.opt (some (Codec.u64.enc count))⟩ : Option TableScanRequest)=_
    rw [Codec.opt_enc,Codec.opt_enc]
    rfl
  have ha : parseAddressValue (.ofNat base.toNat)=some base := by
    have hu : (Json.ofNat base.toNat).asU64=some base.toNat := if_pos base.toNat_lt
    rw [parseAddressValue,hu]
    exact congrArg some UInt64.ofNat_toNat
  rw [show "scan_memory_table"=Method.scanMemoryTable.name from rfl,dispatchRpc_name]
  change (do
    let req ← parseParams TableScanRequest.schema (tableParams base stride count)
    let base ← required req.baseAddress "base_address"
    return scanTable base (max (req.stride.getD 8) 1) (min (req.count.getD 16) 256).toNat)=_
  rw [parseParams_eq_ok.mpr hd]
  change (do
    let base ← required (.ofNat base.toNat) "base_address"
    return scanTable base (max stride 1) (min count 256).toNat)=_
  rw [required_eq_ok.mpr ha]
  rfl

theorem server_table (fromStr : String → Option Json) (base stride count : UInt64) :
    Server.scanMemoryTable fromStr (tableRequest base stride count)=
      .ok (scanMemoryTable base stride count) := by
  have hv : valueToSingleAddress fromStr (tableRequest base stride count).baseAddress=.ok base := by
    change (valueToAddresses fromStr (.ofNat base.toNat) >>= _)=_
    rw [valueToAddresses_ofNat]
    rfl
  rw [Server.scanMemoryTable,hv]
  rfl

/-- The scan of a request, in the worker and in the server, for whatever the worker answers. -/
def TableExact (host : Host) (base stride count : UInt64) : Prop :=
  ∀ w job,(dispatchRpc host "scan_memory_table" (tableParams base stride count)=.ok job ∨
      Server.scanMemoryTable host.fromStr (tableRequest base stride count)=.ok job) →
    ScanExact base.toNat (max stride 1).toNat (min count 256).toNat job w

/-- No address is checked, so the last entry has to fit. -/
theorem tableExact_iff (host : Host) (base stride count : UInt64) :
    TableExact host base stride count ↔
      TableFits base.toNat (max stride 1).toNat (min count 256).toNat := by
  rw [← scanExact_iff,TableExact,dispatch_table,server_table]
  constructor
  · exact fun h w => h w _ (.inl rfl)
  · intro h w job hj
    rcases hj with hj | hj
    · cases hj
      exact h w
    · cases hj
      exact h w

/-- The second entry of a table at the last address is read at address 0. -/
theorem table_wraps : ¬TableExact .bare (UInt64.ofNat (UInt64.size-1)) 1 2 := by
  rw [TableExact,dispatch_table,server_table]
  intro h
  have hx:=((scanExact_iff _ _ _).mp fun w => h w _ (.inl rfl)) 1 (by decide)
  revert hx
  decide

end Rpc
