import IdaMcp.Ida.Database
import IdaMcp.Lib.Capped

/-!
# Searching for bytes (`src/ida/handlers/search.rs`)

`handle_find_bytes` reads a segment in chunks of a mebibyte, each with as much
of the next one as a match may need, and looks for the pattern at every place
of a chunk.
-/

namespace Ida
open Lib Rpc

/-- A byte, or none for a wildcard. -/
abbrev Pattern := List (Option UInt8)

/-- Models `str::trim_start_matches("0x")`. -/
def withoutMarks : List Char → List Char
  | '0':: 'x'::cs => withoutMarks cs
  | cs => cs

/-- Models `u8::from_str_radix(.., 16)`. -/
def byteText (cs : List Char) : Option UInt8 :=
  match fromStrRadix 16 cs with
  | some a => if a.toNat < 256 then some (UInt8.ofNat a.toNat) else none
  | none => none

def parseTokens : List (List Char) → Result Pattern
  | [] => .ok []
  | tok::toks =>
    if tok=['?'] || tok=['?','?'] then (parseTokens toks).map (none::·)
    else match byteText (withoutMarks tok) with
      | some b => (parseTokens toks).map (some b::·)
      | none =>
        let text:=String.ofList tok
        .error (.idaError s!"invalid byte: {text}")

def pairs {α : Type} : List α → List (List α)
  | [] => []
  | [a] => [[a]]
  | a::b::cs => [a,b]::pairs cs

/-- Lines 93-127 of `handlers/mod.rs`; `lossy` is `String::from_utf8_lossy`. -/
def parsePattern (lossy : List UInt8 → List Char) (pattern : String) : Result Pattern :=
  let trimmed:=trim pattern.toList
  if trimmed.isEmpty then .error (.idaError "empty pattern")
  else if trimmed.contains ' ' then
    parseTokens ((trimmed.splitOnP isBlank).filter (!·.isEmpty))
  else
    let bytes:=trimmed.flatMap String.utf8EncodeChar
    if bytes.length%2≠0 then
      let text:=String.ofList trimmed
      .error (.idaError s!"invalid hex pattern length: {text}")
    else parseTokens ((pairs bytes).map lossy)

/-- Whether the pattern is at the front of the bytes, lines 75-83 of `search.rs`. -/
def matchesHere : Pattern → List UInt8 → Bool
  | [],_ => true
  | _::_,[] => false
  | p::ps,b::bs => (p.isNone || p=some b) && matchesHere ps bs

def chunkSize : Nat := 1024*1024

/-- Lines 71-87: the places of a chunk that begins at an address. -/
def searchChunk (pat : Pattern) (bytes : List UInt8) (addr : UInt64) (maxResults : Nat)
    (found : List UInt64) : List UInt64 :=
  pushEach maxResults
    (fun i => if matchesHere pat (bytes.drop i) then some (addr+UInt64.ofNat i) else none)
    (List.range (bytes.length-pat.length+1)) found

/-- Lines 63-93. -/
def searchSegment (db : Idb) (pat : Pattern) (maxResults : Nat) (seg : Segment) (offset : Nat)
    (found : List UInt64) : List UInt64 :=
  if offset < seg.len ∧ found.length < maxResults then
    let remaining:=seg.len-offset
    let readLen:=min remaining (chunkSize+(pat.length-1))
    let bytes:=db.getBytes (seg.start+UInt64.ofNat offset) readLen
    if bytes.length < pat.length then found
    else
      let found:=searchChunk pat bytes (seg.start+UInt64.ofNat offset) maxResults found
      if remaining ≤ chunkSize then found
      else searchSegment db pat maxResults seg (offset+chunkSize) found
  else found
  termination_by seg.len-offset
  decreasing_by
    have hc : 0 < chunkSize := by decide
    omega

/-- Lines 58-98. -/
def searchSegments (db : Idb) (pat : Pattern) (maxResults : Nat) : List Segment → List UInt64 →
    List UInt64
  | [],found => found
  | seg::segs,found =>
    let found:=searchSegment db pat maxResults seg 0 found
    if maxResults ≤ found.length then found else searchSegments db pat maxResults segs found

def foundReply (pattern : String) (found : List UInt64) : Json :=
  .ofFields [("pattern",.str pattern),("matches",.arr (found.map fun a => .str (hexText a))),
    ("count",.ofNat found.length)]

/-- Lines 45-107. -/
def handleFindBytes (lossy : List UInt8 → List Char) (idb : Option Idb) (pattern : String)
    (maxResults : UInt64) : Result Json := do
  let db ← openDb idb
  let pat ← parsePattern lossy pattern
  if pat.isEmpty then .error (.idaError "empty pattern")
  else return foundReply pattern (searchSegments db pat maxResults.toNat db.segments [])

/-- Every read returns the bytes of the memory, all that were asked for. -/
def Idb.ReadsAll (db : Idb) (memory : UInt64 → UInt8) : Prop :=
  ∀ addr size,db.getBytes addr size=(List.range size).map fun i => memory (addr+UInt64.ofNat i)

/-- Whether the pattern is in memory at an address. -/
def matchesAt (memory : UInt64 → UInt8) : Pattern → UInt64 → Bool
  | [],_ => true
  | p::ps,addr => (p.isNone || p=some (memory addr)) && matchesAt memory ps (addr+1)

/-- The addresses of a segment at which a whole pattern lies inside of it. -/
def Segment.starts (seg : Segment) (width : Nat) : List UInt64 :=
  (List.range (seg.len+1-width)).map fun i => seg.start+UInt64.ofNat i

/-- All matches, segment by segment and in the order of the addresses. -/
def allMatches (memory : UInt64 → UInt8) (pat : Pattern) (segs : List Segment) : List UInt64 :=
  segs.flatMap fun seg => (seg.starts pat.length).filter (matchesAt memory pat)

theorem Segment.toNat_start_add (seg : Segment) {i : Nat} (h : i ≤ seg.len) :
    (seg.start+UInt64.ofNat i).toNat=seg.start.toNat+i := by
  have ho:=UInt64.le_iff_toNat_le.mp seg.ordered
  have hf:=seg.finish.toNat_lt
  rw [Segment.len] at h
  rw [UInt64.toNat_add,UInt64.toNat_ofNat',Nat.mod_eq_of_lt (a := i) (by omega),
    Nat.mod_eq_of_lt (by omega)]

theorem Segment.mem_starts (seg : Segment) {width : Nat} (hw : 0 < width) (addr : UInt64) :
    addr ∈ seg.starts width ↔
      seg.start.toNat ≤ addr.toNat ∧ addr.toNat+width ≤ seg.finish.toNat := by
  have hl : seg.len=seg.finish.toNat-seg.start.toNat := rfl
  rw [Segment.starts,List.mem_map]
  constructor
  · rintro ⟨i,hi,rfl⟩
    have hi:=List.mem_range.mp hi
    rw [seg.toNat_start_add (by omega)]
    omega
  · rintro ⟨hs,hf⟩
    refine ⟨addr.toNat-seg.start.toNat,List.mem_range.mpr (by omega),UInt64.toNat.inj ?_⟩
    rw [seg.toNat_start_add (by omega)]
    omega

theorem Segment.starts_sorted (seg : Segment) {width : Nat} (hw : 0 < width) :
    (seg.starts width).Pairwise (· < ·) := by
  rw [Segment.starts,List.pairwise_map]
  apply List.Pairwise.imp_of_mem _ List.pairwise_lt_range
  intro i j hi hj h
  have hi:=List.mem_range.mp hi
  have hj:=List.mem_range.mp hj
  rw [UInt64.lt_iff_toNat_lt,seg.toNat_start_add (by omega),seg.toNat_start_add (by omega)]
  omega

def Segment.Apart (s t : Segment) : Prop := s.finish ≤ t.start ∨ t.finish ≤ s.start

theorem allMatches_nodup (memory : UInt64 → UInt8) {pat : Pattern} (hpat : pat ≠ [])
    {segs : List Segment} (h : segs.Pairwise Segment.Apart) :
      (allMatches memory pat segs).Nodup := by
  have hw : 0 < pat.length := List.length_pos_iff.mpr hpat
  refine List.nodup_flatMap.mpr ⟨fun seg _ => ?_,h.imp fun {s t} hst => ?_⟩
  · exact ((seg.starts_sorted hw).imp fun h => UInt64.ne_of_lt h).filter _
  · intro addr hs ht
    have hs:=(s.mem_starts hw addr).mp (List.mem_filter.mp hs).1
    have ht:=(t.mem_starts hw addr).mp (List.mem_filter.mp ht).1
    rcases hst with hst | hst
    · have:=UInt64.le_iff_toNat_le.mp hst
      omega
    · have:=UInt64.le_iff_toNat_le.mp hst
      omega

section
variable {db : Idb} {memory : UInt64 → UInt8} (hread : db.ReadsAll memory)
variable {pat : Pattern} {maxResults : Nat} {found : List UInt64}

theorem matchesHere_range (memory : UInt64 → UInt8) (pat : Pattern) (addr : UInt64) (i m : Nat)
    (h : pat.length ≤ m) :
    matchesHere pat ((List.range' i m).map fun i => memory (addr+UInt64.ofNat i))=
      matchesAt memory pat (addr+UInt64.ofNat i) := by
  induction pat generalizing i m with
  | nil => rfl
  | cons p ps ih =>
    obtain ⟨m,rfl⟩ : ∃ k,m=k+1 := ⟨m-1,by rw [List.length_cons] at h; omega⟩
    have hs : addr+UInt64.ofNat (i+1)=addr+UInt64.ofNat i+1 := by
      rw [UInt64.ofNat_add,← UInt64.add_assoc]
      rfl
    rw [List.range'_succ,List.map_cons,matchesHere,matchesAt,ih (i+1) m (Nat.le_of_succ_le_succ h),
      hs]

/-- The match at an offset of a segment, if there is one. -/
def hitAt (memory : UInt64 → UInt8) (pat : Pattern) (seg : Segment) (i : Nat) : Option UInt64 :=
  let addr:=seg.start+UInt64.ofNat i
  if matchesAt memory pat addr then some addr else none

/-- The matches of a segment from an offset on. -/
def hitsFrom (memory : UInt64 → UInt8) (pat : Pattern) (seg : Segment) (offset : Nat) :
    List UInt64 :=
  (List.range' offset (seg.len+1-pat.length-offset)).filterMap (hitAt memory pat seg)

theorem hitsFrom_zero (seg : Segment) :
    hitsFrom memory pat seg 0=(seg.starts pat.length).filter (matchesAt memory pat) := by
  rw [hitsFrom,Segment.starts,List.filter_map,Nat.sub_zero,← List.range_eq_range',
    ← List.filterMap_eq_map,← List.filterMap_eq_filter,List.filterMap_filterMap]
  congr 1
  funext i
  by_cases h : matchesAt memory pat (seg.start+UInt64.ofNat i)
  · simp [hitAt,h,Option.guard]
  · simp [hitAt,h,Option.guard]

include hread in
theorem searchChunk_eq (seg : Segment) (offset size : Nat) (hw : pat.length ≤ size)
    (hfound : found.length ≤ maxResults) :
    searchChunk pat (db.getBytes (seg.start+UInt64.ofNat offset) size)
        (seg.start+UInt64.ofNat offset) maxResults found=
      capped maxResults found
        ((List.range' offset (size-pat.length+1)).filterMap (hitAt memory pat seg)) := by
  rw [searchChunk,pushEach_eq hfound,hread,List.length_map,List.length_range,
    List.range'_eq_map_range,List.filterMap_map]
  congr 1
  apply List.filterMap_congr
  intro i hi
  have hi:=List.mem_range.mp hi
  have ha : seg.start+UInt64.ofNat offset+UInt64.ofNat i=seg.start+UInt64.ofNat (offset+i) := by
    rw [UInt64.ofNat_add,UInt64.add_assoc]
  have hm:=matchesHere_range memory pat (seg.start+UInt64.ofNat offset) i (size-i) (by omega)
  rw [← List.map_drop,List.range_eq_range',List.drop_range',Nat.mul_one,Nat.zero_add,hm,ha]
  rfl

include hread in
theorem searchSegment_eq (hpat : pat ≠ []) (seg : Segment) (offset : Nat)
    (hfound : found.length ≤ maxResults) :
    searchSegment db pat maxResults seg offset found=
      capped maxResults found (hitsFrom memory pat seg offset) := by
  have hw : 0 < pat.length := List.length_pos_iff.mpr hpat
  have hc : 0 < chunkSize := by decide
  fun_induction searchSegment with
  | case1 offset found h remaining readLen bytes hshort =>
    /- The rest of the segment is shorter than the pattern. -/
    have hlen : bytes.length=readLen :=
      by simp only [bytes,hread _ _,List.length_map,List.length_range]
    have hn : seg.len+1-pat.length-offset=0 := by omega
    rw [hitsFrom,hn]
    exact (capped_nil hfound).symm
  | case2 offset found h remaining readLen bytes hshort next hlast =>
    have hlen : bytes.length=readLen :=
      by simp only [bytes,hread _ _,List.length_map,List.length_range]
    have hn : readLen-pat.length+1=seg.len+1-pat.length-offset := by omega
    rw [hitsFrom,← hn]
    exact searchChunk_eq hread seg offset readLen (by omega) hfound
  | case3 offset found h remaining readLen bytes hshort next hmore ih =>
    /- The chunk shows the places before the next offset and no others. -/
    have hlen : bytes.length=readLen :=
      by simp only [bytes,hread _ _,List.length_map,List.length_range]
    have hnext : next=capped maxResults found
        ((List.range' offset (readLen-pat.length+1)).filterMap (hitAt memory pat seg)) :=
      searchChunk_eq hread seg offset readLen (by omega) hfound
    have hl : next.length ≤ maxResults := by
      rw [hnext]
      exact length_capped_le ..
    have hparts : List.range' offset (seg.len+1-pat.length-offset)=
        List.range' offset (readLen-pat.length+1)++
          List.range' (offset+chunkSize) (seg.len+1-pat.length-(offset+chunkSize)) := by
      by_cases hb : chunkSize+(pat.length-1) ≤ remaining
      · have h1 : readLen-pat.length+1=chunkSize := by omega
        have h2 : seg.len+1-pat.length-offset=
            chunkSize+(seg.len+1-pat.length-(offset+chunkSize)) := by omega
        rw [h1,h2,← List.range'_append_1]
      · have h1 : readLen-pat.length+1=seg.len+1-pat.length-offset := by omega
        have h2 : seg.len+1-pat.length-(offset+chunkSize)=0 := by omega
        rw [h1,h2,List.range'_zero,List.append_nil]
    rw [ih hl,hnext,capped_append,hitsFrom,hitsFrom,hparts,List.filterMap_append]
  | case4 offset found h =>
    by_cases hf : maxResults ≤ found.length
    · exact (capped_full hfound hf _).symm
    · have hn : seg.len+1-pat.length-offset=0 := by omega
      rw [hitsFrom,hn]
      exact (capped_nil hfound).symm

include hread in
theorem searchSegments_eq (hpat : pat ≠ []) (segs : List Segment)
    (hfound : found.length ≤ maxResults) :
    searchSegments db pat maxResults segs found=
      capped maxResults found (allMatches memory pat segs) := by
  induction segs generalizing found with
  | nil => exact (capped_nil hfound).symm
  | cons seg segs ih =>
    have hseg:=searchSegment_eq hread hpat seg 0 hfound
    rw [hitsFrom_zero] at hseg
    have hl:=length_capped_le maxResults found
      ((seg.starts pat.length).filter (matchesAt memory pat))
    have happ:=capped_append maxResults found
      ((seg.starts pat.length).filter (matchesAt memory pat))
      (allMatches memory pat segs)
    rw [searchSegments,hseg,allMatches,List.flatMap_cons,← allMatches,← happ]
    by_cases hf : maxResults ≤ (capped maxResults found
        ((seg.starts pat.length).filter (matchesAt memory pat))).length
    · rw [if_pos hf,capped_full hl hf]
    · rw [if_neg hf,ih hl]

end

/-- On full reads the search returns the first `maxResults` of all places, segment by segment,
at which the pattern lies inside of a segment; the segments being apart, none comes twice. -/
theorem handleFindBytes_eq_naive (lossy : List UInt8 → List Char) (db : Idb)
    (memory : UInt64 → UInt8) (hread : db.ReadsAll memory) (pattern : String) (pat : Pattern)
    (hparse : parsePattern lossy pattern=.ok pat) (hpat : pat ≠ []) (maxResults : UInt64) :
    handleFindBytes lossy (some db) pattern maxResults=
        .ok (foundReply pattern ((allMatches memory pat db.segments).take maxResults.toNat)) ∧
      (db.segments.Pairwise Segment.Apart → (allMatches memory pat db.segments).Nodup) := by
  refine ⟨?_,allMatches_nodup memory hpat⟩
  have hsearch : searchSegments db pat maxResults.toNat db.segments []=_ :=
    searchSegments_eq hread hpat db.segments (Nat.zero_le _)
  have hempty : pat.isEmpty=false := List.isEmpty_eq_false_iff.mpr hpat
  rw [capped,List.nil_append] at hsearch
  rw [handleFindBytes,← hsearch]
  change (parsePattern lossy pattern >>= fun pat => _)=_
  rw [hparse]
  change (if pat.isEmpty then _ else _)=_
  rw [hempty]
  rfl

/-- Eight bytes that count up, in two segments. -/
def countingDb : Idb :=
  { Idb.empty with
    segments := [⟨0x10,0x16,by decide⟩,⟨0x16,0x18,by decide⟩]
    getBytes := fun addr size => (List.range size).map fun i => (addr+UInt64.ofNat i).toUInt8 }

theorem handleFindBytes_counting :
    handleFindBytes (fun _ => []) (some countingDb) "14 ??" 5=
        .ok (foundReply "14 ??"
          ((allMatches UInt64.toUInt8 [some 0x14,none] countingDb.segments).take 5)) ∧
      (countingDb.segments.Pairwise Segment.Apart →
        (allMatches UInt64.toUInt8 [some 0x14,none] countingDb.segments).Nodup) :=
  handleFindBytes_eq_naive (fun _ => []) countingDb UInt64.toUInt8 (fun _ _ => rfl) "14 ??"
    [some 0x14,none] (by decide +kernel) (by decide) 5

end Ida
