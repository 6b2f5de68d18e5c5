import IdaMcp.Ida.Functions

/-!
# Listings in pages

The eight handlers of `src/ida/handlers` that list with an offset and a limit,
and the client that follows `next_offset` from page to page.
-/

namespace Ida
open Lib Rpc

structure StringInfo where
  address : String
  content : String
  length : Nat

def StringItem.info (s : StringItem) : StringInfo :=
  ⟨hexText s.address,s.content,s.content.utf8ByteSize⟩

section Handlers
variable (toLowercase : String → String)

variable (idb : Option Idb)

/-- Lines 9-57. -/
def handleStrings (offset limit : UInt64) (filter : Option String) : Result (Page StringInfo) := do
  let db ← openDb idb
  return .of (fun s => passes toLowercase filter s.content) StringItem.info db.strings offset limit

/-- The test of lines 152-162 and 217-227. -/
def stringMatches (query : String) (exact caseInsensitive : Bool) (s : StringItem) : Bool :=
  let norm:=fun t => if caseInsensitive then toLowercase t else t
  if exact then norm s.content==norm query
  else textContains (norm query).toList (norm s.content).toList

/-- Lines 134-191. -/
def handleFindString (query : String) (exact caseInsensitive : Bool)
    (offset limit : UInt64) : Result (Page StringInfo) := do
  let db ← openDb idb
  return .of (stringMatches toLowercase query exact caseInsensitive) StringItem.info db.strings
    offset limit

structure StringXrefInfo extends StringInfo where
  xrefs : List String
  xrefCount : Nat

/-- At least one reference is looked at, and at most 1024. -/
def Idb.stringXrefs (db : Idb) (maxXrefs : UInt64) (s : StringItem) : StringXrefInfo :=
  let xrefs:=((db.xrefsTo s.address).take (max 1 (min maxXrefs.toNat 1024))).map fun x =>
    hexText x.source
  { s.info with xrefs,xrefCount := xrefs.length }

/-- Lines 193-269. -/
def handleXrefsToString (query : String) (exact caseInsensitive : Bool)
    (offset limit maxXrefs : UInt64) : Result (Page StringXrefInfo) := do
  let db ← openDb idb
  return .of (stringMatches toLowercase query exact caseInsensitive) (db.stringXrefs maxXrefs)
    db.strings offset limit

def Idb.udts (db : Idb) : List UdtInfo := db.ordinals.filterMap db.udtInfo
def Idb.localTypes (db : Idb) : List LocalTypeInfo := db.ordinals.filterMap db.localTypeInfo

/-- Lines 50-103 of `structs.rs`; a summary has the fields of the type. -/
def handleStructs (offset limit : UInt64) (filter : Option String) : Result (Page UdtInfo) := do
  let db ← openDb idb
  return .of (fun t => passes toLowercase filter t.name) id db.udts offset limit

/-- Lines 11-61 of `types.rs`. -/
def handleLocalTypes (offset limit : UInt64) (filter : Option String) :
    Result (Page LocalTypeInfo) := do
  let db ← openDb idb
  return .of (fun t => passes toLowercase filter t.name) id db.localTypes offset limit

/-- The reply of the two handlers that answer with a value of their own. -/
def pageReply (key : String) (page : Page Json) : Json :=
  .ofFields [(key,.arr page.items),("total",.ofNat page.total),
    ("next_offset",match page.nextOffset with
      | some next => .ofNat next.toNat
      | none => .null)]

def LocalTypeInfo.enumJson (t : LocalTypeInfo) : Json :=
  .ofFields [("ordinal",.ofNat t.ordinal.toNat),("name",.str t.name),("decl",.str t.decl)]

/-- Lines 395-446 of `types.rs`. -/
def handleListEnums (filter : Option String) (offset limit : UInt64) : Result Json := do
  let db ← openDb idb
  return pageReply "enums" (.of (fun t => t.kind=="enum" && passes toLowercase filter t.name)
    LocalTypeInfo.enumJson db.localTypes offset limit)

def Symbol.json (s : Symbol) : Json :=
  .ofFields [("address",.str (hexText s.address)),("name",.str s.name),
    ("is_public",.bool s.isPublic),("is_weak",.bool s.isWeak)]

/-- Named, and outside of every function. -/
def Idb.isGlobal (db : Idb) (query : Option String) (s : Symbol) : Bool :=
  passes toLowercase query s.name && (db.functionAt s.address).isNone

/-- Lines 9-60. -/
def handleListGlobals (query : Option String) (offset limit : UInt64) : Result Json := do
  let db ← openDb idb
  return pageReply "globals" (.of (db.isGlobal toLowercase query) Symbol.json db.names
    offset limit)

end Handlers

/-- The page in a reply. -/
def readPage (key : String) (reply : Json) : Option (Page Json) :=
  match (reply.get? key).bind Json.asArray,(reply.get? "total").bind Json.asU64 with
  | some items,some total =>
    some ⟨items,total,((reply.get? "next_offset").bind Json.asU64).map UInt64.ofNat⟩
  | _,_ => none

def usizeMax : UInt64 := -1

/-- From the first page on, whatever the limits from 1 to `most`, the pages end, contain all
there is in its order, and say how much that is. -/
def Paginates {β : Type} (most : UInt64) (fetch : UInt64 → UInt64 → Option (Page β))
    (all : List β) : Prop :=
  ∀ limits : Nat → UInt64,(∀ k,1 ≤ limits k ∧ limits k ≤ most) →
    ∃ fuel pages,Page.crawl fetch limits fuel 0 0=some pages ∧
      pages.flatMap Page.items=all ∧ ∀ page ∈ pages,page.total=all.length

theorem paginates_of {α β : Type} {keep : α → Bool} {render : α → β} {xs : List α} {most : UInt64}
    (hfit : xs.length < UInt64.size) {fetch : UInt64 → UInt64 → Option (Page β)}
    (hfetch : ∀ offset limit,limit ≤ most →
      fetch offset limit=some (.of keep render xs offset limit)) :
    Paginates most fetch ((xs.filter keep).map render) := by
  intro limits hlim
  have hlen : (xs.filter keep).length < UInt64.size :=
    Nat.lt_of_le_of_lt (List.length_filter_le ..) hfit
  have hpage : ∀ offset k,fetch offset (limits k)=
      some (Page.ofPass offset (Pass.after offset (limits k) render (xs.filter keep))) := by
    intro offset k
    rw [hfetch offset _ (hlim k).2,Page.of_eq]
  have hfuel : (xs.filter keep).length-0 < xs.length+1 := by
    have:=List.length_filter_le keep xs
    omega
  obtain ⟨pages,hpages,hitems,htotal⟩:=
    Page.crawl_rest hlen hpage (fun k => (hlim k).1) (xs.length+1) 0 0 (Nat.zero_le _) hfuel
  refine ⟨_,pages,hpages,hitems,fun page hp => ?_⟩
  rw [htotal page hp,List.length_map]

theorem readPage_pageReply {key : String} (hkey : key ≠ "total" ∧ key ≠ "next_offset")
    {page : Page Json} (htotal : page.total < UInt64.size) :
    readPage key (pageReply key page)=some page := by
  have h1 : (pageReply key page).get? key=some (.arr page.items) := by
    rw [pageReply,Json.get?_ofFields]
    simp [hkey.1.symm,hkey.2.symm]
  have h2 : (pageReply key page).get? "total"=some (.ofNat page.total) := by
    rw [pageReply,Json.get?_ofFields]
    simp
  have h3 : (((pageReply key page).get? "next_offset").bind Json.asU64).map UInt64.ofNat=
      page.nextOffset := by
    rw [pageReply,Json.get?_ofFields]
    cases hn : page.nextOffset with
    | none => rfl
    | some next => simp [Json.asU64,Json.ofNat,next.toNat_lt,UInt64.size]
  rw [readPage,h1,h2,h3]
  simp [Json.asArray,Json.asU64,Json.ofNat,htotal]

theorem Idb.ordinals_fit {α : Type} (db : Idb) (f : UInt32 → Option α) :
    (db.ordinals.filterMap f).length < UInt64.size := by
  have h:=List.length_filterMap_le f db.ordinals
  have hl : db.ordinals.length=db.udtOrdinalLimit.toNat-1 := by
    rw [Idb.ordinals,List.length_map,List.length_range']
  have hs:=db.udtOrdinalLimit.toNat_lt
  rw [UInt64.size]
  omega

/-- Every page of functions that is small enough for its vector is returned. -/
theorem value?_listFunctions (toLowercase : String → String) (db : Idb) (filter : Option String)
    (offset limit : UInt64) (h : limit ≤ 10000) :
    (handleListFunctions toLowercase (some db) offset limit filter).value?=
      some (.of (fun f => passes toLowercase filter f.shownName) Function.info db.functions
        offset limit) := by
  have hl : limit.toNat ≤ 10000 := UInt64.le_iff_toNat_le.mp h
  have hfit : 56*limit.toNat ≤ 0x7fffffffffffffff := by omega
  rw [handleListFunctions,withCapacity,if_pos hfit,Handled.value?]
  rfl

/-- Every listing paginates, for every filter of its own: the functions for limits up to the
documented maximum, the others for every limit. -/
theorem listings_paginate (toLowercase : String → String) (db : Idb) (filter : Option String)
    (query : String) (exact caseInsensitive : Bool) (maxXrefs : UInt64) :
    Paginates 10000
        (fun offset limit =>
          (handleListFunctions toLowercase (some db) offset limit filter).value?)
        ((db.functions.filter fun f => passes toLowercase filter f.shownName).map
          Function.info) ∧
    Paginates usizeMax
        (fun offset limit => (handleStrings toLowercase (some db) offset limit filter).toOption)
        ((db.strings.filter fun s => passes toLowercase filter s.content).map
          StringItem.info) ∧
    Paginates usizeMax
        (fun offset limit => (handleFindString toLowercase (some db) query exact caseInsensitive
          offset limit).toOption)
        ((db.strings.filter (stringMatches toLowercase query exact caseInsensitive)).map
          StringItem.info) ∧
    Paginates usizeMax
        (fun offset limit => (handleXrefsToString toLowercase (some db) query exact
          caseInsensitive offset limit maxXrefs).toOption)
        ((db.strings.filter (stringMatches toLowercase query exact caseInsensitive)).map
          (db.stringXrefs maxXrefs)) ∧
    Paginates usizeMax
        (fun offset limit => (handleStructs toLowercase (some db) offset limit filter).toOption)
        (db.udts.filter fun t => passes toLowercase filter t.name) ∧
    Paginates usizeMax
        (fun offset limit =>
          (handleLocalTypes toLowercase (some db) offset limit filter).toOption)
        (db.localTypes.filter fun t => passes toLowercase filter t.name) ∧
    Paginates usizeMax
        (fun offset limit => (handleListEnums toLowercase (some db) filter offset
          limit).toOption.bind (readPage "enums"))
        ((db.localTypes.filter fun t => t.kind=="enum" && passes toLowercase filter t.name).map
          LocalTypeInfo.enumJson) ∧
    Paginates usizeMax
        (fun offset limit => (handleListGlobals toLowercase (some db) filter offset
          limit).toOption.bind (readPage "globals"))
        ((db.names.filter (db.isGlobal toLowercase filter)).map Symbol.json) := by
  have hread : ∀ {α : Type} {keep : α → Bool} {render : α → Json} {xs : List α} {key : String},
      key ≠ "total" ∧ key ≠ "next_offset" → xs.length < UInt64.size → ∀ offset limit,
      limit ≤ usizeMax → readPage key (pageReply key (.of keep render xs offset limit))=
        some (.of keep render xs offset limit) :=
    fun hkey hfit offset limit _ =>
      readPage_pageReply hkey (Nat.lt_of_le_of_lt (Page.total_of_le ..) hfit)
  refine ⟨paginates_of db.functionsFit (value?_listFunctions toLowercase db filter),
    paginates_of db.stringsFit fun _ _ _ => rfl,paginates_of db.stringsFit fun _ _ _ => rfl,
    paginates_of db.stringsFit fun _ _ _ => rfl,?_,?_,?_,?_⟩
  · rw [← List.map_id (db.udts.filter _)]
    exact paginates_of (db.ordinals_fit _) fun _ _ _ => rfl
  · rw [← List.map_id (db.localTypes.filter _)]
    exact paginates_of (db.ordinals_fit _) fun _ _ _ => rfl
  · exact paginates_of (db.ordinals_fit _) (hread (by decide) (db.ordinals_fit _))
  · exact paginates_of db.namesFit (hread (by decide) db.namesFit)

end Ida
