import IdaMcp.Ida.Disasm

/-!
# Items addressed by name (`src/ida/handlers/annotations.rs`, `.../memory.rs`)

Edits that resolve a name first, and the names for which the first item that
contains the name is the one that has it.
-/

namespace Ida
open Lib Rpc

inductive Edit
  | comment (addr : UInt64) (text : String) (repeatable : Bool)
  | functionComment (addr : UInt64) (text : String) (repeatable : Bool)
  | rename (addr : UInt64) (name : String) (flags : Int)
  | patch (addr : UInt64) (bytes : List UInt8)

/-- What the database becomes by an edit, or the text of the error. -/
abbrev Editor := Idb → Edit → Except String Idb

/-- The edits a handler has asked for, the database after them and its reply. -/
structure Edited where
  edits : List Edit
  idb : Option Idb
  result : Result Json

/-- The shared body: the address is resolved, one edit is made there. -/
def editAt (idb : Option Idb) (editor : Editor) (addr : Option UInt64) (name : Option String)
    (offset : UInt64) (edit : UInt64 → Edit) (reply : UInt64 → Json) : Edited :=
  match idb with
  | none => ⟨[],none,.error .noDatabaseOpen⟩
  | some db => match resolveAddress (some db) addr name offset with
    | .error e => ⟨[],some db,.error e⟩
    | .ok a => match editor db (edit a) with
      | .ok db' => ⟨[edit a],some db',.ok (reply a)⟩
      | .error e => ⟨[edit a],some db,.error (.idaError e)⟩

/-- Lines 16-36. -/
def handleSetComments (idb : Option Idb) (editor : Editor) (addr : Option UInt64)
    (name : Option String) (offset : UInt64) (comment : String) (repeatable : Bool) : Edited :=
  editAt idb editor addr name offset (.comment · comment repeatable) fun a =>
    .ofFields [("address",.str (hexText a)),("repeatable",.bool repeatable),
      ("comment",.str comment)]

/-- Lines 38-57. -/
def handleSetFunctionComment (idb : Option Idb) (editor : Editor) (addr : Option UInt64)
    (name : Option String) (comment : String) (repeatable : Bool) : Edited :=
  editAt idb editor addr name 0 (.functionComment · comment repeatable) fun a =>
    .ofFields [("address",.str (hexText a)),("comment",.str comment),
      ("repeatable",.bool repeatable)]

def ofInt (n : Int) : Json := .number (match n with
  | .ofNat n => .nat n
  | .negSucc n => .neg n)

/-- Lines 59-78. -/
def handleRename (idb : Option Idb) (editor : Editor) (addr : Option UInt64)
    (currentName : Option String) (name : String) (flags : Int) : Edited :=
  editAt idb editor addr currentName 0 (.rename · name flags) fun a =>
    .ofFields [("address",.str (hexText a)),("name",.str name),("flags",ofInt flags)]

/-- Lines 35-49 of `memory.rs`. -/
def handlePatchBytes (idb : Option Idb) (editor : Editor) (addr : Option UInt64)
    (name : Option String) (offset : UInt64) (bytes : List UInt8) : Edited :=
  editAt idb editor addr name offset (.patch · bytes) fun a =>
    .ofFields [("address",.str (hexText a)),("length",.ofNat bytes.length)]

structure RenameEntry where
  address : Option UInt64
  currentName : Option String
  newName : String

/-- One entry of a batch, lines 87-109: a failure is a result like any other. -/
def renameEntry (editor : Editor) (db : Idb) (entry : RenameEntry) : List Edit × Idb × Json :=
  match resolveAddress (some db) entry.address entry.currentName 0 with
  | .ok a => match editor db (.rename a entry.newName 0) with
    | .ok db' => ([.rename a entry.newName 0],db',.ofFields [("address",.str (hexText a)),
        ("new_name",.str entry.newName),("success",.bool true)])
    | .error e => ([.rename a entry.newName 0],db,.ofFields [("address",.str (hexText a)),
        ("new_name",.str entry.newName),("success",.bool false),("error",.str e)])
  | .error e => ([],db,.ofFields [("address",.str ((entry.address.map hexText).getD "")),
      ("current_name",.ofOption entry.currentName),("new_name",.str entry.newName),
      ("success",.bool false),("error",.str e.text)])

/-- An entry sees the names that those before it have left. -/
def renameEach (editor : Editor) : Idb → List RenameEntry → List Edit × Idb × List Json
  | db,[] => ([],db,[])
  | db,entry::entries =>
    let (edits,db,reply):=renameEntry editor db entry
    let (more,db,replies):=renameEach editor db entries
    (edits++more,db,reply::replies)

/-- Lines 80-112. -/
def handleBatchRename (idb : Option Idb) (editor : Editor) (entries : List RenameEntry) : Edited :=
  match idb with
  | none => ⟨[],none,.error .noDatabaseOpen⟩
  | some db =>
    let (edits,db,results):=renameEach editor db entries
    ⟨edits,some db,.ok (.ofFields [("results",.arr results),("total",.ofNat results.length)])⟩

def Idb.HasFunction (db : Idb) (name : String) : Prop := ∃ f ∈ db.functions,f.name=some name
def Idb.HasSymbol (db : Idb) (name : String) : Prop := ∃ s ∈ db.names,s.name=name

/-- An item of exactly that name is at the address: a function or, where no function has the
name, another symbol. -/
def Idb.ExactAt (db : Idb) (name : String) (a : UInt64) : Prop :=
  (∃ f ∈ db.functions,f.name=some name ∧ f.start=a) ∨
    (¬db.HasFunction name ∧ ∃ s ∈ db.names,s.name=name ∧ s.address=a)

/-- An edit addressed by the name is made at such an address. -/
def Idb.EditsExact (db : Idb) (name : String) : Prop :=
  ∀ editor : Editor,
    (∀ offset comment repeatable,∃ a,db.ExactAt name a ∧
      (handleSetComments (some db) editor none (some name) offset comment repeatable).edits=
        [.comment (saturatingAdd a offset.toNat) comment repeatable]) ∧
    (∀ comment repeatable,∃ a,db.ExactAt name a ∧
      (handleSetFunctionComment (some db) editor none (some name) comment repeatable).edits=
        [.functionComment a comment repeatable]) ∧
    (∀ newName flags,∃ a,db.ExactAt name a ∧
      (handleRename (some db) editor none (some name) newName flags).edits=
        [.rename a newName flags]) ∧
    (∀ newName entries,∃ a more,db.ExactAt name a ∧
      (handleBatchRename (some db) editor (⟨none,some name,newName⟩::entries)).edits=
        .rename a newName 0::more) ∧
    (∀ offset bytes,∃ a,db.ExactAt name a ∧
      (handlePatchBytes (some db) editor none (some name) offset bytes).edits=
        [.patch (saturatingAdd a offset.toNat) bytes])

/-- What the handlers do for a name that some item has. -/
def ExactNamesWin (db : Idb) (name : String) : Prop :=
  (db.HasFunction name →
    (∃ f ∈ db.functions,f.name=some name ∧
      handleResolveFunction (some db) name=.ok ⟨hexText f.start,name,f.size⟩) ∧
    ((∀ a,parseAddressStr name ≠ .ok a) →
      ∃ f ∈ db.functions,f.shownName=name ∧ handleLookupFuncs (some db) [name]=
        .ok (.ofFields [("results",.arr [lookupEntry name (some f.info)])])) ∧
    (∀ count,∃ f ∈ db.functions,f.name=some name ∧
      handleDisasmByName (some db) name count=handleDisasm (some db) f.start count)) ∧
  (db.HasFunction name ∨ db.HasSymbol name →
    (∃ a,db.ExactAt name a ∧ resolveAddressByName (some db) name=.ok a) ∧ db.EditsExact name)

/-- Whatever has `p` in the list is `good`, or comes after something that has `p` and is. -/
def LedBy {α : Type} (p good : α → Prop) (xs : List α) : Prop :=
  ∀ (i : Nat) x,xs[i]?=some x → p x → good x ∨ ∃ j < i,∃ y,xs[j]?=some y ∧ p y ∧ good y

def Within (name candidate : String) : Prop := name.toList <:+: candidate.toList

def Function.Mentions (name : String) (f : Function) : Prop := ∃ n,f.name=some n ∧ Within name n

def Idb.SymbolAt (db : Idb) (name : String) (a : UInt64) : Prop :=
  ∃ s ∈ db.names,s.name=name ∧ s.address=a

/-- The order of the lists: a function that merely has the name in its own name comes after one
of exactly that name, and so for the names that are shown. Where no function has the name, what
has it in its name is at the address of such a symbol, or comes after something that is;
the symbols count where no function has the name in its name. -/
structure Idb.ExactFirst (db : Idb) (name : String) : Prop where
  function : db.HasFunction name → LedBy (·.Mentions name) (·.name=some name) db.functions
  shown : db.HasFunction name → (∀ a,parseAddressStr name ≠ .ok a) →
    LedBy (fun f => Within name f.shownName) (·.shownName=name) db.functions
  mentioned : ¬db.HasFunction name → db.HasSymbol name →
    LedBy (·.Mentions name) (fun f => db.SymbolAt name f.start) db.functions
  symbol : ¬db.HasFunction name → db.HasSymbol name → (∀ f ∈ db.functions,¬f.Mentions name) →
    LedBy (fun s => Within name s.name) (fun s => db.SymbolAt name s.address) db.names

theorem ledBy_iff {α : Type} {p good : α → Prop} {q : α → Bool} (hq : ∀ x,q x=true ↔ p x)
    {xs : List α} : LedBy p good xs ↔ ∀ x,xs.find? q=some x → good x := by
  constructor
  · intro h x hx
    obtain ⟨hqx,i,hi,hget,hbefore⟩:=List.find?_eq_some_iff_getElem.mp hx
    have hi' : xs[i]?=some x := by rw [List.getElem?_eq_getElem hi,hget]
    rcases h i x hi' ((hq x).mp hqx) with hg | ⟨j,hj,y,hy,hpy,-⟩
    · exact hg
    · obtain ⟨hlt,rfl⟩:=List.getElem?_eq_some_iff.mp hy
      have hno:=hbefore j hj
      rw [(hq _).mpr hpy] at hno
      exact absurd hno (by decide)
  · intro h i x hx hp
    obtain ⟨hi,hget⟩:=List.getElem?_eq_some_iff.mp hx
    have hsome : (xs.find? q).isSome :=
      List.find?_isSome.mpr ⟨x,hget ▸ List.getElem_mem hi,(hq x).mpr hp⟩
    obtain ⟨y,hy⟩:=Option.isSome_iff_exists.mp hsome
    obtain ⟨hqy,j,hj,hgy,hbefore⟩:=List.find?_eq_some_iff_getElem.mp hy
    rcases Nat.lt_trichotomy j i with hlt | heq | hgt
    · exact .inr ⟨j,hlt,y,by rw [List.getElem?_eq_getElem hj,hgy],(hq y).mp hqy,h y hy⟩
    · subst heq
      exact .inl (hget ▸ hgy.symm ▸ h y hy)
    · have hno:=hbefore i hgt
      rw [hget,(hq x).mpr hp] at hno
      exact absurd hno (by decide)

theorem nameMatches_iff {name candidate : String} :
    nameMatches name candidate=true ↔ Within name candidate := by
  rw [nameMatches,Bool.or_eq_true,textContains_iff,beq_iff_eq]
  refine ⟨fun h => h.elim ?_ id,.inr⟩
  rintro rfl
  exact List.infix_refl _

theorem mentions_iff {name : String} (f : Function) : (match f.name with
    | some n => nameMatches name n
    | none => false)=true ↔ f.Mentions name := by
  cases hn : f.name with
  | none => simp [Function.Mentions,hn]
  | some n => simp [Function.Mentions,hn,nameMatches_iff]

section
variable {db : Idb} {name : String}

theorem nameMatches_self (name : String) : nameMatches name name :=
  nameMatches_iff.mpr (List.infix_refl _)

theorem functionNamed_isSome (h : db.HasFunction name) : ∃ f,db.functionNamed name=some f := by
  obtain ⟨f,hf,hn⟩:=h
  have hs : (db.functionNamed name).isSome := by
    rw [Idb.functionNamed,List.find?_isSome]
    refine ⟨f,hf,?_⟩
    rw [hn]
    exact nameMatches_self name
  exact Option.isSome_iff_exists.mp hs

theorem functionNamed_mem {f : Function} (h : db.functionNamed name=some f) :
    f ∈ db.functions ∧ ∃ n,f.name=some n := by
  refine ⟨List.mem_of_find?_eq_some h,?_⟩
  have hp:=List.find?_some h
  cases hn : f.name with
  | none =>
    rw [hn] at hp
    cases hp
  | some n => exact ⟨n,rfl⟩

theorem resolve_function {f : Function} (h : db.functionNamed name=some f) :
    resolveAddressByName (some db) name=.ok f.start := by
  simp only [resolveAddressByName,openDb,bind,Except.bind,h]

theorem resolve_symbol {s : Symbol} (h : db.functionNamed name=none)
    (hs : db.names.find? (fun s => nameMatches name s.name)=some s) :
    resolveAddressByName (some db) name=.ok s.address := by
  simp only [resolveAddressByName,openDb,bind,Except.bind,h,hs]

theorem functionNamed_none : db.functionNamed name=none ↔ ∀ f ∈ db.functions,¬f.Mentions name := by
  rw [Idb.functionNamed,List.find?_eq_none]
  exact forall₂_congr fun f _ => not_congr (mentions_iff f)

theorem symbolNamed_isSome (h : db.HasSymbol name) :
    ∃ s,db.names.find? (fun s => nameMatches name s.name)=some s := by
  obtain ⟨s,hs,hn⟩:=h
  exact Option.isSome_iff_exists.mp (List.find?_isSome.mpr ⟨s,hs,hn ▸ nameMatches_self name⟩)

theorem editsExact_of_resolve {a : UInt64} (ha : db.ExactAt name a)
    (h : resolveAddressByName (some db) name=.ok a) : db.EditsExact name := by
  have hr : ∀ offset : UInt64,resolveAddress (some db) none (some name) offset=
      .ok (saturatingAdd a offset.toNat) := by
    intro offset
    simp only [resolveAddress,h]
    rfl
  have hz : saturatingAdd a (0 : UInt64).toNat=a := by
    apply UInt64.toNat.inj
    exact saturatingAdd_toNat a.toNat_lt
  have hedit : ∀ editor offset edit reply,
      (editAt (some db) editor none (some name) offset edit reply).edits=
        [edit (saturatingAdd a offset.toNat)] := by
    intro editor offset edit reply
    rw [editAt]
    simp only [hr]
    split <;> rfl
  intro editor
  refine ⟨fun _ _ _ => ⟨a,ha,hedit ..⟩,fun _ _ => ⟨a,ha,?_⟩,fun _ _ => ⟨a,ha,?_⟩,?_,
    fun _ _ => ⟨a,ha,hedit ..⟩⟩
  · rw [handleSetFunctionComment,hedit,hz]
  · rw [handleRename,hedit,hz]
  · intro newName entries
    have hentry : (renameEntry editor db ⟨none,some name,newName⟩).1=[.rename a newName 0] := by
      rw [renameEntry]
      simp only [hr,hz]
      split <;> rfl
    exact ⟨a,(renameEach editor (renameEntry editor db ⟨none,some name,newName⟩).2.1 entries).1,ha,
      congrArg (·++_) hentry⟩

theorem handleResolveFunction_eq {f : Function} (h : db.functionNamed name=some f) :
    handleResolveFunction (some db) name=.ok ⟨hexText f.start,f.name.getD "",f.size⟩ := by
  simp only [handleResolveFunction,openDb,bind,Except.bind,h]

def Idb.firstShown (db : Idb) (name : String) : Option Function :=
  db.functions.find? fun f => nameMatches name f.shownName

theorem handleLookupFuncs_eq (h : ∀ a,parseAddressStr name ≠ .ok a) :
    handleLookupFuncs (some db) [name]=.ok (.ofFields [("results",.arr
      [lookupEntry name ((db.firstShown name).map Function.info)])]) := by
  have hlookup : db.lookup name=(db.firstShown name).map Function.info := by
    rw [Idb.lookup]
    cases hp : parseAddressStr name with
    | ok a => exact absurd hp (h a)
    | error e =>
      dsimp only
      rw [List.find?_map]
      rfl
  rw [← hlookup]
  rfl

theorem lookupEntry_name {query : String} {f g : Function}
    (h : lookupEntry query (some f.info)=lookupEntry query (some g.info)) :
    f.shownName=g.shownName := by
  have hr:=congrArg (·.get? "result") h
  simp only [lookupEntry,Json.get?_ofFields] at hr
  have hj : f.info.json=g.info.json := by simpa using hr
  have hn:=congrArg (·.get? "name") hj
  simp only [FunctionInfo.json,Function.info,Json.get?_ofFields] at hn
  simpa using hn

theorem firstShown_isSome (h : db.HasFunction name) : ∃ f,db.firstShown name=some f := by
  obtain ⟨f,hf,hn⟩:=h
  have hshown : f.shownName=name := by rw [Function.shownName,hn]; rfl
  have hs : (db.firstShown name).isSome := by
    rw [Idb.firstShown,List.find?_isSome]
    exact ⟨f,hf,hshown.symm ▸ nameMatches_self name⟩
  exact Option.isSome_iff_exists.mp hs

theorem exactAt_symbol (hfun : ¬db.HasFunction name) {a : UInt64} :
    db.ExactAt name a ↔ db.SymbolAt name a := by
  constructor
  · rintro (⟨f,hf,hn,-⟩ | ⟨-,h⟩)
    · exact absurd ⟨f,hf,hn⟩ hfun
    · exact h
  · exact fun h => .inr ⟨hfun,h⟩

theorem ExactNamesWin.exactFirst (h : ExactNamesWin db name) : db.ExactFirst name where
  function := by
    intro hfun
    refine (ledBy_iff mentions_iff).mpr fun g hg => ?_
    obtain ⟨⟨f,-,-,hres⟩,-,-⟩:=h.1 hfun
    obtain ⟨-,n,hn⟩:=functionNamed_mem hg
    rw [handleResolveFunction_eq hg,hn] at hres
    have hname : n=name := congrArg FunctionInfo.name (Except.ok.inj hres)
    rw [hn,hname]
  shown := by
    intro hfun hparse
    refine (ledBy_iff fun f => nameMatches_iff).mpr fun g hg => ?_
    obtain ⟨-,hlook,-⟩:=h.1 hfun
    obtain ⟨f,-,hname,heq⟩:=hlook hparse
    have hfirst : db.firstShown name=some g := hg
    rw [handleLookupFuncs_eq hparse,hfirst] at heq
    have hr:=congrArg (·.get? "results") (Except.ok.inj heq)
    have hentry : lookupEntry name (some g.info)=lookupEntry name (some f.info) := by
      simpa [Json.get?_ofFields] using hr
    rw [lookupEntry_name hentry,hname]
  mentioned := by
    intro hfun hsym
    refine (ledBy_iff mentions_iff).mpr fun g hg => ?_
    obtain ⟨⟨a,ha,hres⟩,-⟩:=h.2 (.inr hsym)
    rw [resolve_function hg] at hres
    cases hres
    exact (exactAt_symbol hfun).mp ha
  symbol := by
    intro hfun hsym hnone
    refine (ledBy_iff fun s => nameMatches_iff).mpr fun s hs => ?_
    obtain ⟨⟨a,ha,hres⟩,-⟩:=h.2 (.inr hsym)
    rw [resolve_symbol (functionNamed_none.mpr hnone) hs] at hres
    cases hres
    exact (exactAt_symbol hfun).mp ha

/-- The address that the name is resolved to, whichever list it is found in. -/
theorem Idb.ExactFirst.resolves (h : db.ExactFirst name)
    (hany : db.HasFunction name ∨ db.HasSymbol name) :
    ∃ a,db.ExactAt name a ∧ resolveAddressByName (some db) name=.ok a := by
  by_cases hfun : db.HasFunction name
  · obtain ⟨g,hg⟩:=functionNamed_isSome hfun
    have hn : g.name=some name := (ledBy_iff mentions_iff).mp (h.function hfun) g hg
    exact ⟨g.start,.inl ⟨g,(functionNamed_mem hg).1,hn,rfl⟩,resolve_function hg⟩
  · have hsym:=hany.resolve_left hfun
    cases hf : db.functionNamed name with
    | some g =>
      have hat:=(ledBy_iff mentions_iff).mp (h.mentioned hfun hsym) g hf
      exact ⟨g.start,(exactAt_symbol hfun).mpr hat,resolve_function hf⟩
    | none =>
      obtain ⟨s,hs⟩:=symbolNamed_isSome hsym
      have hled:=h.symbol hfun hsym (functionNamed_none.mp hf)
      have hat:=(ledBy_iff fun s => nameMatches_iff).mp hled s hs
      exact ⟨s.address,(exactAt_symbol hfun).mpr hat,resolve_symbol hf hs⟩

theorem Idb.ExactFirst.win (h : db.ExactFirst name) : ExactNamesWin db name := by
  refine ⟨fun hfun => ?_,fun hany => ?_⟩
  · obtain ⟨g,hg⟩:=functionNamed_isSome hfun
    have hn : g.name=some name := (ledBy_iff mentions_iff).mp (h.function hfun) g hg
    have hmem:=(functionNamed_mem hg).1
    refine ⟨⟨g,hmem,hn,?_⟩,fun hparse => ?_,fun count => ⟨g,hmem,hn,?_⟩⟩
    · rw [handleResolveFunction_eq hg,hn]
      rfl
    · obtain ⟨f,hf⟩:=firstShown_isSome hfun
      have hshown:=(ledBy_iff fun f => nameMatches_iff).mp (h.shown hfun hparse) f hf
      exact ⟨f,List.mem_of_find?_eq_some hf,hshown,
        by rw [handleLookupFuncs_eq hparse,hf]; rfl⟩
    · simp only [handleDisasmByName,hg]
  · obtain ⟨a,hexact,hres⟩:=h.resolves hany
    exact ⟨⟨a,hexact,hres⟩,editsExact_of_resolve hexact hres⟩

end

/-- Exact names win exactly where no item that merely contains the name comes first. -/
theorem exactNamesWin_iff (db : Idb) (name : String) : ExactNamesWin db name ↔ db.ExactFirst name :=
  ⟨ExactNamesWin.exactFirst,Idb.ExactFirst.win⟩

/- `foobar` comes before `foo`. -/
def foobarDb : Idb :=
  { Idb.empty with
    functions := [⟨0x40,0x48,some "foobar",by decide⟩,⟨0x48,0x50,some "foo",by decide⟩]
    functionsFit := by decide }

/-- A rename of `foo` goes to `foobar`. -/
theorem foo_renames_foobar :
    foobarDb.HasFunction "foo" ∧ resolveAddressByName (some foobarDb) "foo"=.ok 0x40 ∧
      (handleRename (some foobarDb) (fun db _ => .ok db) none (some "foo") "start" 0).edits=
        [.rename 0x40 "start" 0] ∧
      ¬ExactNamesWin foobarDb "foo" := by
  have hfirst : foobarDb.functionNamed "foo"=some ⟨0x40,0x48,some "foobar",by decide⟩ := rfl
  have hfun : foobarDb.HasFunction "foo" :=
    ⟨_,List.mem_cons_of_mem _ (List.mem_singleton_self _),rfl⟩
  refine ⟨hfun,rfl,rfl,fun h => ?_⟩
  have hname:=(ledBy_iff mentions_iff).mp (h.exactFirst.function hfun) _ hfirst
  exact absurd (Option.some.inj hname) (by decide)

end Ida
