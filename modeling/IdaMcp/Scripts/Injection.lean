import IdaMcp.Scripts.Literals

/-!
# What a client's string does to an idat script

A script is read as it was meant to be exactly when no name, filter, query or
pattern has a single quote, the path of the database has none of the characters
that `escape_python_string` escapes, and no string among the addresses of a
batch needs an escape in JSON.
-/

namespace Scripts
open Lib (Json)
open Lib.Python

set_option maxRecDepth 4000 in
theorem settles_preludeHead : Settles preludeHead.toList ['r'] :=
  .of_spelled (.append (.literal _) (.literal _)) (by decide +kernel)

theorem settles_databaseName : Settles "\nDB_PATH = r".toList ['r'] :=
  .of_spelled (.literal _) (by decide)

set_option maxRecDepth 8000 in
theorem settles_preludeTail : Settles preludeTail.toList [] := by
  unfold preludeTail
  apply Settles.of_spelled
  · repeat' first | exact .literal _ | apply Spelled.append
  · decide +kernel

theorem settles_newline : Settles "\n".toList [] := .of_spelled (.literal _) (by decide)

theorem mode_name (n : Name) :
    (run (.code []) (newlines (n.text++" = ").toList)).2=.code [] ∧
      (n.text++" = ").toList.getLast? ≠ some '\r' := by
  rw [String.toList_append]
  cases n <;> decide

theorem fits_quoted : Fits [] (Form.ofWord [] '\'') := ⟨.inr rfl,rfl⟩
theorem fits_long : Fits [] (Form.ofWord [] '\'').long := ⟨.inr rfl,rfl⟩
theorem fits_raw : Fits ['r'] (Form.ofWord ['r'] '"') := ⟨.inl rfl,rfl⟩

theorem short_form {word : List Char} {q : Char} {p : Prop} :
    (Form.ofWord word q).triple=true → p := fun h => Bool.noConfusion h

theorem placed_value (v : Value) (ps : List Part) (h : Placed (.code []) ps) :
    Placed (.code []) (v.parts++.text "\n".toList::ps) := by
  have hn := settles_newline
  cases v with
  | number n => exact hn.placed_word h _ _ (digits_word n).1 (digits_word n).2
  | none => exact hn.placed_word h _ _ (List.all_eq_true.mp (by decide)) (by decide)
  | bool b => cases b <;> exact hn.placed_word h _ _ (List.all_eq_true.mp (by decide)) (by decide)
  | direction d => cases d <;> exact ⟨fun _ => by decide,hn.placed h []⟩
  | string s => exact hn.placed_slot h (quoted s) [] fits_quoted short_form
  | addresses vs =>
    have hclose : Settles ")".toList [] := .of_spelled (.literal _) (by decide)
    have hopen : (run (.code []) (newlines "json.loads(".toList)).2=.code [] := by decide
    refine ⟨fun _ => by decide,?_⟩
    rw [hopen]
    refine hclose.placed_slot (hn.placed h []) (addressList vs) [] fits_long fun _ => ?_
    rw [newlines_addressList]
    exact (reads_addressList vs).inside

theorem placed_lines (lines : List Line) (ps : List Part) (h : Placed (.code []) ps) :
    Placed (.code []) (lines.flatMap Line.parts++ps) := by
  induction lines with
  | nil => exact h
  | cons l ls ih =>
    rw [List.flatMap_cons,Line.parts,List.append_assoc,List.cons_append,List.append_assoc]
    refine ⟨fun _ => (mode_name l.name).2,?_⟩
    rw [(mode_name l.name).1]
    exact placed_value l.value _ ih

theorem placed_script (call : Call) (output database trailer : String) :
    Placed (.code []) (call.script output database trailer) := by
  have hlines : Placed (.code [])
      (call.lines.flatMap Line.parts++[.text (call.userCode++trailer.toList)]) :=
    placed_lines _ _ ⟨fun h => absurd rfl h,trivial⟩
  have htail := settles_preludeTail.placed_slot (settles_newline.placed hlines [])
    (rawPath database) ['r'] fits_raw short_form
  have hname := settles_databaseName.placed_slot htail (ownPath output) ['r'] fits_raw short_form
  exact settles_preludeHead.placed hname []

theorem intact_iff_slots (call : Call) (output database trailer : String) :
    Intact (call.script output database trailer) ↔
      ∀ s,.slot s ∈ call.script output database trailer → s.Good :=
  intact_iff _ (placed_script call output database trailer)

def Value.NulFree : Value → Prop
  | .string s => Scripts.NulFree s
  | _ => True

instance : (v : Value) → Decidable v.NulFree
  | .string s => inferInstanceAs (Decidable (Scripts.NulFree s))
  | .number _ | .none | .bool _ | .direction _ | .addresses _ => isTrue trivial

def Call.NulFree (call : Call) : Prop := ∀ l ∈ call.lines,l.value.NulFree

instance (call : Call) : Decidable call.NulFree :=
  inferInstanceAs (Decidable (∀ l ∈ call.lines,l.value.NulFree))

/-- A string without a single quote, addresses whose strings need no escape. -/
def Value.Plain : Value → Prop
  | .string s => '\'' ∉ s.toList
  | .addresses vs => cleanItems vs=true
  | _ => True

instance : (v : Value) → Decidable v.Plain
  | .string s => inferInstanceAs (Decidable ('\'' ∉ s.toList))
  | .addresses vs => inferInstanceAs (Decidable (cleanItems vs=true))
  | .number _ | .none | .bool _ | .direction _ => isTrue trivial

def Call.Plain (call : Call) (database : String) : Prop :=
  (∀ c ∈ database.toList,isSpecial c=false) ∧ ∀ l ∈ call.lines,l.value.Plain

instance (call : Call) (database : String) : Decidable (call.Plain database) :=
  decidable_of_iff (database.toList.all (fun c => !isSpecial c)=true ∧
    ∀ l ∈ call.lines,l.value.Plain) (by simp [Call.Plain])

theorem value_slots (v : Value) (h0 : v.NulFree) :
    (∀ s,.slot s ∈ v.parts → s.Good) ↔ v.Plain := by
  cases v with
  | number n => simp [Value.parts,Value.Plain]
  | none => simp [Value.parts,Value.Plain]
  | bool b => cases b <;> simp [Value.parts,Value.Plain]
  | direction d => cases d <;> simp [Value.parts,Value.Plain]
  | string s =>
    have hm : ∀ s',.slot s' ∈ (Value.string s).parts ↔ s'=quoted s := by simp [Value.parts]
    simp only [hm,forall_eq]
    exact quoted_iff s h0
  | addresses vs =>
    have hm : ∀ s',.slot s' ∈ (Value.addresses vs).parts ↔ s'=addressList vs := by
      simp [Value.parts]
    simp only [hm,forall_eq]
    exact addressList_iff vs

theorem slot_mem_line (s : Slot) (l : Line) : .slot s ∈ l.parts ↔ .slot s ∈ l.value.parts := by
  simp [Line.parts]

theorem slot_mem_script (s : Slot) (call : Call) (output database trailer : String) :
    .slot s ∈ call.script output database trailer ↔
      s=ownPath output ∨ s=rawPath database ∨ ∃ l ∈ call.lines,.slot s ∈ l.value.parts := by
  simp [Call.script,pythonPrelude,slot_mem_line]

/-- Python reads every placed value as it was given, if and only if the call is plain. -/
theorem script_intact_iff (call : Call) (output database trailer : String)
    (ho : NulFree output) (hd : NulFree database) (hc : call.NulFree) :
    Intact (call.script output database trailer) ↔ call.Plain database := by
  rw [intact_iff_slots]
  constructor
  · intro h
    refine ⟨(rawPath_iff database hd).mp (h _ ?_),fun l hl => (value_slots _ (hc l hl)).mp ?_⟩
    · exact (slot_mem_script ..).mpr (.inr (.inl rfl))
    · intro s hs
      exact h s ((slot_mem_script ..).mpr (.inr (.inr ⟨l,hl,hs⟩)))
  · rintro ⟨hpath,hlines⟩ s hs
    rcases (slot_mem_script ..).mp hs with rfl | rfl | ⟨l,hl,hs⟩
    · exact ⟨rawPath_whole output ho,trivial⟩
    · exact (rawPath_iff database hd).mpr hpath
    · exact (value_slots _ (hc l hl)).mpr (hlines l hl) s hs

theorem script_intact_list :
    Intact ((Call.listFunctions 0 10 (some "init\n\"x\"")).script "/tmp/out.json" "/a.i64" "") :=
  (script_intact_iff _ _ _ _ (by decide) (by decide) (by decide)).mpr (by decide)

/-- The filter `x' or os.abort() #` ends its literal at the quote. -/
theorem filter_ends_literal :
    ¬Intact ((Call.listFunctions 0 10 (some "x' or os.abort() #")).script
      "/tmp/out.json" "/a.i64" "") := by
  rw [intact_iff_slots]
  intro h
  have hs := h (quoted "x' or os.abort() #") ((slot_mem_script ..).mpr
    (.inr (.inr ⟨⟨.filter,.string "x' or os.abort() #"⟩,by simp [Call.lines,Value.ofString?],
      by simp [Value.parts]⟩)))
  have hq := (quoted_iff _ (by decide)).mp hs
  exact absurd hq (by decide)

end Scripts
