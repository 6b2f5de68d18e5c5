import Mathlib.Data.List.Infix
import Mathlib.Data.List.TakeWhile

/-!
# File names and their extensions

The text of a path as the Rust standard library takes it apart: the last
component, its stem and extension, and a path with its extension replaced.
-/

namespace Lib.Path

abbrev Text := List Char

/-- The last component of a path to a file. `.` and `..` are directories. -/
structure Name where
  chars : Text
  nonempty : chars≠[]
  plain : '/' ∉ chars
  notHere : chars≠['.']
  notUp : chars≠['.', '.']
  deriving DecidableEq

/-- A name is cut at its last dot. Without a dot, or with one in front only,
the whole name is the stem. -/
def cut (name : Text) : Text × Option Text :=
  match name.reverse.dropWhile (· ≠ '.') with
  | [] => (name,none)
  | [_] => (name,none)
  | _::before => (before.reverse,some (name.reverse.takeWhile (· ≠ '.')).reverse)

def Name.stem (n : Name) : Text := (cut n.chars).1
def Name.extension (n : Name) : Option Text := (cut n.chars).2

/-- What `set_extension` appends to a stem. -/
def suffix (ext : Text) : Text := if ext=[] then [] else '.'::ext

def Name.withExtension (n : Name) (ext : Text) : Text := n.stem++suffix ext

/-- Trailing separators and `.` components, on the reversed text. -/
def trimEnd : Text → Text
  | '/'::cs => trimEnd cs
  | '.':: '/'::cs => trimEnd cs
  | cs => cs

/-- The last component of a path and what stands before it. -/
def fileName (path : Text) : Option (Text × Text) :=
  let rest:=trimEnd path.reverse
  let name:=(rest.takeWhile (· ≠ '/')).reverse
  if name=[] ∨ name=['.'] ∨ name=['.', '.'] then none
  else some ((rest.dropWhile (· ≠ '/')).reverse,name)

def withExtension (path ext : Text) : Text :=
  match fileName path with
  | none => path
  | some (dir,name) => dir++(cut name).1++suffix ext

def join (dir : Text) (n : Name) : Text := dir++ '/'::n.chars

/-- Models `Path::join`: an absolute path takes the place of the directory. -/
def push (dir file : Text) : Text :=
  if file.head?=some '/' then file
  else if dir=[] ∨ dir.getLast?=some '/' then dir++file
  else dir++ '/'::file

theorem push_name {dir : Text} (hd : dir≠[]) (hl : dir.getLast?≠some '/') (n : Name) :
    push dir n.chars=join dir n := by
  have hh : n.chars.head?≠some '/' := fun h => n.plain (List.mem_of_head? h)
  rw [push,if_neg hh,if_neg (not_or.mpr ⟨hd,hl⟩),join]

section Dots
variable {h a b : Text}

theorem dotted_append (hh : '.' ∉ h) :
    '.'::h++['.'] <:+: a++ '.'::b ↔ '.'::h++['.'] <:+: a++['.'] ∨ '.'::h++['.'] <:+: '.'::b := by
  constructor
  · rintro ⟨s,t,he⟩
    have he' : s++('.'::(h++ '.'::t))=a++ '.'::b := by simpa using he
    rcases List.append_eq_append_iff.mp he' with ⟨m,hs,hm⟩ | ⟨m,ha,hm⟩
    · rcases m with _ | ⟨x,m⟩
      · right
        exact ⟨[],t,by simpa using hm⟩
      · left
        rw [List.cons_append,List.cons.injEq] at hm
        obtain ⟨rfl,hm⟩ := hm
        rcases List.append_eq_append_iff.mp hm with ⟨k,hk,hm'⟩ | ⟨k,hk,hm'⟩
        · rcases k with _ | ⟨y,k⟩
          · refine ⟨s,[],?_⟩
            rw [hs,hk]; simp
          · rw [List.cons_append,List.cons.injEq] at hm'
            obtain ⟨rfl,-⟩ := hm'
            refine ⟨s,k++['.'],?_⟩
            rw [hs,hk]; simp
        · rcases k with _ | ⟨y,k⟩
          · refine ⟨s,[],?_⟩
            rw [hs,← List.append_nil m,← hk]; simp
          · rw [List.cons_append,List.cons.injEq] at hm'
            exact absurd (hk ▸ hm'.1 ▸ (by simp)) hh
    · right
      exact ⟨m,t,by simpa using hm.symm⟩
  · rintro (⟨s,t,he⟩ | ⟨s,t,he⟩)
    · refine ⟨s,t++b,?_⟩
      have:=congrArg (·++b) he
      simpa using this
    · exact ⟨a++s,t,by simpa using he⟩

theorem dotted_between (hh : '.' ∉ h) (ha : '.' ∉ a) :
    '.'::h++['.'] <:+: '.'::a++['.'] ↔ h=a := by
  constructor
  · rintro ⟨s,t,he⟩
    have h0 : List.count '.' a=0 := List.count_eq_zero.mpr ha
    rcases s with _ | ⟨c,s⟩
    · have he' : h++ '.'::t=a++ '.'::[] := by simpa using he
      have ht : '.' ∉ t := by
        have hc:=congrArg (List.count '.') he'
        simp only [List.count_append,List.count_cons_self,List.count_nil,h0] at hc
        exact List.count_eq_zero.mp (by omega)
      exact ((List.append_cons_inj_of_notMem hh ht).mp he').1
    -- a second dot before the last one is one too many
    · have he' : s++ '.'::(h++ '.'::t)=a++['.'] := by
        simp only [List.cons_append,List.append_assoc,List.nil_append] at he
        exact (List.cons.inj he).2
      have hc:=congrArg (List.count '.') he'
      simp only [List.count_append,List.count_cons_self,List.count_nil,h0] at hc
      omega
  · rintro rfl
    exact List.infix_refl _

theorem dotted_word (hh : '.' ∉ h) (ha : '.' ∉ a) :
    '.'::h++['.'] <:+: '.'::(a++ '.'::b) ↔ h=a ∨ '.'::h++['.'] <:+: '.'::b := by
  have hs:=dotted_append (a := '.'::a) (b := b) hh
  rwa [dotted_between hh ha] at hs

theorem not_dotted (ha : '.' ∉ a) : ¬ '.'::h++['.'] <:+: '.'::a := by
  rintro ⟨s,t,he⟩
  have hc:=congrArg (List.count '.') he
  have h0 : List.count '.' a=0 := List.count_eq_zero.mpr ha
  simp only [List.count_append,List.count_cons_self,h0] at hc
  omega

end Dots
end Lib.Path
