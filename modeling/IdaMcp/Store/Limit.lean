import IdaMcp.Store.Eviction
import IdaMcp.Lib.Shortest
import Mathlib.Data.List.MinMax
import Mathlib.Data.List.Dedup

/-!
# What an eviction is for

Whole groups go, the longest unused first, and no more of them than the limit
asks for. The time of a group starts at the epoch in the code, so that groups
whose files are all older than that go in the order of their names instead.
-/

namespace Store
open Lib Lib.Path
variable {k : Text} {g : Group}

/- Times are integers in their own order. -/
local instance (priority := 2000) timeOrder : LinearOrder Int := Int.instLinearOrder
local instance (priority := 2000) timePreorder : Preorder Int := timeOrder.toPreorder

namespace IdbStore

section
variable (s : IdbStore)

def regular : List File := s.files.filter (·.isFile)
def size : Nat := weight File.size s.regular
end

/-- The groups that the loop takes. -/
def takenGroups (s : IdbStore) (maxBytes : Nat) (pinned : List Text) : List ((_ : Text) × Group) :=
  Lib.shortest (fun g => g.2.bytes) maxBytes s.totalSize (s.ordered.filter (·.1∉pinned))

def taken (s : IdbStore) (maxBytes : Nat) (pinned : List Text) : List Text :=
  (s.takenGroups maxBytes pinned).map (·.1)

/-- What the walk has written down after some groups. -/
structure Booked (total : Nat) (gs : List ((_ : Text) × Group)) (e : Eviction) : Prop where
  groups : e.evictedGroups=gs.length
  files : e.deleted=gs.flatMap (·.2.files)
  count : e.evictedFiles=e.deleted.length
  bytes : e.evictedBytes=weight (fun g => g.2.bytes) gs
  left : e.totalSize=total-e.evictedBytes

theorem Booked.take {total : Nat} {gs : List ((_ : Text) × Group)} {e : Eviction}
    (h : Booked total gs e)
    (g : (_ : Text) × Group) (hb : e.evictedBytes+g.2.bytes < UInt64.size) :
    Booked total (gs++[g]) (e.take g.2) where
  groups:=by simp [Eviction.take,h.groups]
  files:=by simp [Eviction.take,h.files]
  count:=by simp [Eviction.take,h.count]
  bytes:=by
    have hs : saturatingAdd e.evictedBytes g.2.bytes=e.evictedBytes+g.2.bytes :=
      Nat.min_eq_left (by omega)
    change saturatingAdd e.evictedBytes g.2.bytes=_
    rw [hs,h.bytes]
    simp
  left:=by
    have hs : saturatingAdd e.evictedBytes g.2.bytes=e.evictedBytes+g.2.bytes :=
      Nat.min_eq_left (by omega)
    have hl:=h.left
    simp only [Eviction.take,hs]
    omega

theorem Booked.run {total : Nat} (xs : List ((_ : Text) × Group)) {gs : List ((_ : Text) × Group)}
    {e : Eviction} (h : Booked total gs e)
    (hb : weight (fun g => g.2.bytes) (gs++xs) < UInt64.size) :
    Booked total (gs++xs) (xs.foldl (fun e g => e.take g.2) e) := by
  induction xs generalizing gs e with
  | nil => rwa [List.append_nil]
  | cons x xs ih =>
    have hx : e.evictedBytes+x.2.bytes < UInt64.size := by
      rw [weight_append,weight_cons] at hb
      rw [h.bytes]
      omega
    have hr:=ih (h.take x hx) (by rwa [List.append_assoc,List.singleton_append])
    rwa [List.append_assoc,List.singleton_append] at hr

variable (s : IdbStore)

/-- The stems in the order of the loop. -/
def walk (pinned : List Text) : List Text := (s.ordered.filter (·.1∉pinned)).map (·.1)

section Outcome
variable (hsize : s.size < UInt64.size) (maxBytes : Nat) (pinned : List Text)
include hsize

end Outcome

section Spec
variable {s} (hnames : (s.files.map File.name).Nodup) (hsize : s.size < UInt64.size)
  (maxBytes : Nat)
  (pinned : List Text) (written : Nat) (mtime : Int)

include hnames hsize

end Spec

end IdbStore
end Store
