import IdaMcp.Router.Jobs
import IdaMcp.Store.Eviction

/-!
# Pruning the store under live workers (`src/router/mod.rs`, lines 2030-2042)

The watchdog evicts databases from the store and spares the groups of the
warm leases. Which databases the workers of the registry have open plays no
part in it.
-/

namespace Router
open Lib Lib.Path Store

/-- Lines 2031-2036. -/
def WarmPool.pinnedGroups (pool : WarmPool) : List Text :=
  pool.pinned.map fun path => withExtension path.toList []

/-- A file of the database `name`: one that differs from it in the extension at most. -/
def Belongs (root : Text) (f : File) (name : Name) : Prop :=
  IdbStore.groupStem root f=withExtension (join root name) []

/-- Lines 2030-2039, with the leases as they were read and the registry at the
time of the eviction. `databases` tells what each worker has open in the store. -/
def PruneSpares (inner : RouterInner) (databases : DbHandle → Option Name) (store : IdbStore)
    (maxBytes : Nat) (pool : WarmPool) : Prop :=
  ∀ handle worker,inner.workers.get handle=some worker → ∀ name,databases handle=some name →
    ∀ f∈store.files,Belongs store.root f name →
      f∉(store.eviction maxBytes pool.pinnedGroups).deleted

/-- The leases pin the group of the file, or the groups before it free enough. -/
def Protected (store : IdbStore) (maxBytes : Nat) (pool : WarmPool) (f : File) : Prop :=
  IdbStore.groupStem store.root f∈pool.pinnedGroups ∨
    store.totalSize ≤ maxBytes+
      IdbStore.freedBefore pool.pinnedGroups (IdbStore.groupStem store.root f) store.ordered

theorem spared_iff {store : IdbStore} {f : File} (hf : f∈store.files) (maxBytes : Nat)
    (pool : WarmPool) :
    f∉(store.eviction maxBytes pool.pinnedGroups).deleted ↔
      (f.isFile=true → Protected store maxBytes pool f) :=
  store.not_mem_deleted hf maxBytes pool.pinnedGroups

/-- A pass spares the open databases exactly when each of their files is
protected, whatever the workers, leases, sizes, times and limit are. -/
theorem prune_spares_iff (inner : RouterInner) (databases : DbHandle → Option Name)
    (store : IdbStore)
    (maxBytes : Nat) (pool : WarmPool) :
    PruneSpares inner databases store maxBytes pool ↔
      ∀ handle worker,inner.workers.get handle=some worker → ∀ name,databases handle=some name →
        ∀ f∈store.files,Belongs store.root f name → f.isFile=true →
          Protected store maxBytes pool f := by
  constructor
  · intro h handle worker hw name hn f hf hb
    exact (spared_iff hf maxBytes pool).mp (h handle worker hw name hn f hf hb)
  · intro h handle worker hw name hn f hf hb
    exact (spared_iff hf maxBytes pool).mpr (h handle worker hw name hn f hf hb)

/- `a.000000000000.dylib.i64`, the output for a raw binary `/a`. -/
def sampleDatabase : Name :=
  ⟨['a', '.']++List.replicate 12 '0'++['.', 'd', 'y', 'l', 'i', 'b', '.', 'i', '6', '4'],
    by decide,by decide,by decide,by decide⟩

def sampleStore : IdbStore := ⟨['/', 'i', 'd', 'b'],[⟨sampleDatabase,true,2,0⟩],∅⟩

/-- An `open_idb` registers a worker and takes no lease. With a limit below the
size of its database the next pass deletes that database. -/
theorem open_database_pruned :
    ∃ p,(service sampleConfig).Reach (fun _ _ => True) (.new sampleConfig) p ∧
      ¬PruneSpares p.state.inner (fun _ => some sampleDatabase) sampleStore 1 p.state.warmPool := by
  obtain ⟨p,hp,ht⟩:=(service sampleConfig).play_free (.new sampleConfig)
    (.start (.openIdb (openRequest "/a"))::steps 0 (idles 2++spawnInputs "/a" 1))
    (fun p => (p.state.inner.workers.get "0000000000000001").isSome ∧ p.state.warmPool.pinned=[])
    (by decide)
  obtain ⟨hw,hl⟩ := of_decide_eq_true ht
  obtain ⟨w,hw⟩ := Option.isSome_iff_exists.mp hw
  have hpins : WarmPool.pinnedGroups p.state.warmPool=[] := by rw [WarmPool.pinnedGroups,hl]; rfl
  refine ⟨p,hp,fun h => ?_⟩
  have hs:=h "0000000000000001" w hw sampleDatabase rfl ⟨sampleDatabase,true,2,0⟩
    (List.mem_singleton_self _) rfl
  rw [hpins] at hs
  exact hs (by decide +kernel)

end Router
