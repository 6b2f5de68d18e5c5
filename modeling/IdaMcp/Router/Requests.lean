import IdaMcp.Router.Frame

/-!
# The stages of a request

`route_request` takes an id, makes a channel, registers the sender under the id
and waits for the answer, each in a step of its own. The monitor follows one call
through these stages and collects the ids of the calls that have returned.
-/

namespace Router
open Lib (Json Monitor)
open Lib.Monitor (keeps_pure keeps_bind keeps_perform)

inductive Stage where
  | idle
  | named (id : ReqId)
  | wired (id : ReqId) (chan : Chan)
  | waiting (handle : DbHandle) (id : ReqId) (chan : Chan)
  deriving Repr,DecidableEq

namespace Stage

def id? : Stage → Option ReqId
  | .idle => none
  | .named id | .wired id _ | .waiting _ id _ => some id

-- the id of a call that has not registered it yet
def unregistered? : Stage → Option ReqId
  | .named id | .wired id _ => some id
  | .idle | .waiting _ _ _ => none

theorem id?_of_unregistered? {g : Stage} {id : ReqId} (h : g.unregistered?=some id) :
    g.id?=some id := by
  cases g <;> first | exact h | cases h

end Stage

structure Calls where
  stage : Stage
  /-- The ids of the calls that have returned. -/
  returned : List ReqId
  deriving Repr,DecidableEq

def Calls.none : Calls := ⟨.idle,[]⟩

def requestMonitor : Monitor Op.Res Calls where
  next m e := match e with
    | ⟨.inner .newReqId,id⟩ => {m with stage := .named id}
    | ⟨.channel id,c⟩ => {m with stage := .wired id c}
    | ⟨.inner (.routeRegister h id c),r⟩ => match r with
      | .ok _ => {m with stage := .waiting h id c}
      | .error _ => ⟨.idle,id::m.returned⟩
    | ⟨.receive _,_⟩ => match m.stage with
      | .waiting _ id _ => ⟨.idle,id::m.returned⟩
      | _ => m
    | _ => m
  allowed m op := match op with
    | .inner .newReqId => m.stage=.idle
    | .channel id => m.stage=.named id
    | .inner (.routeRegister _ id c) => m.stage=.wired id c
    | .receive c => ∃ h id, m.stage=.waiting h id c
    | _ => True
  good _ _ := True

namespace Requests

/-- The operations of which a request consists. -/
def Step : Op → Prop
  | .inner .newReqId | .channel _ | .inner (.routeRegister _ _ _) | .receive _ => True
  | _ => False

theorem next_other {op : Op} (h : ¬Step op) (m : Calls) (r : op.Res) :
    requestMonitor.next m ⟨op,r⟩=m := by
  cases op with
  | inner o => cases o <;> first | rfl | exact absurd trivial h
  | channel | receive => exact absurd trivial h
  | _ => rfl

theorem allowed_other {op : Op} (h : ¬Step op) (m : Calls) : requestMonitor.allowed m op := by
  cases op with
  | inner o => cases o <;> first | trivial | exact absurd trivial h
  | channel | receive => exact absurd trivial h
  | _ => trivial

theorem keeps_op {op : Op} (h : ¬Step op) (I : Calls → Prop) : requestMonitor.Keeps I (act op) :=
  keeps_perform fun m hm => ⟨allowed_other h m,fun r _ => by rw [next_other h]; exact hm⟩

theorem keeps_plain (I : Calls → Prop) (op : Op) (h : op.followed=false) :
    requestMonitor.Keeps I (act op) :=
  keeps_op (fun hs => by
    cases op with
    | inner o => cases o <;> first | exact False.elim hs | exact Bool.noConfusion h
    | channel | receive => exact Bool.noConfusion h
    | _ => exact False.elim hs) I

abbrev Idle (m : Calls) : Prop := m.stage=.idle

theorem keeps_enqueues (I : Calls → Prop) (op : Op) (h : op.enqueues=true) :
    requestMonitor.Keeps I (act op) :=
  keeps_op (by cases op <;> first | exact id | cases h) I

theorem keeps_locked {o : InnerOp} (h : ¬Step (.inner o)) : requestMonitor.Keeps Idle (locked o) :=
  keeps_withLock (keeps_plain _) (keeps_op h _)

/-- A call ends where it began, with one more id among those that have returned. -/
theorem keeps_routeRequest (h : Option DbHandle) (method : String) (params : Json) :
    requestMonitor.Keeps Idle (routeRequest h method params) := by
  refine keeps_bind (keeps_locked id) fun r => ?_
  rcases r with e | target
  · exact keeps_pure _
  intro m hm
  simp only [locked,withLock,Monitor.wp_bind,Monitor.wp_perform,Monitor.wp_pure]
  refine ⟨trivial,fun _ _ => ⟨hm,fun name _ => ⟨trivial,fun _ _ => ⟨rfl,fun chan _ => ⟨trivial,
    fun _ _ => ⟨rfl,fun r _ => ⟨trivial,fun _ _ => ?_⟩⟩⟩⟩⟩⟩⟩
  rcases r with e | _
  · rfl
  · simp only [awaitAnswer,Monitor.wp_bind,Monitor.wp_perform]
    refine ⟨⟨target,name,rfl⟩,fun r _ => ?_⟩
    rcases r with (_ | _) | _ | _ <;> rfl

theorem core : Core requestMonitor Idle :=
  core_of_ops (keeps_plain _) (keeps_enqueueOf (keeps_plain _) (keeps_enqueues _))
    keeps_routeRequest (fun o ho _ => keeps_op (fun hs => by
    cases o <;> first | exact False.elim hs | cases ho) _) fun _ _ _ _ _ => keeps_op id _

theorem body (job : Job) : requestMonitor.Keeps Idle job.body :=
  core.body job (fun task _ => keeps_finish (keeps_plain _) task) (fun _ _ _ _ =>
    keeps_op id _) fun handle _ => core.reader handle (keeps_locked id) (fun _ => keeps_locked id)
    fun _ => keeps_locked id

end Requests

end Router
