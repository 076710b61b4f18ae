import MooCore.Event
/-!
# Running background work

A host is what background work touches: values, sessions, the table of waiters, the jobs whose
threads have been started, and the channel in which results travel to the scheduler. A job goes
through three steps, between which anything else may happen: its routine runs, its cleanup is
called, and its waiter leaves the table, its result going into the channel at the same moment if
its task still wants it.
-/

set_option autoImplicit false
namespace MooCore.Background

/-- How threads are started: the job is left for later, is done on the spot, or no thread is to be
had. -/
inductive Starter where
  | later
  | atOnce
  | failing (message : String)
deriving DecidableEq, Repr

/-- How far a job has come. -/
inductive Stage where
  | ready (request : Request)
  | returned (result : Value) (extra : Option Extra) (cleanup : Option Cleanup)
  | cleaned (result : Value) (extra : Option Extra)

structure Job where
  handle : Handle
  request : Nat
  task : TaskId
  stage : Stage

/-- The surroundings of background work. -/
structure Host extends Workspace, Lobby where
  gateway : Gateway
  /-- every request that has been made, with the task in whose name it was -/
  made : List (TaskId × Request) := []
  starter : Starter := .later
  jobs : List Job := []
  channel : List Completion := []
  listening : Bool := true
  clock : Instant := 0
  trace : List Event := []
  /-- whether the lock of the table is held -/
  locked : Bool := false

namespace Host

def locking (h : Host) (f : Host → Host) : Host :=
  { f { h with locked := true } with locked := false }

def note (h : Host) (e : Event) : Host := { h with trace := h.trace ++ [e] }

def noteAll (h : Host) (es : List Event) : Host := { h with trace := h.trace ++ es }

def now (h : Host) : Instant × Host := (h.clock + 1, { h with clock := h.clock + 1 })

def drop (h : Host) (v : Value) : Host := { h with heap := h.heap.release v }

def dropAll (h : Host) (vs : List Value) : Host := { h with heap := h.heap.releaseAll vs }

def keep (h : Host) (v : Value) : Host := { h with heap := h.heap.share v }

def plain (h : Host) (s : Shape) : Value × Host :=
  let (v, heap) := h.heap.plain s
  (v, { h with heap })

/-- A new value whose anonymous objects and waifs go to the queue in the end. -/
def build (h : Host) (r : Recipe) : Value × Host :=
  let (v, w) := h.toWorkspace.make true r
  (v, { h with toWorkspace := w })

/-- A new value as by `build`, unless a name in it stands for nothing. -/
def tryBuild (h : Host) (r : Recipe) : Except String Value × Host :=
  let (v, w) := h.toWorkspace.tryMake r
  (v, { h with toWorkspace := w })

def buildAll (h : Host) : List Recipe → List Value × Host
  | [] => ([], h)
  | r :: rs =>
    let (v, h) := h.build r
    let (vs, h) := buildAll h rs
    (v :: vs, h)

def workspace (h : Host) (op : Workspace.Op) : Workspace.Reply × Host :=
  let (r, w) := h.toWorkspace.apply op
  (r, { h with toWorkspace := w })

def unguard (h : Host) (s : SessionId) : Host := { h with sessions := h.sessions.unguard s }

def killWaiters (h : Host) (task : TaskId) : Nat × Host :=
  let (n, gateway) := h.gateway.kill task
  let marked := h.gateway.waiters.filter (·.task = task)
  (n, h.locking fun h =>
    { h with gateway }.noteAll (marked.map fun (w : Waiter) => .silenced w.request))

/-! ## Extra data and cleanups -/

def dropExtra (h : Host) : Option Extra → Host
  | some (.value v) => h.drop v
  | some (.guard s) => h.unguard s
  | none => h

def showExtra (h : Host) : Extra → CleanedExtra
  | .value v => .value v
  | .guard s => .guard s (((h.sessions.handle? s).map Session.activity).getD 0)

/-- Calls the cleanup of a request, which takes the extra data; without a cleanup the extra data
stays. -/
def cleanUp (h : Host) (request : Nat) (extra : Option Extra) :
    Option Cleanup → Option Extra × Host
  | none => (extra, h)
  | some c =>
    (none, (h.note (.cleaned request c (extra.map h.showExtra) h.locked)).dropExtra extra)

def abandon (h : Host) (request : Nat) (e : Envelope) : Host :=
  let (extra, h) := h.cleanUp request e.extra e.cleanup
  (h.drop e.argument).dropExtra extra

/-- Lets go of a request that was never made; its cleanup is not called. -/
def discard (h : Host) (e : Envelope) : Host := (h.drop e.argument).dropExtra e.extra

/-! ## Routines -/

/-- What a routine knows of itself. -/
structure Context where
  handle : Option Handle
  extra : Option Extra

/-- How a routine ended: with a value, or with the message, if any, it broke down with. -/
abbrev Ending := Except (Option String) Value

def answer (h : Host) (ctx : Context) : (q : Query) → q.Answer × Host
  | .isActive => (ctx.handle.all h.gateway.isActive, h)
  | .kill task => h.killWaiters task
  | .peerName =>
    match ctx.extra with
    | some (.guard s) => ((h.sessions.handle? s).bind Session.peerName, h)
    | some (.value _) | none => (none, h)
  | .extra =>
    match ctx.extra with
    | some (.value v) => (some v, h.keep v)
    | some (.guard _) | none => (none, h)
  | .make recipe attached =>
    let (v, w) := h.toWorkspace.make attached recipe
    (v, { h with toWorkspace := w })
  | .list elements =>
    let (v, heap) := h.heap.newList elements
    (v, { h with heap })
  | .release v => ((), h.drop v)
  | .acquire session =>
    let (held, sessions) := h.sessions.guard session
    (held, { h with sessions })
  | .noSession session => ((), h.note (.remark (.noSession session)))
  | .report response => ((), h.note (.remark (.nested response)))

/-- The result of a routine. One that broke down results in an error with its message. -/
def result (h : Host) : Ending → Value × Host
  | .ok v => (v, h)
  | .error message => h.plain (.errorMap .exec (message.getD "Background callback panicked"))

/-- Takes a waiter out of the table, and does something before it lets go of the lock. -/
def leave (h : Host) (handle : Handle) (f : Host → Host) : Host :=
  h.locking fun h => f { h with gateway := h.gateway.remove handle }

/-- The last step of a job: its waiter leaves the table, and its result is sent unless the task no
longer wants it or nobody listens. -/
def retire (h : Host) (request : Nat) (handle : Handle) (task : TaskId) (result : Value)
    (extra : Option Extra) : Host :=
  let told :=
    match h.gateway.waiter? handle with
    | none => (h.leave handle (·.note (.vanished request handle task))).drop result
    | some w =>
      if !w.active then (h.leave handle (·.note (.discarded request handle task))).drop result
      else if !h.listening then
        h.leave handle fun h => (h.note (.lost request handle task)).drop result
      else
        let c : Completion := { handle, task, result }
        h.leave handle fun h => { h with channel := h.channel ++ [c] }.note (.sent request c)
  told.dropExtra extra

/-- How a callback is carried out, given the extra data of its request. -/
abbrev Runner := Option Extra → Option Handle → Value → Host → Ending × Host

def work (run : Runner) (h : Host) (handle : Option Handle) (r : Request) : Value × Host :=
  let (ending, h) := run r.extra handle r.argument h
  h.result ending

def count (h : Host) (task : TaskId) (r : Request) : Nat × Host :=
  (h.made.length, { h with made := h.made ++ [(task, r)] })

def refuse (h : Host) (request : Nat) (e : Envelope) (why : Refusal) : Response × Host :=
  (.error why, (h.abandon request e).note (.refused request why))

def runInline (run : Runner) (h : Host) (request : Nat) (r : Request) : Response × Host :=
  let (v, h) := h.work run none r
  let (extra, h) := (h.note (.returned request v)).cleanUp request r.extra r.cleanup
  (.ok (.immediate v), (h.dropExtra extra).note (.immediate request v))

/-- Does the whole job of a request whose thread does not wait. -/
def runAtOnce (run : Runner) (h : Host) (request : Nat) (handle : Handle) (task : TaskId)
    (r : Request) : Host :=
  let (v, h) := h.work run (some handle) r
  let (extra, h) := (h.note (.returned request v)).cleanUp request r.extra r.cleanup
  h.retire request handle task v extra

def enter (h : Host) (request : Nat) (task : TaskId) (title : String) : Handle × Host :=
  let (now, h) := h.now
  let (handle, gateway) := h.gateway.register now request task title
  (handle, h.locking fun h => { h with gateway })

/-- Starts the thread of a request that has its waiter. -/
def launch (run : Runner) (h : Host) (request : Nat) (handle : Handle) (task : TaskId)
    (r : Request) : Response × Host :=
  match h.starter with
  | .later =>
    let job : Job := { handle, request, task, stage := .ready r }
    (.ok (.waiting handle),
      { h with jobs := h.jobs ++ [job] }.note (.accepted request handle task))
  | .atOnce =>
    (.ok (.waiting handle),
      (h.note (.accepted request handle task)).runAtOnce run request handle task r)
  | .failing message =>
    let (response, h) := h.refuse request r.toEnvelope (.spawnFailed message)
    (response, h.leave handle id)

def suspendBy (run : Runner) (h : Host) (task : TaskId) (r : Request) : Response × Host :=
  let (request, h) := h.count task r
  match h.gateway.admission task with
  | .refused why => h.refuse request r.toEnvelope why
  | .inline => h.runInline run request r
  | .thread =>
    let (handle, h) := h.enter request task r.title
    h.launch run request handle task r

end Host

/-- Runs a routine to its end. -/
def Routine.run (ctx : Host.Context) : Routine → Host → Host.Ending × Host
  | .finish v, h => (.ok v, h)
  | .crash message, h => (.error message, h)
  | .ask q next, h =>
    let (a, h) := h.answer ctx q
    run ctx (next a) h
  | .suspend task envelope body next, h =>
    let (response, h) := h.suspendBy
      (fun extra handle v h => run { handle, extra } (body handle v) h)
      task { envelope with callback := body }
    run ctx (next response) h

namespace Host

def call (callback : Callback) : Runner := fun extra handle v h =>
  (callback handle v).run { handle, extra } h

def suspend (h : Host) (task : TaskId) (r : Request) : Response × Host :=
  h.suspendBy (call r.callback) task r

/-! ## Jobs -/

def job? (h : Host) (handle : Handle) : Option Job := h.jobs.find? (·.handle = handle)

def advance (h : Host) (handle : Handle) (stage : Stage) : Host :=
  { h with jobs := h.jobs.modify (h.jobs.findIdx (·.handle = handle)) ({ · with stage }) }

def forget (h : Host) (handle : Handle) : Host :=
  { h with jobs := h.jobs.eraseP (·.handle = handle) }

/-- Takes the job behind a handle one step further. -/
def step (h : Host) (handle : Handle) : Host :=
  match h.job? handle with
  | none => h
  | some j =>
    match j.stage with
    | .ready r =>
      let (v, h) := h.work (call r.callback) (some handle) r
      (h.note (.returned j.request v)).advance handle (.returned v r.extra r.cleanup)
    | .returned v extra cleanup =>
      let (extra, h) := h.cleanUp j.request extra cleanup
      h.advance handle (.cleaned v extra)
    | .cleaned v extra => (h.forget handle).retire j.request handle j.task v extra

/-- Does the whole job behind a handle, and says whether there was one. -/
def runJob (h : Host) (handle : Handle) : Bool × Host :=
  match h.job? handle with
  | none => (false, h)
  | some _ => (true, ((h.step handle).step handle).step handle)

def runJobs (h : Host) (handles : List Handle) : Host :=
  handles.foldl (fun h handle => (h.runJob handle).2) h

def pending (h : Host) : List Handle := h.jobs.map Job.handle

def threadName (handle : Handle) : String := "stunt-bg-" ++ Text.natText handle.toNat

/-! ## The channel and the limits -/

def receive (h : Host) : List Completion × Host := (h.channel, { h with channel := [] })

def stopListening (h : Host) : Host :=
  { h.dropAll (h.channel.map Completion.result) with channel := [], listening := false }

def close (h : Host) : Host := (h.stopListening.workspace .dropQueue).2

def enumerate (h : Host) (rule : TaskId → String → Verdict) : Gateway.Enumeration × Host :=
  let (e, gateway) := h.gateway.enumerate rule
  (e, { h with gateway }.noteAll (e.silenced.map Event.silenced))

end Host
end MooCore.Background
