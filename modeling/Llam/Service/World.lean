import Llam.Service.Wire

/-!
# The broker and its threads

The broker at work: threads serve the transports of the clients, execute ring batches and reclaim what disconnected clients
leave behind. A thread takes one section under the broker's lock at a time (`World.step`), between the sections anything
may happen. The tables of the broker change by steps of `Llam.Broker.State` only.

A client cannot present a token, or write to a ring, before it has got the response that carries it (`World.hidden`,
`World.withheld`); otherwise clients do as they like.
-/

namespace Llam.Service

open Llam.Lib Llam.Broker Llam.Ring Function

/-- A request whose thread has not sent the response yet, with the numbers that were in use before it. -/
structure Pending where
  subject : UInt64
  request : Request
  next : Family → UInt64
  serials : Nat

/-- The worklist of `llam_broker_ring_serve_locked_session_batch`: what it has reserved, what is left and what is done.
`head` and `tail` are the private cursors, and `completeHead` is what the client had published, at the reservation. -/
structure Batch where
  session : Fin sessionCount
  serial : Nat
  subject : UInt64
  head : UInt64
  tail : UInt64
  completeHead : UInt64
  todo : List Submission
  done : List Completion
  created : List Token
  spawning : Bool

/-- A batch at its reservation. -/
def Session.batch (x : Session) (i : Fin sessionCount) (subject completeHead : UInt64) (todo : List Submission) : Batch :=
  ⟨i, x.serial, subject, x.submitHead, x.completeTail, completeHead, todo, [], [], false⟩

/-- The completion space that the batch has reserved. -/
def Batch.space (b : Batch) : Nat := (ringCap - (b.tail - b.completeHead)).toNat

/-- What a thread is doing. -/
inductive Job
  | idle
  | spawning (p : Pending)
  | reply (p : Pending) (r : Response)
  | batch (b : Batch)
  /-- The tasks of a batch that was not published are rolled back. -/
  | unwind (subject : UInt64) (tokens : List Token) (reclaim : Bool)
  /-- The parts of `llam_broker_reclaim_subject_objects` -/
  | reclaimRings (subject : UInt64)
  | reclaimObjects (subject : UInt64) (left : List Family)

/-- What has happened to a session: the submissions that were executed at their private index, their completions in the
order of execution, the completions that were published in their slots, and whether a batch was not published. -/
structure History where
  executed : List (UInt64 × Submission)
  completed : List Completion
  published : List (UInt64 × Completion)
  refused : Bool

structure World (n : Nat) where
  core : State n
  sessions : Sessions
  jobs : Fin n → Job
  connected : List UInt64
  subjects : List UInt64
  serials : Nat
  history : Nat → History

def World.init (n : Nat) (runtimeId : UInt64) (key : Key) : World n :=
  ⟨.init n runtimeId key, fun _ => .cleared, fun _ => .idle, [], [], 0, fun _ => ⟨[], [], [], false⟩⟩

/-- What happens next. A section that looks at a ring finds the memory `mem` there. -/
inductive Act (n : Nat)
  | request (thread : Fin n) (subject : UInt64) (r : Request) (ring : Nat) (mem : Shared) (overtakes : Nat → Nat) (env : Env)
  | serveRing (thread : Fin n) (subject : UInt64) (ring : Nat) (max : Nat) (mem : Shared)
  | call (thread : Fin n) (a : Action n)
  | delivered (thread : Fin n)
  | undelivered (thread : Fin n)
  | execute (thread : Fin n) (data : Bytes) (overtakes : Nat → Nat) (env : Env)
  | publish (thread : Fin n) (mem : Shared)
  | unwind (thread : Fin n)
  | reclaim (thread : Fin n)
  | connect (subject : UInt64)
  | forget (thread : Fin n) (subject : UInt64)
  | background (a : Action n)

/-- The step is the next section of the thread's spawn. -/
def ofThread {n : Nat} (k : Fin n) : Action n → Bool
  | .issue l _ _ | .finish l _ | .store l => l == k
  | _ => false

/-- The step is one of no thread: a trampoline, or `llam_broker_revoke_all`. -/
def ofNobody {n : Nat} : Action n → Bool
  | .fiber _ _ | .revokeAll => true
  | _ => false

/-- The token that the response would tell the client, if the request creates an object. -/
def Job.secret : Job → Option Token
  | .reply p r => match p.request.undo r with
    | .object t => some t
    | _ => none
  | _ => none

/-- The ring that the response would tell the client. -/
def Job.secretSession : Job → Option UInt64
  | .reply p r => match p.request.undo r with
    | .session id => some id
    | _ => none
  | _ => none

/-- The subject whose transport the thread serves. -/
def Job.serves : Job → Option UInt64
  | .spawning p | .reply p _ => some p.subject
  | _ => none

namespace World

variable {n : Nat} (w : World n)

variable (k : Fin n) (i : Fin sessionCount) (subject : UInt64)

def setJob (j : Job) : World n := { w with jobs := update w.jobs k j }

def setHistory (serial : Nat) (h : History) : World n := { w with history := update w.history serial h }

/-- The token is in a response that was not delivered. -/
def hidden (t : Token) : Bool := decide (∃ k, (w.jobs k).secret = some t)

/-- The client of the session does not have its ring yet. -/
def withheld : Bool := decide (∃ k, (w.jobs k).secretSession = some (UInt64.ofNat (i.val + 1)))

/-- The memory of a ring, as far as it is shared. -/
def memory (mem : Shared) : Shared := if w.withheld i then .initial else mem

/-- An operation that presents no secret. -/
def exec (a : Action n) : Option (State n × Option Outcome) :=
  match a with
  | .op _ o _ _ => if o.presents.any w.hidden then none else w.core.exec a
  | _ => w.core.exec a

/-! ## Ring batches -/

/-- `llam_broker_ring_serve_locked_session_batch` up to its first unlock -/
def reserve (mem : Shared) (max : Nat) : World n :=
  let x := w.sessions i
  if x.busy then w
  else
    match x.reserveBatch (w.memory i mem) max with
    | .error _ => w
    | .ok submissions =>
      let todo := submissions.take (authoritySafeBatchCount submissions)
      if todo = [] then w
      else
        { w.setJob k (.batch (x.batch i subject (w.memory i mem).completeHead todo)) with
          sessions := update w.sessions i { x with busy := true } }

/-- A submission is done. -/
def complete (b : Batch) (sub : Submission) (rest : List Submission) (c : Completion) (token : Option Token) :
    World n :=
  let h := w.history b.serial
  (w.setJob k (.batch { b with
      todo := rest
      done := b.done ++ [c]
      created := if RingOp.ofCode sub.op = some .TASK_SPAWN then b.created ++ token.toList else b.created
      spawning := false })).setHistory b.serial
    { h with completed := h.completed ++ [c] }

/-- The next submission of the batch, which is at the private index `b.head + b.done.length`. -/
def start (b : Batch) (sub : Submission) : World n :=
  let h := w.history b.serial
  w.setHistory b.serial { h with executed := h.executed ++ [(b.head + UInt64.ofNat b.done.length, sub)] }

/-- `llam_broker_ring_execute_submission`, or its first section -/
def executeNext (b : Batch) (data : Bytes) (overtakes : Nat → Nat) (env : Env) : Option (World n) :=
  match b.spawning, b.todo with
  | false, sub :: rest =>
    match sub.request data with
    | .nothing => some ((w.start b sub).complete k b sub rest (sub.completed 0) none)
    | .refused e => some ((w.start b sub).complete k b sub rest (sub.refuse data e).2 none)
    | .op o =>
      match w.exec (.op b.subject o overtakes env) with
      | some (core, some out) =>
        some (({ w with core := core }.start b sub).complete k b sub rest (sub.finish data out).2 out.token)
      | _ => none
    | .spawn code arg0 =>
      match w.exec (.spawn k b.subject code arg0 (.JOIN ||| .DETACH) env) with
      | some (core, some out) =>
        some (({ w with core := core }.start b sub).complete k b sub rest (sub.finish data out).2 out.token)
      | some (core, none) => some (({ w with core := core }.start b sub).setJob k (.batch { b with spawning := true }))
      | none => none
  | _, _ => none

/-- The rest of `llam_broker_ring_serve_locked_session_batch` -/
def publishBatch (b : Batch) (mem : Shared) : World n :=
  let x := w.sessions b.session
  let h := w.history b.serial
  if x.validatePublish mem b.tail then
    let count := UInt64.ofNat b.done.length
    let x' := { x with submitHead := x.submitHead + count, completeTail := b.tail + count, busy := false }
    { (w.setJob k (if x.reclaimPending then .reclaimRings x.subjectId else .idle)).setHistory b.serial
        { h with published := h.published ++ b.done.mapIdx fun i c => ((b.tail + UInt64.ofNat i) &&& ringMask, c) } with
      sessions := update w.sessions b.session (if x.reclaimPending then .cleared else x') }
  else
    { (w.setJob k (.unwind x.subjectId b.created x.reclaimPending)).setHistory b.serial { h with refused := true } with
      sessions := update w.sessions b.session .cleared }

/-! ## Requests -/

/-- A subject that has a transport, or the broker's own process. -/
def present : Bool := subject == 0 || w.connected.contains subject

/-- The memory is a ring of some session; a new mapping is not. -/
def inUse (ring : Nat) : Bool := decide (∃ i, (w.sessions i).active = true ∧ (w.sessions i).ring = some ring)

/-- The first section of a request. -/
def ask (r : Request) (ring : Nat) (mem : Shared) (overtakes : Nat → Nat) (env : Env) : Option (World n) :=
  let p : Pending := ⟨subject, r, w.core.control.next, w.serials⟩
  match r.asks with
  | .answer resp => some (w.setJob k (.reply p resp))
  | .op o =>
    match w.exec (.op subject o overtakes env) with
    | some (core, some out) => some ({ w with core := core }.setJob k (.reply p (r.response out)))
    | _ => none
  | .spawn code arg0 rights =>
    match w.exec (.spawn k subject code arg0 rights env) with
    | some (core, some out) => some ({ w with core := core }.setJob k (.reply p (r.response out)))
    | some (core, none) => some ({ w with core := core }.setJob k (.spawning p))
    | none => none
  | .createRing =>
    if w.inUse ring then none
    else
      match registerMapping w.sessions ring subject w.serials env.refused with
      | .error e => some (w.setJob k (.reply p (.failed e)))
      | .ok (sessions, i) =>
        some { w.setJob k (.reply p (Request.ringResponse i)) with sessions := sessions, serials := w.serials + 1 }
  | .serveRing id max =>
    match beginOwnedSession w.sessions id subject env.refused with
    | .error _ => some w
    | .ok i => some (w.reserve k i subject mem max)

/-- A request is answered: only a batch may be asked for by a subject that disconnects. -/
def asked (r : Request) : Bool :=
  match w.jobs k, r.asks with
  | .idle, .serveRing _ _ => true
  | .idle, _ => w.present subject
  | _, _ => false

/-- `llam_broker_rollback_created_response` -/
def rollback (p : Pending) (r : Response) : Option (World n) :=
  match p.request.undo r with
  | .nothing => some w
  | .session id => some { w with sessions := forgetSession w.sessions id p.subject }
  | .object t => (w.exec (.rollback t)).map fun s => { w with core := s.1 }

/-! ## Reclaim -/

/-- `llam_broker_reclaim_subject_objects`, after the rings -/
def families : List Family := [.BUFFER, .DESCRIPTOR, .CHANNEL, .TASK]

/-- The next section of a thread that reclaims. -/
def reclaimNext : Option (World n) :=
  match w.jobs k with
  | .reclaimRings subject =>
    let r := Service.reclaimRings w.sessions subject
    some { w.setJob k (if r.2 then .idle else .reclaimObjects subject families) with sessions := r.1 }
  | .reclaimObjects subject (f :: left) =>
    (w.exec (.reclaim f subject)).map fun s => { w.setJob k (.reclaimObjects subject left) with core := s.1 }
  | .reclaimObjects _ [] => some (w.setJob k .idle)
  | _ => none

/-- The next section of a thread that rolls the tasks of a batch back. -/
def unwindNext : Option (World n) :=
  match w.jobs k with
  | .unwind subject (t :: tokens) reclaim =>
    (w.exec (.rollback t)).map fun s => { w.setJob k (.unwind subject tokens reclaim) with core := s.1 }
  | .unwind subject [] reclaim => some (w.setJob k (if reclaim then .reclaimRings subject else .idle))
  | _ => none

/-- The next section of a spawn. -/
def callNext (a : Action n) : Option (World n) :=
  match w.jobs k, w.exec a with
  | .spawning p, some (core, some out) => some ({ w with core := core }.setJob k (.reply p (p.request.response out)))
  | .spawning _, some (core, none) => some { w with core := core }
  | .batch b, some (core, some out) =>
    match b.todo with
    | sub :: rest => some ({ w with core := core }.complete k b sub rest (sub.finish (fun _ => 0) out).2 out.token)
    | [] => none
  | .batch _, some (core, none) => some { w with core := core }
  | _, _ => none

end World

/-- One section. What the broker leaves to others is a guard here: a transport takes a subject that no transport has had
and is forgotten when no request of its subject is in progress, and the ring that a request creates is a mapping that no
session uses (`inUse` in `ask`). These are assumptions on the environment. -/
def World.step {n : Nat} (w : World n) : Act n → Option (World n)
  | .request k subject r ring mem overtakes env =>
    if w.asked k subject r then w.ask k subject r ring mem overtakes env else none
  | .serveRing k subject ring max mem =>
    match w.jobs k, w.present subject && mem.valid, sessionGet w.sessions ring subject w.serials with
    | .idle, true, .ok (sessions, i) =>
      some ({ w with sessions := sessions, serials := w.serials + 1 }.reserve k i subject mem max)
    | _, _, _ => none
  | .call k a => if ofThread k a then w.callNext k a else none
  | .delivered k =>
    match w.jobs k with
    | .reply _ _ => some (w.setJob k .idle)
    | _ => none
  | .undelivered k =>
    match w.jobs k with
    | .reply p r => (w.rollback p r).map fun w' => w'.setJob k .idle
    | _ => none
  | .execute k data overtakes env =>
    match w.jobs k with
    | .batch b => w.executeNext k b data overtakes env
    | _ => none
  | .publish k mem =>
    match w.jobs k with
    | .batch b => if b.todo = [] then some (w.publishBatch k b mem) else none
    | _ => none
  | .unwind k => w.unwindNext k
  | .reclaim k => w.reclaimNext k
  | .connect subject =>
    if subject = 0 ∨ subject ∈ w.subjects then none
    else some { w with connected := subject :: w.connected, subjects := subject :: w.subjects }
  | .forget k subject =>
    match w.jobs k with
    | .idle =>
      if subject ∈ w.connected ∧ ∀ l, (w.jobs l).serves ≠ some subject then
        some { w.setJob k (.reclaimRings subject) with connected := w.connected.filter (· ≠ subject) }
      else none
    | _ => none
  | .background a => if ofNobody a then (w.exec a).map fun s => { w with core := s.1 } else none

end Llam.Service
