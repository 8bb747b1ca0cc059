import SparkPulse.EventLog.Trim

/-!
# Live events

`publish_event`, the `EventBroadcaster`, the streams of `sse.py` and the page that shows the
timeline of a run. A deployment event is written to the log first, on the thread that publishes it;
its broadcast is handed to the event loop, which puts it into the queue of every subscriber. The
page reads the log once, when a row opens, and merges it with what its stream brings.

Between two switches of the loop nothing awaits inside the lock of the broadcaster, so that
`subscribe`, `unsubscribe` and `emit` are one step each.
-/

namespace SparkPulse.Timeline

open Program Prog
open EventLog (Clock Event Frame Page Failure history frameOf)

variable {c : Clock}

/-! ## Events -/

/-- The modules that publish events, each with a stream of its own. -/
inductive Source
  | deployments
  | models
  | images
  deriving DecidableEq, Repr

def Source.resourceType : Source → String
  | deployments => "deployment"
  | models => "model"
  | images => "image"

/-- What the generator of a stream lets through. -/
def Source.wants (source : Source) (data : Frame) : Bool :=
  source = deployments || data.resourceType = source.resourceType

/-- `a || b`, of strings -/
def orElse (text default : String) : String := if text = "" then default else text

/-- The event that a `publish_event` builds. -/
def Source.event (source : Source) (event : Event c) : Event c :=
  { event with
    resourceType := source.resourceType
    message := if source = deployments then orElse event.message event.eventType
      else event.eventType }

/-- `DeploymentEvent.to_dict` -/
def toDict (event : Event c) : Frame where
  eventId := event.eventId
  timestamp := c.isoformat event.timestamp
  type := event.eventType
  message := event.message
  resource := event.resource
  resourceType := event.resourceType
  node := event.node
  severity := event.severity

/-! ## The page -/

/-- `DeploymentEvent` of `operations.ts` -/
structure Entry where
  eventId : String
  timestamp : String
  eventType : String
  message : String
  resource : String
  resourceType : String
  node : Option String
  severity : Option String
  deriving DecidableEq

/-- `text || undefined` -/
def orUndefined (text : String) : Option String := if text = "" then none else some text

/-- `eventFromFrame`, with the id and the time it makes up where there is none. -/
def eventFromFrame (uuid now : String) (frame : Frame) : Entry where
  eventId := orElse frame.eventId uuid
  timestamp := orElse frame.timestamp now
  eventType := orElse frame.type "unknown"
  message := frame.message
  resource := frame.resource
  resourceType := orElse frame.resourceType "deployment"
  node := orUndefined frame.node
  severity := orUndefined frame.severity

/-- The first entry under each id that has not been seen. -/
def unseen (seen : List String) : List Entry → List Entry
  | [] => []
  | entry :: entries =>
    if entry.eventId ∈ seen then unseen seen entries
    else entry :: unseen (entry.eventId :: seen) entries

/-- The order of the merged events: the newest first. -/
def newerFirst (getTime : String → ℤ) (a b : Entry) : Bool :=
  getTime b.timestamp ≤ getTime a.timestamp

/-- `mergeEvents`, where `getTime` reads a timestamp. -/
def mergeEvents (getTime : String → ℤ) (lists : List (List Entry)) : List Entry :=
  (unseen [] lists.flatten).mergeSort (newerFirst getTime)

/-- `EVENT_LIMIT` -/
def eventLimit : ℕ := 100

/-- `EVENT_HISTORY_LIMIT` -/
def eventHistoryLimit : ℕ := 200

/-- The history of the page, as it was read; beside it all that was held then, the newest first, and
the stream that was open. -/
structure Loaded where
  id : String
  events : List Entry
  total : ℕ
  held : List Frame
  stream : Option ℕ
  deriving DecidableEq

/-- The answer to a read of the history, on its way to a page. -/
structure Response where
  page : ℕ
  run : String
  body : Page
  held : List Frame
  stream : Option ℕ
  deriving DecidableEq

/-- `RunsPage` with `useDeployments`; beside its state what it has cut off and what was cleared. -/
structure RunsPage where
  stream : Option ℕ := none
  events : List Entry := []
  expandedId : Option String := none
  history : Option Loaded := none
  dropped : List Entry := []
  cleared : List Entry := []
  deriving DecidableEq

namespace RunsPage

/-- `onMessage` -/
def onMessage (page : RunsPage) (entry : Entry) : RunsPage :=
  { page with
    events := (entry :: page.events).take eventLimit
    dropped := (entry :: page.events).drop eventLimit ++ page.dropped }

/-- A row is opened, or closed. -/
def expand (page : RunsPage) (run : Option String) : RunsPage :=
  { page with expandedId := run, history := none }

/-- The answer to a read arrives; it is for nothing when another row has been opened. -/
def arrive (page : RunsPage) (response : Response) (uuid : ℕ → String) (now : String) : RunsPage :=
  if page.expandedId = some response.run then
    { page with
      history := some
        { id := response.run
          events := response.body.events.mapIdx fun k frame ↦ eventFromFrame (uuid k) now frame
          total := response.body.total
          held := response.held
          stream := response.stream } }
  else page

/-- The timeline of a run is cleared. -/
def clear (page : RunsPage) (run : String) : RunsPage :=
  { page with
    events := page.events.filter fun entry ↦ entry.resource ≠ run
    cleared := (page.events.filter fun entry ↦ entry.resource = run) ++ page.cleared
    history := some { id := run, events := [], total := 0, held := [], stream := none } }

/-- The stored events of a run. -/
def stored (page : RunsPage) (run : String) : List Entry :=
  match page.history with
  | some loaded => if loaded.id = run then loaded.events else []
  | none => []

/-- `timelineFor`: the events it shows, and how many it says there are. -/
def timelineFor (getTime : String → ℤ) (page : RunsPage) (run : String) : List Entry × ℕ :=
  let live := page.events.filter fun entry ↦ entry.resource = run
  let merged := mergeEvents getTime [live, page.stored run]
  let held := match page.history with
    | some loaded => if loaded.id = run then loaded.total else 0
    | none => 0
  (merged, max held merged.length)

end RunsPage

/-! ## The service -/

/-- A generator with its queue: which stream it serves, the page at the other end, what it has sent.
Beside it the number of broadcasts when it subscribed, and what it has taken from its queue. -/
structure Stream where
  source : Source
  page : Option ℕ
  running : Bool := true
  sent : List Frame := []
  since : ℕ
  taken : List Frame := []
  deriving DecidableEq

/-- The log, the registered loops, the broadcasts that the loop has to run, the subscribers with
their queues, and the pages. Beside it what has been recorded and not handed over, and what has been
broadcast, each with its publisher. -/
structure World (c : Clock) where
  log : EventLog.World c
  registered : Source → Bool := fun _ ↦ false
  pending : List (ℕ × Event c) := []
  subscribers : List ℕ := []
  queues : ℕ → List Frame := fun _ ↦ []
  created : ℕ := 0
  streams : ℕ → Option Stream := fun _ ↦ none
  pages : ℕ → RunsPage := fun _ ↦ {}
  responses : List Response := []
  unsent : List (ℕ × Event c) := []
  emitted : List (ℕ × Event c) := []

/-- Put the data into the queue of every subscriber. -/
def putAll (subscribers : List ℕ) (queues : ℕ → List Frame) (data : Frame) : ℕ → List Frame :=
  subscribers.foldl (fun queues q ↦ Function.update queues q (queues q ++ [data])) queues

/-- The generator of a stream has taken data. -/
def Stream.take (stream : Stream) (data : Frame) : Stream :=
  { stream with
    taken := stream.taken ++ [data]
    sent := if stream.source.wants data then stream.sent ++ [data] else stream.sent }

/-- A page gets what its stream sends, unless it has another one by now. -/
def receive (pages : ℕ → RunsPage) (q : ℕ) (entry : Entry) : Option ℕ → ℕ → RunsPage
  | none => pages
  | some p =>
    if (pages p).stream = some q then Function.update pages p ((pages p).onMessage entry) else pages

/-- What data that a generator has taken comes to. -/
def deliver (pages : ℕ → RunsPage) (q : ℕ) (stream : Stream) (data : Frame) (uuid now : String) :
    ℕ → RunsPage :=
  if stream.source.wants data then receive pages q (eventFromFrame uuid now data) stream.page
  else pages

/-- A page opens a stream. -/
def attach (pages : ℕ → RunsPage) (q : ℕ) : Option ℕ → ℕ → RunsPage
  | none => pages
  | some p => Function.update pages p { pages p with stream := some q }

namespace World

/-- The end of `publish_event`: the broadcast goes to the running loop or to the registered one, and
nowhere if there is none. -/
def handOver (w : World c) (i : ℕ) (source : Source) (running : Bool) (event : Event c) : World c :=
  { w with
    pending := if running || w.registered source then w.pending ++ [(i, event)] else w.pending
    unsent := if source = .deployments then
        w.unsent.filter fun x ↦
          ¬(x.1 = i ∧ x.2.eventId = event.eventId ∧ x.2.resource = event.resource)
      else w.unsent }

/-- `EventBroadcaster.subscribe` -/
def subscribe (w : World c) (source : Source) (page : Option ℕ) : World c :=
  { w with
    subscribers := w.subscribers ++ [w.created]
    queues := Function.update w.queues w.created []
    created := w.created + 1
    streams := Function.update w.streams w.created
      (some { source, page, since := w.emitted.length })
    pages := attach w.pages w.created page }

/-- `EventBroadcaster.emit`: the loop runs one of the broadcasts. -/
def emit (w : World c) (k : ℕ) : Option (World c) :=
  (w.pending[k]?).map fun x ↦
    { w with
      pending := w.pending.eraseIdx k
      queues := putAll w.subscribers w.queues (toDict x.2)
      emitted := w.emitted ++ [x] }

/-- A generator takes the first of its queue, and sends it if it wants it. -/
def get (w : World c) (q : ℕ) (uuid now : String) : Option (World c) :=
  match w.streams q, w.queues q with
  | some stream, data :: rest =>
    if stream.running then
      some { w with
        queues := Function.update w.queues q rest
        streams := Function.update w.streams q (some (stream.take data))
        pages := deliver w.pages q stream data uuid now }
    else none
  | _, _ => none

/-- A generator ends. It has unsubscribed if it was cancelled while it waited for its queue, and has
not if it was closed while it sent. -/
def finish (w : World c) (q : ℕ) (cancelled : Bool) : World c :=
  { w with
    subscribers := if cancelled then w.subscribers.erase q else w.subscribers
    streams := Function.update w.streams q
      ((w.streams q).map fun stream ↦ { stream with running := false }) }

def onPage (w : World c) (p : ℕ) (f : RunsPage → RunsPage) : World c :=
  { w with pages := Function.update w.pages p (f (w.pages p)) }

/-- The history of a run is read for a page. -/
def read (w : World c) (p : ℕ) (run : String) : World c :=
  { w with
    responses := w.responses ++
      [{ page := p
         run := run
         body := history w.log.table run eventHistoryLimit none
         held := (w.log.table.newest run).map frameOf
         stream := (w.pages p).stream }] }

/-- One of the answers arrives. -/
def arrive (w : World c) (k : ℕ) (uuid : ℕ → String) (now : String) : Option (World c) :=
  (w.responses[k]?).map fun response ↦
    { w.onPage response.page fun page ↦ page.arrive response uuid now with
      responses := w.responses.eraseIdx k }

end World

/-! ## Calls -/

inductive Call (c : Clock)
  /-- A statement of the log. -/
  | log (e : EventLog.Call c)
  | handOver (source : Source) (running : Bool) (event : Event c)
  | register (source : Source)
  | subscribe (source : Source) (page : Option ℕ)
  | emit
  | get (q : ℕ)
  | finish (q : ℕ) (cancelled : Bool)
  /-- The connection of a page is lost. -/
  | disconnect (page : ℕ)
  | expand (page : ℕ) (run : Option String)
  | read (page : ℕ) (run : String)
  | arrive
  | clear (page : ℕ) (run : String)

@[reducible] def Call.Ret : Call c → Type
  | log e => e.Ret
  | _ => Unit

abbrev Op (c : Clock) := Prog (Call c) Call.Ret Failure

/-- What the schedule decides about a call: how the log answers, which of the broadcasts or answers
is next, and what the page makes up. -/
structure Answer where
  log : EventLog.Answer := {}
  pick : ℕ := 0
  uuid : ℕ → String := fun _ ↦ ""
  now : String := ""

/-- The event of a statement that has inserted one. -/
def recorded (i : ℕ) : (e : EventLog.Call c) → e.Ret → List (ℕ × Event c)
  | .insert event, .ok _ => [(i, event)]
  | _, _ => []

def Call.exec (i : ℕ) (w : World c) (e : Call c) (a : Answer) : Option (e.Ret × World c) :=
  match e with
  | .log e => (e.exec i w.log a.log).map fun r ↦
      (r.1, { w with log := r.2, unsent := recorded i e r.1 ++ w.unsent })
  | .handOver source running event => some ((), w.handOver i source running event)
  | .register source => some ((), { w with registered := Function.update w.registered source true })
  | .subscribe source page => some ((), w.subscribe source page)
  | .emit => (w.emit a.pick).map fun w' ↦ ((), w')
  | .get q => (w.get q (a.uuid 0) a.now).map fun w' ↦ ((), w')
  | .finish q cancelled => some ((), w.finish q cancelled)
  | .disconnect p => some ((), w.onPage p fun page ↦ { page with stream := none })
  | .expand p run => some ((), w.onPage p fun page ↦ page.expand run)
  | .read p run => some ((), if a.log.works then w.read p run else w)
  | .arrive => (w.arrive a.pick a.uuid a.now).map fun w' ↦ ((), w')
  | .clear p run => some ((), w.onPage p fun page ↦ page.clear run)

/-! ## Programs -/

def invoke (e : Call c) : Op c e.Ret := Prog.call e

/-- `event_log.record`, among the other calls. -/
def record (event : Event c) : Op c Bool := (EventLog.record event).embed .log fun _ r ↦ r

/-- `publish_event` of `native_runtime`, of `models` and of `images`; only the first records. -/
def publishEvent : Source → Bool → Event c → Op c Unit
  | .deployments, running, event => do
    let _ ← record (Source.deployments.event event)
    invoke (.handOver .deployments running (Source.deployments.event event))
  | source, running, event => invoke (.handOver source running (source.event event))

/-- `deployment_events_generator` and its siblings, up to the first event. -/
def connect (source : Source) (page : Option ℕ) : Op c Unit := do
  invoke (.register source)
  invoke (.subscribe source page)

/-- What happens to the service. -/
inductive Request (c : Clock)
  | publish (source : Source) (running : Bool) (event : Event c)
  | trim (resource : String)
  | forget (resource : String)
  /-- A page opens its stream, for the first time or again. -/
  | visit (page : ℕ)
  /-- Somebody else opens a stream. -/
  | follow (source : Source)
  | disconnect (page : ℕ)
  | expand (page : ℕ) (run : String)
  | collapse (page : ℕ)
  | clear (page : ℕ) (run : String)
  | emit
  | get (q : ℕ)
  | finish (q : ℕ) (cancelled : Bool)
  | arrive

def Request.program : Request c → Op c Unit
  | .publish source running event => publishEvent source running event
  | .trim resource => (EventLog.Request.trim resource).program.embed .log fun _ r ↦ r
  | .forget resource => (EventLog.Request.forget resource).program.embed .log fun _ r ↦ r
  | .visit p => connect .deployments (some p)
  | .follow source => connect source none
  | .disconnect p => invoke (.disconnect p)
  | .expand p run => do
    invoke (.expand p (some run))
    invoke (.read p run)
  | .collapse p => invoke (.expand p none)
  | .clear p run => invoke (.clear p run)
  | .emit => invoke .emit
  | .get q => invoke (.get q)
  | .finish q cancelled => invoke (.finish q cancelled)
  | .arrive => invoke .arrive

/-- The threads that still have to run, and the service. -/
abbrev Machine (c : Clock) := Threads ℕ (Call.Ret (c := c)) Failure Unit (World c)

/-- All interleavings of requests, from any log, with nobody connected. -/
def system (requests : ℕ → Request c) : Transition.System (Machine c) (ℕ × Answer) :=
  Threads.system Call.exec fun s ↦
    (∀ i, s.pool i = (requests i).program) ∧ ∃ log, s.world = { log }

end SparkPulse.Timeline
