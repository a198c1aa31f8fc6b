import Talyn.Lib.Runs
import Talyn.Transports.Read
import Talyn.Transports.Write

/-!
# One stream transport as a state machine

The events a transport sees: calls of its methods (from any Python code, so also while one of its own
functions waits for a protocol method), the prepare hook, completions of its operations, and the end
of a protocol method it called. Completions and hooks come from the loop, which never runs inside a
callback, so they need an empty stack.

The kernel stores at most what was submitted, and completion callbacks run in the order of the
operations; a batched read was harvested earlier and its data dispatched by the loop itself.
-/

namespace Talyn

/-- A stream transport and the stack of its functions waiting for Python code. -/
structure Machine where
  stream : Stream
  frames : List Frame
  deriving DecidableEq, Repr

/-- What can happen to a stream transport. `task` is the address `io.queue` returns if the event
queues an operation. -/
inductive Event
  | write (data : Option Bytes)
  | writeLines (items : List (Option Bytes)) (raises : Bool)
  | writeEof
  | close
  /-- an abort; for which of the sides the `CancelIO` cannot be queued -/
  | forceClose (exc : Option Exc) (readFails writeFails : Bool)
  | pauseReading
  | resumeReading (task : TaskId)
  /-- the prepare hook -/
  | flush (task : TaskId)
  /-- the completion callback of the pending write; `cancelled` is set when the loop is torn down -/
  | writeCompleted (res : ℤ) (cancelled : Bool) (task : TaskId)
  /-- the completion callback of the oldest pending read, for which the kernel stored `stored` -/
  | readCompleted (res : ℤ) (stored : Bytes) (cancelled : Bool) (task : TaskId)
  /-- the loop harvests a successful read into the completion batch -/
  | readHarvested (stored : Bytes)
  /-- the loop passes a batched record to the protocol -/
  | readDispatched (effect : Effect)
  /-- the completion callback of the oldest pending read, which was batched -/
  | batchedReadCompleted (cancelled : Bool) (task : TaskId)
  /-- the Python code called last returns -/
  | returned (keepOpen : Bool) (task : TaskId)
  /-- the Python code called last raises, or `io.queue` refuses the read queued after it -/
  | raised (exc : Exc)
  deriving DecidableEq, Repr

/-- The address `io.queue` would return. -/
def Event.task? : Event → Option TaskId
  | .resumeReading task | .flush task | .writeCompleted _ _ task | .readCompleted _ _ _ task
  | .batchedReadCompleted _ task | .returned _ task => some task
  | _ => none

namespace Machine

/-- Put the result of a transport function back; a frame it left goes on the stack. -/
def push (frames : List Frame) (r : Stream × Option Frame) : Machine :=
  ⟨r.1, r.2.toList ++ frames⟩

/-- The completion of the pending write, when the kernel reported `res` for the slice it was given. -/
def completeWrite (s : Stream) (slice : Bytes) (res : ℤ) (cancelled : Bool) (task : TaskId) :
    Stream × Option Frame :=
  let s := if res > 0 ∧ cancelled = false then s.emit (.written (slice.take res.toNat)) else s
  s.writeOperationCompleted ⟨res, .ofRes res, cancelled, false⟩ task

/-- `fetch_completed_tasks` for a successful read that goes into the completion batch. -/
def harvestRead (s : Stream) (earlier : List ReadOp) (stored : Bytes) (later : List ReadOp) : Stream :=
  { s with
    pendingReads := earlier ++ .batched stored.length :: later
    read :=
      { s.read with
        buffer := stored, batchDispatched := true, blockingTaskId := 0, cancelling := false } }

/-- The Python code a transport function was waiting for returned. -/
def frameReturned (s : Stream) (frame : Frame) (keepOpen : Bool) (task : TaskId) :
    Stream × Option Frame :=
  match frame with
  | .resumeWriting midDrain => s.writeCallbackReturned midDrain task
  | .writeCleanup => (s.writeCleanup, none)
  | frame => s.readFrameReturned frame keepOpen task

/-- The Python code a transport function was waiting for raised. -/
def frameRaised (s : Stream) (frame : Frame) (exc : Exc) : Stream × Option Frame :=
  match frame with
  | .resumeWriting _ => s.writeCallbackRaised exc
  | .writeCleanup => (s.writeCleanup, none)
  | frame => s.readFrameRaised frame exc

/-- One event; `none` when it cannot happen. -/
def step (m : Machine) (e : Event) : Option Machine :=
  if e.task? = some 0 then none
  else
    match e, m.frames with
    | .write data, frames => some ⟨m.stream.transportWrite data, frames⟩
    | .writeLines items raises, frames => some ⟨m.stream.transportWriteLines items raises, frames⟩
    | .writeEof, frames => some ⟨m.stream.transportWriteEof, frames⟩
    | .close, frames => some ⟨m.stream.transportClose, frames⟩
    | .forceClose exc readFails writeFails, frames =>
        some ⟨m.stream.transportForceClose exc readFails writeFails, frames⟩
    | .pauseReading, frames => some ⟨m.stream.transportPauseReading, frames⟩
    | .resumeReading task, frames => some (push frames (m.stream.transportResumeReading task))
    | .flush task, [] => some ⟨m.stream.flushBufferedWrites task, []⟩
    | .writeCompleted res cancelled task, [] =>
        match m.stream.pendingWrites with
        | [] => none
        | slice :: _ =>
          if res ≤ slice.length then some (push [] (completeWrite m.stream slice res cancelled task))
          else none
    | .readCompleted res stored cancelled task, [] =>
        match m.stream.pendingReads with
        | .inFlight :: _ =>
          if res.toNat = stored.length then
            let s := { m.stream with read := { m.stream.read with buffer := stored } }
            some (push [] (s.readOperationCompleted ⟨res, .ofRes res, cancelled, false⟩ task))
          else none
        | _ => none
    | .readHarvested stored, [] =>
        match m.stream.pendingReads.span (· ≠ .inFlight) with
        | (earlier, .inFlight :: later) =>
          if stored = [] then none else some ⟨harvestRead m.stream earlier stored later, []⟩
        | _ => none
    | .readDispatched effect, [] =>
        match effect with
        | .dataReceived _ | .bufferUpdated _ => some ⟨m.stream.emit effect, []⟩
        | _ => none
    | .batchedReadCompleted cancelled task, [] =>
        match m.stream.pendingReads with
        | .batched n :: _ =>
          some (push [] (m.stream.readOperationCompleted ⟨n, .success, cancelled, true⟩ task))
        | _ => none
    | .returned keepOpen task, frame :: frames =>
        some (push frames (frameReturned m.stream frame keepOpen task))
    | .raised exc, frame :: frames => some (push frames (frameRaised m.stream frame exc))
    | _, _ => none

/-- What one step can do, event by event. -/
inductive Step : Machine → Event → Machine → Prop
  | write (s : Stream) (frames : List Frame) (data : Option Bytes) :
      Step ⟨s, frames⟩ (.write data) ⟨s.transportWrite data, frames⟩
  | writeLines (s : Stream) (frames : List Frame) (items : List (Option Bytes)) (raises : Bool) :
      Step ⟨s, frames⟩ (.writeLines items raises) ⟨s.transportWriteLines items raises, frames⟩
  | writeEof (s : Stream) (frames : List Frame) :
      Step ⟨s, frames⟩ .writeEof ⟨s.transportWriteEof, frames⟩
  | close (s : Stream) (frames : List Frame) : Step ⟨s, frames⟩ .close ⟨s.transportClose, frames⟩
  | forceClose (s : Stream) (frames : List Frame) (exc : Option Exc) (readFails writeFails : Bool) :
      Step ⟨s, frames⟩ (.forceClose exc readFails writeFails)
        ⟨s.transportForceClose exc readFails writeFails, frames⟩
  | pauseReading (s : Stream) (frames : List Frame) :
      Step ⟨s, frames⟩ .pauseReading ⟨s.transportPauseReading, frames⟩
  | resumeReading (s : Stream) (frames : List Frame) (task : TaskId) :
      Step ⟨s, frames⟩ (.resumeReading task) (push frames (s.transportResumeReading task))
  | flush (s : Stream) (task : TaskId) :
      Step ⟨s, []⟩ (.flush task) ⟨s.flushBufferedWrites task, []⟩
  | writeCompleted (s : Stream) (slice : Bytes) (rest : List Bytes) (res : ℤ) (cancelled : Bool)
      (task : TaskId) (hp : s.pendingWrites = slice :: rest) (hle : res ≤ slice.length) :
      Step ⟨s, []⟩ (.writeCompleted res cancelled task)
        (push [] (completeWrite s slice res cancelled task))
  | readCompleted (s : Stream) (rest : List ReadOp) (res : ℤ) (stored : Bytes) (cancelled : Bool)
      (task : TaskId) (hp : s.pendingReads = .inFlight :: rest) (hlen : res.toNat = stored.length) :
      Step ⟨s, []⟩ (.readCompleted res stored cancelled task)
        (push [] (Stream.readOperationCompleted
          { s with read := { s.read with buffer := stored } } ⟨res, .ofRes res, cancelled, false⟩
          task))
  | readHarvested (s : Stream) (earlier later : List ReadOp) (stored : Bytes)
      (hp : s.pendingReads = earlier ++ .inFlight :: later) (hne : stored ≠ []) :
      Step ⟨s, []⟩ (.readHarvested stored) ⟨harvestRead s earlier stored later, []⟩
  | dataDispatched (s : Stream) (data : Bytes) :
      Step ⟨s, []⟩ (.readDispatched (.dataReceived data)) ⟨s.emit (.dataReceived data), []⟩
  | bufferDispatched (s : Stream) (nbytes : ℕ) :
      Step ⟨s, []⟩ (.readDispatched (.bufferUpdated nbytes)) ⟨s.emit (.bufferUpdated nbytes), []⟩
  | batchedReadCompleted (s : Stream) (n : ℕ) (rest : List ReadOp) (cancelled : Bool) (task : TaskId)
      (hp : s.pendingReads = .batched n :: rest) :
      Step ⟨s, []⟩ (.batchedReadCompleted cancelled task)
        (push [] (s.readOperationCompleted ⟨n, .success, cancelled, true⟩ task))
  | returned (s : Stream) (frame : Frame) (frames : List Frame) (keepOpen : Bool) (task : TaskId) :
      Step ⟨s, frame :: frames⟩ (.returned keepOpen task)
        (push frames (frameReturned s frame keepOpen task))
  | raised (s : Stream) (frame : Frame) (frames : List Frame) (exc : Exc) :
      Step ⟨s, frame :: frames⟩ (.raised exc) (push frames (frameRaised s frame exc))

/-- **Inversion of `step`.** Every proof about a step starts from here. -/
theorem step_cases {m m' : Machine} {e : Event} (hs : m.step e = some m') : Step m e m' := by
  obtain ⟨s, frames⟩ := m
  unfold step at hs
  split at hs
  · cases hs
  cases e with
  | write data =>
    obtain rfl := Option.some.inj hs
    exact .write s frames data
  | writeLines items raises =>
    obtain rfl := Option.some.inj hs
    exact .writeLines s frames items raises
  | writeEof =>
    obtain rfl := Option.some.inj hs
    exact .writeEof s frames
  | close =>
    obtain rfl := Option.some.inj hs
    exact .close s frames
  | forceClose exc readFails writeFails =>
    obtain rfl := Option.some.inj hs
    exact .forceClose s frames exc readFails writeFails
  | pauseReading =>
    obtain rfl := Option.some.inj hs
    exact .pauseReading s frames
  | resumeReading task =>
    obtain rfl := Option.some.inj hs
    exact .resumeReading s frames task
  | flush task =>
    cases frames with
    | cons frame frames => cases hs
    | nil =>
      obtain rfl := Option.some.inj hs
      exact .flush s task
  | writeCompleted res cancelled task =>
    cases frames with
    | cons frame frames => cases hs
    | nil =>
      dsimp only at hs
      split at hs
      · cases hs
      · rename_i slice rest hp
        split at hs
        · rename_i hle
          obtain rfl := Option.some.inj hs
          exact .writeCompleted s slice rest res cancelled task hp hle
        · cases hs
  | readCompleted res stored cancelled task =>
    cases frames with
    | cons frame frames => cases hs
    | nil =>
      dsimp only at hs
      split at hs
      · rename_i rest hp
        split at hs
        · rename_i hlen
          obtain rfl := Option.some.inj hs
          exact .readCompleted s rest res stored cancelled task hp hlen
        · cases hs
      · cases hs
  | readHarvested stored =>
    cases frames with
    | cons frame frames => cases hs
    | nil =>
      dsimp only at hs
      split at hs
      · rename_i earlier later hspan
        split at hs
        · cases hs
        · rename_i hne
          obtain rfl := Option.some.inj hs
          have hp : s.pendingReads = earlier ++ .inFlight :: later := by
            have := List.takeWhile_append_dropWhile (p := fun op => decide (op ≠ .inFlight))
              (l := s.pendingReads)
            rw [List.span_eq_takeWhile_dropWhile] at hspan
            rw [← this, (Prod.mk.inj hspan).1, (Prod.mk.inj hspan).2]
          exact .readHarvested s earlier later stored hp hne
      · cases hs
  | readDispatched effect =>
    cases frames with
    | cons frame frames => cases hs
    | nil =>
      dsimp only at hs
      split at hs
      · obtain rfl := Option.some.inj hs
        exact .dataDispatched s _
      · obtain rfl := Option.some.inj hs
        exact .bufferDispatched s _
      · cases hs
  | batchedReadCompleted cancelled task =>
    cases frames with
    | cons frame frames => cases hs
    | nil =>
      dsimp only at hs
      split at hs
      · rename_i n rest hp
        obtain rfl := Option.some.inj hs
        exact .batchedReadCompleted s n rest cancelled task hp
      · cases hs
  | returned keepOpen task =>
    cases frames with
    | nil => cases hs
    | cons frame frames =>
      obtain rfl := Option.some.inj hs
      exact .returned s frame frames keepOpen task
  | raised exc =>
    cases frames with
    | nil => cases hs
    | cons frame frames =>
      obtain rfl := Option.some.inj hs
      exact .raised s frame frames exc

/-- A transport right after its construction, with the first read armed. -/
def init (protocol : Protocol) (fd fixedFileIndex : ℕ) (ownsFd serverRef : Bool) (task : TaskId) :
    Machine :=
  let s := Stream.new protocol fd fixedFileIndex ownsFd serverRef
  match protocol.type with
  | .legacy => ⟨s.performRead task, []⟩
  | .buffered => ⟨(s.emit .getBuffer).performBufferedRead task, []⟩

end Machine

end Talyn
