import AudioOutput.Buffer
import AudioOutput.Transition

/-!
# The mixahead worker

`OutputWorkerThread` as three threads over shared queues: the owner, which runs
the constructor and the destructor, the worker, and the I/O thread, which calls
`write`. One step is one access to a queue, to the semaphore or to a buffer;
statements that touch only a thread's own variables belong to the step before
them. The queues are FIFOs of capacity `mixahead`, the semaphore is a counter.
-/

namespace AudioOutput
namespace OutputWorkerThread

universe u

inductive AudioCommandType
  | buffer | stop
  deriving DecidableEq

structure AudioCommand (α : Type u) where
  type : AudioCommandType := .buffer
  data : List α := []
  used : ℕ := 0

/-- An `AudioCommand*`: the `i`-th command the constructor allocates, or the one
on the destructor's stack. -/
inductive Pointer
  | heap (i : ℕ) | stack
  deriving DecidableEq

structure Converter (α : Type u) (channels : ℕ) where
  State : Type
  initial : State
  write : State → ℕ → List α × State
  length_write : ∀ c n, (write c n).1.length = n*channels

structure Config (α : Type u) where
  mixahead : ℕ
  destinationFrames : ℕ
  destinationChannels : ℕ
  converter : Converter α destinationChannels
  /-- What freshly allocated memory happens to hold. -/
  unspecified : ℕ → ℕ → α

def Config.bufferSize {α : Type u} (cfg : Config α) : ℕ :=
  cfg.destinationChannels*cfg.destinationFrames

/-- Points of `workerThread`: it waits for the semaphore, pops a command until there is one, returns at
a stop command, clears the data, mixes, pushes until there is room and counts the initial mix. -/
inductive WorkerPc
  | unstarted
  | waiting
  | popping
  | inspecting (cmd : Pointer)
  | resetting (cmd : Pointer)
  | mixing (cmd : Pointer)
  | pushing (cmd : Pointer)
  | counting
  | returned
  deriving DecidableEq

/-- Locals of `write`; `offset` is how far `destination` has been advanced. -/
structure WriteCall (α : Type u) where
  requested : ℕ
  count : ℕ
  writtenTotal : ℕ
  destination : List α
  offset : ℕ

/-- Points of `write`: `acquiring` to `clearing` are in `writeHelper`, `releasing` to `clearing` give
the buffer back, and `returning` is behind the call of the helper. -/
inductive IoPc (α : Type u)
  | idle
  | acquiring (w : WriteCall α)
  | copying (w : WriteCall α)
  | releasing (w : WriteCall α) (buff : Pointer) (willWrite : ℕ)
  | signalling (w : WriteCall α) (willWrite : ℕ)
  | clearing (w : WriteCall α) (willWrite : ℕ)
  | returning (w : WriteCall α) (writtenThisTime : ℕ)

/-- Points of the constructor, up to `starting`, and of the destructor, from `stopPushing` on. -/
inductive OwnerPc
  | allocating (i : ℕ)
  | pushing (i : ℕ)
  | signalling
  | starting
  | running
  | stopPushing
  | stopSignalling
  | joining
  | drainingReturned
  | drainingPrepared
  | destroyed
  deriving DecidableEq

/-- What one call of `write` left behind. -/
structure WriteReturn (α : Type u) where
  requested : ℕ
  written : ℕ
  destination : List α

/-- The members of the class, the three program counters with their locals, and
the history: what the converter gave, the calls that returned, what was deleted. -/
structure State {α : Type u} (cfg : Config α) where
  heap : Pointer → AudioCommand α
  allocated : ℕ
  preparedBuffers : List Pointer
  returnedBuffers : List Pointer
  semaphore : ℕ
  currentBuffer : Option Pointer
  finishedInitialMix : ℕ
  converter : cfg.converter.State
  worker : WorkerPc
  mixed : ℕ
  initialMixDone : Bool
  io : IoPc α
  owner : OwnerPc
  produced : List (List α)
  returns : List (WriteReturn α)
  disposed : List Pointer
  disposedData : List Pointer

variable {α : Type u} [Zero α] (cfg : Config α)

def initial : State cfg where
  heap := fun _ => {}
  allocated := 0
  preparedBuffers := []
  returnedBuffers := []
  semaphore := 0
  currentBuffer := none
  finishedInitialMix := 0
  converter := cfg.converter.initial
  worker := .unstarted
  mixed := 0
  initialMixDone := false
  io := .idle
  owner := .allocating 0
  produced := []
  returns := []
  disposed := []
  disposedData := []

inductive Action (α : Type u) : Type u
  | worker
  | io
  | owner
  | write (count : ℕ) (destination : List α)
  | destroy

variable {cfg}

/-- `spsc_queue::push`; `none` when the queue is full. -/
def push (q : List Pointer) (p : Pointer) (capacity : ℕ) : Option (List Pointer) :=
  if q.length < capacity then some (q ++ [p]) else none

def State.setHeap (s : State cfg) (p : Pointer) (cmd : AudioCommand α) : State cfg :=
  { s with heap := Function.update s.heap p cmd }

/-- `mixed` is counted up to `mixahead`, and then the constructor's caller is let go. -/
def countInitialMix (s : State cfg) : State cfg :=
  if s.initialMixDone = false then
    if s.mixed+1 = cfg.mixahead then { s with mixed := s.mixed+1, finishedInitialMix := 1, initialMixDone := true }
    else { s with mixed := s.mixed+1 }
  else s

def workerThread (s : State cfg) : Option (State cfg) :=
  match s.worker with
  | .unstarted => none
  | .waiting =>
    if 0 < s.semaphore then some { s with semaphore := s.semaphore-1, worker := .popping } else none
  | .popping =>
    match s.returnedBuffers with
    | [] => some s
    | cmd :: rest => some { s with returnedBuffers := rest, worker := .inspecting cmd }
  | .inspecting cmd =>
    if (s.heap cmd).type = .stop then some { s with worker := .returned }
    else some { s with worker := .resetting cmd }
  | .resetting cmd =>
    let c := s.heap cmd
    let zeros := List.replicate (cfg.destinationFrames*cfg.destinationChannels) (0 : α)
    some { s.setHeap cmd { c with used := 0, data := Buffer.splice c.data 0 zeros } with
      worker := .mixing cmd }
  | .mixing cmd =>
    let c := s.heap cmd
    let r := cfg.converter.write s.converter cfg.destinationFrames
    some { s.setHeap cmd { c with data := Buffer.splice c.data 0 r.1 } with
      converter := r.2, produced := s.produced ++ [r.1], worker := .pushing cmd }
  | .pushing cmd =>
    match push s.preparedBuffers cmd cfg.mixahead with
    | none => some s
    | some q => some { s with preparedBuffers := q, worker := .counting }
  | .counting => some { countInitialMix s with worker := .waiting }
  | .returned => none

/-- `prepared_buffers.pop`, as `acquireBuffer` uses it. -/
def acquireBuffer (s : State cfg) : State cfg :=
  match s.preparedBuffers with
  | [] => { s with currentBuffer := none }
  | buff :: rest => { s with preparedBuffers := rest, currentBuffer := some buff }

/-- How many frames `writeHelper` takes out of a buffer. -/
def willWrite (cfg : Config α) (c : AudioCommand α) (count : ℕ) : ℕ :=
  let remaining := cfg.destinationFrames-c.used
  if remaining < count then remaining else count

/-- `std::copy(start, end, destination)` for that many frames. -/
def WriteCall.copy (cfg : Config α) (w : WriteCall α) (c : AudioCommand α) : WriteCall α :=
  let start := cfg.destinationChannels*c.used
  let copied := Buffer.slice c.data start (cfg.destinationChannels*willWrite cfg c w.count)
  { w with destination := Buffer.splice w.destination w.offset copied }

def WriteCall.advance (cfg : Config α) (w : WriteCall α) (writtenThisTime : ℕ) : WriteCall α :=
  { w with
    count := w.count-writtenThisTime
    writtenTotal := w.writtenTotal+writtenThisTime
    offset := w.offset+cfg.destinationChannels*writtenThisTime }

def ioThread (s : State cfg) : Option (State cfg) :=
  match s.io with
  | .idle => none
  | .acquiring w =>
    match s.currentBuffer with
    | none => some { acquireBuffer s with io := .copying w }
    | some _ => some { s with io := .copying w }
  | .copying w =>
    match s.currentBuffer with
    | none => some { s with io := .returning w 0 }
    | some buff =>
      let c := s.heap buff
      let n := willWrite cfg c w.count
      let s' := s.setHeap buff { c with used := c.used+n }
      if c.used+n = cfg.destinationFrames then some { s' with io := .releasing (w.copy cfg c) buff n }
      else some { s' with io := .returning (w.copy cfg c) n }
  | .releasing w buff willWrite =>
    match push s.returnedBuffers buff cfg.mixahead with
    | none => some s
    | some q => some { s with returnedBuffers := q, io := .signalling w willWrite }
  | .signalling w willWrite =>
    some { s with semaphore := s.semaphore+1, io := .clearing w willWrite }
  | .clearing w willWrite => some { s with currentBuffer := none, io := .returning w willWrite }
  | .returning w writtenThisTime =>
    let w' := w.advance cfg writtenThisTime
    if 0 < writtenThisTime then some { s with io := .acquiring w' }
    else some { s with
      io := .idle
      returns := s.returns ++ [⟨w'.requested,w'.writtenTotal,w'.destination⟩] }

/-- The body of the destructor's two loops. -/
def dispose (s : State cfg) (tmp : Pointer) : State cfg :=
  { s with
    disposed := s.disposed ++ [tmp]
    disposedData := if (s.heap tmp).type = .buffer then s.disposedData ++ [tmp] else s.disposedData }

def ownerThread (s : State cfg) : Option (State cfg) :=
  match s.owner with
  | .allocating i =>
    if i < cfg.mixahead then
      let data := (List.range cfg.bufferSize).map (cfg.unspecified i)
      some { s.setHeap (.heap i) { type := .buffer, data := data } with
        allocated := i+1, owner := .pushing i }
    else some { s with owner := .signalling }
  | .pushing i =>
    match push s.returnedBuffers (.heap i) cfg.mixahead with
    | none => some s
    | some q => some { s with returnedBuffers := q, owner := .allocating (i+1) }
  | .signalling => some { s with semaphore := s.semaphore+cfg.mixahead, owner := .starting }
  | .starting => some { s with worker := .waiting, owner := .running }
  | .running => none
  | .stopPushing =>
    match push s.returnedBuffers .stack cfg.mixahead with
    | none => some s
    | some q => some { s with returnedBuffers := q, owner := .stopSignalling }
  | .stopSignalling => some { s with semaphore := s.semaphore+1, owner := .joining }
  | .joining => if s.worker = .returned then some { s with owner := .drainingReturned } else none
  | .drainingReturned =>
    match s.returnedBuffers with
    | [] => some { s with owner := .drainingPrepared }
    | tmp :: rest => some { dispose s tmp with returnedBuffers := rest }
  | .drainingPrepared =>
    match s.preparedBuffers with
    | [] => some { s with owner := .destroyed }
    | tmp :: rest => some { dispose s tmp with preparedBuffers := rest }
  | .destroyed => none

/-- `write` may be called on an object that is constructed and not being taken
apart, with room at `destination` for the frames asked for. -/
def beginWrite (s : State cfg) (count : ℕ) (destination : List α) : Option (State cfg) :=
  match s.io, s.owner with
  | .idle, .running | .idle, .stopPushing | .idle, .stopSignalling | .idle, .joining =>
    if count*cfg.destinationChannels ≤ destination.length then
      some { s with io := .acquiring ⟨count,count,0,destination,0⟩ }
    else none
  | _, _ => none

def beginDestroy (s : State cfg) : Option (State cfg) :=
  match s.owner with
  | .running => some { s.setHeap .stack { type := .stop } with owner := .stopPushing }
  | _ => none

def step (s : State cfg) : Action α → Option (State cfg)
  | .worker => workerThread s
  | .io => ioThread s
  | .owner => ownerThread s
  | .write count destination => beginWrite s count destination
  | .destroy => beginDestroy s

def Reachable (s : State cfg) : Prop := Transition.Reaches step (fun _ => True) (initial cfg) s

def counting : Config ℕ where
  mixahead := 1
  destinationFrames := 2
  destinationChannels := 1
  converter := {
    State := ℕ
    initial := 1
    write := fun c n => ((List.range (n*1)).map (c+·),c+n)
    length_write := by simp }
  unspecified := fun _ _ => 0

def construct : List (Action ℕ) := [.owner,.owner,.owner,.owner,.owner]

def mixOnce : List (Action ℕ) := List.replicate 7 .worker

theorem reachable_of_run {acts : List (Action α)} {s : State cfg}
    (h : Transition.run step (initial cfg) acts = some s) : Reachable s :=
  Transition.Reaches.of_run (fun _ _ => trivial) h

end OutputWorkerThread
end AudioOutput
