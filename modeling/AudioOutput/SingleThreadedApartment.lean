import AudioOutput.Transition

/-!
# The single-threaded apartment

`callInApartment` as any number of threads make it, `submitTask` with its
compare-exchange, and the message loop of the apartment's thread. A task is an object
of its caller's frame: at its address there is nothing once the caller has returned.
-/

namespace AudioOutput
namespace SingleThreadedApartment

universe u
variable {T X R : Type u}

structure Call (X : Type u) where
  number : ℕ
  callable : X
  address : ℕ

/-- Points of `callInApartment`: the exchange of `current_task`, `sendMessage`, and the future. -/
inductive Pc (X : Type u)
  | idle
  | exchanging (c : Call X)
  | posting (c : Call X)
  | waiting (c : Call X)

def Pc.call? : Pc X → Option (Call X)
  | .idle => none
  | .exchanging c | .posting c | .waiting c => some c

/-- `thread` is any other thread message and `window` one with a window. -/
inductive Message
  | task
  | quit
  | thread
  | window
  deriving DecidableEq

/-- Points of `apartmentThreadFunction`. `loading`, `calling` and `clearing` are the handler of the task
message, `inside` is in the task itself, before the promise is set; `undefined` is a null or
dangling task, or a promise set twice. -/
inductive Apartment (T : Type u)
  | receiving
  | loading
  | calling (task : Option ℕ)
  | inside (t : T)
  | clearing
  | draining
  | exited
  | undefined

/-- `owner` says whose task is at an address; `active` lists the threads with a call
under way. The last three fields are history: the callables in the order of the calls,
and what has been executed and returned, with the number of the call. -/
structure State (T X R : Type u) where
  currentTask : Option ℕ := none
  messages : List Message := []
  apartment : Apartment T := .receiving
  thread : T → Pc X := fun _ => .idle
  future : T → Option R := fun _ => none
  owner : ℕ → Option T := fun _ => none
  active : List T := []
  destroyed : Bool := false
  calls : List X := []
  executed : List (ℕ × X × R) := []
  returned : List (ℕ × X × R) := []

def initial (T X R : Type u) : State T X R := {}

inductive Action (T X R : Type u)
  | callInApartment (t : T) (x : X) (address : ℕ)
  | exchange (t : T) (spurious : Bool)
  | post (t : T)
  | get (t : T)
  | message (m : Message)
  | apartment
  | execute (r : R)
  | destroy

/-- What the message loop does with a message. -/
def handler : Message → Apartment T
  | .task => .loading
  | .quit => .draining
  | _ => .receiving

def State.target (s : State T X R) (task : Option ℕ) : Apartment T :=
  match task.bind s.owner with
  | none => .undefined
  | some t => .inside t

def apartmentThread (s : State T X R) : Option (State T X R) :=
  match s.apartment with
  | .receiving =>
    match s.messages with
    | [] => none
    | m :: rest => some { s with messages := rest, apartment := handler m }
  | .loading => some { s with apartment := .calling s.currentTask }
  | .calling task => some { s with apartment := s.target task }
  | .clearing => some { s with currentTask := none, apartment := .receiving }
  | .draining =>
    match s.messages with
    | [] => some { s with apartment := .exited }
    | _ :: rest => some { s with messages := rest }
  | _ => none

variable [DecidableEq T]

def State.setThread (s : State T X R) (t : T) (pc : Pc X) : State T X R :=
  { s with thread := Function.update s.thread t pc }

/-- A new call, its task at an address where no other task is. -/
def State.begin (s : State T X R) (t : T) (x : X) (address : ℕ) : State T X R :=
  { s.setThread t (.exchanging ⟨s.calls.length,x,address⟩) with
    future := Function.update s.future t none
    owner := Function.update s.owner address (some t)
    active := t :: s.active
    calls := s.calls ++ [x] }

/-- The task of `t` has called its function with result `r` and sets the promise. -/
def State.execute (s : State T X R) (t : T) (r : R) : State T X R :=
  match (s.thread t).call?, s.future t with
  | some c, none => { s with
      future := Function.update s.future t (some r)
      executed := s.executed ++ [(c.number,c.callable,r)]
      apartment := .clearing }
  | _, _ => { s with apartment := .undefined }

/-- The caller returns, and its task is gone. -/
def State.finish (s : State T X R) (t : T) (c : Call X) (r : R) : State T X R :=
  { s.setThread t .idle with
    owner := Function.update s.owner c.address none
    active := s.active.erase t
    returned := s.returned ++ [(c.number,c.callable,r)] }

def step (s : State T X R) : Action T X R → Option (State T X R)
  | .callInApartment t x address =>
    match s.thread t, s.owner address, s.destroyed with
    | .idle, none, false => some (s.begin t x address)
    | _, _, _ => none
  | .exchange t spurious =>
    match s.thread t, s.currentTask, spurious with
    | .exchanging c, none, false => some { s.setThread t (.posting c) with currentTask := some c.address }
    | .exchanging _, _, _ => some s
    | _, _, _ => none
  | .post t =>
    match s.thread t with
    | .posting c => some { s.setThread t (.waiting c) with messages := s.messages ++ [.task] }
    | _ => none
  | .get t =>
    match s.thread t, s.future t with
    | .waiting c, some r => some (s.finish t c r)
    | _, _ => none
  | .message m =>
    match m with
    | .thread | .window => some { s with messages := s.messages ++ [m] }
    | _ => none
  | .apartment => apartmentThread s
  | .execute r =>
    match s.apartment with
    | .inside t => some (s.execute t r)
    | _ => none
  | .destroy =>
    match s.active, s.destroyed with
    | [], false => some { s with destroyed := true, messages := s.messages ++ [.quit] }
    | _, _ => none

def Reachable (s : State T X R) : Prop := Transition.Reaches step (fun _ => True) (initial T X R) s

inductive Move (s : State T X R) : Action T X R → State T X R → Prop
  | call {t : T} {x : X} {address : ℕ} (hpc : s.thread t = .idle) (howner : s.owner address = none)
      (hopen : s.destroyed = false) : Move s (.callInApartment t x address) (s.begin t x address)
  | exchange {t : T} {c : Call X} (hpc : s.thread t = .exchanging c) (hfree : s.currentTask = none) :
      Move s (.exchange t false) { s.setThread t (.posting c) with currentTask := some c.address }
  | retry {t : T} {spurious : Bool} {c : Call X} (hpc : s.thread t = .exchanging c) : Move s (.exchange t spurious) s
  | post {t : T} {c : Call X} (hpc : s.thread t = .posting c) :
      Move s (.post t) { s.setThread t (.waiting c) with messages := s.messages ++ [.task] }
  | get {t : T} {c : Call X} {r : R} (hpc : s.thread t = .waiting c) (hfuture : s.future t = some r) :
      Move s (.get t) (s.finish t c r)
  | message {m : Message} (hm : m = .thread ∨ m = .window) : Move s (.message m) { s with messages := s.messages ++ [m] }
  | receive {m : Message} {rest : List Message} (hpc : s.apartment = .receiving) (hm : s.messages = m :: rest) :
      Move s .apartment { s with messages := rest, apartment := handler m }
  | load (hpc : s.apartment = .loading) : Move s .apartment { s with apartment := .calling s.currentTask }
  | dereference {task : Option ℕ} (hpc : s.apartment = .calling task) :
      Move s .apartment { s with apartment := s.target task }
  | execute {t : T} {r : R} (hpc : s.apartment = .inside t) : Move s (.execute r) (s.execute t r)
  | clear (hpc : s.apartment = .clearing) : Move s .apartment { s with currentTask := none, apartment := .receiving }
  | drain {m : Message} {rest : List Message} (hpc : s.apartment = .draining) (hm : s.messages = m :: rest) :
      Move s .apartment { s with messages := rest }
  | exit (hpc : s.apartment = .draining) (hm : s.messages = []) : Move s .apartment { s with apartment := .exited }
  | destroy (hactive : s.active = []) (hopen : s.destroyed = false) :
      Move s .destroy { s with destroyed := true, messages := s.messages ++ [.quit] }

theorem Move.of_apartment {s t : State T X R} (h : apartmentThread s = some t) : Move s .apartment t := by
  unfold apartmentThread at h
  split at h
  case h_1 hpc =>
    split at h
    · cases h
    · next hm => cases h; exact .receive hpc hm
  case h_2 hpc => cases h; exact .load hpc
  case h_3 hpc => cases h; exact .dereference hpc
  case h_4 hpc => cases h; exact .clear hpc
  case h_5 hpc =>
    split at h
    · next hm => cases h; exact .exit hpc hm
    · next hm => cases h; exact .drain hpc hm
  case h_6 => cases h

theorem Move.of_step {s t : State T X R} {a : Action T X R} (h : step s a = some t) : Move s a t := by
  cases a with
  | callInApartment caller x address =>
    simp only [step] at h
    split at h
    case h_1 hpc howner hopen => cases h; exact .call hpc howner hopen
    case h_2 => cases h
  | exchange caller spurious =>
    simp only [step] at h
    split at h
    case h_1 hpc hfree => cases h; exact .exchange hpc hfree
    case h_2 hpc hother => cases h; exact .retry hpc
    case h_3 => cases h
  | post caller =>
    simp only [step] at h
    split at h
    case h_1 hpc => cases h; exact .post hpc
    case h_2 => cases h
  | get caller =>
    simp only [step] at h
    split at h
    case h_1 hpc hfuture => cases h; exact .get hpc hfuture
    case h_2 => cases h
  | message m =>
    cases m with
    | thread => cases h; exact .message (Or.inl rfl)
    | window => cases h; exact .message (Or.inr rfl)
    | task => cases h
    | quit => cases h
  | apartment => exact .of_apartment h
  | execute r =>
    simp only [step] at h
    split at h
    case h_1 hpc => cases h; exact .execute hpc
    case h_2 => cases h
  | destroy =>
    simp only [step] at h
    split at h
    case h_1 hactive hopen => cases h; exact .destroy hactive hopen
    case h_2 => cases h

end SingleThreadedApartment
end AudioOutput
