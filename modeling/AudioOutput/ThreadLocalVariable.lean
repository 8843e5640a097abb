import AudioOutput.Transition

/-!
# Thread-local variables

`ThreadLocalVariable` for any number of variables of one type and any number of
threads. A thread runs one `operator*` inside the other while creators dereference
other variables; a creator does not dereference a variable that is being created on
its own thread already, so a thread is in one call per variable at most.
-/

namespace AudioOutput
namespace ThreadLocalVariable

universe u

/-- The control block of a `shared_ptr`: which call of a creator it comes from, and the
pointer that call has returned. -/
structure Object (T V A : Type u) where
  var : V
  thread : T
  serial : ℕ
  pointer : A
  deriving DecidableEq

/-- Where a thread is in the `operator*` of a variable. `had` is the entry found in the
map: none if `count` was zero, else the `weak_ptr`, empty or not. -/
inductive Pc (T V A : Type u)
  | idle
  | gettingId
  | acquiring
  | counting
  | releasing (had : Option (Option (Object T V A)))
  | locking (had : Option (Option (Object T V A)))
  | creating
  | storing (strong : Object T V A)
  | acquiringAgain (strong : Object T V A)
  | assigning (strong : Object T V A)
  | releasingAgain (strong : Object T V A)
  | returning (strong : Object T V A)

inductive Life
  | unstarted | running | exiting | exited
  deriving DecidableEq

/-- The ids of the threads, the members of the variables and the lists of strong
references, with the calls in progress, innermost first, and the history: calls of
creators, objects, calls of deleters with their threads, results. -/
structure State (T V A : Type u) where
  globallyUniqueId : ℕ := 1
  id : T → ℕ := fun _ => 0
  life : T → Life := fun _ => .unstarted
  available : V → Bool := fun _ => true
  map : V × ℕ → Option (Option (Object T V A)) := fun _ => none
  localStrongReferences : T → List (Object T V A) := fun _ => []
  useCount : Object T V A → ℕ := fun _ => 0
  occupied : A → Bool := fun _ => false
  stack : T → List V := fun _ => []
  pc : T × V → Pc T V A := fun _ => .idle
  made : T × V → ℕ := fun _ => 0
  created : List (Object T V A) := []
  deleted : List (T × Object T V A) := []
  yielded : List ((T × V) × A) := []

variable {T V A : Type u} [DecidableEq T] [DecidableEq V] [DecidableEq A]

def initial (T V A : Type u) : State T V A := {}

/-- Threads start and exit, dereference variables, and go on by the next step of the
innermost call; `construct` is the return of a creator. An exiting thread destroys its
strong references. -/
inductive Action (T V A : Type u) : Type u
  | start (t : T)
  | dereference (t : T) (v : V)
  | advance (t : T)
  | construct (t : T) (pointer : A)
  | exit (t : T)
  | destroy (t : T)
  | exited (t : T)

namespace State

def setPc (s : State T V A) (t : T) (v : V) (pc : Pc T V A) : State T V A :=
  { s with pc := Function.update s.pc (t,v) pc }

def setLife (s : State T V A) (t : T) (life : Life) : State T V A :=
  { s with life := Function.update s.life t life }

/-- The thread-local id, given out on the first call. -/
def getThreadId (s : State T V A) (t : T) : State T V A :=
  if s.id t = 0 then
    { s with id := Function.update s.id t s.globallyUniqueId, globallyUniqueId := s.globallyUniqueId+1 }
  else s

/-- The exchange of `acquireMap`; without the map the thread spins. -/
def acquireMap (s : State T V A) (t : T) (v : V) (next : Pc T V A) : State T V A :=
  if s.available v then { s.setPc t v next with available := Function.update s.available v false } else s

def releaseMap (s : State T V A) (t : T) (v : V) (next : Pc T V A) : State T V A :=
  { s.setPc t v next with available := Function.update s.available v true }

def addReference (s : State T V A) (o : Object T V A) : State T V A :=
  { s with useCount := Function.update s.useCount o (s.useCount o+1) }

def dropReference (s : State T V A) (t : T) (o : Object T V A) : State T V A :=
  let count := s.useCount o-1
  let s := { s with useCount := Function.update s.useCount o count }
  if count = 0 then
    { s with deleted := s.deleted ++ [(t,o)], occupied := Function.update s.occupied o.pointer false }
  else s

def create (s : State T V A) (t : T) (v : V) : State T V A :=
  { s.setPc t v .creating with made := Function.update s.made (t,v) (s.made (t,v)+1) }

/-- The object made of the pointer that a creator returns. -/
def wrap (s : State T V A) (t : T) (v : V) (pointer : A) : State T V A :=
  let strong : Object T V A := ⟨v,t,s.made (t,v),pointer⟩
  { s.setPc t v (.storing strong) with
    useCount := Function.update s.useCount strong 1
    occupied := Function.update s.occupied pointer true
    created := s.created ++ [strong] }

end State

def advance (s : State T V A) (t : T) (v : V) : Option (State T V A) :=
  match s.pc (t,v) with
  | .idle | .creating => none
  | .gettingId => some ((s.getThreadId t).setPc t v .acquiring)
  | .acquiring => some (s.acquireMap t v .counting)
  | .counting =>
    let had := s.map (v,s.id t)
    some { s.setPc t v (.releasing had) with map := Function.update s.map (v,s.id t) (some had.join) }
  | .releasing had => some (s.releaseMap t v (.locking had))
  | .locking had =>
    match had with
    | some (some strong) =>
      if s.useCount strong = 0 then some (s.create t v) else some ((s.addReference strong).setPc t v (.returning strong))
    | some none | none => some (s.create t v)
  | .storing strong =>
    some { (s.addReference strong).setPc t v (.acquiringAgain strong) with
      localStrongReferences := Function.update s.localStrongReferences t (s.localStrongReferences t ++ [strong]) }
  | .acquiringAgain strong => some (s.acquireMap t v (.assigning strong))
  | .assigning strong =>
    some { s.setPc t v (.releasingAgain strong) with map := Function.update s.map (v,s.id t) (some (some strong)) }
  | .releasingAgain strong => some (s.releaseMap t v (.returning strong))
  | .returning strong =>
    some { (s.dropReference t strong).setPc t v .idle with
      stack := Function.update s.stack t (s.stack t).tail
      yielded := s.yielded ++ [((t,v),strong.pointer)] }

/-- Whether a thread can dereference a variable: it runs, and is in no call or inside the
creator of the innermost one. -/
def canDereference (s : State T V A) (t : T) (v : V) : Bool :=
  s.life t = .running && v ∉ s.stack t &&
    match s.stack t with
    | [] => true
    | w :: _ =>
      match s.pc (t,w) with
      | .creating => true
      | _ => false

def step (s : State T V A) : Action T V A → Option (State T V A)
  | .start t => if s.life t = .unstarted then some (s.setLife t .running) else none
  | .dereference t v =>
    if canDereference s t v then
      some { s.setPc t v .gettingId with stack := Function.update s.stack t (v :: s.stack t) }
    else none
  | .advance t =>
    match s.stack t with
    | [] => none
    | v :: _ => advance s t v
  | .construct t pointer =>
    match s.stack t with
    | [] => none
    | v :: _ =>
      match s.pc (t,v) with
      -- what is constructed is not where another object is
      | .creating => if s.occupied pointer then none else some (s.wrap t v pointer)
      | _ => none
  | .exit t => if s.life t = .running ∧ s.stack t = [] then some (s.setLife t .exiting) else none
  | .destroy t =>
    if s.life t = .exiting then
      match s.localStrongReferences t with
      | [] => none
      | strong :: rest =>
        some { s.dropReference t strong with localStrongReferences := Function.update s.localStrongReferences t rest }
    else none
  | .exited t =>
    if s.life t = .exiting ∧ s.localStrongReferences t = [] then some (s.setLife t .exited) else none

def Reachable (s : State T V A) : Prop := Transition.Reaches step (fun _ => True) (initial T V A) s

inductive Move (s : State T V A) : Action T V A → State T V A → Prop
  | start {t : T} (hlife : s.life t = .unstarted) : Move s (.start t) (s.setLife t .running)
  | dereference {t : T} {v : V} (hcan : canDereference s t v = true) :
      Move s (.dereference t v) { s.setPc t v .gettingId with stack := Function.update s.stack t (v :: s.stack t) }
  | getId {t : T} {v : V} {vs : List V} (hstack : s.stack t = v :: vs) (hpc : s.pc (t,v) = .gettingId) :
      Move s (.advance t) ((s.getThreadId t).setPc t v .acquiring)
  | spin {t : T} : Move s (.advance t) s
  | acquire {t : T} {v : V} {vs : List V} (hstack : s.stack t = v :: vs) (hpc : s.pc (t,v) = .acquiring)
      (hfree : s.available v = true) :
      Move s (.advance t) { s.setPc t v .counting with available := Function.update s.available v false }
  | count {t : T} {v : V} {vs : List V} (hstack : s.stack t = v :: vs) (hpc : s.pc (t,v) = .counting) :
      Move s (.advance t) { s.setPc t v (.releasing (s.map (v,s.id t))) with
        map := Function.update s.map (v,s.id t) (some (s.map (v,s.id t)).join) }
  | release {t : T} {v : V} {vs : List V} {had : Option (Option (Object T V A))} (hstack : s.stack t = v :: vs)
      (hpc : s.pc (t,v) = .releasing had) : Move s (.advance t) (s.releaseMap t v (.locking had))
  | create {t : T} {v : V} {vs : List V} {had : Option (Option (Object T V A))} (hstack : s.stack t = v :: vs)
      (hpc : s.pc (t,v) = .locking had) (hdead : ∀ o, had = some (some o) → s.useCount o = 0) :
      Move s (.advance t) (s.create t v)
  | lock {t : T} {v : V} {vs : List V} {strong : Object T V A} (hstack : s.stack t = v :: vs)
      (hpc : s.pc (t,v) = .locking (some (some strong))) (hlive : s.useCount strong ≠ 0) :
      Move s (.advance t) ((s.addReference strong).setPc t v (.returning strong))
  | construct {t : T} {v : V} {vs : List V} {pointer : A} (hstack : s.stack t = v :: vs)
      (hpc : s.pc (t,v) = .creating) (hnew : s.occupied pointer = false) :
      Move s (.construct t pointer) (s.wrap t v pointer)
  | store {t : T} {v : V} {vs : List V} {strong : Object T V A} (hstack : s.stack t = v :: vs)
      (hpc : s.pc (t,v) = .storing strong) :
      Move s (.advance t) { (s.addReference strong).setPc t v (.acquiringAgain strong) with
        localStrongReferences := Function.update s.localStrongReferences t (s.localStrongReferences t ++ [strong]) }
  | acquireAgain {t : T} {v : V} {vs : List V} {strong : Object T V A} (hstack : s.stack t = v :: vs)
      (hpc : s.pc (t,v) = .acquiringAgain strong) (hfree : s.available v = true) :
      Move s (.advance t) { s.setPc t v (.assigning strong) with available := Function.update s.available v false }
  | assign {t : T} {v : V} {vs : List V} {strong : Object T V A} (hstack : s.stack t = v :: vs)
      (hpc : s.pc (t,v) = .assigning strong) :
      Move s (.advance t) { s.setPc t v (.releasingAgain strong) with
        map := Function.update s.map (v,s.id t) (some (some strong)) }
  | releaseAgain {t : T} {v : V} {vs : List V} {strong : Object T V A} (hstack : s.stack t = v :: vs)
      (hpc : s.pc (t,v) = .releasingAgain strong) : Move s (.advance t) (s.releaseMap t v (.returning strong))
  | finish {t : T} {v : V} {vs : List V} {strong : Object T V A} (hstack : s.stack t = v :: vs)
      (hpc : s.pc (t,v) = .returning strong) :
      Move s (.advance t) { (s.dropReference t strong).setPc t v .idle with
        stack := Function.update s.stack t (s.stack t).tail
        yielded := s.yielded ++ [((t,v),strong.pointer)] }
  | exit {t : T} (hlife : s.life t = .running) (hstack : s.stack t = []) : Move s (.exit t) (s.setLife t .exiting)
  | destroy {t : T} {strong : Object T V A} {rest : List (Object T V A)} (hlife : s.life t = .exiting)
      (hlist : s.localStrongReferences t = strong :: rest) :
      Move s (.destroy t) { s.dropReference t strong with
        localStrongReferences := Function.update s.localStrongReferences t rest }
  | exited {t : T} (hlife : s.life t = .exiting) (hlist : s.localStrongReferences t = []) :
      Move s (.exited t) (s.setLife t .exited)

variable {s u : State T V A}

theorem Move.of_advance {t : T} {v : V} {vs : List V} (hstack : s.stack t = v :: vs) (h : advance s t v = some u) :
    Move s (.advance t) u := by
  unfold advance at h
  split at h
  case h_1 | h_2 => cases h
  case h_3 hpc => cases h; exact .getId hstack hpc
  case h_4 hpc =>
    cases h
    unfold State.acquireMap
    split_ifs with hfree
    · exact .acquire hstack hpc hfree
    · exact .spin
  case h_5 hpc => cases h; exact .count hstack hpc
  case h_6 had hpc => cases h; exact .release hstack hpc
  case h_7 had hpc =>
    split at h
    case h_1 strong =>
      split_ifs at h with hdead
      · cases h
        refine .create hstack hpc fun o ho => ?_
        cases ho
        exact hdead
      · cases h
        exact .lock hstack hpc hdead
    case h_2 | h_3 =>
      cases h
      exact .create hstack hpc fun o ho => by cases ho
  case h_8 strong hpc => cases h; exact .store hstack hpc
  case h_9 strong hpc =>
    cases h
    unfold State.acquireMap
    split_ifs with hfree
    · exact .acquireAgain hstack hpc hfree
    · exact .spin
  case h_10 strong hpc => cases h; exact .assign hstack hpc
  case h_11 strong hpc => cases h; exact .releaseAgain hstack hpc
  case h_12 strong hpc => cases h; exact .finish hstack hpc

theorem Move.of_step {a : Action T V A} (h : step s a = some u) : Move s a u := by
  cases a with
  | start t =>
    simp only [step] at h
    split_ifs at h with hlife
    cases h
    exact .start hlife
  | dereference t v =>
    simp only [step] at h
    split_ifs at h with hcan
    cases h
    exact .dereference hcan
  | advance t =>
    simp only [step] at h
    split at h
    case h_1 => cases h
    case h_2 v vs hstack => exact .of_advance hstack h
  | construct t pointer =>
    simp only [step] at h
    split at h
    case h_1 => cases h
    case h_2 v vs hstack =>
      split at h
      case h_1 hpc =>
        split_ifs at h with hnew
        cases h
        exact .construct hstack hpc (by simpa using hnew)
      case h_2 => cases h
  | exit t =>
    simp only [step] at h
    split_ifs at h with hlife
    cases h
    exact .exit hlife.1 hlife.2
  | destroy t =>
    simp only [step] at h
    split_ifs at h with hlife
    split at h
    case h_1 => cases h
    case h_2 strong rest hlist => cases h; exact .destroy hlife hlist
  | exited t =>
    simp only [step] at h
    split_ifs at h with hlife
    cases h
    exact .exited hlife.1 hlife.2

end ThreadLocalVariable
end AudioOutput
