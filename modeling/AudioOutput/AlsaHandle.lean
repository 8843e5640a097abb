import AudioOutput.AlsaOutputDevice

/-!
# How often the ALSA handle is closed

The handle is closed at the end of the loop and nowhere else: not by a
constructor that throws, and not behind the `goto CLEANUP` of `ALSAREC`.
-/

namespace AudioOutput
namespace AlsaOutputDevice

open Transition

universe u
variable {α : Type u}

def Finished (s : State α) : Prop := (∃ message, s.main = .threw message) ∨ s.main = .destroyed

/-- Neither a configuration call nor a recovery fails, and `init` does not throw. -/
def Smooth : Action α → Prop
  | .configure res _ | .recover res => 0 ≤ res
  | .initThrows _ _ => False
  | _ => True

def State.closes (s : State α) : ℕ := s.calls.count .close

def Kept (s : State α) : Prop :=
  (∀ message, s.main = .threw message → s.deviceOpen = false) ∧
    (s.io = .cleanup ∨ s.io = .returned → s.closes = 1)

/-- Points of the constructor, and its failure: there is no I/O thread. -/
@[simp] def MainPc.threadless : MainPc → Bool
  | .opening | .configuring _ | .sizing | .starting | .threw _ => true
  | _ => false

@[simp] def MainPc.configured : MainPc → Bool
  | .configuring _ | .sizing | .starting => true
  | _ => false

@[simp] def MainPc.stopDone : MainPc → Bool
  | .leaving _ | .destroyed => true
  | _ => false

@[simp] def IoPc.pastClose : IoPc → Bool
  | .cleanup | .returned => true
  | _ => false

structure HandleInv (s : State α) : Prop where
  threadless : s.main.threadless = true → s.io = .unstarted
  opening : s.main = .opening → s.deviceOpen = false
  configured : s.main.configured = true → s.deviceOpen = true
  joinable : s.main.threadless = false → s.joinable = true ∨ s.io = .returned
  stopped : s.stopped = true → s.io = .returned
  stopDone : s.main.stopDone = true → s.io = .returned
  unclosed : s.io.pastClose = false → s.closes = 0
  once : s.closes ≤ 1

theorem initial_handleInv (cfg : Config) : HandleInv (initial α cfg) := by
  constructor <;> simp [initial,State.closes]

theorem State.closes_call (s : State α) (c : Call) : (s.call c).closes = s.closes+if c = .close then 1 else 0 := by
  simp [State.closes,State.call,List.count_singleton]

theorem ConfigCall.configured_next (c : ConfigCall) : c.next.configured = true := by
  cases c <;> rfl

theorem MainPc.of_configured {m : MainPc} (h : m.configured = true) :
    m.threadless = true ∧ m ≠ .opening ∧ m.stopDone = false ∧ ∀ message, m ≠ .threw message := by
  cases m <;> simp_all

theorem Checked.pastClose_resume (what : Checked) : what.resume.pastClose = false := by
  cases what <;> rfl

variable {s t : State α} {a : Action α}

/-- Steps of the I/O thread. -/
theorem HandleInv.io (hs : HandleInv s) (hstarted : s.io ≠ .unstarted) (hrunning : s.io ≠ .returned)
    (hmain : t.main = s.main) (hjoinable : t.joinable = s.joinable) (hstopped : t.stopped = s.stopped)
    (hunclosed : t.io.pastClose = false → t.closes = 0) (honce : t.closes ≤ 1) : HandleInv t := by
  have hthread : s.main.threadless = false := by
    by_contra h
    exact hstarted (hs.threadless (by simpa using h))
  constructor
  case threadless =>
    intro h
    rw [hmain,hthread] at h
    cases h
  case opening => intro h; simp [← hmain,h] at hthread
  case configured =>
    intro h
    rw [hmain] at h
    rw [(MainPc.of_configured h).1] at hthread
    cases hthread
  case joinable => intro _; exact Or.inl (hjoinable ▸ (hs.joinable hthread).resolve_right hrunning)
  case stopped => intro h; exact absurd (hs.stopped (hstopped ▸ h)) hrunning
  case stopDone => intro h; exact absurd (hs.stopDone (hmain ▸ h)) hrunning
  case unclosed => exact hunclosed
  case once => exact honce

/-- Steps of the constructor before there is a thread. -/
theorem HandleInv.construct (hs : HandleInv s) (hmain : s.main.threadless = true) (ht : t.main.threadless = true)
    (hopening : t.main ≠ .opening) (hopen : t.main.configured = true → t.deviceOpen = true) (hdone : t.main.stopDone = false)
    (hio : t.io = s.io) (hstopped : t.stopped = s.stopped) (hcloses : t.closes = s.closes) : HandleInv t := by
  have hunstarted := hs.threadless hmain
  have hnone : s.closes = 0 := hs.unclosed (by rw [hunstarted]; rfl)
  constructor
  case threadless => intro _; rw [hio,hunstarted]
  case opening => intro h; exact absurd h hopening
  case configured => exact hopen
  case joinable =>
    intro h
    rw [ht] at h
    cases h
  case stopped => intro h; rw [hio]; exact hs.stopped (hstopped ▸ h)
  case stopDone =>
    intro h
    rw [hdone] at h
    cases h
  case unclosed => intro _; rw [hcloses,hnone]
  case once => omega

/-- When everything is over, keeping the handle from leaking means having closed it once. -/
theorem HandleInv.kept_iff (hs : HandleInv s) (hopen : s.deviceOpen = true) (hdone : Finished s) :
    Kept s ↔ s.closes = 1 := by
  rcases hdone with ⟨message,hthrew⟩ | hdestroyed
  · have hio := hs.threadless (by simp [hthrew])
    simp [Kept,hthrew,hopen,hs.unclosed (by simp [hio])]
  · have hio := hs.stopDone (by simp [hdestroyed])
    simp [Kept,hdestroyed,hio]

variable [Zero α]

theorem HandleInv.step (hs : HandleInv s) (hm : Move s a t) : HandleInv t := by
  cases hm with
  | openFails hpc =>
    exact hs.construct (by simp [hpc]) rfl (by simp) (by simp) rfl rfl rfl (State.closes_call s _)
  | opens hpc =>
    exact hs.construct (by simp [hpc]) rfl (by simp) (fun _ => rfl) rfl rfl rfl (State.closes_call s _)
  | configureFails hpc =>
    exact hs.construct (by simp [hpc]) rfl (by simp) (by simp) rfl rfl rfl (State.closes_call s _)
  | @configures c _ _ hpc =>
    obtain ⟨hthread,hopening,hdone,-⟩ := MainPc.of_configured c.configured_next
    exact hs.construct (by simp [hpc]) hthread hopening (fun _ => hs.configured (by simp [hpc])) hdone rfl rfl
      (State.closes_call s _)
  | grow hpc =>
    exact hs.construct (by simp [hpc]) (by simp [hpc]) (by simp [hpc]) hs.configured (by simp [hpc]) rfl rfl rfl
  | sized hpc =>
    exact hs.construct (by simp [hpc]) rfl (by simp) (fun _ => hs.configured (by simp [hpc])) rfl rfl rfl rfl
  | initThrows hpc => exact hs.construct (by simp [hpc]) rfl (by simp) (by simp) rfl rfl rfl rfl
  | start hpc =>
    have hio := hs.threadless (by simp [hpc])
    have hstop : s.stopped = false := by
      by_contra h
      have hreturned := hs.stopped (by simpa using h)
      rw [hio] at hreturned
      cases hreturned
    exact { hs with
      threadless := by simp
      opening := by simp
      configured := by simp
      joinable := by simp
      stopped := by simp [hstop]
      stopDone := by simp
      unclosed := fun _ => hs.unclosed (by rw [hio]; rfl) }
  | stop hpc | destroy hpc | clear hpc =>
    have hjoin := hs.joinable (by simp [hpc])
    exact { hs with
      threadless := by simp
      opening := by simp
      configured := by simp
      joinable := fun _ => hjoin
      stopDone := by simp }
  | skip hpc hskip =>
    have hjoin := hs.joinable (by simp [hpc])
    have hreturned : s.io = .returned := by
      by_contra h
      have hstop : s.stopped = false := by
        by_contra hstop
        exact h (hs.stopped (by simpa using hstop))
      exact hskip ⟨hstop,hjoin.resolve_right h⟩
    exact { hs with
      threadless := by simp
      opening := by simp
      configured := by simp
      joinable := fun _ => hjoin
      stopDone := fun _ => hreturned }
  | join hpc hio =>
    exact { hs with
      threadless := by simp
      opening := by simp
      configured := by simp
      joinable := fun _ => Or.inr hio
      stopDone := fun _ => hio }
  | @leave destroying hpc =>
    have hreturned := hs.stopDone (by simp [hpc])
    exact { hs with
      threadless := by cases destroying <;> simp
      opening := by cases destroying <;> simp
      configured := by cases destroying <;> simp
      joinable := fun _ => Or.inr hreturned
      stopped := fun _ => hreturned
      stopDone := fun _ => hreturned }
  | prepare hpc =>
    have hnone := hs.unclosed (by simp [hpc])
    exact hs.io (by simp [hpc]) (by simp [hpc]) rfl rfl rfl (fun _ => hnone) hs.once
  | test hpc =>
    have hnone := hs.unclosed (by simp [hpc])
    exact hs.io (by simp [hpc]) (by simp [hpc]) rfl rfl rfl (fun _ => hnone) hs.once
  | drain hpc | updateFails hpc | updates hpc | waitFails hpc | waits hpc | submitFails hpc | recoverFails hpc =>
    have hnone := hs.unclosed (by simp [hpc])
    have hcalls := State.closes_call s
    exact hs.io (by simp [hpc]) (by simp [hpc]) rfl rfl rfl (fun _ => (hcalls _).trans hnone) ((hcalls _).trans_le hs.once)
  | close hpc =>
    have hnone := hs.unclosed (by simp [hpc])
    have hone : (s.call .close).closes = 1 := by rw [State.closes_call,hnone]; rfl
    exact hs.io (by simp [hpc]) (by simp [hpc]) rfl rfl rfl (by simp) hone.le
  | cleanup hpc =>
    exact hs.io (by simp [hpc]) (by simp [hpc]) rfl rfl rfl (by simp) hs.once
  | recovers hpc | submits hpc =>
    have hnone := hs.unclosed (by simp [hpc])
    have hcalls := State.closes_call s
    exact hs.io (by simp [hpc]) (by simp [hpc]) rfl rfl rfl (fun _ => (hcalls _).trans hnone) ((hcalls _).trans_le hs.once)
  | obtains hpc =>
    have hnone := hs.unclosed (by simp [hpc])
    exact hs.io (by simp [hpc]) (by simp [hpc]) rfl rfl rfl (fun _ => hnone) hs.once

/-- The handle is left open exactly at a configuration call or a recovery that fails, and
where `init` throws. -/
theorem HandleInv.kept_step (hs : HandleInv s) (hm : Move s a t) : Kept t ↔ Kept s ∧ Smooth a := by
  have hcalls := State.closes_call s
  cases hm with
  | openFails hpc =>
    have hio := hs.threadless (by simp [hpc])
    simp [Kept,Smooth,State.call,hpc,hio,hs.opening hpc]
  | configureFails hpc hres =>
    simp [Kept,Smooth,State.call,hs.configured (by simp [hpc]),hres]
  | initThrows hpc => simp [Kept,Smooth,hs.configured (by simp [hpc])]
  | @configures c _ _ hpc hres =>
    have hio := hs.threadless (by simp [hpc])
    have hnext := (MainPc.of_configured c.configured_next).2.2.2
    simp [Kept,Smooth,State.call,hpc,hio,hres,hnext]
  | opens hpc | grow hpc | sized hpc | start hpc =>
    have hio := hs.threadless (by simp [hpc])
    simp [Kept,Smooth,State.call,hpc,hio]
  | stop hpc | destroy hpc | clear hpc | skip hpc | join hpc =>
    simp [Kept,Smooth,hpc,State.closes]
  | @leave destroying hpc =>
    cases destroying <;> simp [Kept,Smooth,hpc,State.closes]
  | prepare hpc | drain hpc | updateFails hpc | updates hpc | obtains hpc | submitFails hpc | submits hpc
  | waitFails hpc | waits hpc =>
    simp [Kept,Smooth,State.call,State.release,hpc]
  | test hpc =>
    cases hrun : s.workerRunning <;> simp [Kept,Smooth,hpc]
  | close hpc =>
    have hone : (s.call .close).closes = 1 := by rw [hcalls,hs.unclosed (by simp [hpc])]; rfl
    have hcloses : State.closes { s.call .close with io := .cleanup } = 1 := hone
    simp only [Kept,Smooth,hcloses,hpc]
    simp [State.call]
  | cleanup hpc => simp [Kept,Smooth,hpc,State.closes]
  | @recoverFails err res what hpc hres =>
    have hnone : (s.call (.recover err)).closes = 0 := by rw [hcalls,hs.unclosed (by simp [hpc])]; rfl
    have hcloses : State.closes { s.call (.recover err) with io := .cleanup } = 0 := hnone
    simp only [Kept,Smooth,hcloses]
    simp [hres]
  | @recovers err res what hpc hres =>
    have hresume := what.pastClose_resume
    cases what <;> simp [Kept,Smooth,hpc,hres,State.call,State.release,Checked.resume]

theorem Reachable.handleInv {cfg : Config} (h : Reachable cfg s) : HandleInv s :=
  h.invariant (initial_handleInv cfg) fun _ _ _ _ hs ht => hs.step (.of_step ht)

theorem Reachable.closes_le_one {cfg : Config} (h : Reachable cfg s) : s.closes ≤ 1 := h.handleInv.once

theorem HandleInv.calls_step (hs : HandleInv s) (hm : Move s a t) :
    t.calls = s.calls ∨ (s.closes = 0 ∧ ∃ c, t.calls = s.calls ++ [c]) := by
  cases hm with
  | openFails hpc | opens hpc | configureFails hpc | configures hpc =>
    have hio := hs.threadless (by simp [hpc])
    exact Or.inr ⟨hs.unclosed (by simp [hio]),_,rfl⟩
  | drain hpc | close hpc | updateFails hpc | updates hpc | recoverFails hpc | recovers hpc | submitFails hpc
  | submits hpc | waitFails hpc | waits hpc =>
    exact Or.inr ⟨hs.unclosed (by simp [hpc]),_,rfl⟩
  | grow | sized | initThrows | start | stop | destroy | clear | skip | join | leave | prepare | test | cleanup | obtains =>
    exact Or.inl rfl

def ClosedLast (s : State α) : Prop := .close ∈ s.calls → s.calls.getLast? = some .close

/-- The error thrown names the call that failed, and that call was the last one; what `init`
throws comes after all of them. -/
structure NamesFailure (s : State α) : Prop where
  threw : ∀ message, s.main = .threw message → message = openMessage ∧ s.calls.getLast? = some .pcmOpen ∨
    (∃ c argument, message = ConfigCall.message c ∧ s.calls.getLast? = some (.configure c argument)) ∨
    ∃ argument, s.calls.getLast? = some (.configure .swParams argument)
  starting : s.main = .starting → ∃ argument, s.calls.getLast? = some (.configure .swParams argument)

theorem HandleInv.closedLast_step (hs : HandleInv s) (hlast : ClosedLast s) (hm : Move s a t) : ClosedLast t := by
  rcases hs.calls_step hm with hsame | ⟨hnone,c,hcall⟩
  · simpa only [ClosedLast,hsame] using hlast
  · have hfresh : .close ∉ s.calls := List.count_eq_zero.mp hnone
    intro hmem
    rw [hcall,List.mem_append,List.mem_singleton] at hmem
    rw [hcall,List.getLast?_concat,hmem.resolve_left hfresh]

theorem ConfigCall.eq_of_next {c : ConfigCall} (h : c.next = .starting) : c = .swParams := by
  cases c <;> simp_all [ConfigCall.next]

omit [Zero α] in
theorem NamesFailure.early (hthrew : ∀ message, t.main ≠ .threw message) (hstarting : t.main ≠ .starting) : NamesFailure t :=
  ⟨fun message h => absurd h (hthrew message),fun h => absurd h hstarting⟩

theorem HandleInv.namesFailure_step (hs : HandleInv s) (hnames : NamesFailure s) (hm : Move s a t) : NamesFailure t := by
  cases hm with
  | openFails hpc =>
    refine ⟨fun message h => Or.inl ⟨?_,List.getLast?_concat⟩,fun h => by cases h⟩
    cases h
    rfl
  | @configureFails c res value hpc =>
    refine ⟨fun message h => Or.inr (Or.inl ⟨c,_,?_,List.getLast?_concat⟩),fun h => by cases h⟩
    cases h
    rfl
  | @configures c =>
    refine ⟨fun message h => absurd h ((MainPc.of_configured c.configured_next).2.2.2 message),fun h => ?_⟩
    obtain rfl := ConfigCall.eq_of_next h
    exact ⟨_,List.getLast?_concat⟩
  | initThrows hpc => exact ⟨fun _ _ => Or.inr (Or.inr (hnames.starting hpc)),fun h => by cases h⟩
  | opens | sized | start | stop | destroy | clear | skip | join => exact .early (by simp) (by simp)
  | grow hpc => exact .early (by simp [hpc]) (by simp [hpc])
  | @leave destroying => cases destroying <;> exact .early (by simp) (by simp)
  | prepare hpc | drain hpc | close hpc | updateFails hpc | updates hpc | recoverFails hpc | recovers hpc
  | submitFails hpc | submits hpc | waitFails hpc | waits hpc | test hpc | cleanup hpc | obtains hpc =>
    -- the loop runs, so the constructor has returned
    have hbuilt : s.main.threadless = false := by
      by_contra h
      have hunstarted := hs.threadless (by simpa using h)
      rw [hpc] at hunstarted
      cases hunstarted
    refine .early (fun message h => ?_) fun h => ?_
    all_goals
      have hmain : s.main = _ := h
      simp [hmain] at hbuilt

/-- Nothing is called on the handle after it has been closed. -/
theorem Reachable.closedLast {cfg : Config} (h : Reachable cfg s) : ClosedLast s := by
  have hinit : ClosedLast (initial α cfg) := by simp [ClosedLast,initial]
  exact (Reaches.invariant (I := fun u => HandleInv u ∧ ClosedLast u) h ⟨initial_handleInv cfg,hinit⟩
    fun _ _ _ _ hu hb => ⟨hu.1.step (.of_step hb),hu.1.closedLast_step hu.2 (.of_step hb)⟩).2

theorem Reachable.namesFailure {cfg : Config} (h : Reachable cfg s) : NamesFailure s := by
  have hinit : NamesFailure (initial α cfg) := .early (by simp [initial]) (by simp [initial])
  exact (Reaches.invariant (I := fun u => HandleInv u ∧ NamesFailure u) h ⟨initial_handleInv cfg,hinit⟩
    fun _ _ _ _ hu hb => ⟨hu.1.step (.of_step hb),hu.1.namesFailure_step hu.2 (.of_step hb)⟩).2

/-- A handle that has been opened is closed exactly once by the end, unless a call
that configures it or one that recovers it fails, or `init` throws: then it is never closed. -/
theorem handle_closed_once_iff {cfg : Config} {as : List (Action α)}
    (h : run AlsaOutputDevice.step (initial α cfg) as = some s) (hopen : s.deviceOpen = true) (hdone : Finished s) :
    s.calls.count .close = 1 ↔ ∀ a ∈ as, Smooth a := by
  have hstep (u : State α) (b : Action α) (v : State α) (hu : HandleInv u) (hb : AlsaOutputDevice.step u b = some v) :
      HandleInv v ∧ (Kept v ↔ Kept u ∧ Smooth b) :=
    ⟨hu.step (.of_step hb),hu.kept_step (.of_step hb)⟩
  have hinit : Kept (initial α cfg) := by simp [Kept,initial]
  calc
    s.calls.count .close = 1 ↔ Kept s := ((reachable_of_run h).handleInv.kept_iff hopen hdone).symm
    _ ↔ ∀ a ∈ as, Smooth a := by
      rw [run_iff_along hstep h (initial_handleInv cfg),along_label h]
      simp [hinit]

def playNothing : List (Action ℕ) := construct ++ [.destroy,.main,.io,.io,.io,.io,.main,.main]

theorem handle_closed_once_playNothing : ∃ s, run AlsaOutputDevice.step (initial ℕ mono) playNothing = some s ∧
    s.calls.count .close = 1 := by
  have hrun : (run AlsaOutputDevice.step (initial ℕ mono) playNothing).isSome := rfl
  have hsmooth : ∀ a ∈ playNothing, Smooth a := by simp [playNothing,construct,Smooth]
  exact ⟨_,(Option.some_get hrun).symm,
    (handle_closed_once_iff (Option.some_get hrun).symm rfl (Or.inr rfl)).mpr hsmooth⟩

/-- A configuration call fails in one run; in another an error of `snd_pcm_avail_update`
cannot be recovered from, and the device is then destroyed; in a third every call succeeds
and `init` throws. -/
theorem handle_left_open : ∃ s t u : State ℕ, Reachable mono s ∧ s.deviceOpen = true ∧
    s.main = .threw "Alsa: could not configuer PCM device." ∧ s.calls.count .close = 0 ∧
    Reachable mono t ∧ t.deviceOpen = true ∧ t.main = .destroyed ∧ t.calls.count .close = 0 ∧
    Reachable mono u ∧ u.deviceOpen = true ∧ u.main = .threw "std::bad_array_new_length" ∧ u.calls.count .close = 0 := by
  have hthrow : (run AlsaOutputDevice.step (initial ℕ mono) [.pcmOpen 0,.configure (-22) 0]).isSome := rfl
  have hgoto : (run AlsaOutputDevice.step (initial ℕ mono)
      (construct ++ [.io,.availUpdate (-19),.recover (-19),.io,.destroy,.main,.main,.main])).isSome := rfl
  have hinit : (run AlsaOutputDevice.step (initial ℕ mono)
      (construct.take 16 ++ [.initThrows false "std::bad_array_new_length"])).isSome := rfl
  exact ⟨_,_,_,reachable_of_run (Option.some_get hthrow).symm,rfl,rfl,rfl,
    reachable_of_run (Option.some_get hgoto).symm,rfl,rfl,rfl,
    reachable_of_run (Option.some_get hinit).symm,rfl,rfl,rfl⟩

end AlsaOutputDevice
end AudioOutput
