import AudioOutput.WasapiMixing
import Mathlib.Data.List.Flatten

/-!
# The chunks of the mixing thread

Every sample that the loop takes from the worker is in one chunk, and `GetBuffer` is
called once for each. A chunk for which it fails is gone; as long as the padding is known,
the endpoint has room for all of them.
-/

namespace AudioOutput
namespace WasapiMixing

open Transition
open Logging (Message)

universe u
variable {α : Type u} [Zero α] {s t : State α} {a : Action α}

def State.pending (s : State α) : List α :=
  match s.body with
  | .acquiring toRequest => s.intermediateStorage.take (toRequest*s.outputChannels)
  | _ => []

def State.packets (s : State α) : List (List α) := (s.offers.filter Offer.ok).map Offer.samples

@[simp] def early : WasapiOutputDevice.MixingPc → Bool
  | .unstarted | .announcing | .awaiting | .initializing | .connecting => true
  | _ => false

@[simp] def looping : WasapiOutputDevice.MixingPc → Bool
  | .starting | .testing | .mixing | .exiting => true
  | _ => false

/-- What the loop keeps: the storage has the size of the endpoint's buffer, no request is
larger, the endpoint is not overfull, and every sample taken is in one chunk. -/
structure Inv (s : State α) : Prop where
  early : early s.control.mixing = true → s.queued = 0 ∧ s.offers = []
  outside : s.control.mixing ≠ .mixing → s.body = .querying
  storage : looping s.control.mixing = true → s.intermediateStorage.length = s.bufferSize*s.outputChannels
  request : ∀ n, s.body = .obtaining n → n ≤ s.bufferSize
  chunk : ∀ n, s.body = .acquiring n → 0 < n ∧ n ≤ s.bufferSize
  queued : s.queued ≤ s.bufferSize
  obtained : s.obtained = (s.offers.map Offer.samples).flatten ++ s.pending
  offers : ∀ o ∈ s.offers, ∃ n, 0 < n ∧ n ≤ s.bufferSize ∧ o.samples.length = n*s.outputChannels

omit [Zero α] in
theorem initial_inv : Inv ({} : State α) := by
  constructor <;> simp [State.pending]

omit [Zero α] in
theorem Inv.app (hs : Inv s) {c : WasapiOutputDevice.State} (format : ℕ × ℕ) (hmixing : c.mixing = s.control.mixing) :
    Inv { s with control := c, format := format } where
  early h := hs.early (hmixing ▸ h)
  outside h := hs.outside (hmixing ▸ h)
  storage h := hs.storage (hmixing ▸ h)
  request := hs.request
  chunk := hs.chunk
  queued := hs.queued
  obtained := hs.obtained
  offers := hs.offers

omit [Zero α] in
theorem State.pending_of_ne (h : ∀ n, s.body ≠ .acquiring n) : s.pending = [] := by
  unfold State.pending
  split
  case h_1 n hbody => exact absurd hbody (h n)
  case h_2 => rfl

omit [Zero α] in
theorem Inv.obtained_keep (hs : Inv s) (hobtained : t.obtained = s.obtained) (hoffers : t.offers = s.offers)
    (hbody : ∀ n, s.body ≠ .acquiring n) (hnext : ∀ n, t.body ≠ .acquiring n) :
    t.obtained = (t.offers.map Offer.samples).flatten ++ t.pending := by
  rw [hobtained,hoffers,hs.obtained,State.pending_of_ne hbody,State.pending_of_ne hnext]

omit [Zero α] in
theorem Inv.turn (hs : Inv s) {c : WasapiOutputDevice.State} (hbody : ∀ n, s.body ≠ .acquiring n)
    (hearly : WasapiMixing.early c.mixing = true → WasapiMixing.early s.control.mixing = true)
    (hlooping : looping c.mixing = true → looping s.control.mixing = true) :
    Inv { s with control := c, body := .querying } where
  early h := hs.early (hearly h)
  outside _ := rfl
  storage h := hs.storage (hlooping h)
  request _ h := by cases h
  chunk _ h := by cases h
  queued := hs.queued
  obtained := hs.obtained_keep rfl rfl hbody (by simp)
  offers := hs.offers

/-- Steps of the application's thread other than the start of the mixing thread. -/
theorem mainThread_fields {c d : WasapiOutputDevice.State} {ms : List Message}
    (h : WasapiOutputDevice.mainThread c = some (d,ms)) (hpc : c.main ≠ .starting) :
    d.mixing = c.mixing ∧ c.main.gone = false := by
  unfold WasapiOutputDevice.mainThread at h
  split at h
  case h_2 hstarting => exact absurd hstarting hpc
  case h_4 hstopping =>
    split at h
    all_goals
      cases h
      exact ⟨rfl,by simp [hstopping]⟩
  case h_5 hjoining =>
    split at h
    · cases h
      exact ⟨rfl,by simp [hjoining]⟩
    · cases h
  case h_6 => cases h
  all_goals
    cases h
    exact ⟨rfl,by simp [*]⟩

theorem clientCall_fields {c d : WasapiOutputDevice.State} {ms : List Message} {answer : ComAnswer}
    (h : WasapiOutputDevice.clientCall c answer = some (d,ms)) : d.mixing = c.mixing ∧ c.main.gone = false := by
  unfold WasapiOutputDevice.clientCall at h
  split at h
  case h_1 hpc =>
    split at h
    all_goals
      cases h
      exact ⟨rfl,by simp [hpc]⟩
  case h_2 => cases h

theorem beginStop_fields {c d : WasapiOutputDevice.State} {destroying : Bool}
    (h : WasapiOutputDevice.beginStop c destroying = some d) : d.mixing = c.mixing ∧ c.main.gone = false := by
  unfold WasapiOutputDevice.beginStop at h
  split at h
  case h_1 hpc =>
    cases h
    exact ⟨rfl,by simp [hpc]⟩
  case h_2 => cases h

theorem mixingThread_fields {c d : WasapiOutputDevice.State} {ms : List Message}
    (h : WasapiOutputDevice.mixingThread c = some (d,ms)) (hpc : c.mixing ≠ .exiting) :
    d.main = c.main ∧ d.mixing ≠ .unstarted ∧ (early d.mixing = true → early c.mixing = true) ∧
      (looping d.mixing = true → looping c.mixing = true) := by
  unfold WasapiOutputDevice.mixingThread at h
  split at h
  case h_4 htesting =>
    cases h
    cases c.shouldContinue <;> simp [htesting]
  case h_6 hexiting => exact absurd hexiting hpc
  case h_7 => cases h
  all_goals
    cases h
    simp [*]

theorem coInitialize_fields {c d : WasapiOutputDevice.State} {ms : List Message} {res : HResult}
    (h : WasapiOutputDevice.coInitialize c res = some (d,ms)) :
    c.mixing = .initializing ∧ d.main = c.main ∧ (d.mixing = .returned ∨ d.mixing = .connecting) := by
  unfold WasapiOutputDevice.coInitialize at h
  split at h
  case h_1 hpc =>
    split at h
    · cases h
      exact ⟨hpc,rfl,Or.inl rfl⟩
    · cases h
      exact ⟨hpc,rfl,Or.inr rfl⟩
  case h_2 => cases h

omit [Zero α] in
theorem Inv.starts (hs : Inv s) (hunstarted : s.control.mixing = .unstarted) : Inv { s with
    control := { s.control with shouldContinue := true, mixing := .announcing, main := .reporting }
    outputChannels := s.format.1
    outputSr := s.format.2 } := by
  have hbody := hs.outside (by simp [hunstarted])
  obtain ⟨hqueued,hoffers⟩ := hs.early (by simp [hunstarted])
  exact {
    early := fun _ => ⟨hqueued,hoffers⟩
    outside := fun _ => hbody
    storage := fun h => by cases h
    request := hs.request
    chunk := hs.chunk
    queued := hs.queued
    obtained := hs.obtained_keep rfl rfl (by simp [hbody]) (by simp [hbody])
    offers := by simp [hoffers] }

omit [Zero α] in
theorem Inv.exits (hs : Inv s) (hpc : s.control.mixing = .exiting) : Inv { s with
    control := { s.control with mixing := .returned }
    intermediateStorage := []
    queued := 0 } := by
  have hbody := hs.outside (by simp [hpc])
  exact {
    early := fun h => by cases h
    outside := fun _ => hbody
    storage := fun h => by cases h
    request := hs.request
    chunk := hs.chunk
    queued := Nat.zero_le _
    obtained := hs.obtained_keep rfl rfl (by simp [hbody]) (by simp [hbody])
    offers := hs.offers }

theorem Inv.connects (hs : Inv s) {answer : ComAnswer} {bufferSize : ℕ} (hpc : s.control.mixing = .connecting) :
    Inv { s with
      control := { s.control with mixing := .starting }
      bufferSize := bufferSize
      renderClient := !answer.null
      intermediateStorage := List.replicate (bufferSize*s.outputChannels) 0 } := by
  have hbody := hs.outside (by simp [hpc])
  obtain ⟨hqueued,hoffers⟩ := hs.early (by simp [hpc])
  exact {
    early := fun h => by cases h
    outside := fun _ => hbody
    storage := fun _ => List.length_replicate
    request := fun n h => by simp [hbody] at h
    chunk := fun n h => by simp [hbody] at h
    queued := by simp [hqueued]
    obtained := hs.obtained_keep rfl rfl (by simp [hbody]) (by simp [hbody])
    offers := by simp [hoffers] }

omit [Zero α] in
theorem Inv.queries (hs : Inv s) (hpc : s.control.mixing = .mixing) (hbody : s.body = .querying) (padding : ℕ) :
    Inv { s with body := .obtaining (s.bufferSize-padding) } where
  early := hs.early
  outside h := absurd hpc h
  storage := hs.storage
  request n h := by
    cases h
    exact Nat.sub_le _ _
  chunk n h := by cases h
  queued := hs.queued
  obtained := hs.obtained_keep rfl rfl (by simp [hbody]) (by simp)
  offers := hs.offers

omit [Zero α] in
/-- What the worker has written becomes the chunk. -/
theorem Inv.obtains (hs : Inv s) {toRequest written : ℕ} {samples : List α} (hpc : s.control.mixing = .mixing)
    (hbody : s.body = .obtaining toRequest) (hpos : 0 < written) (hle : written ≤ toRequest)
    (hlen : samples.length = written*s.outputChannels) : Inv { s with
      intermediateStorage := Buffer.splice s.intermediateStorage 0 samples
      obtained := s.obtained ++ samples
      body := .acquiring written } := by
  have hsize := hs.storage (by simp [hpc])
  have hroom : written ≤ s.bufferSize := hle.trans (hs.request _ hbody)
  have hfits : 0+samples.length ≤ s.intermediateStorage.length := by
    rw [hsize,hlen,Nat.zero_add]
    exact Nat.mul_le_mul_right _ hroom
  exact {
    early := hs.early
    outside := fun h => absurd hpc h
    storage := fun _ => (Buffer.length_splice _ hfits).trans hsize
    request := fun n h => by cases h
    chunk := fun n h => by
      cases h
      exact ⟨hpos,hroom⟩
    queued := hs.queued
    obtained := by
      rw [hs.obtained,State.pending_of_ne (by simp [hbody]),List.append_nil]
      simp [State.pending,← hlen,Buffer.splice]
    offers := hs.offers }

omit [Zero α] in
/-- The chunk is offered to the endpoint, which takes it or not. -/
theorem Inv.offered (hs : Inv s) {toRequest : ℕ} {res : HResult} (hpc : s.control.mixing = .mixing)
    (hbody : s.body = .acquiring toRequest) (hroom : res = 0 → s.queued+toRequest ≤ s.bufferSize) : Inv { s with
      queued := if res = 0 then s.queued+toRequest else s.queued
      offers := s.offers ++ [⟨res == 0,s.intermediateStorage.take (toRequest*s.outputChannels)⟩]
      body := .waiting } := by
  obtain ⟨hpos,hle⟩ := hs.chunk _ hbody
  have hsize := hs.storage (by simp [hpc])
  have hlen : (s.intermediateStorage.take (toRequest*s.outputChannels)).length = toRequest*s.outputChannels := by
    rw [List.length_take,hsize]
    exact Nat.min_eq_left (Nat.mul_le_mul_right _ hle)
  exact {
    early := fun h => by simp [hpc] at h
    outside := fun h => absurd hpc h
    storage := hs.storage
    request := fun n h => by cases h
    chunk := fun n h => by cases h
    queued := by
      dsimp only
      split
      case isTrue hres => exact hroom hres
      case isFalse => exact hs.queued
    obtained := by
      rw [hs.obtained]
      simp [State.pending,hbody]
    offers := fun o ho => by
      rcases List.mem_append.mp ho with hold | hnew
      · exact hs.offers o hold
      · obtain rfl := List.mem_singleton.mp hnew
        exact ⟨toRequest,hpos,hle,hlen⟩ }

omit [Zero α] in
theorem Inv.renders (hs : Inv s) (frames : ℕ) : Inv { s with queued := s.queued-frames } where
  early h := ⟨by dsimp only; rw [(hs.early h).1,Nat.zero_sub],(hs.early h).2⟩
  outside := hs.outside
  storage := hs.storage
  request := hs.request
  chunk := hs.chunk
  queued := (Nat.sub_le _ _).trans hs.queued
  obtained := hs.obtained
  offers := hs.offers

theorem Inv.step (hs : Inv s) (hthread : WasapiOutputDevice.ThreadInv s.control) (hm : Move s a t) : Inv t := by
  cases hm with
  | main hpc h => exact hs.app s.format (mainThread_fields h hpc).1
  | client h => exact hs.app _ (clientCall_fields h).1
  | initThrows => exact hs.app s.format rfl
  | stop h => exact hs.app s.format (beginStop_fields h).1
  | starts hpc => exact hs.starts (hthread.threadless (by simp [hpc]))
  | mixes hwaiting hpc h =>
    obtain ⟨-,-,hearly,hlooping⟩ := mixingThread_fields h hpc
    refine hs.turn (fun n hbody => ?_) hearly hlooping
    by_cases hmixing : s.control.mixing = .mixing
    · simp [hwaiting hmixing] at hbody
    · simp [hs.outside hmixing] at hbody
  | exits hpc => exact hs.exits hpc
  | @coInitialize _ c _ h =>
    obtain ⟨hpc,-,hnext⟩ := coInitialize_fields h
    have hbody := hs.outside (by simp [hpc])
    have hturn : Inv { s with control := c, body := .querying } := by
      refine hs.turn (by simp [hbody]) (fun _ => by simp [hpc]) fun h => ?_
      rcases hnext with hd | hd <;> simp [hd] at h
    rwa [← hbody] at hturn
  | connects hpc => exact hs.connects hpc
  | queries hpc hbody => exact hs.queries hpc hbody _
  | continues hpc hbody => exact hs.turn (by simp [hbody]) (by simp) (by simp [hpc])
  | obtains hpc hbody hpos hle hlen => exact hs.obtains hpc hbody hpos hle hlen
  | offers hpc hbody hroom => exact hs.offered hpc hbody hroom
  | renders => exact hs.renders _

theorem Reachable.inv (h : Reachable s) : Inv s := by
  have hboth := Reaches.invariant (I := fun s => Reachable s ∧ Inv s) h ⟨.refl,initial_inv⟩
    fun _ _ _ _ ⟨hr,hs⟩ hstep => ⟨Reaches.tail hr trivial hstep,hs.step hr.threadInv (.of_step hstep)⟩
  exact hboth.2

omit [Zero α] in
/-- Nothing is missing of a list of pieces, none of them empty, when nothing is missing of
what they are pieces of. -/
theorem eq_of_flatten_eq {pieces all : List (List α)} (hsub : pieces.Sublist all) (hne : ∀ l ∈ all, l ≠ [])
    (h : pieces.flatten = all.flatten) : pieces = all := by
  induction hsub with
  | slnil => rfl
  | @cons pieces all l hsub ih =>
    have hle := hsub.flatten.length_le
    have hpos := List.length_pos_of_ne_nil (hne l List.mem_cons_self)
    rw [h,List.flatten_cons,List.length_append] at hle
    omega
  | @cons_cons pieces all l hsub ih =>
    rw [List.flatten_cons,List.flatten_cons,List.append_cancel_left_eq] at h
    rw [ih (fun k hk => hne k (List.mem_cons_of_mem _ hk)) h]

/-- Every sample taken from the worker has gone to the endpoint, in order and once, but for
the chunk for which `GetBuffer` has not answered yet. -/
def Delivered (s : State α) : Prop := s.packets.flatten ++ s.pending = s.obtained

omit [Zero α] in
theorem Inv.packets_sublist (hs : Inv s) : (s.packets.flatten ++ s.pending).Sublist s.obtained := by
  rw [hs.obtained]
  exact ((List.filter_sublist.map _).flatten).append_right _

omit [Zero α] in
theorem Inv.delivered_iff (hs : Inv s) (hchannels : 0 < s.outputChannels) : Delivered s ↔ ∀ o ∈ s.offers, o.ok = true := by
  rw [Delivered,hs.obtained,List.append_cancel_right_eq]
  constructor
  · intro h
    have hne : ∀ l ∈ s.offers.map Offer.samples, l ≠ [] := by
      intro l hl
      obtain ⟨o,ho,rfl⟩ := List.mem_map.mp hl
      obtain ⟨n,hpos,-,hlen⟩ := hs.offers o ho
      exact List.ne_nil_of_length_pos (hlen ▸ Nat.mul_pos hpos hchannels)
    have hall := congrArg List.length (eq_of_flatten_eq (List.filter_sublist.map _) hne h)
    rwa [List.length_map,List.length_map,List.length_filter_eq_length_iff] at hall
  · intro h
    rw [State.packets,List.filter_eq_self.mpr h]

def Takes (a : Action α) : Prop := ∀ res, a = .getBuffer res → res = 0

theorem Move.offers_ok (hm : Move s a t) : (∀ o ∈ t.offers, o.ok = true) ↔ (∀ o ∈ s.offers, o.ok = true) ∧ Takes a := by
  cases hm with
  | offers =>
    dsimp only
    rw [List.forall_mem_append]
    simp [Takes]
  | main | starts | client | initThrows | stop | mixes | exits | coInitialize | connects | queries | continues | obtains | renders =>
    simp [Takes]

def Answers : Action α → Prop
  | .getCurrentPadding res => isError res = false
  | _ => True

/-- The endpoint has room for what has been asked of the worker: it only gets emptier. -/
structure Fits (s : State α) : Prop where
  request : ∀ n, s.body = .obtaining n → s.queued+n ≤ s.bufferSize
  chunk : ∀ n, s.body = .acquiring n → s.queued+n ≤ s.bufferSize

theorem Fits.step (hs : Fits s) (hinv : Inv s) (ha : Answers a) (hm : Move s a t) : Fits t := by
  cases hm with
  | main | client | initThrows | stop | starts | coInitialize => exact ⟨hs.request,hs.chunk⟩
  | mixes | continues => exact ⟨fun _ h => (by cases h),fun _ h => (by cases h)⟩
  | exits hpc | connects hpc =>
    have hbody := hinv.outside (by simp [hpc])
    exact ⟨by simp [hbody],by simp [hbody]⟩
  | @queries res hpc hbody =>
    have hqueued := hinv.queued
    refine ⟨fun n h => ?_,fun n h => (by cases h)⟩
    cases h
    have hres : isError res = false := ha
    simp only [hres,Bool.false_eq_true,if_false]
    omega
  | obtains hpc hbody hpos hle hlen =>
    have hroom := hs.request _ hbody
    refine ⟨fun n h => (by cases h),fun n h => ?_⟩
    cases h
    dsimp only
    omega
  | offers hpc hbody hroom => exact ⟨fun _ h => (by cases h),fun _ h => (by cases h)⟩
  | renders hle =>
    refine ⟨fun n h => ?_,fun n h => ?_⟩
    · have hroom := hs.request n h
      dsimp only
      omega
    · have hroom := hs.chunk n h
      dsimp only
      omega

/-- Where the padding is known, `GetBuffer` is never asked for more than the endpoint has
room for, so that it can always answer `S_OK`; and the endpoint holds whole frames, never
more than its buffer has. -/
theorem endpoint_has_room (h : Reaches step Answers {} s) :
    (∀ n, s.body = .acquiring n → s.queued+n ≤ s.bufferSize ∧
      (s.renderClient = true → (WasapiMixing.step s (.getBuffer 0)).isSome)) ∧
    s.queued ≤ s.bufferSize ∧ ∀ p ∈ s.packets, ∃ n, 0 < n ∧ n ≤ s.bufferSize ∧ p.length = n*s.outputChannels := by
  have hboth := Reaches.invariant (I := fun s => Reachable s ∧ Fits s) h
    ⟨.refl,⟨fun _ hn => (by cases hn),fun _ hn => (by cases hn)⟩⟩
    fun _ _ _ ha ⟨hr,hs⟩ hstep => ⟨Reaches.tail hr trivial hstep,hs.step hr.inv ha (.of_step hstep)⟩
  obtain ⟨hr,hfits⟩ := hboth
  refine ⟨fun n hbody => ⟨hfits.chunk n hbody,fun hclient => ?_⟩,hr.inv.queued,fun p hp => ?_⟩
  · have hpc : s.control.mixing = .mixing := not_not.mp fun hne => by simp [hr.inv.outside hne] at hbody
    simp [step,getBuffer,hpc,hbody,hclient,hfits.chunk n hbody]
  · obtain ⟨o,ho,rfl⟩ := List.mem_map.mp hp
    exact hr.inv.offers o (List.mem_of_mem_filter ho)

/-- Mono, with an endpoint of four frames: two are taken, and one rendered by the time of the
next request, of which the worker has three. -/
def playTwice : List (Action ℕ) :=
  List.flatten [[.main],List.replicate 6 (.client ⟨0,false⟩ (1,48000)),
    [.main,.main,.mixing,.mixing,.coInitialize 0,.getService ⟨0,false⟩ 4,.mixing,.mixing],
    [.getCurrentPadding 0,.write 2 [1,2],.getBuffer 0,.mixing,.mixing,.render 1],
    [.getCurrentPadding 0,.render 1,.write 3 [3,4,5]]]

theorem endpoint_has_room_playTwice : ∃ s : State ℕ, s.body = .acquiring 3 ∧ s.packets = [[1,2]] ∧
    s.queued+3 ≤ s.bufferSize ∧ (step s (.getBuffer 0)).isSome := by
  have hrun : (run step ({} : State ℕ) playTwice).isSome := rfl
  have hanswers : ∀ a ∈ playTwice, Answers a := by simp [playTwice,List.replicate,Answers,isError]
  obtain ⟨hroom,henabled⟩ := (endpoint_has_room (Reaches.of_run hanswers (Option.some_get hrun).symm)).1 3 rfl
  exact ⟨_,rfl,rfl,hroom,henabled rfl⟩

end WasapiMixing
end AudioOutput
