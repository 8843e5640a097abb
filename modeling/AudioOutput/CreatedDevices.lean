import AudioOutput.LoggerLifetime

/-!
# What a factory knows of its devices

`createdDevices` is what the destructor of a factory goes through. A device is
created by a call on one factory and destroyed by a call of its own, at any time
in between or later.
-/

namespace AudioOutput
namespace AudioIo

open Transition

universe u
variable {α : Type u} [Zero α]

def CreatedBy (build : Build) (as : List (Action α)) (i k : ℕ) : Prop :=
  ∃ before cfg endpoint after s t, as = before ++ .createDevice i cfg endpoint :: after ∧
    run (step build) (initial α) before = some s ∧ step build s (.createDevice i cfg endpoint) = some t ∧
    k = s.devices.length ∧ t.devices.length = k+1

omit [Zero α] in
def State.Alive (s : State α) (k : ℕ) : Prop := ∃ d, s.devices[k]? = some d ∧ d.gone = false

/-- In the run `as` from `s`, the loop of a factory's destructor calls `stop` on device `k`. -/
def Stops (build : Build) (s : State α) (as : List (Action α)) (k : ℕ) : Prop :=
  ∃ before after t rest, as = before ++ .stopNext :: after ∧ run (step build) s before = some t ∧
    t.stopping = k :: rest ∧ t.Alive k

/-- No factory refers to any device. -/
structure Unregistered (s : State α) : Prop where
  factories : ∀ f ∈ s.factories, f.createdDevices = []
  stopping : s.stopping = []

variable {build : Build} {s t : State α} {a : Action α}

omit [Zero α] in
theorem initial_unregistered : Unregistered (initial α) := by
  constructor <;> simp [initial]

/-- Neither `createDevice` nor any other call adds to `createdDevices`. -/
theorem Unregistered.preserved (hs : Unregistered s) (h : step build s a = some t) : Unregistered t := by
  cases Move.of_step h with
  | start | finish | access | openFails | stop | destroyDevice | device =>
    exact ⟨hs.factories,hs.stopping⟩
  | opens =>
    refine ⟨fun f hf => ?_,hs.stopping⟩
    rcases List.mem_append.mp hf with hold | hnew
    · exact hs.factories f hold
    · rw [List.mem_singleton.mp hnew]
  | @create i f cfg endpoint =>
    obtain ⟨ms,ds,heq,-⟩ := createDevice_eq s f.backend cfg endpoint
    rw [heq]
    exact ⟨hs.factories,hs.stopping⟩
  | @destroyFactory i f hf =>
    have hnone := hs.factories f (List.mem_of_getElem? hf)
    refine ⟨fun g hg => ?_,hnone⟩
    rcases List.mem_or_eq_of_mem_set hg with hold | rfl
    · exact hs.factories g hold
    · exact hnone
  | skipNext hstopping | stopNext hstopping =>
    rw [hs.stopping] at hstopping
    cases hstopping

theorem Unregistered.after {as : List (Action α)} (hs : Unregistered s) (h : run (step build) s as = some t) :
    Unregistered t := by
  have hreaches : Reaches (step build) (fun _ => True) s t := .of_run (fun _ _ => trivial) h
  exact hreaches.invariant hs fun _ _ _ _ hu hv => hu.preserved hv

theorem Unregistered.not_stops (hs : Unregistered s) (as : List (Action α)) (k : ℕ) : ¬ Stops build s as k := by
  rintro ⟨before,after,u,rest,-,hrun,hstopping,-⟩
  rw [(hs.after hrun).stopping] at hstopping
  cases hstopping

/-- After any run, `createdDevices` of a factory refers to all the devices made by
this factory that are alive, and its destructor calls `stop` on all of them, exactly
if there are none. -/
theorem created_devices_iff {as : List (Action α)} (h : run (step build) (initial α) as = some s) {i : ℕ} {f : Factory}
    (hf : s.factories[i]? = some f) :
    ((∀ k, CreatedBy build as i k → s.Alive k → k ∈ f.createdDevices) ↔ ∀ k, CreatedBy build as i k → ¬ s.Alive k) ∧
    ∀ (t u : State α) (during : List (Action α)), step build s (.destroyFactory i) = some t →
      run (step build) t during = some u → u.stopping = [] →
      ((∀ k, CreatedBy build as i k → s.Alive k → Stops build t during k) ↔
        ∀ k, CreatedBy build as i k → ¬ s.Alive k) := by
  have hs : Unregistered s := initial_unregistered.after h
  have hnone : f.createdDevices = [] := hs.factories f (List.mem_of_getElem? hf)
  refine ⟨?_,fun t u during hdestroy _ _ => ?_⟩
  · simp only [hnone,List.not_mem_nil]
  · have hstops : ∀ k, ¬ Stops build t during k := (hs.preserved hdestroy).not_stops during
    constructor
    · exact fun hall k hcreated halive => hstops k (hall k hcreated halive)
    · exact fun hall k hcreated halive => absurd halive (hall k hcreated)

def makeDevice : List (Action ℕ) :=
  .initializeLibrary :: .getLogger :: .getOutputDeviceFactory comFails :: .createDevice 0 AlsaOutputDevice.mono ⟨0,false⟩ ::
    firstDevice AlsaOutputDevice.construct.dropLast

def unmakeDevice : List (Action ℕ) :=
  .device 0 .alsaAwaits :: (firstDevice [.io] ++ .destroyDevice 0 :: firstDevice [.main,.io,.io,.io,.io,.main,.main])

/-- The device is gone before the factory is, so that there is nothing to stop. -/
theorem created_devices_unmade : ∃ s t f, run (step alsaBuild) (initial ℕ) (makeDevice ++ unmakeDevice) = some s ∧
    s.factories[0]? = some f ∧ step alsaBuild s (.destroyFactory 0) = some t ∧ s.devices.length = 1 ∧
    ((∀ k, CreatedBy alsaBuild (makeDevice ++ unmakeDevice) 0 k → s.Alive k → Stops alsaBuild t [] k) ↔
      ∀ k, CreatedBy alsaBuild (makeDevice ++ unmakeDevice) 0 k → ¬ s.Alive k) := by
  have hrun : (run (step alsaBuild) (initial ℕ) (makeDevice ++ unmakeDevice)).map
      (fun s => (s.devices.length,s.factories.length,(step alsaBuild s (.destroyFactory 0)).map (·.stopping))) =
      some (1,1,some []) := by
    decide +kernel
  obtain ⟨s,hs,hfields⟩ := Option.map_eq_some_iff.mp hrun
  simp only [Prod.mk.injEq] at hfields
  obtain ⟨hdevices,hfactories,hdestroy⟩ := hfields
  obtain ⟨t,ht,hstopping⟩ := Option.map_eq_some_iff.mp hdestroy
  have hf := List.getElem?_eq_getElem (l := s.factories) (i := 0) (by omega)
  exact ⟨s,t,_,hs,hf,ht,hdevices,(created_devices_iff hs hf).2 t t [] ht rfl hstopping⟩

/-- A factory is destroyed while the device that it made is alive. -/
theorem device_not_stopped : ¬ ∀ (build : Build) (as : List (Action ℕ)) (s t u : State ℕ) (i : ℕ)
    (during : List (Action ℕ)), run (step build) (initial ℕ) as = some s → step build s (.destroyFactory i) = some t →
    run (step build) t during = some u → u.stopping = [] →
    ∀ k, CreatedBy build as i k → s.Alive k → Stops build t during k := by
  intro hall
  have hrun : (run (step alsaBuild) (initial ℕ) makeDevice).map
      (fun s => (s.devices.map Device.gone,(step alsaBuild s (.destroyFactory 0)).map (·.stopping))) =
      some ([false],some []) := by
    decide +kernel
  have hbefore : (run (step alsaBuild) (initial ℕ) (makeDevice.take 3)).map
      (fun s => (s.devices.length,(step alsaBuild s (.createDevice 0 AlsaOutputDevice.mono ⟨0,false⟩)).map
        (·.devices.length))) = some (0,some 1) := by
    decide +kernel
  obtain ⟨s,hs,hfields⟩ := Option.map_eq_some_iff.mp hrun
  obtain ⟨v,hv,hbefore⟩ := Option.map_eq_some_iff.mp hbefore
  simp only [Prod.mk.injEq] at hfields hbefore
  obtain ⟨t,ht,hstopping⟩ := Option.map_eq_some_iff.mp hfields.2
  obtain ⟨w,hw,hlength⟩ := Option.map_eq_some_iff.mp hbefore.2
  have hcreated : CreatedBy alsaBuild makeDevice 0 0 :=
    ⟨makeDevice.take 3,_,_,makeDevice.drop 4,v,w,rfl,hv,hw,hbefore.1.symm,hlength⟩
  have halive : s.Alive 0 := by
    obtain ⟨d,hd,hgone⟩ := List.map_eq_singleton_iff.mp hfields.1
    exact ⟨d,by rw [hd]; rfl,hgone⟩
  have hstops := hall alsaBuild makeDevice s t t 0 [] hs ht rfl hstopping 0 hcreated halive
  obtain ⟨before,after,_,_,hnil,_⟩ := hstops
  exact List.append_ne_nil_of_right_ne_nil before (List.cons_ne_nil _ after) hnil.symm

end AudioIo
end AudioOutput
