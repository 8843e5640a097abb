import AudioOutput.Logger

/-!
# Whose text a formatted message carries

`submitFormattedMessage` copies `format_workspace` into `msg` under the mutex,
then submits a second copy that it makes without it. What that copy holds is the
text formatted last, whoever formatted it.
-/

namespace AudioOutput
namespace Logger

open Transition

universe u
variable {T C : Type u}

theorem takeWhile_append_stop (p : UInt8 → Bool) (xs ys : Text) {stop : UInt8} (hstop : p stop = false) :
    (xs ++ stop :: ys).takeWhile p = xs.takeWhile p := by
  induction xs with
  | nil => simp [hstop]
  | cons x xs ih =>
    cases hx : p x with
    | false => simp [hx]
    | true => simp [hx,ih]

/-- What has been formatted is read back up to the size of the workspace. -/
theorem cString_snprintf (workspace formatted : Text) (size : ℕ) :
    cString (snprintf workspace size formatted) = cString (formatted.take (size-1)) := by
  unfold cString snprintf Buffer.splice
  rw [List.take_zero,List.nil_append,List.append_assoc]
  exact takeWhile_append_stop _ _ _ (by simp)

variable [DecidableEq T]

def ofThread (t : T) (xs : List (T × LogMessage)) : List LogMessage := (xs.filter (·.1 = t)).map Prod.snd

theorem ofThread_append (t : T) (xs ys : List (T × LogMessage)) :
    ofThread t (xs ++ ys) = ofThread t xs ++ ofThread t ys := by
  simp [ofThread]

theorem ofThread_single (t v : T) (msg : LogMessage) : ofThread t [(v,msg)] = if v = t then [msg] else [] := by
  by_cases h : v = t <;> simp [ofThread,h]

theorem ofThread_concat_self (t : T) (xs : List (T × LogMessage)) (msg : LogMessage) :
    ofThread t (xs ++ [(t,msg)]) = ofThread t xs ++ [msg] := by
  rw [ofThread_append,ofThread_single,if_pos rfl]

theorem ofThread_concat_ne {t v : T} (h : v ≠ t) (xs : List (T × LogMessage)) (msg : LogMessage) :
    ofThread v (xs ++ [(t,msg)]) = ofThread v xs := by
  rw [ofThread_append,ofThread_single,if_neg h.symm,List.append_nil]

theorem count_ofThread (t : T) (msg : LogMessage) (xs : List (T × LogMessage)) :
    (ofThread t xs).count msg = xs.count (t,msg) := by
  induction xs with
  | nil => rfl
  | cons x xs ih =>
    obtain ⟨v,m⟩ := x
    rw [← List.singleton_append,ofThread_append,List.count_append,List.count_append,ih,ofThread_single]
    by_cases hv : v = t <;> by_cases hm : m = msg <;> simp [hv,hm]

theorem perm_of_ofThread {xs ys : List (T × LogMessage)} (h : ∀ t, ofThread t xs = ofThread t ys) : xs.Perm ys := by
  rw [List.perm_iff_count]
  rintro ⟨t,msg⟩
  rw [← count_ofThread,← count_ofThread,h]

def ClientPc.inHand : ClientPc C → List LogMessage
  | .formatting level topic formatted => [own level topic formatted]
  | .reading level topic msg => [⟨level,topic,msg⟩]
  | .pushing msg => [msg]
  | _ => []

/-- Each call of each thread has pushed exactly its own message, in the order of
the calls, or is still going to. -/
def OwnTexts (s : State T C) : Prop := ∀ t, ofThread t s.asked = ofThread t s.pushed ++ (s.client t).inHand

/-- A thread reads `format_workspace` when the text formatted last is, as cut, its own. -/
def ReadsOwn (s : State T C) : Action T C → Prop
  | .client t => ∀ level topic msg, s.client t = .reading level topic msg → ∃ f, s.formatted.getLast? = some f ∧ cut f = msg
  | _ => True

/-- A call that has not read its text back yet is the last one its thread has begun. -/
def Expects (asked : List (T × LogMessage)) (formatted : List Text) (t : T) : ClientPc C → Prop
  | .formatting level topic f => (ofThread t asked).getLast? = some (own level topic f)
  | .reading level topic msg => formatted ≠ [] ∧ (ofThread t asked).getLast? = some ⟨level,topic,msg⟩
  | _ => True

theorem Expects.concat {asked : List (T × LogMessage)} {formatted : List Text} {t : T} {pc : ClientPc C}
    (h : Expects asked formatted t pc) (f : Text) : Expects asked (formatted ++ [f]) t pc := by
  cases pc with
  | formatting | idle | pushing | notifying | settingLevel | settingCallback => exact h
  | reading => exact ⟨by simp,h.2⟩

structure Texts (s : State T C) : Prop where
  workspace : ∀ f, s.formatted.getLast? = some f → cString s.workspace = cut f
  client : ∀ t, Expects s.asked s.formatted t (s.client t)

theorem initial_texts (workspace : Text) : Texts (initial T C workspace) := by
  constructor <;> simp [initial,Expects]

theorem initial_ownTexts (workspace : Text) : OwnTexts (initial T C workspace) := by
  intro t
  rfl

variable {s u : State T C} {a : Action T C} {t : T} {pc : ClientPc C}

theorem Texts.setClient (hs : Texts s) (hclient : u.client = Function.update s.client t pc)
    (hpc : Expects u.asked u.formatted t pc) (hasked : ∀ v, v ≠ t → ofThread v u.asked = ofThread v s.asked)
    (hformatted : u.formatted = s.formatted) (hworkspace : u.workspace = s.workspace) : Texts u where
  workspace := by rw [hformatted,hworkspace]; exact hs.workspace
  client v := by
    by_cases hv : v = t
    · rw [hv,hclient,Function.update_self]
      exact hpc
    · have hold := hs.client v
      rw [hclient,Function.update_of_ne hv]
      unfold Expects at hold ⊢
      rwa [hasked v hv,hformatted]

theorem Texts.format {level : LoggingLevel} {topic f : Text} (hs : Texts s) (hpc : s.client t = .formatting level topic f) :
    Texts { s.setClient t (.reading level topic (cString (snprintf s.workspace formatWorkspaceSize f))) with
      workspace := snprintf s.workspace formatWorkspaceSize f, formatted := s.formatted ++ [f] } where
  workspace g hg := by
    rw [List.getLast?_concat,Option.some.injEq] at hg
    rw [cString_snprintf,← hg]
    rfl
  client v := by
    have hold := hs.client v
    by_cases hv : v = t
    · subst hv
      rw [hpc] at hold
      simp only [State.setClient,Function.update_self]
      exact ⟨by simp,by rw [cString_snprintf]; exact hold⟩
    · simp only [State.setClient,Function.update_of_ne hv]
      exact hold.concat f

theorem Texts.step (hs : Texts s) (hm : Move s a u) : Texts u := by
  cases hm with
  | @submit t msg hpc =>
    exact hs.setClient rfl trivial (fun v hv => ofThread_concat_ne hv _ _) rfl rfl
  | @submitFormatted t level topic f hpc =>
    refine hs.setClient rfl ?_ (fun v hv => ofThread_concat_ne hv _ _) rfl rfl
    simp [Expects,ofThread_concat_self]
  | format hpc => exact hs.format hpc
  | beginLevel hpc | beginCallback hpc | read hpc | push hpc | notify hpc | setLevel hpc | setCallback hpc =>
    exact hs.setClient rfl trivial (fun _ _ => rfl) rfl rfl
  | exit | sleep | recheck | take | call | pass | spurious | destroy | stop | ownerNotify | join =>
    exact ⟨hs.workspace,hs.client⟩

/-- A step of one thread decides on that thread's messages alone. -/
theorem ownTexts_setClient {p : Prop} (hclient : u.client = Function.update s.client t pc)
    (hothers : ∀ v, v ≠ t → ofThread v u.asked = ofThread v s.asked ∧ ofThread v u.pushed = ofThread v s.pushed)
    (hself : ofThread t u.asked = ofThread t u.pushed ++ pc.inHand ↔
      ofThread t s.asked = ofThread t s.pushed ++ (s.client t).inHand ∧ p) : OwnTexts u ↔ OwnTexts s ∧ p := by
  have hother (v : T) (hv : v ≠ t) : (u.client v).inHand = (s.client v).inHand := by
    rw [hclient,Function.update_of_ne hv]
  have hsame : u.client t = pc := by rw [hclient,Function.update_self]
  constructor
  · intro h
    have ht := hself.mp (hsame ▸ h t)
    refine ⟨fun v => ?_,ht.2⟩
    by_cases hv : v = t
    · exact hv ▸ ht.1
    · have hold := h v
      rwa [(hothers v hv).1,(hothers v hv).2,hother v hv] at hold
  · rintro ⟨h,hp⟩ v
    by_cases hv : v = t
    · rw [hv,hsame]
      exact hself.mpr ⟨h t,hp⟩
    · rw [(hothers v hv).1,(hothers v hv).2,hother v hv]
      exact h v

/-- A read keeps the messages right exactly when the text is the caller's own. -/
theorem Texts.ownTexts_read {level : LoggingLevel} {topic msg : Text} (hs : Texts s)
    (hpc : s.client t = .reading level topic msg) :
    OwnTexts (s.setClient t (.pushing ⟨level,topic,cString s.workspace⟩)) ↔ OwnTexts s ∧ ReadsOwn s (.client t) := by
  have hexpects := hs.client t
  rw [hpc] at hexpects
  obtain ⟨hne,hlast⟩ := hexpects
  obtain ⟨f,hf⟩ : ∃ f, s.formatted.getLast? = some f := ⟨_,List.getLast?_eq_some_getLast hne⟩
  have hreads : ReadsOwn s (.client t) ↔ cString s.workspace = msg := by
    simp [ReadsOwn,hpc,hf,hs.workspace f hf]
  rw [hreads]
  refine ownTexts_setClient rfl (fun _ _ => ⟨rfl,rfl⟩) ?_
  rw [hpc]
  constructor
  · intro h
    change ofThread t s.asked = ofThread t s.pushed ++ [⟨level,topic,cString s.workspace⟩] at h
    rw [h,List.getLast?_concat,Option.some.injEq,LogMessage.mk.injEq] at hlast
    have hown := hlast.2.2
    exact ⟨hown ▸ h,hown⟩
  · rintro ⟨h,hown⟩
    exact hown.symm ▸ h

theorem Texts.ownTexts_step (hs : Texts s) (hm : Move s a u) : OwnTexts u ↔ OwnTexts s ∧ ReadsOwn s a := by
  cases hm with
  | @submit t msg hpc =>
    refine ownTexts_setClient rfl (fun v hv => ⟨ofThread_concat_ne hv _ _,rfl⟩) ?_
    simp [hpc,ClientPc.inHand,ofThread_concat_self,ReadsOwn,State.setClient]
  | @submitFormatted t level topic f hpc =>
    refine ownTexts_setClient rfl (fun v hv => ⟨ofThread_concat_ne hv _ _,rfl⟩) ?_
    simp [hpc,ClientPc.inHand,ofThread_concat_self,ReadsOwn,State.setClient]
  | beginLevel hpc | beginCallback hpc | notify hpc | setLevel hpc | setCallback hpc =>
    refine ownTexts_setClient rfl (fun _ _ => ⟨rfl,rfl⟩) ?_
    simp [hpc,ClientPc.inHand,ReadsOwn,State.setClient,State.notify]
  | format hpc =>
    refine ownTexts_setClient rfl (fun _ _ => ⟨rfl,rfl⟩) ?_
    simp [hpc,ClientPc.inHand,ReadsOwn,State.setClient,cString_snprintf,own,cut]
  | read hpc => exact hs.ownTexts_read hpc
  | @push t msg hpc =>
    refine ownTexts_setClient rfl (fun v hv => ⟨rfl,ofThread_concat_ne hv _ _⟩) ?_
    simp [hpc,ClientPc.inHand,ofThread_concat_self,ReadsOwn,State.setClient]
  | exit | sleep | recheck | take | call | pass | spurious | destroy | stop | ownerNotify | join =>
    simp [OwnTexts,ReadsOwn,takeFront,State.notify]

/-- Every call pushes its own text exactly when every read finds the text formatted
last to be the caller's own; with no call in progress the messages pushed are then
the texts formatted, up to order. -/
theorem formatted_texts_own_iff [Fintype T] {workspace : Text} {as : List (Action T C)}
    (h : run Logger.step (initial T C workspace) as = some s) :
    (OwnTexts s ↔ Along Logger.step ReadsOwn (initial T C workspace) as) ∧
    (OwnTexts s → (∀ t, s.client t = .idle) → s.pushed.Perm s.asked) := by
  constructor
  · have hstep (v : State T C) (b : Action T C) (w : State T C) (hv : Texts v) (hb : Logger.step v b = some w) :
        Texts w ∧ (OwnTexts w ↔ OwnTexts v ∧ ReadsOwn v b) :=
      ⟨hv.step (.of_step hb),hv.ownTexts_step (.of_step hb)⟩
    rw [run_iff_along hstep h (initial_texts workspace)]
    simp [initial_ownTexts]
  · intro hown hidle
    refine perm_of_ofThread fun t => ?_
    rw [hown t,hidle t]
    simp [ClientPc.inHand]

def formatTwo (between : List (Action Bool Unit)) : List (Action Bool Unit) :=
  [.submitFormattedMessage false .info [] [97],.submitFormattedMessage true .info [] [98],.client false] ++
    between ++ [.client true,.client true,.client true]

theorem formatted_texts_own_formatTwo : ∃ s : State Bool Unit, s.pushed.Perm s.asked ∧
    Along Logger.step ReadsOwn (initial Bool Unit [])
      (formatTwo [.client false,.client false,.client false,.client true]) := by
  have hrun : (run Logger.step (initial Bool Unit [])
      (formatTwo [.client false,.client false,.client false,.client true])).isSome := rfl
  have h := formatted_texts_own_iff (Option.some_get hrun).symm
  have hown : OwnTexts ((run Logger.step (initial Bool Unit [])
      (formatTwo [.client false,.client false,.client false,.client true])).get hrun) := by
    intro t
    cases t <;> rfl
  exact ⟨_,h.2 hown (fun t => by cases t <;> rfl),h.1.mp hown⟩

/-- The text of the first call is lost and the other one is logged twice. -/
theorem formatted_texts_mixed : ∃ s : State Bool Unit, Reachable s ∧ (∀ t, s.client t = .idle) ∧
    s.asked = [(false,⟨.info,[],[97]⟩),(true,⟨.info,[],[98]⟩)] ∧
    s.pushed = [(false,⟨.info,[],[98]⟩),(true,⟨.info,[],[98]⟩)] ∧ ¬ s.pushed.Perm s.asked := by
  have hrun : (run Logger.step (initial Bool Unit [])
      (formatTwo [.client true,.client false,.client false,.client false])).isSome := rfl
  have hreach : Reachable _ := ⟨[],Reaches.of_run (fun _ _ => trivial) (Option.some_get hrun).symm⟩
  have hmixed : ¬ List.Perm ([(false,⟨.info,[],[98]⟩),(true,⟨.info,[],[98]⟩)] : List (Bool × LogMessage))
      [(false,⟨.info,[],[97]⟩),(true,⟨.info,[],[98]⟩)] := by decide
  exact ⟨_,hreach,fun t => by cases t <;> rfl,rfl,rfl,hmixed⟩

end Logger
end AudioOutput
