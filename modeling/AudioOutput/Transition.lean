import Mathlib.Data.Nat.Init
import Mathlib.Tactic

/-!
# Labelled transition functions

Reachability, invariants and termination under weak fairness for a system whose
threads take atomic steps. `step s a = none` means that label `a` is not enabled
at `s`; a thread that spins is enabled and steps from `s` to `s` itself.
-/

namespace AudioOutput
namespace Transition

universe u v
variable {S : Type u} {A : Type v} {step : S → A → Option S} {allowed : A → Prop}

/-- States reached from the first one by steps whose labels are all allowed. -/
inductive Reaches (step : S → A → Option S) (allowed : A → Prop) (s : S) : S → Prop
  | refl : Reaches step allowed s s
  | tail {t u : S} {a : A} (h : Reaches step allowed s t) (ha : allowed a)
      (hs : step t a = some u) : Reaches step allowed s u

theorem Reaches.trans {s t u : S} (h₁ : Reaches step allowed s t)
    (h₂ : Reaches step allowed t u) : Reaches step allowed s u := by
  induction h₂ with
  | refl => exact h₁
  | tail _ ha hs ih => exact ih.tail ha hs

theorem Reaches.mono {allowed' : A → Prop} (hsub : ∀ a, allowed a → allowed' a) {s t : S}
    (h : Reaches step allowed s t) : Reaches step allowed' s t := by
  induction h with
  | refl => exact .refl
  | tail _ ha hs ih => exact ih.tail (hsub _ ha) hs

/-- What every allowed step preserves holds in every state reached. -/
theorem Reaches.invariant {I : S → Prop} {s t : S} (h : Reaches step allowed s t) (hs : I s)
    (hstep : ∀ s a t, allowed a → I s → step s a = some t → I t) : I t := by
  induction h with
  | refl => exact hs
  | tail _ ha ht ih => exact hstep _ _ _ ha ih ht

/-- A part of a system of which every step of the whole is a step, or is none. -/
theorem Reaches.project {S' : Type*} {A' : Type*} {step' : S' → A' → Option S'} {allowed' : A' → Prop} (part : S → S')
    (hstep : ∀ s a t, allowed a → step s a = some t → part t = part s ∨
      ∃ b, allowed' b ∧ step' (part s) b = some (part t)) {s t : S} (h : Reaches step allowed s t) :
    Reaches step' allowed' (part s) (part t) := by
  induction h with
  | refl => exact .refl
  | tail _ ha ht ih =>
    rcases hstep _ _ _ ha ht with hsame | ⟨b,hb,hpart⟩
    · rwa [hsame]
    · exact ih.tail hb hpart

def run (step : S → A → Option S) : S → List A → Option S
  | s, [] => some s
  | s, a :: as => (step s a).bind fun t => run step t as

theorem run_append {s t : S} {as : List A} (h : run step s as = some t) (bs : List A) :
    run step s (as ++ bs) = run step t bs := by
  induction as generalizing s with
  | nil =>
    cases h
    rfl
  | cons a as ih =>
    obtain ⟨u,hu,hrest⟩ := Option.bind_eq_some_iff.mp h
    rw [List.cons_append,run,hu]
    exact ih hrest

theorem Reaches.of_run {s t : S} {as : List A} (hall : ∀ a ∈ as, allowed a)
    (h : run step s as = some t) : Reaches step allowed s t := by
  induction as generalizing s with
  | nil =>
    cases h
    exact .refl
  | cons a as ih =>
    obtain ⟨u,hu,hrest⟩ := Option.bind_eq_some_iff.mp h
    have hfirst : Reaches step allowed s u := Reaches.refl.tail (hall a (by simp)) hu
    exact hfirst.trans (ih (fun b hb => hall b (by simp [hb])) hrest)

/-- A run, with the states in which it took the steps that satisfy `p`. -/
inductive Logged (step : S → A → Option S) (p : S → A → Prop) (s : S) : List S → S → Prop
  | refl : Logged step p s [] s
  | skip {l : List S} {t u : S} {a : A} (h : Logged step p s l t) (hp : ¬ p t a) (hs : step t a = some u) :
      Logged step p s l u
  | log {l : List S} {t u : S} {a : A} (h : Logged step p s l t) (hp : p t a) (hs : step t a = some u) :
      Logged step p s (l ++ [t]) u

theorem Logged.reaches {p : S → A → Prop} {s t : S} {l : List S} (h : Logged step p s l t) :
    Reaches step (fun _ => True) s t := by
  induction h with
  | refl => exact .refl
  | skip _ _ hs ih => exact ih.tail trivial hs
  | log _ _ hs ih => exact ih.tail trivial hs

theorem Reaches.logged (p : S → A → Prop) {s t : S} (h : Reaches step allowed s t) : ∃ l, Logged step p s l t := by
  induction h with
  | refl => exact ⟨[],.refl⟩
  | @tail t u a _ _ hs ih =>
    obtain ⟨l,hl⟩ := ih
    by_cases hp : p t a
    · exact ⟨l ++ [t],hl.log hp hs⟩
    · exact ⟨l,hl.skip hp hs⟩

def Along (step : S → A → Option S) (p : S → A → Prop) : S → List A → Prop
  | _, [] => True
  | s, a :: as => p s a ∧ ∀ t, step s a = some t → Along step p t as

theorem Along.cons {p : S → A → Prop} {s t : S} {a : A} {as : List A} (hp : p s a) (hs : step s a = some t)
    (h : Along step p t as) : Along step p s (a :: as) := by
  refine ⟨hp,fun u hu => ?_⟩
  rw [hs] at hu
  cases hu
  exact h

theorem Along.of_forall {p : S → A → Prop} {s : S} {as : List A} (h : ∀ a ∈ as, ∀ s, p s a) : Along step p s as := by
  induction as generalizing s with
  | nil => trivial
  | cons a as ih => exact ⟨h a List.mem_cons_self s,fun t _ => ih fun b hb => h b (List.mem_cons_of_mem _ hb)⟩

theorem along_label {q : A → Prop} {s t : S} {as : List A} (h : run step s as = some t) :
    Along step (fun _ a => q a) s as ↔ ∀ a ∈ as, q a := by
  induction as generalizing s with
  | nil => simp [Along]
  | cons a as ih =>
    obtain ⟨u,hu,hrest⟩ := Option.bind_eq_some_iff.mp h
    simp only [Along,hu,Option.some.injEq,forall_eq',ih hrest,List.forall_mem_cons]

/-- Where `r` becomes true at label `b` and never false again, asking for it at some labels
is asking for an earlier `b`. -/
theorem along_after {q : A → Prop} {r : S → Prop} {b : A} (hr : ∀ s a t, step s a = some t → (r t ↔ r s ∨ a = b))
    {s t : S} {as : List A} (h : run step s as = some t) :
    Along step (fun s a => q a → r s) s as ↔ ∀ before a after, as = before ++ a :: after → q a → r s ∨ b ∈ before := by
  induction as generalizing s with
  | nil => simp [Along]
  | cons c cs ih =>
    obtain ⟨u,hu,hrest⟩ := Option.bind_eq_some_iff.mp h
    simp only [Along,hu,Option.some.injEq,forall_eq',ih hrest,hr s c u hu]
    constructor
    · rintro ⟨hfirst,hlater⟩ before a after heq hq
      cases before with
      | nil =>
        cases heq
        exact Or.inl (hfirst hq)
      | cons d before =>
        cases heq
        rcases hlater before a after rfl hq with (hs | rfl) | hmem
        · exact Or.inl hs
        · exact Or.inr List.mem_cons_self
        · exact Or.inr (List.mem_cons_of_mem _ hmem)
    · intro hall
      refine ⟨fun hq => ?_,fun before a after heq hq => ?_⟩
      · simpa using hall [] c cs rfl hq
      · rcases hall (c :: before) a after (by rw [heq]; rfl) hq with hs | hmem
        · exact Or.inl (Or.inl hs)
        · rcases List.mem_cons.mp hmem with rfl | hmem
          · exact Or.inl (Or.inr rfl)
          · exact Or.inr hmem

/-- What every step that satisfies `p` preserves holds at the end of a schedule whose
steps all do. -/
theorem Along.invariant {I : S → Prop} {p : S → A → Prop}
    (hstep : ∀ s a t, I s → p s a → step s a = some t → I t) {s t : S} {as : List A}
    (hall : Along step p s as) (h : run step s as = some t) (hs : I s) : I t := by
  induction as generalizing s with
  | nil =>
    cases h
    exact hs
  | cons a as ih =>
    obtain ⟨u,hu,hrest⟩ := Option.bind_eq_some_iff.mp h
    exact ih (hall.2 u hu) hrest (hstep s a u hs hall.1 hu)

/-- Where each step keeps a property exactly when it satisfies `p`, the property
holds at the end of a schedule exactly when every step of it satisfies `p`. -/
theorem run_iff_along {I good : S → Prop} {p : S → A → Prop}
    (hstep : ∀ s a t, I s → step s a = some t → I t ∧ (good t ↔ good s ∧ p s a))
    {s t : S} {as : List A} (h : run step s as = some t) (hs : I s) :
    good t ↔ good s ∧ Along step p s as := by
  induction as generalizing s with
  | nil =>
    cases h
    simp [Along]
  | cons a as ih =>
    obtain ⟨u,hu,hrest⟩ := Option.bind_eq_some_iff.mp h
    obtain ⟨hI,hone⟩ := hstep s a u hs hu
    rw [ih hrest hI,hone,Along,and_assoc]
    simp only [hu,Option.some.injEq,forall_eq']

/-- Where a property, while it holds, survives exactly the steps that satisfy `p`, it holds
all along a schedule exactly when every step of it satisfies `p`. -/
theorem prefixes_iff_along {I good : S → Prop} {p : S → A → Prop}
    (hstep : ∀ s a t, I s → good s → step s a = some t → I t ∧ (good t ↔ p s a))
    {s t : S} {as : List A} (h : run step s as = some t) (hs : I s) (hgood : good s) :
    (∀ before u, before <+: as → run step s before = some u → good u) ↔ Along step p s as := by
  induction as generalizing s with
  | nil =>
    simp only [List.prefix_nil,Along,iff_true]
    rintro before u rfl hu
    cases hu
    exact hgood
  | cons a as ih =>
    obtain ⟨u,hu,hrest⟩ := Option.bind_eq_some_iff.mp h
    obtain ⟨hI,hone⟩ := hstep s a u hs hgood hu
    constructor
    · intro hall
      have hp : p s a := hone.mp (hall [a] u (by simp) (by rw [run,hu]; rfl))
      refine .cons hp hu ((ih hrest hI (hone.mpr hp)).mp fun before v hb hv => ?_)
      exact hall (a :: before) v (List.cons_prefix_cons.mpr ⟨rfl,hb⟩) (by rw [run,hu]; exact hv)
    · rintro ⟨hp,hlater⟩ before v hb hv
      cases before with
      | nil =>
        cases hv
        exact hgood
      | cons b before =>
        obtain ⟨rfl,hrestb⟩ := List.cons_prefix_cons.mp hb
        rw [run,hu] at hv
        exact (ih hrest hI (hone.mpr hp)).mpr (hlater u hu) before v hrestb hv

variable {E : Type*} {B : Type*}

def trace (step : S → A → Option S) (emit : S → A → Option E) : S → List A → List E
  | _, [] => []
  | s, a :: as => (emit s a).toList ++ ((step s a).map fun t => trace step emit t as).getD []

theorem trace_cons {emit : S → A → Option E} {s t : S} {a : A} (h : step s a = some t) (as : List A) :
    trace step emit s (a :: as) = (emit s a).toList ++ trace step emit t as := by
  simp [trace,h]

/-- The runs of a specification given as a relation, by what they let be seen. -/
inductive Accepts (spec : B → E → B → Prop) : B → List E → B → Prop
  | nil {b : B} : Accepts spec b [] b
  | cons {b c d : B} {e : E} {es : List E} (he : spec b e c) (h : Accepts spec c es d) : Accepts spec b (e :: es) d

theorem Accepts.split {spec : B → E → B → Prop} {b d : B} {before after : List E} {e : E}
    (h : Accepts spec b (before ++ e :: after) d) :
    ∃ c c', Accepts spec b before c ∧ spec c e c' ∧ Accepts spec c' after d := by
  induction before generalizing b with
  | nil =>
    cases h with
    | cons he h => exact ⟨_,_,.nil,he,h⟩
  | cons x before ih =>
    cases h with
    | cons hx h =>
      obtain ⟨c,c',hbefore,he,hafter⟩ := ih h
      exact ⟨c,c',.cons hx hbefore,he,hafter⟩

/-- Forward simulation: steps that let nothing be seen keep the abstract state, and the
others are steps of the specification. -/
theorem simulates_of_invariant {spec : B → E → B → Prop} {emit : S → A → Option E} {f : S → B} {I : S → Prop}
    (hinv : ∀ s a t, I s → step s a = some t → I t)
    (hquiet : ∀ s a t, I s → step s a = some t → emit s a = none → f t = f s)
    (hshown : ∀ s a t e, I s → step s a = some t → emit s a = some e → spec (f s) e (f t))
    {s t : S} {as : List A} (hs : I s) (h : run step s as = some t) :
    Accepts spec (f s) (trace step emit s as) (f t) := by
  induction as generalizing s with
  | nil =>
    cases h
    exact .nil
  | cons a as ih =>
    obtain ⟨u,hu,hrest⟩ := Option.bind_eq_some_iff.mp h
    have hlater := ih (hinv s a u hs hu) hrest
    rw [trace_cons hu]
    cases he : emit s a with
    | none => exact hquiet s a u hs hu he ▸ hlater
    | some e => exact .cons (hshown s a u e hs hu he) hlater

theorem simulates {spec : B → E → B → Prop} {emit : S → A → Option E} {f : S → B}
    (hquiet : ∀ s a t, step s a = some t → emit s a = none → f t = f s)
    (hshown : ∀ s a t e, step s a = some t → emit s a = some e → spec (f s) e (f t))
    {s t : S} {as : List A} (h : run step s as = some t) : Accepts spec (f s) (trace step emit s as) (f t) :=
  simulates_of_invariant (I := fun _ => True) (fun _ _ _ _ _ => trivial) (fun s a t _ => hquiet s a t)
    (fun s a t e _ => hshown s a t e) trivial h

/-- An infinite execution; a moment without a label is one where nobody moves. -/
structure Execution (step : S → A → Option S) (allowed : A → Prop) where
  state : ℕ → S
  label : ℕ → Option A
  idle : ∀ n, label n = none → state (n + 1) = state n
  moves : ∀ n a, label n = some a → allowed a ∧ step (state n) a = some (state (n + 1))

namespace Execution

/-- Weak fairness: a label that stays enabled from some moment on is taken later. -/
def WeaklyFair (e : Execution step allowed) : Prop :=
  ∀ a, allowed a → ∀ n, (∀ m, n ≤ m → (step (e.state m) a).isSome) → ∃ m, n ≤ m ∧ e.label m = some a

/-- Weak fairness to some of the labels. -/
def FairTo (e : Execution step allowed) (scheduled : A → Prop) : Prop :=
  ∀ a, scheduled a → ∀ n, (∀ m, n ≤ m → (step (e.state m) a).isSome) → ∃ m, n ≤ m ∧ e.label m = some a

theorem reaches (e : Execution step allowed) (n : ℕ) :
    Reaches step allowed (e.state 0) (e.state n) := by
  induction n with
  | zero => exact .refl
  | succ n ih =>
    cases h : e.label n with
    | none => rw [e.idle n h]; exact ih
    | some a => exact ih.tail (e.moves n a h).1 (e.moves n a h).2

/-- Termination under weak fairness. Outside the goal no step raises the measure, some
scheduled label is helpful, and taking a helpful label lowers the measure; steps that do
not lower it leave helpful labels helpful, so they may go on for as long as they like. -/
theorem eventually_of_helpful {W : Type*} [Preorder W] [WellFoundedLT W] (e : Execution step allowed) {scheduled : A → Prop}
    (hfair : e.FairTo scheduled) {I G : S → Prop} (helpful : S → A → Prop) (μ : S → W)
    (hinit : I (e.state 0)) (hinv : ∀ s a t, allowed a → I s → step s a = some t → I t)
    (hstep : ∀ s a t, allowed a → I s → ¬ G s → step s a = some t →
      μ t < μ s ∨ μ t ≤ μ s ∧ ∀ b, helpful s b → helpful t b)
    (hhelpful : ∀ s a, I s → ¬ G s → helpful s a → scheduled a ∧ ∃ t, step s a = some t ∧ μ t < μ s)
    (hprogress : ∀ s, I s → ¬ G s → ∃ a, helpful s a) :
    ∃ n, G (e.state n) := by
  by_contra hnever
  push Not at hnever
  have hI (n : ℕ) : I (e.state n) := (e.reaches n).invariant hinit hinv
  have hdrop (n : ℕ) : ∃ k, μ (e.state k) < μ (e.state n) := by
    by_contra hno
    obtain ⟨a,ha⟩ := hprogress _ (hI n) (hnever n)
    have hstays (m : ℕ) (hm : n ≤ m) : μ (e.state m) ≤ μ (e.state n) ∧ helpful (e.state m) a := by
      induction m, hm using Nat.le_induction with
      | base => exact ⟨le_rfl,ha⟩
      | succ m hm ih =>
        cases hlabel : e.label m with
        | none => rwa [e.idle m hlabel]
        | some b =>
          obtain ⟨hb,hs⟩ := e.moves m b hlabel
          rcases hstep _ b _ hb (hI m) (hnever m) hs with hlow | ⟨hle,hkeeps⟩
          · exact absurd ⟨m+1,hlow.trans_le ih.1⟩ hno
          · exact ⟨hle.trans ih.1,hkeeps a ih.2⟩
    -- the label stays enabled, so fairness takes it and the measure does drop
    have htaken (m : ℕ) (hm : n ≤ m) := hhelpful _ a (hI m) (hnever m) (hstays m hm).2
    obtain ⟨m,hm,hlabel⟩ := hfair a (htaken n le_rfl).1 n fun m hm => by
      obtain ⟨-,t,ht,-⟩ := htaken m hm
      rw [ht]
      rfl
    obtain ⟨-,t,ht,hlow⟩ := htaken m hm
    rw [(e.moves m a hlabel).2,Option.some.injEq] at ht
    exact hno ⟨m+1,(ht ▸ hlow).trans_le (hstays m hm).1⟩
  have hall (v : W) : ∀ n, μ (e.state n) = v → False := by
    induction v using WellFoundedLT.induction with
    | _ v ih =>
      intro n hn
      obtain ⟨k,hk⟩ := hdrop n
      exact ih _ (hn ▸ hk) k rfl
  exact hall _ 0 rfl

/-- Outside the goal every step spins or lowers the measure, and some scheduled step
lowers it; a thread may spin for as long as it likes, but the others are not held up by
that. -/
theorem eventually_of_fairTo (e : Execution step allowed) {scheduled : A → Prop} (hfair : e.FairTo scheduled)
    {I G : S → Prop} (μ : S → ℕ)
    (hinit : I (e.state 0)) (hinv : ∀ s a t, allowed a → I s → step s a = some t → I t)
    (hstep : ∀ s a t, allowed a → I s → ¬ G s → step s a = some t → t = s ∨ μ t < μ s)
    (hprogress : ∀ s, I s → ¬ G s → ∃ a t, scheduled a ∧ step s a = some t ∧ μ t < μ s) :
    ∃ n, G (e.state n) := by
  refine e.eventually_of_helpful hfair (fun s a => scheduled a ∧ ∃ t, step s a = some t ∧ μ t < μ s) μ hinit hinv
    (fun s a t ha hI hG hs => ?_) (fun _ _ _ _ h => h) fun s hI hG => ?_
  · rcases hstep s a t ha hI hG hs with rfl | hlow
    · exact Or.inr ⟨le_rfl,fun _ => id⟩
    · exact Or.inl hlow
  · obtain ⟨a,t,ha,hs,hlow⟩ := hprogress s hI hG
    exact ⟨a,ha,t,hs,hlow⟩

theorem eventually (e : Execution step allowed) (hfair : e.WeaklyFair) {I G : S → Prop} (μ : S → ℕ)
    (hinit : I (e.state 0)) (hinv : ∀ s a t, allowed a → I s → step s a = some t → I t)
    (hstep : ∀ s a t, allowed a → I s → ¬ G s → step s a = some t → t = s ∨ μ t < μ s)
    (hprogress : ∀ s, I s → ¬ G s → ∃ a t, allowed a ∧ step s a = some t ∧ μ t < μ s) :
    ∃ n, G (e.state n) :=
  e.eventually_of_fairTo hfair μ hinit hinv hstep hprogress

end Execution

theorem sum_update {T X M : Type*} [Fintype T] [DecidableEq T] [AddCommMonoid M] (w : X → M) (f : T → X) (t : T)
    (x : X) : ∑ u, w (Function.update f t x u)+w (f t) = ∑ u, w (f u)+w x := by
  have hrest : ∑ u ∈ Finset.univ.erase t, w (Function.update f t x u) = ∑ u ∈ Finset.univ.erase t, w (f u) :=
    Finset.sum_congr rfl fun u hu => by rw [Function.update_of_ne (Finset.ne_of_mem_erase hu)]
  rw [← Finset.add_sum_erase _ _ (Finset.mem_univ t),hrest,Function.update_self,
    ← Finset.add_sum_erase _ (fun u => w (f u)) (Finset.mem_univ t)]
  abel

end Transition
end AudioOutput
