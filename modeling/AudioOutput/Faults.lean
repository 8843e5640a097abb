import AudioOutput.Program

/-!
# Programs without faults

A run that needs more fuel has gone wrong in no other way. `Faultless p` says so of
every run of a program, whether it ends or not, so that the checks of its accesses
all pass; `Definite p` says that what goes wrong does not depend on the fuel, and
then a program that ends is faultless. `Visits` are the heads of a loop.
-/

namespace AudioOutput

universe u v

namespace Program

variable {ε : Type v} {α β σ : Type u}

/-- The only fault of any run is that its fuel has run out. -/
def Faultless (p : Program ε α) : Prop := ∀ fuel f, (p.run fuel).2 = .error f → f = .outOfFuel

def Definite (p : Program ε α) : Prop :=
  ∀ m n f, m ≤ n → (p.run m).2 = .error f → f ≠ .outOfFuel → (p.run n).2 = .error f

theorem sequence_error {p : List ε × Except Fault α} {g : α → List ε × Except Fault β} {f : Fault}
    (h : (sequence p g).2 = .error f) : p.2 = .error f ∨ ∃ a, p.2 = .ok a ∧ (g a).2 = .error f := by
  obtain ⟨es,e | a⟩ := p
  · cases h
    exact Or.inl rfl
  · exact Or.inr ⟨a,rfl,h⟩

theorem sequence_of_error {p : List ε × Except Fault α} (g : α → List ε × Except Fault β) {f : Fault}
    (h : p.2 = .error f) : (sequence p g).2 = .error f := by
  obtain ⟨es,e | a⟩ := p
  · cases h
    rfl
  · cases h

theorem Definite.pure (a : α) : Definite (pure a : Program ε α) := fun _ _ _ _ h _ => h

theorem Definite.ofExcept (r : Except Fault α) : Definite (ofExcept r : Program ε α) := fun _ _ _ _ h _ => h

theorem Definite.bind {p : Program ε α} {f : α → Program ε β} (hp : Definite p) (hf : ∀ a, Definite (f a)) :
    Definite (p >>= f) := by
  intro m n e hmn h he
  rcases sequence_error h with hfirst | ⟨a,ha,hsecond⟩
  · exact sequence_of_error _ (hp m n e hmn hfirst he)
  · have hlater := hf a m n e hmn hsecond he
    change (sequence (p.run n) fun a => (f a).run n).2 = .error e
    rw [p.steady hmn ha,sequence_of_ok _ ha,hlater]

theorem Definite.whileLoop {cond : σ → Prop} [DecidablePred cond] {body : σ → Program ε σ}
    (hbody : ∀ s, Definite (body s)) (s : σ) : Definite (whileLoop cond body s) := by
  intro m n e hmn h he
  suffices hloop : ∀ k l s, k ≤ l → (iterate cond (fun t => (body t).run m) k s).2 = .error e →
      (iterate cond (fun t => (body t).run n) l s).2 = .error e from hloop m n s hmn h
  intro k
  induction k with
  | zero =>
    intro l s _ hk
    by_cases hc : cond s
    · rw [iterate,if_pos hc] at hk
      cases hk
      exact absurd rfl he
    · rw [iterate,if_neg hc] at hk
      cases hk
  | succ k ih =>
    intro l s hkl hk
    obtain ⟨l,rfl⟩ := Nat.exists_eq_add_of_le' (Nat.one_le_of_lt hkl)
    by_cases hc : cond s
    · rw [iterate,if_pos hc] at hk ⊢
      rcases sequence_error hk with hfirst | ⟨t,ht,hrest⟩
      · exact sequence_of_error _ (hbody s m n e hmn hfirst he)
      · rw [(body s).steady hmn ht,sequence_of_ok _ ht]
        exact ih l t (by omega) hrest
    · rw [iterate,if_neg hc] at hk
      cases hk

theorem Definite.forLoop {body : ℕ → σ → Program ε σ} (hbody : ∀ i s, Definite (body i s)) (n : ℕ) (s : σ) :
    Definite (forLoop n body s) := by
  induction n with
  | zero => exact .pure s
  | succ n ih => exact ih.bind fun t => hbody n t

theorem Definite.stridedLoop {body : ℕ → ℕ → σ → Program ε σ} (hbody : ∀ i j s, Definite (body i j s))
    (bound m n : ℕ) (s : σ) : Definite (stridedLoop bound m n body s) := by
  refine (Definite.whileLoop ?_ _).bind fun _ => .pure _
  rintro ⟨i,j,t⟩
  exact (hbody i j t).bind fun _ => .pure _

/-- A program that ends meets no fault on the way, with too little fuel either. -/
theorem Ends.faultless {p : Program ε α} {Q : α → Prop} (h : Ends p Q) (hp : Definite p) : Faultless p := by
  obtain ⟨a,⟨n,hn⟩,-⟩ := h
  intro m f hm
  by_contra hf
  have hfault := hp m (max m n) f (le_max_left ..) hm hf
  rw [p.steady (le_max_right m n) hn,hn] at hfault
  cases hfault

theorem Faultless.silent {p : Program Empty α} (h : Faultless p) : Faultless (silent p : Program ε α) := h

theorem Faultless.pure (a : α) : Faultless (pure a : Program ε α) := fun _ _ h => by cases h

theorem Faultless.emit (e : ε) : Faultless (emit e) := fun _ _ h => by cases h

theorem Faultless.ofExcept {r : Except Fault α} {a : α} (h : r = .ok a) : Faultless (ofExcept r : Program ε α) := by
  subst h
  exact fun _ _ hf => by cases hf

theorem Faultless.bind {p : Program ε α} {f : α → Program ε β} {P : ε → Prop} {Q : α → Prop} (hp : Faultless p)
    (hQ : Always p P Q) (hf : ∀ a, Q a → Faultless (f a)) : Faultless (p >>= f) := by
  intro fuel e h
  rcases sequence_error h with hfirst | ⟨a,ha,hsecond⟩
  · exact hp fuel e hfirst
  · exact hf a ((hQ fuel).2 a ha) fuel e hsecond

theorem Faultless.after {p : Program ε α} {f : α → Program ε β} (hp : Faultless p) (hf : ∀ a, Faultless (f a)) :
    Faultless (p >>= f) := hp.bind (.of_true p) fun a _ => hf a

theorem Faultless.whileLoop {cond : σ → Prop} [DecidablePred cond] {body : σ → Program ε σ} {P : ε → Prop}
    (I : σ → Prop) {s : σ} (hinit : I s) (hstep : ∀ s, I s → cond s → Always (body s) P I)
    (hbody : ∀ s, I s → cond s → Faultless (body s)) : Faultless (whileLoop cond body s) := by
  intro fuel f h
  suffices hloop : ∀ k s, I s → (iterate cond (fun t => (body t).run fuel) k s).2 = .error f → f = .outOfFuel from
    hloop fuel s hinit h
  intro k
  induction k with
  | zero =>
    intro s _ hk
    by_cases hc : cond s
    · rw [iterate,if_pos hc] at hk
      cases hk
      rfl
    · rw [iterate,if_neg hc] at hk
      cases hk
  | succ k ih =>
    intro s hs hk
    by_cases hc : cond s
    · rw [iterate,if_pos hc] at hk
      rcases sequence_error hk with hfirst | ⟨t,ht,hrest⟩
      · exact hbody s hs hc fuel f hfirst
      · exact ih t ((hstep s hs hc fuel).2 t ht) hrest
    · rw [iterate,if_neg hc] at hk
      cases hk

inductive Visits (cond : σ → Prop) (body : σ → Program ε σ) (s : σ) : σ → Prop
  | start : Visits cond body s s
  | round {t u : σ} (h : Visits cond body s t) (hc : cond t) (hb : Returns (body t) u) : Visits cond body s u

theorem Always.result {p : Program ε α} {P : ε → Prop} {Q : α → Prop} (h : Always p P Q) {a : α} (ha : Returns p a) :
    Q a := by
  obtain ⟨fuel,ha⟩ := ha
  exact (h fuel).2 a ha

section Visits

variable {cond : σ → Prop} {body : σ → Program ε σ} {s t : σ}

theorem Visits.invariant (h : Visits cond body s t) (I : σ → Prop) (hinit : I s)
    (hstep : ∀ t u, I t → cond t → Returns (body t) u → I u) : I t := by
  induction h with
  | start => exact hinit
  | round _ hc hb ih => exact hstep _ _ ih hc hb

/-- The last head of a loop is the one at which it stops. -/
theorem Visits.of_returns [DecidablePred cond] (h : Returns (whileLoop cond body s) t) : Visits cond body s t := by
  obtain ⟨fuel,h⟩ := h
  suffices hloop : ∀ k u, Visits cond body s u → (iterate cond (fun u => (body u).run fuel) k u).2 = .ok t →
      Visits cond body s t from hloop fuel s .start h
  intro k
  induction k with
  | zero =>
    intro u hu hk
    by_cases hc : cond u
    · rw [iterate,if_pos hc] at hk
      cases hk
    · rw [iterate,if_neg hc] at hk
      cases hk
      exact hu
  | succ k ih =>
    intro u hu hk
    by_cases hc : cond u
    · rw [iterate,if_pos hc] at hk
      obtain ⟨v,hv,hrest⟩ := sequence_ok hk
      exact ih v (hu.round hc ⟨fuel,hv⟩) hrest
    · rw [iterate,if_neg hc] at hk
      cases hk
      exact hu

end Visits

end Program

namespace Buffer

open Program

variable {ε : Type v} {α : Type u}

theorem load_definite {xs : List α} {i : ℕ} : Definite (load xs i : Program ε α) := .ofExcept _

theorem modify_definite {xs : List α} {i : ℕ} {f : α → α} : Definite (modify xs i f : Program ε (List α)) :=
  .ofExcept _

theorem region_definite {xs : List α} {pos len : ℕ} : Definite (region xs pos len : Program ε (List α)) :=
  .ofExcept _

theorem store_definite {dst : List α} {pos : ℕ} {xs : List α} : Definite (store dst pos xs : Program ε (List α)) :=
  .ofExcept _

theorem region_faultless {xs : List α} {pos len : ℕ} (h : pos+len ≤ xs.length) :
    Faultless (region xs pos len : Program ε (List α)) := .ofExcept (if_pos h)

theorem store_faultless {dst : List α} {pos : ℕ} {xs : List α} (h : pos+xs.length ≤ dst.length) :
    Faultless (store dst pos xs : Program ε (List α)) := .ofExcept (if_pos h)

end Buffer
end AudioOutput
