import AudioOutput.Buffer

/-!
# Programs over arrays

A program is given fuel for its loops; it reports events as it runs and ends with
a result or goes wrong. `Ends p Q` is total correctness, `Always p P Q` says that
every event of every run satisfies `P` and every result `Q`, whether the program
ends or not. Each construct has one rule for each.
-/

namespace AudioOutput

universe u v

inductive Fault
  | outOfBounds | outOfFuel | badLength | nullPointer
  deriving DecidableEq

/-- More fuel changes nothing once there is a result. -/
structure Program (ε : Type v) (α : Type u) where
  run : ℕ → List ε × Except Fault α
  steady : ∀ {m n : ℕ} {a : α}, m ≤ n → (run m).2 = .ok a → run n = run m

namespace Program

variable {ε : Type v} {α β σ : Type u}

def sequence (p : List ε × Except Fault α) (f : α → List ε × Except Fault β) : List ε × Except Fault β :=
  match p with
  | (es,.ok a) => (es ++ (f a).1,(f a).2)
  | (es,.error e) => (es,.error e)

theorem sequence_ok {p : List ε × Except Fault α} {f : α → List ε × Except Fault β} {b : β}
    (h : (sequence p f).2 = .ok b) : ∃ a, p.2 = .ok a ∧ (f a).2 = .ok b := by
  obtain ⟨es,a | a⟩ := p
  · cases h
  · exact ⟨a,rfl,h⟩

theorem sequence_of_ok {p : List ε × Except Fault α} (f : α → List ε × Except Fault β) {a : α} (h : p.2 = .ok a) :
    sequence p f = (p.1 ++ (f a).1,(f a).2) := by
  obtain ⟨es,_ | b⟩ := p
  · cases h
  · cases h
    rfl

theorem sequence_holds {p : List ε × Except Fault α} {f : α → List ε × Except Fault β} {P : ε → Prop} {R : β → Prop}
    (hp : ∀ e ∈ p.1, P e)
    (hf : ∀ a, p.2 = .ok a → (∀ e ∈ (f a).1, P e) ∧ ∀ b, (f a).2 = .ok b → R b) :
    (∀ e ∈ (sequence p f).1, P e) ∧ ∀ b, (sequence p f).2 = .ok b → R b := by
  obtain ⟨es,e | a⟩ := p
  · exact ⟨hp,fun b hb => by cases hb⟩
  · obtain ⟨hevents,hresult⟩ := hf a rfl
    exact ⟨fun e he => (List.mem_append.mp he).elim (hp e) (hevents e),hresult⟩

instance : Monad (Program ε) where
  pure a := ⟨fun _ => ([],.ok a),fun _ _ => rfl⟩
  bind p f := {
    run := fun fuel => sequence (p.run fuel) fun a => (f a).run fuel
    steady := by
      intro m n b hmn h
      obtain ⟨a,ha,hb⟩ := sequence_ok h
      rw [p.steady hmn ha,sequence_of_ok _ ha,sequence_of_ok _ ha,(f a).steady hmn hb] }

def ofExcept (r : Except Fault α) : Program ε α := ⟨fun _ => ([],r),fun _ _ => rfl⟩

def emit (e : ε) : Program ε PUnit := ⟨fun _ => ([e],.ok ⟨⟩),fun _ _ => rfl⟩

def silent (p : Program Empty α) : Program ε α where
  run fuel := ([],(p.run fuel).2)
  steady hmn h := by rw [p.steady hmn h]

instance : MonadLift (Program Empty) (Program ε) := ⟨silent⟩

def Returns (p : Program ε α) (a : α) : Prop := ∃ fuel, (p.run fuel).2 = .ok a

def Ends (p : Program ε α) (Q : α → Prop) : Prop := ∃ a, Returns p a ∧ Q a

theorem Returns.unique {p : Program ε α} {a b : α} (ha : Returns p a) (hb : Returns p b) : a = b := by
  obtain ⟨m,hm⟩ := ha
  obtain ⟨n,hn⟩ := hb
  rw [← p.steady (le_max_left m n) hm] at hm
  rw [← p.steady (le_max_right m n) hn] at hn
  exact Except.ok.inj (hm.symm.trans hn)

theorem Returns.ends {p : Program ε α} {a : α} {Q : α → Prop} (h : Returns p a) (hQ : Q a) : Ends p Q := ⟨a,h,hQ⟩

theorem Returns.of_run {p : Program ε α} (fuel : ℕ) {a : α} (h : (p.run fuel).2.toOption = some a) : Returns p a := by
  refine ⟨fuel,?_⟩
  cases hrun : (p.run fuel).2 with
  | error e => simp [hrun,Except.toOption] at h
  | ok b =>
    rw [hrun,Except.toOption,Option.some.injEq] at h
    rw [h]

theorem Ends.returns {p : Program ε α} {a : α} (h : Ends p (· = a)) : Returns p a := by
  obtain ⟨b,hb,rfl⟩ := h
  exact hb

theorem Ends.imp {p : Program ε α} {Q R : α → Prop} (h : Ends p Q) (hQR : ∀ a, Q a → R a) : Ends p R := by
  obtain ⟨a,ha,hQ⟩ := h
  exact ⟨a,ha,hQR a hQ⟩

theorem Returns.pure (a : α) : Returns (pure a : Program ε α) a := ⟨0,rfl⟩

theorem Returns.bind {p : Program ε α} {f : α → Program ε β} {a : α} {b : β} (hp : Returns p a)
    (hf : Returns (f a) b) : Returns (p >>= f) b := by
  obtain ⟨m,hm⟩ := hp
  obtain ⟨n,hn⟩ := hf
  rw [← p.steady (le_max_left m n) hm] at hm
  rw [← (f a).steady (le_max_right m n) hn] at hn
  refine ⟨max m n,?_⟩
  change (sequence (p.run (max m n)) fun a => (f a).run (max m n)).2 = .ok b
  rw [sequence_of_ok _ hm,hn]

theorem Ends.pure {Q : α → Prop} {a : α} (h : Q a) : Ends (pure a : Program ε α) Q := ⟨a,.pure a,h⟩

theorem Ends.bind {p : Program ε α} {f : α → Program ε β} {Q : α → Prop} {R : β → Prop} (hp : Ends p Q)
    (hf : ∀ a, Q a → Ends (f a) R) : Ends (p >>= f) R := by
  obtain ⟨a,ha,hQ⟩ := hp
  obtain ⟨b,hb,hR⟩ := hf a hQ
  exact ⟨b,ha.bind hb,hR⟩

theorem Returns.then {p : Program ε α} {f : α → Program ε β} {a : α} {R : β → Prop} (hp : Returns p a)
    (hf : Ends (f a) R) : Ends (p >>= f) R := by
  obtain ⟨b,hb,hR⟩ := hf
  exact ⟨b,hp.bind hb,hR⟩

theorem Ends.silent {p : Program Empty α} {Q : α → Prop} (h : Ends p Q) : Ends (silent p : Program ε α) Q := h

theorem Returns.emit (e : ε) : Returns (emit e) ⟨⟩ := ⟨0,rfl⟩

def Always (p : Program ε α) (P : ε → Prop) (Q : α → Prop) : Prop :=
  ∀ fuel, (∀ e ∈ (p.run fuel).1, P e) ∧ ∀ a, (p.run fuel).2 = .ok a → Q a

theorem Ends.always {p : Program Empty α} {P : ε → Prop} {Q : α → Prop} (h : Ends p Q) :
    Always (Program.silent p : Program ε α) P Q := by
  obtain ⟨a,ha,hQ⟩ := h
  refine fun fuel => ⟨by simp [Program.silent],fun b hb => ?_⟩
  rwa [Returns.unique ⟨fuel,hb⟩ ha]

theorem Always.of_true (p : Program ε α) : Always p (fun _ => True) fun _ => True :=
  fun _ => ⟨fun _ _ => trivial,fun _ _ => trivial⟩

/-- What holds of every result holds of the one there is. -/
theorem Always.ends {p : Program ε α} {P : ε → Prop} {Q R : α → Prop} (h : Always p P Q) (hp : Ends p R) :
    Ends p Q := by
  obtain ⟨a,⟨fuel,ha⟩,_⟩ := hp
  exact ⟨a,⟨fuel,ha⟩,(h fuel).2 a ha⟩

theorem Always.imp {p : Program ε α} {P : ε → Prop} {Q R : α → Prop} (h : Always p P Q) (hQR : ∀ a, Q a → R a) :
    Always p P R :=
  fun fuel => ⟨(h fuel).1,fun a ha => hQR a ((h fuel).2 a ha)⟩

theorem Always.imp_event {p : Program ε α} {P P' : ε → Prop} {Q : α → Prop} (h : Always p P Q) (hP : ∀ e, P e → P' e) :
    Always p P' Q :=
  fun fuel => ⟨fun e he => hP e ((h fuel).1 e he),(h fuel).2⟩

theorem Always.pure {P : ε → Prop} {Q : α → Prop} {a : α} (h : Q a) : Always (pure a : Program ε α) P Q :=
  fun _ => ⟨by simp [Pure.pure],fun _ hb => Except.ok.inj hb ▸ h⟩

theorem Always.emit {P : ε → Prop} {e : ε} (h : P e) : Always (emit e) P fun _ => True :=
  fun _ => ⟨by simpa [Program.emit] using h,fun _ _ => trivial⟩

theorem Always.bind {p : Program ε α} {f : α → Program ε β} {P : ε → Prop} {Q : α → Prop} {R : β → Prop}
    (hp : Always p P Q) (hf : ∀ a, Q a → Always (f a) P R) : Always (p >>= f) P R :=
  fun fuel => sequence_holds (hp fuel).1 fun a ha => hf a ((hp fuel).2 a ha) fuel

/-- Runs as in `Always`, and an end where `total` holds. -/
def Meets (total : Prop) (p : Program ε α) (P : ε → Prop) (Q : α → Prop) : Prop :=
  Always p P Q ∧ (total → Ends p Q)

section Meets

variable {total : Prop} {P : ε → Prop}

theorem Meets.imp {p : Program ε α} {Q R : α → Prop} (h : Meets total p P Q) (hQR : ∀ a, Q a → R a) :
    Meets total p P R := ⟨h.1.imp hQR,fun ht => (h.2 ht).imp hQR⟩

theorem Meets.pure {Q : α → Prop} {a : α} (h : Q a) : Meets total (pure a : Program ε α) P Q :=
  ⟨.pure h,fun _ => .pure h⟩

theorem Meets.emit {e : ε} (h : P e) : Meets total (emit e) P fun _ => True :=
  ⟨.emit h,fun _ => (Returns.emit e).ends trivial⟩

theorem Meets.ofExcept {r : Except Fault α} {a : α} (h : r = .ok a) :
    Meets total (ofExcept r : Program ε α) P (· = a) := by
  subst h
  exact ⟨fun _ => ⟨by simp [Program.ofExcept],fun _ hb => (Except.ok.inj hb).symm⟩,fun _ => ⟨a,⟨0,rfl⟩,rfl⟩⟩

theorem Ends.meets {p : Program Empty α} {Q : α → Prop} (h : Ends p Q) :
    Meets total (Program.silent p : Program ε α) P Q := ⟨h.always,fun _ => h.silent⟩

theorem Meets.bind {p : Program ε α} {f : α → Program ε β} {Q : α → Prop} {R : β → Prop} (hp : Meets total p P Q)
    (hf : ∀ a, Q a → Meets total (f a) P R) : Meets total (p >>= f) P R :=
  ⟨hp.1.bind fun a ha => (hf a ha).1,fun ht => (hp.2 ht).bind fun a ha => (hf a ha).2 ht⟩

end Meets

section While

variable (cond : σ → Prop) [DecidablePred cond]

def iterate (body : σ → List ε × Except Fault σ) : ℕ → σ → List ε × Except Fault σ
  | 0, s => if cond s then ([],.error .outOfFuel) else ([],.ok s)
  | n+1, s => if cond s then sequence (body s) (iterate body n) else ([],.ok s)

variable {cond}

theorem iterate_steady {body : σ → Program ε σ} {m n k l : ℕ} (hmn : m ≤ n) (hkl : k ≤ l) {s t : σ}
    (h : (iterate cond (fun s => (body s).run m) k s).2 = .ok t) :
    iterate cond (fun s => (body s).run n) l s = iterate cond (fun s => (body s).run m) k s := by
  induction k generalizing l s with
  | zero =>
    by_cases hc : cond s
    · simp [iterate,hc] at h
    · cases l <;> simp [iterate,hc]
  | succ k ih =>
    obtain ⟨l,rfl⟩ := Nat.exists_eq_add_of_le' (Nat.one_le_of_lt hkl)
    by_cases hc : cond s
    · rw [iterate,if_pos hc] at h
      obtain ⟨u,hu,ht⟩ := sequence_ok h
      rw [iterate,iterate,if_pos hc,if_pos hc,(body s).steady hmn hu,sequence_of_ok _ hu,sequence_of_ok _ hu,
        ih (by omega) ht]
    · simp [iterate,hc]

variable (cond)

/-- `while(cond) body`. -/
def whileLoop (body : σ → Program ε σ) (s : σ) : Program ε σ where
  run fuel := iterate cond (fun t => (body t).run fuel) fuel s
  steady hmn h := iterate_steady hmn hmn h

variable {cond}

/-- A loop ends when its body keeps the invariant and lowers the variant. -/
theorem Ends.whileLoop {body : σ → Program ε σ} (I : σ → Prop) (v : σ → ℕ) {s : σ} (hinit : I s)
    (hstep : ∀ s, I s → cond s → Ends (body s) fun t => I t ∧ v t < v s) :
    Ends (whileLoop cond body s) fun t => I t ∧ ¬ cond t := by
  suffices h : ∃ t, (∃ n, (iterate cond (fun u => (body u).run n) n s).2 = .ok t) ∧ I t ∧ ¬ cond t from h
  induction hv : v s using Nat.strong_induction_on generalizing s with
  | _ k ih =>
    by_cases hc : cond s
    · obtain ⟨u,⟨m,hm⟩,hu,hlt⟩ := hstep s hinit hc
      obtain ⟨t,⟨n,hn⟩,ht⟩ := ih (v u) (hv ▸ hlt) hu rfl
      have hfuel : m ≤ m+n+1 := by omega
      have hfuel' : n ≤ m+n+1 := by omega
      rw [← (body s).steady hfuel hm] at hm
      rw [← iterate_steady hfuel' (n.le_add_left m) hn] at hn
      refine ⟨t,⟨m+n+1,?_⟩,ht⟩
      rwa [iterate,if_pos hc,sequence_of_ok _ hm]
    · refine ⟨s,⟨0,?_⟩,hinit,hc⟩
      rw [iterate,if_neg hc]

theorem Ends.whileLoop_stop {body : σ → Program ε σ} {Q : σ → Prop} {s : σ} (h : ¬ cond s) (hQ : Q s) :
    Ends (Program.whileLoop cond body s) Q := by
  refine ⟨s,⟨0,?_⟩,hQ⟩
  change (iterate cond (fun t => (body t).run 0) 0 s).2 = .ok s
  rw [iterate,if_neg h]

theorem Ends.whileLoop_round {body : σ → Program ε σ} {P Q : σ → Prop} {s : σ} (h : cond s) (hbody : Ends (body s) P)
    (hrest : ∀ t, P t → Ends (Program.whileLoop cond body t) Q) : Ends (Program.whileLoop cond body s) Q := by
  obtain ⟨u,⟨m,hm⟩,hu⟩ := hbody
  obtain ⟨t,⟨n,hn⟩,ht⟩ := hrest u hu
  have hfuel : m ≤ m+n+1 := by omega
  have hfuel' : n ≤ m+n+1 := by omega
  rw [← (body s).steady hfuel hm] at hm
  change (iterate cond (fun u => (body u).run n) n u).2 = .ok t at hn
  rw [← iterate_steady hfuel' (n.le_add_left m) hn] at hn
  refine ⟨t,⟨m+n+1,?_⟩,ht⟩
  change (iterate cond (fun u => (body u).run (m+n+1)) (m+n+1) s).2 = .ok t
  rwa [iterate,if_pos h,sequence_of_ok _ hm]

theorem Always.whileLoop {body : σ → Program ε σ} {P : ε → Prop} (I : σ → Prop) {s : σ} (hinit : I s)
    (hstep : ∀ s, I s → cond s → Always (body s) P I) :
    Always (whileLoop cond body s) P fun t => I t ∧ ¬ cond t := by
  intro fuel
  suffices h : ∀ k s, I s → (∀ e ∈ (iterate cond (fun u => (body u).run fuel) k s).1, P e) ∧
      ∀ t, (iterate cond (fun u => (body u).run fuel) k s).2 = .ok t → I t ∧ ¬ cond t from h fuel s hinit
  intro k
  induction k with
  | zero =>
    intro s hs
    by_cases hc : cond s
    · simp [iterate,hc]
    · simp only [iterate,if_neg hc]
      exact ⟨by simp,fun t ht => Except.ok.inj ht ▸ ⟨hs,hc⟩⟩
  | succ k ih =>
    intro s hs
    by_cases hc : cond s
    · have hbody := hstep s hs hc fuel
      rw [iterate,if_pos hc]
      exact sequence_holds hbody.1 fun u hu => ih u (hbody.2 u hu)
    · simp only [iterate,if_neg hc]
      exact ⟨by simp,fun t ht => Except.ok.inj ht ▸ ⟨hs,hc⟩⟩

/-- The variant of a loop is needed only where it has to end. -/
theorem Meets.whileLoop {total : Prop} {body : σ → Program ε σ} {P : ε → Prop} (I : σ → Prop) (v : σ → ℕ) {s : σ}
    (hinit : I s) (hstep : ∀ s, I s → cond s → Meets total (body s) P fun t => I t ∧ (total → v t < v s)) :
    Meets total (whileLoop cond body s) P fun t => I t ∧ ¬ cond t := by
  refine ⟨.whileLoop I hinit fun s hs hc => (hstep s hs hc).1.imp fun t h => h.1,fun ht => ?_⟩
  refine .whileLoop I v hinit fun s hs hc => ((hstep s hs hc).2 ht).imp fun t h => ⟨h.1,h.2 ht⟩

end While

/-- `for(i = 0; i < n; i++) body`. -/
def forLoop : ℕ → (ℕ → σ → Program ε σ) → σ → Program ε σ
  | 0, _, s => pure s
  | n+1, body, s => do body n (← forLoop n body s)

theorem Ends.forLoop {n : ℕ} {body : ℕ → σ → Program ε σ} (I : ℕ → σ → Prop) {s : σ} (hinit : I 0 s)
    (hstep : ∀ i s, i < n → I i s → Ends (body i s) (I (i+1))) : Ends (forLoop n body s) (I n) := by
  induction n with
  | zero => exact .pure hinit
  | succ n ih =>
    refine (ih fun i s hi => hstep i s (by omega)).bind fun t ht => ?_
    exact hstep n t n.lt_succ_self ht

/-- `for(i = 0, j = 0; i < bound; i += m, j += n) body`. -/
def stridedLoop (bound m n : ℕ) (body : ℕ → ℕ → σ → Program ε σ) (s : σ) : Program ε σ := do
  let r ← whileLoop (fun r : ℕ × ℕ × σ => r.1 < bound)
    (fun (i,j,t) => do let u ← body i j t; return (i+m,j+n,u)) (0,0,s)
  return r.2.2

theorem Ends.stridedLoop {count m n : ℕ} {body : ℕ → ℕ → σ → Program ε σ} (I : ℕ → σ → Prop) {s : σ}
    (hm : 1 ≤ m) (hinit : I 0 s)
    (hstep : ∀ k s, k < count → I k s → Ends (body (k*m) (k*n) s) (I (k+1))) :
    Ends (stridedLoop (count*m) m n body s) (I count) := by
  let J : ℕ × ℕ × σ → Prop := fun r => ∃ k ≤ count, r.1 = k*m ∧ r.2.1 = k*n ∧ I k r.2.2
  have hloop : Ends (Program.whileLoop (fun r : ℕ × ℕ × σ => r.1 < count*m)
      (fun (i,j,t) => do let u ← body i j t; return (i+m,j+n,u)) (0,0,s)) fun r => J r ∧ ¬ r.1 < count*m := by
    refine .whileLoop J (fun r => count*m-r.1) ⟨0,Nat.zero_le _,by simp,by simp,hinit⟩ ?_
    rintro ⟨i,j,t⟩ ⟨k,hk,rfl,rfl,ht⟩ hlt
    have hlt : k*m < count*m := hlt
    have hkc : k < count := Nat.lt_of_mul_lt_mul_right hlt
    refine (hstep k t hkc ht).bind fun u hu => .pure ⟨⟨k+1,hkc,?_,?_,hu⟩,?_⟩
    · exact (Nat.succ_mul k m).symm
    · exact (Nat.succ_mul k n).symm
    · dsimp only
      omega
  refine hloop.bind fun r ⟨⟨k,hk,hi,_,ht⟩,hge⟩ => .pure ?_
  have hck : count ≤ k := Nat.le_of_mul_le_mul_right (hi ▸ Nat.le_of_not_lt hge) hm
  obtain rfl : k = count := le_antisymm hk hck
  exact ht

end Program

namespace Buffer

variable {ε : Type v} {α : Type u}

def load (xs : List α) (i : ℕ) : Program ε α :=
  .ofExcept <| match xs[i]? with
    | some x => .ok x
    | none => .error .outOfBounds

/-- `xs[i] = f(xs[i])`. -/
def modify (xs : List α) (i : ℕ) (f : α → α) : Program ε (List α) :=
  .ofExcept <| if i < xs.length then .ok (xs.modify i f) else .error .outOfBounds

def region (xs : List α) (pos len : ℕ) : Program ε (List α) :=
  .ofExcept <| if pos+len ≤ xs.length then .ok (slice xs pos len) else .error .outOfBounds

/-- `std::copy(xs, xs + len, dst + pos)`. -/
def store (dst : List α) (pos : ℕ) (xs : List α) : Program ε (List α) :=
  .ofExcept <| if pos+xs.length ≤ dst.length then .ok (splice dst pos xs) else .error .outOfBounds

theorem load_returns {xs : List α} {i : ℕ} {x : α} (h : xs[i]? = some x) : (load xs i : Program ε α).Returns x :=
  ⟨0,by simp only [load,Program.ofExcept,h]⟩

theorem modify_returns {xs : List α} {i : ℕ} (f : α → α) (h : i < xs.length) :
    (modify xs i f : Program ε (List α)).Returns (xs.modify i f) :=
  ⟨0,by simp only [modify,Program.ofExcept,h,if_true]⟩

theorem region_returns {xs : List α} {pos len : ℕ} (h : pos+len ≤ xs.length) :
    (region xs pos len : Program ε (List α)).Returns (slice xs pos len) :=
  ⟨0,by simp only [region,Program.ofExcept,h,if_true]⟩

theorem store_returns {dst : List α} {pos : ℕ} {xs : List α} (h : pos+xs.length ≤ dst.length) :
    (store dst pos xs : Program ε (List α)).Returns (splice dst pos xs) :=
  ⟨0,by simp only [store,Program.ofExcept,h,if_true]⟩

theorem region_meets {total : Prop} {P : ε → Prop} {xs : List α} {pos len : ℕ} (h : pos+len ≤ xs.length) :
    (region xs pos len : Program ε (List α)).Meets total P (· = slice xs pos len) := .ofExcept (if_pos h)

theorem store_meets {total : Prop} {P : ε → Prop} {dst : List α} {pos : ℕ} {xs : List α}
    (h : pos+xs.length ≤ dst.length) : (store dst pos xs : Program ε (List α)).Meets total P (· = splice dst pos xs) :=
  .ofExcept (if_pos h)

end Buffer
end AudioOutput
