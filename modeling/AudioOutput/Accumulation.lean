import AudioOutput.Program

/-!
# Accumulation into cells

Programs made of `cell += value`. What such a program does is the list of its
updates, and a cell ends up with its own values added in their order.
-/

namespace AudioOutput

universe u v w

/-- A memory whose cells can be read and added to. -/
structure Cells (M : Type u) (ι : Type v) (α : Type w) [Add α] [DecidableEq ι] where
  get : M → ι → Option α
  add : M → ι → α → M
  get_add : ∀ m i x j, get (add m i x) j = if i = j then (get m j).map (· + x) else get m j

namespace Cells

variable {M : Type u} {ι : Type v} {α : Type w} [Add α] [DecidableEq ι]

def terms (j : ι) (us : List (ι × α)) : List α := us.filterMap fun u => if u.1 = j then some u.2 else none

def total (x : α) (ts : List α) : α := ts.foldl (· + ·) x

omit [Add α] in
@[simp] theorem terms_nil (j : ι) : terms j ([] : List (ι × α)) = [] := rfl

omit [Add α] in
@[simp] theorem terms_append (j : ι) (us vs : List (ι × α)) : terms j (us ++ vs) = terms j us ++ terms j vs :=
  List.filterMap_append

omit [Add α] in
theorem terms_flatMap {β : Type*} (j : ι) (l : List β) (us : β → List (ι × α)) :
    terms j (l.flatMap us) = l.flatMap fun b => terms j (us b) := by
  induction l with
  | nil => rfl
  | cons b l ih => simp [ih]

omit [Add α] in
@[simp] theorem terms_map_same (j : ι) (ts : List α) : terms j (ts.map fun x => (j,x)) = ts := by
  simp [terms]

omit [Add α] in
theorem terms_map_other {i j : ι} (h : i ≠ j) (ts : List α) : terms j (ts.map fun x => (i,x)) = [] := by
  simp [terms,h]

theorem flatMap_range_single {β : Type*} {n i : ℕ} (hi : i < n) {f : ℕ → List β}
    (h : ∀ k < n, k ≠ i → f k = []) : (List.range n).flatMap f = f i := by
  induction n with
  | zero => cases hi
  | succ n ih =>
    rw [List.range_succ,List.flatMap_append,List.flatMap_singleton]
    by_cases hin : i = n
    · subst hin
      have hnil : (List.range i).flatMap f = [] :=
        List.flatMap_eq_nil_iff.mpr fun k hk => by
          have hlt := List.mem_range.mp hk
          exact h k (by omega) (by omega)
      rw [hnil,List.nil_append]
    · rw [ih (by omega) fun k hk hne => h k (by omega) hne,h n (by omega) fun hn => hin hn.symm,List.append_nil]

variable (c : Cells M ι α)

def addAll (m : M) (us : List (ι × α)) : M := us.foldl (fun m u => c.add m u.1 u.2) m

@[simp] theorem addAll_nil (m : M) : c.addAll m [] = m := rfl

theorem addAll_append (m : M) (us vs : List (ι × α)) : c.addAll m (us ++ vs) = c.addAll (c.addAll m us) vs :=
  List.foldl_append

theorem get_addAll (m : M) (us : List (ι × α)) (j : ι) :
    c.get (c.addAll m us) j = (c.get m j).map fun x => total x (terms j us) := by
  induction us generalizing m with
  | nil => simp [total]
  | cons u us ih =>
    change c.get (c.addAll (c.add m u.1 u.2) us) j = _
    rw [ih,c.get_add]
    by_cases h : u.1 = j
    · simp [terms,total,h,Function.comp_def]
    · simp [terms,h]

/-- Memories with the same cells. -/
def Alike (m m' : M) : Prop := ∀ j, (c.get m' j).isSome = (c.get m j).isSome

variable {c}

theorem Alike.trans {m₁ m₂ m₃ : M} (h : c.Alike m₁ m₂) (h' : c.Alike m₂ m₃) : c.Alike m₁ m₃ :=
  fun j => (h' j).trans (h j)

theorem alike_addAll (m : M) (us : List (ι × α)) : c.Alike m (c.addAll m us) := fun j => by
  rw [get_addAll,Option.isSome_map]

omit [Add α] in
/-- For each of `m` rounds the updates of `n` cells. -/
def updates (cell : ℕ → ℕ → ι) (m n : ℕ) (ts : ℕ → ℕ → List α) : List (ι × α) :=
  (List.range m).flatMap fun i => (List.range n).flatMap fun j => (ts i j).map fun x => (cell i j,x)

omit [Add α] in
theorem terms_updates (cell : ℕ → ℕ → ι) {m n : ℕ} (ts : ℕ → ℕ → List α) {i j : ℕ} (hi : i < m) (hj : j < n)
    (hinj : ∀ i' < m, ∀ j' < n, cell i' j' = cell i j → i' = i ∧ j' = j) :
    terms (cell i j) (updates cell m n ts) = ts i j := by
  rw [updates,terms_flatMap,flatMap_range_single hi,terms_flatMap,flatMap_range_single hj,terms_map_same]
  · intro j' hj' hne
    exact terms_map_other (fun h => hne (hinj i hi j' hj' h).2) _
  · intro i' hi' hne
    rw [terms_flatMap]
    refine List.flatMap_eq_nil_iff.mpr fun j' hj' => ?_
    exact terms_map_other (fun h => hne (hinj i' hi' j' (List.mem_range.mp hj') h).1) _

omit [Add α] in
theorem terms_updates_other {cell : ℕ → ℕ → ι} {m n : ℕ} (ts : ℕ → ℕ → List α) {k : ι}
    (h : ∀ i < m, ∀ j < n, cell i j ≠ k) : terms k (updates cell m n ts) = [] := by
  rw [updates,terms_flatMap]
  refine List.flatMap_eq_nil_iff.mpr fun i hi => ?_
  rw [terms_flatMap]
  refine List.flatMap_eq_nil_iff.mpr fun j hj => ?_
  exact terms_map_other (h i (List.mem_range.mp hi) j (List.mem_range.mp hj)) _

end Cells

namespace Program

variable {ε : Type*} {M : Type u} {ι : Type v} {α : Type w} [Add α] [DecidableEq ι] {c : Cells M ι α}

theorem Returns.forLoop_addAll {n : ℕ} {body : ℕ → M → Program ε M} (us : ℕ → List (ι × α)) {m : M}
    (hbody : ∀ i < n, ∀ m', c.Alike m m' → Returns (body i m') (c.addAll m' (us i))) :
    Returns (forLoop n body m) (c.addAll m ((List.range n).flatMap us)) := by
  refine (Ends.forLoop (fun i m' => m' = c.addAll m ((List.range i).flatMap us)) rfl ?_).returns
  rintro i m' hi rfl
  refine (hbody i hi _ (Cells.alike_addAll _ _)).ends ?_
  rw [← Cells.addAll_append,List.range_succ,List.flatMap_append,List.flatMap_singleton]

theorem Returns.stridedLoop_addAll {count k n : ℕ} {body : ℕ → ℕ → M → Program ε M} (us : ℕ → List (ι × α)) {m : M}
    (hk : 1 ≤ k)
    (hbody : ∀ i < count, ∀ m', c.Alike m m' → Returns (body (i*k) (i*n) m') (c.addAll m' (us i))) :
    Returns (stridedLoop (count*k) k n body m) (c.addAll m ((List.range count).flatMap us)) := by
  refine (Ends.stridedLoop (fun i m' => m' = c.addAll m ((List.range i).flatMap us)) hk rfl ?_).returns
  rintro i m' hi rfl
  refine (hbody i hi _ (Cells.alike_addAll _ _)).ends ?_
  rw [← Cells.addAll_append,List.range_succ,List.flatMap_append,List.flatMap_singleton]

theorem Returns.forLoop_add {n : ℕ} {body : ℕ → M → Program ε M} {i : ι} (x : ℕ → α) {m : M}
    (hbody : ∀ k < n, ∀ m', c.Alike m m' → Returns (body k m') (c.add m' i (x k))) :
    Returns (forLoop n body m) (c.addAll m (((List.range n).map x).map fun y => (i,y))) := by
  rw [List.map_map,List.map_eq_flatMap]
  exact .forLoop_addAll (fun k => [(i,x k)]) hbody

end Program

section Arrays

variable {α : Type w} [Add α]

def arrayCells : Cells (List α) ℕ α where
  get m i := m[i]?
  add m i x := m.modify i (· + x)
  get_add m i x j := by
    rw [List.getElem?_modify]
    split <;> simp

def channelCells : Cells (List (List α)) (ℕ × ℕ) α where
  get m i := m[i.1]?.bind (·[i.2]?)
  add m i x := m.modify i.1 fun ch => ch.modify i.2 (· + x)
  get_add m i x j := by
    obtain ⟨r,i⟩ := i
    obtain ⟨q,j⟩ := j
    dsimp only
    rw [List.getElem?_modify]
    by_cases hr : r = q
    · subst hr
      cases m[r]? with
      | none => simp
      | some ch =>
        by_cases hi : i = j <;> simp [hi]
    · simp [hr]

theorem length_addAll (m : List α) (us : List (ℕ × α)) : (arrayCells.addAll m us).length = m.length := by
  induction us generalizing m with
  | nil => rfl
  | cons u us ih =>
    change (arrayCells.addAll (m.modify u.1 (· + u.2)) us).length = _
    rw [ih,List.length_modify]

theorem map_length_addAll (m : List (List α)) (us : List ((ℕ × ℕ) × α)) :
    (channelCells.addAll m us).map List.length = m.map List.length := by
  induction us generalizing m with
  | nil => rfl
  | cons u us ih =>
    change (channelCells.addAll (m.modify u.1.1 fun ch => ch.modify u.1.2 (· + u.2)) us).map List.length = _
    rw [ih]
    apply List.ext_getElem?
    intro i
    rw [List.getElem?_map,List.getElem?_map,List.getElem?_modify]
    by_cases hi : u.1.1 = i <;> cases m[i]? <;> simp [hi]

end Arrays
end AudioOutput
