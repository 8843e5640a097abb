import AudioOutput.RemixAudio

/-!
# Remixing a stream

Zeroing first, the remix of an array depends on each frame alone, so that arrays can
be remixed piece by piece, and streams.
-/

namespace AudioOutput
namespace Remix

open Program Cells

variable {α : Type} [Zero α] [Add α] [Mul α] (lit : ℚ → α)

def mixedSample (m n : ℕ) (x : ℕ → α) (i : ℕ) : α :=
  total 0 ((kernel m n).terms lit m (fun k => x (i/n*m+k)) (i%n))

/-- The remix of a stream, frame by frame. -/
def mixedStream (m n : ℕ) (x : Stream' α) : Stream' α :=
  fun i => if m = n then x.get i else mixedSample lit m n x.get i

def mixed (m n : ℕ) (xs : List α) : List α :=
  if m = n then xs else (List.range (xs.length/m*n)).map (mixedSample lit m n fun i => xs.getD i 0)

@[simp] theorem mixedStream_self (m : ℕ) (x : Stream' α) : mixedStream lit m m x = x := by
  funext i
  exact if_pos rfl

theorem get_mixedStream {m n : ℕ} (h : m ≠ n) (x : Stream' α) (i : ℕ) :
    (mixedStream lit m n x).get i = mixedSample lit m n x.get i := if_neg h

@[simp] theorem mixed_self (m : ℕ) (xs : List α) : mixed lit m m xs = xs := if_pos rfl

theorem mixed_of_ne {m n : ℕ} (h : m ≠ n) (xs : List α) :
    mixed lit m n xs = (List.range (xs.length/m*n)).map (mixedSample lit m n fun i => xs.getD i 0) := if_neg h

theorem drop_mixedStream {m n : ℕ} (hn : 1 ≤ n) (x : Stream' α) (k : ℕ) :
    (mixedStream lit m n x).drop (k*n) = mixedStream lit m n (x.drop (k*m)) := by
  by_cases h : m = n
  · subst h
    rw [mixedStream_self,mixedStream_self]
  · apply Stream'.ext
    intro i
    have hdiv : (k*n+i)/n = k+i/n := by rw [Nat.add_comm,Nat.add_mul_div_right _ _ hn,Nat.add_comm]
    have hmod : (k*n+i)%n = i%n := by rw [Nat.add_comm,Nat.add_mul_mod_self_right]
    have hcell (l : ℕ) : (k+i/n)*m+l = k*m+(i/n*m+l) := by ring
    rw [Stream'.get_drop,get_mixedStream lit h,get_mixedStream lit h]
    simp only [mixedSample,hdiv,hmod,hcell,Stream'.get_drop]

theorem take_mixedStream {m n : ℕ} (hm : 1 ≤ m) (hn : 1 ≤ n) (x : Stream' α) (k : ℕ) :
    (mixedStream lit m n x).take (k*n) = mixed lit m n (x.take (k*m)) := by
  by_cases h : m = n
  · subst h
    rw [mixedStream_self,mixed_self]
  · rw [mixed_of_ne lit h,Stream'.length_take,Nat.mul_div_cancel _ hm]
    apply List.ext_getElem (by simp)
    intro i hi _
    have hlt : i < k*n := by simpa using hi
    have hf : i/n < k := Nat.div_lt_of_lt_mul (by rwa [Nat.mul_comm] at hlt)
    rw [Stream'.take_get,List.getElem_map,List.getElem_range,get_mixedStream lit h]
    refine congrArg (total 0) (Kernel.terms_congr lit _ hm _ fun l hl => ?_)
    dsimp only
    rw [List.getD_eq_getElem?_getD,Stream'.getElem?_take (interleaved_lt hf hl le_rfl),Option.getD_some]

theorem mixed_eq_take {m n k : ℕ} (hm : 1 ≤ m) (hn : 1 ≤ n) {xs : List α} (hxs : xs.length = k*m) (x : Stream' α) :
    mixed lit m n xs = (mixedStream lit m n (xs ++ₛ x)).take (k*n) := by
  rw [take_mixedStream lit hm hn,Stream'.take_append_of_le_length _ _ _ hxs.ge,← hxs,List.take_length]

theorem length_mixed {m n k : ℕ} (hm : 1 ≤ m) (hn : 1 ≤ n) {xs : List α} (hxs : xs.length = k*m) :
    (mixed lit m n xs).length = k*n := by
  rw [mixed_eq_take lit hm hn hxs (Stream'.const 0),Stream'.length_take]

theorem mixed_append {m n k l : ℕ} (hm : 1 ≤ m) (hn : 1 ≤ n) {xs ys : List α} (hxs : xs.length = k*m)
    (hys : ys.length = l*m) : mixed lit m n (xs ++ ys) = mixed lit m n xs ++ mixed lit m n ys := by
  have hlen : (xs ++ ys).length = (k+l)*m := by rw [List.length_append,hxs,hys,Nat.add_mul]
  rw [mixed_eq_take lit hm hn hlen (Stream'.const 0),Stream'.append_append_stream,Nat.add_mul,Stream'.take_add,
    ← mixed_eq_take lit hm hn hxs,drop_mixedStream lit hn,← hxs,Stream'.drop_append_stream,
    ← mixed_eq_take lit hm hn hys]

theorem remixAudioInterleaved_returns {frames m n : ℕ} (hne : m ≠ n) (hm : 1 ≤ m) (hn : 1 ≤ n) {input output : List α}
    (hin : input.length = frames*m) (hout : output.length = frames*n) :
    Returns (remixAudioInterleaved lit frames m input n output true) (mixed lit m n input) := by
  refine ((remixAudioInterleaved_ends lit true hm hin.ge hout.ge).imp ?_).returns
  rintro out ⟨hlen,hcells,_⟩
  have hmixed := length_mixed lit hm hn hin
  apply List.ext_getElem (by omega)
  intro i hi hi'
  have hlt : i < frames*n := by omega
  have hf : i/n < frames := Nat.div_lt_of_lt_mul (by rwa [Nat.mul_comm] at hlt)
  have hcell := hcells (i/n) hf (i%n) (Nat.mod_lt i hn)
  rw [Nat.div_add_mod' i n,List.getElem?_eq_getElem hi] at hcell
  simp only [mixed_of_ne lit hne,List.getElem_map,List.getElem_range]
  exact Option.some.inj hcell

/-- `R` is `source`, remixed one frame at a time unless the channel counts agree. -/
def Remixed (m n : ℕ) (source R : Stream' α) : Prop :=
  if m = n then R = source else ∀ k, Returns (remixAudioInterleaved lit 1 m ((source.drop (k*m)).take m) n
    (List.replicate n 0) true) ((R.drop (k*n)).take n)

theorem remixed_mixedStream {m n : ℕ} (hm : 1 ≤ m) (hn : 1 ≤ n) (x : Stream' α) :
    Remixed lit m n x (mixedStream lit m n x) := by
  unfold Remixed
  by_cases h : m = n
  · subst h
    rw [if_pos rfl,mixedStream_self]
  · rw [if_neg h]
    intro k
    have hframe := take_mixedStream lit hm hn (x.drop (k*m)) 1
    rw [Nat.one_mul,Nat.one_mul] at hframe
    rw [drop_mixedStream lit hn,hframe]
    exact remixAudioInterleaved_returns lit h hm hn (by simp) (by simp)

theorem Remixed.take {m n : ℕ} (hm : 1 ≤ m) (hn : 1 ≤ n) {x R : Stream' α} (h : Remixed lit m n x R) (k : ℕ) :
    R.take (k*n) = mixed lit m n (x.take (k*m)) := by
  unfold Remixed at h
  by_cases heq : m = n
  · subst heq
    rw [if_pos rfl] at h
    rw [h,mixed_self]
  · rw [if_neg heq] at h
    induction k with
    | zero => simp [mixed_of_ne lit heq]
    | succ k ih =>
      have hframe := (h k).unique (remixAudioInterleaved_returns lit heq hm hn (by simp) (by simp))
      rw [Nat.succ_mul,Nat.succ_mul,Stream'.take_add,Stream'.take_add,ih,hframe,
        ← mixed_append lit hm hn (Stream'.length_take ..) ((Stream'.length_take ..).trans (Nat.one_mul m).symm)]

end Remix
end AudioOutput
