import AudioOutput.AlsaFrames

/-!
# The speakers behind the channels

The I/O thread reorders each chunk from the order of the mixing matrices to the
one ALSA's surround devices have. One formula serves 5.1 and 7.1: centre and LFE
change places with the last two channels. That is ALSA's order for six channels
only, since with eight the last two are the side speakers.
-/

namespace AudioOutput
namespace AlsaOutputDevice

universe u
variable {α : Type u}

inductive Speaker
  | fl | fr | fc | lfe | bl | br | sl | sr
  deriving DecidableEq, Repr

/-- The library's own order, from the comments at the mixing matrices. -/
def internalOrder : ℕ → List Speaker
  | 6 => [.fl,.fr,.fc,.lfe,.bl,.br]
  | 8 => [.fl,.fr,.fc,.lfe,.bl,.br,.sl,.sr]
  | _ => []

/-- The order of ALSA's `surround51` and `surround71`. -/
def alsaOrder : ℕ → List Speaker
  | 6 => [.fl,.fr,.bl,.br,.fc,.lfe]
  | 8 => [.fl,.fr,.bl,.br,.fc,.lfe,.sl,.sr]
  | _ => []

/-- The sample a frame holds for a speaker, its samples laid out by `order`. -/
def sampleFor (order : List Speaker) (f : List α) (p : Speaker) : Option α := f[order.idxOf p]?

def arrangeFrame (channels : ℕ) (f : List α) : List α :=
  (alsaOrder channels).filterMap (sampleFor (internalOrder channels) f)

/-- What the reordering is for: surround frames come out in ALSA's order, and no
other sample moves. -/
structure Arranged (channels written : ℕ) (xs ys : List α) : Prop where
  length : ys.length = xs.length
  surround : channels = 6 ∨ channels = 8 →
    frames channels written ys = (frames channels written xs).map (arrangeFrame channels)
  past : ys.drop (written*channels) = xs.drop (written*channels)
  others : ¬(channels = 6 ∨ channels = 8) → ys = xs

/-- The frames of 7.1 that both layouts leave alike: left centre, back and side hold
one sample, and so do LFE and the two on the right. -/
def Indistinct (f : List α) : Prop :=
  sampleFor (internalOrder 8) f .fc = sampleFor (internalOrder 8) f .bl ∧
  sampleFor (internalOrder 8) f .bl = sampleFor (internalOrder 8) f .sl ∧
  sampleFor (internalOrder 8) f .lfe = sampleFor (internalOrder 8) f .br ∧
  sampleFor (internalOrder 8) f .br = sampleFor (internalOrder 8) f .sr

theorem eq_six_of_length {f : List α} (h : f.length = 6) : ∃ fl fr fc lfe bl br, f = [fl,fr,fc,lfe,bl,br] :=
  match f, h with
  | [fl,fr,fc,lfe,bl,br], _ => ⟨fl,fr,fc,lfe,bl,br,rfl⟩

theorem eq_eight_of_length {f : List α} (h : f.length = 8) :
    ∃ fl fr fc lfe bl br sl sr, f = [fl,fr,fc,lfe,bl,br,sl,sr] :=
  match f, h with
  | [fl,fr,fc,lfe,bl,br,sl,sr], _ => ⟨fl,fr,fc,lfe,bl,br,sl,sr,rfl⟩

theorem reorderFrame_six {f : List α} (h : f.length = 6) : reorderFrame 6 f = arrangeFrame 6 f := by
  obtain ⟨fl,fr,fc,lfe,bl,br,rfl⟩ := eq_six_of_length h
  rfl

/-- With eight they are the side speakers: `fl fr sl sr bl br fc lfe` comes out where
`fl fr bl br fc lfe sl sr` is meant. -/
theorem reorderFrame_eight_iff {f : List α} (h : f.length = 8) :
    reorderFrame 8 f = arrangeFrame 8 f ↔ Indistinct f := by
  obtain ⟨fl,fr,fc,lfe,bl,br,sl,sr,rfl⟩ := eq_eight_of_length h
  have hcode : reorderFrame 8 [fl,fr,fc,lfe,bl,br,sl,sr] = [fl,fr,sl,sr,bl,br,fc,lfe] := rfl
  have hmeant : arrangeFrame 8 [fl,fr,fc,lfe,bl,br,sl,sr] = [fl,fr,bl,br,fc,lfe,sl,sr] := rfl
  have hsame : Indistinct [fl,fr,fc,lfe,bl,br,sl,sr] ↔
      some fc = some bl ∧ some bl = some sl ∧ some lfe = some br ∧ some br = some sr := Iff.rfl
  rw [hcode,hmeant,hsame]
  simp only [List.cons.injEq,Option.some.injEq,and_true,true_and]
  constructor
  · rintro ⟨hsl,hsr,hbl,hbr,-,-⟩
    exact ⟨hbl.symm,hsl.symm,hbr.symm,hsr.symm⟩
  · rintro ⟨rfl,rfl,rfl,rfl⟩
    simp

theorem length_reorderLoop (channels n i : ℕ) (xs : List α) : (reorderLoop channels n i xs).length = xs.length := by
  induction n generalizing i xs with
  | zero => rfl
  | succ n ih => rw [reorderLoop,ih,length_reorderAt]

theorem length_reorder (channels written : ℕ) (xs : List α) : (reorder channels written xs).length = xs.length := by
  unfold reorder
  split_ifs
  · exact length_reorderLoop ..
  · rfl

theorem length_flatten_frames (channels n : ℕ) (xs : List α) (hlen : n*channels ≤ xs.length) :
    (frames channels n xs).flatten.length = n*channels := by
  have hmem (f : List α) (hf : f ∈ frames channels n xs) : f.length = channels := length_of_mem_frames hlen hf
  rw [List.length_flatten,List.map_congr_left hmem,List.map_const',List.sum_replicate,length_frames,smul_eq_mul]

theorem drop_reorder (channels written : ℕ) (xs : List α) (hlen : written*channels ≤ xs.length) :
    (reorder channels written xs).drop (written*channels) = xs.drop (written*channels) := by
  by_cases hsurround : channels = 6 ∨ channels = 8
  · have hloop := reorderLoop_append channels written [] xs hlen (by omega)
    have hflat : ((frames channels written xs).map (reorderAt channels · 0)).flatten.length = written*channels := by
      rw [← length_flatten_frames channels written xs hlen]
      simp [List.length_flatten,Function.comp_def]
    simp only [List.nil_append,List.length_nil] at hloop
    rw [reorder,if_pos hsurround,hloop,List.drop_left' hflat]
  · rw [reorder,if_neg hsurround]

/-- The reordering puts every frame into ALSA's order, other samples untouched, except
for the frames of 7.1 in which the two layouts can be told apart. -/
theorem reorder_arranged_iff (channels written : ℕ) (workspace : List α) (hlen : written*channels ≤ workspace.length) :
    Arranged channels written workspace (reorder channels written workspace) ↔
      (channels = 8 → ∀ f ∈ frames channels written workspace, Indistinct f) := by
  have hmem (f : List α) (hf : f ∈ frames channels written workspace) : f.length = channels := length_of_mem_frames hlen hf
  have hframes := frames_reorder channels written workspace hlen
  constructor
  · rintro hs rfl f hf
    have heq := hs.surround (.inr rfl)
    rw [hframes,List.map_inj_left] at heq
    exact (reorderFrame_eight_iff (hmem f hf)).mp (heq f hf)
  · intro h
    refine ⟨length_reorder ..,?_,drop_reorder _ _ _ hlen,fun hother => if_neg hother⟩
    rintro (rfl | rfl)
    · rw [hframes,List.map_inj_left]
      exact fun f hf => reorderFrame_six (hmem f hf)
    · rw [hframes,List.map_inj_left]
      exact fun f hf => (reorderFrame_eight_iff (hmem f hf)).mpr (h rfl f hf)

/-- Two frames of 5.1 and a sample behind them. -/
theorem reorder_arranged_two_frames :
    2*6 ≤ (List.range 13).length ∧ Arranged 6 2 (List.range 13) (reorder 6 2 (List.range 13)) :=
  ⟨by decide,(reorder_arranged_iff 6 2 (List.range 13) (by decide)).mpr (by simp)⟩

/-- A frame of 7.1 in which every speaker has a sample of its own: the side speakers'
samples come out in the places of the back ones. -/
theorem reorder_not_arranged_eight :
    reorder 8 1 (List.range 8) = [0,1,6,7,4,5,2,3] ∧ arrangeFrame 8 (List.range 8) = [0,1,4,5,2,3,6,7] ∧
      ¬Arranged 8 1 (List.range 8) (reorder 8 1 (List.range 8)) :=
  ⟨by decide,by decide,fun h => absurd (h.surround (.inr rfl)) (by decide)⟩

end AlsaOutputDevice
end AudioOutput
