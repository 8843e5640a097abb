import Mathlib.Data.Rat.Defs
import Mathlib.Tactic.NormNum

/-!
# The default mixing matrices

Each matrix is stored in row-major order: the rows are output channels and the
columns are input channels, in the order fl, fr, fc, lfe, bl, br, sl, sr.
-/

namespace AudioOutput
namespace Remix

def mixingMatrix_1_2 : List ℚ := [1,1]

/-- Mono goes to the two front channels. -/
def mixingMatrix_1_4 : List ℚ := [1,1,0,0]

/-- Mono goes to the center only. -/
def mixingMatrix_1_6 : List ℚ := [0,0,1,0,0,0]

def mixingMatrix_1_8 : List ℚ := [0,0,1,0,0,0,0,0]

def mixingMatrix_2_1 : List ℚ := [0.5,0.5]

/-- Stereo goes to front left and right. -/
def mixingMatrix_2_4 : List ℚ :=
  [1,0,
   0,1,
   0,0,
   0,0]

def mixingMatrix_2_6 : List ℚ :=
  [1,0,
   0,1,
   0,0,
   0,0,
   0,0,
   0,0]

def mixingMatrix_2_8 : List ℚ :=
  [1,0,
   0,1,
   0,0,
   0,0,
   0,0,
   0,0,
   0,0,
   0,0]

def mixingMatrix_4_1 : List ℚ := [0.25,0.25,0.25,0.25]

def mixingMatrix_4_2 : List ℚ :=
  [0.5,0,0.5,0,
   0,0.5,0,0.5]

def mixingMatrix_4_6 : List ℚ :=
  [1,0,0,0,
   0,1,0,0,
   0,0,0,0,
   0,0,0,0,
   0,0,1,0,
   0,0,0,1]

def mixingMatrix_4_8 : List ℚ :=
  [1,0,0,0,
   0,1,0,0,
   0,0,0,0,
   0,0,0,0,
   0,0,0.7071,0,
   0,0,0,0.7071,
   0,0,0.7071,0,
   0,0,0,0.7071]

def mixingMatrix_6_1 : List ℚ := [0.707,0.707,1,0,0.5,0.5]

def mixingMatrix_6_2 : List ℚ :=
  [1,0,0.7071,0,0.7071,0,
   0,1,0.7071,0,0,0.7071]

def mixingMatrix_6_4 : List ℚ :=
  [1,0,0.7071,0,0,0,
   0,1,0.7071,0,0,0,
   0,0,0,0,1,0,
   0,0,0,0,0,1]

/-- The back channels are halved and mirrored to the side. -/
def mixingMatrix_6_8 : List ℚ :=
  [1,0,0,0,0,0,
   0,1,0,0,0,0,
   0,0,1,0,0,0,
   0,0,0,1,0,0,
   0,0,0,0,0.5,0,
   0,0,0,0,0,0.5,
   0,0,0,0,0.5,0,
   0,0,0,0,0,0.5]

/-- As from six channels, with side and back contributing equally. -/
def mixingMatrix_8_1 : List ℚ := [0.7071,0.7071,1,0,0.25,0.25,0.25,0.25]

def mixingMatrix_8_2 : List ℚ :=
  [1,0,0.7071,0,0.7071/2,0,0.7071/2,0,
   0,1,0.7071,0,0,0.7071/2,0,0.7071/2]

def mixingMatrix_8_4 : List ℚ :=
  [1,0,0.7071,0,0,0,0,0,
   0,1,0.7071,0,0,0,0,0,
   0,0,0,0,0.5,0,0.5,0,
   0,0,0,0,0,0.5,0,0.5]

def mixingMatrix_8_6 : List ℚ :=
  [1,0,0,0,0,0,0,0,
   0,1,0,0,0,0,0,0,
   0,0,1,0,0,0,0,0,
   0,0,0,1,0,0,0,0,
   0,0,0,0,0.5,0.5,0,0,
   0,0,0,0,0,0,0.5,0.5]

/-- An entry of the registry; `pointer` is null in the sentinel. -/
structure MixingMatrixInfo where
  inChannels : ℕ
  outChannels : ℕ
  pointer : Option (List ℚ)

def mixingMatrixList : List MixingMatrixInfo :=
  [⟨1,2,some mixingMatrix_1_2⟩,
   ⟨1,4,some mixingMatrix_1_4⟩,
   ⟨1,6,some mixingMatrix_1_6⟩,
   ⟨1,8,some mixingMatrix_1_8⟩,
   ⟨2,1,some mixingMatrix_2_1⟩,
   ⟨2,4,some mixingMatrix_2_4⟩,
   ⟨2,6,some mixingMatrix_2_6⟩,
   ⟨2,8,some mixingMatrix_2_8⟩,
   ⟨4,1,some mixingMatrix_4_1⟩,
   ⟨4,2,some mixingMatrix_4_2⟩,
   ⟨4,6,some mixingMatrix_4_6⟩,
   ⟨4,8,some mixingMatrix_4_8⟩,
   ⟨6,1,some mixingMatrix_6_1⟩,
   ⟨6,2,some mixingMatrix_6_2⟩,
   ⟨6,4,some mixingMatrix_6_4⟩,
   ⟨6,8,some mixingMatrix_6_8⟩,
   ⟨8,1,some mixingMatrix_8_1⟩,
   ⟨8,2,some mixingMatrix_8_2⟩,
   ⟨8,4,some mixingMatrix_8_4⟩,
   ⟨8,6,some mixingMatrix_8_6⟩,
   ⟨0,0,none⟩]

/-- The array that the first entry for a pair of channel counts points to. -/
def registered (inChannels outChannels : ℕ) : Option (List ℚ) :=
  go mixingMatrixList
where
  go : List MixingMatrixInfo → Option (List ℚ)
    | [] => none
    | e :: rest => if inChannels = e.inChannels ∧ outChannels = e.outChannels then e.pointer else go rest

end Remix
end AudioOutput
