import AudioOutput.BlockLength

/-!
# The ALSA factory

`rescan`, for any list of hints. ALSA leaves IOID out of the hint of a device that
works in both directions. DESC is fetched as well, and freed unread.
-/

namespace AudioOutput

open BlockLength

/-- An entry of `snd_device_name_hint` and what `snd_device_name_get_hint` answers for it. -/
structure Hint where
  getHint : String → Option String
  ioid : getHint "IOID" = none ∨ getHint "IOID" = some "Input" ∨ getHint "IOID" = some "Output"

namespace Hint

def name (h : Hint) : Option String := h.getHint "NAME"

def canPlay (h : Hint) : Bool := h.getHint "IOID" = none ∨ h.getHint "IOID" = some "Output"

def canRecord (h : Hint) : Bool := h.getHint "IOID" = none ∨ h.getHint "IOID" = some "Input"

theorem any_ne_input (h : Hint) : (h.getHint "IOID").any (· ≠ "Input") = !h.canRecord := by
  rcases h.ioid with hd | hd | hd <;> simp [canRecord,hd]

theorem canRecord_eq_canPlay_iff (h : Hint) : h.canRecord = h.canPlay ↔ h.getHint "IOID" = none := by
  rcases h.ioid with hd | hd | hd <;> simp [canRecord,canPlay,hd]

end Hint

structure AlsaOutputDeviceFactory where
  deviceNames : List String := []
  deviceChannels : List ℤ := []
  outputCount : ℤ := 0

namespace AlsaOutputDeviceFactory

def rescanHint (f : AlsaOutputDeviceFactory) (hint : Hint) : AlsaOutputDeviceFactory :=
  match hint.getHint "NAME" with
  | none => f
  | some name =>
    if (hint.getHint "IOID").any (· ≠ "Input") then f
    else { f with deviceNames := f.deviceNames ++ [name], deviceChannels := f.deviceChannels ++ [8] }

/-- `for(int i = 0; hints[i] != nullptr; i++)`; the behaviour is undefined once `i`
cannot be incremented. -/
def rescanHints (f : AlsaOutputDeviceFactory) (i : ℕ) : List Hint → Option AlsaOutputDeviceFactory
  | [] => some f
  | hint :: hints => if i+1 < 2^31 then (f.rescanHint hint).rescanHints (i+1) hints else none

def rescan (f : AlsaOutputDeviceFactory) (hintSuccess : ℤ) (hints : Option (List Hint)) :
    Option AlsaOutputDeviceFactory :=
  let f := { f with deviceNames := [], deviceChannels := [] }
  if hintSuccess ≠ 0 then some { f with outputCount := 0 } else
  match hints with
  | none => some { f with outputCount := 0 }
  | some hints => (f.rescanHints 0 hints).map fun f => { f with outputCount := wrap32 f.deviceNames.length }

/-- The name that `createDevice` opens; `none` where it reads outside of the vector. -/
def openedName (f : AlsaOutputDeviceFactory) (index : ℤ) : Option String :=
  if index = -1 then some "default" else if 0 ≤ index then f.deviceNames[index.toNat]? else none

/-- The NAMEs of the hints that satisfy `p`, without the unnamed ones. -/
def names (p : Hint → Bool) (hints : List Hint) : List String := (hints.filter p).filterMap Hint.name

def playable (hintSuccess : ℤ) (hints : Option (List Hint)) : List String :=
  if hintSuccess = 0 then names Hint.canPlay (hints.getD []) else []

structure Lists (f : AlsaOutputDeviceFactory) (devices : List String) : Prop where
  names : f.deviceNames = devices
  channels : f.deviceChannels.length = devices.length
  count : f.outputCount = devices.length

theorem rescanHint_eq (f : AlsaOutputDeviceFactory) (h : Hint) : f.rescanHint h =
    { f with
      deviceNames := f.deviceNames ++ names Hint.canRecord [h]
      deviceChannels := f.deviceChannels ++ List.replicate (names Hint.canRecord [h]).length 8 } := by
  unfold rescanHint names
  rw [h.any_ne_input,← Hint.name]
  cases hrecord : h.canRecord <;> cases hname : h.name <;> simp [hrecord,hname]

theorem names_cons (p : Hint → Bool) (h : Hint) (hints : List Hint) :
    names p (h :: hints) = names p [h] ++ names p hints := by
  rw [← List.singleton_append,names,List.filter_append,List.filterMap_append,names,names]

/-- The loop keeps the two vectors in step. -/
theorem rescanHints_eq (f : AlsaOutputDeviceFactory) (hints : List Hint) (i : ℕ) (hi : i < 2^31) :
    f.rescanHints i hints = if i+hints.length < 2^31 then
      some { f with
        deviceNames := f.deviceNames ++ names Hint.canRecord hints
        deviceChannels := f.deviceChannels ++ List.replicate (names Hint.canRecord hints).length 8 }
    else none := by
  induction hints generalizing f i with
  | nil =>
    rw [rescanHints,if_pos (show i+([] : List Hint).length < 2^31 from hi)]
    simp [names]
  | cons h hints ih =>
    rw [rescanHints,List.length_cons]
    split
    case isTrue hnext =>
      have hlen : i+1+hints.length = i+(hints.length+1) := by omega
      rw [ih _ _ hnext,rescanHint_eq,hlen,names_cons _ h hints]
      simp
    case isFalse hover =>
      rw [if_neg (by omega)]

theorem length_names_le (p : Hint → Bool) (hints : List Hint) : (names p hints).length ≤ hints.length :=
  (List.length_filterMap_le _ _).trans (List.length_filter_le _ _)

/-- The devices listed are those that can record. -/
theorem rescan_eq (f : AlsaOutputDeviceFactory) (hints : List Hint) : f.rescan 0 (some hints) =
    if hints.length < 2^31 then
      some {
        deviceNames := names Hint.canRecord hints
        deviceChannels := List.replicate (names Hint.canRecord hints).length 8
        outputCount := (names Hint.canRecord hints).length }
    else none := by
  simp only [rescan,ne_eq,not_true_eq_false,if_false]
  rw [rescanHints_eq _ _ _ (by norm_num),Nat.zero_add]
  by_cases hlen : hints.length < 2^31
  · have hcount := wrap32_natCast ((length_names_le Hint.canRecord hints).trans_lt hlen)
    rw [if_pos hlen,if_pos hlen]
    simp [hcount]
  · rw [if_neg hlen,if_neg hlen]
    rfl

theorem eq_of_name {hints : List Hint} (hnodup : (hints.filterMap Hint.name).Nodup) {h h' : Hint} (hh : h ∈ hints)
    (hh' : h' ∈ hints) {name : String} (hname : h.name = some name) (hname' : h'.name = some name) : h = h' := by
  have hsymm : Std.Symm fun a b : Hint => ∀ n, a.name = some n → ∀ m, b.name = some m → n ≠ m :=
    ⟨fun a b hab n hn m hm => (hab m hm n hn).symm⟩
  by_contra hne
  exact (List.pairwise_filterMap.mp hnodup).forall hh hh' hne name hname name hname' rfl

/-- Where all names differ, two selections have the same ones only if they agree on
every named hint. -/
theorem names_eq_iff {hints : List Hint} (hnodup : (hints.filterMap Hint.name).Nodup) (p q : Hint → Bool) :
    names p hints = names q hints ↔ ∀ h ∈ hints, h.name.isSome → p h = q h := by
  refine ⟨fun heq h hh hsome => ?_,fun hagree => ?_⟩
  · obtain ⟨name,hname⟩ := Option.isSome_iff_exists.mp hsome
    have hmem (r : Hint → Bool) : name ∈ names r hints ↔ r h = true := by
      simp only [names,List.mem_filterMap,List.mem_filter]
      refine ⟨fun ⟨h',⟨hh',hr⟩,hname'⟩ => ?_,fun hr => ⟨h,⟨hh,hr⟩,hname⟩⟩
      rwa [eq_of_name hnodup hh hh' hname hname']
    rw [Bool.eq_iff_iff,← hmem,← hmem,heq]
  · simp only [names,List.filterMap_filter]
    refine List.filterMap_congr fun h hh => ?_
    cases hname : h.name with
    | none => simp
    | some name => rw [hagree h hh (by rw [hname]; rfl)]

theorem Lists.opened {f : AlsaOutputDeviceFactory} {devices : List String} (h : f.Lists devices) {index : ℤ}
    (hindex : 0 ≤ index) : (f.openedName index).isSome ↔ index < f.outputCount := by
  rw [openedName,if_neg (by omega),if_pos hindex,h.names,h.count,isSome_getElem?]
  omega

def ListsPlayable (f : AlsaOutputDeviceFactory) (hintSuccess : ℤ) (hints : Option (List Hint)) : Prop :=
  ∃ g, f.rescan hintSuccess hints = some g ∧ g.Lists (playable hintSuccess hints)

theorem listsPlayable_iff (f : AlsaOutputDeviceFactory) (hintSuccess : ℤ) (hints : Option (List Hint)) :
    f.ListsPlayable hintSuccess hints ↔ ∀ hs, hintSuccess = 0 → hints = some hs →
      hs.length < 2^31 ∧ names Hint.canRecord hs = names Hint.canPlay hs := by
  rcases ne_or_eq hintSuccess 0 with hfailed | rfl
  · refine iff_of_true ⟨{},by simp [rescan,hfailed],?_⟩ fun hs hsuccess => absurd hsuccess hfailed
    simp only [playable,if_neg hfailed]
    exact ⟨rfl,rfl,rfl⟩
  · cases hints with
    | none =>
      refine iff_of_true ⟨{},by simp [rescan],?_⟩ fun hs _ hnull => by cases hnull
      exact ⟨rfl,rfl,rfl⟩
    | some hs =>
      rw [ListsPlayable,rescan_eq]
      constructor
      · rintro ⟨g,hg,hlists⟩ hs' - heq
        cases heq
        obtain ⟨hlen,hg⟩ := Option.ite_none_right_eq_some.mp hg
        cases hg
        exact ⟨hlen,hlists.names⟩
      · intro hcond
        obtain ⟨hlen,hnames⟩ := hcond hs rfl rfl
        refine ⟨_,if_pos hlen,?_,?_,?_⟩
        · exact hnames
        · simp [playable,hnames]
        · simp [playable,hnames]

theorem names_canRecord_eq_iff {hs : List Hint} (hnodup : (hs.filterMap Hint.name).Nodup) :
    names Hint.canRecord hs = names Hint.canPlay hs ↔ ∀ h ∈ hs, h.name.isSome → h.getHint "IOID" = none := by
  rw [names_eq_iff hnodup]
  simp only [Hint.canRecord_eq_canPlay_iff]

/-- Where no two hints have the same name, the devices that can be played on are listed
exactly if every device that has a name works in both directions; for any hints, exactly if
those that can record have the same names in the same order. -/
theorem rescan_lists_playable_iff (f : AlsaOutputDeviceFactory) (hintSuccess : ℤ) (hints : Option (List Hint)) :
    ((∀ hs, hints = some hs → (hs.filterMap Hint.name).Nodup) →
      (f.ListsPlayable hintSuccess hints ↔ ∀ hs, hintSuccess = 0 → hints = some hs →
        hs.length < 2^31 ∧ ∀ h ∈ hs, h.name.isSome → h.getHint "IOID" = none)) ∧
    (f.ListsPlayable hintSuccess hints ↔ ∀ hs, hintSuccess = 0 → hints = some hs →
      hs.length < 2^31 ∧ names Hint.canRecord hs = names Hint.canPlay hs) ∧
    ∀ hs : List Hint, (hs.filterMap Hint.name).Nodup →
      (names Hint.canRecord hs = names Hint.canPlay hs ↔ ∀ h ∈ hs, h.name.isSome → h.getHint "IOID" = none) := by
  refine ⟨fun hnodup => ?_,f.listsPlayable_iff hintSuccess hints,fun hs => names_canRecord_eq_iff⟩
  rw [listsPlayable_iff]
  refine forall₃_congr fun hs _ hsome => and_congr_right fun _ => ?_
  exact names_canRecord_eq_iff (hnodup hs hsome)

/-- A hint of which the code reads these two. -/
def hint (name : Option String) (ioid : Option String)
    (h : ioid = none ∨ ioid = some "Input" ∨ ioid = some "Output" := by decide) : Hint where
  getHint id := if id = "NAME" then name else if id = "IOID" then ioid else none
  ioid := h

/-- A device that works in both directions is listed, beside a hint without a name. -/
theorem rescan_lists_default : ∃ g, ({} : AlsaOutputDeviceFactory).rescan 0
    (some [hint (some "default") none,hint none (some "Output")]) = some g ∧ g.Lists ["default"] := by
  have hiff := rescan_lists_playable_iff {} 0 (some [hint (some "default") none,hint none (some "Output")])
  refine (hiff.1 fun hs heq => ?_).mpr fun hs _ heq => ?_
  · cases heq
    decide
  · cases heq
    exact ⟨by decide,by decide⟩

/-- Speakers are left out and a microphone is listed. -/
theorem rescan_lists_microphone : (∃ g, ({} : AlsaOutputDeviceFactory).rescan 0
      (some [hint (some "speakers") (some "Output"),hint (some "microphone") (some "Input")]) = some g ∧
      g.deviceNames = ["microphone"] ∧
      playable 0 (some [hint (some "speakers") (some "Output"),hint (some "microphone") (some "Input")]) = ["speakers"]) ∧
    ¬ ∀ (f : AlsaOutputDeviceFactory) (hintSuccess : ℤ) (hints : Option (List Hint)), f.ListsPlayable hintSuccess hints := by
  refine ⟨⟨_,rfl,rfl,rfl⟩,fun h => ?_⟩
  obtain ⟨g,hg,hlists⟩ := h {} 0 (some [hint (some "speakers") (some "Output"),hint (some "microphone") (some "Input")])
  cases hg
  exact absurd hlists.names (by decide)

end AlsaOutputDeviceFactory
end AudioOutput
