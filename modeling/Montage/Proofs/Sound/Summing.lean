import Montage.Proofs.Sound.Sampling
import Montage.Sound.Mix

/- A mix made voice by voice: each voice adds its samples to a buffer that begins as silence. When
   every sample that is read or changed on the way has to be there, all of them are, and the buffer
   ends as the mix. -/
namespace Montage

section Reading
variable {K S : Type} [Scalar K] [Scalar S] [Narrowing K S]

/-- The sample at a position; nothing where one of the two samples that it lies between is
missing. -/
def Sound.sampleAt? (s : Sound S) (pos : K) (channel : Nat) : Option S :=
  if s.frames = 0 ∨ pos < 0 ∨ Scalar.ofNat s.frames ≤ pos then some 0
  else do
    let first := Scalar.toCount (Scalar.floor pos)
    let next := min (first + 1) (s.frames - 1)
    let a ← s.samples[first * s.shape.channels + channel]?
    let b ← s.samples[next * s.shape.channels + channel]?
    return a + (b - a) * Narrowing.narrow (pos - Scalar.ofNat first)

/-- What a voice adds in a frame where it plays; nothing where its sound lacks a sample for it. -/
def Voice.read? (v : Voice K S) (rate : K) (frame channel : Nat) : Option S :=
  let time := Scalar.ofNat frame / rate
  (v.sound.sampleAt? (v.skip + v.timing.sourceTime time * v.sound.rate) channel).map (· * v.gain time)

/-- The additions of a voice, frame by frame and channel by channel: where in the buffer, and
what. -/
def Voice.additions (v : Voice K S) (rate : K) (channels : Nat) : List (Nat × Option S) :=
  (List.range' v.first (v.last - v.first)).flatMap fun frame =>
    (List.range channels).map fun channel =>
      (frame * channels + channel, v.read? rate frame channel)

/-- The buffer after an addition; none where the addition or its place is missing. -/
def addTo? (out : Array S) (a : Nat × Option S) : Option (Array S) := do
  let x ← a.2
  let y ← out[a.1]?
  return out.setIfInBounds a.1 (y + x)

/-- The buffer after all voices. -/
def Mix.added? (rate : K) (total channels : Nat) (voices : List (Voice K S)) : Option (Array S) :=
  (voices.flatMap (·.additions rate channels)).foldlM addTo? (Array.replicate (total * channels) 0)

end Reading

section Reads
variable {S : Type} [Scalar S] [Narrowing Rat S]

/-- Both samples that a position lies between are there. -/
theorem Sound.sampleAt_there {s : Sound S} {channel : Nat} (own : channel < s.shape.channels)
    (pos : Rat) : s.sampleAt? pos channel = some (s.sampleAt pos channel) := by
  unfold Sound.sampleAt? Sound.sampleAt
  split
  · rfl
  · rename_i heard
    rw [Sound.silent_iff, not_not] at heard
    have floor : ⌊pos⌋₊ < s.frames := (Nat.floor_lt heard.1).mpr heard.2
    have first : Scalar.toCount (Scalar.floor pos) < s.frames := by
      rw [Sound.toCount_floor]
      omega
    have next : min (Scalar.toCount (Scalar.floor pos) + 1) (s.frames - 1) < s.frames := by omega
    simp [Sound.sample, Sound.sample_inside first own, Sound.sample_inside next own]

end Reads

section Adding
variable {S : Type}

/-- What additions put at a place, in their order. -/
def addedAt (additions : List (Nat × Option S)) (i : Nat) : List S :=
  additions.flatMap fun a => if a.1 = i then a.2.toList else []

theorem addedAt_cons (a : Nat × Option S) (additions : List (Nat × Option S)) (i : Nat) :
    addedAt (a :: additions) i = (if a.1 = i then a.2.toList else []) ++ addedAt additions i :=
  List.flatMap_cons

variable [Scalar S] {out : Array S}

theorem addTo_there {place : Nat} (x : S) (inside : place < out.size) :
    addTo? out (place, some x) = some (out.setIfInBounds place (out[place] + x)) := by
  simp [addTo?, inside]

/-- Additions of samples that are there, at places that are there, all take place. -/
theorem foldlM_addTo {additions : List (Nat × Option S)}
    (there : ∀ a ∈ additions, a.1 < out.size ∧ a.2.isSome) :
    additions.foldlM addTo? out =
      some (out.mapIdx fun i y => (addedAt additions i).foldl (· + ·) y) := by
  induction additions generalizing out with
  | nil =>
    rw [List.foldlM_nil]
    exact congrArg some (Array.ext (by simp) (by simp [addedAt]))
  | cons a additions ih =>
    obtain ⟨⟨inside, present⟩, rest⟩ := List.forall_mem_cons.mp there
    obtain ⟨place, x⟩ := a
    obtain ⟨x, rfl⟩ := Option.isSome_iff_exists.mp present
    rw [List.foldlM_cons, addTo_there x inside]
    change additions.foldlM addTo? (out.setIfInBounds place (out[place] + x)) = _
    rw [ih (by simpa using rest)]
    refine congrArg some (Array.ext (by simp) ?_)
    intro i low high
    rw [Array.getElem_mapIdx, Array.getElem_mapIdx, Array.getElem_setIfInBounds, addedAt_cons]
    dsimp only
    split
    · rename_i same
      subst same
      rfl
    · rfl

end Adding

section Voices
variable {K S : Type} [Scalar K] [Scalar S] [Narrowing K S] {v : Voice K S} {rate : K}
  {channels total i : Nat}

/-- A place of an interleaved buffer is one frame's and one channel's. -/
theorem place_iff {frame channel : Nat} (inside : channel < channels) :
    frame * channels + channel = i ↔ frame = i / channels ∧ channel = i % channels := by
  have some : 0 < channels := Nat.zero_lt_of_lt inside
  constructor
  · rintro rfl
    rw [Nat.mul_comm, Nat.mul_add_div some, Nat.div_eq_of_lt inside, Nat.mul_add_mod,
      Nat.mod_eq_of_lt inside]
    exact ⟨rfl, rfl⟩
  · rintro ⟨rfl, rfl⟩
    rw [Nat.mul_comm]
    exact Nat.div_add_mod i channels

/-- An element of a list without repetitions is met once. -/
theorem flatMap_single {α : Type} {xs : List Nat} (once : xs.Nodup) (k : Nat) (f : Nat → List α) :
    (xs.flatMap fun n => if n = k then f n else []) = if k ∈ xs then f k else [] := by
  induction xs with
  | nil => rfl
  | cons n xs ih =>
    obtain ⟨fresh, rest⟩ := List.nodup_cons.mp once
    rw [List.flatMap_cons, ih rest]
    by_cases same : n = k
    · subst same
      rw [if_pos rfl, if_neg fresh, if_pos List.mem_cons_self, List.append_nil]
    · rw [if_neg same, List.nil_append]
      exact if_congr (by simp [Ne.symm same]) rfl rfl

/-- A voice puts one addition at a place, in the frame and the channel of the place, if it plays in
that frame. -/
theorem additions_at (v : Voice K S) (rate : K) (some : 0 < channels) (i : Nat) :
    addedAt (v.additions rate channels) i =
      if v.first ≤ i / channels ∧ i / channels < v.last then
        (v.read? rate (i / channels) (i % channels)).toList else [] := by
  have row : ∀ frame, ((List.range channels).map fun channel =>
      (frame * channels + channel, v.read? rate frame channel)).flatMap
        (fun a => if a.1 = i then a.2.toList else []) =
      if frame = i / channels then (v.read? rate frame (i % channels)).toList else [] := by
    intro frame
    have one : ∀ channel ∈ List.range channels,
        (if frame * channels + channel = i then (v.read? rate frame channel).toList else []) =
          if channel = i % channels then
            if frame = i / channels then (v.read? rate frame channel).toList else []
          else [] := by
      intro channel member
      rw [← ite_and]
      exact if_congr ((place_iff (List.mem_range.mp member)).trans and_comm) rfl rfl
    rw [List.flatMap_map, List.flatMap_congr one, flatMap_single List.nodup_range,
      if_pos (List.mem_range.mpr (Nat.mod_lt i some))]
  unfold addedAt Voice.additions
  rw [List.flatMap_assoc, List.flatMap_congr fun frame _ => row frame,
    flatMap_single List.nodup_range']
  refine if_congr ?_ rfl rfl
  rw [List.mem_range'_1]
  omega

/-- Every sample that a voice reads where it plays is there. -/
def Voice.Reads (v : Voice K S) (rate : K) (channels : Nat) : Prop :=
  ∀ frame channel, v.first ≤ frame → frame < v.last → channel < channels →
    v.read? rate frame channel = v.sample? rate frame channel

/-- The additions of a voice that ends with the buffer and reads what is there. -/
theorem additions_there (ends : v.last ≤ total) (reads : v.Reads rate channels) :
    ∀ a ∈ v.additions rate channels, a.1 < total * channels ∧ a.2.isSome := by
  intro a member
  obtain ⟨frame, within, inner⟩ := List.mem_flatMap.mp member
  obtain ⟨channel, own, rfl⟩ := List.mem_map.mp inner
  rw [List.mem_range] at own
  rw [List.mem_range'_1] at within
  have before : frame < v.last := by omega
  constructor
  · have next : (frame + 1) * channels ≤ total * channels :=
      Nat.mul_le_mul_right _ (before.trans_le ends)
    rw [Nat.succ_mul] at next
    dsimp only
    omega
  · dsimp only
    rw [reads frame channel within.1 before own, Voice.sample?, if_pos ⟨within.1, before⟩]
    rfl

/-- At each place of the buffer the voices add the samples that play there, in their order. -/
theorem addedAt_voices {voices : List (Voice K S)} (reads : ∀ v ∈ voices, v.Reads rate channels)
    (some : 0 < channels) (i : Nat) :
    addedAt (voices.flatMap (·.additions rate channels)) i =
      voices.filterMap fun v => v.sample? rate (i / channels) (i % channels) := by
  unfold addedAt
  rw [List.flatMap_assoc, List.filterMap_eq_flatMap_toList]
  refine List.flatMap_congr fun v listed => ?_
  refine (additions_at v rate some i).trans ?_
  split
  · rename_i plays
    rw [reads v listed _ _ plays.1 plays.2 (Nat.mod_lt i some)]
  · rename_i silent
    rw [Voice.sample?, if_neg silent]
    rfl

/-- Voices that end with the buffer and read what is there are added without a miss, and make the
mix. -/
theorem added_mix (shape : StreamShape) {voices : List (Voice K S)}
    (ends : ∀ v ∈ voices, v.last ≤ total) (reads : ∀ v ∈ voices, v.Reads rate shape.channels) :
    Mix.added? rate total shape.channels voices =
      some (Mix.ofVoices rate total shape voices).samples := by
  have there : ∀ a ∈ voices.flatMap (·.additions rate shape.channels),
      a.1 < (Array.replicate (total * shape.channels) (0 : S)).size ∧ a.2.isSome := by
    intro a member
    obtain ⟨v, listed, own⟩ := List.mem_flatMap.mp member
    rw [Array.size_replicate]
    exact additions_there (ends v listed) (reads v listed) a own
  rw [Mix.added?, foldlM_addTo there]
  refine congrArg some (Array.ext (by simp [Mix.ofVoices]) ?_)
  intro i low high
  have inside : i < total * shape.channels := by simpa using low
  have some : 0 < shape.channels := Nat.pos_of_mul_pos_left (Nat.zero_lt_of_lt inside)
  rw [Array.getElem_mapIdx, Array.getElem_replicate, addedAt_voices reads some]
  simp [Mix.ofVoices]

end Voices

/-- A voice reads nothing but what its sound has, when that has the channels of the mix. -/
theorem Voice.reads_there {S : Type} [Scalar S] [Narrowing Rat S] {v : Voice Rat S}
    {channels : Nat} (own : channels ≤ v.sound.shape.channels) (rate : Rat) :
    v.Reads rate channels := by
  intro frame channel begun before inside
  rw [Voice.sample?, if_pos ⟨begun, before⟩, Voice.read?,
    Sound.sampleAt_there (inside.trans_le own)]
  rfl

end Montage
