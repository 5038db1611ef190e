import Mathlib.Data.List.Nodup
import Mathlib.Data.List.Perm.Basic
import Mathlib.Logic.Relation
import Montage.Proofs.Timeline.Placement

/- Projects that differ in the order of their tracks, of the clips on a track, or of their media:
   they last equally long, and the same clips can be heard, if not in the same order. -/
namespace Montage.Project

/-- A step on the way to another order: of the tracks, of the clips on one track, or of the media,
if no two of them go by one identifier. -/
inductive Reorders {K : Type} : Project K → Project K → Prop where
  | tracks (p : Project K) {tracks : List (Track K)} (order : p.tracks.Perm tracks) :
      Reorders p { p with tracks }
  | clips (p : Project K) {before after : List (Track K)} {t : Track K} {clips : List (Clip K)}
      (listed : p.tracks = before ++ t :: after) (order : t.clips.Perm clips) :
      Reorders p { p with tracks := before ++ { t with clips } :: after }
  | media (p : Project K) {mediaFiles : List (MediaFile K)} (order : p.mediaFiles.Perm mediaFiles)
      (distinct : (p.mediaFiles.map (·.id)).Nodup) : Reorders p { p with mediaFiles }

section Keys
variable {α : Type} {key : α → String} {xs ys : List α} {k : String} {x : α}

theorem find_key_iff (distinct : (xs.map key).Nodup) :
    xs.find? (fun x => key x == k) = some x ↔ x ∈ xs ∧ key x = k := by
  constructor
  · intro found
    exact ⟨List.mem_of_find?_eq_some found, by simpa using List.find?_some found⟩
  · rintro ⟨member, own⟩
    obtain ⟨y, found⟩ := Option.isSome_iff_exists.mp
      (List.find?_isSome (p := fun x => key x == k) |>.mpr ⟨x, member, beq_iff_eq.mpr own⟩)
    have same : key y = k := by simpa using List.find?_some found
    rw [found, List.inj_on_of_nodup_map distinct (List.mem_of_find?_eq_some found) member
      (same.trans own.symm)]

/-- What is found by a key of its own does not depend on the order. -/
theorem find_perm (order : xs.Perm ys) (distinct : (xs.map key).Nodup) :
    (xs.find? fun x => key x == k) = ys.find? fun x => key x == k := by
  apply Option.ext
  intro x
  rw [find_key_iff distinct, find_key_iff ((order.map key).nodup_iff.mp distinct), order.mem_iff]

end Keys

section Clips
variable {p q : Project Rat}

/-- What a track lets one hear, wherever it is listed. -/
def voicesOf (p : Project Rat) (t : Track Rat) : List (Scheduled Rat) :=
  if !t.muted && t.isAudio then
    t.clips.filterMap fun c => (p.media? c.mediaId).map fun m => p.schedule ⟨0, t, c, m⟩
  else []

theorem audioClips_level (p : Project Rat) :
    p.audioClips.map Scheduled.level = p.tracks.flatMap p.voicesOf := by
  have track : ∀ e : Nat × Track Rat, (((e.2.clips.filterMap fun c => (p.media? c.mediaId).map
      fun m => (⟨e.1, e.2, c, m⟩ : Placed Rat)).filter fun c => !c.track.muted).filter
        fun c => c.track.isAudio).map (Scheduled.level ∘ p.schedule) = p.voicesOf e.2 := by
    rintro ⟨i, t⟩
    dsimp only
    rw [List.filter_filterMap, List.filter_filterMap, List.map_filterMap, voicesOf]
    split
    · rename_i audible
      rw [Bool.and_eq_true, Bool.not_eq_true'] at audible
      refine List.filterMap_congr fun c _ => ?_
      cases p.media? c.mediaId with
      | none => rfl
      | some m => simp [audible.1, audible.2, Scheduled.level, schedule]
    · rename_i silent
      refine List.filterMap_eq_nil_iff.mpr fun c _ => ?_
      cases p.media? c.mediaId with
      | none => rfl
      | some m => cases muted : t.muted <;> simp_all
  have tracks : p.indexedTracks.map (·.2) = p.tracks := by
    rw [indexedTracks, List.map_map]
    exact List.zipIdx_map_fst 0 p.tracks
  rw [audioClips, unmuted, placedClips, List.map_map, List.filter_flatMap, List.filter_flatMap,
    List.map_flatMap]
  conv_rhs => rw [← tracks, List.flatMap_map]
  exact List.flatMap_congr fun e _ => track e

theorem latest_perm {times others : List Rat} (order : times.Perm others) :
    latest times = latest others :=
  order.foldl_eq' (fun x _ y _ z => by simp only [Scalar.max_rat]; exact max_right_comm z x y) 0

/-- Two projects that last equally long and let one hear the same clips, each with the same media,
timing and transitions. -/
structure SoundsAlike (p q : Project Rat) : Prop where
  duration : p.duration = q.duration
  clips : (p.audioClips.map Scheduled.level).Perm (q.audioClips.map Scheduled.level)

theorem Reorders.alike (step : Reorders p q) : SoundsAlike p q := by
  cases step with
  | tracks order =>
    refine ⟨latest_perm (order.map _), ?_⟩
    rw [audioClips_level, audioClips_level]
    exact order.flatMap_right _
  | @clips before after t clips listed order =>
    have row : (p.voicesOf t).Perm (p.voicesOf { t with clips }) := by
      have other : p.voicesOf { t with clips } = if !t.muted && t.isAudio then clips.filterMap fun c =>
          (p.media? c.mediaId).map fun m => p.schedule ⟨0, t, c, m⟩ else [] := rfl
      rw [other, voicesOf]
      split
      · exact order.filterMap _
      · exact .refl _
    have length : t.duration p.mediaFiles = Track.duration { t with clips } p.mediaFiles :=
      latest_perm (order.filterMap _)
    constructor
    · rw [duration, duration, listed]
      simp only [List.map_append, List.map_cons, length]
    · rw [audioClips_level, audioClips_level, listed, List.flatMap_append, List.flatMap_cons,
        List.flatMap_append, List.flatMap_cons]
      exact (row.append_right _).append_left _
  | @media mediaFiles order distinct =>
    have found : p.media? = ({ p with mediaFiles } : Project Rat).media? :=
      funext fun id => find_perm order distinct
    have tracks : p.voicesOf = ({ p with mediaFiles } : Project Rat).voicesOf := by
      funext t
      unfold voicesOf
      rw [found]
      rfl
    have length : ∀ t ∈ p.tracks, t.duration p.mediaFiles = t.duration mediaFiles := by
      intro t _
      refine congrArg latest (List.filterMap_congr fun c _ => ?_)
      exact congrArg (Option.map c.endTime) (find_perm order distinct)
    constructor
    · exact congrArg latest (List.map_congr_left length)
    · rw [audioClips_level, audioClips_level, tracks]

theorem SoundsAlike.trans {r : Project Rat} (first : SoundsAlike p q) (next : SoundsAlike q r) :
    SoundsAlike p r :=
  ⟨first.duration.trans next.duration, first.clips.trans next.clips⟩

/-- Another order changes neither the length nor the clips that can be heard. -/
theorem reordered_alike (steps : Relation.ReflTransGen Reorders p q) : SoundsAlike p q := by
  induction steps with
  | refl => exact ⟨rfl, .refl _⟩
  | tail _ step ih => exact ih.trans step.alike

end Clips
end Montage.Project
