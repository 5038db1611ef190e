import Montage.Graph.Arguments

/- The command line of a transcoder as options with their values. Only what stands before the filter
   names inputs, whatever the container, the rates and the sound. -/
namespace Montage.Graph

/-- Options with their values, as the words of a command line. -/
def optionWords (os : List (String × String)) : List String := os.flatMap fun o => [o.1, o.2]

@[simp] theorem optionWords_cons (o : String × String) (os : List (String × String)) :
    optionWords (o :: os) = o.1 :: o.2 :: optionWords os := rfl

@[simp] theorem optionWords_append (a b : List (String × String)) :
    optionWords (a ++ b) = optionWords a ++ optionWords b := List.flatMap_append

/-- Words that are options with their values and name no input. -/
def Inputless (words : List String) : Prop :=
  ∃ os, words = optionWords os ∧ ∀ o ∈ os, o.1 ≠ "-i"

namespace Inputless
variable {a b words : List String} {name : String}

theorem nil : Inputless [] := ⟨[], rfl, by simp⟩

theorem cons (other : name ≠ "-i") (value : String) (rest : Inputless words) :
    Inputless (name :: value :: words) := by
  obtain ⟨os, rfl, others⟩ := rest
  exact ⟨(name, value) :: os, rfl, by simpa [other] using others⟩

theorem append (first : Inputless a) (second : Inputless b) : Inputless (a ++ b) := by
  obtain ⟨os, rfl, others⟩ := first
  obtain ⟨os', rfl, others'⟩ := second
  refine ⟨os ++ os', (optionWords_append os os').symm, ?_⟩
  intro o member
  rcases List.mem_append.mp member with here | there
  · exact others o here
  · exact others' o there

end Inputless

theorem codecArguments_inputless (settings : RenderSettings Float) (interval : Nat)
    (kbps : Option Nat) : Inputless (codecArguments settings interval kbps) := by
  have video : Inputless (videoArguments settings.format) := by
    cases settings.format with
    | mp4 =>
      exact .cons (by decide) _ (.cons (by decide) _ (.cons (by decide) _ (.cons (by decide) _
        (.cons (by decide) _ .nil))))
    | webm =>
      exact .cons (by decide) _ (.cons (by decide) _ (.cons (by decide) _ (.cons (by decide) _ .nil)))
  have rates : ∀ b r g : String, Inputless ["-b:v", b, "-r", r, "-g", g] := fun b r g =>
    .cons (by decide) b (.cons (by decide) r (.cons (by decide) g .nil))
  refine (video.append (rates _ _ _)).append ?_
  cases kbps with
  | none => exact .nil
  | some n => exact .cons (by decide) _ (.cons (by decide) _ .nil)

/-- The paths of the inputs are named in their order, each behind its own flag, before the filter;
what comes behind the filter names none. -/
theorem arguments_inputs (g : Compiled Float) (settings : RenderSettings Float) (options : Options)
    (output : String) : ∃ later, (∀ o ∈ later, o.1 ≠ "-i") ∧
      arguments g settings options output = ["-y", "-hide_banner", "-nostats"] ++
        optionWords (("-progress", "pipe:1") :: g.inputs.map (fun path => ("-i", path)) ++
          ("-filter_complex", text g.chains) :: later) ++ [output] := by
  have mapped : Inputless (if g.hasAudio then ["-map", "[aout]"] else []) := by
    split
    · exact .cons (by decide) _ .nil
    · exact .nil
  have codec := codecArguments_inputless settings options.keyframeInterval
    (if g.hasAudio then some options.audioBitrateKbps else none)
  have stop : Inputless ["-t", sixPlaces g.duration] := .cons (by decide) _ .nil
  obtain ⟨later, words, others⟩ :=
    (Inputless.cons (show "-map" ≠ "-i" by decide) "[vout]" mapped).append (codec.append stop)
  refine ⟨later, others, ?_⟩
  have named : optionWords (g.inputs.map fun path => ("-i", path)) =
      g.inputs.flatMap fun path => ["-i", path] := List.flatMap_map ..
  simp [arguments, named, ← words]

end Montage.Graph
