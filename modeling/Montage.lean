import Montage.Cancel
import Montage.Clock
import Montage.Codec.Backend
import Montage.Codec.Decoder
import Montage.Codec.Recording
import Montage.Codec.Sample
import Montage.Codec.Source
import Montage.Codec.Writer
import Montage.Config
import Montage.Console.Arguments
import Montage.Console.Command
import Montage.Console.HostReport
import Montage.Console.PlanReport
import Montage.Console.ProgressLine
import Montage.Console.ProjectReport
import Montage.Console.Shell
import Montage.Fault
import Montage.Files
import Montage.Geometry.Affine
import Montage.Geometry.Rect
import Montage.Graph.Arguments
import Montage.Graph.Compile
import Montage.Graph.Filter
import Montage.Graph.Gain
import Montage.Graph.Text
import Montage.Json.Codec
import Montage.Json.Fault
import Montage.Json.Reader
import Montage.Json.Value
import Montage.Main
import Montage.Number.Binary
import Montage.Number.Bytes
import Montage.Number.Decimal
import Montage.Number.Numeral
import Montage.Number.Power
import Montage.Number.Scalar
import Montage.Number.Scaled
import Montage.Number.Style
import Montage.Number.Word
import Montage.Picture.Canvas
import Montage.Picture.Color
import Montage.Picture.Font
import Montage.Picture.FontFile
import Montage.Picture.Image
import Montage.Picture.Shade
import Montage.Progress
import Montage.Proofs.Graph.Audible
import Montage.Proofs.Graph.Captions
import Montage.Proofs.Graph.Command
import Montage.Proofs.Graph.Durations
import Montage.Proofs.Graph.Fades
import Montage.Proofs.Graph.Ramps
import Montage.Proofs.Graph.Segments
import Montage.Proofs.Graph.Sources
import Montage.Proofs.Graph.Tempo
import Montage.Proofs.Graph.TopClip
import Montage.Proofs.Graph.Windows
import Montage.Proofs.Graph.Winner
import Montage.Proofs.Graph.Wiring
import Montage.Proofs.Number.Exact
import Montage.Proofs.Number.Word
import Montage.Proofs.Picture.Colors
import Montage.Proofs.Picture.Cropping
import Montage.Proofs.Render.Conduct
import Montage.Proofs.Render.Ending
import Montage.Proofs.Render.Fallback
import Montage.Proofs.Render.Local
import Montage.Proofs.Render.Percentages
import Montage.Proofs.Service.Protocol
import Montage.Proofs.Sound.Mixdown
import Montage.Proofs.Sound.Priming
import Montage.Proofs.Sound.Reversal
import Montage.Proofs.Sound.Sampling
import Montage.Proofs.Sound.Summing
import Montage.Proofs.Stream.Accounts
import Montage.Proofs.Stream.Calls
import Montage.Proofs.Stream.Cancelling
import Montage.Proofs.Stream.Capacity
import Montage.Proofs.Stream.Feeding
import Montage.Proofs.Stream.Forgetting
import Montage.Proofs.Stream.Groups
import Montage.Proofs.Stream.Intake
import Montage.Proofs.Stream.Keyframes
import Montage.Proofs.Stream.Loading
import Montage.Proofs.Stream.Lookup
import Montage.Proofs.Stream.Moves
import Montage.Proofs.Stream.Nearness
import Montage.Proofs.Stream.Newest
import Montage.Proofs.Stream.Patience
import Montage.Proofs.Stream.Playback
import Montage.Proofs.Stream.Presence
import Montage.Proofs.Stream.Queue
import Montage.Proofs.Stream.Recorded
import Montage.Proofs.Stream.Rewinding
import Montage.Proofs.Stream.Scenes
import Montage.Proofs.Stream.Settling
import Montage.Proofs.Stream.Shooting
import Montage.Proofs.Stream.Spacing
import Montage.Proofs.Stream.Stacking
import Montage.Proofs.Stream.Stalling
import Montage.Proofs.Stream.Teardown
import Montage.Proofs.Stream.Track
import Montage.Proofs.Stream.Tuning
import Montage.Proofs.Stream.Turning
import Montage.Proofs.Stream.Unbroken
import Montage.Proofs.Stream.Upkeep
import Montage.Proofs.Stream.Waiting
import Montage.Proofs.Stream.Window
import Montage.Proofs.Timeline.Filler
import Montage.Proofs.Timeline.Flatten
import Montage.Proofs.Timeline.Gap
import Montage.Proofs.Timeline.Grid
import Montage.Proofs.Timeline.Partition
import Montage.Proofs.Timeline.Pointwise
import Montage.Proofs.Timeline.Priority
import Montage.Proofs.Timeline.Reordering
import Montage.Proofs.Timeline.Saved
import Montage.Proofs.Timeline.SourceWindow
import Montage.Proofs.Timeline.Sweep
import Montage.Proofs.Timeline.Tiling
import Montage.Proofs.Transcode.Transcript
import Montage.Render.Chain
import Montage.Render.Session
import Montage.Service.Client
import Montage.Service.Exchange
import Montage.Sound.Mix
import Montage.Sound.Pcm
import Montage.Sound.Wave
import Montage.Strategy
import Montage.Stream.FrameQueue
import Montage.Stream.Layers
import Montage.Stream.Pipeline
import Montage.Stream.Slot
import Montage.Text.Aligned
import Montage.Text.Blank
import Montage.Text.Invisible
import Montage.Text.Path
import Montage.Text.Quoted
import Montage.Text.Utf8
import Montage.Timeline.Clip
import Montage.Timeline.Document
import Montage.Timeline.EffectDocument
import Montage.Timeline.Project
import Montage.Timeline.Schedule
import Montage.Timeline.Settings
import Montage.Timeline.Span
import Montage.Timeline.Store
import Montage.Timeline.Timing
import Montage.Timeline.Validity
import Montage.Transcode.Program
import Montage.Transcode.Render
