import Montage.Cancel
import Montage.Clock
import Montage.Codec.Backend
import Montage.Config
import Montage.Picture.FontFile
import Montage.Progress
import Montage.Service.Exchange
import Montage.Sound.Mix
import Montage.Strategy
import Montage.Transcode.Program

/- What a render borrows from its host, and what it changes while it runs. -/
namespace Montage

/-- Everything that stays as it is. -/
structure Host where
  config : Config
  backend : Backend
  sounds : SoundLibrary Float Float32
  font : Option LoadedFont
  service : Service
  programs : Programs
  /-- A directory for files that a render needs for itself. -/
  scratch : String

structure UsedWriter where
  writer : Writer
  /-- Else it was aborted. -/
  finished : Bool

structure Session where
  progress : Progress
  cancel : Cancel
  clock : Clock
  files : FileTree
  requests : List Request
  invocations : List Invocation
  /-- What became of all decoders. -/
  books : Usage
  /-- Decoders that were opened for each layer that was to be streamed. -/
  opens : List Nat
  writersOpened : Nat
  writers : List UsedWriter

def Session.start (progress : Progress) (cancel : Cancel) (clock : Clock) (files : FileTree) :
    Session :=
  ⟨progress, cancel, clock, files, [], [], Usage.none, [], 0, []⟩

/-- Steps of a render. What they did stays done when they fail. -/
abbrev Run := ExceptT RenderFault (StateM Session)

/-- What the streaming pipeline can do on a host. -/
def Host.capabilities (h : Host) : Capabilities :=
  ⟨h.backend.support.hardware, h.font.isSome⟩

namespace Session

/-- Passes on a report; whoever hears it may trip the flag. -/
def reported (s : Session) (p : Progress) : Session :=
  let s := { s with progress := p }
  if p.delivered.size = 0 then s else { s with cancel := s.cancel.pass (.report p.delivered.size) }

def report (s : Session) (stage : Stage) (percent : Nat) (message : String) : Session :=
  s.reported (s.progress.report stage percent message)

def fraction (s : Session) (stage : Stage) (done total : Nat) (message : String) :
    Option Session :=
  (s.progress.fraction stage done total message).map s.reported

end Session

namespace Run

def report (stage : Stage) (percent : Nat) (message : String) : Run Unit :=
  modify fun s => s.report stage percent message

/-- Reports two counters, or ends in an overflow. -/
def fraction (stage : Stage) (done total : Nat) (message : String) : Run Unit := do
  match (← get).fraction stage done total message with
  | some s => set s
  | none => throw .overflow

def restart : Run Unit := modify fun s => { s with progress := s.progress.restart }

def check : Run Unit := do
  let s ← get
  let (result, cancel) := s.cancel.check
  set { s with cancel }
  match result with
  | .ok () => return
  | .error e => throw e

/-- Marks a moment at which somebody may trip the flag. -/
def pass (m : Moment) : Run Unit := modify fun s => { s with cancel := s.cancel.pass m }

def ofResult {α : Type} : Except RenderFault α → Run α
  | .ok x => return x
  | .error e => throw e

end Run
end Montage
