import Montage.Proofs.Render.Conduct
import Montage.Proofs.Render.Fallback
import Montage.Proofs.Sound.Gathering
import Montage.Proofs.Stream.Recorded

/- What a render service is asked. A project is uploaded once at most, and only behind a greeting of
   the very version that is asked for, with all of its media, and past a look at the flag. -/
namespace Montage

/-- A success with this whole body. -/
def Answer.Delivers (a : Answer) (body : Bytes) : Prop :=
  ∃ r, a = .reply r ∧ r.isSuccess = true ∧ r.content = some body

/-- The health check answers with a document that has exactly this version. -/
def Service.Greets (service : Service) (version : String) : Prop :=
  ∃ body health, service.health.Delivers body ∧ healthDocument.parseBytes body = .ok health ∧
    health.version = version

namespace ServiceConfig

def greeting (c : ServiceConfig) : Request := .get (pathOf (c.url "/health"))

def upload (c : ServiceConfig) (parts : List FormPart) : Request :=
  .post (pathOf (c.url "/render")) parts

end ServiceConfig

/-- A part of a form with the bytes of this media file, under its identifier. It is a file, named
as the last component of the path is. -/
structure Attaches (files : FileTree) (m : MediaFile Float) (part : FormPart) : Prop where
  name : part.name = "media_" ++ m.id
  fileName : part.fileName = some ((Path.fileName? m.path).getD (m.id ++ ".bin"))
  contentType : part.contentType = some "application/octet-stream"
  body : files.read m.path = .ok part.body

/-- A part of a form that is a plain text. -/
structure FormPart.Says (part : FormPart) (name text : String) : Prop where
  name : part.name = name
  fileName : part.fileName = none
  contentType : part.contentType = none
  body : part.body = Utf8.encode text

/-- The project with its length behind the members of its document, the settings, and one part for
each media file, in order. -/
def CarriesProject (files : FileTree) (p : Project Float) (settings : RenderSettings Float)
    (parts : List FormPart) : Prop :=
  ∃ project chosen media members, parts = project :: chosen :: media ∧
    projectDocument.toValue p = .object members ∧
    project.Says "project" (Json.Value.object (members ++ [("duration", .number p.duration)])).compact ∧
    chosen.Says "settings" (settingsDocument.toValue settings).compact ∧
    List.Forall₂ (Attaches files) p.mediaFiles media

def MediaReadable (files : FileTree) (p : Project Float) : Prop :=
  ∀ m ∈ p.mediaFiles, ∃ body, files.read m.path = .ok body

section Form
variable {files : FileTree} {p : Project Float} {settings : RenderSettings Float}

end Form

/-- What a request leaves of a session: the service may receive it, and with a silence trip the
flag. -/
def Session.asks (s : Session) (answer : Answer) (request : Request) : Session :=
  match answer with
  | .refused => s
  | .hanging =>
    { s with requests := s.requests ++ [request], cancel := s.cancel.pass .hangingRequest }
  | _ => { s with requests := s.requests ++ [request] }

section Exchange
variable {c : ServiceConfig} {service : Service} {s : Session}

end Exchange

/-- Behind the health check and before the upload. -/
def Session.greeted (s : Session) (h : Host) : Session :=
  ((s.report .preparing 0 "Checking native render service").asks h.service.health
    h.config.service.greeting).report .rendering 0 "Rendering on native service"

/-- The ways a render by the service can go. -/
inductive Served (h : Host) (p : Project Float) (settings : RenderSettings Float) (s : Session) :
    Except RenderFault Bytes → Session → Prop where
  | turnedAway {e : RenderFault} (unwelcome : ¬ h.service.Greets h.config.service.requiredVersion)
      (kind : e.faultClass = .unavailable) :
      Served h p settings s (.error e)
        ((s.report .preparing 0 "Checking native render service").asks h.service.health
          h.config.service.greeting)
  | unread (e : RenderFault) (greets : h.service.Greets h.config.service.requiredVersion)
      (unread : ¬ MediaReadable s.files p) : Served h p settings s (.error e) (s.greeted h)
  | stopped {final : Session} (greets : h.service.Greets h.config.service.requiredVersion)
      (stopped : Stopped (s.greeted h) final) : Served h p settings s (.error .cancelled) final
  | failed {parts : List FormPart} {passed : Session} (e : RenderFault)
      (greets : h.service.Greets h.config.service.requiredVersion)
      (carries : CarriesProject s.files p settings parts) (readable : MediaReadable s.files p)
      (clear : Run.check (s.greeted h) = (.ok (), passed))
      (nothing : ∀ bytes, h.service.render.Delivers bytes → bytes = []) :
      Served h p settings s (.error e)
        (passed.asks h.service.render (h.config.service.upload parts))
  | rendered {parts : List FormPart} {passed : Session} {bytes : Bytes}
      (greets : h.service.Greets h.config.service.requiredVersion)
      (carries : CarriesProject s.files p settings parts) (readable : MediaReadable s.files p)
      (clear : Run.check (s.greeted h) = (.ok (), passed))
      (delivered : h.service.render.Delivers bytes) (full : bytes ≠ []) :
      Served h p settings s (.ok bytes)
        ((passed.asks h.service.render (h.config.service.upload parts)).report .finalizing 100
          "Received rendered file")

section Upload
variable {h : Host} {p : Project Float} {settings : RenderSettings Float} {s : Session}

end Upload

section Sent
variable {h : Host} {p : Project Float} {settings : RenderSettings Float} {s passed after : Session}
  {result : Except RenderFault Bytes}

end Sent

end Montage
