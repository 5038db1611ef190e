import Montage.Render.Session
import Montage.Timeline.Document
import Montage.Timeline.Timing

/- The client of a render service: a health check that asks for exactly one version, and the
   upload of a project with its media. -/
namespace Montage
open Json Json.Codec Json.Fields

structure Health where
  status : String
  version : String
  deriving DecidableEq, Repr

def healthDocument : Codec Health :=
  (record "HealthStatus" <| required "status" text <| required "version" text done).imap
    (fun (s, v, _) => ⟨s, v⟩)
    (fun h => (h.status, h.version, ()))

/-- What a service says of its own failure. -/
structure Complaint where
  error : Option String
  detail : Option Value

def complaintDocument : Codec Complaint :=
  (record "ErrorPayload" <| nullable "error" text <| nullable "detail" any done).imap
    (fun (e, d, _) => ⟨e, d⟩)
    (fun c => (c.error, c.detail, ()))

/-- The error, else the detail, which need not be a text. -/
def Complaint.message? (c : Complaint) : Option String :=
  c.error <|> c.detail.map fun d =>
    match d with
    | .text s => s
    | v => v.sorted.compact

/-- What a failure says: its message, else the whole body as text. -/
def failureText (body : Bytes) : String :=
  let message := match complaintDocument.parseBytes body with
    | .ok c => c.message?
    | .error _ => none
  message.getD (String.ofList (Text.trim (Utf8.decodeLossy Utf8.replacement body).toList))

def ServiceConfig.root (c : ServiceConfig) : String :=
  String.ofList (c.baseUrl.toList.reverse.dropWhile (· == '/')).reverse

def ServiceConfig.url (c : ServiceConfig) (path : String) : String := c.root ++ path

/-- What follows the host in a location. -/
def pathOf (url : String) : String :=
  let rest := (url.toList.dropWhile (· != ':')).drop 3
  String.ofList (rest.dropWhile (· != '/'))

/-- No reply came. -/
def sendingFailed (url : String) : String := "error sending request for url (" ++ url ++ ")"

/-- A reply came, but not all of it, or not what was asked for. -/
def decodingFailed : String := "error decoding response body"

/-- Asks a service, which may trip the flag by not answering: none when there is no reply. -/
def exchange (answer : Answer) (request : Request) : Run (Option Reply) := do
  match answer with
  | .refused => return none
  | _ => modify fun s => { s with requests := s.requests ++ [request] }
  match answer with
  | .hanging =>
    Run.pass .hangingRequest
    return none
  | .reply r => return some r
  | _ => return none

/-- Whatever goes wrong here means that the service is not to be had. -/
def checkHealth (c : ServiceConfig) (service : Service) : Run Health := do
  let url := c.url "/health"
  match ← exchange service.health (.get (pathOf url)) with
  | none => throw (.unavailable (.serviceUnreachable c.root (sendingFailed url)))
  | some r =>
    if !r.isSuccess then throw (.unavailable (.serviceUnhealthy (statusText r.status)))
    match r.content.map healthDocument.parseBytes with
    | some (.ok h) => return h
    | _ => throw (.unavailable (.healthMalformed decodingFailed))

/-- A healthy service of exactly the version that is asked for. -/
def ensureCompatible (c : ServiceConfig) (service : Service) : Run Health := do
  let h ← checkHealth c service
  if h.version ≠ c.requiredVersion then throw (.versionMismatch c.requiredVersion h.version)
  return h

def mediaPart (files : FileTree) (m : MediaFile Float) : Except RenderFault FormPart :=
  match files.read m.path with
  | .ok body =>
    .ok (FormPart.file ("media_" ++ m.id) ((Path.fileName? m.path).getD (m.id ++ ".bin")) body)
  | .error .notFound => .error (.fileNotFound m.path)
  | .error e => .error (.files e.message)

/-- The project with its duration, the settings, and every media file in order. -/
def renderForm (files : FileTree) (p : Project Float) (settings : RenderSettings Float) :
    Except RenderFault (List FormPart) := do
  let media ← p.mediaFiles.mapM (mediaPart files)
  return FormPart.text "project" p.toWire.compact ::
    FormPart.text "settings" (settingsDocument.toValue settings).compact :: media

/-- Uploads a project and gives what comes back, unless the flag is tripped meanwhile. -/
def requestRender (c : ServiceConfig) (service : Service) (p : Project Float)
    (settings : RenderSettings Float) : Run Bytes := do
  let form ← Run.ofResult (renderForm (← get).files p settings)
  Run.check
  let url := c.url "/render"
  match ← exchange service.render (.post (pathOf url) form) with
  | none =>
    if (← get).cancel.tripped then throw .cancelled
    throw (.network ("Render request failed: " ++ sendingFailed url))
  | some r =>
    match r.content with
    | none => throw (.network ("Failed reading render response: " ++ decodingFailed))
    | some body =>
      if !r.isSuccess then throw (.backend (.serviceFailed (statusText r.status) (failureText body)))
      if body.isEmpty then throw (.backend .serviceEmpty)
      return body

def renderByService (h : Host) (p : Project Float) (settings : RenderSettings Float) : Run Bytes := do
  Run.report .preparing 0 "Checking native render service"
  let _ ← ensureCompatible h.config.service h.service
  Run.report .rendering 0 "Rendering on native service"
  let bytes ← requestRender h.config.service h.service p settings
  Run.report .finalizing 100 "Received rendered file"
  return bytes

end Montage
