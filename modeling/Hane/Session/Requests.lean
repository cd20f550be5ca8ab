import Hane.Editing.Operations
import Hane.Session.DocumentSession

/-! Everything a caller can ask of one session, as one kind of step. -/

namespace Hane.Session

open Hane.Document Hane.Editing

/-- One call on a session, with the arguments its caller chose. An edit gives the editor it
leads to.
-/
inductive Request where
  | adopt (loaded : LoadedFile)
  | edit (next : Editor)
  | noteEdit
  | save (inspected : Path → Path → Bool) (intent : SaveIntent)
  | overwrite (approval : ResolutionApproval)
  | finishSave (ticket : SaveTicket) (result : Except SaveFailure SavedFile)
  | takePendingSave
  | beginRename
  | finishRename (ticket : SaveTicket)
  | fileEvent (event : FileEvent)
  | folderDelete (folder : Path)
  | folderRename (source target : Path)
  | takeRecheck
  | beginCheck
  | abandonCheck (ticket : ExternalCheckTicket)
  | finishCheck (clock : Clock) (ticket : ExternalCheckTicket) (result : ExternalCheckResult)
  | approve (kind : ResolutionKind) (shown : Option ContentFingerprint)
  | reload (clock : Clock) (approval : ResolutionApproval)
  | beginReload (approval : ResolutionApproval)
  | finishReload (clock : Clock) (request : ReloadVerifyRequest) (disk : DiskVersion)

namespace Request

/-- The session after the call. -/
def run (session : DocumentSession) : Request → DocumentSession
  | adopt loaded => session.adopt loaded
  | edit next => { session with editor := next }
  | noteEdit => session.noteEdit
  | save inspected intent => (session.requestSave inspected intent).2
  | overwrite approval => (session.requestConfirmedOverwrite approval).2
  | finishSave ticket result => (session.finishSave ticket result).2
  | takePendingSave => session.takePendingSave.2
  | beginRename => session.beginRename.2
  | finishRename ticket => session.finishRename ticket
  | fileEvent event => (session.applyFileEvent event).2
  | folderDelete folder => (session.applyFolderDelete folder).2
  | folderRename source target => (session.applyFolderRename source target).2
  | takeRecheck => session.takeRecheckRequest.2
  | beginCheck => session.beginExternalCheck.2
  | abandonCheck ticket => session.abandonExternalCheck ticket
  | finishCheck clock ticket result => (session.finishExternalCheck clock ticket result).2
  | approve kind shown => (session.approveResolution kind shown).2
  | reload clock approval => (session.applyConfirmedReload clock approval).2
  | beginReload approval => (session.beginConfirmedReload approval).2
  | finishReload clock request disk => (session.finishConfirmedReload clock request disk).2

def Possible (session : DocumentSession) : Request → Prop
  | edit next => EditsDocument session.editor next
  | _ => True

/-- The approval the call hands out. -/
def issues (session : DocumentSession) : Request → Option ResolutionApproval
  | approve kind shown => (session.approveResolution kind shown).1
  | _ => none

/-- The approval of the accepted write or reload, if the call is one under an approval. -/
def consumes (session : DocumentSession) : Request → Option ResolutionApproval
  | save inspected (.confirmed approval) =>
    match (session.requestSave inspected (.confirmed approval)).1 with
    | .write _ => some approval
    | _ => none
  | overwrite approval =>
    (session.requestConfirmedOverwrite approval).1.map fun _ => approval
  | reload clock approval =>
    if (session.applyConfirmedReload clock approval).1 = .reloaded then some approval else none
  | finishReload clock request disk =>
    if (session.finishConfirmedReload clock request disk).1 = .reloaded then
      some request.approval
    else none
  | _ => none

end Request

end Hane.Session
