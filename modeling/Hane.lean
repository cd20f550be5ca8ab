import Hane.Ai.CommitReports
import Hane.Ai.ProbeRuns
import Hane.Ai.PromptRuns
import Hane.Ai.RpcContract
import Hane.Document.AnchorRuns
import Hane.Document.LineIndex
import Hane.Editing.CancelLimit
import Hane.Editing.CaretRuns
import Hane.Editing.Finding
import Hane.Editing.UndoRuns
import Hane.Editing.Utf16Ranges
import Hane.Editing.WordWalks
import Hane.Markdown.BareUrls
import Hane.Markdown.BlockRuns
import Hane.Markdown.Publication
import Hane.Markdown.StoreRuns
import Hane.Markdown.TilingRuns
import Hane.Presentation.ExpectedDisclosures
import Hane.Presentation.HeightRuns
import Hane.Presentation.LayoutRows
import Hane.Markdown.FenceHeightQueries
import Hane.Markdown.ListPrefixes
import Hane.Presentation.Normalizing
import Hane.Presentation.Rebasing
import Hane.Session.AcceptedTexts
import Hane.Session.Approvals
import Hane.Session.DisplacedFiles
import Hane.Session.InstallRaces
import Hane.Session.DateBadge
import Hane.Session.DraftRuns
import Hane.Session.Naming
import Hane.Session.PinRuns
import Hane.Session.RecentFiles
import Hane.Session.SaveRuns
import Hane.Session.SearchHits
import Hane.Session.SearchStreamRuns
import Hane.Session.TitleSync
import Hane.Session.WorkFolderRuns
import Hane.Update.DownloadRuns
import Hane.Update.HandoffRelease
import Hane.Update.ImageMarker
import Hane.Update.OwnedFiles
import Hane.Update.PlanEffects
import Hane.Update.Receipts
import Hane.Update.SeenFloor
import Hane.Update.HealthHandshake
