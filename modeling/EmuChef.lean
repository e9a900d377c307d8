import EmuChef.Executor.RootAgreement
import EmuChef.Adb.SessionLaw
import EmuChef.Catalog.UnsavedRecipe
import EmuChef.Planner.Destinations
import EmuChef.Planner.AuthorityLaw
import EmuChef.App.HandleSessions
import EmuChef.Helper.HelperLaw
import EmuChef.Editor.CommandLaw
import EmuChef.Configuration.ValidationLaw
import EmuChef.Configuration.Preservation
import EmuChef.Recovery.DraftLaw
import EmuChef.Device.MatchLaw
import EmuChef.Artifact.TransportLaw
import EmuChef.Catalog.ReconcileLaw
import EmuChef.Catalog.RecoveryClosure
import EmuChef.Planner.Provenance
import EmuChef.Configuration.AvailabilityLaw
import EmuChef.Storage.OfferLaw
import EmuChef.Definition.NumberOrder
import EmuChef.Definition.HistoryLaw
import EmuChef.Updates.Service
import EmuChef.Session.PermissionActions
import EmuChef.Session.SerialLaw
import EmuChef.App.PartialChanges
import EmuChef.CopyCommit.FakeAdapter
import EmuChef.CopyCommit.Staging
import EmuChef.Planner.StepOrder
import EmuChef.Executor.ExtractionSandbox
import EmuChef.CopyCommit.RepeatedCommit
import EmuChef.Planner.PlannedRun
