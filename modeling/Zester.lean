import Zester.States.ConfluenceProofs
import Zester.Settings.ResolveProofs
import Zester.Settings.OrderProofs
import Zester.Settings.PlaceholderProofs
import Zester.Enroll.IdentityProofs
import Zester.Enroll.RecoveryProofs
import Zester.Target.Basket
import Zester.Update.HandlerProofs
import Zester.Update.AutoRolloutProofs
import Zester.Modules.SshAuthProofs
import Zester.StateFiles.ContainmentProofs
import Zester.Masterd.Mirror
import Zester.Masterd.SoftRevocationProofs
import Zester.Masterd.RevocationListProofs
import Zester.Enroll.ChallengeProofs
import Zester.Update.AbortProofs
import Zester.Update.GcProofs
import Zester.Update.Swap
import Zester.Reactor.BreakerProofs
import Zester.Reactor.RedeliveryProofs
import Zester.Reactor.SubjectProofs
import Zester.Update.DriverProofs
import Zester.Jobs.FinalProofs
import Zester.Modules.File.ChangedProofs
import Zester.States.RevertRunProofs
import Zester.Compiler.NamesProofs
import Zester.Compiler.LoadProofs
import Zester.Target.PrintProofs
import Zester.Jobs.ScannerProofs
import Zester.Peeld.DedupProofs
import Zester.Peeld.Cancel
import Zester.Jobs.ScheduledProofs
import Zester.Jobs.Watching
import Zester.Jobs.CollectProofs
import Zester.StateFiles.Trigger
import Zester.Facts.Index
import Zester.Bus.CounterProofs
