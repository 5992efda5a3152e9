import FileWatch.Main
import FileWatch.Unavailable
import FileWatch.WatchTable.Handshake
import FileWatch.Proofs.Dict
import FileWatch.Proofs.WatchTable.Pairing
import FileWatch.Proofs.WatchTable.Registry
import FileWatch.Proofs.WatchTable.Wakeups
import FileWatch.Proofs.WatchTable.Widening
import FileWatch.Proofs.Debounce.Bursts
import FileWatch.Proofs.Debounce.Passage
import FileWatch.Proofs.Debounce.Independence
import FileWatch.Proofs.Reader.Dispatch
import FileWatch.Proofs.Reader.Boundaries
import FileWatch.Proofs.Reader.Deletions
import FileWatch.Proofs.Reader.Listeners
import FileWatch.Proofs.Reader.Malformed
import FileWatch.Proofs.Record.RoundTrip
import FileWatch.Proofs.Record.Grammar
import FileWatch.Proofs.Interplay.System
import FileWatch.Proofs.Interplay.Steps
import FileWatch.Proofs.Interplay.Effects
import FileWatch.Proofs.Interplay.Order
import FileWatch.Proofs.Interplay.Ending
import FileWatch.Proofs.Interplay.Removal
import FileWatch.Proofs.Interplay.Shutdown
import FileWatch.Proofs.Interplay.Alone
import FileWatch.Proofs.Interplay.Returns
import FileWatch.Proofs.Interplay.Scripts
import FileWatch.Proofs.Interplay.Origins
import FileWatch.Proofs.Interplay.Acknowledged
import FileWatch.Proofs.Interplay.Upheld
import FileWatch.Proofs.Mask
import FileWatch.Proofs.Interplay.Subscribed
import FileWatch.Proofs.Interplay.Requested
import FileWatch.Proofs.Interplay.Astray
import FileWatch.Proofs.Interplay.Linear
import FileWatch.Proofs.Interplay.Recognized
import FileWatch.Proofs.Shell.FileFilter
import FileWatch.Proofs.Path.Canonical
import FileWatch.Proofs.Debounce.Reported
import FileWatch.Proofs.Debounce.Deadlines
import FileWatch.Proofs.WatchTable.Waits
import FileWatch.Proofs.Shell.Printer
import FileWatch.Proofs.Event
import FileWatch.Proofs.Shell.Lines
import FileWatch.Proofs.Settings
