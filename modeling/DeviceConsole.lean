import DeviceConsole.Main
import DeviceConsole.Proofs.CommandLine.Reordering
import DeviceConsole.Proofs.Compressed
import DeviceConsole.Proofs.Documents
import DeviceConsole.Proofs.Enrollment.Loading
import DeviceConsole.Proofs.Filter.Path
import DeviceConsole.Proofs.Report.ActiveFilters
import DeviceConsole.Proofs.Report.Agreement
import DeviceConsole.Proofs.Report.Document
import DeviceConsole.Proofs.Report.Reachable
import DeviceConsole.Proofs.Report.Selection
import DeviceConsole.Proofs.Run.Failure
import DeviceConsole.Proofs.Run.Overflow
import DeviceConsole.Proofs.Run.Refusal
import DeviceConsole.Proofs.Settings
import DeviceConsole.Proofs.Uninstall.Endpoint
import DeviceConsole.Proofs.Uninstall.Printed
import DeviceConsole.Proofs.Uninstall.Submission
import DeviceConsole.Proofs.Run.Inputs
