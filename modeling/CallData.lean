import CallData.Call.Step
import CallData.Keccak
import CallData.Main
import CallData.Program
import CallData.Proofs.Abi.Admission
import CallData.Proofs.Abi.Binding
import CallData.Proofs.Abi.Documents
import CallData.Proofs.Abi.Exact
import CallData.Proofs.Abi.Layout
import CallData.Proofs.Abi.Nesting
import CallData.Proofs.Abi.Reader
import CallData.Proofs.Abi.Sizes
import CallData.Proofs.Attempts
import CallData.Proofs.Bytes
import CallData.Proofs.Call.Agreement
import CallData.Proofs.Call.BigEndian
import CallData.Proofs.Call.Erasure
import CallData.Proofs.Call.Outcome
import CallData.Proofs.Call.ReadBack
import CallData.Proofs.Call.Run
import CallData.Proofs.Command.Arguments
import CallData.Proofs.Command.ParameterDocument
import CallData.Proofs.Command.ParameterText
import CallData.Proofs.Command.PrintedSignature
import CallData.Proofs.Command.SplitTypes
import CallData.Proofs.CommandLine.Arrangement
import CallData.Proofs.CommandLine.JsonSwitch
import CallData.Proofs.Hex
import CallData.Proofs.Json.Completeness
import CallData.Proofs.Json.Grammar
import CallData.Proofs.Json.ReadBack
import CallData.Proofs.Json.Soundness
import CallData.Proofs.Program.Expectation
import CallData.Proofs.Program.Modes
import CallData.Proofs.Program.Runs
import CallData.Proofs.Program.SettingsAcrossRuns
import CallData.Proofs.Report
import CallData.Proofs.Report.Document
import CallData.Proofs.Results
import CallData.Proofs.Selector
import CallData.Proofs.Selector.Reading
import CallData.Proofs.Settings
import CallData.Proofs.Settings.WordLines
import CallData.Proofs.Signature.Grammar
import CallData.Proofs.Signature.Reading
import CallData.Proofs.Signature.RoundTrip
import CallData.Proofs.Text.Digits
import CallData.Proofs.Text.Trim
import CallData.Report.Step
import CallData.Selector
import CallData.Signature.Step
