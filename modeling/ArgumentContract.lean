import ArgumentContract.Session
import ArgumentContract.Main
import ArgumentContract.Proofs.Handling
import ArgumentContract.Proofs.Report.Resubmission
import ArgumentContract.Proofs.Resolution.Argument
import ArgumentContract.Proofs.Resolution.Verdict
import ArgumentContract.Proofs.CallStack.Names
import ArgumentContract.Proofs.CallStack.Registration
import ArgumentContract.Proofs.Session.Installation
import ArgumentContract.Proofs.Json.StringLiteral
import ArgumentContract.Proofs.Json.NumberLiteral
import ArgumentContract.Proofs.Json.Printed
import ArgumentContract.Proofs.Json.PrintedTree
import ArgumentContract.Proofs.Json.PrintedRecord
import ArgumentContract.Proofs.CallStack.RoundTrip
import ArgumentContract.Proofs.Session.Deletion
import ArgumentContract.Proofs.Report.Alias
import ArgumentContract.Proofs.Resolution.Growth
import ArgumentContract.Proofs.Message.LongestTiles
import ArgumentContract.Proofs.Value.NumeralScan
import ArgumentContract.Proofs.Json.OneLine
import ArgumentContract.Proofs.Report.ResultLine
import ArgumentContract.Proofs.CommandLine
import ArgumentContract.Proofs.Message.Departure
import ArgumentContract.Proofs.Message.Rejection
import ArgumentContract.Proofs.Json.Grammar
import ArgumentContract.Proofs.Json.SpelledLiterals
import ArgumentContract.Proofs.Report.Residue
import ArgumentContract.Proofs.CallStack.Respelling
import ArgumentContract.Proofs.Message.Restoration
import ArgumentContract.Proofs.Resolution.Hierarchy
import ArgumentContract.Proofs.Message.Concatenation
import ArgumentContract.Proofs.Report.OnePass
