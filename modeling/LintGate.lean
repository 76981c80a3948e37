import LintGate.Assembly.Description
import LintGate.Main
import LintGate.Proofs.Fallible
import LintGate.Proofs.FindingKey
import LintGate.Proofs.Gate
import LintGate.Proofs.KeyComparison
import LintGate.Proofs.SessionRun
import LintGate.Proofs.EngineRuns
import LintGate.Proofs.Protocol
import LintGate.Proofs.Suite
import LintGate.Proofs.Verdict
import LintGate.Proofs.SilentRun
import LintGate.Proofs.Agreement
import LintGate.Proofs.WrittenFile
import LintGate.Proofs.LogGrowth
import LintGate.Proofs.Escape
import LintGate.Proofs.Isolation
import LintGate.Proofs.RunLock
import LintGate.Proofs.TwoRuns
import LintGate.Proofs.WrittenDown
import LintGate.Proofs.SuiteOrder
import LintGate.Proofs.CheckSession
import LintGate.Proofs.InspectionOrder
import LintGate.Proofs.RuffForwarding
import LintGate.Proofs.ExpectationGrammar
import LintGate.Proofs.LineProjection
import LintGate.Proofs.QualifiedName
import LintGate.Proofs.NewlineConvention
import LintGate.Proofs.NormalForm
import LintGate.Proofs.Coherence
import LintGate.Proofs.PylintForwarding
import LintGate.Proofs.SettingsFallback
import LintGate.Proofs.ProjectSearch
import LintGate.Proofs.PrintedText
import LintGate.Proofs.Unification
import LintGate.Proofs.CollectorAccount
import LintGate.Proofs.LoggedSuite
