import RowPolicy.Main
import RowPolicy.Proofs.DictLookup
import RowPolicy.Proofs.TextSpan
import RowPolicy.Proofs.TemplateGrammar
import RowPolicy.Proofs.Pairing
import RowPolicy.Proofs.CompiledForm
import RowPolicy.Proofs.RuleGrammar
import RowPolicy.Proofs.TemplateSpacing
import RowPolicy.Proofs.SafeRules
import RowPolicy.Proofs.Evaluation
import RowPolicy.Proofs.Denotation
import RowPolicy.Proofs.Footprint
import RowPolicy.Proofs.Monotonicity
import RowPolicy.Proofs.NullAbsence
import RowPolicy.Proofs.DirectReading
import RowPolicy.Proofs.NumberText
import RowPolicy.Proofs.StringText
import RowPolicy.Proofs.JsonText
import RowPolicy.Proofs.Fingerprint
import RowPolicy.Proofs.PolicyText
import RowPolicy.Proofs.JsonOrder
import RowPolicy.Proofs.ExchangeForm
import RowPolicy.Proofs.RulePositions
import RowPolicy.Proofs.FirstViolation
import RowPolicy.Proofs.CompileErrors
import RowPolicy.Proofs.TracePaths
import RowPolicy.Proofs.ErrorLocations
import RowPolicy.Proofs.ReadingSurface
import RowPolicy.Proofs.ErrorOrder
import RowPolicy.Proofs.WrittenValues
import RowPolicy.Proofs.WrittenRules
import RowPolicy.Proofs.TokenText
import RowPolicy.Proofs.TokenTree
import RowPolicy.Proofs.CompiledText
import RowPolicy.Proofs.NamespaceGate
import RowPolicy.Proofs.SpelledValues
import RowPolicy.Proofs.CommandAgreement
import RowPolicy.Proofs.RegistryRuns
import RowPolicy.Proofs.Generations
import RowPolicy.Proofs.DirectoryLoading
import RowPolicy.Proofs.DirectoryErrors
import RowPolicy.Proofs.DirectoryDecisions
import RowPolicy.Proofs.PositionText
import RowPolicy.Proofs.DecidingLeaf
import RowPolicy.Proofs.TemplateLanguage
import RowPolicy.Proofs.TemplateFaults
import RowPolicy.Proofs.NameLists
import RowPolicy.Proofs.SettingValues
import RowPolicy.Proofs.SettingsOverrides
import RowPolicy.Proofs.SchemaForm
import RowPolicy.Proofs.SchemaTexts
import RowPolicy.Proofs.EntityFaults
import RowPolicy.Proofs.SchemaDocuments
import RowPolicy.Proofs.ValidationReport
