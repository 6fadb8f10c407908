import TemplateCompiler.Editor
import TemplateCompiler.Main
import TemplateCompiler.Proofs.Coverage
import TemplateCompiler.Proofs.ExpressionGrammar
import TemplateCompiler.Proofs.Yielding
import TemplateCompiler.Proofs.Requests
import TemplateCompiler.Proofs.ExpressionComplete
import TemplateCompiler.Proofs.ExpressionTotal
import TemplateCompiler.Proofs.Headers
import TemplateCompiler.Proofs.StatementTotal
import TemplateCompiler.Proofs.Outputs
import TemplateCompiler.Proofs.Nesting
import TemplateCompiler.Proofs.StatementComplete
import TemplateCompiler.Proofs.Resynchronization
import TemplateCompiler.Proofs.SpelledExpressions
import TemplateCompiler.Proofs.SpelledStatements
import TemplateCompiler.Proofs.WrittenSources
import TemplateCompiler.Proofs.RoundTrip
import TemplateCompiler.Proofs.ParseTotal
import TemplateCompiler.Proofs.RenamedTemplates
import TemplateCompiler.Proofs.RenamedUnits
import TemplateCompiler.Proofs.Accounting
import TemplateCompiler.Proofs.Files
import TemplateCompiler.Proofs.GeneratedIncludes
import TemplateCompiler.Proofs.IncludeGraph
import TemplateCompiler.Proofs.Agreement
import TemplateCompiler.Proofs.Transparency
import TemplateCompiler.Proofs.Trails
import TemplateCompiler.Proofs.Stopping
import TemplateCompiler.Proofs.Gathering
import TemplateCompiler.Proofs.KeptTexts
import TemplateCompiler.Proofs.SpanTrees
import TemplateCompiler.Proofs.SpannedExpressions
import TemplateCompiler.Proofs.SpannedTemplates
import TemplateCompiler.Proofs.JoinedLiterals
import TemplateCompiler.Proofs.NestedSpans
import TemplateCompiler.Proofs.FileNames
import TemplateCompiler.Proofs.Quotations
import TemplateCompiler.Proofs.LastDefinitions
import TemplateCompiler.Proofs.CallOrder
import TemplateCompiler.Proofs.MirroredPrograms
import TemplateCompiler.Proofs.ErasedPrograms
import TemplateCompiler.Proofs.Chronicle
import TemplateCompiler.Proofs.UsableDelimiters
import TemplateCompiler.Proofs.WhitespaceModes
import TemplateCompiler.Proofs.TracedParser
import TemplateCompiler.Proofs.ConfinedRecovery
import TemplateCompiler.Proofs.TokenValues
import TemplateCompiler.Proofs.ReadExpressions
import TemplateCompiler.Proofs.PrintedText
import TemplateCompiler.Proofs.Parentheses
import TemplateCompiler.Proofs.PrintedExpressions
import TemplateCompiler.Proofs.NulCharacters
import TemplateCompiler.Proofs.JoinedTexts
import TemplateCompiler.Proofs.Paired
import TemplateCompiler.Proofs.PairedExpressions
import TemplateCompiler.Proofs.PairedTemplates
import TemplateCompiler.Proofs.BlamedTokens
import TemplateCompiler.Proofs.PlacedCalls
import TemplateCompiler.Proofs.Excerpts
import TemplateCompiler.Proofs.Displaced
import TemplateCompiler.Proofs.Lookahead
import TemplateCompiler.Proofs.Stretches
import TemplateCompiler.Proofs.LeftOutComments
import TemplateCompiler.Proofs.Respanned
import TemplateCompiler.Proofs.JoinedTemplates
import TemplateCompiler.Proofs.BarePrograms
import TemplateCompiler.Proofs.AlikePrograms
import TemplateCompiler.Proofs.TransparentComments
import TemplateCompiler.Proofs.JoinedSources
import TemplateCompiler.Proofs.TagStructure
import TemplateCompiler.Proofs.Configurations
import TemplateCompiler.Proofs.PlacedTags
import TemplateCompiler.Proofs.Notices
import TemplateCompiler.Proofs.Trimming
import TemplateCompiler.Proofs.IncludeDepth
import TemplateCompiler.Proofs.HaltingParses
