import PageTemplate.Text.Blank
import PageTemplate.Text.Split
import PageTemplate.Text.Alphanumeric
import PageTemplate.Decimal.Shortest
import PageTemplate.Keyed
import PageTemplate.Markup.NamespaceScope
import PageTemplate.Markup.Reader
import PageTemplate.Markup.Writer
import PageTemplate.Expression.Data
import PageTemplate.Expression.Evaluator
import PageTemplate.Expression.Family
import PageTemplate.Expression.Cache
import PageTemplate.Render.Renderer
import PageTemplate.Template
import PageTemplate.Proofs.Markup.Rereading
import PageTemplate.Proofs.Markup.Operations
import PageTemplate.Proofs.Render.Publishing
import PageTemplate.Proofs.Walk.NearestHandler
import PageTemplate.Proofs.Walk.Running
import PageTemplate.Proofs.Walk.TemplateOnly
import PageTemplate.Proofs.Walk.FatalErrors
import PageTemplate.Proofs.Markup.OmittedScope
import PageTemplate.Proofs.Walk.Inlining
import PageTemplate.Proofs.Walk.FrozenMacros
import PageTemplate.Proofs.Walk.Places
import PageTemplate.Proofs.Markup.FragmentTwins
import PageTemplate.Proofs.Markup.TwinsBeside
import PageTemplate.Proofs.Render.DirectiveTwins
import PageTemplate.Proofs.Walk.Coupled
import PageTemplate.Proofs.Walk.Siblings
import PageTemplate.Proofs.Walk.Moments
import PageTemplate.Proofs.Walk.Independence
import PageTemplate.Proofs.Expression.Misreadings
import PageTemplate.Proofs.Walk.Recovering
import PageTemplate.Proofs.Markup.Credits
import PageTemplate.Proofs.Render.Crediting
import PageTemplate.Proofs.Walk.SourceComments
import PageTemplate.Proofs.Render.CleanOutput
import PageTemplate.Proofs.Markup.Grafting
import PageTemplate.Proofs.Render.Declaring
import PageTemplate.Proofs.Render.MacroScope
import PageTemplate.Proofs.Markup.Exchange
import PageTemplate.Proofs.Render.SlotExchange
import PageTemplate.Proofs.Render.SlotAccounting
import PageTemplate.Proofs.Render.SlotPassing
import PageTemplate.Proofs.Walk.Turns
import PageTemplate.Proofs.Walk.Parts
import PageTemplate.Proofs.Walk.ByTurns
import PageTemplate.Proofs.Render.Repeating
import PageTemplate.Proofs.Walk.Unrolling
import PageTemplate.Proofs.Walk.Repetition
import PageTemplate.Proofs.Markup.Additions
import PageTemplate.Proofs.Render.Holding
import PageTemplate.Proofs.Render.FailedExpansion
import PageTemplate.Proofs.Render.MacroTops
import PageTemplate.Proofs.Render.ExtensionChain
import PageTemplate.Proofs.Render.FailedDirective
import PageTemplate.Proofs.Markup.CopiedOrder
import PageTemplate.Proofs.Render.Likenesses
import PageTemplate.Proofs.Render.FirstDefinitions
import PageTemplate.Proofs.Markup.NotedTwins
import PageTemplate.Proofs.Render.Remarks
import PageTemplate.Proofs.Walk.NotedSteps
import PageTemplate.Proofs.Walk.NotedWalks
import PageTemplate.Proofs.Walk.SourceAnnotation
import PageTemplate.Proofs.Render.Multiplying
import PageTemplate.Proofs.Markup.Abridging
import PageTemplate.Proofs.Render.FilteredCopy
import PageTemplate.Proofs.Render.Assigning
import PageTemplate.Proofs.Render.Reassigning
import PageTemplate.Proofs.Render.RereadDirectives
import PageTemplate.Proofs.Render.SteadyReading
import PageTemplate.Proofs.Render.DefinitionLists
import PageTemplate.Proofs.Expression.PathWriting
import PageTemplate.Proofs.Expression.Substitution
import PageTemplate.Proofs.Expression.Alternatives
import PageTemplate.Proofs.Expression.Composition
import PageTemplate.Proofs.Expression.Operators
import PageTemplate.Proofs.Expression.Watching
import PageTemplate.Proofs.Expression.ScopeHistory
import PageTemplate.Proofs.Expression.CacheHistory
import PageTemplate.Proofs.Markup.FailedEdits
import PageTemplate.Proofs.Markup.CopyLayout
import PageTemplate.Proofs.Markup.Isolation
import PageTemplate.Proofs.Markup.NearestDeclarations
import PageTemplate.Proofs.Markup.SpecWriting
import PageTemplate.Proofs.Markup.FragmentShape
import PageTemplate.Proofs.Markup.EncodedText
import PageTemplate.Proofs.Output
import PageTemplate.Proofs.Expression.RepeatLetters
import PageTemplate.Proofs.Markup.DocumentOrder
import PageTemplate.Proofs.Markup.Places
import PageTemplate.Proofs.Markup.Yields
import PageTemplate.Proofs.Markup.TagPlaces
