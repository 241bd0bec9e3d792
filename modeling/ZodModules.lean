import ZodModules.Generation.Output
import ZodModules.Main
import ZodModules.Schema.Codec
import ZodModules.Proofs.Expr.Dictionaries
import ZodModules.Proofs.Expr.FirstNames
import ZodModules.Proofs.Generation.Collisions
import ZodModules.Proofs.Generation.Degradation
import ZodModules.Proofs.Generation.DiagnosticPaths
import ZodModules.Proofs.Generation.DiscriminatedUnions
import ZodModules.Proofs.Generation.DisjointTags
import ZodModules.Proofs.Generation.Distribution
import ZodModules.Proofs.Generation.EnumRenaming
import ZodModules.Proofs.Generation.Identifiers
import ZodModules.Proofs.Generation.ImportGraph
import ZodModules.Proofs.Generation.Renderings
import ZodModules.Proofs.Generation.TargetTypes
import ZodModules.Proofs.Generation.TypingModes
import ZodModules.Proofs.Generation.Uniqueness
import ZodModules.Proofs.Generation.UnresolvedReferences
import ZodModules.Proofs.Meaning.Generation
import ZodModules.Proofs.OpenApi.DanglingReferences
import ZodModules.Proofs.OpenApi.EscapedNames
import ZodModules.Proofs.OpenApi.ExactUsage
import ZodModules.Proofs.OpenApi.Guarding
import ZodModules.Proofs.OpenApi.Serialisation
import ZodModules.Proofs.Order.Canonical
import ZodModules.Proofs.Order.Rearranging
import ZodModules.Proofs.Project.Containment
import ZodModules.Proofs.Project.Effects
import ZodModules.Proofs.Project.FilePaths
import ZodModules.Proofs.Project.Writing
import ZodModules.Proofs.Registry.Closures
import ZodModules.Proofs.Model.ImportHistories
import ZodModules.Proofs.Json.Printing
import ZodModules.Proofs.Model.DocComments
import ZodModules.Proofs.Text.RegexLiterals
import ZodModules.Proofs.Text.Substitution
