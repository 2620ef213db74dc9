import TypeOnly.CommandLine
import TypeOnly.Main
import TypeOnly.Text.Lossy
import TypeOnly.Proofs.ListFacts
import TypeOnly.Proofs.TextPieces
import TypeOnly.Proofs.TextSpans
import TypeOnly.Proofs.TextBytes
import TypeOnly.Proofs.PathSegments
import TypeOnly.Proofs.NormalPaths
import TypeOnly.Proofs.DiskEntries
import TypeOnly.Proofs.DiskPaths
import TypeOnly.Proofs.DictionaryLookup
import TypeOnly.Proofs.LookupBounds
import TypeOnly.Proofs.DeclaredModules
import TypeOnly.Proofs.LookupTermination
import TypeOnly.Proofs.NegativeAnswers
import TypeOnly.Proofs.LookupAgreement
import TypeOnly.Proofs.LoadedPrograms
import TypeOnly.Proofs.PathIndexes
import TypeOnly.Proofs.ProvidedNames
import TypeOnly.Proofs.ExportChains
import TypeOnly.Proofs.DiagnosticOrder
import TypeOnly.Proofs.DiagnosticSources
import TypeOnly.Proofs.MarkedPrograms
import TypeOnly.Proofs.FileDrafts
import TypeOnly.Proofs.ReplacedFiles
import TypeOnly.Proofs.ReloadedPrograms
import TypeOnly.Proofs.DiskEdits
import TypeOnly.Proofs.VolumePaths
import TypeOnly.Proofs.VolumeDrafts
import TypeOnly.Proofs.DiskVolumes
import TypeOnly.Proofs.VolumeEdits
import TypeOnly.Proofs.SecondRun
import TypeOnly.Proofs.StaleFiles
import TypeOnly.Proofs.TypeMarkers
import TypeOnly.Proofs.LibraryFiles
import TypeOnly.Proofs.OutlineSpans
import TypeOnly.Proofs.PlannedEdits
import TypeOnly.Proofs.LoadClosure
import TypeOnly.Proofs.FileOrder
import TypeOnly.Proofs.RootOrder
import TypeOnly.Proofs.JsonTokens
import TypeOnly.Proofs.JsonReading
import TypeOnly.Proofs.CommentedJson
import TypeOnly.Proofs.ConfigStatements
import TypeOnly.Proofs.ExtendedConfigs
import TypeOnly.Proofs.CircularConfigs
import TypeOnly.Proofs.MergedConfigs
import TypeOnly.Proofs.SelectedFiles
import TypeOnly.Proofs.Ancestors
import TypeOnly.Proofs.FileVariants
import TypeOnly.Proofs.BlankedComments
import TypeOnly.Proofs.CommentBytes
import TypeOnly.Proofs.PatternMatching
import TypeOnly.Proofs.CompiledPatterns
import TypeOnly.Proofs.PatternExpansion
import TypeOnly.Proofs.IncludeSpecs
import TypeOnly.Proofs.VerbatimSpecs
import TypeOnly.Proofs.GatheredEdits
import TypeOnly.Proofs.CanonicalReport
import TypeOnly.Proofs.SpecifierTargets
import TypeOnly.Proofs.Destination
import TypeOnly.Proofs.WayBack
import TypeOnly.Proofs.RememberedPackages
import TypeOnly.Proofs.PackageExports
import TypeOnly.Proofs.ModuleRequests
import TypeOnly.Proofs.AutomaticTypes
import TypeOnly.Proofs.SourceNames
import TypeOnly.Proofs.PathMappings
import TypeOnly.Proofs.JoinedDeclarations
import TypeOnly.Proofs.StarCapture
import TypeOnly.Proofs.LinePositions
import TypeOnly.Proofs.AmbientChoice
