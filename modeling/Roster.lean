import Roster.Main
import Roster.Proofs.Lists.Repetition
import Roster.Proofs.Lists.StandaloneTests
import Roster.Proofs.Plan.IncludeOrder
import Roster.Proofs.Plan.IncludeGraph
import Roster.Proofs.Source.Recording
import Roster.Proofs.Source.ScrapedDeclarations
import Roster.Proofs.Lists.UpgradeLookup
import Roster.Proofs.Lists.FixedPoint
import Roster.Proofs.Lists.GroupingOrder
import Roster.Proofs.Lists.UnionCoverage
import Roster.Proofs.File.Walks
import Roster.Proofs.Source.ScrapedTargets
import Roster.Proofs.Source.TargetClassnames
import Roster.Proofs.Source.ScrapedClassnames
import Roster.Proofs.Source.DuplicateReports
import Roster.Proofs.Source.RootOrder
import Roster.Proofs.File.CanonicalPaths
import Roster.Proofs.Source.ScrapeBases
import Roster.Proofs.Source.RepeatedBases
import Roster.Proofs.Lists.DerivedTests
import Roster.Proofs.Lists.ExplicitProfiles
import Roster.Proofs.Lists.ExpandedExclusions
import Roster.Proofs.Plan.AgreedVersion
import Roster.Proofs.CommandLine.InstallRequests
import Roster.Proofs.WrittenDocuments
import Roster.Proofs.CommandLine.EffectiveSettings
import Roster.Proofs.Lists.FiredGroupings
import Roster.Proofs.Source.LineDeclarations
import Roster.Proofs.Source.BlockComments
import Roster.Proofs.Lists.RunOrder
import Roster.Proofs.Lists.PlanProfiles
import Roster.Proofs.Source.AppendedCases
import Roster.Proofs.Lists.TaggedInstalls
import Roster.Proofs.Lists.DecoratedProfiles
import Roster.Proofs.Source.HiddenLines
import Roster.Proofs.Plan.UnquotedVersions
import Roster.Proofs.Plan.PlanFiles
import Roster.Proofs.Lists.ResolutionReports
