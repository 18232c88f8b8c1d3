import VersionedContent.CommandLine.FileTree
import VersionedContent.Dictionary
import VersionedContent.ElementsCache
import VersionedContent.Main
import VersionedContent.Page
import VersionedContent.Proofs.BranchRemoval
import VersionedContent.Proofs.BranchReplacement
import VersionedContent.Proofs.BranchWalks
import VersionedContent.Proofs.ChainOrder
import VersionedContent.Proofs.ChurnRuns
import VersionedContent.Proofs.ClockRuns
import VersionedContent.Proofs.CollectionLag
import VersionedContent.Proofs.CollectionPasses
import VersionedContent.Proofs.DataTypeRefresh
import VersionedContent.Proofs.DecimalDigits
import VersionedContent.Proofs.DictionaryRuns
import VersionedContent.Proofs.DumpTexts
import VersionedContent.Proofs.EngineRuns
import VersionedContent.Proofs.FloorAdvance
import VersionedContent.Proofs.FullLoads
import VersionedContent.Proofs.FullRelease
import VersionedContent.Proofs.JsonTexts
import VersionedContent.Proofs.KitPlacement
import VersionedContent.Proofs.ListingOrder
import VersionedContent.Proofs.MappedVersions
import VersionedContent.Proofs.NestedInitialisers
import VersionedContent.Proofs.NewKits
import VersionedContent.Proofs.NewSnapshots
import VersionedContent.Proofs.NodeKeys
import VersionedContent.Proofs.Outlines
import VersionedContent.Proofs.ParentWalks
import VersionedContent.Proofs.PinQueue
import VersionedContent.Proofs.PlainEdits
import VersionedContent.Proofs.PlantedTrees
import VersionedContent.Proofs.ReadValues
import VersionedContent.Proofs.RecordReading
import VersionedContent.Proofs.Removals
import VersionedContent.Proofs.RepeatedPruning
import VersionedContent.Proofs.StoreRuns
import VersionedContent.Proofs.SyntheticKits
import VersionedContent.Proofs.SyntheticLoads
import VersionedContent.Proofs.TableSimulation
import VersionedContent.Proofs.TreeLinks
import VersionedContent.Proofs.TreeListings
import VersionedContent.Proofs.TypeBinding
import VersionedContent.Proofs.TypeHandles
import VersionedContent.Proofs.TypeIndexing
import VersionedContent.Proofs.TypeRemoval
import VersionedContent.Proofs.TypedNodes
import VersionedContent.Proofs.UnseenDrafts
import VersionedContent.Proofs.WriterTables
import VersionedContent.Proofs.WriterTranscripts
import VersionedContent.Proofs.WrittenForms
