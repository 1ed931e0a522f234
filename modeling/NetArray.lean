import NetArray.Array.BitRange
import NetArray.Array.ElemType
import NetArray.Array.Error
import NetArray.Array.Lowering
import NetArray.Array.Store
import NetArray.Array.View
import NetArray.Array.Workspace
import NetArray.Array.Write
import NetArray.CommandLine.Answer
import NetArray.CommandLine.Help
import NetArray.CommandLine.Request
import NetArray.CommandLine.Words
import NetArray.Designs
import NetArray.Fault
import NetArray.Index.Error
import NetArray.Index.OffsetMap
import NetArray.Index.RowMajor
import NetArray.Index.Selection
import NetArray.Json
import NetArray.Logic
import NetArray.Names
import NetArray.Netlist.Basic
import NetArray.Netlist.Builder
import NetArray.Netlist.Codec
import NetArray.Netlist.DataType
import NetArray.Netlist.Dump
import NetArray.Netlist.Error
import NetArray.Netlist.Id
import NetArray.Netlist.Provenance
import NetArray.Settings
import NetArray.Toml.Document
import NetArray.Toml.Reader
import NetArray.Toml.Scalar
import NetArray.Toml.Text
import NetArray.Toml.Value
import NetArray.Main
import NetArray.Proofs.Index.Coordinates
import NetArray.Proofs.Index.RowMajorOrder
import NetArray.Proofs.Index.OffsetMaps
import NetArray.Proofs.Index.Odometers
import NetArray.Proofs.Index.Regions
import NetArray.Proofs.Index.RegionOutcomes
import NetArray.Proofs.Netlist.Growth
import NetArray.Proofs.Netlist.Carries
import NetArray.Proofs.Netlist.OperationBits
import NetArray.Proofs.Netlist.Runs
import NetArray.Proofs.Array.EagerArray
import NetArray.Proofs.Array.RangeBits
import NetArray.Proofs.Array.Stores
import NetArray.Proofs.Array.Workspaces
import NetArray.Proofs.Array.Views
import NetArray.Proofs.Array.LoweredBits
import NetArray.Proofs.Array.Scenes
import NetArray.Proofs.Array.BitExact
import NetArray.Proofs.Array.LazyViews
import NetArray.Proofs.Array.WriteThrough
import NetArray.Proofs.Netlist.Edits
import NetArray.Proofs.Netlist.WellFormed
import NetArray.Proofs.Array.Aliasing
import NetArray.Proofs.Array.LoweringOutcome
import NetArray.Proofs.Array.RegionRoundTrip
import NetArray.Proofs.Array.LoweringRuns
import NetArray.Proofs.Array.LoweringCosts
import NetArray.Proofs.Array.DrivenOutputs
import NetArray.Proofs.Netlist.PortDriving
import NetArray.Proofs.Netlist.FreshNames
import NetArray.Proofs.Netlist.DistinctNames
import NetArray.Proofs.Array.ActionParts
import NetArray.Proofs.Array.WireNames
import NetArray.Proofs.Netlist.Layouts
import NetArray.Proofs.Array.Shapes
import NetArray.Proofs.Array.Imports
import NetArray.Proofs.Array.Frames
import NetArray.Proofs.Array.Operands
import NetArray.Proofs.Array.Joins
import NetArray.Proofs.Netlist.Reloading
import NetArray.Proofs.Netlist.Interning
import NetArray.Proofs.Index.AxisPermutations
import NetArray.Proofs.Index.CyclicRolls
import NetArray.Proofs.Index.ElementCounts
import NetArray.Proofs.Array.MadeArrays
import NetArray.Proofs.Array.Revisions
import NetArray.Proofs.Array.LoweredStates
import NetArray.Proofs.Array.WriteOutcomes
import NetArray.Proofs.Array.WritePaths
import NetArray.Proofs.Array.StoreWrites
import NetArray.Proofs.Array.SourceBounds
import NetArray.Proofs.Array.JoinedWidths
import NetArray.Proofs.Array.ShapeOutcomes
import NetArray.Proofs.Array.Messages
import NetArray.Proofs.Netlist.Finishing
import NetArray.Proofs.Netlist.GroundedSignals
import NetArray.Proofs.Netlist.FinishedNetlists
import NetArray.Proofs.Netlist.Interfaces
import NetArray.Proofs.Array.Fillings
import NetArray.Proofs.Designs.Stages
import NetArray.Proofs.Designs.Blueprints
import NetArray.Proofs.Array.MinimalMerge
import NetArray.Proofs.Netlist.NameSessions
import NetArray.Proofs.Netlist.Spellings
import NetArray.Proofs.Netlist.ArrayTypes
import NetArray.Proofs.Netlist.Listings
import NetArray.Proofs.Netlist.ListingTexts
import NetArray.Proofs.Netlist.EqualTexts
