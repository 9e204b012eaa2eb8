/-
The declarations of C headers, read from a compiler's syntax dump and written out as a model.
-/
import HeaderModel.Build.Assembly
import HeaderModel.Build.Inheritance
import HeaderModel.Build.Layout
import HeaderModel.Build.Signature
import HeaderModel.Build.State
import HeaderModel.Build.Values
import HeaderModel.BuildError
import HeaderModel.Config
import HeaderModel.Document.Basic
import HeaderModel.Document.Dump
import HeaderModel.Document.Kind
import HeaderModel.Document.Loading
import HeaderModel.Document.TypedefNames
import HeaderModel.Document.UnitName
import HeaderModel.Guid
import HeaderModel.Json.Model
import HeaderModel.Json.Value
import HeaderModel.MacroTable
import HeaderModel.Main
import HeaderModel.Markup.Entity
import HeaderModel.Markup.Event
import HeaderModel.Model.Declaration
import HeaderModel.Model.Initializer
import HeaderModel.Model.Module
import HeaderModel.Model.Slots
import HeaderModel.Notice
import HeaderModel.Run.CommandLine
import HeaderModel.Run.Files
import HeaderModel.Run.Path
import HeaderModel.Run.Pipeline
import HeaderModel.Sal.Item
import HeaderModel.Sal.Meaning
import HeaderModel.Scope
import HeaderModel.Text.Case
import HeaderModel.Text.CharSet
import HeaderModel.Text.Number
import HeaderModel.Text.Split
import HeaderModel.Toml.Quoted
import HeaderModel.Toml.Reader
import HeaderModel.Toml.Scalar
import HeaderModel.Toml.Value
import HeaderModel.Typing.Chain
import HeaderModel.Typing.Fundamental
import HeaderModel.Typing.TypeUse
import HeaderModel.Proofs.Actions
import HeaderModel.Proofs.Comparison
import HeaderModel.Proofs.Memory
import HeaderModel.Proofs.Rebuilding
import HeaderModel.Proofs.Requests
import HeaderModel.Proofs.History
import HeaderModel.Proofs.MethodSlots
import HeaderModel.Proofs.VtableSlots
import HeaderModel.Proofs.Ledger
import HeaderModel.Proofs.Declarations
import HeaderModel.Proofs.DeclaredOnce
import HeaderModel.Proofs.Lookups
import HeaderModel.Proofs.Transparency
import HeaderModel.Proofs.Fates
import HeaderModel.Proofs.Sources
import HeaderModel.Proofs.Turns
import HeaderModel.Proofs.NestedKept
import HeaderModel.Proofs.Skipped
import HeaderModel.Proofs.HeaderUnits
import HeaderModel.Proofs.TypeSites
import HeaderModel.Proofs.References
import HeaderModel.Proofs.TypeChains
import HeaderModel.Proofs.Blame
import HeaderModel.Proofs.Cycles
import HeaderModel.Proofs.Outcomes
import HeaderModel.Proofs.Halts
import HeaderModel.Proofs.Extraction
import HeaderModel.Proofs.Outline
import HeaderModel.Proofs.Walk
import HeaderModel.Proofs.Forest
import HeaderModel.Proofs.Planting
import HeaderModel.Proofs.Reload
import HeaderModel.Proofs.Agreement
import HeaderModel.Proofs.Naming
import HeaderModel.Proofs.GuidTexts
import HeaderModel.Proofs.JsonTexts
import HeaderModel.Proofs.ModelTexts
import HeaderModel.Proofs.FileTrees
import HeaderModel.Proofs.Effects
import HeaderModel.Proofs.OpenUnits
import HeaderModel.Proofs.OverloadScan
import HeaderModel.Proofs.FieldPlaces
import HeaderModel.Proofs.FieldCounts
import HeaderModel.Proofs.OtherMembers
import HeaderModel.Proofs.InPlaceBuilding
import HeaderModel.Proofs.MembersInPlace
import HeaderModel.Proofs.MacroTexts
import HeaderModel.Proofs.UnitPerHeader
import HeaderModel.Proofs.Meanings
import HeaderModel.Proofs.Descriptors
import HeaderModel.Proofs.RecordedBases
import HeaderModel.Proofs.SlotTotals
import HeaderModel.Proofs.AttributeTexts
import HeaderModel.Proofs.Brackets
import HeaderModel.Proofs.Blocks
import HeaderModel.Proofs.Initializers
import HeaderModel.Proofs.Decimals
import HeaderModel.Proofs.GuidInitializers
import HeaderModel.Proofs.LastDefinitions
import HeaderModel.Proofs.ScopeRules
import HeaderModel.Proofs.EnumNumbers
import HeaderModel.Proofs.FieldNames
import HeaderModel.Proofs.WordOrder
import HeaderModel.Proofs.Bookkeeping
