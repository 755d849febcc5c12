import DomTemplate.Block.Basic
import DomTemplate.Block.Digest
import DomTemplate.Block.Flags
import DomTemplate.Block.Json
import DomTemplate.Block.Listing
import DomTemplate.Block.Refusal
import DomTemplate.Block.Shell
import DomTemplate.Command.Arguments
import DomTemplate.Command.Basic
import DomTemplate.Command.Build
import DomTemplate.Command.Init
import DomTemplate.Command.Inspect
import DomTemplate.Compile
import DomTemplate.Decimal.Literal
import DomTemplate.Decimal.Shortest
import DomTemplate.Diagnostic
import DomTemplate.Digest.Blake3
import DomTemplate.Files.Access
import DomTemplate.Files.Disk
import DomTemplate.Files.Path
import DomTemplate.Json.Document
import DomTemplate.Json.Fault
import DomTemplate.Json.Pretty
import DomTemplate.Json.Reader
import DomTemplate.Json.Scalar
import DomTemplate.Json.Shape
import DomTemplate.Json.Skip
import DomTemplate.Json.Value
import DomTemplate.Main
import DomTemplate.Project.Basic
import DomTemplate.Project.Settings
import DomTemplate.Proofs.Accepted
import DomTemplate.Proofs.Alike
import DomTemplate.Proofs.Annotations
import DomTemplate.Proofs.ArtifactFile
import DomTemplate.Proofs.BindingRun
import DomTemplate.Proofs.Bindings
import DomTemplate.Proofs.BuildRun
import DomTemplate.Proofs.Bytes
import DomTemplate.Proofs.ByteForm
import DomTemplate.Proofs.Content
import DomTemplate.Proofs.CountedStreams
import DomTemplate.Proofs.Counting
import DomTemplate.Proofs.Declared
import DomTemplate.Proofs.EarlyExit
import DomTemplate.Proofs.Files.Names
import DomTemplate.Proofs.Files.Parents
import DomTemplate.Proofs.Files.Places
import DomTemplate.Proofs.Files.ReadBack
import DomTemplate.Proofs.Files.Reads
import DomTemplate.Proofs.Files.Stores
import DomTemplate.Proofs.Inputs
import DomTemplate.Proofs.Json.Documents
import DomTemplate.Proofs.Json.Reading
import DomTemplate.Proofs.Json.Scalars
import DomTemplate.Proofs.Json.Spelling
import DomTemplate.Proofs.Keys
import DomTemplate.Proofs.Merging
import DomTemplate.Proofs.MountingRun
import DomTemplate.Proofs.NormalForm
import DomTemplate.Proofs.Outcome
import DomTemplate.Proofs.Outline.Basic
import DomTemplate.Proofs.Outline.Bind
import DomTemplate.Proofs.Outline.Mount
import DomTemplate.Proofs.Outline.Slots
import DomTemplate.Proofs.Outline.Walk
import DomTemplate.Proofs.Outlines
import DomTemplate.Proofs.OutputPaths
import DomTemplate.Proofs.Overlong
import DomTemplate.Proofs.Packing
import DomTemplate.Proofs.Page.Bare
import DomTemplate.Proofs.Page.Basic
import DomTemplate.Proofs.Page.Chronicle
import DomTemplate.Proofs.Page.Clone
import DomTemplate.Proofs.Page.Instance
import DomTemplate.Proofs.Page.Journal
import DomTemplate.Proofs.Page.Reading
import DomTemplate.Proofs.Page.Rendering
import DomTemplate.Proofs.Placeholders
import DomTemplate.Proofs.Positions
import DomTemplate.Proofs.Project.ArtifactNames
import DomTemplate.Proofs.Project.EntryArrays
import DomTemplate.Proofs.Project.LastAssignments
import DomTemplate.Proofs.Project.NearestFile
import DomTemplate.Proofs.Project.NewProject
import DomTemplate.Proofs.Refusals
import DomTemplate.Proofs.Renaming
import DomTemplate.Proofs.RoundTrip
import DomTemplate.Proofs.Sites
import DomTemplate.Proofs.Skeleton
import DomTemplate.Proofs.SlotReferences
import DomTemplate.Proofs.Slots
import DomTemplate.Proofs.TemplateExchange
import DomTemplate.Proofs.Texts
import DomTemplate.Proofs.Traces
import DomTemplate.Proofs.WalkSound
import DomTemplate.Proofs.WalkTrace
import DomTemplate.Proofs.Words
import DomTemplate.Registry
import DomTemplate.Scratch.Basic
import DomTemplate.Scratch.Bind
import DomTemplate.Scratch.Mount
import DomTemplate.Scratch.Slots
import DomTemplate.Scratch.Walk
import DomTemplate.Source
import DomTemplate.Span
import DomTemplate.Stream.Bind
import DomTemplate.Stream.Mount
import DomTemplate.Stream.Walk
import DomTemplate.Text.Blank
import DomTemplate.Text.Bytes
import DomTemplate.Text.Invisible
import DomTemplate.Text.Lines
import DomTemplate.Text.Quoted
import DomTemplate.Tree.Basic
import DomTemplate.Tree.Json
import DomTemplate.Tree.Normal
import DomTemplate.Tree.Placeholders
