import TypedContent.Files.Tree
import TypedContent.Main
import TypedContent.Proofs.Canonical.Closed
import TypedContent.Proofs.Canonical.Normalize
import TypedContent.Proofs.Field.Distinct
import TypedContent.Proofs.Field.Level
import TypedContent.Proofs.Schema.PathWalk
import TypedContent.Proofs.Schema.Validation
import TypedContent.Proofs.Schema.Walk
import TypedContent.Proofs.Table
import TypedContent.Proofs.TypeScript.RoundTrip
import TypedContent.Proofs.Canonical.Failure
import TypedContent.Proofs.Canonical.Properties
import TypedContent.Proofs.Package.Names
import TypedContent.Proofs.Package.Partition
import TypedContent.Proofs.Canonical.Reordering
import TypedContent.Proofs.Json.Text
import TypedContent.Proofs.Json.Kept
import TypedContent.Proofs.Reading.Record
import TypedContent.Proofs.Package.DataModule
import TypedContent.Proofs.Field.Written
import TypedContent.Proofs.Schema.Written
import TypedContent.Proofs.Files.MadeAgain
import TypedContent.Proofs.Package.Interleaving
import TypedContent.Proofs.Package.Preparation
import TypedContent.Proofs.Package.GeneratedAgain
import TypedContent.Proofs.Package.Agreement
import TypedContent.Proofs.Schema.Collected
import TypedContent.Proofs.Package.Atomicity
import TypedContent.Proofs.TypeScript.Literals
import TypedContent.Proofs.Package.Specifier
import TypedContent.Proofs.Canonical.Restored
import TypedContent.Proofs.Canonical.Unreachable
import TypedContent.Proofs.Schema.Unambiguous
import TypedContent.Proofs.Canonical.Decoding
import TypedContent.Proofs.Reading.Members
import TypedContent.Proofs.Schema.Edited
import TypedContent.Proofs.Schema.Frames
import TypedContent.Proofs.Json.Grammar
import TypedContent.Proofs.Package.CacheText
import TypedContent.Proofs.Table.Insertions
import TypedContent.Proofs.TypeScript.Discriminated
import TypedContent.Proofs.Schema.Places
import TypedContent.Proofs.Field.Repeated
import TypedContent.Proofs.TypeScript.CommentEnd
import TypedContent.Proofs.Package.ReadBack
import TypedContent.Proofs.Command.Settings
