import PayloadSchema.Extraction.Attributes
import PayloadSchema.Extraction.Edit
import PayloadSchema.Extraction.Queue
import PayloadSchema.Extraction.Rule
import PayloadSchema.Extraction.Store
import PayloadSchema.Extraction.Workspace
import PayloadSchema.Fault
import PayloadSchema.Log.Basic
import PayloadSchema.Log.Output
import PayloadSchema.Message.Basic
import PayloadSchema.Message.Mode
import PayloadSchema.Payload.Envelope
import PayloadSchema.Payload.Marker
import PayloadSchema.Problem
import PayloadSchema.Proofs.Extraction.AcceptedDocuments
import PayloadSchema.Proofs.Extraction.Agendas
import PayloadSchema.Proofs.Extraction.AttributeOrigins
import PayloadSchema.Proofs.Extraction.Calls
import PayloadSchema.Proofs.Extraction.CanonicalCopies
import PayloadSchema.Proofs.Extraction.Circles
import PayloadSchema.Proofs.Extraction.Completion
import PayloadSchema.Proofs.Extraction.Equivalence
import PayloadSchema.Proofs.Extraction.FinishedTrees
import PayloadSchema.Proofs.Extraction.GatheredElements
import PayloadSchema.Proofs.Extraction.Grafting
import PayloadSchema.Proofs.Extraction.Idempotence
import PayloadSchema.Proofs.Extraction.NoReferences
import PayloadSchema.Proofs.Extraction.PlacedEdits
import PayloadSchema.Proofs.Extraction.PresentableTargets
import PayloadSchema.Proofs.Extraction.QueuedItems
import PayloadSchema.Proofs.Extraction.Refinement
import PayloadSchema.Proofs.Extraction.SelfExtension
import PayloadSchema.Proofs.Extraction.SimpleContentAttributes
import PayloadSchema.Proofs.Extraction.Steps
import PayloadSchema.Proofs.Extraction.SubstitutionGroups
import PayloadSchema.Proofs.Extraction.Termination
import PayloadSchema.Proofs.Extraction.WorkLimit
import PayloadSchema.Proofs.Extraction.WritableCopies
import PayloadSchema.Proofs.Inlining.Acceptance
import PayloadSchema.Proofs.Inlining.CanonicalTrees
import PayloadSchema.Proofs.Inlining.Content
import PayloadSchema.Proofs.Inlining.ErasedAttributes
import PayloadSchema.Proofs.Inlining.Inliner
import PayloadSchema.Proofs.Inlining.SimpleContent
import PayloadSchema.Proofs.Inlining.Totality
import PayloadSchema.Proofs.Payload.Assembly
import PayloadSchema.Proofs.Payload.Finding
import PayloadSchema.Proofs.Payload.Layout
import PayloadSchema.Proofs.Payload.Marking
import PayloadSchema.Proofs.Payload.Matching
import PayloadSchema.Proofs.Payload.Ownership
import PayloadSchema.Proofs.Payload.Shape
import PayloadSchema.Proofs.Payload.UnmarkedParts
import PayloadSchema.Proofs.Rules.DefiniteEdits
import PayloadSchema.Proofs.Rules.Descent
import PayloadSchema.Proofs.Rules.Following
import PayloadSchema.Proofs.Rules.LawfulAttributes
import PayloadSchema.Proofs.Rules.LawfulEdits
import PayloadSchema.Proofs.Rules.LawfulRules
import PayloadSchema.Proofs.Rules.Outlines
import PayloadSchema.Proofs.Schema.EffectiveAttributes
import PayloadSchema.Proofs.Schema.InnerConstructs
import PayloadSchema.Proofs.Schema.Language
import PayloadSchema.Proofs.Schema.OccurrenceBounds
import PayloadSchema.Proofs.Schema.PrefixedNames
import PayloadSchema.Proofs.Schema.Reading
import PayloadSchema.Proofs.Schema.References
import PayloadSchema.Proofs.Schema.Roles
import PayloadSchema.Proofs.Schema.Walk
import PayloadSchema.Proofs.Service.Contexts
import PayloadSchema.Proofs.Service.Generation
import PayloadSchema.Proofs.Service.Isolation
import PayloadSchema.Proofs.Settings.Environments
import PayloadSchema.Proofs.Store.Forests
import PayloadSchema.Proofs.Store.Trees
import PayloadSchema.Proofs.Written.Agreement
import PayloadSchema.Proofs.Written.FinishedTrees
import PayloadSchema.Proofs.Written.Roundtrip
import PayloadSchema.Proofs.Wsdl.DocumentFaults
import PayloadSchema.Proofs.Wsdl.MessageParts
import PayloadSchema.Proofs.Wsdl.ResolvedNames
import PayloadSchema.Proofs.Xml.Decoding
import PayloadSchema.Proofs.Xml.InheritedDeclarations
import PayloadSchema.Proofs.Xml.NearestDeclarations
import PayloadSchema.Proofs.Xml.PrintedDocuments
import PayloadSchema.QName
import PayloadSchema.Schema.Basic
import PayloadSchema.Schema.Kind
import PayloadSchema.Schema.Node
import PayloadSchema.Schema.Reader
import PayloadSchema.Schema.Walk
import PayloadSchema.Schema.Writer
import PayloadSchema.Service.Context
import PayloadSchema.Service.Generate
import PayloadSchema.Service.Summary
import PayloadSchema.Settings.Basic
import PayloadSchema.Settings.Environment
import PayloadSchema.Table
import PayloadSchema.Text.Blank
import PayloadSchema.Text.Digit
import PayloadSchema.Text.Integer
import PayloadSchema.Text.Printable
import PayloadSchema.Text.Quoted
import PayloadSchema.Wsdl.Binding
import PayloadSchema.Wsdl.Definition
import PayloadSchema.Wsdl.Reader
import PayloadSchema.Xml.Charset
import PayloadSchema.Xml.Declaration
import PayloadSchema.Xml.Doctype
import PayloadSchema.Xml.Document
import PayloadSchema.Xml.Encoding
import PayloadSchema.Xml.Event
import PayloadSchema.Xml.Expanded
import PayloadSchema.Xml.Markup
import PayloadSchema.Xml.NameChar
import PayloadSchema.Xml.Printer
import PayloadSchema.Xml.Reference
import PayloadSchema.Xml.Scope
import PayloadSchema.Xml.Tree
