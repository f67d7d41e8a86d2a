import InheritDoc.Attachment
import InheritDoc.Catalog.Ancestry
import InheritDoc.Catalog.Basic
import InheritDoc.Catalog.Build
import InheritDoc.Command.Arguments
import InheritDoc.Command.Execute
import InheritDoc.Element.Descriptor
import InheritDoc.Element.Json
import InheritDoc.Element.Kind
import InheritDoc.Element.TypeRef
import InheritDoc.Host.Basic
import InheritDoc.Host.Location
import InheritDoc.Host.Machine
import InheritDoc.Id.Encode
import InheritDoc.Id.Target
import InheritDoc.Inheritance.Candidates
import InheritDoc.Inheritance.Expansion
import InheritDoc.Inheritance.Resolved
import InheritDoc.Json.Basic
import InheritDoc.Json.Reader
import InheritDoc.Json.Record
import InheritDoc.Json.Writer
import InheritDoc.Main
import InheritDoc.Markup.DocFile
import InheritDoc.Markup.Entity
import InheritDoc.Markup.Json
import InheritDoc.Markup.Node
import InheritDoc.Markup.Reader
import InheritDoc.Markup.Sections
import InheritDoc.Markup.Token
import InheritDoc.Markup.Writer
import InheritDoc.Path.Basic
import InheritDoc.Path.Reader
import InheritDoc.Proofs.Inheritance.Calls
import InheritDoc.Proofs.Inheritance.History
import InheritDoc.Proofs.Inheritance.Markers
import InheritDoc.Proofs.Inheritance.Recursion
import InheritDoc.Proofs.Inheritance.Rule
import InheritDoc.Proofs.Inheritance.Stepwise
import InheritDoc.Proofs.Inheritance.Unmemoized
import InheritDoc.Proofs.Inheritance.Replacement
import InheritDoc.Proofs.Markup.Forest
import InheritDoc.Proofs.Path.Selection
import InheritDoc.Run.Error
import InheritDoc.Run.Export
import InheritDoc.Settings.Basic
import InheritDoc.Settings.File
import InheritDoc.Settings.Variable
import InheritDoc.Text.Alphanumeric
import InheritDoc.Text.Blank
import InheritDoc.Text.Cut
import InheritDoc.Text.Numeral
import InheritDoc.Toml.Edition
import InheritDoc.Toml.Lexeme
import InheritDoc.Toml.Reader
import InheritDoc.Toml.Table
import InheritDoc.Proofs.Id.Encode
import InheritDoc.Proofs.Id.Spelling
import InheritDoc.Proofs.Id.Reading
import InheritDoc.Proofs.Catalog.Entries
import InheritDoc.Proofs.Catalog.Addressing
import InheritDoc.Proofs.Json.Fields
import InheritDoc.Proofs.Element.Induction
import InheritDoc.Proofs.Element.RoundTrip
import InheritDoc.Proofs.Catalog.Order
import InheritDoc.Proofs.Id.Path
import InheritDoc.Proofs.Id.Unambiguity
import InheritDoc.Proofs.Id.Signature
import InheritDoc.Proofs.Markup.Escape
import InheritDoc.Proofs.Markup.Scanning
import InheritDoc.Proofs.Markup.RoundTrip
import InheritDoc.Proofs.Markup.Normalization
import InheritDoc.Proofs.Inheritance.Provenance
import InheritDoc.Proofs.Catalog.Listing
import InheritDoc.Proofs.Catalog.Bases
import InheritDoc.Proofs.Catalog.Consistency
import InheritDoc.Proofs.Catalog.Linearization
import InheritDoc.Proofs.Catalog.Precedence
import InheritDoc.Proofs.Inheritance.Crefs
import InheritDoc.Proofs.Element.TextOrder
import InheritDoc.Proofs.Id.Reference
import InheritDoc.Proofs.Catalog.Members
import InheritDoc.Proofs.Catalog.Nearest
import InheritDoc.Proofs.Catalog.Overrides
import InheritDoc.Proofs.Path.DocumentOrder
import InheritDoc.Proofs.Path.Content
import InheritDoc.Proofs.Text.Solid
import InheritDoc.Proofs.Path.Writing
import InheritDoc.Proofs.Path.RoundTrip
import InheritDoc.Proofs.Attachment
import InheritDoc.Proofs.Markup.DocFile
import InheritDoc.Proofs.Catalog.Failure
import InheritDoc.Proofs.Id.Totality
import InheritDoc.Proofs.Markup.Locality
import InheritDoc.Proofs.Markup.Composition
import InheritDoc.Proofs.Markup.Faults
import InheritDoc.Proofs.Id.Normalization
import InheritDoc.Proofs.Markup.Decoding
