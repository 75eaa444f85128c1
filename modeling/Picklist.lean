import Picklist.Annotation.Basic
import Picklist.Annotation.Key
import Picklist.Annotation.ValueList
import Picklist.Decoder
import Picklist.Definition
import Picklist.Dict
import Picklist.Element
import Picklist.Enrichment
import Picklist.Enumeration
import Picklist.Fault
import Picklist.Filter.Basic
import Picklist.Filter.Binding
import Picklist.Json.Basic
import Picklist.Json.Document
import Picklist.Json.Reader
import Picklist.Json.Token
import Picklist.Json.Writer
import Picklist.Members
import Picklist.Number.Basic
import Picklist.Number.Binary64
import Picklist.Number.Shortest
import Picklist.Number.Text
import Picklist.Plugin
import Picklist.Problem
import Picklist.Proofs.Annotation.Descriptor
import Picklist.Proofs.Annotation.Given
import Picklist.Proofs.Annotation.Lossless
import Picklist.Proofs.Annotation.ReadBack
import Picklist.Proofs.Annotation.Reorder
import Picklist.Proofs.Annotation.Store
import Picklist.Proofs.CrossReference
import Picklist.Proofs.Dict
import Picklist.Proofs.Dispatch
import Picklist.Proofs.Document
import Picklist.Proofs.Enrichment.Answers
import Picklist.Proofs.Enrichment.Defined
import Picklist.Proofs.Enrichment.Effect
import Picklist.Proofs.Enrichment.Eligible
import Picklist.Proofs.Enrichment.FixedValues
import Picklist.Proofs.Enrichment.Reload
import Picklist.Proofs.Enrichment.Report
import Picklist.Proofs.Enrichment.Rerun
import Picklist.Proofs.Enrichment.Runs
import Picklist.Proofs.Enumeration.Lossless
import Picklist.Proofs.Enumeration.Order
import Picklist.Proofs.Enumeration.ReadBack
import Picklist.Proofs.Enumeration.Survival
import Picklist.Proofs.Filter.Address
import Picklist.Proofs.Filter.Combine
import Picklist.Proofs.Filter.Noninterference
import Picklist.Proofs.Filter.Parenthesis
import Picklist.Proofs.Filter.Scan
import Picklist.Proofs.Filter.Seam
import Picklist.Proofs.Json.Alike
import Picklist.Proofs.Json.Distinct
import Picklist.Proofs.Json.NormalForm
import Picklist.Proofs.Json.Outline
import Picklist.Proofs.Json.Text
import Picklist.Proofs.Layout
import Picklist.Proofs.Lifecycle
import Picklist.Proofs.Lookup
import Picklist.Proofs.Lossless
import Picklist.Proofs.Members
import Picklist.Proofs.Narrowing
import Picklist.Proofs.Node
import Picklist.Proofs.Number.Integer
import Picklist.Proofs.Number.Rounding
import Picklist.Proofs.Number.Shortest
import Picklist.Proofs.Number.Text
import Picklist.Proofs.Number.Value
import Picklist.Proofs.Ownership
import Picklist.Proofs.QualifiedName
import Picklist.Proofs.ReadBack
import Picklist.Proofs.Record
import Picklist.Proofs.Resolution
import Picklist.Proofs.Schema.Equality
import Picklist.Proofs.Schema.Grammar
import Picklist.Proofs.Schema.Layout
import Picklist.Proofs.Schema.Lossless
import Picklist.Proofs.Schema.ReadBack
import Picklist.Proofs.Schema.Repeats
import Picklist.Proofs.Schema.Saving
import Picklist.Proofs.Service
import Picklist.Proofs.ValueFilter
import Picklist.QualifiedName
import Picklist.Query
import Picklist.Resolution
import Picklist.Row
import Picklist.Scalar
import Picklist.Schema
import Picklist.Service
import Picklist.Settings.Basic
import Picklist.Settings.Reader
import Picklist.Text.Hex
import Picklist.Text.Place
import Picklist.Text.Quoted
import Picklist.Text.Visible
import Picklist.Toml.Basic
import Picklist.Toml.Reader
import Picklist.Toml.Scalar
import Picklist.Toml.Text
