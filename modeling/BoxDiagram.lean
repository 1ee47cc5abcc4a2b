import BoxDiagram.DiagramId
import BoxDiagram.Edit.Request
import BoxDiagram.Graph.Canonical
import BoxDiagram.Graph.Compile
import BoxDiagram.Graph.View
import BoxDiagram.Json.Reader
import BoxDiagram.Key
import BoxDiagram.Main
import BoxDiagram.Patch
import BoxDiagram.Picture.Renderer
import BoxDiagram.Statement.Parser
import BoxDiagram.Statement.Printer
import BoxDiagram.Store.Disk
import BoxDiagram.Store.Save
import BoxDiagram.Text.Base64
import BoxDiagram.Text.Lines
import BoxDiagram.Text.Shortest
import BoxDiagram.Text.Utf8
import BoxDiagram.TextMap
import BoxDiagram.Tool.Server
import BoxDiagram.Proofs.Patch.Remainder
import BoxDiagram.Proofs.Store.Export
import BoxDiagram.Proofs.Edit.Written
import BoxDiagram.Proofs.Store.Isolation
import BoxDiagram.Proofs.Graph.View
import BoxDiagram.Proofs.Edit.Deletion
import BoxDiagram.Proofs.Store.Fallback
import BoxDiagram.Proofs.Edit.Addition
import BoxDiagram.Proofs.Edit.Moving
import BoxDiagram.Proofs.Edit.Renaming
import BoxDiagram.Proofs.Edit.Setting
import BoxDiagram.Proofs.Edit.Undoing
import BoxDiagram.Proofs.Graph.Notation
import BoxDiagram.Proofs.Store.Reported
import BoxDiagram.Proofs.Graph.AttributeBlock
import BoxDiagram.Proofs.Picture.Enclosure
import BoxDiagram.Proofs.Graph.Descent
import BoxDiagram.Proofs.Span
import BoxDiagram.Proofs.Edit.NormalForm
import BoxDiagram.Proofs.Patch.Counted
import BoxDiagram.Proofs.Statement.OpenQuote
import BoxDiagram.Proofs.Picture.Svg
import BoxDiagram.Proofs.Picture.Parts
import BoxDiagram.Proofs.Picture.Structure
