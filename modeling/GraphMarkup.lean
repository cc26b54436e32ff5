import GraphMarkup.Datum
import GraphMarkup.Main
import GraphMarkup.Markup.Element
import GraphMarkup.Proofs.Markup.Emission
import GraphMarkup.Proofs.Markup.Rendering
import GraphMarkup.Walk.Levels
import GraphMarkup.Proofs.Markup.Faithful
import GraphMarkup.Proofs.Markup.Building
import GraphMarkup.Proofs.Markup.Forest
import GraphMarkup.Proofs.Walk.Growth
import GraphMarkup.Proofs.Walk.Recording
import GraphMarkup.Proofs.Walk.Outcome
import GraphMarkup.Proofs.Session.Calls
import GraphMarkup.Proofs.Session.Protocol
import GraphMarkup.Proofs.Session.Success
import GraphMarkup.Proofs.Markup.Fragment
import GraphMarkup.Proofs.Session.Failure
import GraphMarkup.Proofs.Session.Independence
import GraphMarkup.Proofs.Graph.Related
import GraphMarkup.Proofs.Walk.Agreement
import GraphMarkup.Proofs.Walk.Outline
import GraphMarkup.Proofs.Walk.Sealed
import GraphMarkup.Proofs.Markup.Fault
import GraphMarkup.Proofs.Walk.Still
import GraphMarkup.Proofs.Walk.Stopping
import GraphMarkup.Proofs.Session.Cancellation
import GraphMarkup.Proofs.Walk.Label
import GraphMarkup.Proofs.Graph.AtHand
import GraphMarkup.Proofs.Walk.Pruning
import GraphMarkup.Proofs.Walk.Notes
import GraphMarkup.Proofs.Graph.Items
import GraphMarkup.Proofs.Walk.Chart
import GraphMarkup.Proofs.Walk.Charting
import GraphMarkup.Proofs.Walk.DepthBound
import GraphMarkup.Proofs.Walk.Properties
import GraphMarkup.Proofs.Session.Promotion
import GraphMarkup.Proofs.Graph.Settled
import GraphMarkup.Proofs.Walk.Deferral
import GraphMarkup.Proofs.Markup.Acceptance
import GraphMarkup.Proofs.Walk.Closure
import GraphMarkup.Proofs.Walk.Grammar
import GraphMarkup.Proofs.Session.Vocabulary
import GraphMarkup.Proofs.Markup.Trees
import GraphMarkup.Proofs.Session.Document
import GraphMarkup.Proofs.Json.Elements
import GraphMarkup.Proofs.Json.Reading
import GraphMarkup.Proofs.Walk.Nesting
import GraphMarkup.Proofs.Walk.Unlisted
import GraphMarkup.Proofs.Walk.Journaling
import GraphMarkup.Proofs.Session.Contents
import GraphMarkup.Proofs.Walk.Overlay
import GraphMarkup.Proofs.Graph.Occurrences
import GraphMarkup.Proofs.Walk.Account
import GraphMarkup.Proofs.Walk.Reads
import GraphMarkup.Proofs.Graph.Place
import GraphMarkup.Proofs.Walk.Body
import GraphMarkup.Proofs.Walk.Known
import GraphMarkup.Proofs.Walk.Confinement
import GraphMarkup.Proofs.Walk.Pervading
import GraphMarkup.Proofs.Graph.Whole
import GraphMarkup.Proofs.Walk.Silence
import GraphMarkup.Proofs.Session.Silence
import GraphMarkup.Proofs.Datum.Conversion
import GraphMarkup.Proofs.Datum.Pairing
import GraphMarkup.Proofs.Datum.Keeping
import GraphMarkup.Proofs.Markup.Preamble
import GraphMarkup.Proofs.Session.Preamble
import GraphMarkup.Proofs.Session.Streams
import GraphMarkup.Proofs.CommandLine.Agreement
import GraphMarkup.Proofs.Markup.Pieces
import GraphMarkup.Proofs.Markup.Room
import GraphMarkup.Proofs.Markup.Refusal
import GraphMarkup.Proofs.Markup.Record
import GraphMarkup.Proofs.Markup.Indentation
import GraphMarkup.Proofs.Walk.Beside
import GraphMarkup.Proofs.Walk.Containers
import GraphMarkup.Proofs.Walk.Rebuilt
import GraphMarkup.Proofs.Walk.Padding
import GraphMarkup.Proofs.Markup.Reader
