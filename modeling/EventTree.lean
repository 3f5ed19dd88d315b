import EventTree.Main
import EventTree.Mount.Request
import EventTree.Remote.SharedClient
import EventTree.Remote.ScriptedServer
import EventTree.Index.Scripted
import EventTree.Proofs.Index.Mirrored
import EventTree.Proofs.Index.Shown
import EventTree.Proofs.Tree.Listed
import EventTree.Proofs.Mount.Transparency
import EventTree.Proofs.Mount.References
import EventTree.Proofs.Mount.Handles
import EventTree.Proofs.Remote.OneOutcome
import EventTree.Proofs.Remote.FrameStream
import EventTree.Proofs.Remote.Lifecycle
import EventTree.Proofs.Wire.RoundTrip
import EventTree.Proofs.Wire.CutOut
import EventTree.Proofs.Mount.NewNumbers
import EventTree.Proofs.Mount.ReadOnly
import EventTree.Proofs.Path.Names
import EventTree.Proofs.Tree.Nodes
import EventTree.Proofs.Tree.Operations
import EventTree.Proofs.Tree.FailurePolicy
import EventTree.Proofs.Index.Freshness
import EventTree.Proofs.Mount.TableUpdates
import EventTree.Proofs.Mount.LastNumber
import EventTree.Proofs.Mount.DistinctNodes
import EventTree.Proofs.Mount.Enclosing
import EventTree.Proofs.Tree.RecordListing
import EventTree.Proofs.Tree.Agreement
import EventTree.Proofs.Wire.FieldForms
import EventTree.Proofs.Wire.UnknownFields
import EventTree.Proofs.Event.JsonRoundTrip
import EventTree.Proofs.Wire.Concatenation
import EventTree.Proofs.Tree.Grammar
import EventTree.Proofs.Mount.Spellings
import EventTree.Proofs.Mount.Paging
import EventTree.Proofs.Mount.Failures
import EventTree.Proofs.Tree.Groups
import EventTree.Proofs.Number.SixPlaces
