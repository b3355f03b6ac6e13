import Nondet.Tree.Render
import Nondet.Tree.Scope
import Nondet.Native.Specimen
import Nondet.Quotation
import Nondet.Session
import Nondet.Report
import Nondet.Proofs.Pull.Move
import Nondet.Proofs.Pull.Gives
import Nondet.Proofs.Context.Action
import Nondet.Proofs.Context.Level
import Nondet.Proofs.Context.Failing
import Nondet.Proofs.Pull.Contract
import Nondet.Proofs.Termination
import Nondet.Proofs.Context.Fits
import Nondet.Proofs.Pull.Fits
import Nondet.Proofs.Pull.Place
import Nondet.Proofs.Native.Prelude
import Nondet.Proofs.Pull.Program
import Nondet.Proofs.Session.Dialogue
import Nondet.Proofs.Session.Discipline
import Nondet.Proofs.Rollback
import Nondet.Proofs.Flatten
import Nondet.Proofs.Search
import Nondet.Proofs.Search.Link
import Nondet.Proofs.Search.Evolves
import Nondet.Proofs.Search.Answers
import Nondet.Proofs.Search.Lists
import Nondet.Proofs.Search.Simulation
import Nondet.Proofs.Search.Script
import Nondet.Proofs.Direct
import Nondet.Proofs.Direct.Performs
import Nondet.Proofs.Direct.Agreement
import Nondet.Proofs.Tree.Site
import Nondet.Proofs.Frame.Names
import Nondet.Proofs.Frame.Scopes
import Nondet.Proofs.Context.Values
import Nondet.Proofs.Context.Scopes
import Nondet.Proofs.Pull.Names
import Nondet.Proofs.Pull.Scopes
import Nondet.Proofs.Session.Names
import Nondet.Proofs.Session.Scopes
import Nondet.Proofs.Grammar.RoundTrip
import Nondet.Proofs.Pull.Limits
import Nondet.Proofs.Session.Limits
import Nondet.Proofs.Pull.Depth
import Nondet.Proofs.Session.Asks
import Nondet.Proofs.Session.Depth
import Nondet.Proofs.Grammar.Offsets
import Nondet.Proofs.Grammar.Spans
import Nondet.Proofs.Tree.Origin
import Nondet.Proofs.Pull.Blame
import Nondet.Proofs.Session.Transcript
import Nondet.Proofs.Session.Blame
import Nondet.Proofs.Session.Declarations
import Nondet.Proofs.Tree.Declarations
import Nondet.Proofs.Context.Pending
import Nondet.Proofs.Pull.Orderly
import Nondet.Proofs.Pull.Declarations
import Nondet.Proofs.Pull.Refusals
import Nondet.Proofs.Pull.Redeclarations
import Nondet.Proofs.Tree.Signal
import Nondet.Proofs.Pull.Signals
import Nondet.Proofs.Pull.Confined
import Nondet.Proofs.Pull.Exhausts
import Nondet.Proofs.Session.Control
import Nondet.Proofs.Grammar.Places
import Nondet.Proofs.Grammar.Compose
import Nondet.Proofs.Session.Custody
import Nondet.Proofs.Session.Drained
import Nondet.Proofs.Pull.Refers
import Nondet.Proofs.Session.Completion
import Nondet.Proofs.Frame.Covers
import Nondet.Proofs.Tree.Closed
import Nondet.Proofs.Pull.Closed
import Nondet.Proofs.Frame.Ground
import Nondet.Proofs.Context.Ground
import Nondet.Proofs.Pull.Ground
import Nondet.Proofs.Session.Closed
import Nondet.Proofs.Pull.Course
import Nondet.Proofs.Pull.Arguments
import Nondet.Proofs.Pull.Statements
import Nondet.Proofs.Pull.Growth
import Nondet.Proofs.Session.Definitions
import Nondet.Proofs.Report.Header
import Nondet.Proofs.Context.Undo
import Nondet.Proofs.Context.Again
import Nondet.Proofs.Grammar.Nested
import Nondet.Proofs.Tree.Preorder
import Nondet.Proofs.Frame.Lifecycle
import Nondet.Proofs.Quotation
import Nondet.Proofs.Session.Stringify
import Nondet.Proofs.Grammar.Rendering
import Nondet.Proofs.Pull.Ends
import Nondet.Proofs.Session.Founded
