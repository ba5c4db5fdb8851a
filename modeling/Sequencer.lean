import Sequencer.Builder.Call
import Sequencer.Completion.Text
import Sequencer.Main
import Sequencer.Rehearsal
import Sequencer.Restart
import Sequencer.Proofs.Events
import Sequencer.Proofs.Parts
import Sequencer.Proofs.Owners
import Sequencer.Proofs.Histories
import Sequencer.Proofs.Letters
import Sequencer.Proofs.Lifecycle
import Sequencer.Proofs.Consistency
import Sequencer.Proofs.Marks
import Sequencer.Proofs.Cascades
import Sequencer.Proofs.Provenance
import Sequencer.Proofs.TickDiscipline
import Sequencer.Proofs.Faces
import Sequencer.Proofs.FacesOfTicks
import Sequencer.Proofs.Definitions
import Sequencer.Proofs.FreshStart
import Sequencer.Proofs.Failures
import Sequencer.Proofs.Resumption
import Sequencer.Proofs.Draws
import Sequencer.Proofs.Splicing
import Sequencer.Proofs.Nesting
import Sequencer.Proofs.CallMoves
import Sequencer.Proofs.Grammar
import Sequencer.Proofs.News
import Sequencer.Proofs.Selections
import Sequencer.Proofs.Branches
import Sequencer.Proofs.Receipts
import Sequencer.Proofs.Accounts
import Sequencer.Proofs.Samplers
import Sequencer.Proofs.Streams
import Sequencer.Proofs.FloatOrder
import Sequencer.Proofs.Contracts
import Sequencer.Proofs.StandardContracts
import Sequencer.Proofs.Hive.Behaviors
import Sequencer.Proofs.Hive.Contracts
import Sequencer.Proofs.Hive.Safety
import Sequencer.Proofs.Turns
import Sequencer.Proofs.Companions
import Sequencer.Proofs.InstantLoops
import Sequencer.Proofs.Identities
import Sequencer.Proofs.Views
import Sequencer.Proofs.Hive.Independence
import Sequencer.Proofs.CountedPasses
import Sequencer.Proofs.GroupTicks
import Sequencer.Proofs.Choices
import Sequencer.Proofs.ChosenChildren
import Sequencer.Proofs.Journals
import Sequencer.Proofs.Chronicles
import Sequencer.Proofs.Callbacks
import Sequencer.Proofs.Waits
import Sequencer.Proofs.Hive.Brewing
import Sequencer.Proofs.Hive.Homecoming
import Sequencer.Proofs.Connectives
import Sequencer.Proofs.Membership
import Sequencer.Proofs.Hive.Conservation
import Sequencer.Proofs.Storage
