import ProofMiner.Main
import ProofMiner.Proofs.Field.Residues
import ProofMiner.Proofs.Field.Roots
import ProofMiner.Proofs.Field.Extension
import ProofMiner.Proofs.Transform.Loops
import ProofMiner.Proofs.Transform.Reversal
import ProofMiner.Proofs.Polynomial
import ProofMiner.Proofs.Transform.Fourier
import ProofMiner.Proofs.Transform.Butterflies
import ProofMiner.Proofs.Transform.Inversion
import ProofMiner.Proofs.Transform.Convolution
import ProofMiner.Proofs.Transform.InPlace
import ProofMiner.Proofs.Transform.Accesses
import ProofMiner.Proofs.Transform.Scheduling
import ProofMiner.Proofs.Transform.Permutation
import ProofMiner.Proofs.Domain.Soundness
import ProofMiner.Proofs.Domain.Interpolation
import ProofMiner.Proofs.Domain.Accounting
import ProofMiner.Proofs.Jet.Transparency
import ProofMiner.Proofs.Jet.Outcomes
import ProofMiner.Proofs.Jet.Statuses
import ProofMiner.Proofs.Prover.Digest
import ProofMiner.Proofs.Prover.Search
import ProofMiner.Proofs.Supervisor.Steps
import ProofMiner.Proofs.Supervisor.Runs
import ProofMiner.Proofs.Supervisor.Schedules
import ProofMiner.Proofs.Supervisor.Conservation
import ProofMiner.Proofs.Supervisor.Enabling
import ProofMiner.Proofs.Supervisor.Generations
import ProofMiner.Proofs.Supervisor.Slots
import ProofMiner.Proofs.Supervisor.Stopping
import ProofMiner.Proofs.Supervisor.Shutdown
import ProofMiner.Proofs.Supervisor.Killing
import ProofMiner.Proofs.Supervisor.Queueing
import ProofMiner.Proofs.Supervisor.Succession
import ProofMiner.Proofs.Supervisor.Ledger
import ProofMiner.Proofs.Supervisor.Delays
import ProofMiner.Proofs.Supervisor.Containment
import ProofMiner.Proofs.Supervisor.Directories
import ProofMiner.Proofs.Json.Faults
import ProofMiner.Proofs.Json.Members
import ProofMiner.Proofs.Json.RoundTrip
import ProofMiner.Proofs.Jet.Arguments
import ProofMiner.Proofs.Jet.Requests
import ProofMiner.Proofs.Wire.Formats
import ProofMiner.Proofs.Wire.Frames
import ProofMiner.Proofs.Wire.Refusals
import ProofMiner.Proofs.Wire.ProofSize
import ProofMiner.Proofs.Wire.Streams
import ProofMiner.Proofs.Node.Serving
import ProofMiner.Proofs.Node.Outbox
import ProofMiner.Proofs.Field.Words
import ProofMiner.Proofs.Field.Quotient
import ProofMiner.Proofs.Work.Records
import ProofMiner.Proofs.Work.Candidates
import ProofMiner.Proofs.Work.Payouts
import ProofMiner.Proofs.Work.MinedProofs
import ProofMiner.Proofs.Work.Grammar
import ProofMiner.Proofs.Work.Acceptance
import ProofMiner.Proofs.Settings.Sources
import ProofMiner.Proofs.Settings.Refusals
import ProofMiner.Proofs.Settings.Files
import ProofMiner.Proofs.Json.Conversions
import ProofMiner.Proofs.Settings.Numbers
import ProofMiner.Proofs.Settings.Environment
import ProofMiner.Proofs.Settings.Configuration
import ProofMiner.Proofs.Settings.Layering
import ProofMiner.Proofs.Field.Orders
import ProofMiner.Proofs.Field.Batches
import ProofMiner.Proofs.Polynomial.Denotation
import ProofMiner.Proofs.Prover.Construction
