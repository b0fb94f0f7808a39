import TimingWheel.Identity
import TimingWheel.Main
import TimingWheel.Proofs.Armed
import TimingWheel.Proofs.Exclusivity
import TimingWheel.Proofs.Refinement
import TimingWheel.Proofs.Addition
import TimingWheel.Proofs.Accounting
import TimingWheel.Proofs.Exhaustion
import TimingWheel.Proofs.Settling
import TimingWheel.Proofs.Onward
import TimingWheel.Proofs.Spacing
import TimingWheel.Proofs.Lagging
import TimingWheel.Proofs.Silence
import TimingWheel.Proofs.Batch
import TimingWheel.Proofs.InFlight
import TimingWheel.Proofs.Isolation
import TimingWheel.Proofs.Closing
import TimingWheel.Proofs.Rearming
import TimingWheel.Proofs.Tally
import TimingWheel.Proofs.Soaking
import TimingWheel.Proofs.Pausing
import TimingWheel.Proofs.Shapes
import TimingWheel.Proofs.Overriding
import TimingWheel.Proofs.Cascading
import TimingWheel.Proofs.Delay
import TimingWheel.Proofs.Placement
import TimingWheel.Proofs.Encodings
import TimingWheel.Proofs.Starting
