import SoloRun.Main
import SoloRun.Proofs.Completed
import SoloRun.Proofs.Cutoff
import SoloRun.Proofs.Interruption
import SoloRun.Proofs.Readback
import SoloRun.Proofs.Exit
import SoloRun.Proofs.Accounts
import SoloRun.Proofs.Forwarding
import SoloRun.Proofs.Reordering
import SoloRun.Proofs.Withholding
import SoloRun.Proofs.Marked
import SoloRun.Proofs.Overwriting
import SoloRun.Proofs.EventLines
import SoloRun.Proofs.PassedNames
import SoloRun.Proofs.Curtailed
import SoloRun.Proofs.LostLines
import SoloRun.Proofs.OpenLines
import SoloRun.Proofs.Tallies
import SoloRun.Proofs.Captured
import SoloRun.Proofs.Stamps
import SoloRun.Proofs.Colourless
import SoloRun.Proofs.Arguments
import SoloRun.Proofs.Seconds
import SoloRun.Proofs.Tasks
