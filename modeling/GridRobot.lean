import GridRobot.Main
import GridRobot.Proofs.Code.Inlining
import GridRobot.Proofs.Code.Diagnosis
import GridRobot.Proofs.Code.Segments
import GridRobot.Proofs.Code.Loops
import GridRobot.Proofs.Code.Excess
import GridRobot.Proofs.Machine.Meaning
import GridRobot.Proofs.Machine.Coherence
import GridRobot.Proofs.Machine.Client
import GridRobot.Proofs.Machine.Exhaustion
import GridRobot.Proofs.Machine.Counting
import GridRobot.Proofs.World.Contents
import GridRobot.Proofs.Scene.Sound
import GridRobot.Proofs.Scene.Deeds
import GridRobot.Proofs.Session.Reachable
import GridRobot.Proofs.Session.Safety
import GridRobot.Proofs.Session.Freshness
import GridRobot.Proofs.Session.Progress
import GridRobot.Proofs.Session.BinaryRoundTrip
import GridRobot.Proofs.Session.Running
import GridRobot.Proofs.Session.Refusals
import GridRobot.Proofs.Session.Files
import GridRobot.Proofs.Session.Relevance
import GridRobot.Proofs.Session.Truncation
import GridRobot.Proofs.Session.Guarded
import GridRobot.Proofs.Command.Tracing
import GridRobot.Proofs.Scene.Undoing
import GridRobot.Proofs.World.Construction
import GridRobot.Proofs.Session.Highlight
import GridRobot.Proofs.Machine.Listed
import GridRobot.Proofs.Code.Recovery
import GridRobot.Proofs.World.Views
import GridRobot.Proofs.Code.Stacks
import GridRobot.Machine.Registers
import GridRobot.Proofs.Machine.Registers
import GridRobot.Proofs.Session.Registers
