import Toolpath.Main
import Toolpath.Proofs.AppendedTexts
import Toolpath.Proofs.ArbitraryStreams
import Toolpath.Proofs.BufferedLines
import Toolpath.Proofs.CancelledRuns
import Toolpath.Proofs.CanonicalTexts
import Toolpath.Proofs.CycleReplay
import Toolpath.Proofs.DecimalCommas
import Toolpath.Proofs.DroppedCircles
import Toolpath.Proofs.FailedWrites
import Toolpath.Proofs.FormatGrammar
import Toolpath.Proofs.FormattedNumbers
import Toolpath.Proofs.LineCounts
import Toolpath.Proofs.NormalAngles
import Toolpath.Proofs.OperationStarts
import Toolpath.Proofs.OverlaidProfiles
import Toolpath.Proofs.PlannedOutputs
import Toolpath.Proofs.RegisterNames
import Toolpath.Proofs.RepeatedMoves
import Toolpath.Proofs.RestatedPositions
import Toolpath.Proofs.SplitStatements
import Toolpath.Proofs.StreamDigests
import Toolpath.Proofs.UnicodeTexts
import Toolpath.Proofs.WriterSessions
