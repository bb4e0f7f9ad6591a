import Chomsky.Main
import Chomsky.Proofs.Batch.Progress
import Chomsky.Proofs.Batch.Relaid
import Chomsky.Proofs.Grammar.Expansion
import Chomsky.Proofs.Grammar.Least
import Chomsky.Proofs.Line.Lossless
import Chomsky.Proofs.Line.Undefined
import Chomsky.Proofs.Recognition.Bounds
import Chomsky.Proofs.Recognition.Monotone
import Chomsky.Proofs.Recognition.Substrings
import Chomsky.Proofs.Report.Isolation
import Chomsky.Proofs.Report.Resubmission
import Chomsky.Proofs.Report.Unambiguous
import Chomsky.Proofs.Run.StoreRuns
import Chomsky.Proofs.Sentence.Drawn
import Chomsky.Proofs.Symbol.Histories
