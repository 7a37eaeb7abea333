import SourceScan.Cursor.View
import SourceScan.Scan.Tokenize
import SourceScan.Config.Store
import SourceScan.Proofs.Place
import SourceScan.Proofs.Munch
import SourceScan.Proofs.Cutting
import SourceScan.Proofs.Delivery
import SourceScan.Proofs.MaximalMunch
import SourceScan.Proofs.Printing
import SourceScan.Proofs.Juxtaposition
import SourceScan.Proofs.Positions
import SourceScan.Proofs.Sessions
import SourceScan.Proofs.Reports
import SourceScan.Proofs.Lines
import SourceScan.Proofs.Policies
import SourceScan.Proofs.Comments
import SourceScan.Proofs.Recovery
import SourceScan.Proofs.Histories
import SourceScan.Proofs.PlainLoop
import SourceScan.Proofs.Progress
import SourceScan.Proofs.LineEndings
import SourceScan.Proofs.Lookahead
import SourceScan.Proofs.NumberValues
import SourceScan.Proofs.PlainNotation
import SourceScan.Proofs.Transcript
import SourceScan.Proofs.TokenDumps
import SourceScan.Proofs.SavedConfigs
import SourceScan.Proofs.Settings
import SourceScan.Proofs.Spans
import SourceScan.Proofs.Drafts
import SourceScan.Proofs.Codes
