import VerifierSession.Log.Entry
import VerifierSession.Main
import VerifierSession.Proofs.Delivery
import VerifierSession.Proofs.Marks
import VerifierSession.Proofs.Agreement
import VerifierSession.Proofs.Findings
import VerifierSession.Proofs.Orders
import VerifierSession.Proofs.Attention
import VerifierSession.Proofs.Renumbering
import VerifierSession.Proofs.Independence
import VerifierSession.Proofs.Stream
import VerifierSession.Proofs.Schedule
import VerifierSession.Proofs.Recutting
import VerifierSession.Proofs.Encoding
import VerifierSession.Proofs.Boundaries
import VerifierSession.Proofs.LineStarts
import VerifierSession.Proofs.Positions
import VerifierSession.Proofs.Grammar
import VerifierSession.Proofs.Spelling
import VerifierSession.Proofs.Skimming
import VerifierSession.Proofs.Reading
import VerifierSession.Proofs.Schema
import VerifierSession.Proofs.Unambiguity
import VerifierSession.Proofs.Accepting
import VerifierSession.Proofs.Recognition
import VerifierSession.Proofs.Words
import VerifierSession.Proofs.Interruptions
import VerifierSession.Proofs.Decoding
import VerifierSession.Proofs.Records
import VerifierSession.Proofs.Starting
import VerifierSession.Proofs.FileNames
import VerifierSession.Proofs.Strays
import VerifierSession.Proofs.Members
import VerifierSession.Proofs.Attributes
import VerifierSession.Proofs.Animation
import VerifierSession.Proofs.Excerpts
import VerifierSession.Proofs.Conclusion
import VerifierSession.Proofs.Watching
import VerifierSession.Proofs.Continuation
import VerifierSession.Proofs.Statements
import VerifierSession.Proofs.Tables
import VerifierSession.Proofs.Quoting
import VerifierSession.Proofs.Settings
import VerifierSession.Proofs.Chunks
import VerifierSession.Proofs.Calendar
import VerifierSession.Proofs.Entries
import VerifierSession.Proofs.TextBytes
import VerifierSession.Proofs.Accesses
