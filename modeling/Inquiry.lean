import Inquiry.Message.Parts
import Inquiry.ParseError.Document
import Inquiry.Respondent.Budgeted
import Inquiry.Resumption.Document
import Inquiry.Proofs.CommandGrammar
import Inquiry.Proofs.DirectStyle
import Inquiry.Proofs.Histories
import Inquiry.Proofs.LayeredKnowledge
import Inquiry.Proofs.Nesting
import Inquiry.Proofs.Parentheses
import Inquiry.Proofs.Reserve
import Inquiry.Proofs.Resuming
import Inquiry.Proofs.Rounds
import Inquiry.Proofs.SlotNumbers
import Inquiry.Proofs.SourceText
import Inquiry.Proofs.Spending
import Inquiry.Proofs.Words
import Inquiry.Proofs.ChargedTurns
import Inquiry.Proofs.Limits
import Inquiry.Proofs.Faults
import Inquiry.Proofs.Closedness
import Inquiry.Proofs.Memoryless
import Inquiry.Proofs.Documents
import Inquiry.Proofs.LastWords
import Inquiry.Proofs.Fingerprints
import Inquiry.Proofs.DefaultShares
import Inquiry.Proofs.Visits
import Inquiry.Proofs.Substitution
import Inquiry.Proofs.Tokenization
import Inquiry.Proofs.Joining
import Inquiry.Proofs.ErrorLists
import Inquiry.Proofs.ErrorSpans
import Inquiry.Proofs.DisplayText
import Inquiry.Proofs.ChannelSource
import Inquiry.Proofs.Templates
import Inquiry.Proofs.StoredErrors
import Inquiry.Proofs.MessageNesting
